import SSize.Events
import SSize.Lib.Handoff
import SSize.Lib.Runs

/-!
# The history of an event queue

Each call holds the mutex for its whole body, so what any number of producers and
the consumer do is a list of calls, and every interleaving is one. What the calls
gave back is read off the trace of the run. The queue is a hand-over that never
loses anything: what has been drained counts as delivered.
-/

namespace SSize

open Lib

variable {Producer : Type*}

inductive QueueCall (Producer : Type*) where
  | push (producer : Producer) (ev : Event)
  | drain (out : List Event)

namespace EventQueue

/-- Both calls can be made in every state. -/
def step (q : EventQueue) : QueueCall Producer → Option EventQueue
  | .push _ ev => some (q.push ev).1
  | .drain out => some (q.drain out).1

/-- The calls that were made, each with the queue that it found. -/
abbrev Calls (Producer : Type*) := List (EventQueue × QueueCall Producer)

def calls (capacity : Nat) (acts : List (QueueCall Producer)) : Calls Producer :=
  Runs.trace step (.empty capacity) acts

/-- The event of a push that returned true. -/
def acceptedBy : EventQueue × QueueCall Producer → Option Event
  | (q, .push _ ev) => if (q.push ev).2 then some ev else none
  | (_, .drain _) => none

/-- Whether a call is a push that returned false. -/
def refusedBy : EventQueue × QueueCall Producer → Bool
  | (q, .push _ ev) => !(q.push ev).2
  | (_, .drain _) => false

/-- What a drain left in its output vector. -/
def drainedBy : EventQueue × QueueCall Producer → Option (List Event)
  | (_, .push _ _) => none
  | (q, .drain out) => some (q.drain out).2

/-- The queue as a hand-over: nothing is between the queue and the drained batches,
and nothing gets lost. -/
def handoff (calls : Calls Producer) (q : EventQueue) : Handoff Event where
  accepted := calls.filterMap acceptedBy
  pending := q.pending
  batch := []
  done := (calls.filterMap drainedBy).flatten
  lost := []

/-- The invariant of the calls so far and the queue that they left behind. -/
structure Accounted (capacity : Nat) (calls : Calls Producer) (q : EventQueue) : Prop where
  maxPending : q.maxPending = capacity
  handedOver : (handoff calls q).Sound
  found : ∀ call ∈ calls, call.1.maxPending = capacity
  dropped : q.dropped = calls.countP refusedBy

theorem accounted_start (capacity : Nat) :
    @Accounted Producer capacity [] (.empty capacity) where
  maxPending := rfl
  handedOver := Handoff.sound_start
  found _ hcall := absurd hcall List.not_mem_nil
  dropped := rfl

variable {capacity : Nat} {calls : Calls Producer} {q : EventQueue}

/-- A push accepts its event at the end of the queue, or counts it as dropped. -/
theorem Accounted.push (h : Accounted capacity calls q) (producer : Producer) (ev : Event) :
    Accounted capacity (calls ++ [(q, .push producer ev)]) (q.push ev).1 := by
  have hfound : ∀ call ∈ calls ++ [(q, .push producer ev)], call.1.maxPending = capacity := by
    intro call hcall
    rcases List.mem_append.1 hcall with hearlier | hlast
    · exact h.found call hearlier
    · rw [List.mem_singleton.1 hlast]
      exact h.maxPending
  cases hpush : q.push ev with
  | mk q' accepted =>
      cases accepted with
      | true =>
          obtain ⟨hpending, hdropped, hmax⟩ := push_accepted hpush
          refine ⟨hmax.trans h.maxPending, ?_, hfound, ?_⟩
          · have hmove := Handoff.Move.accept (handoff calls q) ev
            have hnext : handoff (calls ++ [(q, .push producer ev)]) q' =
                { handoff calls q with
                  accepted := (handoff calls q).accepted ++ [ev]
                  pending := (handoff calls q).pending ++ [ev] } := by
              simp [handoff, acceptedBy, drainedBy, hpush, hpending]
            rw [hnext]
            exact hmove.sound h.handedOver
          · simp [refusedBy, hpush, hdropped, h.dropped]
      | false =>
          obtain ⟨hpending, hdropped, hmax⟩ := push_refused hpush
          refine ⟨hmax.trans h.maxPending, ?_, hfound, ?_⟩
          · have hsame : handoff (calls ++ [(q, .push producer ev)]) q' = handoff calls q := by
              simp [handoff, acceptedBy, drainedBy, hpush, hpending]
            rw [hsame]
            exact h.handedOver
          · simp [refusedBy, hpush, hdropped, h.dropped]

/-- A drain takes all that is pending, whatever the output vector held before. -/
theorem Accounted.drain (h : Accounted capacity calls q) (out : List Event) :
    Accounted capacity (calls ++ [(q, .drain out)]) (q.drain out).1 := by
  refine ⟨h.maxPending, ?_, ?_, ?_⟩
  · have htake := (Handoff.Move.drain (handoff calls q) rfl).sound h.handedOver
    have hdeliver := Handoff.Move.deliver
      { handoff calls q with batch := (handoff calls q).pending, pending := [] }
      (handoff calls q).pending [] (List.append_nil _).symm
    have hnext : handoff (calls ++ [(q, .drain out)]) (q.drain out).1 =
        { handoff calls q with
          pending := []
          done := (handoff calls q).done ++ (handoff calls q).pending } := by
      simp [handoff, acceptedBy, drainedBy]
    rw [hnext]
    exact hdeliver.sound htake
  · intro call hcall
    rcases List.mem_append.1 hcall with hearlier | hlast
    · exact h.found call hearlier
    · rw [List.mem_singleton.1 hlast]
      exact h.maxPending
  · have hkept : (q.drain out).1.dropped = q.dropped := rfl
    rw [hkept, h.dropped, List.countP_append]
    simp [refusedBy]

theorem Accounted.step {q' : EventQueue} {call : QueueCall Producer}
    (h : Accounted capacity calls q) (hstep : q.step call = some q') :
    Accounted capacity (calls ++ [(q, call)]) q' := by
  cases call with
  | push producer ev =>
      cases hstep
      exact h.push producer ev
  | drain out =>
      cases hstep
      exact h.drain out

/-- Every list of calls can be made, and it is accounted for at its end. -/
theorem accounted_run (capacity : Nat) (acts : List (QueueCall Producer)) :
    ∃ q, Runs.exec step (.empty capacity) acts = some q ∧
      Accounted capacity (EventQueue.calls capacity acts) q := by
  have htotal : ∀ (q : EventQueue) (acts : List (QueueCall Producer)),
      ∃ q', Runs.exec step q acts = some q' := by
    intro q acts
    induction acts generalizing q with
    | nil => exact ⟨q, rfl⟩
    | cons act acts ih =>
        cases act with
        | push producer ev => exact ih (q.push ev).1
        | drain out => exact ih (q.drain out).1
  obtain ⟨q, hrun⟩ := htotal (.empty capacity) acts
  refine ⟨q, hrun, ?_⟩
  have hend : Accounted capacity ([] ++ EventQueue.calls capacity acts) q :=
    Runs.exec_trace_invariant (fun _ _ _ _ _ h _ hstep => h.step hstep)
      (accounted_start capacity) rfl hrun
  rwa [List.nil_append] at hend

/-- A push is refused by a full queue and by no other. -/
theorem push_refuses_iff (q : EventQueue) (ev : Event) :
    (q.push ev).2 = false ↔ q.pending.length = q.maxPending := by
  have haccepts := push_accepts_iff q ev
  have hbounded := q.bounded
  rw [← Bool.not_eq_true, haccepts]
  omega

/-- Over every interleaving: the drained batches and the pending events are the
accepted events in their order, the capacity is never exceeded, exactly the full
queue refuses, and `dropped` counts the refusals. -/
theorem run_accounts (capacity : Nat) (acts : List (QueueCall Producer)) :
    ∃ q, Runs.exec step (.empty capacity) acts = some q ∧
      ((EventQueue.calls capacity acts).filterMap drainedBy).flatten ++ q.pending =
        (EventQueue.calls capacity acts).filterMap acceptedBy ∧
      q.pending.length ≤ capacity ∧
      (∀ found call, (found, call) ∈ EventQueue.calls capacity acts →
        found.pending.length ≤ capacity ∧
          ∀ producer ev, call = .push producer ev →
            ((found.push ev).2 = false ↔ found.pending.length = capacity)) ∧
      q.dropped = (EventQueue.calls capacity acts).countP refusedBy := by
  obtain ⟨q, hrun, haccounted⟩ := accounted_run capacity acts
  have horder := haccounted.handedOver.inOrder rfl
  refine ⟨q, hrun, ?_, ?_, ?_, haccounted.dropped⟩
  · simpa [Handoff.InOrder, handoff] using horder.symm
  · exact haccounted.maxPending ▸ q.bounded
  · intro found call hcall
    have hmax : found.maxPending = capacity := haccounted.found _ hcall
    refine ⟨hmax ▸ found.bounded, fun producer ev _ => ?_⟩
    rw [push_refuses_iff, hmax]

/-- Two producers at a queue for two events; the drain is given a vector that is not empty. -/
example :
    (EventQueue.calls 2 [.push 0 { ts := 1 }, .push 1 { ts := 2 }, .push 0 { ts := 3 },
        .drain [{ ts := 9 }], .push 1 { ts := 4 }]).filterMap acceptedBy =
      [{ ts := 1 }, { ts := 2 }, { ts := 4 }] := by
  decide

end EventQueue

end SSize

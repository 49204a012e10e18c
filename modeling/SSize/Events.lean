import SSize.Models

/-!
# The queues between the HTTP thread and the database thread (`events.cpp`)

Every operation takes the mutex for its whole body, so each is one atomic step.
-/

namespace SSize

/-- `EventQueue`: at most `maxPending` events wait, the rest is counted. -/
structure EventQueue where
  pending : List Event
  maxPending : Nat
  dropped : Nat
  bounded : pending.length ≤ maxPending

namespace EventQueue

def empty (maxPending : Nat) : EventQueue := ⟨[], maxPending, 0, Nat.zero_le _⟩

def push (q : EventQueue) (ev : Event) : EventQueue × Bool :=
  if h : q.pending.length ≥ q.maxPending then
    ({ q with dropped := q.dropped + 1 }, false)
  else
    ({ q with
        pending := q.pending ++ [ev]
        bounded := by rw [List.length_append, List.length_singleton]; omega }, true)

/-- Swaps `pending_` with the caller's vector, which was cleared first. -/
def drain (q : EventQueue) (_out : List Event) : EventQueue × List Event :=
  ({ q with pending := [], bounded := Nat.zero_le _ }, q.pending)

theorem push_accepted {q q' : EventQueue} {ev : Event} (h : q.push ev = (q', true)) :
    q'.pending = q.pending ++ [ev] ∧ q'.dropped = q.dropped ∧
      q'.maxPending = q.maxPending := by
  unfold push at h
  split at h
  · simp at h
  · simp only [Prod.mk.injEq, and_true] at h
    subst h
    exact ⟨rfl, rfl, rfl⟩

theorem push_refused {q q' : EventQueue} {ev : Event} (h : q.push ev = (q', false)) :
    q'.pending = q.pending ∧ q'.dropped = q.dropped + 1 ∧
      q'.maxPending = q.maxPending := by
  unfold push at h
  split at h
  · simp only [Prod.mk.injEq, and_true] at h
    subst h
    exact ⟨rfl, rfl, rfl⟩
  · simp at h

theorem push_accepts_iff (q : EventQueue) (ev : Event) :
    (q.push ev).2 = true ↔ q.pending.length < q.maxPending := by
  unfold push
  split
  · next h => simp [Nat.not_lt.2 h]
  · next h => simp [Nat.not_le.1 h]

@[simp] theorem drain_snd (q : EventQueue) (out : List Event) :
    (q.drain out).2 = q.pending := rfl

@[simp] theorem drain_pending (q : EventQueue) (out : List Event) :
    (q.drain out).1.pending = [] := rfl

end EventQueue

/-- `ConversionQueue`: no cap, a postback is never refused. -/
structure ConversionQueue where
  pending : List Conversion := []

namespace ConversionQueue

def push (q : ConversionQueue) (c : Conversion) : ConversionQueue × Bool :=
  ({ q with pending := q.pending ++ [c] }, true)

def drain (q : ConversionQueue) (_out : List Conversion) :
    ConversionQueue × List Conversion :=
  ({ q with pending := [] }, q.pending)

end ConversionQueue

end SSize

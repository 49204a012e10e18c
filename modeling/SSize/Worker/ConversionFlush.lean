import SSize.Worker.Ledger

/-!
# Failing conversion writes

`DbWorker::flush_conversions` drains the queue and writes row by row, with no
transaction. A throw at one row destroys that row and the rest of the vector:
the prefix has been processed, the suffix never will be. What is still queued is
processed by the next ticks, in order: `served_of_idle`.
-/

namespace SSize

open Lib

def RecordReturns (s : Pipeline) : Act → Prop
  | .worker env =>
      match s.pc.conversions with
      | [] => True
      | c :: _ => RecordsCleanly env.record s.db c
  | _ => True

instance (s : Pipeline) (a : Act) : Decidable (RecordReturns s a) :=
  match a with
  | .worker env =>
      match h : s.pc.conversions with
      | [] => isTrue (by simp [RecordReturns, h])
      | c :: _ => decidable_of_iff (RecordsCleanly env.record s.db c) (by simp [RecordReturns, h])
  | .push _ | .postback _ _ | .stopServer | .stopWorker => isTrue trivial

variable (kopeksOf : Text → Option Kopek) (cfg : Config)

/-- The worker, left alone and undisturbed, gets to a state in which exactly
`postbacks` have been processed, in this order. -/
def Served (postbacks : List Conversion) (s : Pipeline) : Prop :=
  ∃ n t, Runs.exec (step kopeksOf cfg) s (List.replicate n (.worker {})) = some t ∧
    t.seen.judged.map Judgement.conversion = postbacks

/-- Every acknowledged postback has been processed or is queued, in order, and a
worker that is not told to stop gets to the queued ones. -/
structure PostbacksKept (s : Pipeline) : Prop where
  waiting : s.seen.acked.map Prod.fst =
    s.seen.judged.map Judgement.conversion ++ s.conversions.pending
  served : s.running = true → s.pc.leaving = false →
    Served kopeksOf cfg (s.seen.acked.map Prod.fst) s

variable {kopeksOf cfg} {db₀ : Db} {s t : Pipeline}

/-! ## The next ticks reach the queue -/

theorem Served.head {postbacks : List Conversion}
    (hstep : step kopeksOf cfg s (.worker {}) = some t)
    (ht : Served kopeksOf cfg postbacks t) : Served kopeksOf cfg postbacks s := by
  obtain ⟨n, u, hrun, hdone⟩ := ht
  refine ⟨n + 1, u, ?_, hdone⟩
  rw [List.replicate_succ, Runs.exec_cons, hstep]
  exact hrun

theorem served_of_batch {batch : List Conversion} (hpc : s.pc = .recordConversions batch)
    (hbatch : ∀ c ∈ batch, c.Accepted) :
    Served kopeksOf cfg (s.seen.judged.map Judgement.conversion ++ batch) s := by
  induction batch generalizing s with
  | nil => exact ⟨0, s, rfl, by rw [List.append_nil]⟩
  | cons c rest ih =>
      have hclean : RecordsCleanly {} s.db c :=
        ⟨rfl, fun _ => ⟨rfl, (hbatch c List.mem_cons_self).status⟩⟩
      have hm : Moves kopeksOf cfg s (.worker {}) _ := .judge hpc hclean
      have hserved := Served.head (hm.step_eq rfl)
        (ih rfl fun x hx => hbatch x (List.mem_cons_of_mem c hx))
      simpa using hserved

theorem served_of_drain (hpc : s.pc = .drainConversions)
    (hqueue : ∀ c ∈ s.conversions.pending, c.Accepted) :
    Served kopeksOf cfg
      (s.seen.judged.map Judgement.conversion ++ s.conversions.pending) s := by
  have hm : Moves kopeksOf cfg s (.worker {}) _ := .drainConversions hpc
  apply Served.head (hm.step_eq rfl)
  exact served_of_batch rfl hqueue

/-- The worker is in its loop, between two batches of postbacks. -/
structure Idle (judged queued : List Conversion) (s : Pipeline) : Prop where
  running : s.running = true
  looping : s.pc.leaving = false
  idle : s.pc.conversions = []
  judged : s.seen.judged.map Judgement.conversion = judged
  queued : s.conversions.pending = queued

/-- How far the drain of the postbacks is. An event flush that throws skips it and
costs one more tick, with the event queue empty by then. -/
def Pipeline.ahead (s : Pipeline) : Nat :=
  (match s.pc with
    | .insertEvents [] => 1
    | .drainEvents => 2
    | .refresh => 3
    | .loopHead => 4
    | .sleep => 5
    | .maintenance => 6
    | .recordConversions _ => 7
    | .insertEvents _ => 7
    | _ => 0) +
    if s.events.pending = [] then 0 else 6

theorem Idle.step {judged queued : List Conversion} (hs : Idle judged queued s)
    (hpc : s.pc ≠ .drainConversions) :
    ∃ t, step kopeksOf cfg s (.worker {}) = some t ∧ Idle judged queued t ∧
      t.ahead < s.ahead := by
  have hexit : s.pc ≠ .exited := by
    intro h
    have hlooping := hs.looping
    rw [h] at hlooping
    simp [Pc.leaving] at hlooping
  obtain ⟨t, ht⟩ := workerStep_isSome cfg {} hexit
  refine ⟨t, ht, ?_⟩
  obtain ⟨hrunning, hlooping, hidle, hjudged, hqueued⟩ := hs
  have hm := workerStep_moves kopeksOf cfg ht
  cases hm with
  | leave _ hstopped => simp [hrunning] at hstopped
  | drainConversions h => exact absurd h hpc
  | judge h _ | judgeFails h _ => simp [h, Pc.conversions] at hidle
  | drainEvents h =>
      rcases h with ⟨h, rfl⟩ | ⟨h, rfl⟩
      · refine ⟨⟨hrunning, rfl, rfl, hjudged, hqueued⟩, ?_⟩
        cases hp : s.events.pending <;> simp [Pipeline.ahead, h, hp]
      · simp [h, Pc.leaving] at hlooping
  | @write _ batch db pc h _ _ =>
      rcases h with ⟨h, rfl⟩ | ⟨h, rfl⟩
      · refine ⟨⟨hrunning, rfl, rfl, hjudged, hqueued⟩, ?_⟩
        cases batch <;> simp [Pipeline.ahead, h]
      · simp [h, Pc.leaving] at hlooping
  | @writeFails _ batch pc h hclean =>
      rcases h with ⟨h, rfl⟩ | ⟨h, rfl⟩
      · refine ⟨⟨hrunning, rfl, rfl, hjudged, hqueued⟩, ?_⟩
        cases batch with
        | nil => exact absurd (Or.inl rfl) hclean
        | cons ev rest => simp [Pipeline.ahead, h]
      · simp [h, Pc.leaving] at hlooping
  | enter h _ | refresh h | flushed h | maintain h _ _ | maintainFails h _ _
  | maintainLater h _ | wake h =>
      refine ⟨⟨hrunning, rfl, rfl, hjudged, hqueued⟩, ?_⟩
      simp [Pipeline.ahead, h]

theorem served_of_idle {judged queued : List Conversion} (hs : Idle judged queued s)
    (haccepted : ∀ c ∈ queued, c.Accepted) : Served kopeksOf cfg (judged ++ queued) s := by
  induction hn : s.ahead using Nat.strong_induction_on generalizing s with
  | _ n ih =>
      by_cases hpc : s.pc = .drainConversions
      · have hqueue : ∀ c ∈ s.conversions.pending, c.Accepted := by
          rw [hs.queued]
          exact haccepted
        rw [← hs.judged, ← hs.queued]
        exact served_of_drain hpc hqueue
      · obtain ⟨t, ht, hidle, hlt⟩ : ∃ t, SSize.step kopeksOf cfg s (.worker {}) = some t ∧
          Idle judged queued t ∧ t.ahead < s.ahead := hs.step hpc
        exact (ih t.ahead (hn ▸ hlt) hidle rfl).head ht

/-! ## Losing the rest of a batch -/

theorem postbacksKept_iff (hl : Ledger db₀ s) (hidle : s.pc.conversions = []) :
    PostbacksKept kopeksOf cfg s ↔ s.seen.lostConversions = [] := by
  have horder := hl.conversions.inOrder_iff
  have hin : s.conversionHandoff.InOrder ↔ s.seen.acked.map Prod.fst =
      s.seen.judged.map Judgement.conversion ++ s.conversions.pending := by
    unfold Handoff.InOrder Pipeline.conversionHandoff
    rw [hidle, List.append_nil]
  rw [hin] at horder
  constructor
  · intro hkept
    exact horder.1 hkept.waiting
  · intro hlost
    have hwaiting := horder.2 hlost
    refine ⟨hwaiting, fun hrunning hlooping => ?_⟩
    rw [hwaiting]
    apply served_of_idle ⟨hrunning, hlooping, hidle, rfl, rfl⟩
    intro c hc
    exact hl.queued c (List.mem_append_right _ hc)

theorem Moves.lostConversions {a : Act} (hm : Moves kopeksOf cfg s a t) :
    RecordReturns s a ∧ t.seen.lostConversions = s.seen.lostConversions ∨
      ¬ RecordReturns s a ∧ s.pc.conversions ≠ [] ∧
        t.seen.lostConversions = s.seen.lostConversions ++ s.pc.conversions := by
  cases hm with
  | accept _ _ | refuse _ _ | reject _ _ | ack _ _ | stopServer | stopWorker _ =>
      exact Or.inl ⟨trivial, rfl⟩
  | judge hpc hclean =>
      refine Or.inl ⟨?_, rfl⟩
      simpa [RecordReturns, hpc, Pc.conversions] using hclean
  | judgeFails hpc hclean =>
      refine Or.inr ⟨?_, ?_, ?_⟩
      · simpa [RecordReturns, hpc, Pc.conversions] using hclean
      · simp [hpc, Pc.conversions]
      · simp [hpc, Pc.conversions]
  | drainEvents hpc | write hpc _ _ | writeFails hpc _ =>
      refine Or.inl ⟨?_, rfl⟩
      rcases hpc with ⟨hpc, -⟩ | ⟨hpc, -⟩ <;> simp [RecordReturns, hpc, Pc.conversions]
  | enter hpc _ | leave hpc _ | refresh hpc | drainConversions hpc | flushed hpc
  | maintain hpc _ _ | maintainFails hpc _ _ | maintainLater hpc _ | wake hpc =>
      refine Or.inl ⟨?_, rfl⟩
      simp [RecordReturns, hpc, Pc.conversions]

/-- Between two batches every acknowledged postback is kept exactly when no
`record_conversion` call has thrown so far. -/
theorem postbacksKept_iff_along {started : Int} {as : List Act}
    (hrun : Runs.exec (step kopeksOf cfg) (Pipeline.init cfg db₀ started) as = some s)
    (hidle : s.pc.conversions = []) :
    PostbacksKept kopeksOf cfg s ↔
      Runs.Along (step kopeksOf cfg) RecordReturns (Pipeline.init cfg db₀ started) as := by
  have hinit := Ledger.init cfg db₀ started
  rw [postbacksKept_iff (hinit.run hrun) hidle]
  have hiff := Runs.along_iff_measure (C := RecordReturns) (I := Ledger db₀)
    (fun u => u.seen.lostConversions.length) ?_ ?_ ?_ hinit hrun
  · rw [← hiff]
    exact List.length_eq_zero_iff.symm
  · intro u a v hu huv
    exact hu.step huv
  · intro u a v hu hreturns huv
    rcases (step_moves kopeksOf cfg huv).lostConversions with ⟨-, hlost⟩ | ⟨hnot, -, -⟩
    · exact congrArg List.length hlost
    · exact absurd hreturns hnot
  · intro u a v hu hnot huv
    rcases (step_moves kopeksOf cfg huv).lostConversions with ⟨hreturns, -⟩ | ⟨-, hbatch, hlost⟩
    · exact absurd hreturns hnot
    · have hpos := List.length_pos_iff.2 hbatch
      simp only [hlost, List.length_append]
      omega

/-- Two postbacks, the first of them for an unknown click, and two ticks. -/
theorem postbacksKept_two_ticks :
    ∃ s, Runs.exec (step (fun _ => none) { postbackSecret := bytes "s" })
        (Pipeline.init { postbackSecret := bytes "s" } {} 0)
        (.postback 0 (signedQuery (bytes "s") (bytes "t")) ::
          .postback 0 (signedQuery (bytes "s") (bytes "u")) ::
          List.replicate 18 (.worker {})) = some s ∧
      s.seen.judged.length = 2 ∧
      PostbacksKept (fun _ => none) { postbackSecret := bytes "s" } s := by
  have hrun : (Runs.exec (step (fun _ => none) { postbackSecret := bytes "s" })
      (Pipeline.init { postbackSecret := bytes "s" } {} 0)
      (.postback 0 (signedQuery (bytes "s") (bytes "t")) ::
        .postback 0 (signedQuery (bytes "s") (bytes "u")) ::
        List.replicate 18 (.worker {}))).map
        (fun s => (s.pc.conversions, s.seen.judged.length)) = some ([], 2) := by decide
  obtain ⟨s, hs, hend⟩ := Option.map_eq_some_iff.1 hrun
  rw [Prod.mk.injEq] at hend
  exact ⟨s, hs, hend.2, (postbacksKept_iff_along hs hend.1).2 (by decide)⟩

/-- The first of two drained postbacks meets a locked database: the second one
is gone as well. -/
theorem busy_write_loses_postbacks :
    ¬ ∀ (kopeksOf : Text → Option Kopek) (cfg : Config) (db₀ : Db) (started : Int)
        (as : List Act) (s : Pipeline),
      Runs.exec (step kopeksOf cfg) (Pipeline.init cfg db₀ started) as = some s →
        s.pc.conversions = [] → PostbacksKept kopeksOf cfg s := by
  intro h
  have hrun : Runs.exec (step (fun _ => none) { postbackSecret := bytes "s" })
      (Pipeline.init { postbackSecret := bytes "s" } {} 0)
      [.postback 0 (signedQuery (bytes "s") (bytes "t")),
        .postback 0 (signedQuery (bytes "s") (bytes "u")),
        .worker {}, .worker {}, .worker {}, .worker {}, .worker {},
        .worker { record := { check := true } }] = some _ := rfl
  have hkept := h _ _ _ _ _ _ hrun rfl
  exact absurd hkept.waiting (by decide)

end SSize

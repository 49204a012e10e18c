import SSize.Worker.Ledger

/-!
# The orderly shutdown

`main` joins the HTTP thread, then `DbWorker::stop` clears `running_` and joins
the worker. The exit path of `DbWorker::run` flushes the events once more and
never looks at the other queue, so what decides the fate of the postbacks is the
state in which the loop condition fails.
-/

namespace SSize

open Lib

/-- Everything that was accepted has been handed to its statement, and both
queues are empty. -/
structure NothingLost (s : Pipeline) : Prop where
  events : s.seen.accepted = s.seen.written
  postbacks : s.seen.acked.map Prod.fst = s.seen.judged.map Judgement.conversion
  noEvent : s.events.pending = []
  noPostback : s.conversions.pending = []

structure LoopOver (s : Pipeline) : Prop where
  atHead : s.pc = .loopHead
  stopped : s.running = false

/-- From the end of the loop on, with the postbacks `left` still queued. -/
structure Leaving (left : List Conversion) (s : Pipeline) : Prop where
  joined : s.serving = false
  stopped : s.running = false
  path : s.pc = .loopHead ∨ s.pc = .finalDrain ∨
    ((∃ batch, s.pc = .finalInsert batch) ∨ s.pc = .exited) ∧ s.events.pending = []
  left : s.conversions.pending = left

def LeavesNoPostback (s : Pipeline) (_ : Act) : Prop :=
  LoopOver s → s.conversions.pending = []

instance (s : Pipeline) : Decidable (LoopOver s) :=
  decidable_of_iff (s.pc = .loopHead ∧ s.running = false)
    ⟨fun h => ⟨h.1, h.2⟩, fun h => ⟨h.atHead, h.stopped⟩⟩

instance (s : Pipeline) (a : Act) : Decidable (LeavesNoPostback s a) :=
  inferInstanceAs (Decidable (LoopOver s → _))

variable {kopeksOf : Text → Option Kopek} {cfg : Config} {db₀ : Db} {s t : Pipeline}

theorem Leaving.step {left : List Conversion} {a : Act} (hs : Leaving left s)
    (h : step kopeksOf cfg s a = some t) : Leaving left t := by
  obtain ⟨hjoined, hstopped, hpath, hleft⟩ := hs
  have hm := step_moves kopeksOf cfg h
  cases hm with
  | accept hserving _ | refuse hserving _ | reject hserving _ | ack hserving _ =>
      rw [hjoined] at hserving
      simp at hserving
  | stopServer => exact ⟨rfl, hstopped, hpath, hleft⟩
  | stopWorker hserving => exact ⟨hjoined, rfl, hpath, hleft⟩
  | enter hpc hrunning =>
      rw [hstopped] at hrunning
      simp at hrunning
  | leave hpc hrunning => exact ⟨hjoined, hstopped, Or.inr (Or.inl rfl), hleft⟩
  | drainEvents hpc =>
      rcases hpc with ⟨hpc, rfl⟩ | ⟨hpc, rfl⟩
      · simp [hpc] at hpath
      · exact ⟨hjoined, hstopped, Or.inr (Or.inr ⟨Or.inl ⟨_, rfl⟩, rfl⟩), hleft⟩
  | write hpc _ _ | writeFails hpc _ =>
      rcases hpc with ⟨hpc, rfl⟩ | ⟨hpc, rfl⟩
      · simp [hpc] at hpath
      · have hempty : s.events.pending = [] := by simpa [hpc] using hpath
        exact ⟨hjoined, hstopped, Or.inr (Or.inr ⟨Or.inr rfl, hempty⟩), hleft⟩
  | refresh hpc | drainConversions hpc | flushed hpc | judge hpc _ | judgeFails hpc _
  | maintain hpc _ _ | maintainFails hpc _ _ | maintainLater hpc _ | wake hpc =>
      simp [hpc] at hpath

theorem Leaving.run {left : List Conversion} {as : List Act} (hs : Leaving left s)
    (h : Runs.exec (SSize.step kopeksOf cfg) s as = some t) : Leaving left t := by
  apply Runs.exec_invariant (I := Leaving left) ?_ hs h
  intro u a v hu huv
  exact hu.step huv

theorem LoopOver.leaving (hl : Ledger db₀ s) (hover : LoopOver s) :
    Leaving s.conversions.pending s := by
  have hjoined := hl.joined hover.stopped
  exact ⟨hjoined, hover.stopped, Or.inl hover.atHead, rfl⟩

theorem Leaving.nothingLost_iff {left : List Conversion} (hl : Ledger db₀ t)
    (hs : Leaving left t) (hexit : t.pc = .exited) (hquiet : t.seen.failures = 0) :
    NothingLost t ↔ left = [] := by
  have hempty : t.events.pending = [] := by simpa [hexit] using hs.path
  obtain ⟨hevents, hconversions⟩ := hl.quiet hquiet
  have hin : t.seen.accepted = t.seen.written ++ t.pc.events ++ t.events.pending :=
    hl.events.inOrder hevents
  have hout : t.seen.acked.map Prod.fst =
      t.seen.judged.map Judgement.conversion ++ t.pc.conversions ++ t.conversions.pending :=
    hl.conversions.inOrder hconversions
  rw [hexit, hempty] at hin
  rw [hexit, hs.left] at hout
  simp only [Pc.events, Pc.conversions, List.append_nil] at hin hout
  constructor
  · intro hlost
    have hleft := hlost.noPostback
    rw [hs.left] at hleft
    exact hleft
  · intro hleft
    rw [hleft, List.append_nil] at hout
    exact ⟨hin, hout, hempty, hs.left.trans hleft⟩

/-- The exit path is entered from the loop head only. -/
theorem Moves.leaving {a : Act} (hm : Moves kopeksOf cfg s a t) (hs : s.pc.leaving = false)
    (hover : ¬ LoopOver s) : t.pc.leaving = false := by
  cases hm with
  | leave hpc hrunning => exact absurd ⟨hpc, hrunning⟩ hover
  | drainEvents hpc | write hpc _ _ | writeFails hpc _ =>
      rcases hpc with ⟨hpc, rfl⟩ | ⟨hpc, rfl⟩
      · rfl
      · simp [hpc, Pc.leaving] at hs
  | accept _ _ | refuse _ _ | reject _ _ | ack _ _ | stopServer | stopWorker _ => exact hs
  | _ => rfl

theorem nothingLost_iff_of_ledger {as : List Act} (hl : Ledger db₀ s)
    (hs : s.pc.leaving = false)
    (hrun : Runs.exec (step kopeksOf cfg) s as = some t) (hexit : t.pc = .exited)
    (hquiet : t.seen.failures = 0) :
    NothingLost t ↔ Runs.Along (step kopeksOf cfg) LeavesNoPostback s as := by
  induction as generalizing s with
  | nil =>
      cases hrun
      simp [hexit, Pc.leaving] at hs
  | cons a as ih =>
      by_cases hover : LoopOver s
      · have hleaving := hover.leaving hl
        have hend := (hleaving.run hrun).nothingLost_iff (hl.run hrun) hexit hquiet
        rw [hend]
        constructor
        · intro hnone
          apply Runs.along_of_invariant (I := Leaving s.conversions.pending) ?_ ?_ hleaving
          · intro u b v hu huv
            exact hu.step huv
          · intro u b hu _
            rw [hu.left]
            exact hnone
        · intro halong
          exact halong.1 hover
      · obtain ⟨u, hu, hrest⟩ := Runs.exec_cons_eq_some.1 hrun
        have hnext := (step_moves kopeksOf cfg hu).leaving hs hover
        rw [ih (hl.step hu) hnext hrest]
        constructor
        · intro halong
          refine ⟨fun h => absurd h hover, fun v hv => ?_⟩
          rw [hu, Option.some.injEq] at hv
          exact hv ▸ halong
        · intro halong
          exact halong.2 u hu

/-- A shutdown without a failed statement loses nothing exactly when no postback
waits at the moment the loop condition fails. -/
theorem shutdown_nothingLost_iff {started : Int} {as : List Act}
    (hrun : Runs.exec (step kopeksOf cfg) (Pipeline.init cfg db₀ started) as = some t)
    (hexit : t.pc = .exited) (hquiet : t.seen.failures = 0) :
    NothingLost t ↔
      Runs.Along (step kopeksOf cfg) LeavesNoPostback (Pipeline.init cfg db₀ started) as :=
  nothingLost_iff_of_ledger (Ledger.init cfg db₀ started) rfl hrun hexit hquiet

/-- A click that comes in just before the shutdown, with no postback around. -/
theorem shutdown_nothingLost_click :
    ∃ t, Runs.exec (step (fun _ => none) {}) (Pipeline.init {} {} 0)
        [.push { type := .outbound, clickToken := bytes "t" }, .stopServer, .stopWorker,
          .worker {}, .worker {}, .worker {}] = some t ∧ NothingLost t := by
  have hrun : (Runs.exec (step (fun _ => none) {}) (Pipeline.init {} {} 0)
      [.push { type := .outbound, clickToken := bytes "t" }, .stopServer, .stopWorker,
        .worker {}, .worker {}, .worker {}]).map (fun t => (t.pc, t.seen.failures)) =
      some (.exited, 0) := by decide
  obtain ⟨t, ht, hend⟩ := Option.map_eq_some_iff.1 hrun
  rw [Prod.mk.injEq] at hend
  exact ⟨t, ht, (shutdown_nothingLost_iff ht hend.1 hend.2).2 (by decide)⟩

/-- A postback that is answered 200 after the last tick is left in its queue. -/
theorem shutdown_strands_postback :
    ¬ ∀ (kopeksOf : Text → Option Kopek) (cfg : Config) (db₀ : Db) (started : Int)
        (as : List Act) (t : Pipeline),
      Runs.exec (step kopeksOf cfg) (Pipeline.init cfg db₀ started) as = some t →
        t.pc = .exited → t.seen.failures = 0 → NothingLost t := by
  intro h
  have hlost := h (fun _ => none) { postbackSecret := bytes "s" } {} 0
    [.postback 0 (signedQuery (bytes "s") (bytes "t")), .stopServer, .stopWorker,
      .worker {}, .worker {}, .worker {}] _ rfl rfl rfl
  exact absurd hlost.noPostback (by decide)

end SSize

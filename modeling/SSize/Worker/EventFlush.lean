import SSize.Worker.Ledger

/-!
# Failing event flushes

`DbWorker::flush_events` drains the queue into a local vector and hands it to
`insert_events`. When that throws, the transaction is rolled back and the vector
is destroyed with the stack frame: its events are in no table, in no queue, and
`dropped()` counts refused pushes only.
-/

namespace SSize

open Lib

/-- Every accepted event is a row (or a pruned one), is queued, or is one of the
`missing` ones that `dropped()` includes. -/
def Accounted (db₀ : Db) (s : Pipeline) : Prop :=
  ∃ missing : List Event,
    (db₀.events.rows ++ s.seen.accepted.map eventRow).Perm
        (s.db.events.rows ++ s.seen.pruned ++
          (s.events.pending ++ missing).map eventRow) ∧
      s.events.dropped = s.seen.refused + missing.length

def InsertReturns (s : Pipeline) : Act → Prop
  | .worker env => s.pc.events = [] ∨ InsertsCleanly env.insert s.db s.pc.events
  | _ => True

instance (s : Pipeline) (a : Act) : Decidable (InsertReturns s a) :=
  match a with
  | .worker _ => inferInstanceAs (Decidable (_ ∨ _))
  | .push _ | .postback _ _ | .stopServer | .stopWorker => isTrue trivial

variable {kopeksOf : Text → Option Kopek} {cfg : Config} {db₀ : Db} {s t : Pipeline}

/-- Between two batches an event is missing only if it was lost. -/
theorem accounted_iff (hl : Ledger db₀ s) (hidle : s.pc.events = []) :
    Accounted db₀ s ↔ s.seen.lostEvents = [] := by
  constructor
  · rintro ⟨missing, hperm, hdropped⟩
    have hconserved : s.seen.accepted.Perm (s.seen.written ++ s.seen.lostEvents ++
        s.pc.events ++ s.events.pending) := hl.events.conserved
    have hlen := hperm.length_eq
    have hstored := hl.stored.length_eq
    have hall := hconserved.length_eq
    have hrefused := hl.dropped
    simp only [List.length_append, List.length_map, hidle, List.length_nil] at hlen hstored hall
    exact List.eq_nil_of_length_eq_zero (by omega)
  · intro hlost
    have hin : s.seen.accepted = s.seen.written ++ s.pc.events ++ s.events.pending :=
      hl.events.inOrder hlost
    refine ⟨[], ?_, ?_⟩
    · rw [hin, hidle, List.append_nil, List.append_nil, List.map_append, ← List.append_assoc]
      exact hl.stored.append_right _
    · rw [hl.dropped, List.length_nil, Nat.add_zero]

theorem Moves.lostEvents {a : Act} (hm : Moves kopeksOf cfg s a t) :
    InsertReturns s a ∧ t.seen.lostEvents = s.seen.lostEvents ∨
      ¬ InsertReturns s a ∧ s.pc.events ≠ [] ∧
        t.seen.lostEvents = s.seen.lostEvents ++ s.pc.events := by
  cases hm with
  | accept _ _ | refuse _ _ | reject _ _ | ack _ _ | stopServer | stopWorker _ =>
      exact Or.inl ⟨trivial, rfl⟩
  | @write env batch db pc hpc hclean hcall =>
      have hbatch : s.pc.events = batch := by
        rcases hpc with ⟨hpc, -⟩ | ⟨hpc, -⟩ <;> rw [hpc] <;> rfl
      exact Or.inl ⟨by rw [InsertReturns, hbatch]; exact hclean, rfl⟩
  | @writeFails env batch pc hpc hclean =>
      have hbatch : s.pc.events = batch := by
        rcases hpc with ⟨hpc, -⟩ | ⟨hpc, -⟩ <;> rw [hpc] <;> rfl
      rw [InsertReturns, hbatch]
      exact Or.inr ⟨hclean, fun hempty => hclean (Or.inl hempty), rfl⟩
  | drainEvents hpc =>
      have hbatch : s.pc.events = [] := by
        rcases hpc with ⟨hpc, -⟩ | ⟨hpc, -⟩ <;> rw [hpc] <;> rfl
      exact Or.inl ⟨Or.inl hbatch, rfl⟩
  | enter hpc _ | leave hpc _ | refresh hpc | drainConversions hpc | flushed hpc | judge hpc _
  | judgeFails hpc _ | maintain hpc _ _ | maintainFails hpc _ _ | maintainLater hpc _
  | wake hpc =>
      exact Or.inl ⟨Or.inl (by rw [hpc]; rfl), rfl⟩

/-- Between two batches every accepted event is accounted for exactly when no
`insert_events` call on a batch of events has failed so far. -/
theorem accounted_iff_along {started : Int} {as : List Act}
    (hrun : Runs.exec (step kopeksOf cfg) (Pipeline.init cfg db₀ started) as = some s)
    (hidle : s.pc.events = []) :
    Accounted db₀ s ↔
      Runs.Along (step kopeksOf cfg) InsertReturns (Pipeline.init cfg db₀ started) as := by
  have hinit := Ledger.init cfg db₀ started
  rw [accounted_iff (hinit.run hrun) hidle]
  have hiff := Runs.along_iff_measure (C := InsertReturns) (I := Ledger db₀)
    (fun u => u.seen.lostEvents.length) ?_ ?_ ?_ hinit hrun
  · rw [← hiff]
    exact List.length_eq_zero_iff.symm
  · intro u a v hu huv
    exact hu.step huv
  · intro u a v hu hreturns huv
    rcases (step_moves kopeksOf cfg huv).lostEvents with ⟨-, hlost⟩ | ⟨hnot, -, -⟩
    · exact congrArg List.length hlost
    · exact absurd hreturns hnot
  · intro u a v hu hnot huv
    rcases (step_moves kopeksOf cfg huv).lostEvents with ⟨hreturns, -⟩ | ⟨-, hbatch, hlost⟩
    · exact absurd hreturns hnot
    · have hpos := List.length_pos_iff.2 hbatch
      simp only [hlost, List.length_append]
      omega

/-- Two ticks, the second one with nothing to write. -/
theorem accounted_two_ticks :
    ∃ s, Runs.exec (step (fun _ => none) {}) (Pipeline.init {} {} 0)
        (.push { type := .outbound, clickToken := bytes "t" } ::
          List.replicate 16 (.worker {})) = some s ∧
      s.db.events.rows.length = 1 ∧ Accounted {} s := by
  have hrun : (Runs.exec (step (fun _ => none) {}) (Pipeline.init {} {} 0)
      (.push { type := .outbound, clickToken := bytes "t" } ::
        List.replicate 16 (.worker {}))).map (fun s => (s.pc.events, s.db.events.rows.length)) =
      some ([], 1) := by decide
  obtain ⟨s, hs, hend⟩ := Option.map_eq_some_iff.1 hrun
  rw [Prod.mk.injEq] at hend
  exact ⟨s, hs, hend.2, (accounted_iff_along hs hend.1).2 (by decide)⟩

/-- The admin tool holds the lock for longer than the busy timeout. -/
theorem busy_flush_loses_event :
    ¬ ∀ (kopeksOf : Text → Option Kopek) (cfg : Config) (db₀ : Db) (started : Int)
        (as : List Act) (s : Pipeline),
      Runs.exec (step kopeksOf cfg) (Pipeline.init cfg db₀ started) as = some s →
        s.pc.events = [] → Accounted db₀ s := by
  intro h
  have hrun : Runs.exec (step (fun _ => none) {}) (Pipeline.init {} {} 0)
      [.push {}, .worker {}, .worker {}, .worker {},
        .worker { insert := { beginImmediate := true } }] = some _ := rfl
  have haccounted := h _ _ _ _ _ _ hrun rfl
  have hlost := (accounted_iff ((Ledger.init _ _ _).run hrun) rfl).1 haccounted
  exact absurd hlost (by decide)

end SSize

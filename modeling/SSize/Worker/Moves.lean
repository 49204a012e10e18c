import SSize.Worker.Pipeline

/-!
# What one step of the pipeline can do

`Moves` lists every step with the state it leads to, and `step_moves` says that
the list is complete. The proofs about runs go by cases on it and never unfold
`step`.
-/

namespace SSize

open Lib

variable (kopeksOf : Text → Option Kopek) (cfg : Config)

inductive Moves (s : Pipeline) : Act → Pipeline → Prop
  | accept {ev : Event} {q : EventQueue} (hserving : s.serving = true)
      (hpush : s.events.push ev = (q, true)) :
      Moves s (.push ev) { s with
        events := q
        seen := { s.seen with accepted := s.seen.accepted ++ [ev] } }
  | refuse {ev : Event} {q : EventQueue} (hserving : s.serving = true)
      (hpush : s.events.push ev = (q, false)) :
      Moves s (.push ev) { s with
        events := q
        seen := { s.seen with refused := s.seen.refused + 1 } }
  | reject {now : TsMs} {q : Query} (hserving : s.serving = true)
      (hconv : (handlePostback kopeksOf cfg now q).2 = none) :
      Moves s (.postback now q) s
  | ack {now : TsMs} {q : Query} {conv : Conversion} (hserving : s.serving = true)
      (hconv : (handlePostback kopeksOf cfg now q).2 = some conv) :
      Moves s (.postback now q) { s with
        conversions := (s.conversions.push conv).1
        seen := { s.seen with
          acked := s.seen.acked ++ [(conv, s.seen.accepted.length)] } }
  | stopServer : Moves s .stopServer { s with serving := false }
  | stopWorker (hserving : s.serving = false) :
      Moves s .stopWorker { s with running := false }
  | enter {env : Env} (hpc : s.pc = .loopHead) (hrunning : s.running = true) :
      Moves s (.worker env) { s with pc := .refresh, loopStart := env.steady }
  | leave {env : Env} (hpc : s.pc = .loopHead) (hrunning : s.running = false) :
      Moves s (.worker env) { s with pc := .finalDrain }
  | refresh {env : Env} (hpc : s.pc = .refresh) :
      Moves s (.worker env) { s with pc := .drainEvents }
  | drainEvents {env : Env} {pc : Pc}
      (hpc : s.pc = .drainEvents ∧ pc = .insertEvents s.events.pending ∨
        s.pc = .finalDrain ∧ pc = .finalInsert s.events.pending) :
      Moves s (.worker env) { s with events := (s.events.drain []).1, pc := pc }
  | write {env : Env} {batch : List Event} {db : Db} {pc : Pc}
      (hpc : s.pc = .insertEvents batch ∧ pc = .drainConversions ∨
        s.pc = .finalInsert batch ∧ pc = .exited)
      (hclean : batch = [] ∨ InsertsCleanly env.insert s.db batch)
      (hcall : insertEvents env.insert s.db batch = (db, .ok ())) :
      Moves s (.worker env) { s with
        db := db
        pc := pc
        seen := { s.seen with written := s.seen.written ++ batch } }
  | writeFails {env : Env} {batch : List Event} {pc : Pc}
      (hpc : s.pc = .insertEvents batch ∧ pc = .maintenance ∨
        s.pc = .finalInsert batch ∧ pc = .exited)
      (hclean : ¬ (batch = [] ∨ InsertsCleanly env.insert s.db batch)) :
      Moves s (.worker env) { s with
        pc := pc
        seen := { s.seen with
          lostEvents := s.seen.lostEvents ++ batch
          failures := s.seen.failures + 1 } }
  | drainConversions {env : Env} (hpc : s.pc = .drainConversions) :
      Moves s (.worker env) { s with
        conversions := (s.conversions.drain []).1
        pc := .recordConversions s.conversions.pending }
  | flushed {env : Env} (hpc : s.pc = .recordConversions []) :
      Moves s (.worker env) { s with pc := .maintenance }
  | judge {env : Env} {c : Conversion} {rest : List Conversion}
      (hpc : s.pc = .recordConversions (c :: rest))
      (hclean : RecordsCleanly env.record s.db c) :
      Moves s (.worker env) { s with
        db := (recordConversion env.record s.db c).1
        pc := .recordConversions rest
        seen := { s.seen with
          judged := s.seen.judged ++
            [⟨c, s.seen.written.length, s.db.knows c.clickToken⟩] } }
  | judgeFails {env : Env} {c : Conversion} {rest : List Conversion}
      (hpc : s.pc = .recordConversions (c :: rest))
      (hclean : ¬ RecordsCleanly env.record s.db c) :
      Moves s (.worker env) { s with
        pc := .maintenance
        seen := { s.seen with
          lostConversions := s.seen.lostConversions ++ c :: rest
          failures := s.seen.failures + 1 } }
  | maintain {env : Env} {removed : Nat} (hpc : s.pc = .maintenance)
      (hdue : s.loopStart ≥ s.nextMaintenance)
      (hok : (maintenance env cfg.eventRetentionDays s.db).2 = .ok removed) :
      Moves s (.worker env) { s with
        db := (maintenance env cfg.eventRetentionDays s.db).1
        pc := .sleep
        nextMaintenance := s.loopStart + 3600000
        seen := { s.seen with
          pruned := s.seen.pruned ++
            s.db.events.rows.filter (expired cfg.eventRetentionDays env.now) } }
  | maintainFails {env : Env} (hpc : s.pc = .maintenance)
      (hdue : s.loopStart ≥ s.nextMaintenance)
      (hevents : (maintenance env cfg.eventRetentionDays s.db).1.events = s.db.events) :
      Moves s (.worker env) { s with
        db := (maintenance env cfg.eventRetentionDays s.db).1
        pc := .sleep
        nextMaintenance := s.loopStart + 3600000
        seen := { s.seen with failures := s.seen.failures + 1 } }
  | maintainLater {env : Env} (hpc : s.pc = .maintenance)
      (hdue : s.loopStart < s.nextMaintenance) :
      Moves s (.worker env) { s with pc := .sleep }
  | wake {env : Env} (hpc : s.pc = .sleep) :
      Moves s (.worker env) { s with pc := .loopHead }

theorem insert_outcome (env : Env) (db : Db) (batch : List Event) :
    (∃ db', insertEvents env.insert db batch = (db', .ok ()) ∧
        (batch = [] ∨ InsertsCleanly env.insert db batch)) ∨
      (∃ e, insertEvents env.insert db batch = (db, .error e) ∧
        ¬ (batch = [] ∨ InsertsCleanly env.insert db batch)) := by
  have hiff := insertEvents_isOk_iff env.insert db batch
  cases hcall : insertEvents env.insert db batch with
  | mk db' res =>
      rw [hcall] at hiff
      cases res with
      | ok u => exact Or.inl ⟨db', rfl, hiff.1 rfl⟩
      | error e =>
          have hdb := insertEvents_error hcall
          refine Or.inr ⟨e, by rw [hdb], fun hclean => ?_⟩
          have := hiff.2 hclean
          simp at this

theorem workerStep_moves {s t : Pipeline} {env : Env} (h : workerStep cfg env s = some t) :
    Moves kopeksOf cfg s (.worker env) t := by
  unfold workerStep at h
  split at h
  · next hpc =>
      split at h
      · next hrunning =>
          cases h
          exact .enter hpc hrunning
      · next hrunning =>
          cases h
          exact .leave hpc (by simpa using hrunning)
  · next hpc =>
      cases h
      exact .refresh hpc
  · next hpc =>
      cases h
      exact .drainEvents (Or.inl ⟨hpc, rfl⟩)
  · next batch hpc =>
      rcases insert_outcome env s.db batch with ⟨db, hcall, hclean⟩ | ⟨e, hcall, hclean⟩
      · rw [hcall] at h
        cases h
        exact .write (Or.inl ⟨hpc, rfl⟩) hclean hcall
      · rw [hcall] at h
        cases h
        exact .writeFails (Or.inl ⟨hpc, rfl⟩) hclean
  · next hpc =>
      cases h
      exact .drainConversions hpc
  · next hpc =>
      cases h
      exact .flushed hpc
  · next c rest hpc =>
      rcases recordConversion_outcome env.record s.db c with ⟨hcall, hclean⟩ | ⟨e, hcall, hclean⟩
      · rw [hcall] at h
        cases h
        exact .judge hpc hclean
      · rw [hcall] at h
        cases h
        exact .judgeFails hpc hclean
  · next hpc =>
      split at h
      · next hdue =>
          split at h
          · next db removed hcall =>
              cases h
              have hdb : db = (maintenance env cfg.eventRetentionDays s.db).1 := by rw [hcall]
              have hok : (maintenance env cfg.eventRetentionDays s.db).2 = .ok removed := by
                rw [hcall]
              rw [hdb]
              exact .maintain hpc hdue hok
          · next db e hcall =>
              cases h
              have hdb : db = (maintenance env cfg.eventRetentionDays s.db).1 := by rw [hcall]
              have hevents := maintenance_error hcall
              rw [hdb] at hevents ⊢
              exact .maintainFails hpc hdue hevents
      · next hdue =>
          cases h
          exact .maintainLater hpc (by omega)
  · next hpc =>
      cases h
      exact .wake hpc
  · next hpc =>
      cases h
      exact .drainEvents (Or.inr ⟨hpc, rfl⟩)
  · next batch hpc =>
      rcases insert_outcome env s.db batch with ⟨db, hcall, hclean⟩ | ⟨e, hcall, hclean⟩
      · rw [hcall] at h
        cases h
        exact .write (Or.inr ⟨hpc, rfl⟩) hclean hcall
      · rw [hcall] at h
        cases h
        exact .writeFails (Or.inr ⟨hpc, rfl⟩) hclean
  · simp at h

/-- The worker can always go on until it has left. -/
theorem workerStep_isSome {s : Pipeline} (env : Env) (hpc : s.pc ≠ .exited) :
    ∃ t, workerStep cfg env s = some t := by
  unfold workerStep
  split
  case h_12 h => exact absurd h hpc
  all_goals first
    | exact ⟨_, rfl⟩
    | (split <;> first | exact ⟨_, rfl⟩ | (split <;> exact ⟨_, rfl⟩))

theorem step_moves {s t : Pipeline} {a : Act} (h : step kopeksOf cfg s a = some t) :
    Moves kopeksOf cfg s a t := by
  cases a with
  | push ev =>
      rw [step] at h
      split at h
      · next hserving =>
          split at h
          · next q hpush =>
              cases h
              exact .accept hserving hpush
          · next q hpush =>
              cases h
              exact .refuse hserving hpush
      · simp at h
  | postback now q =>
      rw [step] at h
      split at h
      · next hserving =>
          split at h
          · next hconv =>
              cases h
              exact .reject hserving hconv
          · next conv hconv =>
              cases h
              exact .ack hserving hconv
      · simp at h
  | stopServer =>
      cases h
      exact .stopServer
  | stopWorker =>
      rw [step] at h
      split at h
      · simp at h
      · next hserving =>
          cases h
          exact .stopWorker (by simpa using hserving)
  | worker env => exact workerStep_moves kopeksOf cfg h

variable {kopeksOf} {cfg} {s t : Pipeline} {a : Act}

theorem Moves.failures_le (hm : Moves kopeksOf cfg s a t) : s.seen.failures ≤ t.seen.failures := by
  cases hm with
  | writeFails hpc hclean => exact Nat.le_succ _
  | judgeFails hpc hclean => exact Nat.le_succ _
  | maintainFails hpc hdue hevents => exact Nat.le_succ _
  | _ => exact Nat.le_refl _

theorem failures_le_run {as : List Act}
    (hrun : Runs.exec (step kopeksOf cfg) s as = some t) : s.seen.failures ≤ t.seen.failures := by
  refine Runs.exec_invariant (I := fun v => s.seen.failures ≤ v.seen.failures) ?_
    (Nat.le_refl _) hrun
  intro u a v hu huv
  exact Nat.le_trans hu (step_moves kopeksOf cfg huv).failures_le

/-- Every listed move that fails nothing is a step. -/
theorem Moves.step_eq (hm : Moves kopeksOf cfg s a t)
    (hfailures : t.seen.failures = s.seen.failures) : step kopeksOf cfg s a = some t := by
  cases hm with
  | accept hserving hpush => simp only [step, hserving, if_true, hpush]
  | refuse hserving hpush => simp only [step, hserving, if_true, hpush]
  | reject hserving hconv => simp only [step, hserving, if_true, hconv]
  | ack hserving hconv => simp only [step, hserving, if_true, hconv]
  | stopServer => rfl
  | stopWorker hserving => simp [step, hserving]
  | enter hpc hrunning => simp only [step, workerStep, hpc, hrunning, if_true]
  | leave hpc hrunning => simp [step, workerStep, hpc, hrunning]
  | drainEvents hpc =>
      rcases hpc with ⟨hpc, rfl⟩ | ⟨hpc, rfl⟩ <;> simp only [step, workerStep, hpc] <;> rfl
  | write hpc hclean hcall =>
      rcases hpc with ⟨hpc, rfl⟩ | ⟨hpc, rfl⟩ <;> simp only [step, workerStep, hpc, hcall]
  | @judge env c rest hpc hclean =>
      rcases recordConversion_outcome env.record s.db c with ⟨hcall, -⟩ | ⟨e, -, hnot⟩
      · simp only [step, workerStep, hpc]
        rw [hcall]
      · exact absurd hclean hnot
  | @maintain env removed hpc hdue hok =>
      cases hcall : maintenance env cfg.eventRetentionDays s.db with
      | mk db res =>
          rw [hcall] at hok
          subst hok
          simp only [step, workerStep, hpc, if_pos hdue, hcall]
  | maintainLater hpc hdue =>
      simp only [step, workerStep, hpc]
      rw [if_neg (by omega)]
  | drainConversions hpc =>
      simp only [step, workerStep, hpc]
      rfl
  | refresh hpc | flushed hpc | wake hpc => simp only [step, workerStep, hpc]
  | writeFails | judgeFails | maintainFails => exact absurd hfailures (Nat.succ_ne_self _)

end SSize

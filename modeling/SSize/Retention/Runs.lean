import SSize.Retention.Counters
import SSize.Worker.Moves

/-!
# The worker's runs are runs of the archive

In a process whose statements do not fail, every batch that is written and every
maintenance that is due is a step of the archive at the time of that step, and
the other steps leave both tables alone. So what holds of every run of the
archive holds of the two tables of every such process.
-/

namespace SSize

open Lib

variable {kopeksOf : Text → Option Kopek} {cfg : Config} {s t : Pipeline} {a : Act}

/-- The archive holds the event log and the daily counters of the pipeline. -/
structure Archived (arch : Archive) (s : Pipeline) : Prop where
  events : arch.db.events = s.db.events
  daily : arch.db.dailyItemStats = s.db.dailyItemStats

/-- The clock of the worker's steps. -/
def workerTimes (as : List Act) : List TsMs :=
  as.filterMap fun
    | .worker env => some env.now
    | _ => none

/-- What `insert_events` does depends on the event log only. -/
theorem insertEvents_archived {f : InsertFaults} {db db' : Db} {arch : Archive}
    {batch : List Event} (hevents : arch.db.events = db.events)
    (hclean : batch = [] ∨ InsertsCleanly f db batch)
    (hcall : insertEvents f db batch = (db', .ok ())) :
    ∃ db₂, insertEvents {} arch.db batch = (db₂, .ok ()) ∧ db₂.events = db'.events ∧
      db₂.dailyItemStats = arch.db.dailyItemStats := by
  have hclean₂ : batch = [] ∨ InsertsCleanly {} arch.db batch := by
    rcases hclean with hempty | hclean
    · exact Or.inl hempty
    · exact Or.inr ⟨rfl, fun _ _ => rfl, rfl, hevents ▸ hclean.tokens⟩
  have hok := (insertEvents_isOk_iff {} arch.db batch).2 hclean₂
  cases hcall₂ : insertEvents {} arch.db batch with
  | mk db₂ res =>
      rw [hcall₂] at hok
      subst hok
      have hrows := (insertEvents_ok hcall).1
      have hrows₂ := insertEvents_ok hcall₂
      refine ⟨db₂, rfl, Table.ext ?_, hrows₂.2.2⟩
      rw [hrows₂.1, hrows, hevents]

/-- `maintenance` reads and writes the two tables only. -/
theorem maintenance_archived (days : Int) (now : TsMs) {db db₂ : Db}
    (hevents : db₂.events = db.events) (hdaily : db₂.dailyItemStats = db.dailyItemStats) :
    (maintenance { now := now } days db₂).1.events =
        (maintenance { now := now } days db).1.events ∧
      (maintenance { now := now } days db₂).1.dailyItemStats =
        (maintenance { now := now } days db).1.dailyItemStats := by
  cases db
  cases db₂
  subst hevents hdaily
  exact ⟨rfl, rfl⟩

/-- One step of the pipeline is at most one step of the archive. -/
theorem Archived.step {arch : Archive} (h : Archived arch s) (hm : Moves kopeksOf cfg s a t)
    (hfailures : t.seen.failures = s.seen.failures)
    (hclock : ∀ now ∈ workerTimes [a], arch.clock ≤ now) :
    ∃ bs arch', Runs.exec (archiveStep cfg.eventRetentionDays) arch bs = some arch' ∧
      Archived arch' t ∧ (arch'.clock = arch.clock ∨ arch'.clock ∈ workerTimes [a]) := by
  cases hm with
  | @write env batch db pc hpc hclean hcall =>
      obtain ⟨db₂, hcall₂, hevents, hdaily⟩ := insertEvents_archived h.events hclean hcall
      have hle : ¬ (ArchiveAct.insert env.now batch).time < arch.clock :=
        Int.not_lt.2 (hclock env.now (by simp [workerTimes]))
      have hsame := (insertEvents_ok hcall).2.2
      refine ⟨[.insert env.now batch], { arch with
        db := db₂
        clock := env.now
        stored := arch.stored ++ batch.map fun ev => (eventRow ev, false) }, ?_, ?_, Or.inr ?_⟩
      · rw [Runs.exec_cons, archiveStep, if_neg hle, hcall₂]
        rfl
      · exact ⟨hevents, (hdaily.trans h.daily).trans hsame.symm⟩
      · simp [workerTimes]
  | @maintain env removed hpc hdue hok =>
      have hle : arch.clock ≤ env.now := hclock env.now (by simp [workerTimes])
      have hsame := maintenance_archived cfg.eventRetentionDays env.now
        h.events h.daily
      obtain ⟨arch', hstep, hnow, hdb⟩ := exists_maintain cfg.eventRetentionDays hle
      refine ⟨[.maintain env.now], arch', ?_, ?_, Or.inr ?_⟩
      · rw [Runs.exec_cons, hstep]
        rfl
      · rw [maintenance_of_ok hok]
        exact ⟨hdb ▸ hsame.1, hdb ▸ hsame.2⟩
      · simp [workerTimes, hnow]
  | @judge env c rest hpc hclean =>
      refine ⟨[], arch, rfl, ⟨?_, ?_⟩, Or.inl rfl⟩
      · exact h.events.trans (recordConversion_events _ _ _).symm
      · exact h.daily.trans (recordConversion_dailyItemStats _ _ _).symm
  | writeFails | judgeFails | maintainFails =>
      exact absurd hfailures (Nat.succ_ne_self _)
  | _ => exact ⟨[], arch, rfl, ⟨h.events, h.daily⟩, Or.inl rfl⟩

/-- So a process without failures is a run of the archive, if its clock does not
go back. -/
theorem archived_run {arch : Archive} {as : List Act} (h : Archived arch s)
    (hrun : Runs.exec (step kopeksOf cfg) s as = some t)
    (hfailures : t.seen.failures = s.seen.failures)
    (hclock : (arch.clock :: workerTimes as).Pairwise (· ≤ ·)) :
    ∃ bs arch', Runs.exec (archiveStep cfg.eventRetentionDays) arch bs = some arch' ∧
      Archived arch' t ∧ (arch'.clock = arch.clock ∨ arch'.clock ∈ workerTimes as) := by
  induction as generalizing s arch with
  | nil =>
      cases hrun
      exact ⟨[], arch, rfl, h, Or.inl rfl⟩
  | cons a as ih =>
      obtain ⟨u, hu, hrest⟩ := Runs.exec_cons_eq_some.1 hrun
      have hm := step_moves kopeksOf cfg hu
      have hle := hm.failures_le
      have hle' := failures_le_run hrest
      have htimes : workerTimes (a :: as) = workerTimes [a] ++ workerTimes as :=
        List.filterMap_append (l := [a])
      rw [htimes] at hclock ⊢
      obtain ⟨hfirst, hlater⟩ := List.pairwise_cons.1 hclock
      obtain ⟨-, hrest', hcross⟩ := List.pairwise_append.1 hlater
      obtain ⟨bs, arch₁, hbs, h₁, hclock₁⟩ := h.step hm (by omega) fun now hnow =>
        hfirst now (List.mem_append_left _ hnow)
      have hpairwise : (arch₁.clock :: workerTimes as).Pairwise (· ≤ ·) := by
        refine List.pairwise_cons.2 ⟨fun now hnow => ?_, hrest'⟩
        rcases hclock₁ with hsame | hmem
        · exact hsame ▸ hfirst now (List.mem_append_right _ hnow)
        · exact hcross _ hmem now hnow
      obtain ⟨bs', arch₂, hbs', h₂, hclock₂⟩ := ih h₁ hrest (by omega) hpairwise
      refine ⟨bs ++ bs', arch₂, ?_, h₂, ?_⟩
      · rw [Runs.exec_append, hbs, Option.bind_some, hbs']
      · rcases hclock₂ with hsame | hmem
        · rw [hsame]
          exact hclock₁.imp_right (List.mem_append_left _)
        · exact Or.inr (List.mem_append_right _ hmem)

theorem NotLowered.refl (daily : DailyTable) : NotLowered daily daily :=
  fun _ old hold => ⟨old, hold, .refl old⟩

/-- A step of the worker after such a run lowers no counter. -/
theorem Archived.notLowered {days : Nat} {arch : Archive} (h : Archived arch s)
    (hcfg : cfg.eventRetentionDays = days) (harch : Recountable days arch)
    (hm : Moves kopeksOf cfg s a t) (hfailures : t.seen.failures = s.seen.failures)
    (hclock : ∀ now ∈ workerTimes [a], arch.clock ≤ now) :
    NotLowered s.db.dailyItemStats t.db.dailyItemStats := by
  cases hm with
  | write hpc hclean hcall =>
      rw [(insertEvents_ok hcall).2.2]
      exact .refl _
  | judge hpc hclean =>
      rw [recordConversion_dailyItemStats]
      exact .refl _
  | @maintain env removed hpc hdue hok =>
      have hsame := maintenance_archived days env.now h.events h.daily
      have hle : arch.clock ≤ env.now := hclock env.now (by simp [workerTimes])
      rw [maintenance_of_ok hok, hcfg, ← hsame.2, ← h.daily]
      intro key old hold
      exact harch.maintain hle hold
  | writeFails | judgeFails | maintainFails =>
      exact absurd hfailures (Nat.succ_ne_self _)
  | _ => exact .refl _

/-- A process that starts on an empty database with enough retention lowers no
counter, as long as no statement fails and the clock does not go back. -/
theorem notLowered_run {days : Nat} {clock : TsMs} {started : Int} {as : List Act}
    (hcfg : cfg.eventRetentionDays = days) (hdays : Retains days clock)
    (hrun : Runs.exec (step kopeksOf cfg) (Pipeline.init cfg {} started) as = some s)
    (hstep : step kopeksOf cfg s a = some t) (hfailures : t.seen.failures = 0)
    (hclock : (clock :: (workerTimes as ++ workerTimes [a])).Pairwise (· ≤ ·)) :
    NotLowered s.db.dailyItemStats t.db.dailyItemStats := by
  obtain ⟨hfirst, htimes⟩ := List.pairwise_cons.1 hclock
  obtain ⟨hbefore, -, hcross⟩ := List.pairwise_append.1 htimes
  have hm := step_moves kopeksOf cfg hstep
  have hle := hm.failures_le
  have hinit : Archived (Archive.init clock) (Pipeline.init cfg {} started) := ⟨rfl, rfl⟩
  obtain ⟨bs, arch, hbs, harch, hnow⟩ := archived_run hinit hrun
    (show s.seen.failures = 0 by omega)
    (List.pairwise_cons.2 ⟨fun now h => hfirst now (List.mem_append_left _ h), hbefore⟩)
  rw [hcfg] at hbs
  have hcovered : Recountable days arch := by
    apply Runs.exec_invariant (I := Recountable days) ?_ (.init hdays) hbs
    intro u b v hu huv
    exact hu.step huv
  refine harch.notLowered hcfg hcovered hm (by omega) fun now h => ?_
  rcases hnow with hsame | hmem
  · rw [hsame]
    exact hfirst now (List.mem_append_right _ h)
  · exact hcross _ hmem now h

end SSize

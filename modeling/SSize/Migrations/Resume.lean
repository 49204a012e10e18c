import SSize.Migrations.Order

/-!
# Going on after a failed run

Content and version change together, one committed migration at a time. So a run
that throws leaves a database in which exactly the migrations it committed are
not pending any more, and the next run takes up the rest.
-/

namespace SSize

variable {σ : Type*} {f : MigrateFaults} {scripts : Scripts σ} {dir : Directory}
  {found found' : List Migration} {db db' : SchemaDb σ} {v : Int}

/-- What is pending after the first ones of the pending files were committed. -/
theorem pendingOf_lastVersion {done rest : List Migration}
    (hincreasing : (pendingOf v found).Pairwise (·.version < ·.version))
    (hsplit : pendingOf v found = done ++ rest) :
    pendingOf (lastVersion v done) found = rest := by
  induction done generalizing v with
  | nil => exact hsplit
  | cons m done ih =>
      have hm : m ∈ pendingOf v found := by
        rw [hsplit]
        exact List.mem_cons_self
      have hlt : v < m.version := (mem_pendingOf.1 hm).2
      have hnext : pendingOf m.version found = done ++ rest := by
        have hagain : pendingOf m.version found = pendingOf m.version (pendingOf v found) := by
          unfold pendingOf
          rw [List.filter_filter]
          apply List.filter_congr
          intro m' _
          by_cases hlater : m.version < m'.version
          · simp [hlater, lt_trans hlt hlater]
          · simp [hlater]
        rw [hsplit] at hincreasing
        have hfirst := (List.pairwise_cons.1 hincreasing).1
        rw [hagain, hsplit, List.cons_append, pendingOf_cons_of_le le_rfl]
        exact List.filter_eq_self.2 fun m' hm' => decide_eq_true (hfirst m' hm')
      rw [lastVersion_cons]
      apply ih ?_ hnext
      rw [hnext]
      rw [hsplit] at hincreasing
      exact (List.pairwise_cons.1 hincreasing).2

/-- Without faults from outside the loop returns if the scripts go through. -/
theorem applyFrom_clean {current : Int}
    (h : migrateAll scripts (takenFrom current found) db = some db') :
    applyFrom {} scripts current found db =
      ⟨db', some (lastVersion current (takenFrom current found)), takenFrom current found⟩ := by
  induction found generalizing current db with
  | nil =>
      cases h
      rfl
  | cons m rest ih =>
      rw [takenFrom] at h ⊢
      rw [applyFrom]
      split
      · next hle =>
          rw [if_pos hle] at h
          exact ih h
      · next hlt =>
          rw [if_neg hlt, migrateAll_cons] at h
          obtain ⟨mid, hm, hrest⟩ := Option.bind_eq_some_iff.1 h
          have hone : applyOne {} scripts m db = some mid := (applyOne_clean scripts m db).trans hm
          simp only [hone, ih hrest, lastVersion_cons]

/-- The database after `run` is the one that the first `committed` of the pending
migrations produce, with the version of the last of them. -/
structure MigrateRun.StoppedAfter (run : MigrateRun σ) (scripts : Scripts σ)
    (pending : List Migration) (db : SchemaDb σ) (committed : List Migration) : Prop where
  first : committed <+: pending
  state : migrateAll scripts committed db = some run.db
  version : run.db.userVersion = lastVersion db.userVersion committed

/-- After `run`, any run that returns leaves the database and the version that a
run without interruption leaves, and after that no run changes anything. -/
structure MigrateRun.Resumable (run : MigrateRun σ) (scripts : Scripts σ) (dir : Directory)
    (db : SchemaDb σ) : Prop where
  resumed : ∀ (f' : MigrateFaults) (found' : List Migration) (v : Int),
    Discovers dir found' → (applyMigrations f' scripts found' run.db).returned = some v →
      ∀ found₂, Discovers dir found₂ →
        (applyMigrations {} scripts found₂ db).db =
            (applyMigrations f' scripts found' run.db).db ∧
          (applyMigrations {} scripts found₂ db).returned = some v
  idempotent : ∀ (f' f'' : MigrateFaults) (found' found'' : List Migration),
    Discovers dir found' → Discovers dir found'' →
      (applyMigrations f' scripts found' run.db).returned ≠ none →
        (applyMigrations f'' scripts found''
            (applyMigrations f' scripts found' run.db).db).db =
          (applyMigrations f' scripts found' run.db).db

/-- The next run takes what the stopped one left. -/
theorem takenFrom_resumed (f : MigrateFaults) (scripts : Scripts σ) (db : SchemaDb σ)
    (hfound : Discovers dir found) (hfound' : Discovers dir found')
    (hdistinct : DistinctVersions dir.migrations) :
    takenFrom db.userVersion found =
      (applyMigrations f scripts found db).executed ++
        takenFrom (applyMigrations f scripts found db).db.userVersion found' := by
  have hrun := applyMigrations_committed f scripts found db
  have hincreasing : ∀ v, (pendingOf v found).Pairwise (·.version < ·.version) :=
    fun v => (hfound.increasing hdistinct).filter _
  obtain ⟨rest, hrest⟩ := hrun.executed
  rw [takenFrom_eq_pendingOf (hincreasing _)] at hrest ⊢
  rw [hfound'.unique hfound hdistinct, takenFrom_eq_pendingOf (hincreasing _),
    migrateAll_version hrun.state, pendingOf_lastVersion (hincreasing _) hrest.symm, hrest]

theorem executed_of_nothing (h : takenFrom db.userVersion found = []) :
    (applyMigrations f scripts found db).db = db := by
  have hrun := applyMigrations_committed f scripts found db
  have hnone : (applyMigrations f scripts found db).executed = [] := by
    rw [← List.prefix_nil, ← h]
    exact hrun.executed
  have hstate := hrun.state
  rw [hnone] at hstate
  exact (Option.some.inj hstate).symm

/-- Each file of `freshDirectory` adds its path to the content. -/
def logScripts : Scripts (List Text) := fun path =>
  [fun db => some { db with content := db.content ++ [path] }]

end SSize

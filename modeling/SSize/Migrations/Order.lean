import SSize.Migrations.Apply

/-!
# Files that share a version

The skip test compares with a version that the loop raises itself. So of several
pending files with one version the first is executed and the others never are,
and which one is first is left to the directory and to `std::sort`.
-/

namespace SSize

variable {σ : Type*} {f : MigrateFaults} {scripts : Scripts σ} {dir : Directory}
  {found found' : List Migration} {db : SchemaDb σ} {v : Int}

/-- The pending files were executed, each once and in their order, the version
that is returned is the one in the database, and any other enumeration of the
directory would have led to the same. -/
structure RunsPending (scripts : Scripts σ) (dir : Directory) (db : SchemaDb σ)
    (run : MigrateRun σ) : Prop where
  each : run.executed.Perm (pendingOf db.userVersion dir.migrations)
  order : run.executed.Pairwise (·.version ≤ ·.version)
  version : run.returned = some run.db.userVersion
  enumeration : ∀ (f' : MigrateFaults) (found' : List Migration), Discovers dir found' →
    (applyMigrations f' scripts found' db).returned ≠ none →
      (applyMigrations f' scripts found' db).executed = run.executed

/-- The pending files of an enumeration are those of the directory. -/
theorem Discovers.pending_perm (h : Discovers dir found) (v : Int) :
    (pendingOf v found).Perm (pendingOf v dir.migrations) :=
  h.perm.filter _

theorem Discovers.pending_increasing (h : Discovers dir found)
    (hdistinct : DistinctVersions (pendingOf v dir.migrations)) :
    (pendingOf v found).Pairwise (·.version < ·.version) := by
  have hpending : DistinctVersions (pendingOf v found) :=
    hdistinct.mono fun _ => (h.pending_perm v).mem_iff.1
  exact hpending.increasing (h.nodup.filter _) (h.sorted.filter _)

theorem Discovers.pending_unique (h : Discovers dir found) (h' : Discovers dir found')
    (hdistinct : DistinctVersions (pendingOf v dir.migrations)) :
    pendingOf v found = pendingOf v found' := by
  have hperm : (pendingOf v found).Perm (pendingOf v found') :=
    (h.pending_perm v).trans (h'.pending_perm v).symm
  apply hperm.eq_of_pairwise ?_ (h.pending_increasing hdistinct) (h'.pending_increasing hdistinct)
  intro m m' _ _ hlt hgt
  exact absurd hgt (lt_asymm hlt)

/-- A run that returns has executed what the loop takes. -/
theorem executed_of_returned (h : (applyMigrations f scripts found db).returned ≠ none) :
    (applyMigrations f scripts found db).executed = takenFrom db.userVersion found := by
  obtain ⟨v, hv⟩ := Option.ne_none_iff_exists'.1 h
  exact ((applyMigrations_committed f scripts found db).complete v hv).1

/-- A run that returns normally has run every pending file exactly once, in order
and whatever the enumeration, exactly when no two pending files share a version. -/
theorem runsPending_iff (hfound : Discovers dir found)
    (hreturned : (applyMigrations f scripts found db).returned = some v) :
    RunsPending scripts dir db (applyMigrations f scripts found db) ↔
      DistinctVersions (pendingOf db.userVersion dir.migrations) := by
  have hcommitted := applyMigrations_committed f scripts found db
  obtain ⟨hexecuted, hv⟩ := hcommitted.complete v hreturned
  constructor
  · intro hruns
    have hincreasing := (takenFrom_increasing db.userVersion found).1
    rw [← hexecuted] at hincreasing
    exact (distinctVersions_of_increasing hincreasing).mono fun _ => hruns.each.mem_iff.2
  · intro hdistinct
    have htaken := takenFrom_eq_pendingOf (hfound.pending_increasing hdistinct)
    rw [htaken] at hexecuted
    constructor
    · rw [hexecuted]
      exact hfound.pending_perm _
    · rw [hexecuted]
      exact hfound.sorted.filter _
    · rw [hreturned, migrateAll_version hcommitted.state, hv]
    · intro f' found' hfound' hreturned'
      rw [executed_of_returned hreturned', hexecuted,
        takenFrom_eq_pendingOf (hfound'.pending_increasing hdistinct)]
      exact hfound'.pending_unique hfound hdistinct

/-- Two migrations and a stray file, listed in the wrong order. -/
def freshDirectory : Directory where
  entries := [⟨bytes "002_sizes.sql", true⟩, ⟨bytes "README.md", true⟩,
    ⟨bytes "001_init.sql", true⟩]
  distinct := by decide

theorem freshDirectory_discovers :
    Discovers freshDirectory [⟨1, bytes "001_init.sql"⟩, ⟨2, bytes "002_sizes.sql"⟩] :=
  ⟨freshDirectory.entries, .refl _, by decide, by decide⟩

theorem runsPending_fresh :
    RunsPending (fun _ => []) freshDirectory ⟨(), 0⟩ (applyMigrations {} (fun _ => [])
      [⟨1, bytes "001_init.sql"⟩, ⟨2, bytes "002_sizes.sql"⟩] ⟨(), 0⟩) :=
  (runsPending_iff freshDirectory_discovers rfl).2 (by decide)

/-- Two files with the number 2, as two branches may bring them. -/
def mergedDirectory : Directory where
  entries := [⟨bytes "002_sizes.sql", true⟩, ⟨bytes "002_colors.sql", true⟩]
  distinct := by decide

/-- The second one is skipped for ever, and the run returns 2. -/
theorem shared_version_skips_file :
    ¬ ∀ (dir : Directory) (f : MigrateFaults) (scripts : Scripts Unit) (found : List Migration)
        (db : SchemaDb Unit), Discovers dir found →
      (applyMigrations f scripts found db).returned ≠ none →
        RunsPending scripts dir db (applyMigrations f scripts found db) := by
  intro h
  have hfound : Discovers mergedDirectory
      [⟨2, bytes "002_sizes.sql"⟩, ⟨2, bytes "002_colors.sql"⟩] :=
    ⟨mergedDirectory.entries, .refl _, by decide, by decide⟩
  have hruns := h mergedDirectory {} (fun _ => []) _ ⟨(), 0⟩ hfound
    (by simp [applyMigrations, applyFrom, applyOne, execScript])
  have hlength := hruns.each.length_eq
  exact absurd hlength (by decide)

end SSize

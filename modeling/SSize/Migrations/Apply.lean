import SSize.Migrations.Discover

/-!
# `apply_migrations`

A database is its content, of any type, and its `user_version`. A statement is
any partial function on databases, so a script may do anything but control its
transaction. What the outside world makes fail is in the `MigrateFaults` of the
run. A transaction works on a copy: whatever throws before the end of `COMMIT`
leaves the database as it was, which is what the `ROLLBACK` does.
-/

namespace SSize

structure SchemaDb (σ : Type*) where
  content : σ
  userVersion : Int

abbrev Statement (σ : Type*) := SchemaDb σ → Option (SchemaDb σ)

/-- The statements of every file. -/
abbrev Scripts (σ : Type*) := Text → List (Statement σ)

structure MigrateFaults where
  readVersion : Bool := false
  notDirectory : Bool := false
  begin : Text → Bool := fun _ => false
  unreadable : Text → Bool := fun _ => false
  statement : Text → Nat → Bool := fun _ _ => false
  setVersion : Text → Bool := fun _ => false
  commit : Text → Bool := fun _ => false

variable {σ : Type*}

/-- `DbConn::exec` on a script, from its `i`-th statement on: it stops at the first
one that fails. -/
def execScript (fault : Nat → Bool) : Nat → List (Statement σ) → SchemaDb σ → Option (SchemaDb σ)
  | _, [], db => some db
  | i, st :: rest, db =>
      if fault i then none else (st db).bind (execScript fault (i + 1) rest)

/-- The body of the loop, `none` when it threw. -/
def applyOne (f : MigrateFaults) (scripts : Scripts σ) (m : Migration) (db : SchemaDb σ) :
    Option (SchemaDb σ) :=
  if f.begin m.path then none
  else if f.unreadable m.path then none
  else
    match execScript (f.statement m.path) 0 (scripts m.path) db with
    | none => none
    | some work =>
        if f.setVersion m.path then none
        else if f.commit m.path then none
        else some { work with userVersion := m.version }

/-- The state of the database after a run, what the run returned (`none` when it
threw), and the migrations that it committed. -/
structure MigrateRun (σ : Type*) where
  db : SchemaDb σ
  returned : Option Int
  executed : List Migration

def applyFrom (f : MigrateFaults) (scripts : Scripts σ) :
    Int → List Migration → SchemaDb σ → MigrateRun σ
  | current, [], db => ⟨db, some current, []⟩
  | current, m :: rest, db =>
      if m.version ≤ current then applyFrom f scripts current rest db
      else
        match applyOne f scripts m db with
        | none => ⟨db, none, []⟩
        | some db' =>
            let run := applyFrom f scripts m.version rest db'
            { run with executed := m :: run.executed }

/-- `found` is what `discover` returns in this run. -/
def applyMigrations (f : MigrateFaults) (scripts : Scripts σ) (found : List Migration)
    (db : SchemaDb σ) : MigrateRun σ :=
  if f.readVersion then ⟨db, none, []⟩
  else if f.notDirectory then ⟨db, none, []⟩
  else applyFrom f scripts db.userVersion found db

/-! ## Which migrations a run takes, and what they do -/

/-- The migrations that the loop does not skip. -/
def takenFrom : Int → List Migration → List Migration
  | _, [] => []
  | current, m :: rest =>
      if m.version ≤ current then takenFrom current rest else m :: takenFrom m.version rest

def pendingOf (v : Int) (found : List Migration) : List Migration :=
  found.filter fun m => decide (v < m.version)

theorem pendingOf_cons_of_le {v : Int} {m : Migration} {rest : List Migration}
    (h : m.version ≤ v) : pendingOf v (m :: rest) = pendingOf v rest :=
  List.filter_cons_of_neg (by simpa using h)

theorem pendingOf_cons_of_lt {v : Int} {m : Migration} {rest : List Migration}
    (h : v < m.version) : pendingOf v (m :: rest) = m :: pendingOf v rest :=
  List.filter_cons_of_pos (by simpa using h)

theorem mem_pendingOf {v : Int} {m : Migration} {found : List Migration} :
    m ∈ pendingOf v found ↔ m ∈ found ∧ v < m.version := by
  simp [pendingOf]

/-- One migration without any fault from outside. -/
def migrate (scripts : Scripts σ) (m : Migration) (db : SchemaDb σ) : Option (SchemaDb σ) :=
  (execScript (fun _ => false) 0 (scripts m.path) db).map fun work =>
    { work with userVersion := m.version }

/-- The state that these migrations produce, in their order. -/
def migrateAll (scripts : Scripts σ) (ms : List Migration) (db : SchemaDb σ) :
    Option (SchemaDb σ) :=
  ms.foldlM (fun db m => migrate scripts m db) db

variable {f : MigrateFaults} {scripts : Scripts σ} {m : Migration} {db db' : SchemaDb σ}

theorem execScript_clean {fault : Nat → Bool} {i : Nat} {script : List (Statement σ)}
    (h : execScript fault i script db = some db') :
    ∀ j, execScript (fun _ => false) j script db = some db' := by
  induction script generalizing i db with
  | nil => exact fun _ => h
  | cons st rest ih =>
      intro j
      rw [execScript] at h
      split at h
      · simp at h
      · obtain ⟨work, hst, hrest⟩ := Option.bind_eq_some_iff.1 h
        rw [execScript, if_neg (by simp), hst, Option.bind_some]
        exact ih hrest (j + 1)

/-- A transaction that went through did what the script says, whatever the faults
of its run. -/
theorem applyOne_migrate (h : applyOne f scripts m db = some db') :
    migrate scripts m db = some db' := by
  unfold applyOne at h
  split at h
  · simp at h
  split at h
  · simp at h
  split at h
  · simp at h
  · next work hwork =>
      split at h
      · simp at h
      split at h
      · simp at h
      · rw [migrate, execScript_clean hwork 0]
        exact h

theorem applyOne_clean (scripts : Scripts σ) (m : Migration) (db : SchemaDb σ) :
    applyOne {} scripts m db = migrate scripts m db := by
  unfold applyOne migrate
  cases execScript (fun _ => false) 0 (scripts m.path) db <;> rfl

theorem migrate_version (h : migrate scripts m db = some db') : db'.userVersion = m.version := by
  obtain ⟨work, -, rfl⟩ := Option.map_eq_some_iff.1 h
  rfl

theorem migrateAll_cons {rest : List Migration} :
    migrateAll scripts (m :: rest) db = (migrate scripts m db).bind (migrateAll scripts rest) := by
  rfl

theorem migrateAll_append {ms ms' : List Migration} :
    migrateAll scripts (ms ++ ms') db =
      (migrateAll scripts ms db).bind (migrateAll scripts ms') := by
  simp only [migrateAll, List.foldlM_append]
  rfl

/-- The version of the last of these migrations, or the one before them. -/
def lastVersion (v : Int) (ms : List Migration) : Int := (ms.getLast?.map (·.version)).getD v

theorem lastVersion_cons (v : Int) (m : Migration) (ms : List Migration) :
    lastVersion v (m :: ms) = lastVersion m.version ms := by
  unfold lastVersion
  rw [List.getLast?_cons]
  cases ms.getLast? <;> rfl

theorem migrateAll_version {ms : List Migration} (h : migrateAll scripts ms db = some db') :
    db'.userVersion = lastVersion db.userVersion ms := by
  induction ms generalizing db with
  | nil =>
      cases h
      rfl
  | cons m ms ih =>
      rw [migrateAll_cons] at h
      obtain ⟨mid, hm, hrest⟩ := Option.bind_eq_some_iff.1 h
      rw [ih hrest, migrate_version hm, lastVersion_cons]

/-- What a run leaves: the state that the migrations it committed produce, and
these are a prefix of the ones it takes, all of them when it returns. -/
structure MigrateRun.Committed (run : MigrateRun σ) (scripts : Scripts σ) (current : Int)
    (found : List Migration) (db : SchemaDb σ) : Prop where
  executed : run.executed <+: takenFrom current found
  state : migrateAll scripts run.executed db = some run.db
  complete : ∀ v, run.returned = some v →
    run.executed = takenFrom current found ∧ v = lastVersion current run.executed

theorem applyFrom_committed (f : MigrateFaults) (scripts : Scripts σ) (current : Int)
    (found : List Migration) (db : SchemaDb σ) :
    (applyFrom f scripts current found db).Committed scripts current found db := by
  induction found generalizing current db with
  | nil =>
      refine ⟨List.prefix_rfl, rfl, fun v hv => ?_⟩
      cases hv
      exact ⟨rfl, rfl⟩
  | cons m rest ih =>
      rw [applyFrom]
      split
      · next hle =>
          obtain ⟨hexecuted, hstate, hcomplete⟩ := ih current db
          refine ⟨?_, hstate, ?_⟩
          · rw [takenFrom, if_pos hle]
            exact hexecuted
          · rw [takenFrom, if_pos hle]
            exact hcomplete
      · next hlt =>
          split
          · refine ⟨List.nil_prefix, rfl, fun v hv => ?_⟩
            simp at hv
          · next db' hone =>
              obtain ⟨hexecuted, hstate, hcomplete⟩ := ih m.version db'
              refine ⟨?_, ?_, fun v hv => ?_⟩
              · rw [takenFrom, if_neg hlt]
                exact List.cons_prefix_cons.2 ⟨rfl, hexecuted⟩
              · rw [migrateAll_cons, applyOne_migrate hone]
                exact hstate
              · obtain ⟨hall, hv⟩ := hcomplete v hv
                rw [takenFrom, if_neg hlt, lastVersion_cons]
                exact ⟨congrArg (m :: ·) hall, hv⟩

theorem applyMigrations_committed (f : MigrateFaults) (scripts : Scripts σ)
    (found : List Migration) (db : SchemaDb σ) :
    (applyMigrations f scripts found db).Committed scripts db.userVersion found db := by
  unfold applyMigrations
  split
  · exact ⟨List.nil_prefix, rfl, fun v hv => by simp at hv⟩
  split
  · exact ⟨List.nil_prefix, rfl, fun v hv => by simp at hv⟩
  · exact applyFrom_committed f scripts db.userVersion found db

theorem takenFrom_increasing (current : Int) (found : List Migration) :
    (takenFrom current found).Pairwise (·.version < ·.version) ∧
      ∀ m ∈ takenFrom current found, current < m.version := by
  induction found generalizing current with
  | nil => exact ⟨List.Pairwise.nil, by simp [takenFrom]⟩
  | cons m rest ih =>
      rw [takenFrom]
      split
      · exact ih current
      · next hlt =>
          obtain ⟨hpairwise, hbound⟩ := ih m.version
          have hm : current < m.version := Int.not_le.1 hlt
          refine ⟨List.pairwise_cons.2 ⟨hbound, hpairwise⟩, fun m' hm' => ?_⟩
          rcases List.mem_cons.1 hm' with rfl | hm'
          · exact hm
          · exact lt_trans hm (hbound m' hm')

/-- Where the pending versions increase, nothing is skipped but what the database
has already. -/
theorem takenFrom_eq_pendingOf {current : Int} {found : List Migration}
    (h : (pendingOf current found).Pairwise (·.version < ·.version)) :
    takenFrom current found = pendingOf current found := by
  induction found generalizing current with
  | nil => rfl
  | cons m rest ih =>
      rw [takenFrom]
      split
      · next hle =>
          rw [pendingOf_cons_of_le hle] at h ⊢
          exact ih h
      · next hnot =>
          have hlt : current < m.version := Int.not_le.1 hnot
          rw [pendingOf_cons_of_lt hlt] at h ⊢
          obtain ⟨hfirst, hrest⟩ := List.pairwise_cons.1 h
          have hsame : pendingOf m.version rest = pendingOf current rest := by
            apply List.filter_congr
            intro m' hm'
            by_cases hlater : current < m'.version
            · have hafter := hfirst m' (mem_pendingOf.2 ⟨hm', hlater⟩)
              simp [hlater, hafter]
            · have hbefore : ¬ m.version < m'.version := fun hgt => hlater (lt_trans hlt hgt)
              simp [hlater, hbefore]
          rw [ih (hsame ▸ hrest), hsame]

end SSize

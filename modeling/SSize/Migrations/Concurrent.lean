import SSize.Lib.Runs
import SSize.Migrations.Order
import Mathlib.Logic.Function.Basic

/-!
# Several migrators on one database

The server at its start and `ssize-admin migrate` run `apply_migrations` on
connections of their own. A connection holds the write lock from the first
statement of its transaction to the commit, and sees the database as it was
committed when it got the lock. But which migrations are pending was decided
before, against the version read at the start.
-/

namespace SSize

open Lib

variable {ι σ : Type*}

/-- Where one call of `apply_migrations` stands. -/
inductive MigratorPc (σ : Type*) where
  | start
  | loop (current : Int) (rest : List Migration)
  /-- After `BEGIN`, which is deferred and takes no lock. -/
  | begun (m : Migration) (rest : List Migration)
  | writing (m : Migration) (script : List (Statement σ)) (work : SchemaDb σ)
      (rest : List Migration)
  | returned (current : Int)
  | threw

structure Migrators (ι σ : Type*) where
  db : SchemaDb σ
  pc : ι → MigratorPc σ
  /-- The connection that holds the write lock. -/
  writer : Option ι := none
  /-- What has been committed so far, by whom ever. No step reads it. -/
  committed : List Migration := []

def Migrators.init (ι : Type*) (db : SchemaDb σ) : Migrators ι σ where
  db := db
  pc _ := .start

inductive MigratorAct (ι : Type*) where
  | step (i : ι)
  /-- Whatever the call does next throws. -/
  | fail (i : ι)

variable [DecidableEq ι]

def Migrators.goto (s : Migrators ι σ) (i : ι) (pc : MigratorPc σ) : Migrators ι σ :=
  { s with pc := Function.update s.pc i pc }

/-- `ROLLBACK` and the exception that leaves `apply_migrations`. -/
def Migrators.rollback (s : Migrators ι σ) (i : ι) : Migrators ι σ :=
  { s.goto i .threw with writer := if s.writer = some i then none else s.writer }

/-- `found i` is what `discover` returns to the `i`-th call. -/
def migratorStep (scripts : Scripts σ) (found : ι → List Migration) (s : Migrators ι σ) :
    MigratorAct ι → Option (Migrators ι σ)
  | .fail i => some (s.rollback i)
  | .step i =>
      match s.pc i with
      | .start => some (s.goto i (.loop s.db.userVersion (found i)))
      | .loop current [] => some (s.goto i (.returned current))
      | .loop current (m :: rest) =>
          if m.version ≤ current then some (s.goto i (.loop current rest))
          else some (s.goto i (.begun m rest))
      | .begun m rest =>
          -- The first statement waits until nobody holds the lock.
          if s.writer.isSome then none
          else some { s.goto i (.writing m (scripts m.path) s.db rest) with writer := some i }
      | .writing m (st :: script) work rest =>
          match st work with
          | none => some (s.rollback i)
          | some work => some (s.goto i (.writing m script work rest))
      | .writing m [] work rest =>
          some { s.goto i (.loop m.version rest) with
            db := { work with userVersion := m.version }
            writer := none
            committed := s.committed ++ [m] }
      | .returned _ => none
      | .threw => none

/-- The migration that this step commits. -/
def Migrators.committing (s : Migrators ι σ) : MigratorAct ι → Option Migration
  | .fail _ => none
  | .step i =>
      match s.pc i with
      | .writing m [] _ _ => some m
      | _ => none

/-- A transaction that commits raises the version of the database. The version is
the one at which the transaction got the lock, nobody else writes in between. -/
def CommitsForward (s : Migrators ι σ) (a : MigratorAct ι) : Prop :=
  ∀ m ∈ s.committing a, s.db.userVersion < m.version

instance (s : Migrators ι σ) (a : MigratorAct ι) : Decidable (CommitsForward s a) :=
  inferInstanceAs (Decidable (∀ m ∈ s.committing a, _))

variable {scripts : Scripts σ} {found : ι → List Migration} {dir : Directory}
  {s t : Migrators ι σ} {a : MigratorAct ι}

/-! ## What one step can do -/

/-- The steps of one call that commit nothing, where the database is at version
`v` and `discover` returns `files`. -/
inductive PcStep (v : Int) (files : List Migration) : MigratorPc σ → MigratorPc σ → Prop
  | start : PcStep v files .start (.loop v files)
  | done {current : Int} : PcStep v files (.loop current []) (.returned current)
  | skip {current : Int} {m : Migration} {rest : List Migration} (hle : m.version ≤ current) :
      PcStep v files (.loop current (m :: rest)) (.loop current rest)
  | begin {current : Int} {m : Migration} {rest : List Migration} (hlt : current < m.version) :
      PcStep v files (.loop current (m :: rest)) (.begun m rest)
  | lock {m : Migration} {rest : List Migration} {script : List (Statement σ)}
      {work : SchemaDb σ} : PcStep v files (.begun m rest) (.writing m script work rest)
  | statement {m : Migration} {rest : List Migration} {script script' : List (Statement σ)}
      {work work' : SchemaDb σ} :
      PcStep v files (.writing m script work rest) (.writing m script' work' rest)
  | threw {pc : MigratorPc σ} : PcStep v files pc .threw

inductive MigratorMoves (found : ι → List Migration) (s : Migrators ι σ) (a : MigratorAct ι) :
    Migrators ι σ → Prop
  | quiet {i : ι} {pc : MigratorPc σ} {writer : Option ι} (hnone : s.committing a = none)
      (hpc : PcStep s.db.userVersion (found i) (s.pc i) pc) :
      MigratorMoves found s a { s.goto i pc with writer := writer }
  | commit {i : ι} {m : Migration} {work : SchemaDb σ} {rest : List Migration}
      (hsome : s.committing a = some m) (hpc : s.pc i = .writing m [] work rest) :
      MigratorMoves found s a { s.goto i (.loop m.version rest) with
        db := { work with userVersion := m.version }
        writer := none
        committed := s.committed ++ [m] }

theorem migratorStep_moves (h : migratorStep scripts found s a = some t) :
    MigratorMoves found s a t := by
  cases a with
  | fail i =>
      cases h
      exact .quiet rfl .threw
  | step i =>
      rw [migratorStep] at h
      have hquiet : ∀ {pc : MigratorPc σ}, s.pc i = pc →
          (∀ m work rest, pc ≠ .writing m [] work rest) → s.committing (.step i) = none := by
        intro pc hpc hne
        rw [Migrators.committing, hpc]
        cases pc with
        | writing m script work rest =>
            cases script with
            | nil => exact absurd rfl (hne m work rest)
            | cons st script => rfl
        | _ => rfl
      split at h
      · next hpc =>
          cases h
          exact .quiet (hquiet hpc (by simp)) (hpc ▸ .start)
      · next current hpc =>
          cases h
          exact .quiet (hquiet hpc (by simp)) (hpc ▸ .done)
      · next current m rest hpc =>
          split at h
          · next hle =>
              cases h
              exact .quiet (hquiet hpc (by simp)) (hpc ▸ .skip hle)
          · next hlt =>
              cases h
              exact .quiet (hquiet hpc (by simp)) (hpc ▸ .begin (Int.not_le.1 hlt))
      · next m rest hpc =>
          split at h
          · simp at h
          · cases h
            exact .quiet (hquiet hpc (by simp)) (hpc ▸ .lock)
      · next m st script work rest hpc =>
          split at h
          · cases h
            exact .quiet (hquiet hpc (by simp)) .threw
          · cases h
            exact .quiet (hquiet hpc (by simp)) (hpc ▸ .statement)
      · next m work rest hpc =>
          cases h
          exact .commit (by rw [Migrators.committing, hpc]) hpc
      · simp at h
      · simp at h

/-! ## A call on its own -/

@[simp] theorem Migrators.goto_pc (s : Migrators ι σ) (i : ι) (pc : MigratorPc σ) :
    (s.goto i pc).pc i = pc := Function.update_self ..

@[simp] theorem Migrators.goto_goto (s : Migrators ι σ) (i : ι) (pc pc' : MigratorPc σ) :
    (s.goto i pc).goto i pc' = s.goto i pc' := by
  simp [Migrators.goto]

/-- The statements of a script, one step each. -/
theorem exec_script {i : ι} {m : Migration} {script : List (Statement σ)}
    {work work' : SchemaDb σ} {rest : List Migration} {j : Nat}
    (h : execScript (fun _ => false) j script work = some work') (s : Migrators ι σ) :
    Runs.exec (migratorStep scripts found) (s.goto i (.writing m script work rest))
        (List.replicate script.length (.step i)) =
      some (s.goto i (.writing m [] work' rest)) := by
  induction script generalizing work j with
  | nil =>
      cases h
      rfl
  | cons st script ih =>
      rw [execScript, if_neg (by simp)] at h
      obtain ⟨mid, hst, hrest⟩ := Option.bind_eq_some_iff.1 h
      have hstep : migratorStep scripts found (s.goto i (.writing m (st :: script) work rest))
          (.step i) = some (s.goto i (.writing m script mid rest)) := by
        simp only [migratorStep, Migrators.goto_pc, hst, Migrators.goto_goto]
      rw [List.length_cons, List.replicate_succ, Runs.exec_cons, hstep, Option.bind_some]
      exact ih hrest

/-- From `BEGIN IMMEDIATE` to `COMMIT`. -/
theorem exec_one (found : ι → List Migration) (i : ι) {current : Int} {m : Migration}
    {rest : List Migration} (s : Migrators ι σ) {db : SchemaDb σ} (hwriter : s.writer = none)
    (hnew : ¬ m.version ≤ current) (hone : migrate scripts m s.db = some db) :
    ∃ n, Runs.exec (migratorStep scripts found) (s.goto i (.loop current (m :: rest)))
        (List.replicate n (.step i)) =
      some (Migrators.goto { s with db := db, committed := s.committed ++ [m] } i
        (.loop m.version rest)) := by
  obtain ⟨work, hscript, rfl⟩ := Option.map_eq_some_iff.1 hone
  have hbegin : Runs.exec (migratorStep scripts found)
      (s.goto i (.loop current (m :: rest))) (List.replicate 2 (.step i)) =
        some (Migrators.goto { s with writer := some i } i
          (.writing m (scripts m.path) s.db rest)) := by
    rw [List.replicate_succ, List.replicate_one, Runs.exec_cons]
    simp [migratorStep, hnew, hwriter, Migrators.goto]
  have hcommit : Runs.exec (migratorStep scripts found)
      (Migrators.goto { s with writer := some i } i (.writing m [] work rest))
      (List.replicate 1 (.step i)) =
        some (Migrators.goto { s with
          db := { work with userVersion := m.version }
          committed := s.committed ++ [m] } i (.loop m.version rest)) := by
    rw [List.replicate_one, Runs.exec_cons]
    simp [migratorStep, hwriter, Migrators.goto]
  refine ⟨2 + ((scripts m.path).length + 1), ?_⟩
  rw [List.replicate_add, Runs.exec_append, hbegin, Option.bind_some,
    List.replicate_add, Runs.exec_append, exec_script hscript, Option.bind_some, hcommit]

/-- Undisturbed, the loop of a call does what `applyFrom` says. -/
theorem exec_loop (found : ι → List Migration) (i : ι) {current v : Int}
    {rest : List Migration} (s : Migrators ι σ) (hwriter : s.writer = none)
    (h : (applyFrom {} scripts current rest s.db).returned = some v) :
    ∃ n, Runs.exec (migratorStep scripts found) (s.goto i (.loop current rest))
        (List.replicate n (.step i)) =
      some { s.goto i (.returned v) with
        db := (applyFrom {} scripts current rest s.db).db
        committed := s.committed ++ (applyFrom {} scripts current rest s.db).executed } := by
  induction rest generalizing current s with
  | nil =>
      rw [applyFrom, Option.some.injEq] at h
      refine ⟨1, ?_⟩
      rw [List.replicate_one, Runs.exec_cons]
      simp [migratorStep, Migrators.goto, applyFrom, h]
  | cons m rest ih =>
      by_cases hle : m.version ≤ current
      · rw [applyFrom, if_pos hle] at h ⊢
        obtain ⟨n, hn⟩ := ih s hwriter h
        refine ⟨n + 1, ?_⟩
        have hstep : migratorStep scripts found (s.goto i (.loop current (m :: rest)))
            (.step i) = some (s.goto i (.loop current rest)) := by
          simp only [migratorStep, Migrators.goto_pc, if_pos hle, Migrators.goto_goto]
        rw [List.replicate_succ, Runs.exec_cons, hstep]
        exact hn
      · rw [applyFrom, if_neg hle, applyOne_clean] at h ⊢
        cases hone : migrate scripts m s.db with
        | none =>
            rw [hone] at h
            simp at h
        | some mid =>
            rw [hone] at h
            obtain ⟨first, hfirst⟩ := exec_one found i s hwriter hle hone
            obtain ⟨n, hn⟩ := ih { s with db := mid, committed := s.committed ++ [m] } hwriter h
            refine ⟨first + n, ?_⟩
            rw [List.replicate_add, Runs.exec_append, hfirst, Option.bind_some, hn]
            simp [Migrators.goto]

/-- So does a call that nobody disturbs, from its start. -/
theorem exec_alone {i : ι} {db : SchemaDb σ} {v : Int}
    (h : (applyMigrations {} scripts (found i) db).returned = some v) :
    ∃ n t, Runs.exec (migratorStep scripts found) (.init ι db) (List.replicate n (.step i)) =
        some t ∧ t.db = (applyMigrations {} scripts (found i) db).db ∧
      t.committed = (applyMigrations {} scripts (found i) db).executed := by
  obtain ⟨n, hn⟩ := exec_loop found i (.init ι db) rfl h
  have hfirst : Runs.exec (migratorStep scripts found) (.init ι db)
        (List.replicate (n + 1) (.step i)) =
      Runs.exec (migratorStep scripts found)
        ((Migrators.init ι db).goto i (.loop db.userVersion (found i)))
        (List.replicate n (.step i)) := by
    rw [List.replicate_succ, Runs.exec_cons]
    rfl
  exact ⟨n + 1, _, hfirst.trans hn, rfl, List.nil_append _⟩

/-! ## Commits that go forward -/

/-- While all commits go forward, what is committed is behind the version. -/
structure Migrators.Forward (s : Migrators ι σ) : Prop where
  behind : ∀ m ∈ s.committed, m.version ≤ s.db.userVersion
  once : s.committed.Nodup

theorem Migrators.Forward.step (hs : s.Forward) (ha : CommitsForward s a)
    (h : migratorStep scripts found s a = some t) : t.Forward := by
  cases migratorStep_moves h with
  | quiet hnone hpc => exact ⟨hs.behind, hs.once⟩
  | @commit i m work rest hsome hpc =>
      have hlt : s.db.userVersion < m.version := ha m hsome
      constructor
      · intro m' hm'
        rcases List.mem_append.1 hm' with hold | hnew
        · exact le_of_lt (lt_of_le_of_lt (hs.behind m' hold) hlt)
        · rw [List.mem_singleton.1 hnew]
      · apply List.nodup_append.2
        refine ⟨hs.once, List.nodup_singleton m, fun m' hold m'' hnew heq => ?_⟩
        rw [List.mem_singleton] at hnew
        have hbehind := hs.behind m (hnew ▸ heq ▸ hold)
        exact absurd hlt (not_lt_of_ge hbehind)

/-! ## Commits that do not -/

/-- The files that a call has still to look at, where the database is at `v`. All
others are behind `v`. -/
structure Ahead (v : Int) (files ahead : List Migration) : Prop where
  caught : ∀ m ∈ files, m ∈ ahead ∨ m.version ≤ v
  sub : ∀ m ∈ ahead, m ∈ files
  increasing : ahead.Pairwise (·.version < ·.version)

theorem Ahead.tail {v : Int} {files rest : List Migration} {m : Migration}
    (h : Ahead v files (m :: rest)) (hle : m.version ≤ v) : Ahead v files rest where
  caught m' hm' := by
    rcases h.caught m' hm' with hmem | hbehind
    · rcases List.mem_cons.1 hmem with rfl | hrest
      · exact Or.inr hle
      · exact Or.inl hrest
    · exact Or.inr hbehind
  sub m' hm' := h.sub m' (List.mem_cons_of_mem m hm')
  increasing := (List.pairwise_cons.1 h.increasing).2

theorem Ahead.mono {v v' : Int} {files ahead : List Migration} (h : Ahead v files ahead)
    (hle : v ≤ v') : Ahead v' files ahead :=
  ⟨fun m hm => (h.caught m hm).imp_right fun hbehind => le_trans hbehind hle, h.sub, h.increasing⟩

/-- `v₀` is the version at which the calls started. -/
def PcCaught (v₀ v : Int) (files : List Migration) : MigratorPc σ → Prop
  | .loop current rest => v₀ ≤ current ∧ current ≤ v ∧ Ahead v files rest
  | .begun m rest => v₀ < m.version ∧ Ahead v files (m :: rest)
  | .writing m _ _ rest => v₀ < m.version ∧ Ahead v files (m :: rest)
  | _ => True

theorem PcCaught.step {v₀ v : Int} {files : List Migration} {pc pc' : MigratorPc σ}
    (h : PcCaught v₀ v files pc) (hbase : v₀ ≤ v)
    (hfiles : files.Pairwise (·.version < ·.version)) (hstep : PcStep v files pc pc') :
    PcCaught v₀ v files pc' := by
  cases hstep with
  | start => exact ⟨hbase, le_rfl, fun m hm => Or.inl hm, fun _ hm => hm, hfiles⟩
  | done => trivial
  | skip hle =>
      obtain ⟨hbase, hcurrent, hahead⟩ := h
      exact ⟨hbase, hcurrent, hahead.tail (le_trans hle hcurrent)⟩
  | begin hlt =>
      obtain ⟨hbase, -, hahead⟩ := h
      exact ⟨lt_of_le_of_lt hbase hlt, hahead⟩
  | lock => exact h
  | statement => exact h
  | threw => trivial

theorem PcCaught.mono {v₀ v v' : Int} {files : List Migration} {pc : MigratorPc σ}
    (h : PcCaught v₀ v files pc) (hle : v ≤ v') : PcCaught v₀ v' files pc := by
  cases pc with
  | loop current rest =>
      obtain ⟨hbase, hcurrent, hahead⟩ := h
      exact ⟨hbase, le_trans hcurrent hle, hahead.mono hle⟩
  | begun m rest => exact ⟨h.1, h.2.mono hle⟩
  | writing m script work rest => exact ⟨h.1, h.2.mono hle⟩
  | _ => trivial

/-- While all commits go forward, every file up to the version of the database has
been committed. -/
structure Migrators.Caught (dir : Directory) (found : ι → List Migration) (v₀ : Int)
    (s : Migrators ι σ) : Prop where
  committed : ∀ m ∈ dir.migrations, v₀ < m.version → m.version ≤ s.db.userVersion →
    m ∈ s.committed
  base : v₀ ≤ s.db.userVersion
  each : ∀ i, PcCaught v₀ s.db.userVersion (found i) (s.pc i)

section

variable {v₀ : Int} (hfound : ∀ i, Discovers dir (found i))

include hfound

theorem Migrators.Caught.step (hdistinct : DistinctVersions dir.migrations)
    (hs : s.Caught dir found v₀) (ha : CommitsForward s a)
    (h : migratorStep scripts found s a = some t) : t.Caught dir found v₀ := by
  cases migratorStep_moves h with
  | @quiet i pc writer hnone hpc =>
      refine ⟨hs.committed, hs.base, fun j => ?_⟩
      by_cases hj : j = i
      · subst hj
        have hnext := (hs.each j).step hs.base ((hfound j).increasing hdistinct) hpc
        simpa [Migrators.goto] using hnext
      · simpa [Migrators.goto, hj] using hs.each j
  | @commit i m work rest hsome hpc =>
      have hlt : s.db.userVersion < m.version := ha m hsome
      have hcaught := hs.each i
      rw [hpc] at hcaught
      obtain ⟨hbase, hahead⟩ := hcaught
      have hrest := (List.pairwise_cons.1 hahead.increasing).1
      refine ⟨fun m' hm' hlt' hle => ?_, le_of_lt hbase, fun j => ?_⟩
      · -- A file up to `m` that was not behind yet is `m`.
        rcases hahead.caught m' ((hfound i).mem_iff.2 hm') with hmem | hbehind
        · rcases List.mem_cons.1 hmem with rfl | hmem
          · simp
          · exact absurd (hrest m' hmem) (not_lt_of_ge hle)
        · exact List.mem_append_left _ (hs.committed m' hm' hlt' hbehind)
      · by_cases hj : j = i
        · subst hj
          have hnext : PcCaught v₀ m.version (found j)
              (.loop m.version rest : MigratorPc σ) :=
            ⟨le_of_lt hbase, le_rfl, (hahead.mono (le_of_lt hlt)).tail le_rfl⟩
          simpa [Migrators.goto] using hnext
        · simpa [Migrators.goto, hj] using (hs.each j).mono (le_of_lt hlt)

/-- A commit that does not go forward commits a file once more. -/
theorem Migrators.Caught.again (hs : s.Caught dir found v₀) (ha : ¬ CommitsForward s a)
    (h : migratorStep scripts found s a = some t) : ¬ t.committed.Nodup := by
  cases migratorStep_moves h with
  | quiet hnone hpc => exact absurd (fun m hm => by simp [hnone] at hm) ha
  | @commit i m work rest hsome hpc =>
      have hcaught := hs.each i
      rw [hpc] at hcaught
      obtain ⟨hbase, hahead⟩ := hcaught
      have hle : m.version ≤ s.db.userVersion := by
        by_contra hnot
        apply ha
        intro m' hm'
        rw [hsome, Option.mem_some_iff] at hm'
        exact hm' ▸ not_le.1 hnot
      have hfile := (hfound i).mem_iff.1 (hahead.sub m List.mem_cons_self)
      have hmem := hs.committed m hfile hbase hle
      intro hnodup
      exact (List.nodup_append.1 hnodup).2.2 m hmem m (List.mem_singleton_self m) rfl

end

theorem committed_extends (h : migratorStep scripts found s a = some t) :
    s.committed <+: t.committed := by
  cases migratorStep_moves h with
  | quiet hnone hpc => exact List.prefix_rfl
  | commit hsome hpc => exact List.prefix_append _ _

theorem along_of_committedOnce {v₀ : Int} (hfound : ∀ i, Discovers dir (found i))
    (hdistinct : DistinctVersions dir.migrations) {as : List (MigratorAct ι)}
    (hs : s.Caught dir found v₀) (hrun : Runs.exec (migratorStep scripts found) s as = some t)
    (honce : t.committed.Nodup) :
    Runs.Along (migratorStep scripts found) CommitsForward s as := by
  induction as generalizing s with
  | nil => trivial
  | cons a as ih =>
      obtain ⟨u, hu, hrest⟩ := Runs.exec_cons_eq_some.1 hrun
      have hextends : u.committed <+: t.committed := by
        refine Runs.exec_invariant (I := fun v => u.committed <+: v.committed) ?_
          List.prefix_rfl hrest
        intro v b w hv hvw
        exact hv.trans (committed_extends hvw)
      have ha : CommitsForward s a := by
        by_contra hnot
        exact hs.again hfound hnot hu (hextends.sublist.nodup honce)
      refine ⟨ha, fun w hw => ?_⟩
      rw [hu, Option.some.injEq] at hw
      subst hw
      exact ih (hs.step hfound hdistinct ha hu) hrest

/-- No file is committed twice if every commit raises the version of the database,
and, unless files share a version, only then. -/
theorem committedOnce_of_along {db : SchemaDb σ} {as : List (MigratorAct ι)}
    (hfound : ∀ i, Discovers dir (found i))
    (hrun : Runs.exec (migratorStep scripts found) (.init ι db) as = some s) :
    (Runs.Along (migratorStep scripts found) CommitsForward (.init ι db) as →
        s.committed.Nodup) ∧
      (DistinctVersions dir.migrations → s.committed.Nodup →
        Runs.Along (migratorStep scripts found) CommitsForward (.init ι db) as) := by
  constructor
  · intro halong
    have hinit : (Migrators.init ι db).Forward := ⟨fun m hm => by simp [Migrators.init] at hm,
      List.nodup_nil⟩
    have hforward : s.Forward := by
      apply Runs.exec_invariant_along ?_ hinit halong hrun
      intro u a v hu ha huv
      exact hu.step ha huv
    exact hforward.once
  · intro hdistinct honce
    have hinit : (Migrators.init ι db).Caught dir found db.userVersion := by
      refine ⟨fun m _ hlt hle => ?_, le_rfl, fun i => trivial⟩
      exact absurd hlt (not_lt_of_ge hle)
    exact along_of_committedOnce hfound hdistinct hinit hrun honce

/-! ## The server starts while the admin migrates -/

def initOnly : Directory where
  entries := [⟨bytes "001_init.sql", true⟩]
  distinct := by decide

theorem initOnly_discovers : Discovers initOnly [⟨1, bytes "001_init.sql"⟩] :=
  ⟨initOnly.entries, .refl _, by decide, by decide⟩

/-- One call after the other. -/
def inTurn : List (MigratorAct Bool) :=
  List.replicate 5 (.step true) ++ List.replicate 3 (.step false)

theorem committedOnce_inTurn :
    ∃ s, Runs.exec (migratorStep (fun _ => []) fun _ => [⟨1, bytes "001_init.sql"⟩])
        (.init Bool (⟨(), 0⟩ : SchemaDb Unit)) inTurn = some s ∧
      s.committed.length = 1 ∧ s.committed.Nodup := by
  have hrun : (Runs.exec (migratorStep (fun _ => []) fun _ => [⟨1, bytes "001_init.sql"⟩])
      (.init Bool (⟨(), 0⟩ : SchemaDb Unit)) inTurn).map (fun s => s.committed.length) =
        some 1 := by decide
  obtain ⟨s, hs, hlength⟩ := Option.map_eq_some_iff.1 hrun
  exact ⟨s, hs, hlength, (committedOnce_of_along (fun _ => initOnly_discovers) hs).1 (by decide)⟩

/-- Both calls read the version, then both apply the file, which may be run twice. -/
theorem stale_version_commits_twice :
    ¬ ∀ (dir : Directory) (scripts : Scripts Unit) (found : Bool → List Migration)
        (db : SchemaDb Unit) (as : List (MigratorAct Bool)) (s : Migrators Bool Unit),
      (∀ i, Discovers dir (found i)) →
        Runs.exec (migratorStep scripts found) (.init Bool db) as = some s →
          s.committed.Nodup := by
  intro h
  have hrun : Runs.exec (migratorStep (fun _ => []) fun _ => [⟨1, bytes "001_init.sql"⟩])
      (.init Bool (⟨(), 0⟩ : SchemaDb Unit))
      [.step true, .step false, .step true, .step true, .step true, .step false, .step false,
        .step false] = some _ := rfl
  have honce := h initOnly _ _ _ _ _ (fun _ => initOnly_discovers) hrun
  exact absurd honce (by decide)

end SSize

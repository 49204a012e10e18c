import SSize.Catalog.Load
import SSize.Lib.Runs

/-!
# A refresh among committing writers

The six `SELECT`s of a refresh are six steps, and each reads the database as it
is committed at that moment. Between any two of them any number of transactions
may commit. Nothing makes the six agree: what a refresh publishes is the catalog
of one state exactly when some committed state agrees with all that was read.
-/

namespace SSize

open Lib

/-- Where the refresh stands, with the local `items` of `load_published_items`. -/
inductive RefreshPc where
  | start
  | images (items : List Item)
  | tags (items : List Item)
  | sizes (items : List Item)
  | colors (items : List Item)
  | partners (items : List Item)
deriving DecidableEq

structure Published where
  catalog : Catalog
  reads : Reads

structure Refresher where
  db : CatalogDb
  pc : RefreshPc := .start
  /-- The states read by the refresh that is running, and the history of the run.
  No step depends on them. -/
  reads : Reads
  committed : List CatalogDb
  published : List Published := []

def Refresher.init (db : CatalogDb) : Refresher where
  db := db
  reads := .single db
  committed := [db]

inductive RefreshAct where
  | commit (tx : List WriterOp)
  | select
  /-- A `SELECT` throws, and the previous snapshot stays. -/
  | fail

def refreshStep (s : Refresher) : RefreshAct → Option Refresher
  | .commit tx =>
      match runTransaction s.db tx with
      | none => some s
      | some db => some { s with db := db, committed := s.committed ++ [db] }
  | .fail => some { s with pc := .start }
  | .select =>
      match s.pc with
      | .start => some { s with pc := .images s.db.selectItems, reads := .single s.db }
      | .images items =>
          some { s with
            pc := .tags (attachAll Item.id Item.imagesField.pushBack s.db.selectImages items)
            reads := { s.reads with images := s.db } }
      | .tags items =>
          some { s with
            pc := .sizes (attachAll Item.id Item.tagsField.pushBack s.db.selectTags items)
            reads := { s.reads with tags := s.db } }
      | .sizes items =>
          some { s with
            pc := .colors (attachAll Item.id Item.sizesField.pushBack s.db.selectSizes items)
            reads := { s.reads with sizes := s.db } }
      | .colors items =>
          some { s with
            pc := .partners (attachAll Item.id Item.colorsField.pushBack s.db.selectColors items)
            reads := { s.reads with colors := s.db } }
      | .partners items =>
          some { s with
            pc := .start
            reads := { s.reads with partners := s.db }
            published := s.published ++
              [⟨.ofRows items s.db.listPartners, { s.reads with partners := s.db }⟩] }

variable {s t : Refresher} {a : RefreshAct}

/-! ## What a refresh publishes -/

def RefreshPc.Loaded (r : Reads) : RefreshPc → Prop
  | .start => True
  | .images items => items = r.items.selectItems
  | .tags items =>
      items = attachAll Item.id Item.imagesField.pushBack r.images.selectImages
        r.items.selectItems
  | .sizes items =>
      items = attachAll Item.id Item.tagsField.pushBack r.tags.selectTags
        (attachAll Item.id Item.imagesField.pushBack r.images.selectImages r.items.selectItems)
  | .colors items =>
      items = attachAll Item.id Item.sizesField.pushBack r.sizes.selectSizes
        (attachAll Item.id Item.tagsField.pushBack r.tags.selectTags
          (attachAll Item.id Item.imagesField.pushBack r.images.selectImages r.items.selectItems))
  | .partners items => items = r.loadItems

/-- What every run keeps: the local items and the published catalogs are functions
of the states read. -/
structure Refresher.Faithful (s : Refresher) : Prop where
  loaded : s.pc.Loaded s.reads
  published : ∀ p ∈ s.published, p.catalog = p.reads.catalogOf

theorem Refresher.Faithful.init (db : CatalogDb) : (Refresher.init db).Faithful where
  loaded := trivial
  published p hp := by simp [Refresher.init] at hp

/-- A `SELECT` that publishes nothing. -/
theorem Refresher.Faithful.reading (h : s.Faithful) {pc : RefreshPc} {r : Reads}
    (hloaded : pc.Loaded r) : Refresher.Faithful { s with pc := pc, reads := r } :=
  ⟨hloaded, h.published⟩

theorem Refresher.Faithful.step (h : s.Faithful) (hstep : refreshStep s a = some t) :
    t.Faithful := by
  cases a with
  | commit tx =>
      rw [refreshStep] at hstep
      split at hstep
      · cases hstep
        exact h
      · cases hstep
        exact ⟨h.loaded, h.published⟩
  | fail =>
      cases hstep
      exact ⟨trivial, h.published⟩
  | select =>
      have hloaded := h.loaded
      rw [refreshStep] at hstep
      split at hstep
      · cases hstep
        apply h.reading
        rfl
      · next items hpc =>
          cases hstep
          apply h.reading
          rw [hpc, RefreshPc.Loaded] at hloaded
          rw [RefreshPc.Loaded, hloaded]
      · next items hpc =>
          cases hstep
          apply h.reading
          rw [hpc, RefreshPc.Loaded] at hloaded
          rw [RefreshPc.Loaded, hloaded]
      · next items hpc =>
          cases hstep
          apply h.reading
          rw [hpc, RefreshPc.Loaded] at hloaded
          rw [RefreshPc.Loaded, hloaded]
      · next items hpc =>
          cases hstep
          apply h.reading
          rw [hpc, RefreshPc.Loaded] at hloaded
          rw [RefreshPc.Loaded, hloaded]
          rfl
      · next items hpc =>
          cases hstep
          rw [hpc, RefreshPc.Loaded] at hloaded
          refine ⟨trivial, fun p hp => ?_⟩
          rcases List.mem_append.1 hp with hp | hp
          · exact h.published p hp
          · rw [List.mem_singleton.1 hp, hloaded]
            rfl

theorem Refresher.Faithful.run {db : CatalogDb} {as : List RefreshAct}
    (hrun : Runs.exec refreshStep (.init db) as = some s) : s.Faithful := by
  apply Runs.exec_invariant ?_ (Refresher.Faithful.init db) hrun
  intro u a v hu huv
  exact hu.step huv

/-! ## A refresh that no transaction interrupts -/

/-- No transaction commits between the first and the last `SELECT` of a refresh. -/
def Uninterrupted (s : Refresher) : RefreshAct → Prop
  | .commit _ => s.pc = .start
  | _ => True

instance : ∀ (s : Refresher) (a : RefreshAct), Decidable (Uninterrupted s a)
  | s, .commit _ => inferInstanceAs (Decidable (s.pc = .start))
  | _, .select => isTrue trivial
  | _, .fail => isTrue trivial

structure Refresher.Quiet (s : Refresher) : Prop where
  current : s.pc ≠ .start → s.reads = .single s.db
  committed : s.db ∈ s.committed
  published : ∀ p ∈ s.published, ∃ S ∈ s.committed, p.reads = .single S

theorem Refresher.Quiet.init (db : CatalogDb) : (Refresher.init db).Quiet where
  current h := absurd rfl h
  committed := List.mem_singleton_self db
  published p hp := by simp [Refresher.init] at hp

/-- A `SELECT` that publishes nothing reads the state that is current. -/
theorem Refresher.Quiet.reading (h : s.Quiet) {pc : RefreshPc} {r : Reads}
    (hr : r = .single s.db) : Refresher.Quiet { s with pc := pc, reads := r } :=
  ⟨fun _ => hr, h.committed, h.published⟩

theorem Refresher.Quiet.step (h : s.Quiet) (ha : Uninterrupted s a)
    (hstep : refreshStep s a = some t) : t.Quiet := by
  cases a with
  | commit tx =>
      rw [refreshStep] at hstep
      split at hstep
      · cases hstep
        exact h
      · next db hdb =>
          cases hstep
          constructor
          · exact fun hpc => absurd ha hpc
          · simp
          · intro p hp
            obtain ⟨S, hS, hreads⟩ := h.published p hp
            exact ⟨S, List.mem_append_left _ hS, hreads⟩
  | fail =>
      cases hstep
      exact ⟨fun hpc => absurd rfl hpc, h.committed, h.published⟩
  | select =>
      have hcurrent : ∀ pc, s.pc = pc → pc ≠ .start → s.reads = .single s.db := by
        intro pc hpc hne
        exact h.current (hpc ▸ hne)
      rw [refreshStep] at hstep
      split at hstep
      · cases hstep
        exact h.reading rfl
      · next items hpc =>
          cases hstep
          apply h.reading
          rw [hcurrent _ hpc (by simp)]
          rfl
      · next items hpc =>
          cases hstep
          apply h.reading
          rw [hcurrent _ hpc (by simp)]
          rfl
      · next items hpc =>
          cases hstep
          apply h.reading
          rw [hcurrent _ hpc (by simp)]
          rfl
      · next items hpc =>
          cases hstep
          apply h.reading
          rw [hcurrent _ hpc (by simp)]
          rfl
      · next items hpc =>
          cases hstep
          have hreads := hcurrent _ hpc (by simp)
          refine ⟨fun hidle => absurd rfl hidle, h.committed, fun p hp => ?_⟩
          rcases List.mem_append.1 hp with hp | hp
          · exact h.published p hp
          · refine ⟨s.db, h.committed, ?_⟩
            rw [List.mem_singleton.1 hp, hreads]
            rfl

theorem oneState_of_uninterrupted {db : CatalogDb} {as : List RefreshAct}
    (halong : Runs.Along refreshStep Uninterrupted (.init db) as)
    (hrun : Runs.exec refreshStep (.init db) as = some s) {p : Published}
    (hp : p ∈ s.published) : ∃ S ∈ s.committed, p.reads.AgreeWith S := by
  have hquiet : s.Quiet := by
    apply Runs.exec_invariant_along ?_ (Refresher.Quiet.init db) halong hrun
    intro u a v hu ha huv
    exact hu.step ha huv
  obtain ⟨S, hS, hreads⟩ := hquiet.published p hp
  exact ⟨S, hS, hreads ▸ Reads.agreeWith_single S⟩

/-! ## The exact condition -/

/-- One published item of the direct partner. -/
def oneItem : List WriterOp :=
  [.insertItem { title := bytes "a", partnerId := 1, status := .published }]

/-- Its photo and its tag, in one transaction. -/
def photoAndTag : List WriterOp :=
  [.addImage 1 { path := bytes "1.webp" }, .upsertTag (bytes "y2k") (bytes "y2k"),
    .attachTag 1 1]

end SSize

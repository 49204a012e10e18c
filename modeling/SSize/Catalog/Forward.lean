import SSize.Catalog.Refresh
import SSize.Lib.Forward

/-!
# The refreshes read forward

All refreshes of a run together, those that fail left out, are one reader of the history
of commits in the sense of `Lib.Forward`. So the states behind a later snapshot are
nowhere older than those behind an earlier one.
-/

namespace SSize

open Lib

/-- In the order of the `SELECT`s. -/
def Reads.inOrder (r : Reads) : List CatalogDb :=
  [r.items, r.images, r.tags, r.sizes, r.colors, r.partners]

/-- How many of its `SELECT`s the refresh has behind it. -/
def RefreshPc.selects : RefreshPc → Nat
  | .start => 0
  | .images _ => 1
  | .tags _ => 2
  | .sizes _ => 3
  | .colors _ => 4
  | .partners _ => 5

namespace Refresher

/-- The states that the refreshes have read, but for those of the failed ones. -/
def everRead (s : Refresher) : List CatalogDb :=
  s.published.flatMap (fun p => p.reads.inOrder) ++ s.reads.inOrder.take s.pc.selects

structure Forward (s : Refresher) : Prop where
  current : s.committed.getLast? = some s.db
  walks : Walks s.committed s.everRead

variable {s t : Refresher} {a : RefreshAct}

theorem Forward.init (db : CatalogDb) : (Refresher.init db).Forward where
  current := rfl
  walks := walks_nil _

/-- A `SELECT` reads the state that is current. -/
theorem everRead_select (h : refreshStep s .select = some t) :
    t.everRead = s.everRead ++ [s.db] ∧ t.committed = s.committed ∧ t.db = s.db := by
  rw [refreshStep] at h
  split at h
  all_goals
    next hpc =>
      cases h
      simp [everRead, hpc, RefreshPc.selects, Reads.inOrder, Reads.single]

theorem Forward.step (h : s.Forward) (hstep : refreshStep s a = some t) : t.Forward := by
  cases a with
  | commit tx =>
      rw [refreshStep] at hstep
      split at hstep
      · cases hstep
        exact h
      · cases hstep
        exact ⟨List.getLast?_concat, h.walks.mono (List.prefix_append _ _)⟩
  | fail =>
      cases hstep
      refine ⟨h.current, h.walks.sublist ?_⟩
      simp [everRead, RefreshPc.selects]
  | select =>
      obtain ⟨hread, hcommitted, hdb⟩ := everRead_select hstep
      constructor
      · rw [hcommitted, hdb]
        exact h.current
      · rw [hread, hcommitted]
        exact h.walks.read h.current

/-! ## What is published -/

/-- The catalog that the next `SELECT` publishes. -/
theorem published_select (h : refreshStep s .select = some t) :
    t.published = s.published ∧ (∀ items, s.pc ≠ .partners items) ∨
      ∃ items, s.pc = .partners items ∧ t.published = s.published ++
        [⟨.ofRows items s.db.listPartners, { s.reads with partners := s.db }⟩] := by
  rw [refreshStep] at h
  split at h
  case h_6 items hpc =>
    cases h
    exact Or.inr ⟨items, hpc, rfl⟩
  all_goals
    next hpc =>
      cases h
      exact Or.inl ⟨rfl, by simp [hpc]⟩

theorem published_prefix (h : refreshStep s a = some t) : s.published <+: t.published := by
  cases a with
  | commit tx =>
      rw [refreshStep] at h
      split at h
      · cases h
        exact List.prefix_rfl
      · cases h
        exact List.prefix_rfl
  | fail =>
      cases h
      exact List.prefix_rfl
  | select =>
      rcases published_select h with ⟨hsame, -⟩ | ⟨items, -, hmore⟩
      · rw [hsame]
      · rw [hmore]
        exact List.prefix_append _ _

end Refresher

end SSize

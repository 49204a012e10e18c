import SSize.Catalog.Query
import SSize.Lib.PositionIndex

/-!
# The indexes of a `Catalog`

`by_id_` and `partner_by_id_` hold positions and are filled when the items are in
feed order. `Indexed` collects what they, the feed and the tag list say about the
rows that the constructor was given.
-/

namespace SSize

open Lib

namespace Catalog

/-! ## `by_id_` and `partner_by_id_` -/

def byId (c : Catalog) : PositionIndex Int := .build Item.id c.items

def partnerById (c : Catalog) : PositionIndex Int := .build Partner.id c.partners

/-- `find` as the source has it, through the index. -/
def findById (c : Catalog) (id : Int) : Option Item := c.byId.lookup c.items id

def findPartner (c : Catalog) (id : Int) : Option Partner := c.partnerById.lookup c.partners id

theorem findById_eq (c : Catalog) (id : Int) : c.findById id = c.find id :=
  PositionIndex.lookup_build Item.id c.items id

theorem findPartner_eq (c : Catalog) (id : Int) : c.findPartner id = c.partner id :=
  PositionIndex.lookup_build Partner.id c.partners id

end Catalog

/-! ## The feed -/

/-- Neither comes before the other. -/
def Item.Ties (a b : Item) : Prop :=
  a.score = b.score ∧ a.publishedAt.getD 0 = b.publishedAt.getD 0

instance (a b : Item) : Decidable (a.Ties b) := inferInstanceAs (Decidable (_ ∧ _))

theorem Item.Ties.feedOrder {a b b' : Item} (h : a.Ties b) (h' : a.Ties b') : FeedOrder b b' :=
  feedOrder_iff.2 (Or.inr ⟨h'.1.symm.trans h.1, (h'.2.symm.trans h.2).le⟩)

/-- Items that tie keep their order. -/
theorem filter_ties_insertionSort (items : List Item) (a : Item) :
    (items.insertionSort FeedOrder).filter (fun b => decide (a.Ties b)) =
      items.filter fun b => decide (a.Ties b) := by
  have hties : (items.filter fun b => decide (a.Ties b)).Pairwise FeedOrder := by
    apply List.pairwise_of_forall_mem_list
    intro b hb b' hb'
    exact Item.Ties.feedOrder (by simpa using (List.mem_filter.1 hb).2)
      (by simpa using (List.mem_filter.1 hb').2)
  have hsub : (items.filter fun b => decide (a.Ties b)).Sublist
      ((items.insertionSort FeedOrder).filter fun b => decide (a.Ties b)) := by
    have hsorted := (List.sublist_insertionSort hties List.filter_sublist).filter
      fun b => decide (a.Ties b)
    simpa only [List.filter_filter, Bool.and_self] using hsorted
  have hlength := ((List.perm_insertionSort FeedOrder items).filter
    fun b => decide (a.Ties b)).length_eq
  exact (hsub.eq_of_length hlength.symm).symm

/-! ## The tags -/

theorem tagList_strict (items : List Item) : (tagList items).Pairwise (· < ·) := by
  have hsorted : (tagList items).Pairwise (· ≤ ·) := List.pairwise_insertionSort (· ≤ ·) _
  have hnodup : (tagList items).Nodup :=
    (List.perm_insertionSort (· ≤ ·) _).nodup_iff.2 (List.nodup_dedup _)
  apply (hsorted.and hnodup).imp
  rintro a b ⟨hle, hne⟩
  exact (List.le_iff_lt_or_eq.1 hle).resolve_right hne

theorem mem_tagList {items : List Item} {tag : Text} :
    tag ∈ tagList items ↔ ∃ item ∈ items, tag ∈ item.tags := by
  rw [tagList, List.mem_insertionSort, List.mem_dedup, List.mem_flatMap]

/-! ## A catalog as it was constructed -/

/-- The first row of `rows` with this key is `row`. -/
def FirstOf {α : Type*} (key : α → Int) (rows : List α) (k : Int) (row : α) : Prop :=
  key row = k ∧ ∃ before behind, rows = before ++ row :: behind ∧ ∀ r ∈ before, key r ≠ k

theorem find?_eq_some_iff_firstOf {α : Type*} {key : α → Int} {rows : List α} {k : Int} {row : α} :
    (rows.find? fun r => key r == k) = some row ↔ FirstOf key rows k row := by
  rw [List.find?_eq_some_iff_append, FirstOf]
  simp

structure Indexed (items : List Item) (partners : List Partner) (c : Catalog) : Prop where
  perm : c.items.Perm items
  sorted : c.items.Pairwise fun a b =>
    b.score < a.score ∨ a.score = b.score ∧ b.publishedAt.getD 0 ≤ a.publishedAt.getD 0
  stable : ∀ a : Item, c.items.filter (fun b => decide (a.Ties b)) =
    items.filter fun b => decide (a.Ties b)
  find_none : ∀ id, c.findById id = none ↔ ∀ item ∈ items, item.id ≠ id
  find_some : ∀ id item, c.findById id = some item ↔ FirstOf Item.id c.items id item
  partner_none : ∀ id, c.findPartner id = none ↔ ∀ p ∈ partners, p.id ≠ id
  partner_some : ∀ id p, c.findPartner id = some p ↔ FirstOf Partner.id partners id p
  tags_strict : c.tags.Pairwise (· < ·)
  tags_occur : ∀ tag, tag ∈ c.tags ↔ ∃ item ∈ items, tag ∈ item.tags
  tags_listed : ∀ tag ∈ c.tags, ∀ n, 1 ≤ n → c.query tag [] 0 n ≠ []

/-- A chip of the tag list leads to a page that is not empty. -/
theorem query_ne_nil {c : Catalog} {tag : Text} {n : Nat} (htag : tag ∈ c.tags) (hn : 1 ≤ n) :
    c.query tag [] 0 n ≠ [] := by
  rw [c.tagged, mem_tagList] at htag
  obtain ⟨item, hitem, hmem⟩ := htag
  have hkept : item ∈ c.filteredFeed tag [] := by
    simp [Catalog.filteredFeed, hitem, hmem]
  rw [Catalog.query_eq, List.drop_zero]
  intro hnil
  rcases List.take_eq_nil_iff.1 hnil with hzero | hempty
  · omega
  · exact List.not_mem_nil (hempty ▸ hkept)

/-- Whatever rows it was given, a constructed catalog is sorted stably, finds the
first row of every key and lists the tags of its items. -/
theorem ofRows_indexed (items : List Item) (partners : List Partner) :
    Indexed items partners (Catalog.ofRows items partners) := by
  have hperm : (Catalog.ofRows items partners).items.Perm items :=
    List.perm_insertionSort FeedOrder items
  constructor
  · exact hperm
  · apply (Catalog.ofRows items partners).ordered.imp
    intro a b hab
    rcases feedOrder_iff.1 hab with hlt | ⟨heq, hle⟩
    · exact Or.inl hlt
    · exact Or.inr ⟨heq.symm, hle⟩
  · exact filter_ties_insertionSort items
  · intro id
    rw [Catalog.findById_eq, Catalog.find, List.find?_eq_none]
    simp only [hperm.mem_iff, beq_iff_eq]
  · intro id item
    rw [Catalog.findById_eq]
    exact find?_eq_some_iff_firstOf
  · intro id
    rw [Catalog.findPartner_eq, Catalog.partner, List.find?_eq_none]
    simp only [beq_iff_eq]
    rfl
  · intro id p
    rw [Catalog.findPartner_eq]
    exact find?_eq_some_iff_firstOf
  · rw [(Catalog.ofRows items partners).tagged]
    exact tagList_strict _
  · intro tag
    rw [(Catalog.ofRows items partners).tagged, mem_tagList]
    simp only [hperm.mem_iff]
  · intro tag htag n hn
    exact query_ne_nil htag hn

end SSize

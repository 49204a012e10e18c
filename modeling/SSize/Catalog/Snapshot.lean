import SSize.Catalog.Item
import Mathlib.Data.List.Sort
import Mathlib.Data.List.Dedup

/-!
# The immutable snapshot (`catalog.cpp`)

`built_at` is left out, nothing reads it.
-/

namespace SSize

/-- The comparator that the constructor hands to `std::stable_sort`. -/
def feedBefore (a b : Item) : Bool :=
  if a.score ≠ b.score then a.score > b.score
  else a.publishedAt.getD 0 > b.publishedAt.getD 0

/-- Feed order: `b` does not have to come before `a`. -/
def FeedOrder (a b : Item) : Prop := feedBefore b a = false

instance : DecidableRel FeedOrder := fun a b => inferInstanceAs (Decidable (feedBefore b a = false))

theorem feedOrder_iff {a b : Item} :
    FeedOrder a b ↔
      b.score < a.score ∨ b.score = a.score ∧ b.publishedAt.getD 0 ≤ a.publishedAt.getD 0 := by
  unfold FeedOrder feedBefore
  by_cases hscore : b.score = a.score
  · simp [hscore]
  · rw [if_pos hscore]
    simp only [gt_iff_lt, decide_eq_false_iff_not, not_lt, hscore, false_and, or_false]
    exact ⟨fun h => lt_of_le_of_ne h hscore, le_of_lt⟩

instance : Std.Total FeedOrder where
  total a b := by
    rw [feedOrder_iff, feedOrder_iff]
    rcases lt_trichotomy a.score b.score with hlt | heq | hgt
    · exact Or.inr (Or.inl hlt)
    · rcases le_total (a.publishedAt.getD 0) (b.publishedAt.getD 0) with hle | hle
      · exact Or.inr (Or.inr ⟨heq, hle⟩)
      · exact Or.inl (Or.inr ⟨heq.symm, hle⟩)
    · exact Or.inl (Or.inl hgt)

instance : IsTrans Item FeedOrder where
  trans a b c := by
    rw [feedOrder_iff, feedOrder_iff, feedOrder_iff]
    rintro (hab | ⟨hab, hpab⟩) (hbc | ⟨hbc, hpbc⟩)
    · exact Or.inl (hbc.trans hab)
    · exact Or.inl (hbc ▸ hab)
    · exact Or.inl (hab ▸ hbc)
    · exact Or.inr ⟨hbc.trans hab, hpbc.trans hpab⟩

/-- `std::set<std::string>`: each tag once, in byte order. -/
def tagList (items : List Item) : List Text :=
  (items.flatMap Item.tags).dedup.insertionSort (· ≤ ·)

theorem nil_eq_tagList : [] = tagList [] := rfl

@[ext] structure Catalog where
  items : List Item := []
  partners : List Partner := []
  tags : List Text := []
  ordered : items.Pairwise FeedOrder := by exact List.Pairwise.nil
  tagged : tags = tagList items := by exact nil_eq_tagList

namespace Catalog

/-- The constructor. `insertionSort` is stable, as `std::stable_sort` is. -/
def ofRows (items : List Item) (partners : List Partner) : Catalog where
  items := items.insertionSort FeedOrder
  partners := partners
  tags := tagList (items.insertionSort FeedOrder)
  ordered := List.pairwise_insertionSort FeedOrder items
  tagged := rfl

variable (c : Catalog)

/-- `by_id_` was filled with `emplace`, so the first item of an id counts. -/
def find (id : Int) : Option Item := c.items.find? fun item => item.id == id

def partner (id : Int) : Option Partner := c.partners.find? fun p => p.id == id

/-- The two `continue`s of `query`. -/
def matchesFilter (tag size : Text) (item : Item) : Bool :=
  (tag.isEmpty || item.tags.contains tag) && (size.isEmpty || item.sizes.contains size)

/-- The loop of `query` with its counter and the length of `out`. The limit is
checked after the item was taken. -/
def queryFrom (tag size : Text) (offset limit : Nat) : Nat → Nat → List Item → List Item
  | _, _, [] => []
  | skipped, taken, item :: rest =>
      if !matchesFilter tag size item then queryFrom tag size offset limit skipped taken rest
      else if skipped < offset then
        queryFrom tag size offset limit (skipped + 1) taken rest
      else if taken + 1 ≥ limit then [item]
      else item :: queryFrom tag size offset limit (skipped + 1) (taken + 1) rest

def query (tag size : Text) (offset limit : Nat) : List Item :=
  queryFrom tag size offset limit 0 0 c.items

def size : Nat := c.items.length

end Catalog

/-- What `CatalogHandle` holds. The serial number stands for the address, which
`handle_feed` compares. -/
structure CatalogPtr where
  serial : Nat := 0
  catalog : Catalog := {}

end SSize

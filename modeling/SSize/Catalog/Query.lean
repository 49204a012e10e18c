import SSize.Catalog.Snapshot

/-!
# `Catalog::query` as filter, drop and take

The limit is tested behind `push_back`, so the loop takes `max 1 limit` elements. A
limit of zero is where that is one too many, unless no element is left at `offset`.
-/

namespace SSize

namespace Catalog

variable (c : Catalog) (tag size : Text) (offset limit : Nat)

/-- The feed under a filter, an empty text being none. -/
def filteredFeed : List Item :=
  c.items.filter fun item => decide ((tag = [] ∨ tag ∈ item.tags) ∧ (size = [] ∨ size ∈ item.sizes))

theorem matchesFilter_eq (item : Item) :
    matchesFilter tag size item =
      decide ((tag = [] ∨ tag ∈ item.tags) ∧ (size = [] ∨ size ∈ item.sizes)) := by
  rw [Bool.eq_iff_iff]
  simp [matchesFilter]

/-- The loop at any point: what is still to be skipped is dropped from the matches
ahead, and of the others so many are taken as the limit leaves, but one at least. -/
theorem queryFrom_eq (skipped taken : Nat) (items : List Item) :
    queryFrom tag size offset limit skipped taken items =
      ((items.filter (matchesFilter tag size)).drop (offset - skipped)).take
        (max 1 (limit - taken)) := by
  induction items generalizing skipped taken with
  | nil => simp [queryFrom]
  | cons item rest ih =>
      rw [queryFrom]
      by_cases hmatch : matchesFilter tag size item = true
      · rw [List.filter_cons_of_pos hmatch, hmatch, if_neg (by simp)]
        by_cases hskip : skipped < offset
        · have hdrop : offset - skipped = offset - (skipped + 1) + 1 := by omega
          rw [if_pos hskip, ih, hdrop, List.drop_succ_cons]
        · have hdrop : offset - skipped = 0 := by omega
          rw [if_neg hskip, hdrop, List.drop_zero]
          by_cases hlast : taken + 1 ≥ limit
          · have htake : max 1 (limit - taken) = 1 := by omega
            rw [if_pos hlast, htake, List.take_succ_cons, List.take_zero]
          · have htake : max 1 (limit - taken) = max 1 (limit - (taken + 1)) + 1 := by omega
            have hdrop' : offset - (skipped + 1) = 0 := by omega
            rw [if_neg hlast, ih, htake, List.take_succ_cons, hdrop', List.drop_zero]
      · have hno : matchesFilter tag size item = false := by simpa using hmatch
        rw [List.filter_cons_of_neg hmatch, hno, if_pos (by simp), ih]

theorem query_eq :
    c.query tag size offset limit =
      ((c.filteredFeed tag size).drop offset).take (max 1 limit) := by
  have hfilter : c.items.filter (matchesFilter tag size) = c.filteredFeed tag size := by
    simp only [filteredFeed, ← matchesFilter_eq]
  rw [query, queryFrom_eq, hfilter, Nat.sub_zero, Nat.sub_zero]

/-- Pages of one size, put together. -/
theorem flatMap_slices {α : Type*} (l : List α) (n : Nat) :
    (List.range n).flatMap (fun i => (l.drop (i * limit)).take limit) = l.take (n * limit) := by
  induction n with
  | zero => simp
  | succ n ih =>
      rw [List.range_succ, List.flatMap_append, ih, List.flatMap_singleton, Nat.succ_mul,
        List.take_add]

/-- The answer is the slice of the filtered feed, of at most `limit` elements, and
the pages from `offset` on follow each other in it without gap or overlap. -/
structure AnswersSlice : Prop where
  slice : c.query tag size offset limit = ((c.filteredFeed tag size).drop offset).take limit
  atMost : (c.query tag size offset limit).length ≤ limit
  pages : ∀ n, (List.range n).flatMap (fun i => c.query tag size (offset + i * limit) limit) =
    ((c.filteredFeed tag size).drop offset).take (n * limit)

/-- `query` is filter, drop and take exactly when it may take an element or there
is none to take. -/
theorem query_slice_iff :
    c.AnswersSlice tag size offset limit ↔
      0 < limit ∨ (c.filteredFeed tag size).length ≤ offset := by
  constructor
  · intro h
    by_cases hlimit : 0 < limit
    · exact Or.inl hlimit
    · have hzero : limit = 0 := by omega
      have hempty := h.slice
      rw [query_eq, hzero, List.take_zero, List.take_eq_nil_iff] at hempty
      exact Or.inr (List.drop_eq_nil_iff.1 (hempty.resolve_left (by omega)))
  · intro h
    have hslice : ∀ later, c.query tag size (offset + later) limit =
        ((c.filteredFeed tag size).drop (offset + later)).take limit := by
      intro later
      rw [query_eq]
      rcases h with hlimit | hpast
      · have hmax : max 1 limit = limit := by omega
        rw [hmax]
      · have hnil : (c.filteredFeed tag size).drop (offset + later) = [] :=
          List.drop_eq_nil_iff.2 (by omega)
        rw [hnil, List.take_nil, List.take_nil]
    refine ⟨hslice 0, ?_, fun n => ?_⟩
    · have hlength := congrArg List.length (hslice 0)
      rw [List.length_take] at hlength
      exact hlength.trans_le (Nat.min_le_left _ _)
    · calc (List.range n).flatMap (fun i => c.query tag size (offset + i * limit) limit)
          = (List.range n).flatMap (fun i =>
              (((c.filteredFeed tag size).drop offset).drop (i * limit)).take limit) := by
            simp only [hslice, List.drop_drop]
        _ = ((c.filteredFeed tag size).drop offset).take (n * limit) := flatMap_slices limit _ n

/-- A limit of zero on a catalog of one item. -/
theorem query_limit_zero :
    ¬ ∀ (c : Catalog) (tag size : Text) (offset limit : Nat),
      c.AnswersSlice tag size offset limit := by
  intro h
  have hshort := (h (ofRows [{ id := 1 }] []) [] [] 0 0).atMost
  exact absurd hshort (by decide)

end Catalog

end SSize

import Mathlib.Data.List.Perm.Basic
import Mathlib.Data.List.Sort
import Mathlib.Order.Defs.LinearOrder

/-!
# `ORDER BY ... DESC LIMIT n`

Rows with the same value may come in any order, and which of them the limit cuts off is left
open too. So the answer is a relation: the first `n` of the rows in some order that falls.
-/

namespace SSize.Lib

variable {α β : Type*} [LinearOrder β]

def IsTop (rate : α → β) (n : Nat) (all lines : List α) : Prop :=
  ∃ sorted : List α, sorted.Perm all ∧ sorted.Pairwise (fun a b => rate b ≤ rate a) ∧
    sorted.take n = lines

variable {rate : α → β} {n : Nat} {all all' lines : List α}

namespace IsTop

theorem perm (h : IsTop rate n all lines) (hperm : all.Perm all') : IsTop rate n all' lines := by
  obtain ⟨sorted, hsorted, hfalls, hlines⟩ := h
  exact ⟨sorted, hsorted.trans hperm, hfalls, hlines⟩

theorem mem (h : IsTop rate n all lines) {a : α} (ha : a ∈ lines) : a ∈ all := by
  obtain ⟨sorted, hsorted, -, rfl⟩ := h
  exact hsorted.mem_iff.1 (List.mem_of_mem_take ha)

theorem nodup (h : IsTop rate n all lines) (hall : all.Nodup) : lines.Nodup := by
  obtain ⟨sorted, hsorted, -, rfl⟩ := h
  exact (hsorted.nodup_iff.2 hall).sublist (List.take_sublist n sorted)

theorem falls (h : IsTop rate n all lines) : lines.Pairwise fun a b => rate b ≤ rate a := by
  obtain ⟨sorted, -, hfalls, rfl⟩ := h
  exact hfalls.sublist (List.take_sublist n sorted)

/-- A row that is cut off left a full list behind, and no row of that list is below it. -/
theorem outranks (h : IsTop rate n all lines) {b : α} (hb : b ∈ all) (hout : b ∉ lines) :
    lines.length = n ∧ ∀ a ∈ lines, rate b ≤ rate a := by
  obtain ⟨sorted, hsorted, hfalls, rfl⟩ := h
  have hmem : b ∈ sorted.take n ++ sorted.drop n := by
    rw [List.take_append_drop]
    exact hsorted.mem_iff.2 hb
  have hrest : b ∈ sorted.drop n := (List.mem_append.1 hmem).resolve_left hout
  constructor
  · rw [List.length_take, min_eq_left]
    by_contra hshort
    rw [List.drop_eq_nil_of_le (by omega)] at hrest
    exact List.not_mem_nil hrest
  · intro a ha
    rw [← List.take_append_drop n sorted, List.pairwise_append] at hfalls
    exact hfalls.2.2 a ha b hrest

/-- There always is an answer. -/
theorem mergeSort (rate : α → β) (n : Nat) (all : List α) :
    IsTop rate n all ((all.mergeSort fun a b => decide (rate b ≤ rate a)).take n) := by
  refine ⟨_, List.mergeSort_perm all _, ?_, rfl⟩
  have hsorted : (all.mergeSort fun a b => decide (rate b ≤ rate a)).Pairwise fun a b =>
      decide (rate b ≤ rate a) = true := by
    apply List.pairwise_mergeSort
    · intro a b c hab hbc
      rw [decide_eq_true_eq] at hab hbc ⊢
      exact hbc.trans hab
    · intro a b
      rw [Bool.or_eq_true, decide_eq_true_eq, decide_eq_true_eq]
      exact le_total _ _
  exact hsorted.imp fun h => of_decide_eq_true h

end IsTop

end SSize.Lib

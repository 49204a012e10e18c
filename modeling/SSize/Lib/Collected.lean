import Mathlib.Data.Fintype.Card

/-!
# Keys collected once

Items come one after the other. The key of an item is kept when it is valid and not
there yet, so what is kept are the valid keys of the items, each once, and there are
no more of them than there are items to come.
-/

namespace SSize.Lib

variable {α β : Type*}

/-- `seen` are the valid keys of the items, each once. -/
structure Collected (valid : β → Prop) (key : α → β) (items : List α) (seen : List β) : Prop where
  mem_iff : ∀ k, k ∈ seen ↔ valid k ∧ ∃ x ∈ items, key x = k
  nodup : seen.Nodup

namespace Collected

variable {valid : β → Prop} {key : α → β} {items : List α} {seen : List β} {x : α}

theorem start : Collected valid key [] [] where
  mem_iff k := by simp
  nodup := List.nodup_nil

theorem exists_mem_concat (k : β) :
    (∃ y ∈ items ++ [x], key y = k) ↔ (∃ y ∈ items, key y = k) ∨ key x = k := by
  simp [or_and_right, exists_or]

theorem skip (h : Collected valid key items seen) (hskip : valid (key x) → key x ∈ seen) :
    Collected valid key (items ++ [x]) seen := by
  refine ⟨fun k => ?_, h.nodup⟩
  rw [exists_mem_concat]
  constructor
  · intro hk
    obtain ⟨hvalid, hitems⟩ := (h.mem_iff k).1 hk
    exact ⟨hvalid, Or.inl hitems⟩
  · rintro ⟨hvalid, hitems | rfl⟩
    · exact (h.mem_iff k).2 ⟨hvalid, hitems⟩
    · exact hskip hvalid

theorem add (h : Collected valid key items seen) (hvalid : valid (key x)) (hnew : key x ∉ seen) :
    Collected valid key (items ++ [x]) (seen ++ [key x]) := by
  constructor
  · intro k
    rw [exists_mem_concat, List.mem_append, List.mem_singleton, h.mem_iff]
    constructor
    · rintro (⟨hk, hitems⟩ | rfl)
      · exact ⟨hk, Or.inl hitems⟩
      · exact ⟨hvalid, Or.inr rfl⟩
    · rintro ⟨hk, hitems | heq⟩
      · exact Or.inl ⟨hk, hitems⟩
      · exact Or.inr heq.symm
  · have hlast : ([key x] : List β).Nodup := List.nodup_singleton _
    refine List.nodup_append.2 ⟨h.nodup, hlast, fun k hk k' hk' heq => ?_⟩
    rw [List.mem_singleton.1 hk'] at heq
    exact hnew (heq ▸ hk)

/-- One more key would still be a key of some item. -/
theorem length_lt [Fintype α] (h : Collected valid key items seen) (hnew : key x ∉ seen) :
    seen.length < Fintype.card α := by
  classical
  have hsubset : (key x :: seen).toFinset ⊆ Finset.univ.image key := by
    intro k hk
    rw [Finset.mem_image]
    rcases List.mem_cons.1 (List.mem_toFinset.1 hk) with heq | hmem
    · exact ⟨x, Finset.mem_univ x, heq.symm⟩
    · obtain ⟨-, y, -, heq⟩ := (h.mem_iff k).1 hmem
      exact ⟨y, Finset.mem_univ y, heq⟩
  have hnodup : (key x :: seen).Nodup := List.nodup_cons.2 ⟨hnew, h.nodup⟩
  calc seen.length < (key x :: seen).length := Nat.lt_succ_self _
    _ = (key x :: seen).toFinset.card := (List.toFinset_card_of_nodup hnodup).symm
    _ ≤ (Finset.univ.image key).card := Finset.card_le_card hsubset
    _ ≤ Fintype.card α := Finset.card_image_le

/-- There are no more keys than there are items to come. -/
theorem length_le [Fintype α] (h : Collected valid key items seen) :
    seen.length ≤ Fintype.card α := by
  classical
  have hsubset : seen.toFinset ⊆ Finset.univ.image key := by
    intro k hk
    obtain ⟨-, y, -, heq⟩ := (h.mem_iff k).1 (List.mem_toFinset.1 hk)
    exact Finset.mem_image.2 ⟨y, Finset.mem_univ y, heq⟩
  calc seen.length = seen.toFinset.card := (List.toFinset_card_of_nodup h.nodup).symm
    _ ≤ (Finset.univ.image key).card := Finset.card_le_card hsubset
    _ ≤ Fintype.card α := Finset.card_image_le

end Collected

end SSize.Lib

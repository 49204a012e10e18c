import Mathlib.Data.List.Dedup
import Mathlib.Data.List.Perm.Basic

/-!
# `GROUP BY`

One line for each key that a row has, made from the rows with that key. SQL leaves the order
of the lines open, so what a caller may rely on is the lines up to their order, and these do
not depend on the order of the rows.
-/

namespace SSize.Lib

variable {α κ β : Type*} [DecidableEq κ]

/-- The rows with this key. -/
def groupOf (key : α → κ) (rows : List α) (k : κ) : List α := rows.filter fun r => decide (key r = k)

def groupBy (key : α → κ) (line : κ → List α → β) (rows : List α) : List β :=
  (rows.map key).dedup.map fun k => line k (groupOf key rows k)

variable {key : α → κ} {line : κ → List α → β} {rows rows' : List α}

theorem groupOf_ne_nil {k : κ} : groupOf key rows k ≠ [] ↔ k ∈ rows.map key := by
  rw [groupOf, ne_eq, List.filter_eq_nil_iff, List.mem_map]
  constructor
  · intro h
    by_contra hnone
    apply h
    intro r hr hk
    exact hnone ⟨r, hr, of_decide_eq_true hk⟩
  · rintro ⟨r, hr, hk⟩ h
    exact h r hr (decide_eq_true hk)

/-- The order of the rows does not matter to lines that are made of counts and sums. -/
theorem groupBy_perm (hline : ∀ k group group', group.Perm group' → line k group = line k group')
    (h : rows.Perm rows') : (groupBy key line rows).Perm (groupBy key line rows') := by
  have hlines : (fun k => line k (groupOf key rows k)) = fun k => line k (groupOf key rows' k) := by
    funext k
    exact hline k _ _ (h.filter _)
  rw [groupBy, groupBy, hlines]
  exact ((h.map key).dedup).map _

/-- The lines are those of the keys that have rows. -/
theorem groupBy_perm_keys {keys : List κ} (hkeys : keys.Nodup)
    (hmem : ∀ k, k ∈ keys ↔ groupOf key rows k ≠ []) :
    (groupBy key line rows).Perm (keys.map fun k => line k (groupOf key rows k)) := by
  apply List.Perm.map
  rw [List.perm_ext_iff_of_nodup (List.nodup_dedup _) hkeys]
  intro k
  rw [List.mem_dedup, hmem k, groupOf_ne_nil]

end SSize.Lib

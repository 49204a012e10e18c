import Mathlib.Data.List.Basic

/-!
# An index from keys to positions

`emplace` leaves an entry alone that is there already, so the index that is filled
while walking over rows holds the first position of every key.
-/

namespace SSize.Lib

variable {ι α : Type*} [DecidableEq ι]

/-- An `unordered_map` from keys to positions in a vector. -/
abbrev PositionIndex (ι : Type*) := ι → Option Nat

namespace PositionIndex

def emplace (index : PositionIndex ι) (key : ι) (position : Nat) : PositionIndex ι :=
  fun k => if k = key then some ((index k).getD position) else index k

/-- Each row is entered under its key, from the front. -/
def build (key : α → ι) (rows : List α) : PositionIndex ι :=
  rows.zipIdx.foldl (fun index row => index.emplace (key row.1) row.2) fun _ => none

/-- The row at the position that the index has for `k`. -/
def lookup (index : PositionIndex ι) (rows : List α) (k : ι) : Option α :=
  (index k).bind fun position => rows[position]?

variable (key : α → ι) (rows : List α) (k : ι)

theorem foldl_emplace (start : Nat) (index : PositionIndex ι) :
    (rows.zipIdx start).foldl (fun index row => index.emplace (key row.1) row.2) index k =
      (index k).or ((rows.findIdx? fun row => key row == k).map (start + ·)) := by
  induction rows generalizing start index with
  | nil => simp
  | cons row rows ih =>
      rw [List.zipIdx_cons, List.foldl_cons, ih, List.findIdx?_cons]
      by_cases hkey : key row = k
      · have hbeq : (key row == k) = true := beq_iff_eq.2 hkey
        cases hentry : index k <;> simp [emplace, hkey, hentry]
      · have hne : k ≠ key row := fun h => hkey h.symm
        have hbeq : (key row == k) = false := beq_false_of_ne hkey
        have hshift : ∀ i, start + 1 + i = start + (i + 1) := by omega
        cases hentry : index k <;> simp [emplace, hne, hentry, hbeq, Function.comp_def, hshift]

/-- The index has the first position of every key. -/
theorem build_eq_findIdx? : build key rows k = rows.findIdx? fun row => key row == k := by
  rw [build, foldl_emplace]
  simp

/-- Looking a key up through the index finds the first row that has it. -/
theorem lookup_build : (build key rows).lookup rows k = rows.find? fun row => key row == k := by
  rw [lookup, build_eq_findIdx?]
  induction rows with
  | nil => rfl
  | cons row rows ih =>
      rw [List.findIdx?_cons, List.find?_cons]
      by_cases hkey : (key row == k) = true
      · simp [hkey]
      · rw [← ih]
        simp only [hkey, Bool.false_eq_true, if_false]
        cases rows.findIdx? fun row => key row == k <;> rfl

end PositionIndex

end SSize.Lib

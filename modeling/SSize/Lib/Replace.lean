import Mathlib.Data.List.Infix

/-!
# Replacing literals in one pass

`replaceAll table x` goes over `x` once. Where one of the literals of the table
begins it puts what the literal stands for and goes on behind the literal, and every
other element it copies. What it put is never looked at again.
-/

namespace SSize.Lib

variable {α : Type*} [DecidableEq α]

/-- The entry whose literal `x` begins with. -/
def literalAt (table : List (List α × List α)) (x : List α) : Option (List α × List α) :=
  table.find? fun entry => entry.1.isPrefixOf x

/-- `skip` elements belong to a literal that was already replaced. -/
def replaceFrom (table : List (List α × List α)) : Nat → List α → List α
  | _, [] => []
  | skip + 1, _ :: rest => replaceFrom table skip rest
  | 0, c :: rest =>
      match literalAt table (c :: rest) with
      | some entry => entry.2 ++ replaceFrom table (entry.1.length - 1) rest
      | none => c :: replaceFrom table 0 rest

def replaceAll (table : List (List α × List α)) (x : List α) : List α := replaceFrom table 0 x

variable {table : List (List α × List α)}

theorem replaceFrom_skip (skip : Nat) (x : List α) :
    replaceFrom table skip x = replaceAll table (x.drop skip) := by
  induction skip generalizing x with
  | zero => rfl
  | succ skip ih =>
      cases x with
      | nil => rfl
      | cons c rest => rw [replaceFrom, ih, List.drop_succ_cons]

theorem replaceAll_cons_of_none {c : α} {rest : List α} (h : literalAt table (c :: rest) = none) :
    replaceAll table (c :: rest) = c :: replaceAll table rest := by
  rw [replaceAll, replaceFrom, h]
  rfl

/-- A literal and what follows it. -/
theorem replaceAll_literal {c : α} {lit value rest : List α}
    (h : literalAt table (c :: lit ++ rest) = some (c :: lit, value)) :
    replaceAll table (c :: lit ++ rest) = value ++ replaceAll table rest := by
  rw [List.cons_append] at h ⊢
  rw [replaceAll, replaceFrom, h]
  simp only [replaceFrom_skip, List.length_cons, Nat.add_sub_cancel, List.drop_left]

/-- Where no literal begins, everything is copied. -/
theorem replaceAll_append_of_none {x rest : List α}
    (h : ∀ y z, x = y ++ z → z ≠ [] → literalAt table (z ++ rest) = none) :
    replaceAll table (x ++ rest) = x ++ replaceAll table rest := by
  induction x with
  | nil => rfl
  | cons c x ih =>
      have hhere : literalAt table (c :: (x ++ rest)) = none := h [] (c :: x) rfl (by simp)
      rw [List.cons_append, replaceAll_cons_of_none hhere, ih]
      · rfl
      · intro y z hyz hz
        exact h (c :: y) z (by rw [hyz]; rfl) hz

end SSize.Lib

import Mathlib.Data.List.Basic

/-!
# Lists with something taken out

`Thinned p l l'`: what is missing in `l'` does not meet `p`. `Picked marks l l'`:
what is missing are the elements with a mark.
-/

namespace SSize.Lib

variable {α β : Type*}

structure Thinned (p : α → Bool) (l l' : List α) : Prop where
  sub : l'.Sublist l
  same : l'.filter p = l.filter p

namespace Thinned

variable {p : α → Bool} {l l' m m' : List α}

theorem refl (p : α → Bool) (l : List α) : Thinned p l l := ⟨.refl l, rfl⟩

theorem append (h : Thinned p l l') (h' : Thinned p m m') : Thinned p (l ++ m) (l' ++ m') where
  sub := h.sub.append h'.sub
  same := by rw [List.filter_append, List.filter_append, h.same, h'.same]

theorem concat (h : Thinned p l l') (x : α) : Thinned p (l ++ [x]) (l' ++ [x]) :=
  h.append (.refl p [x])

/-- One more element is missing. -/
theorem drop (h : Thinned p l l') {x : α} (hx : p x = false) : Thinned p (l ++ [x]) l' where
  sub := h.sub.trans (List.sublist_append_left l [x])
  same := by
    rw [List.filter_append, List.filter_cons_of_neg (by simp [hx]), List.filter_nil,
      List.append_nil, h.same]

theorem map {q : β → Bool} (f : α → β) (hq : ∀ x, q (f x) = p x) (h : Thinned p l l') :
    Thinned q (l.map f) (l'.map f) where
  sub := h.sub.map f
  same := by
    have hcomp : q ∘ f = p := funext hq
    rw [List.filter_map, List.filter_map, hcomp, h.same]

theorem filter (h : Thinned p l l') (q : α → Bool) : Thinned p (l.filter q) (l'.filter q) where
  sub := h.sub.filter q
  same := by
    have hcomm : ∀ l : List α, (l.filter q).filter p = (l.filter p).filter q := fun l => by
      rw [List.filter_filter, List.filter_filter]
      exact List.filter_congr fun x _ => Bool.and_comm _ _
    rw [hcomm, hcomm, h.same]

theorem eq_nil (h : Thinned p [] l') : l' = [] := List.sublist_nil.1 h.sub

end Thinned

/-- `l'` is `l` without the elements whose mark is set. -/
inductive Picked : List Bool → List α → List α → Prop
  | nil : Picked [] [] []
  | drop {marks : List Bool} {l l' : List α} (x : α) (h : Picked marks l l') :
      Picked (true :: marks) (x :: l) l'
  | keep {marks : List Bool} {l l' : List α} (x : α) (h : Picked marks l l') :
      Picked (false :: marks) (x :: l) (x :: l')

namespace Picked

variable {marks marks' : List Bool} {l l' m m' : List α}

theorem append (h : Picked marks l l') (h' : Picked marks' m m') :
    Picked (marks ++ marks') (l ++ m) (l' ++ m') := by
  induction h with
  | nil => exact h'
  | drop x _ ih => exact .drop x ih
  | keep x _ ih => exact .keep x ih

end Picked

end SSize.Lib

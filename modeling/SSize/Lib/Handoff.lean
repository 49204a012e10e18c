import Mathlib.Data.List.Basic
import Mathlib.Order.Basic

/-!
# Handing items over through a double buffer

Producers append to `pending`; the one consumer swaps `pending` into its own
`batch` and then either delivers from the front of the batch or, when something
throws, loses what is left of it. `accepted`, `done` and `lost` are what an
observer has seen.

Nothing appears or disappears: `Conserved`. As long as nothing was lost the
order is kept as well, and the order is kept only then: `inOrder_iff`.
-/

namespace SSize.Lib

@[ext] structure Handoff (α : Type*) where
  accepted : List α
  pending : List α
  batch : List α
  done : List α
  lost : List α

namespace Handoff

variable {α : Type*}

inductive Move : Handoff α → Handoff α → Prop
  | accept (h : Handoff α) (x : α) :
      Move h { h with accepted := h.accepted ++ [x], pending := h.pending ++ [x] }
  | drain (h : Handoff α) (hbatch : h.batch = []) :
      Move h { h with batch := h.pending, pending := [] }
  | deliver (h : Handoff α) (first rest : List α) (hbatch : h.batch = first ++ rest) :
      Move h { h with batch := rest, done := h.done ++ first }
  | lose (h : Handoff α) :
      Move h { h with batch := [], lost := h.lost ++ h.batch }
  | stay (h : Handoff α) : Move h h

/-- Every accepted item is in exactly one place. -/
def Conserved (h : Handoff α) : Prop :=
  h.accepted.Perm (h.done ++ h.lost ++ h.batch ++ h.pending)

/-- The items are where a lossless queue would have them, in their order. -/
def InOrder (h : Handoff α) : Prop :=
  h.accepted = h.done ++ h.batch ++ h.pending

/-- The invariant of a hand-over: conservation, and order until a loss. -/
structure Sound (h : Handoff α) : Prop where
  conserved : h.Conserved
  inOrder : h.lost = [] → h.InOrder

theorem sound_start : Sound (⟨[], [], [], [], []⟩ : Handoff α) :=
  ⟨List.Perm.refl _, fun _ => rfl⟩

theorem Move.sound {h h' : Handoff α} (hm : Move h h') (hs : h.Sound) : h'.Sound := by
  obtain ⟨hcons, horder⟩ := hs
  unfold Conserved at hcons
  unfold InOrder at horder
  cases hm with
  | accept x =>
      constructor
      · have := hcons.append_right [x]
        simpa [Conserved, List.append_assoc] using this
      · intro hlost
        simp [InOrder, horder hlost]
  | drain hbatch =>
      rw [hbatch] at hcons horder
      constructor
      · simpa [Conserved] using hcons
      · intro hlost
        simpa [InOrder] using horder hlost
  | deliver first rest hbatch =>
      rw [hbatch] at hcons horder
      constructor
      · have hswap : (h.lost ++ first).Perm (first ++ h.lost) := List.perm_append_comm
        have hmid := (hswap.append_right (rest ++ h.pending)).append_left h.done
        refine hcons.trans ?_
        simpa [Conserved, List.append_assoc] using hmid
      · intro hlost
        simpa [InOrder, List.append_assoc] using horder hlost
  | lose =>
      constructor
      · simpa [Conserved, List.append_assoc] using hcons
      · intro hlost
        have hboth := List.append_eq_nil_iff.1 hlost
        have := horder hboth.1
        rw [hboth.2] at this
        simpa [InOrder] using this
  | stay => exact ⟨hcons, horder⟩

theorem Sound.inOrder_iff {h : Handoff α} (hs : h.Sound) : h.InOrder ↔ h.lost = [] := by
  constructor
  · intro horder
    have hlen := hs.conserved.length_eq
    rw [InOrder] at horder
    rw [horder] at hlen
    simp only [List.length_append] at hlen
    exact List.eq_nil_of_length_eq_zero (by omega)
  · exact hs.inOrder

end Handoff

end SSize.Lib

import SSize.Lib.Handoff
import Mathlib.Data.List.Infix

/-!
# Work that a loop does in rounds

A loop reads the clock at the beginning of each round. A job with a timer starts in the
rounds that begin when it is due, so between two of its starts there is its period and at
most what the rounds take; a buffer that is emptied once in each round has delivered
what was in it by the end of the next one.
-/

namespace SSize.Lib

/-! ## A job with a timer -/

/-- The job is due at `due` and started last at `last`. The round that is running began at
`round`, and `looked` tells whether it has looked at the timer yet. -/
structure Polled (period length due last round : Int) (looked : Bool) : Prop where
  due_le : due ≤ last + period
  round_le : round ≤ last + period + if looked then 0 else length

namespace Polled

variable {period length due last round clock : Int} {looked : Bool}

/-- The next round begins. -/
theorem next (h : Polled period length due last round true) (hclock : clock ≤ round + length) :
    Polled period length due last clock false := by
  have hround := h.round_le
  refine ⟨h.due_le, ?_⟩
  simp only [if_true, if_false, Bool.false_eq_true] at hround ⊢
  omega

/-- The job is not due. -/
theorem skip (h : Polled period length due last round false) (hdue : round < due) :
    Polled period length due last round true := by
  have hle := h.due_le
  refine ⟨hle, ?_⟩
  simp only [if_true]
  omega

/-- The job starts, and the timer is set again. -/
theorem start (hdue : due ≤ last + period) (hround : round ≤ last + period) :
    Polled period length due last round true :=
  ⟨hdue, by simpa using hround⟩

/-- How long ago the job started. -/
theorem age (h : Polled period length due last round looked) (hlength : 0 ≤ length)
    (hclock : clock ≤ round + length) : clock ≤ last + period + 2 * length := by
  have hround := h.round_le
  cases looked
  · simp only [if_false, Bool.false_eq_true] at hround
    omega
  · simp only [if_true] at hround
    omega

end Polled

/-! ## A buffer that is emptied in each round -/

namespace Handoff

variable {α : Type*} {h h' : Handoff α} {earlier : List α}

/-- What was delivered, drained or pending `earlier` is still there. -/
def Held (earlier : List α) (h : Handoff α) : Prop := earlier <+: h.done ++ h.batch ++ h.pending

/-- It has left the buffer. -/
def Taken (earlier : List α) (h : Handoff α) : Prop := earlier <+: h.done ++ h.batch

theorem held_start (h : Handoff α) : h.Held (h.done ++ h.batch ++ h.pending) := List.prefix_rfl

theorem Held.taken (hh : h.Held earlier) (hpending : h.pending = []) : h.Taken earlier := by
  rwa [Held, hpending, List.append_nil] at hh

theorem Taken.delivered (ht : h.Taken earlier) (hbatch : h.batch = []) : earlier <+: h.done := by
  rwa [Taken, hbatch, List.append_nil] at ht

/-- A step that loses nothing keeps what is held. -/
theorem Move.held (hm : h.Move h') (hlost : h'.lost = h.lost) (hh : h.Held earlier) :
    h'.Held earlier := by
  unfold Held at hh ⊢
  cases hm with
  | accept x =>
      rw [← List.append_assoc]
      exact hh.trans (List.prefix_append _ _)
  | drain hbatch =>
      rw [hbatch, List.append_nil] at hh
      simpa using hh
  | deliver first rest hbatch => rwa [List.append_assoc h.done, ← hbatch]
  | lose =>
      have hempty := List.append_right_eq_self.1 hlost
      rwa [hempty] at hh
  | stay => exact hh

/-- What has left the buffer does not come back. -/
theorem Move.taken (hm : h.Move h') (hlost : h'.lost = h.lost) (ht : h.Taken earlier) :
    h'.Taken earlier := by
  unfold Taken at ht ⊢
  cases hm with
  | accept x => exact ht
  | drain hbatch =>
      rw [hbatch, List.append_nil] at ht
      exact ht.trans (List.prefix_append _ _)
  | deliver first rest hbatch => rwa [List.append_assoc, ← hbatch]
  | lose =>
      have hempty := List.append_right_eq_self.1 hlost
      rwa [hempty] at ht
  | stay => exact ht

/-- What is delivered stays delivered. -/
theorem Move.done_prefix (hm : h.Move h') : h.done <+: h'.done := by
  cases hm with
  | deliver first rest hbatch => exact List.prefix_append _ _
  | _ => exact List.prefix_rfl

/-- What was there `earlier`, at the time `since`, in a round that began at `round` and has
`emptied` the buffer or not yet. -/
structure Waits (since length : Int) (earlier : List α) (round : Int) (emptied : Bool)
    (h : Handoff α) : Prop where
  held : h.Held earlier
  taken : since < round → emptied = true → h.Taken earlier
  delivered : since + length < round → earlier <+: h.done

variable {since length round clock : Int} {emptied emptied' : Bool}

theorem waits_start (h : Handoff α) (hround : round ≤ since) (hlength : 0 ≤ length) :
    h.Waits since length (h.done ++ h.batch ++ h.pending) round emptied :=
  ⟨h.held_start, fun hlt => absurd hlt (by omega), fun hlt => absurd hlt (by omega)⟩

/-- A step within the round. -/
theorem Waits.move (hw : h.Waits since length earlier round emptied) (hm : h.Move h')
    (hlost : h'.lost = h.lost)
    (hemptied : emptied' = true → emptied = true ∨ h'.pending = []) :
    h'.Waits since length earlier round emptied' where
  held := hm.held hlost hw.held
  taken hlt hnow := by
    rcases hemptied hnow with hbefore | hpending
    · exact hm.taken hlost (hw.taken hlt hbefore)
    · exact (hm.held hlost hw.held).taken hpending
  delivered hlt := (hw.delivered hlt).trans hm.done_prefix

/-- The next round begins, and the batch of this one is through. -/
theorem Waits.next (hw : h.Waits since length earlier round true) (hbatch : h.batch = [])
    (hclock : clock ≤ round + length) : h.Waits since length earlier clock false where
  held := hw.held
  taken _ hnot := by cases hnot
  delivered hlt := (hw.taken (by omega) rfl).delivered hbatch

end Handoff

end SSize.Lib

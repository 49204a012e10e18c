import Mathlib.Logic.Function.Basic

/-!
# One timer for each key

A program keeps the handle of the timer that it has set for a key, in a map. The
scheduler keeps the timers that are running, each with its key. Setting a timer only
for a key without one and taking it out of both at once keeps the two the same.
-/

namespace SSize.Lib

variable {κ : Type*}

/-- The map and the scheduler agree on which timer is whose. -/
structure Timed (timers : κ → Option Nat) (running : List (Nat × κ)) : Prop where
  timer_iff : ∀ key handle, timers key = some handle ↔ (handle, key) ∈ running
  positive : ∀ handle key, (handle, key) ∈ running → 0 < handle
  unique : ∀ handle key key', (handle, key) ∈ running → (handle, key') ∈ running → key = key'

namespace Timed

variable {timers : κ → Option Nat} {running : List (Nat × κ)} {handle : Nat} {key : κ}

theorem start : Timed (fun _ : κ => none) [] where
  timer_iff key handle := by simp
  positive handle key h := absurd h List.not_mem_nil
  unique handle key key' h := absurd h List.not_mem_nil

theorem not_running (h : Timed timers running) (hnone : timers key = none) :
    (handle, key) ∉ running := by
  intro hmem
  rw [(h.timer_iff key handle).2 hmem] at hnone
  exact Option.some_ne_none handle hnone

/-- A key has one timer. -/
theorem handle_eq (h : Timed timers running) (htimer : timers key = some handle) {other : Nat}
    (hmem : (other, key) ∈ running) : other = handle := by
  have hother := (h.timer_iff key other).2 hmem
  rw [htimer, Option.some.injEq] at hother
  exact hother.symm

theorem mem_of_lookup (h : running.lookup handle = some key) : (handle, key) ∈ running := by
  obtain ⟨before, after, hsplit, -⟩ := List.lookup_eq_some_iff.1 h
  rw [hsplit]
  exact List.mem_append_right _ List.mem_cons_self

theorem not_mem_of_lookup (h : running.lookup handle = none) : (handle, key) ∉ running := by
  intro hmem
  have hne := List.lookup_eq_none_iff.1 h _ hmem
  simp at hne

variable [DecidableEq κ]

theorem set (h : Timed timers running) (hnone : timers key = none) (hpositive : 0 < handle)
    (hfree : running.lookup handle = none) :
    Timed (Function.update timers key (some handle)) ((handle, key) :: running) := by
  constructor
  · intro key' handle'
    by_cases hkey : key' = key
    · subst hkey
      simp [h.not_running hnone, eq_comm]
    · rw [Function.update_of_ne hkey, h.timer_iff]
      simp [hkey]
  · intro handle' key' hmem
    rcases List.mem_cons.1 hmem with heq | hmem
    · rw [Prod.mk.injEq] at heq
      omega
    · exact h.positive handle' key' hmem
  · intro handle' key₁ key₂ h₁ h₂
    rcases List.mem_cons.1 h₁ with heq₁ | h₁ <;> rcases List.mem_cons.1 h₂ with heq₂ | h₂
    · rw [Prod.mk.injEq] at heq₁ heq₂
      rw [heq₁.2, heq₂.2]
    · rw [Prod.mk.injEq] at heq₁
      exact absurd (heq₁.1 ▸ h₂) (not_mem_of_lookup hfree)
    · rw [Prod.mk.injEq] at heq₂
      exact absurd (heq₂.1 ▸ h₁) (not_mem_of_lookup hfree)
    · exact h.unique handle' key₁ key₂ h₁ h₂

/-- A timer that was cleared or has fired. -/
theorem remove (h : Timed timers running) (hmem : (handle, key) ∈ running) :
    Timed (Function.update timers key none) (running.filter fun timer => timer.1 != handle) := by
  have htimer := (h.timer_iff key handle).2 hmem
  constructor
  · intro key' handle'
    by_cases hkey : key' = key
    · subst hkey
      simpa using fun hmem' : (handle', key') ∈ running => h.handle_eq htimer hmem'
    · have hother : (handle', key') ∈ running → handle' ≠ handle := by
        intro hmem' heq
        exact hkey (h.unique handle' key' key hmem' (heq ▸ hmem))
      rw [Function.update_of_ne hkey, h.timer_iff]
      simpa using hother
  · intro handle' key' hmem'
    exact h.positive handle' key' (List.mem_filter.1 hmem').1
  · intro handle' key₁ key₂ h₁ h₂
    exact h.unique handle' key₁ key₂ (List.mem_filter.1 h₁).1 (List.mem_filter.1 h₂).1

end Timed

end SSize.Lib

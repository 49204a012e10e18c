import SSize.Lib.Runs
import Mathlib.Data.List.Forall2

/-!
# What an observer cannot tell

An observer sees a part of each state and gets an answer to each action. If steps from states
that look the same to him, by actions that he takes for the same, lead to states that look the
same and give the same answers, then he sees no difference between two whole runs.
-/

namespace SSize.Lib.Runs

variable {σ α τ ω : Type*}

/-- The answers to the actions of a run, in order. -/
def answers (step : σ → α → Option σ) (answer : σ → α → ω) (s : σ) (as : List α) : List ω :=
  (trace step s as).map fun p => answer p.1 p.2

theorem answers_cons {step : σ → α → Option σ} {answer : σ → α → ω} {s : σ} {a : α}
    (as : List α) :
    answers step answer s (a :: as) =
      match step s a with
      | none => []
      | some t => answer s a :: answers step answer t as := by
  rw [answers, trace]
  cases step s a <;> rfl

/-- What one step must keep from an observer. -/
structure Unwinds (step : σ → α → Option σ) (answer : σ → α → ω) (view : σ → τ)
    (alike : α → α → Prop) : Prop where
  step : ∀ {s s' : σ} {a a' : α}, view s = view s' → alike a a' →
    (step s a).map view = (step s' a').map view
  answer : ∀ {s s' : σ} {a a' : α}, view s = view s' → alike a a' →
    answer s a = answer s' a'

variable {step : σ → α → Option σ} {answer : σ → α → ω} {view : σ → τ} {alike : α → α → Prop}

theorem Unwinds.run (h : Unwinds step answer view alike) {s s' : σ} {as as' : List α}
    (hview : view s = view s') (has : List.Forall₂ alike as as') :
    (exec step s as).map view = (exec step s' as').map view ∧
      answers step answer s as = answers step answer s' as' := by
  induction has generalizing s s' with
  | nil => exact ⟨congrArg some hview, rfl⟩
  | @cons a a' as as' ha _ ih =>
      have hstep := h.step hview ha
      rw [exec_cons, exec_cons, answers_cons, answers_cons, h.answer hview ha]
      cases ht : step s a with
      | none =>
          rw [ht, Option.map_none] at hstep
          have ht' : step s' a' = none := Option.map_eq_none_iff.1 hstep.symm
          rw [ht']
          exact ⟨rfl, rfl⟩
      | some t =>
          rw [ht, Option.map_some] at hstep
          obtain ⟨t', ht', hlater⟩ := Option.map_eq_some_iff.1 hstep.symm
          obtain ⟨hend, hanswers⟩ := ih hlater.symm
          rw [ht']
          exact ⟨hend, congrArg (_ :: ·) hanswers⟩

end SSize.Lib.Runs

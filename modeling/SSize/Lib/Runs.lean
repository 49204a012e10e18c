import Mathlib.Data.List.Basic
import Mathlib.Order.Basic
import Mathlib.Order.Lattice

/-!
# Runs of a partial step function

A system is given by `step : σ → α → Option σ`: in state `s` the action `a` is
either not enabled or leads to exactly one state. Nondeterminism (which party
moves next, what the environment answers) lives in the action.

`exec` composes steps, `Along C` says that every step of a run meets `C`, and
the rules below are the inductions over runs that the rest of the development
uses. `along_iff_measure` is the rule for exact conditions: a measure that grows
exactly at the steps outside `C` is unchanged at the end of a run if and only if
the whole run stayed in `C`.
-/

namespace SSize.Lib.Runs

variable {σ α : Type*} (step : σ → α → Option σ)

/-- The state after a list of actions, `none` once one of them is not enabled. -/
def exec : σ → List α → Option σ
  | s, [] => some s
  | s, a :: as => (step s a).bind fun t => exec t as

/-- Every step that the run of `as` from `s` takes meets `C`. -/
def Along (C : σ → α → Prop) : σ → List α → Prop
  | _, [] => True
  | s, a :: as => C s a ∧ ∀ t, step s a = some t → Along C t as

/-- The steps of a run: each state with the action taken there. -/
def trace : σ → List α → List (σ × α)
  | _, [] => []
  | s, a :: as =>
      match step s a with
      | none => []
      | some t => (s, a) :: trace t as

variable {step}

@[simp] theorem exec_nil (s : σ) : exec step s [] = some s := rfl

@[simp] theorem exec_cons (s : σ) (a : α) (as : List α) :
    exec step s (a :: as) = (step s a).bind fun t => exec step t as := rfl

theorem exec_cons_eq_some {s u : σ} {a : α} {as : List α} :
    exec step s (a :: as) = some u ↔
      ∃ t, step s a = some t ∧ exec step t as = some u := by
  rw [exec_cons, Option.bind_eq_some_iff]

theorem exec_append (s : σ) (as bs : List α) :
    exec step s (as ++ bs) = (exec step s as).bind fun t => exec step t bs := by
  induction as generalizing s with
  | nil => rfl
  | cons a as ih =>
      rw [List.cons_append, exec_cons, exec_cons, Option.bind_assoc]
      congr 1
      funext t
      exact ih t

theorem trace_cons {s t : σ} {a : α} (h : step s a = some t) (as : List α) :
    trace step s (a :: as) = (s, a) :: trace step t as := by
  rw [trace, h]

theorem trace_append {s t : σ} {as : List α} (h : exec step s as = some t) (bs : List α) :
    trace step s (as ++ bs) = trace step s as ++ trace step t bs := by
  induction as generalizing s with
  | nil =>
      rw [exec_nil, Option.some.injEq] at h
      subst h
      rfl
  | cons a as ih =>
      obtain ⟨u, hu, hrest⟩ := exec_cons_eq_some.1 h
      rw [List.cons_append, trace_cons hu, trace_cons hu, ih hrest, List.cons_append]

theorem map_snd_trace {s t : σ} {as : List α} (h : exec step s as = some t) :
    (trace step s as).map Prod.snd = as := by
  induction as generalizing s with
  | nil => rfl
  | cons a as ih =>
      obtain ⟨u, hu, hrest⟩ := exec_cons_eq_some.1 h
      rw [trace_cons hu, List.map_cons, ih hrest]

instance decidableAlong {C : σ → α → Prop} [∀ s a, Decidable (C s a)] :
    ∀ (s : σ) (as : List α), Decidable (Along step C s as)
  | _, [] => isTrue trivial
  | s, a :: as =>
      match h : step s a with
      | none => decidable_of_iff (C s a) (by simp [Along, h])
      | some t =>
          have := decidableAlong (C := C) t as
          decidable_of_iff (C s a ∧ Along step C t as) (by simp [Along, h])

theorem Along.mono {C D : σ → α → Prop} (hCD : ∀ s a, C s a → D s a) {s : σ} {as : List α}
    (h : Along step C s as) : Along step D s as := by
  induction as generalizing s with
  | nil => trivial
  | cons a as ih => exact ⟨hCD s a h.1, fun t ht => ih (h.2 t ht)⟩

theorem along_append {C : σ → α → Prop} {s : σ} {as bs : List α} :
    Along step C s (as ++ bs) ↔
      Along step C s as ∧ ∀ t, exec step s as = some t → Along step C t bs := by
  induction as generalizing s with
  | nil => simp [Along]
  | cons a as ih =>
      rw [List.cons_append, Along, Along]
      constructor
      · rintro ⟨ha, hrest⟩
        refine ⟨⟨ha, fun t ht => (ih.1 (hrest t ht)).1⟩, fun u hu => ?_⟩
        obtain ⟨t, ht, htu⟩ := exec_cons_eq_some.1 hu
        exact (ih.1 (hrest t ht)).2 u htu
      · rintro ⟨⟨ha, hfirst⟩, hrest⟩
        refine ⟨ha, fun t ht => ih.2 ⟨hfirst t ht, fun u hu => hrest u ?_⟩⟩
        exact exec_cons_eq_some.2 ⟨t, ht, hu⟩

theorem exec_invariant_along {C : σ → α → Prop} {I : σ → Prop}
    (hstep : ∀ s a t, I s → C s a → step s a = some t → I t)
    {s t : σ} {as : List α} (hs : I s) (halong : Along step C s as)
    (hrun : exec step s as = some t) : I t := by
  induction as generalizing s with
  | nil =>
      rw [exec_nil, Option.some.injEq] at hrun
      exact hrun ▸ hs
  | cons a as ih =>
      obtain ⟨u, hu, hrest⟩ := exec_cons_eq_some.1 hrun
      exact ih (hstep s a u hs halong.1 hu) (halong.2 u hu) hrest

theorem exec_invariant {I : σ → Prop}
    (hstep : ∀ s a t, I s → step s a = some t → I t)
    {s t : σ} {as : List α} (hs : I s) (hrun : exec step s as = some t) : I t := by
  induction as generalizing s with
  | nil =>
      rw [exec_nil, Option.some.injEq] at hrun
      exact hrun ▸ hs
  | cons a as ih =>
      obtain ⟨u, hu, hrest⟩ := exec_cons_eq_some.1 hrun
      exact ih (hstep s a u hs hu) hrest

/-- An invariant of the state and of the steps so far. A step may use which
actions came before it and which are to come. -/
theorem exec_trace_invariant {all : List α} {I : List (σ × α) → σ → Prop}
    (hstep : ∀ tr s a as t, I tr s → tr.map Prod.snd ++ a :: as = all → step s a = some t →
      I (tr ++ [(s, a)]) t)
    {tr : List (σ × α)} {s t : σ} {as : List α} (hs : I tr s)
    (hall : tr.map Prod.snd ++ as = all) (hrun : exec step s as = some t) :
    I (tr ++ trace step s as) t := by
  induction as generalizing tr s with
  | nil =>
      rw [exec_nil, Option.some.injEq] at hrun
      rw [trace, List.append_nil]
      exact hrun ▸ hs
  | cons a as ih =>
      obtain ⟨u, hu, hrest⟩ := exec_cons_eq_some.1 hrun
      have hsame : (tr ++ [(s, a)]).map Prod.snd ++ as = all := by
        rw [List.map_append, List.append_assoc]
        exact hall
      have hlater := ih (hstep tr s a as u hs hall hu) hsame hrest
      rwa [List.append_assoc, List.singleton_append, ← trace_cons hu] at hlater

/-- An invariant of the state and of the steps so far, where every step taken meets `C`. -/
theorem exec_trace_invariant_of {C : σ → α → Prop} {I : List (σ × α) → σ → Prop}
    (hstep : ∀ tr s a t, I tr s → C s a → step s a = some t → I (tr ++ [(s, a)]) t)
    {tr : List (σ × α)} {s t : σ} {as : List α} (hs : I tr s)
    (hC : ∀ e ∈ trace step s as, C e.1 e.2) (hrun : exec step s as = some t) :
    I (tr ++ trace step s as) t := by
  induction as generalizing tr s with
  | nil =>
      rw [exec_nil, Option.some.injEq] at hrun
      rw [trace, List.append_nil]
      exact hrun ▸ hs
  | cons a as ih =>
      obtain ⟨u, hu, hrest⟩ := exec_cons_eq_some.1 hrun
      rw [trace_cons hu] at hC ⊢
      have hnext := hstep tr s a u hs (hC (s, a) List.mem_cons_self) hu
      have hlater := ih hnext (fun e he => hC e (List.mem_cons_of_mem _ he)) hrest
      rwa [List.append_assoc, List.singleton_append] at hlater

theorem along_of_invariant {C : σ → α → Prop} {I : σ → Prop}
    (hstep : ∀ s a t, I s → step s a = some t → I t) (hC : ∀ s a, I s → C s a)
    {s : σ} (hs : I s) (as : List α) : Along step C s as := by
  induction as generalizing s with
  | nil => trivial
  | cons a as ih =>
      refine ⟨hC s a hs, fun t ht => ?_⟩
      exact ih (hstep s a t hs ht)

/-- A measure that stays put on the steps inside `C` and grows on the others is
unchanged by a run exactly when the run stays inside `C`. -/
theorem along_iff_measure {C : σ → α → Prop} {I : σ → Prop} (m : σ → Nat)
    (hI : ∀ s a t, I s → step s a = some t → I t)
    (hin : ∀ s a t, I s → C s a → step s a = some t → m t = m s)
    (hout : ∀ s a t, I s → ¬ C s a → step s a = some t → m s < m t)
    {s t : σ} {as : List α} (hs : I s) (hrun : exec step s as = some t) :
    m t = m s ↔ Along step C s as := by
  have hmono : ∀ s a t, I s → step s a = some t → m s ≤ m t := by
    intro s a t hs ht
    by_cases hC : C s a
    · exact (hin s a t hs hC ht).ge
    · exact (hout s a t hs hC ht).le
  induction as generalizing s with
  | nil =>
      rw [exec_nil, Option.some.injEq] at hrun
      subst hrun
      exact ⟨fun _ => trivial, fun _ => rfl⟩
  | cons a as ih =>
      obtain ⟨u, hu, hrest⟩ := exec_cons_eq_some.1 hrun
      have hIu := hI s a u hs hu
      have hsu := hmono s a u hs hu
      have hut : m u ≤ m t := by
        have hle : I t ∧ m u ≤ m t := by
          refine exec_invariant (I := fun v => I v ∧ m u ≤ m v) ?_ ⟨hIu, le_rfl⟩ hrest
          intro v b w hv hw
          exact ⟨hI v b w hv.1 hw, hv.2.trans (hmono v b w hv.1 hw)⟩
        exact hle.2
      constructor
      · intro hm
        have hmu : m u = m s := by omega
        have hC : C s a := by
          by_contra hC
          have := hout s a u hs hC hu
          omega
        refine ⟨hC, fun v hv => ?_⟩
        rw [hu, Option.some.injEq] at hv
        subst hv
        exact (ih hIu hrest).1 (by omega)
      · rintro ⟨hC, halong⟩
        have hmu := hin s a u hs hC hu
        have := (ih hIu hrest).2 (halong u hu)
        omega

end SSize.Lib.Runs

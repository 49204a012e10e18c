import Mathlib.Data.List.Chain

/-!
# A copy that is asked for before it is used

A thing changes over time and may be gone for a while. A client keeps the last version that
it was handed, with its stamp, and is handed the thing again when the stamp is another. What
the client shows is the thing as it is exactly when no change leaves the stamp as it was.
-/

namespace SSize.Lib

variable {ν σ γ : Type*} [DecidableEq σ]

namespace Revalidated

/-- The copy after a version was asked for. -/
def renew (stamp : ν → σ) (content : ν → γ) (copy : Option (σ × γ)) (v : ν) : σ × γ :=
  match copy with
  | some kept => if kept.1 = stamp v then kept else (stamp v, content v)
  | none => (stamp v, content v)

/-- What is shown for each of the versions, `none` where there is none. -/
def shown (stamp : ν → σ) (content : ν → γ) : Option (σ × γ) → List (Option ν) → List (Option γ)
  | _, [] => []
  | copy, none :: rest => none :: shown stamp content copy rest
  | copy, some v :: rest =>
      let kept := renew stamp content copy v
      some kept.2 :: shown stamp content (some kept) rest

variable {stamp : ν → σ} {content : ν → γ}

theorem renew_fst (copy : Option (σ × γ)) (v : ν) :
    (renew stamp content copy v).1 = stamp v := by
  unfold renew
  split
  · split
    · next hsame => exact hsame
    · rfl
  · rfl

/-- The stamp tells the two versions apart if they differ. -/
def Told (stamp : ν → σ) (content : ν → γ) (v w : ν) : Prop :=
  stamp v = stamp w → content v = content w

theorem shown_kept_iff (u : ν) (versions : List (Option ν)) :
    shown stamp content (some (stamp u, content u)) versions =
        versions.map (Option.map content) ↔
      (u :: versions.filterMap id).IsChain (Told stamp content) := by
  induction versions generalizing u with
  | nil => simp [shown]
  | cons version rest ih =>
      cases version with
      | none => simpa [shown] using ih u
      | some v =>
          have hpresent : (some v :: rest).filterMap id = v :: rest.filterMap id := rfl
          rw [shown, List.map_cons, Option.map_some, hpresent, List.isChain_cons_cons,
            List.cons.injEq, Option.some.injEq]
          by_cases hstamp : stamp u = stamp v
          · simp only [renew, hstamp, if_true, Told, forall_true_left]
            apply and_congr_right
            intro hcontent
            rw [hcontent]
            exact ih v
          · simpa [renew, hstamp, Told] using ih v

/-- Every version is shown as it is exactly when no two that follow one another have one
stamp and two contents. -/
theorem shown_eq_iff (versions : List (Option ν)) :
    shown stamp content none versions = versions.map (Option.map content) ↔
      (versions.filterMap id).IsChain (Told stamp content) := by
  induction versions with
  | nil => simp [shown]
  | cons version rest ih =>
      cases version with
      | none => simpa [shown] using ih
      | some v =>
          have hpresent : (some v :: rest).filterMap id = v :: rest.filterMap id := rfl
          rw [shown, List.map_cons, Option.map_some, hpresent]
          simpa [renew] using shown_kept_iff v rest

end Revalidated

end SSize.Lib

import Mathlib.Data.List.Chain

/-!
# Tokens on lease

Who calls brings a token back until its lease is over, and is given the call's own when it
has none. Either the lease runs from where the token was given, or each call starts it
anew. Tokens given at different calls are distinct.
-/

namespace SSize.Lib

variable {κ : Type*}

structure Lease (κ : Type*) where
  token : κ
  /-- `none` for good. -/
  expires : Option Int
deriving DecidableEq

/-- A call, when it is sent and when its answer is stored, with the token that it gives if
it comes without one. -/
structure Call (κ : Type*) where
  sent : Int
  stored : Int
  fresh : κ

/-- What is brought back at `now`. -/
def Lease.held (l : Option (Lease κ)) (now : Int) : Option κ :=
  (l.filter fun l => l.expires.all fun e => now < e).map Lease.token

namespace Call

/-- The token that the call goes by. -/
def carried (l : Option (Lease κ)) (x : Call κ) : κ := (Lease.held l x.sent).getD x.fresh

/-- The lease once the answer is stored. -/
def leave (sliding : Bool) (ttl : Int) (l : Option (Lease κ)) (x : Call κ) : Option (Lease κ) :=
  match Lease.held l x.sent with
  | some token => if sliding then some ⟨token, some (x.stored + ttl)⟩ else l
  | none => some ⟨x.fresh, some (x.stored + ttl)⟩

end Call

def leaseAfter (sliding : Bool) (ttl : Int) (l : Option (Lease κ)) (calls : List (Call κ)) :
    Option (Lease κ) :=
  calls.foldl (fun l x => x.leave sliding ttl l) l

/-- The answer to the first was stored less than `ttl` before the second was sent. -/
def Within (ttl : Int) (x y : Call κ) : Prop := y.sent < x.stored + ttl

instance (ttl : Int) (x y : Call κ) : Decidable (Within ttl x y) :=
  inferInstanceAs (Decidable (_ < _))

variable {sliding : Bool} {ttl e : Int} {l : Option (Lease κ)} {v : κ} {x y : Call κ}
  {before between calls : List (Call κ)}

@[simp] theorem leaseAfter_nil : leaseAfter sliding ttl l [] = l := rfl

@[simp] theorem leaseAfter_cons :
    leaseAfter sliding ttl l (x :: calls) = leaseAfter sliding ttl (x.leave sliding ttl l) calls :=
  rfl

theorem leaseAfter_append :
    leaseAfter sliding ttl l (before ++ calls) =
      leaseAfter sliding ttl (leaseAfter sliding ttl l before) calls :=
  List.foldl_append

theorem held_live {now : Int} (h : now < e) : Lease.held (some ⟨v, some e⟩) now = some v := by
  simp [Lease.held, Option.filter, h]

theorem held_over {now : Int} (h : ¬ now < e) : Lease.held (some ⟨v, some e⟩) now = none := by
  simp [Lease.held, Option.filter, h]

theorem held_mem {now : Int} (h : Lease.held l now = some v) : v ∈ l.map Lease.token := by
  rw [Lease.held, Option.map_eq_some_iff] at h
  obtain ⟨lease, hlease, rfl⟩ := h
  exact Option.mem_map_of_mem _ (Option.eq_some_of_filter_eq_some hlease)

/-- A token is the one of the lease or was given at one of the calls. -/
theorem carried_mem (l : Option (Lease κ)) (x : Call κ) :
    x.carried l = x.fresh ∨ x.carried l ∈ l.map Lease.token := by
  rw [Call.carried]
  cases hheld : Lease.held l x.sent with
  | none => exact Or.inl rfl
  | some token => exact Or.inr (held_mem hheld)

theorem leave_token {token : κ} (h : token ∈ (x.leave sliding ttl l).map Lease.token) :
    token = x.carried l := by
  rw [Call.leave] at h
  rw [Call.carried]
  cases hheld : Lease.held l x.sent with
  | none =>
      rw [hheld] at h
      exact (Option.some.inj h).symm
  | some own =>
      rw [hheld] at h
      cases sliding with
      | true => exact (Option.some.inj h).symm
      | false =>
          have hown : l.map Lease.token = some own := held_mem hheld
          exact Option.some.inj (h.symm.trans hown)

theorem carried_leaseAfter_mem (sliding : Bool) (ttl : Int) (y : Call κ) (l : Option (Lease κ))
    (calls : List (Call κ)) :
    y.carried (leaseAfter sliding ttl l calls) ∈ l.map Lease.token ∨
      y.carried (leaseAfter sliding ttl l calls) ∈ (calls ++ [y]).map Call.fresh := by
  induction calls generalizing l with
  | nil =>
      rcases carried_mem l y with hfresh | hheld
      · exact Or.inr (by simp [hfresh])
      · exact Or.inl hheld
  | cons c calls ih =>
      rw [leaseAfter_cons, List.cons_append, List.map_cons, List.mem_cons]
      rcases ih (c.leave sliding ttl l) with hleft | hlater
      · rw [leave_token hleft]
        exact (carried_mem l c).elim (fun hfresh => Or.inr (Or.inl hfresh)) Or.inl
      · exact Or.inr (Or.inr hlater)

/-- A token that no later call gives is not come by again once it is lost. -/
theorem carried_ne (hlost : v ∉ l.map Lease.token)
    (hgiven : v ∉ (calls ++ [y]).map Call.fresh) :
    y.carried (leaseAfter sliding ttl l calls) ≠ v := by
  intro hv
  rcases carried_leaseAfter_mem sliding ttl y l calls with hheld | hfresh
  · exact hlost (hv ▸ hheld)
  · exact hgiven (hv ▸ hfresh)

/-! ## A lease that every call starts anew -/

theorem leave_sliding :
    x.leave true ttl l = some ⟨x.carried l, some (x.stored + ttl)⟩ := by
  rw [Call.leave, Call.carried]
  split <;> simp [*]

theorem carried_sliding_iff (hv : v ∉ (between ++ [y]).map Call.fresh) :
    y.carried (leaseAfter true ttl (some ⟨v, some (x.stored + ttl)⟩) between) = v ↔
      (x :: (between ++ [y])).IsChain (Within ttl) := by
  induction between generalizing x with
  | nil =>
      have hfresh : y.fresh ≠ v := by simpa [eq_comm] using hv
      rw [leaseAfter_nil, List.nil_append, List.isChain_pair, Call.carried]
      by_cases hlive : y.sent < x.stored + ttl
      · simp [held_live hlive, Within, hlive]
      · simp [held_over hlive, Within, hlive, hfresh]
  | cons c between ih =>
      rw [List.cons_append, List.map_cons, List.mem_cons, not_or] at hv
      rw [leaseAfter_cons, List.cons_append, List.isChain_cons_cons, ← ih hv.2]
      by_cases hlive : c.sent < x.stored + ttl
      · simp [Call.leave, held_live hlive, Within, hlive]
      · have hlost : y.carried (leaseAfter true ttl (some ⟨c.fresh, some (c.stored + ttl)⟩)
            between) ≠ v := carried_ne (by simpa [eq_comm] using hv.1) hv.2
        simp [Call.leave, held_over hlive, Within, hlive, hlost]

/-- Whatever token a call goes by, no later one gives it. -/
theorem carried_not_fresh (sliding : Bool) (ttl : Int)
    (hdistinct : ((before ++ x :: between ++ [y]).map Call.fresh).Nodup) :
    x.carried (leaseAfter sliding ttl none before) ∉ (between ++ [y]).map Call.fresh := by
  intro hlater
  rcases carried_leaseAfter_mem sliding ttl x none before with hnone | hearlier
  · simp at hnone
  · have hsplit : before ++ x :: between ++ [y] = (before ++ [x]) ++ (between ++ [y]) := by simp
    rw [hsplit, List.map_append] at hdistinct
    exact (List.nodup_append.1 hdistinct).2.2 _ hearlier _ hlater rfl

/-- Two calls go by one token exactly when nobody was silent for `ttl` between them. -/
theorem sameToken_sliding_iff (ttl : Int)
    (hdistinct : ((before ++ x :: between ++ [y]).map Call.fresh).Nodup) :
    y.carried (leaseAfter true ttl none (before ++ x :: between)) =
        x.carried (leaseAfter true ttl none before) ↔
      (x :: (between ++ [y])).IsChain (Within ttl) := by
  rw [leaseAfter_append, leaseAfter_cons, leave_sliding]
  exact carried_sliding_iff (carried_not_fresh true ttl hdistinct)

/-! ## A lease that runs from where its token was given -/

theorem carried_fixed_iff (hv : v ∉ (between ++ [y]).map Call.fresh)
    (hsent : (between ++ [y]).Pairwise fun a b => a.sent ≤ b.sent) :
    y.carried (leaseAfter false ttl (some ⟨v, some e⟩) between) = v ↔ y.sent < e := by
  induction between with
  | nil =>
      have hfresh : y.fresh ≠ v := by simpa [eq_comm] using hv
      rw [leaseAfter_nil, Call.carried]
      by_cases hlive : y.sent < e
      · simp [held_live hlive, hlive]
      · simp [held_over hlive, hlive, hfresh]
  | cons c between ih =>
      rw [List.cons_append, List.map_cons, List.mem_cons, not_or] at hv
      rw [List.cons_append, List.pairwise_cons] at hsent
      by_cases hlive : c.sent < e
      · rw [leaseAfter_cons, Call.leave, held_live hlive]
        exact ih hv.2 hsent.2
      · have hlater : ¬ y.sent < e := by
          have hle := hsent.1 y (by simp)
          omega
        have hlost : y.carried (leaseAfter false ttl (some ⟨c.fresh, some (c.stored + ttl)⟩)
            between) ≠ v := carried_ne (by simpa [eq_comm] using hv.1) hv.2
        rw [leaseAfter_cons, Call.leave, held_over hlive]
        simp only [hlost, hlater]

/-- A token that was given at one call is brought back until `ttl` after it and not later,
however often it is used in between. -/
theorem sameToken_fixed_iff (ttl : Int)
    (hdistinct : ((before ++ x :: between ++ [y]).map Call.fresh).Nodup)
    (hsent : (between ++ [y]).Pairwise fun a b => a.sent ≤ b.sent)
    (hgiven : Lease.held (leaseAfter false ttl none before) x.sent = none) :
    y.carried (leaseAfter false ttl none (before ++ x :: between)) =
        x.carried (leaseAfter false ttl none before) ↔ Within ttl x y := by
  have hfresh := carried_not_fresh false ttl hdistinct
  have hcarried : x.carried (leaseAfter false ttl none before) = x.fresh := by
    rw [Call.carried, hgiven, Option.getD_none]
  rw [hcarried] at hfresh ⊢
  rw [leaseAfter_append, leaseAfter_cons, Call.leave, hgiven]
  exact carried_fixed_iff hfresh hsent

end SSize.Lib

import SSize.Config
import SSize.Http
import SSize.Db.Conversions

/-!
# `handle_postback`

`std::stod(s) * 100.0`, cast to kopecks, is the parameter `kopeksOf`, `none`
where `stod` throws: nothing here depends on what the number is.
-/

namespace SSize

/-- The decoded query string, an `unordered_map`. -/
abbrev Query := Text → Option Text

variable (kopeksOf : Text → Option Kopek) (cfg : Config)

/-- The validations in their order, each with the answer it gives. -/
def readPostback (now : TsMs) (q : Query) : Except Response Conversion := do
  if cfg.postbackSecret.isEmpty then
    throw (textResponse .serviceUnavailable (bytes "not configured"))
  let some sign := q (bytes "sign")
    | throw (textResponse .forbidden (bytes "bad signature"))
  if sign.length ≠ cfg.postbackSecret.length ∨ sign ≠ cfg.postbackSecret then
    throw (textResponse .forbidden (bytes "bad signature"))
  let some subid := q (bytes "subid")
    | throw (textResponse .badRequest (bytes "missing subid"))
  if subid.isEmpty then
    throw (textResponse .badRequest (bytes "missing subid"))
  let orderRef := (q (bytes "order")).getD []
  let status := (q (bytes "status")).getD (bytes "pending")
  let amount ← match q (bytes "amount") with
    | none => pure none
    | some s =>
        match kopeksOf s with
        | some k => pure (some k)
        | none => throw (textResponse .badRequest (bytes "bad amount"))
  if status ≠ bytes "pending" ∧ status ≠ bytes "approved" ∧ status ≠ bytes "rejected" then
    throw (textResponse .badRequest (bytes "bad status"))
  pure
    { clickToken := subid
      ts := now
      orderRef := orderRef
      amount := amount
      status := status }

/-- The answer, and the conversion that was queued before answering. -/
def handlePostback (now : TsMs) (q : Query) : Response × Option Conversion :=
  match readPostback kopeksOf cfg now q with
  | .error res => (res, none)
  | .ok conv => (textResponse .ok (bytes "ok"), some conv)

def AmountRead (q : Query) (amount : Option Kopek) : Prop :=
  match q (bytes "amount") with
  | none => amount = none
  | some s => kopeksOf s ≠ none ∧ amount = kopeksOf s

/-- The validations pass on exactly these queries, with this conversion. -/
theorem readPostback_ok_iff {now : TsMs} {q : Query} {c : Conversion} :
    readPostback kopeksOf cfg now q = .ok c ↔
      cfg.postbackSecret ≠ [] ∧ q (bytes "sign") = some cfg.postbackSecret ∧
        c.clickToken ≠ [] ∧ q (bytes "subid") = some c.clickToken ∧ c.ts = now ∧
        c.orderRef = (q (bytes "order")).getD [] ∧
        c.status = (q (bytes "status")).getD (bytes "pending") ∧
        statusChecked c.status = true ∧ AmountRead kopeksOf q c.amount ∧ c.raw = [] := by
  obtain ⟨token, ts, orderRef, amount, status, raw⟩ := c
  unfold readPostback AmountRead
  simp only [bind, Except.bind, throw, throwThe, MonadExceptOf.throw, pure, Except.pure]
  by_cases hsecret : cfg.postbackSecret = []
  · simp [hsecret]
  cases hsign : q (bytes "sign") with
  | none => simp [hsecret]
  | some sign =>
    by_cases heq : sign = cfg.postbackSecret
    · subst heq
      cases hsubid : q (bytes "subid") with
      | none => simp [hsecret]
      | some subid =>
        by_cases hempty : subid = []
        · simp only [hempty]
          grind
        cases hamount : q (bytes "amount") with
        | none =>
          simp only [statusChecked]
          grind
        | some s =>
          cases hk : kopeksOf s with
          | none => simp [hsecret, hempty, hk]
          | some k =>
            simp only [statusChecked]
            grind
    · simp [hsecret, heq]

/-- What is refused is refused with a message and a status of its own. -/
theorem readPostback_error_text {now : TsMs} {q : Query} {res : Response}
    (h : readPostback kopeksOf cfg now q = .error res) :
    ∃ st message, st.refuses = true ∧ res = textResponse st message := by
  unfold readPostback at h
  simp only [bind, Except.bind, throw, throwThe, MonadExceptOf.throw, pure, Except.pure] at h
  split at h
  · exact ⟨_, _, by decide, (Except.error.inj h).symm⟩
  split at h
  · split at h
    · exact ⟨_, _, by decide, (Except.error.inj h).symm⟩
    split at h
    · split at h
      · exact ⟨_, _, by decide, (Except.error.inj h).symm⟩
      split at h
      · split at h
        · exact ⟨_, _, by decide, (Except.error.inj h).symm⟩
        · simp at h
      · split at h
        · split at h
          · exact ⟨_, _, by decide, (Except.error.inj h).symm⟩
          · simp at h
        · exact ⟨_, _, by decide, (Except.error.inj h).symm⟩
    · exact ⟨_, _, by decide, (Except.error.inj h).symm⟩
  · exact ⟨_, _, by decide, (Except.error.inj h).symm⟩

theorem readPostback_error {now : TsMs} {q : Query} {res : Response}
    (h : readPostback kopeksOf cfg now q = .error res) : res.status ≠ .ok := by
  obtain ⟨st, message, hst, rfl⟩ := readPostback_error_text kopeksOf cfg h
  rintro rfl
  exact absurd hst (by decide)

structure Conversion.Accepted (c : Conversion) : Prop where
  token : c.clickToken ≠ []
  status : statusChecked c.status = true

/-- Every conversion `handle_postback` queues is one the schema takes. -/
theorem handlePostback_accepted {now : TsMs} {q : Query} {c : Conversion}
    (h : (handlePostback kopeksOf cfg now q).2 = some c) : c.Accepted := by
  unfold handlePostback at h
  split at h
  · simp at h
  · next conv hread =>
      rw [Option.some.injEq] at h
      subst h
      have hc := (readPostback_ok_iff kopeksOf cfg).1 hread
      exact ⟨hc.2.2.1, hc.2.2.2.2.2.2.2.1⟩

theorem handlePostback_ok_iff (now : TsMs) (q : Query) :
    (handlePostback kopeksOf cfg now q).1.status = .ok ↔
      (handlePostback kopeksOf cfg now q).2.isSome = true := by
  unfold handlePostback
  split
  · next res hread => simp [readPostback_error kopeksOf cfg hread]
  · simp

def Query.ofList (params : List (Text × Text)) : Query := fun name => params.lookup name

/-- The shortest query that passes: a signature and a click. -/
def signedQuery (secret subid : Text) : Query :=
  .ofList [(bytes "sign", secret), (bytes "subid", subid)]

end SSize

import SSize.Events
import SSize.Handlers.Postback
import SSize.Handlers.Strtod
import SSize.Lib.Hundredths

/-!
# What amounts `handle_postback` takes

The amount is read by `std::stod` and multiplied by a hundred. `strtod` takes the longest
prefix that is a number, so it is not the amount that has to be one, and the product is
rounded once more before it is truncated.
-/

namespace SSize

open Lib

variable (fp : FloatEnv) (cfg : Config)

/-! ## A postback that is well formed -/

/-- What `handle_postback` checks apart from the amount. -/
structure SignedPostback (q : Query) : Prop where
  configured : cfg.postbackSecret ≠ []
  sign : q (bytes "sign") = some cfg.postbackSecret
  subid : ∃ subid, subid ≠ [] ∧ q (bytes "subid") = some subid
  status : statusChecked ((q (bytes "status")).getD (bytes "pending")) = true

/-- A hundred times the number, toward zero. -/
def DecimalNumeral.kopeks (n : DecimalNumeral) : Kopek := truncate (n.value * 100)

def DecimalNumeral.FitsKopek (n : DecimalNumeral) : Prop := -2 ^ 63 ≤ n.kopeks ∧ n.kopeks < 2 ^ 63

/-- The text is in its entirety a finite decimal number that fits. -/
def IsAmount (s : Text) : Prop := ∃ n : DecimalNumeral, n.text = s ∧ n.FitsKopek

structure WellFormedPostback (q : Query) : Prop where
  signed : SignedPostback cfg q
  amount : ∀ s ∈ q (bytes "amount"), IsAmount s

/-- The click, the order and the status of the postback. -/
structure Conversion.Carries (c : Conversion) (q : Query) : Prop where
  subid : q (bytes "subid") = some c.clickToken
  order : c.orderRef = (q (bytes "order")).getD []
  status : c.status = (q (bytes "status")).getD (bytes "pending")

/-- The answer, and the queue behind it. -/
def answerPostback (now : TsMs) (queue : ConversionQueue) (q : Query) :
    Response × ConversionQueue :=
  match handlePostback (stodKopeks fp) cfg now q with
  | (res, none) => (res, queue)
  | (res, some conv) => (res, (queue.push conv).1)

/-- Accepted with one conversion when it is well formed, refused without a trace
otherwise. -/
structure AnsweredAsFormed (q : Query) (queue : ConversionQueue)
    (answer : Response × ConversionQueue) : Prop where
  accepted : WellFormedPostback cfg q → answer.1.status = .ok ∧
    ∃ conv, answer.2.pending = queue.pending ++ [conv] ∧ conv.Carries q
  refused : ¬ WellFormedPostback cfg q → answer.1.status ≠ .ok ∧ answer.2 = queue

/-! ## What is accepted -/

def AmountTaken (q : Query) : Prop := ∀ s ∈ q (bytes "amount"), stodKopeks fp s ≠ none

theorem readPostback_eq_ok_iff (now : TsMs) (q : Query) :
    (∃ conv, readPostback (stodKopeks fp) cfg now q = .ok conv) ↔
      SignedPostback cfg q ∧ AmountTaken fp q := by
  constructor
  · rintro ⟨conv, hread⟩
    obtain ⟨hsecret, hsign, htoken, hsubid, -, -, hstatus, hchecked, hamount, -⟩ :=
      (readPostback_ok_iff (stodKopeks fp) cfg).1 hread
    refine ⟨⟨hsecret, hsign, ⟨conv.clickToken, htoken, hsubid⟩, hstatus ▸ hchecked⟩, ?_⟩
    intro s hs
    have hs' : q (bytes "amount") = some s := hs
    rw [AmountRead, hs'] at hamount
    exact hamount.1
  · rintro ⟨⟨hsecret, hsign, ⟨subid, hne, hsubid⟩, hstatus⟩, htaken⟩
    refine ⟨⟨subid, now, (q (bytes "order")).getD [], (q (bytes "amount")).bind (stodKopeks fp),
      (q (bytes "status")).getD (bytes "pending"), []⟩, ?_⟩
    refine (readPostback_ok_iff (stodKopeks fp) cfg).2
      ⟨hsecret, hsign, hne, hsubid, rfl, rfl, rfl, hstatus, ?_, rfl⟩
    unfold AmountRead
    cases hs : q (bytes "amount") with
    | none => rfl
    | some s => exact ⟨htaken s hs, rfl⟩

/-- Every answer is one of the two. -/
theorem answerPostback_cases (now : TsMs) (queue : ConversionQueue) (q : Query) :
    (∃ conv, SignedPostback cfg q ∧ AmountTaken fp q ∧ conv.Carries q ∧
        AmountRead (stodKopeks fp) q conv.amount ∧
        answerPostback fp cfg now queue q =
          (textResponse .ok (bytes "ok"), (queue.push conv).1)) ∨
      ∃ res, ¬ (SignedPostback cfg q ∧ AmountTaken fp q) ∧ res.status ≠ Status.ok ∧
        answerPostback fp cfg now queue q = (res, queue) := by
  have hiff := readPostback_eq_ok_iff fp cfg now q
  unfold answerPostback handlePostback
  cases hread : readPostback (stodKopeks fp) cfg now q with
  | ok conv =>
      obtain ⟨-, -, -, hsubid, -, horder, hstatus, -, hamount, -⟩ :=
        (readPostback_ok_iff (stodKopeks fp) cfg).1 hread
      obtain ⟨hsigned, htaken⟩ := hiff.1 ⟨conv, hread⟩
      exact Or.inl ⟨conv, hsigned, htaken, ⟨hsubid, horder, hstatus⟩, hamount, rfl⟩
  | error res =>
      refine Or.inr ⟨res, ?_, readPostback_error (stodKopeks fp) cfg hread, rfl⟩
      intro h
      obtain ⟨conv, hconv⟩ := hiff.2 h
      rw [hread] at hconv
      cases hconv

theorem answeredAsFormed_iff (now : TsMs) (queue : ConversionQueue) (q : Query) :
    AnsweredAsFormed cfg q queue (answerPostback fp cfg now queue q) ↔
      (SignedPostback cfg q →
        (AmountTaken fp q ↔ ∀ s ∈ q (bytes "amount"), IsAmount s)) := by
  have hcases := answerPostback_cases fp cfg now queue q
  constructor
  · rintro ⟨haccepted, hrefused⟩ hsigned
    rcases hcases with ⟨conv, -, htaken, -, -, heq⟩ | ⟨res, hnot, hstatus, heq⟩
    · refine iff_of_true htaken ?_
      by_contra hamount
      have hanswer := hrefused fun h => hamount h.amount
      rw [heq] at hanswer
      exact hanswer.1 rfl
    · refine iff_of_false (fun htaken => hnot ⟨hsigned, htaken⟩) ?_
      intro hamount
      have hanswer := haccepted ⟨hsigned, hamount⟩
      rw [heq] at hanswer
      exact hstatus hanswer.1
  · intro h
    rcases hcases with ⟨conv, hsigned, htaken, hcarries, -, heq⟩ | ⟨res, hnot, hstatus, heq⟩
    · rw [heq]
      refine ⟨fun _ => ⟨rfl, conv, rfl, hcarries⟩, ?_⟩
      intro hformed
      exact absurd ⟨hsigned, (h hsigned).1 htaken⟩ hformed
    · rw [heq]
      refine ⟨?_, fun _ => ⟨hstatus, rfl⟩⟩
      intro hformed
      exact absurd ⟨hformed.signed, (h hformed.signed).2 hformed.amount⟩ hnot

/-! ## Amounts that are read as they are written -/

/-- `strtod` reports what it recognized as out of range. -/
def Subject.OutOfRange : Subject → Prop
  | .number q => fp.rangeError q = true
  | _ => False

/-- Too small to be normal, and reported. -/
def FloatEnv.Underflows (q : ℚ) : Prop :=
  q ≠ 0 ∧ |q| < Binary64.normal ∧ fp.reportsUnderflow q = true

/-- Nothing about the amount misleads `stod`. -/
structure AmountClear (s : Text) : Prop where
  /-- What has a number in front that is in range is a number to its end. -/
  whole : ∀ x rest, strtod s = some (x, rest) → ¬ x.OutOfRange fp →
    ∃ n : DecimalNumeral, n.text = s
  /-- A number too large for kopecks is too large for a double. -/
  large : ∀ n : DecimalNumeral, n.text = s → ¬ n.FitsKopek → Binary64.overflow ≤ |n.value|
  /-- A number that fits is not too small. -/
  small : ∀ n : DecimalNumeral, n.text = s → n.FitsKopek → ¬ fp.Underflows n.value

theorem stodKopeks_ne_none_iff (s : Text) :
    stodKopeks fp s ≠ none ↔ ∃ x rest, strtod s = some (x, rest) ∧ ¬ x.OutOfRange fp := by
  unfold stodKopeks stod
  cases hs : strtod s with
  | none => simp
  | some read =>
      obtain ⟨x, rest⟩ := read
      cases x with
      | number q => by_cases hq : fp.rangeError q = true <;> simp [Subject.OutOfRange, hq]
      | infinity negative => simp [Subject.OutOfRange]
      | nan => simp [Subject.OutOfRange]

theorem stodKopeks_text_ne_none_iff (n : DecimalNumeral) :
    stodKopeks fp n.text ≠ none ↔ fp.rangeError n.value = false := by
  rw [stodKopeks_ne_none_iff, n.strtod_text]
  simp [Subject.OutOfRange]

theorem overflow_of_rangeError {q : ℚ} (h : fp.rangeError q = true) (hq : ¬ fp.Underflows q) :
    Binary64.overflow ≤ |q| := by
  simp only [FloatEnv.rangeError, Bool.or_eq_true, Bool.and_eq_true, decide_eq_true_eq] at h
  rcases h with hlarge | ⟨⟨hzero, hsmall⟩, hreported⟩
  · exact hlarge
  · exact absurd ⟨hzero, hsmall, hreported⟩ hq

/-- Kopecks end long before doubles do. -/
theorem DecimalNumeral.FitsKopek.lt_overflow {n : DecimalNumeral} (h : n.FitsKopek) :
    |n.value| < Binary64.overflow := by
  obtain ⟨hlow, hhigh⟩ := h
  have hkopeks : |n.kopeks| ≤ 2 ^ 63 := abs_le.2 ⟨hlow, hhigh.le⟩
  have hkopeks' : |(n.kopeks : ℚ)| ≤ 2 ^ 63 := by exact_mod_cast hkopeks
  have hvalue := abs_le_abs_truncate_add_one (n.value * 100)
  rw [abs_mul, abs_of_pos (by norm_num : (0 : ℚ) < 100)] at hvalue
  change |n.value| * 100 ≤ |(n.kopeks : ℚ)| + 1 at hvalue
  calc |n.value| < 2 ^ 63 := by linarith
    _ ≤ Binary64.overflow := Binary64.two_pow_le_overflow (by norm_num)

theorem DecimalNumeral.normal_le_of_not_fitsKopek {n : DecimalNumeral} (h : ¬ n.FitsKopek) :
    Binary64.normal ≤ |n.value| := by
  have hkopeks : (2 : Int) ^ 63 ≤ |n.kopeks| := by
    by_contra hlt
    have hbounds := abs_lt.1 (not_le.1 hlt)
    exact h ⟨hbounds.1.le, hbounds.2⟩
  have hkopeks' : (2 : ℚ) ^ 63 ≤ |(n.kopeks : ℚ)| := by exact_mod_cast hkopeks
  have hvalue := abs_truncate_le (n.value * 100)
  rw [abs_mul, abs_of_pos (by norm_num : (0 : ℚ) < 100)] at hvalue
  change |(n.kopeks : ℚ)| ≤ |n.value| * 100 at hvalue
  calc Binary64.normal ≤ 1 / 2 ^ 0 := Binary64.normal_le_two_pow (by norm_num)
    _ ≤ |n.value| := by linarith

theorem rangeError_of_overflow {q : ℚ} (h : Binary64.overflow ≤ |q|) :
    fp.rangeError q = true := by
  simp [FloatEnv.rangeError, h]

theorem rangeError_eq_false {q : ℚ} (hlow : Binary64.normal ≤ |q|)
    (hhigh : |q| < Binary64.overflow) : fp.rangeError q = false := by
  simp [FloatEnv.rangeError, hhigh, hlow]

/-- What is taken is an amount, and an amount is taken, exactly where it is clear. -/
theorem amountClear_iff (s : Text) :
    AmountClear fp s ↔ (stodKopeks fp s ≠ none ↔ IsAmount s) := by
  constructor
  · rintro ⟨hwhole, hlarge, hsmall⟩
    constructor
    · intro htaken
      obtain ⟨x, rest, hread, hrange⟩ := (stodKopeks_ne_none_iff fp s).1 htaken
      obtain ⟨n, rfl⟩ := hwhole x rest hread hrange
      refine ⟨n, rfl, ?_⟩
      by_contra hfits
      have hnumber := (stodKopeks_text_ne_none_iff fp n).1 htaken
      rw [rangeError_of_overflow fp (hlarge n rfl hfits)] at hnumber
      cases hnumber
    · rintro ⟨n, rfl, hfits⟩
      rw [stodKopeks_text_ne_none_iff, Bool.eq_false_iff]
      intro hrange
      exact absurd (overflow_of_rangeError fp hrange (hsmall n rfl hfits))
        (not_le.2 hfits.lt_overflow)
  · intro h
    refine ⟨?_, ?_, ?_⟩
    · intro x rest hread hrange
      obtain ⟨n, hn, -⟩ := h.1 ((stodKopeks_ne_none_iff fp s).2 ⟨x, rest, hread, hrange⟩)
      exact ⟨n, hn⟩
    · rintro n rfl hfits
      by_contra hlarge
      have hrange : fp.rangeError n.value = false := by
        rw [Bool.eq_false_iff]
        intro hrange
        refine hlarge (overflow_of_rangeError fp hrange ?_)
        rintro ⟨-, hsmall, -⟩
        exact absurd (DecimalNumeral.normal_le_of_not_fitsKopek hfits) (not_le.2 hsmall)
      obtain ⟨m, hm, hmfits⟩ := h.1 ((stodKopeks_text_ne_none_iff fp n).2 hrange)
      have hread := n.strtod_text
      rw [← hm, m.strtod_text] at hread
      have hvalue : m.value = n.value := by simpa using hread
      unfold DecimalNumeral.FitsKopek DecimalNumeral.kopeks at hfits hmfits
      exact hfits (hvalue ▸ hmfits)
    · rintro n rfl hfits ⟨hzero, hsmall, hreported⟩
      have htaken := (stodKopeks_text_ne_none_iff fp n).1 (h.2 ⟨n, rfl, hfits⟩)
      simp [FloatEnv.rangeError, hzero, hsmall, hreported] at htaken

/-- Accepted exactly when it is well formed, unless `stod` is misled by the amount of a
postback in which everything else is in order. -/
theorem answerPostback_answeredAsFormed_iff (now : TsMs) (queue : ConversionQueue) (q : Query) :
    AnsweredAsFormed cfg q queue (answerPostback fp cfg now queue q) ↔
      (SignedPostback cfg q → ∀ s ∈ q (bytes "amount"), AmountClear fp s) := by
  rw [answeredAsFormed_iff]
  refine forall_congr' fun _ => ?_
  unfold AmountTaken
  cases hs : q (bytes "amount") with
  | none => simp
  | some s => simpa using (amountClear_iff fp s).symm

/-- Whatever is too small is reported, and what has no kopecks is the smallest number. -/
def FloatEnv.strict : FloatEnv := ⟨fun _ => true, fun _ => -2 ^ 63⟩

/-- A signed postback with an amount. -/
def amountQuery (amount : Text) : Query :=
  parseQuery (bytes "sign=k&subid=t&amount=" ++ amount)

theorem signedPostback_amountQuery {amount : Text}
    (h : amountQuery amount (bytes "sign") = some (bytes "k") ∧
      amountQuery amount (bytes "subid") = some (bytes "t") ∧
      amountQuery amount (bytes "status") = none) :
    SignedPostback { postbackSecret := bytes "k" } (amountQuery amount) := by
  obtain ⟨hsign, hsubid, hstatus⟩ := h
  refine ⟨by decide, hsign, ⟨bytes "t", by decide, hsubid⟩, ?_⟩
  rw [hstatus]
  decide

theorem strtod_trailing : strtod (bytes "12abc") =
    some (.number (decimalValue false (bytes "12") [] 0), bytes "abc") := rfl

/-- The letters behind the number go unnoticed. -/
theorem answerPostback_trailing :
    ¬ AnsweredAsFormed { postbackSecret := bytes "k" } (amountQuery (bytes "12abc")) {}
      (answerPostback .strict { postbackSecret := bytes "k" } 0 {}
        (amountQuery (bytes "12abc"))) := by
  rw [answeredAsFormed_iff]
  have hsigned : SignedPostback { postbackSecret := bytes "k" } (amountQuery (bytes "12abc")) :=
    signedPostback_amountQuery (by decide +kernel)
  have hamount : amountQuery (bytes "12abc") (bytes "amount") = some (bytes "12abc") := by
    decide +kernel
  have htaken : AmountTaken .strict (amountQuery (bytes "12abc")) := by
    intro s hs
    have hs' : bytes "12abc" = s := Option.some.inj (hamount.symm.trans hs)
    rw [← hs', stodKopeks_ne_none_iff, strtod_trailing]
    refine ⟨_, _, rfl, ?_⟩
    have hdigits : digitsValue (bytes "12") = 12 := by decide
    have hvalue : decimalValue false (bytes "12") [] 0 = 12 := by
      simp [decimalValue, signed, hdigits]
    rw [Subject.OutOfRange, hvalue, rangeError_eq_false]
    · simp
    · calc Binary64.normal ≤ 1 / 2 ^ 0 := Binary64.normal_le_two_pow (by norm_num)
        _ ≤ |(12 : ℚ)| := by norm_num
    · calc |(12 : ℚ)| < 2 ^ 4 := by norm_num
        _ ≤ Binary64.overflow := Binary64.two_pow_le_overflow (by norm_num)
  intro h
  obtain ⟨n, hn, -⟩ := (h hsigned).1 htaken _ hamount
  exact n.text_ne strtod_trailing hn

end SSize

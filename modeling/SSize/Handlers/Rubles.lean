import SSize.Handlers.Amount

/-!
# Amounts in rubles

Digits with up to two behind a point denote a whole number of kopecks. What
`handle_postback` queues for them is that number, divided by a hundred and multiplied
by it again.
-/

namespace SSize

open Lib

/-- One to twelve digits, and one or two more behind the point if there is a point. -/
structure Rubles where
  whole : Text
  fraction : Option Text
  wholeDigits : ∀ c ∈ whole, isDigit c = true
  fractionDigits : ∀ f ∈ fraction, ∀ c ∈ f, isDigit c = true
  wholeLength : 1 ≤ whole.length ∧ whole.length ≤ 12
  fractionLength : ∀ f ∈ fraction, 1 ≤ f.length ∧ f.length ≤ 2

theorem digit_lt {c : UInt8} (h : isDigit c = true) : (c - '0'.toUInt8).toNat ≤ 9 := by
  have hall : ∀ c : UInt8, isDigit c = true → (c - '0'.toUInt8).toNat ≤ 9 := by decide +kernel
  exact hall c h

theorem foldl_digits_bounds {s : Text} (h : ∀ c ∈ s, isDigit c = true) (v : Int) (hv : 0 ≤ v) :
    0 ≤ s.foldl (fun v c => v * 10 + ((c - '0'.toUInt8).toNat : Int)) v ∧
      s.foldl (fun v c => v * 10 + ((c - '0'.toUInt8).toNat : Int)) v <
        (v + 1) * 10 ^ s.length := by
  induction s generalizing v with
  | nil => simp [hv]
  | cons c s ih =>
      have hc := digit_lt (h c List.mem_cons_self)
      obtain ⟨hlow, hhigh⟩ := ih (fun d hd => h d (List.mem_cons_of_mem c hd))
        (v * 10 + ((c - '0'.toUInt8).toNat : Int)) (by omega)
      rw [List.foldl_cons]
      refine ⟨hlow, hhigh.trans_le ?_⟩
      calc (v * 10 + ((c - '0'.toUInt8).toNat : Int) + 1) * 10 ^ s.length
          ≤ (v + 1) * 10 * 10 ^ s.length :=
            mul_le_mul_of_nonneg_right (by omega) (by positivity)
        _ = (v + 1) * 10 ^ (c :: s).length := by
            rw [List.length_cons, pow_succ]
            ring

theorem digitsValue_bounds {s : Text} (h : ∀ c ∈ s, isDigit c = true) :
    0 ≤ digitsValue s ∧ digitsValue s < 10 ^ s.length := by
  simpa [digitsValue] using foldl_digits_bounds h 0 le_rfl

namespace Rubles

variable (r : Rubles)

def text : Text := r.whole ++ (r.fraction.map ('.'.toUInt8 :: ·)).getD []

/-- All its digits. -/
def digits : Text := r.whole ++ r.fraction.getD []

/-- The digits as one number, as if there were always two behind the point. -/
def kopeks : ℕ := (digitsValue r.digits).toNat * 10 ^ (2 - (r.fraction.getD []).length)

def numeral : DecimalNumeral where
  sign := .none
  whole := r.whole
  fraction := r.fraction
  exponent := none
  wholeDigits := r.wholeDigits
  fractionDigits := r.fractionDigits
  nonempty h := by
    have hlength := r.wholeLength.1
    rw [(List.append_eq_nil_iff.1 h).1] at hlength
    simp at hlength

theorem text_numeral : r.numeral.text = r.text := by
  simp [DecimalNumeral.text, DecimalNumeral.body, DecimalNumeral.pointText,
    DecimalNumeral.exponentText, NumeralSign.text, numeral, text]

theorem fraction_length_le : (r.fraction.getD []).length ≤ 2 := by
  cases hf : r.fraction with
  | none => simp
  | some f => exact (r.fractionLength f hf).2

theorem digits_bounds :
    0 ≤ digitsValue r.digits ∧ digitsValue r.digits < 10 ^ r.digits.length := by
  apply digitsValue_bounds
  intro c hc
  rcases List.mem_append.1 hc with hwhole | hfraction
  · exact r.wholeDigits c hwhole
  · cases hf : r.fraction with
    | none => simp [hf] at hfraction
    | some f => exact r.fractionDigits f hf c (by simpa [hf] using hfraction)

theorem kopeks_lt : r.kopeks < 10 ^ 14 := by
  obtain ⟨hlow, hhigh⟩ := r.digits_bounds
  have hfraction := r.fraction_length_le
  have hwhole := r.wholeLength.2
  have hlt : (digitsValue r.digits).toNat < 10 ^ r.digits.length := by
    zify
    rwa [Int.toNat_of_nonneg hlow]
  calc r.kopeks < 10 ^ r.digits.length * 10 ^ (2 - (r.fraction.getD []).length) :=
        Nat.mul_lt_mul_of_pos_right hlt (by positivity)
    _ = 10 ^ (r.whole.length + 2) := by
        rw [← pow_add, digits, List.length_append]
        congr 1
        omega
    _ ≤ 10 ^ 14 := Nat.pow_le_pow_right (by norm_num) (by omega)

/-- The number that is denoted is that many hundredths. -/
theorem value_numeral : r.numeral.value = (r.kopeks : ℚ) / 100 := by
  have hlow := r.digits_bounds.1
  have hlength := r.fraction_length_le
  have hdigits : ((digitsValue r.digits).toNat : ℚ) = digitsValue r.digits := by
    exact_mod_cast Int.toNat_of_nonneg hlow
  have hscale : (10 : ℚ) ^ (0 - ((r.fraction.getD []).length : ℤ)) =
      10 ^ (2 - (r.fraction.getD []).length) / 100 := by
    have hsplit : (0 - ((r.fraction.getD []).length : ℤ)) =
        ((2 - (r.fraction.getD []).length : ℕ) : ℤ) - 2 := by omega
    rw [hsplit, zpow_sub₀ (by norm_num), zpow_natCast]
    norm_num
  calc r.numeral.value
      = digitsValue r.digits * (10 : ℚ) ^ (0 - ((r.fraction.getD []).length : ℤ)) := rfl
    _ = (r.kopeks : ℚ) / 100 := by
        rw [hscale, kopeks, Nat.cast_mul, hdigits]
        push_cast
        ring

end Rubles

/-! ## What is queued for them -/

variable (fp : FloatEnv) (cfg : Config)

theorem rangeError_hundredths {n : ℕ} (h : n < 10 ^ 14) : fp.rangeError (n / 100) = false := by
  have hn : (n : ℚ) < 10 ^ 14 := by exact_mod_cast h
  have hnonneg : (0 : ℚ) ≤ n / 100 := by positivity
  have hhigh : |(n / 100 : ℚ)| < Binary64.overflow := by
    rw [abs_of_nonneg hnonneg]
    calc (n / 100 : ℚ) < 2 ^ 47 := by linarith
      _ ≤ Binary64.overflow := Binary64.two_pow_le_overflow (by norm_num)
  by_cases hzero : n = 0
  · simp [FloatEnv.rangeError, hzero]
    simpa [hzero] using hhigh
  · have hone : (1 : ℚ) ≤ n := by exact_mod_cast Nat.one_le_iff_ne_zero.2 hzero
    apply rangeError_eq_false fp _ hhigh
    rw [abs_of_nonneg hnonneg]
    calc Binary64.normal ≤ 1 / 2 ^ 7 := Binary64.normal_le_two_pow (by norm_num)
      _ ≤ n / 100 := by linarith

theorem castKopek_finite {q : ℚ} (h : |truncate q| < 2 ^ 63) :
    castKopek fp (.finite q) = truncate q := by
  obtain ⟨hlow, hhigh⟩ := abs_lt.1 h
  exact if_pos ⟨hlow.le, hhigh⟩

/-- `stod`, the multiplication and the cast are the two roundings and the truncation. -/
theorem stodKopeks_rubles (r : Rubles) :
    stodKopeks fp r.text = some (hundredthsAndBack r.kopeks) := by
  have hlt := r.kopeks_lt
  have hn : (r.kopeks : ℚ) < 10 ^ 14 := by exact_mod_cast hlt
  have hnonneg : (0 : ℚ) ≤ r.kopeks / 100 := by positivity
  have hread := r.numeral.strtod_text
  rw [r.text_numeral, r.value_numeral] at hread
  have hquotient := abs_roundBinary64_le (r.kopeks / 100)
  have hproduct := abs_roundBinary64_le (roundBinary64 (r.kopeks / 100) * 100)
  have hcast := abs_truncate_le (roundBinary64 (roundBinary64 (r.kopeks / 100) * 100))
  rw [abs_of_nonneg hnonneg] at hquotient
  have habs : |roundBinary64 (r.kopeks / 100) * 100| = |roundBinary64 (r.kopeks / 100)| * 100 := by
    rw [abs_mul, abs_of_pos (by norm_num : (0 : ℚ) < 100)]
  rw [habs] at hproduct
  have hfirst : Binary64.ofRat (r.kopeks / 100) = .finite (roundBinary64 (r.kopeks / 100)) := by
    apply Binary64.ofRat_of_lt (n := 47) (by norm_num)
    rw [abs_of_nonneg hnonneg]
    linarith
  have hsecond : Binary64.ofRat (roundBinary64 (r.kopeks / 100) * 100) =
      .finite (roundBinary64 (roundBinary64 (r.kopeks / 100) * 100)) := by
    apply Binary64.ofRat_of_lt (n := 62) (by norm_num)
    rw [habs]
    linarith
  have hrange : |(hundredthsAndBack r.kopeks : ℚ)| < 2 ^ 63 := by
    unfold hundredthsAndBack
    linarith
  have hrange' : |hundredthsAndBack r.kopeks| < 2 ^ 63 := by exact_mod_cast hrange
  have hstod : stod fp r.text = some (.finite (roundBinary64 (r.kopeks / 100))) := by
    simp only [stod, hread, rangeError_hundredths fp hlt, hfirst]
    rfl
  rw [stodKopeks, hstod, Option.map_some, Binary64.scale, hsecond, castKopek_finite fp hrange']
  rfl

/-- A signed postback with such an amount is accepted. -/
theorem answerPostback_rubles (now : TsMs) (queue : ConversionQueue) {q : Query} {r : Rubles}
    (hsigned : SignedPostback cfg q) (hamount : q (bytes "amount") = some r.text) :
    ∃ conv, (answerPostback fp cfg now queue q).2.pending = queue.pending ++ [conv] ∧
      conv.amount = some (hundredthsAndBack r.kopeks) := by
  have hread := stodKopeks_rubles fp r
  rcases answerPostback_cases fp cfg now queue q with
    ⟨conv, -, -, -, hconv, heq⟩ | ⟨res, hnot, -, -⟩
  · rw [AmountRead, hamount] at hconv
    rw [heq]
    exact ⟨conv, rfl, hconv.2.trans hread⟩
  · refine absurd ⟨hsigned, ?_⟩ hnot
    intro s hs
    have hs' : r.text = s := Option.some.inj (hamount.symm.trans hs)
    rw [← hs', hread]
    exact Option.some_ne_none _

/-- The conversion has the amount that the text denotes exactly when that does not fall
short. -/
theorem answerPostback_exact_iff (now : TsMs) (queue : ConversionQueue) {q : Query} {r : Rubles}
    (hsigned : SignedPostback cfg q) (hamount : q (bytes "amount") = some r.text) :
    (∃ conv, (answerPostback fp cfg now queue q).2.pending = queue.pending ++ [conv] ∧
      conv.amount = some (r.kopeks : Int)) ↔ ¬ FallsShort r.kopeks := by
  have hlt : r.kopeks < 2 ^ 47 := r.kopeks_lt.trans (by norm_num)
  obtain ⟨conv, hqueue, hconv⟩ := answerPostback_rubles fp cfg now queue hsigned hamount
  rw [← hundredthsAndBack_iff hlt]
  constructor
  · rintro ⟨conv', hqueue', hconv'⟩
    rw [hqueue, List.append_cancel_left_eq, List.cons.injEq] at hqueue'
    rw [hqueue'.1, hconv'] at hconv
    exact (Option.some.inj hconv).symm
  · intro hexact
    exact ⟨conv, hqueue, hconv.trans (congrArg some hexact)⟩

/-- 499 rubles, none of which are lost. -/
def Rubles.fourNineNine : Rubles where
  whole := bytes "499"
  fraction := none
  wholeDigits := List.all_eq_true.1 (by decide)
  fractionDigits := by rintro f ⟨⟩
  wholeLength := by decide
  fractionLength := by rintro f ⟨⟩

theorem answerPostback_fourNineNine :
    ∃ conv, (answerPostback .strict { postbackSecret := bytes "k" } 0 {}
        (amountQuery Rubles.fourNineNine.text)).2.pending = [] ++ [conv] ∧
      conv.amount = some (Rubles.fourNineNine.kopeks : Int) :=
  (answerPostback_exact_iff .strict { postbackSecret := bytes "k" } 0 {}
    (signedPostback_amountQuery (by decide +kernel)) (by decide +kernel)).2 (by decide)

/-- 29 kopecks. -/
def Rubles.twentyNine : Rubles where
  whole := bytes "0"
  fraction := some (bytes "29")
  wholeDigits := List.all_eq_true.1 (by decide)
  fractionDigits := by
    rintro f ⟨⟩
    exact List.all_eq_true.1 (by decide)
  wholeLength := by decide
  fractionLength := by
    rintro f ⟨⟩
    decide

/-- A kopeck is lost. -/
theorem answerPostback_twentyNine :
    ¬ ∃ conv, (answerPostback .strict { postbackSecret := bytes "k" } 0 {}
        (amountQuery Rubles.twentyNine.text)).2.pending = [conv] ∧ conv.amount = some 29 := by
  have hamount : amountQuery Rubles.twentyNine.text (bytes "amount") =
      some Rubles.twentyNine.text := by
    decide +kernel
  have hkopeks : Rubles.twentyNine.kopeks = 29 := by decide
  have hlost : hundredthsAndBack 29 ≠ (29 : ℕ) := by
    rw [Ne, hundredthsAndBack_iff (by norm_num)]
    decide
  obtain ⟨conv, hqueue, hconv⟩ := answerPostback_rubles .strict { postbackSecret := bytes "k" } 0 {}
    (signedPostback_amountQuery (by decide +kernel)) hamount
  rintro ⟨conv', hqueue', hconv'⟩
  rw [hqueue] at hqueue'
  have heq : conv = conv' := by simpa using hqueue'
  rw [heq, hconv', hkopeks] at hconv
  exact hlost (Option.some.inj hconv).symm

end SSize

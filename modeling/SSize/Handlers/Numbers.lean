import SSize.Handlers.QueryString

/-!
# Numbers written into a link and read back

`std::to_string` writes decimal digits behind an optional minus, none of which means
anything in a target or is escaped, and `parse_int` reads every `int64` back.
-/

namespace SSize

/-! ## Digits -/

theorem toNat_of_isDigit {c : Char} (h : c.isDigit = true) :
    48 ≤ c.toNat ∧ c.toNat ≤ 57 ∧ c.toUInt8.toNat = c.toNat := by
  rw [Char.isDigit, Bool.and_eq_true, decide_eq_true_eq, decide_eq_true_eq] at h
  have hlow : 48 ≤ c.toNat := h.1
  have hhigh : c.toNat ≤ 57 := h.2
  have hbyte : c.toUInt8.toNat = c.toNat % 256 := UInt32.toNat_toUInt8 c.val
  omega

theorem isDigit_toUInt8 {c : Char} (h : c.isDigit = true) : isDigit c.toUInt8 = true := by
  obtain ⟨hlow, hhigh, hbyte⟩ := toNat_of_isDigit h
  rw [isDigit, Bool.and_eq_true, decide_eq_true_eq, decide_eq_true_eq, UInt8.le_iff_toNat_le,
    UInt8.le_iff_toNat_le, hbyte]
  exact ⟨hlow, hhigh⟩

theorem digit_value {c : Char} (h : c.isDigit = true) :
    (c.toUInt8 - '0'.toUInt8).toNat = c.toNat - '0'.toNat := by
  obtain ⟨hlow, hhigh, hbyte⟩ := toNat_of_isDigit h
  have hzero : '0'.toUInt8.toNat = 48 := by decide
  have hzero' : '0'.toNat = 48 := by decide
  rw [UInt8.toNat_sub, hbyte, hzero, hzero']
  omega

theorem foldl_digits {l : List Char} (h : ∀ c ∈ l, c.isDigit = true) (acc : Nat) :
    (l.map Char.toUInt8).foldl (fun v c => v * 10 + ((c - '0'.toUInt8).toNat : Int)) (acc : Int) =
      Nat.ofDigitChars 10 l acc := by
  induction l generalizing acc with
  | nil => rfl
  | cons c l ih =>
      have hvalue := digit_value (h c List.mem_cons_self)
      have hacc : (acc : Int) * 10 + ((c.toUInt8 - '0'.toUInt8).toNat : Int) =
          ((10 * acc + (c.toNat - '0'.toNat) : Nat) : Int) := by
        rw [hvalue]
        omega
      rw [List.map_cons, List.foldl_cons, hacc, ih fun d hd => h d (List.mem_cons_of_mem c hd),
        Nat.ofDigitChars_cons]

/-- The digits of a number. -/
def digitsOf (n : Nat) : Text := (Nat.toDigits 10 n).map Char.toUInt8

theorem digitsValue_digitsOf (n : Nat) : digitsValue (digitsOf n) = n := by
  have hdigits : ∀ c ∈ Nat.toDigits 10 n, c.isDigit = true :=
    fun c hc => Nat.isDigit_of_mem_toDigits (by decide) (by decide) hc
  calc digitsValue (digitsOf n) = Nat.ofDigitChars 10 (Nat.toDigits 10 n) 0 :=
        foldl_digits hdigits 0
    _ = n := by rw [Nat.ofDigitChars_ten_toDigits]

theorem digitsOf_ne_nil (n : Nat) : digitsOf n ≠ [] := by
  rw [digitsOf, Ne, List.map_eq_nil_iff]
  exact Nat.toDigits_ne_nil

theorem isDigit_of_mem_digitsOf {n : Nat} {c : UInt8} (h : c ∈ digitsOf n) :
    isDigit c = true := by
  obtain ⟨d, hd, rfl⟩ := List.mem_map.1 h
  exact isDigit_toUInt8 (Nat.isDigit_of_mem_toDigits (by decide) (by decide) hd)

/-! ## Signed numbers -/

theorem toText_of_nonneg {n : Int} (h : 0 ≤ n) : toText n = digitsOf n.natAbs := by
  rw [toText, if_neg (by omega)]
  rfl

theorem toText_of_neg {n : Int} (h : n < 0) :
    toText n = '-'.toUInt8 :: digitsOf n.natAbs := by
  rw [toText, if_pos h]
  rfl

theorem all_digitsOf (n : Nat) :
    (digitsOf n).isEmpty = false ∧ (digitsOf n).all isDigit = true := by
  refine ⟨?_, List.all_eq_true.2 fun c hc => isDigit_of_mem_digitsOf hc⟩
  simpa [List.isEmpty_iff] using digitsOf_ne_nil n

theorem parseInt_digitsOf {n : Nat} (h : (n : Int) < 2 ^ 63) :
    parseInt (digitsOf n) = some (n : Int) := by
  obtain ⟨hnonempty, hall⟩ := all_digitsOf n
  have hhead : (digitsOf n).head? ≠ some '-'.toUInt8 := by
    intro hhead
    exact absurd (isDigit_of_mem_digitsOf (List.mem_of_mem_head? hhead)) (by decide)
  simp [parseInt, hhead, hnonempty, hall, digitsValue_digitsOf]
  omega

theorem parseInt_minus {n : Nat} (h : -2 ^ 63 ≤ -(n : Int)) :
    parseInt ('-'.toUInt8 :: digitsOf n) = some (-(n : Int)) := by
  obtain ⟨hnonempty, hall⟩ := all_digitsOf n
  simp [parseInt, hnonempty, hall, digitsValue_digitsOf]
  omega

/-- `parse_int` reads back what `to_string` wrote, for every `int64`. -/
theorem parseInt_toText {n : Int} (hlow : -2 ^ 63 ≤ n) (hhigh : n < 2 ^ 63) :
    parseInt (toText n) = some n := by
  by_cases hneg : n < 0
  · have habs : -(n.natAbs : Int) = n := by omega
    rw [toText_of_neg hneg, parseInt_minus (by omega), habs]
  · have habs : (n.natAbs : Int) = n := by omega
    rw [toText_of_nonneg (by omega), parseInt_digitsOf (by omega), habs]

theorem digitsOf_injective {m n : Nat} (h : digitsOf m = digitsOf n) : m = n := by
  have hvalue := congrArg digitsValue h
  rw [digitsValue_digitsOf, digitsValue_digitsOf] at hvalue
  exact_mod_cast hvalue

theorem minus_ne_digitsOf (text : Text) (n : Nat) : '-'.toUInt8 :: text ≠ digitsOf n := by
  intro h
  have hmem : '-'.toUInt8 ∈ digitsOf n := h ▸ List.mem_cons_self
  exact absurd (isDigit_of_mem_digitsOf hmem) (by decide)

theorem toText_injective {m n : Int} (h : toText m = toText n) : m = n := by
  by_cases hm : m < 0 <;> by_cases hn : n < 0
  · rw [toText_of_neg hm, toText_of_neg hn, List.cons.injEq] at h
    have habs := digitsOf_injective h.2
    omega
  · rw [toText_of_neg hm, toText_of_nonneg (by omega)] at h
    exact absurd h (minus_ne_digitsOf _ _)
  · rw [toText_of_nonneg (by omega), toText_of_neg hn] at h
    exact absurd h.symm (minus_ne_digitsOf _ _)
  · rw [toText_of_nonneg (by omega), toText_of_nonneg (by omega)] at h
    have habs := digitsOf_injective h
    omega

/-! ## In a target -/

/-- A minus or a digit. -/
def NumeralByte (c : UInt8) : Prop := c = '-'.toUInt8 ∨ isDigit c = true

theorem numeralByte_of_mem_toText {n : Int} {c : UInt8} (h : c ∈ toText n) : NumeralByte c := by
  by_cases hneg : n < 0
  · rw [toText_of_neg hneg, List.mem_cons] at h
    exact h.imp_right isDigit_of_mem_digitsOf
  · rw [toText_of_nonneg (by omega)] at h
    exact Or.inr (isDigit_of_mem_digitsOf h)

theorem NumeralByte.unreserved {c : UInt8} (h : NumeralByte c) : isUnreserved c = true := by
  have hall : ∀ c : UInt8, c = '-'.toUInt8 ∨ isDigit c = true → isUnreserved c = true := by
    decide +kernel
  exact hall c h

/-- A number is encoded as itself. -/
theorem urlEncode_toText (n : Int) : urlEncode (toText n) = toText n := by
  have hkept : ∀ text : Text, (∀ c ∈ text, isUnreserved c = true) → urlEncode text = text := by
    intro text htext
    induction text with
    | nil => rfl
    | cons c text ih =>
        rw [urlEncode_cons, encodeByte, if_pos (htext c List.mem_cons_self),
          ih fun d hd => htext d (List.mem_cons_of_mem c hd)]
        rfl
  exact hkept _ fun c hc => (numeralByte_of_mem_toText hc).unreserved

theorem question_not_mem_toText (n : Int) : '?'.toUInt8 ∉ toText n := by
  intro h
  exact absurd (numeralByte_of_mem_toText h).unreserved (by decide)

end SSize

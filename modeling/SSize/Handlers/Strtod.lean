import SSize.Handlers.Numbers
import SSize.Lib.Binary64

/-!
# `std::stod`

`strtod` as the C standard describes it in the locale that the program starts with:
white space, a sign, and the longest prefix that is a decimal or hexadecimal number, an
infinity or a NaN. `std::stod` throws when there is none, and when `strtod` reports a
range error. What the standards leave open is in `FloatEnv`.
-/

namespace SSize

open Lib

/-! ## Pieces of a number -/

/-- `isspace`. -/
def isSpace (c : UInt8) : Bool := c == ' '.toUInt8 || (9 ≤ c && c ≤ 13)

def isHexDigit (c : UInt8) : Bool := (hexValue c).isSome

/-- An optional sign, and whether it is a minus. -/
def takeSign : Text → Bool × Text
  | [] => (false, [])
  | c :: rest =>
      if c = '+'.toUInt8 then (false, rest)
      else if c = '-'.toUInt8 then (true, rest)
      else (false, c :: rest)

/-- Digits with a point or without one: those before it, those behind it, and the
rest. There has to be a digit. -/
def takeMantissa (digit : UInt8 → Bool) (s : Text) : Option (Text × Text × Text) :=
  let whole := s.takeWhile digit
  match s.dropWhile digit with
  | [] => if whole.isEmpty then none else some (whole, [], [])
  | c :: rest =>
      if c = '.'.toUInt8 then
        let fraction := rest.takeWhile digit
        if whole.isEmpty && fraction.isEmpty then none
        else some (whole, fraction, rest.dropWhile digit)
      else if whole.isEmpty then none
      else some (whole, [], c :: rest)

/-- An exponent behind `marker`, zero when there is none. -/
def takeExponent (marker : UInt8) : Text → Int × Text
  | [] => (0, [])
  | c :: rest =>
      let (negative, s) := takeSign rest
      let digits := s.takeWhile isDigit
      if toLower c = marker && !digits.isEmpty then
        (if negative then -digitsValue digits else digitsValue digits, s.dropWhile isDigit)
      else (0, c :: rest)

def hexDigitsValue (digits : Text) : Int :=
  digits.foldl (fun v c => v * 16 + (((hexValue c).getD 0).toNat : Int)) 0

def signed (negative : Bool) (q : ℚ) : ℚ := if negative then -q else q

def decimalValue (negative : Bool) (whole fraction : Text) (exponent : Int) : ℚ :=
  signed negative (digitsValue (whole ++ fraction) * 10 ^ (exponent - fraction.length))

def hexadecimalValue (negative : Bool) (whole fraction : Text) (exponent : Int) : ℚ :=
  signed negative (hexDigitsValue (whole ++ fraction) * 2 ^ (exponent - 4 * fraction.length))

/-! ## `strtod` -/

/-- What was recognized. -/
inductive Subject where
  | number (q : ℚ)
  | infinity (negative : Bool)
  | nan

def takeDecimal (negative : Bool) (s : Text) : Option (Subject × Text) :=
  (takeMantissa isDigit s).map fun (whole, fraction, rest) =>
    let (exponent, rest) := takeExponent 'e'.toUInt8 rest
    (.number (decimalValue negative whole fraction exponent), rest)

def takeHexadecimal (negative : Bool) (s : Text) : Option (Subject × Text) :=
  (takeMantissa isHexDigit s).map fun (whole, fraction, rest) =>
    let (exponent, rest) := takeExponent 'p'.toUInt8 rest
    (.number (hexadecimalValue negative whole fraction exponent), rest)

def isWordByte (c : UInt8) : Bool :=
  isDigit c || ('a'.toUInt8 ≤ toLower c && toLower c ≤ 'z'.toUInt8) || c == '_'.toUInt8

/-- Behind `nan` there may be word characters in parentheses. -/
def dropPayload (s : Text) : Text :=
  match s with
  | [] => []
  | c :: rest =>
      if c = '('.toUInt8 then
        match rest.dropWhile isWordByte with
        | [] => s
        | d :: behind => if d = ')'.toUInt8 then behind else s
      else s

/-- What `strtod` recognizes, and what it leaves of the C string. -/
def strtod (s : Text) : Option (Subject × Text) :=
  let (negative, s) := takeSign ((s.takeWhile (· != 0)).dropWhile isSpace)
  let lower := s.map toLower
  if (bytes "infinity").isPrefixOf lower then some (.infinity negative, s.drop 8)
  else if (bytes "inf").isPrefixOf lower then some (.infinity negative, s.drop 3)
  else if (bytes "nan").isPrefixOf lower then some (.nan, dropPayload (s.drop 3))
  else if (bytes "0x").isPrefixOf lower then
    -- Without a hexadecimal digit behind it only the zero is a number.
    (takeHexadecimal negative (s.drop 2)).or (takeDecimal negative s)
  else takeDecimal negative s

/-! ## `std::stod` and the cast -/

/-- What the implementation decides. -/
structure FloatEnv where
  /-- `strtod` sets `ERANGE` for this number, which is too small to be normal. -/
  reportsUnderflow : ℚ → Bool
  /-- What comes out of a cast whose behaviour is undefined. -/
  undefinedCast : Binary64 → Kopek

variable (fp : FloatEnv)

/-- `strtod` reports the number as out of range. -/
def FloatEnv.rangeError (q : ℚ) : Bool :=
  decide (Binary64.overflow ≤ |q|) ||
    (decide (q ≠ 0 ∧ |q| < Binary64.normal) && fp.reportsUnderflow q)

/-- `none` where it throws. -/
def stod (s : Text) : Option Binary64 :=
  match strtod s with
  | none => none
  | some (.number q, _) => if fp.rangeError q then none else some (.ofRat q)
  | some (.infinity negative, _) => some (.infinite negative)
  | some (.nan, _) => some .nan

/-- `static_cast<Kopek>`. -/
def castKopek : Binary64 → Kopek
  | .finite q =>
      if -2 ^ 63 ≤ truncate q ∧ truncate q < 2 ^ 63 then truncate q
      else fp.undefinedCast (.finite q)
  | x => fp.undefinedCast x

/-- `static_cast<Kopek>(std::stod(s) * 100.0)`. -/
def stodKopeks (s : Text) : Option Kopek := (stod fp s).map fun x => castKopek fp (x.scale 100)

/-! ## Decimal numerals -/

inductive NumeralSign where
  | none
  | plus
  | minus

def NumeralSign.text : NumeralSign → Text
  | none => []
  | plus => ['+'.toUInt8]
  | minus => ['-'.toUInt8]

def NumeralSign.negative : NumeralSign → Bool
  | minus => true
  | _ => false

/-- `e` or `E`, a sign and digits. -/
structure NumeralExponent where
  marker : UInt8
  sign : NumeralSign
  digits : Text
  isMarker : marker = 'e'.toUInt8 ∨ marker = 'E'.toUInt8
  nonempty : digits ≠ []
  areDigits : ∀ c ∈ digits, isDigit c = true

def NumeralExponent.text (e : NumeralExponent) : Text := e.marker :: (e.sign.text ++ e.digits)

def NumeralExponent.value (e : NumeralExponent) : Int :=
  if e.sign.negative then -digitsValue e.digits else digitsValue e.digits

/-- A finite decimal number as it is written: an optional sign, digits of which some
may stand behind a point, and an optional exponent. -/
structure DecimalNumeral where
  sign : NumeralSign
  whole : Text
  /-- The digits behind the point, if there is a point. -/
  fraction : Option Text
  exponent : Option NumeralExponent
  wholeDigits : ∀ c ∈ whole, isDigit c = true
  fractionDigits : ∀ f ∈ fraction, ∀ c ∈ f, isDigit c = true
  nonempty : whole ++ fraction.getD [] ≠ []

namespace DecimalNumeral

variable (n : DecimalNumeral)

def exponentText : Text := (n.exponent.map NumeralExponent.text).getD []

def exponentValue : Int := (n.exponent.map NumeralExponent.value).getD 0

/-- The point and what is behind it. -/
def pointText : Text := (n.fraction.map ('.'.toUInt8 :: ·)).getD []

def body : Text := n.whole ++ (n.pointText ++ n.exponentText)

def text : Text := n.sign.text ++ n.body

def value : ℚ := decimalValue n.sign.negative n.whole (n.fraction.getD []) n.exponentValue

end DecimalNumeral

/-! ## A numeral is recognized as a whole -/

/-- A digit, or what else a numeral has. -/
def NumeralChar (c : UInt8) : Prop :=
  isDigit c = true ∨ c ∈ ['+'.toUInt8, '-'.toUInt8, '.'.toUInt8, 'e'.toUInt8, 'E'.toUInt8]

instance (c : UInt8) : Decidable (NumeralChar c) := inferInstanceAs (Decidable (_ ∨ _))

/-- Nothing in a numeral ends a C string, is white space, or is in `infinity`, `nan` or
`0x` but not in a number. -/
theorem NumeralChar.plain {c : UInt8} (h : NumeralChar c) :
    c ≠ 0 ∧ isSpace c = false ∧ toLower c ∉ ['i'.toUInt8, 'n'.toUInt8, 'x'.toUInt8] := by
  have hall : ∀ c : UInt8, NumeralChar c →
      c ≠ 0 ∧ isSpace c = false ∧ toLower c ∉ ['i'.toUInt8, 'n'.toUInt8, 'x'.toUInt8] := by
    decide +kernel
  exact hall c h

theorem NumeralSign.numeralChar (sign : NumeralSign) : ∀ c ∈ sign.text, NumeralChar c := by
  intro c hc
  cases sign with
  | none => simp [NumeralSign.text] at hc
  | plus =>
      rw [List.mem_singleton.1 hc]
      decide
  | minus =>
      rw [List.mem_singleton.1 hc]
      decide

theorem takeSign_append (sign : NumeralSign) {s : Text}
    (h : ∀ c ∈ s.head?, c ≠ '+'.toUInt8 ∧ c ≠ '-'.toUInt8) :
    takeSign (sign.text ++ s) = (sign.negative, s) := by
  cases sign with
  | none =>
      cases s with
      | nil => rfl
      | cons c s =>
          obtain ⟨hplus, hminus⟩ := h c rfl
          simp [NumeralSign.text, NumeralSign.negative, takeSign, hplus, hminus]
  | plus => rfl
  | minus => rfl

theorem not_sign_of_isDigit {c : UInt8} (h : isDigit c = true) :
    c ≠ '+'.toUInt8 ∧ c ≠ '-'.toUInt8 := by
  constructor <;> rintro rfl <;> exact absurd h (by decide)

namespace NumeralExponent

variable (e : NumeralExponent)

theorem numeralChar : ∀ c ∈ e.text, NumeralChar c := by
  intro c hc
  rw [text, List.mem_cons, List.mem_append] at hc
  rcases hc with rfl | hsign | hdigit
  · rcases e.isMarker with hmarker | hmarker <;> rw [hmarker] <;> decide
  · exact e.sign.numeralChar c hsign
  · exact Or.inl (e.areDigits c hdigit)

theorem takeExponent_text : takeExponent 'e'.toUInt8 e.text = (e.value, []) := by
  have hsign : takeSign (e.sign.text ++ e.digits) = (e.sign.negative, e.digits) :=
    takeSign_append e.sign fun c hc =>
      not_sign_of_isDigit (e.areDigits c (List.mem_of_mem_head? hc))
  have htake : e.digits.takeWhile isDigit = e.digits :=
    List.takeWhile_eq_self_iff.2 e.areDigits
  have hdrop : e.digits.dropWhile isDigit = [] := List.dropWhile_eq_nil_iff.2 e.areDigits
  have hmarker : toLower e.marker = 'e'.toUInt8 := by
    rcases e.isMarker with h | h <;> rw [h] <;> decide
  have hnonempty : e.digits.isEmpty = false := by simpa using e.nonempty
  rw [text, takeExponent, hsign]
  simp only [htake, hdrop, hmarker, hnonempty]
  rfl

end NumeralExponent

namespace DecimalNumeral

variable (n : DecimalNumeral)

theorem takeExponent_exponentText :
    takeExponent 'e'.toUInt8 n.exponentText = (n.exponentValue, []) := by
  unfold exponentText exponentValue
  cases n.exponent with
  | none => rfl
  | some e => exact e.takeExponent_text

theorem head_exponentText : ∀ c ∈ n.exponentText.head?, c ≠ '.'.toUInt8 ∧ isDigit c = false := by
  intro c hc
  unfold exponentText at hc
  cases he : n.exponent with
  | none => simp [he] at hc
  | some e =>
      have hmarker : e.marker = c := by simpa [he, NumeralExponent.text] using hc
      rw [← hmarker]
      rcases e.isMarker with h | h <;> rw [h] <;> decide

theorem takeMantissa_body :
    takeMantissa isDigit n.body = some (n.whole, n.fraction.getD [], n.exponentText) := by
  have hexponent := n.head_exponentText
  have hstop : ∀ c ∈ n.exponentText.head?, isDigit c = false := fun c hc => (hexponent c hc).2
  have hnonempty := n.nonempty
  unfold body pointText
  cases hf : n.fraction with
  | none =>
      have hwhole : n.whole ≠ [] := by simpa [hf] using hnonempty
      have hwhole' : n.whole.isEmpty = false := by simpa using hwhole
      simp only [Option.map_none, Option.getD_none, List.nil_append, takeMantissa,
        takeWhile_append_of_head n.wholeDigits hstop, dropWhile_append_of_head n.wholeDigits hstop]
      cases hrest : n.exponentText with
      | nil => simp [hwhole']
      | cons c rest =>
          have hpoint : c ≠ '.'.toUInt8 := (hexponent c (by rw [hrest]; rfl)).1
          simp [hpoint, hwhole']
  | some f =>
      have hfdigits : ∀ c ∈ f, isDigit c = true := n.fractionDigits f hf
      have hpoint : ∀ c ∈ ('.'.toUInt8 :: (f ++ n.exponentText)).head?, isDigit c = false := by
        rintro c ⟨⟩
        decide
      have hdigit : (n.whole.isEmpty && f.isEmpty) = false := by
        simpa [hf, Bool.and_eq_false_iff, List.isEmpty_iff, ← not_and_or] using hnonempty
      simp only [Option.map_some, Option.getD_some, takeMantissa,
        takeWhile_append_of_head n.wholeDigits hpoint,
        dropWhile_append_of_head n.wholeDigits hpoint, List.cons_append,
        takeWhile_append_of_head hfdigits hstop,
        dropWhile_append_of_head hfdigits hstop, hdigit]
      simp

theorem takeDecimal_body :
    takeDecimal n.sign.negative n.body = some (.number n.value, []) := by
  rw [takeDecimal, takeMantissa_body, Option.map_some]
  simp only [takeExponent_exponentText]
  rfl

theorem head_body : ∀ c ∈ n.body.head?, c ≠ '+'.toUInt8 ∧ c ≠ '-'.toUInt8 := by
  intro c hc
  unfold body at hc
  cases hw : n.whole with
  | cons d whole =>
      have hd : isDigit d = true := n.wholeDigits d (by rw [hw]; exact List.mem_cons_self)
      have heq : d = c := by simpa [hw] using hc
      exact not_sign_of_isDigit (heq ▸ hd)
  | nil =>
      have hnonempty := n.nonempty
      cases hf : n.fraction with
      | none => simp [hw, hf] at hnonempty
      | some f =>
          have heq : '.'.toUInt8 = c := by simpa [hw, hf, pointText] using hc
          rw [← heq]
          decide

theorem numeralChar : ∀ c ∈ n.text, NumeralChar c := by
  intro c hc
  simp only [text, body, List.mem_append] at hc
  rcases hc with hsign | hwhole | hpoint | hexponent
  · exact n.sign.numeralChar c hsign
  · exact Or.inl (n.wholeDigits c hwhole)
  · cases hf : n.fraction with
    | none => simp [pointText, hf] at hpoint
    | some f =>
        have hmem : c = '.'.toUInt8 ∨ c ∈ f := by simpa [pointText, hf] using hpoint
        rcases hmem with rfl | hmem
        · decide
        · exact Or.inl (n.fractionDigits f hf c hmem)
  · cases he : n.exponent with
    | none => simp [exponentText, he] at hexponent
    | some e => exact e.numeralChar c (by simpa [exponentText, he] using hexponent)

/-- `strtod` reads a numeral to its end. -/
theorem strtod_text : strtod n.text = some (.number n.value, []) := by
  have hplain := fun c hc => (n.numeralChar c hc).plain
  have hstring : n.text.takeWhile (· != 0) = n.text :=
    List.takeWhile_eq_self_iff.2 fun c hc => by simpa using (hplain c hc).1
  have hspace : n.text.dropWhile isSpace = n.text :=
    @dropWhile_append_of_head _ isSpace [] n.text (by simp) fun c hc =>
      (hplain c (List.mem_of_mem_head? hc)).2.1
  have hsign : takeSign n.text = (n.sign.negative, n.body) := takeSign_append n.sign n.head_body
  have hword : ∀ word : Text, (∃ c ∈ word, c ∈ ['i'.toUInt8, 'n'.toUInt8, 'x'.toUInt8]) →
      word.isPrefixOf (n.body.map toLower) = false := by
    rintro word ⟨c, hc, hletter⟩
    rw [Bool.eq_false_iff]
    intro hbegins
    have hsub := List.IsPrefix.subset (List.isPrefixOf_iff_prefix.1 hbegins)
    obtain ⟨d, hd, rfl⟩ := List.mem_map.1 (hsub hc)
    exact (hplain d (List.mem_append_right _ hd)).2.2 hletter
  rw [strtod, hstring, hspace, hsign]
  simp only [hword _ (by decide : ∃ c ∈ bytes "infinity", _),
    hword _ (by decide : ∃ c ∈ bytes "inf", _), hword _ (by decide : ∃ c ∈ bytes "nan", _),
    hword _ (by decide : ∃ c ∈ bytes "0x", _)]
  exact n.takeDecimal_body

/-- Of a prefix without digits behind it the zero is left. -/
example : strtod (bytes " 0xg") =
    some (.number (decimalValue false (bytes "0") [] 0), bytes "xg") := rfl

/-- What begins with a number but goes on behind it is no numeral. -/
theorem text_ne {s : Text} {x : Subject} {c : UInt8} {rest : Text}
    (h : strtod s = some (x, c :: rest)) : n.text ≠ s := by
  rintro rfl
  rw [strtod_text] at h
  simp at h

end DecimalNumeral

end SSize

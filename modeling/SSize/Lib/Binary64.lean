import Mathlib.Algebra.Order.Floor.Ring
import Mathlib.Data.Int.Log
import Mathlib.Data.Rat.Floor
import Mathlib.Tactic.FieldSimp
import Mathlib.Tactic.Linarith
import Mathlib.Tactic.NormNum
import Mathlib.Tactic.Ring

/-!
# Binary64 over the rationals

A finite number of the format is the rational that it stands for. Rounding goes to
the nearest number of the grid, of two to the one with the even significand, and to an
infinity from half a step above the largest number on. The sign of a zero is left out.
-/

namespace SSize.Lib

/-! ## To the nearest integer -/

/-- The nearest integer, of two the even one. -/
def roundHalfEven (q : ℚ) : ℤ :=
  if q - ⌊q⌋ < 1 / 2 then ⌊q⌋
  else if 1 / 2 < q - ⌊q⌋ then ⌊q⌋ + 1
  else if ⌊q⌋ % 2 = 0 then ⌊q⌋
  else ⌊q⌋ + 1

theorem roundHalfEven_near {q : ℚ} {k : ℤ} (h : |q - k| < 1 / 2) : roundHalfEven q = k := by
  obtain ⟨hlow, hhigh⟩ := abs_lt.1 h
  by_cases hk : (k : ℚ) ≤ q
  · have hfloor : ⌊q⌋ = k := Int.floor_eq_iff.2 ⟨hk, by linarith⟩
    rw [roundHalfEven, hfloor, if_pos (by linarith)]
  · have hfloor : ⌊q⌋ = k - 1 := by
      apply Int.floor_eq_iff.2
      push_cast
      constructor <;> linarith
    have hhalf : 1 / 2 < q - ((k - 1 : ℤ) : ℚ) := by
      push_cast
      linarith
    rw [roundHalfEven, hfloor, if_neg (by linarith), if_pos hhalf]
    omega

/-- Half way is as near as it takes for an even integer. -/
theorem roundHalfEven_even {q : ℚ} {k : ℤ} (heven : k % 2 = 0) (h : |q - k| ≤ 1 / 2) :
    roundHalfEven q = k := by
  by_cases hnear : |q - k| < 1 / 2
  · exact roundHalfEven_near hnear
  · have heq : |q - k| = 1 / 2 := le_antisymm h (not_lt.1 hnear)
    rcases abs_eq (by norm_num : (0 : ℚ) ≤ 1 / 2) |>.1 heq with habove | hbelow
    · have hfloor : ⌊q⌋ = k := by
        apply Int.floor_eq_iff.2
        constructor <;> linarith
      rw [roundHalfEven, hfloor, if_neg (by linarith), if_neg (by linarith), if_pos heven]
    · have hfloor : ⌊q⌋ = k - 1 := by
        apply Int.floor_eq_iff.2
        push_cast
        constructor <;> linarith
      have hhalf : q - ((k - 1 : ℤ) : ℚ) = 1 / 2 := by
        push_cast
        linarith
      rw [roundHalfEven, hfloor, if_neg (by linarith), if_neg (by linarith), if_neg (by omega)]
      omega

theorem roundHalfEven_intCast (k : ℤ) : roundHalfEven k = k :=
  roundHalfEven_near (by norm_num)

theorem abs_roundHalfEven_le (q : ℚ) : |(roundHalfEven q : ℚ)| ≤ |q| + 1 := by
  have hfloor := Int.floor_le q
  have hfloor' := Int.lt_floor_add_one q
  have hround : roundHalfEven q = ⌊q⌋ ∨ roundHalfEven q = ⌊q⌋ + 1 ∧ (⌊q⌋ : ℚ) < q := by
    unfold roundHalfEven
    split_ifs with hdown hup heven
    · exact Or.inl rfl
    · exact Or.inr ⟨rfl, by linarith⟩
    · exact Or.inl rfl
    · exact Or.inr ⟨rfl, by linarith⟩
  have hlow := neg_abs_le q
  have hhigh := le_abs_self q
  rw [abs_le]
  rcases hround with h | ⟨h, hlt⟩
  · rw [h]
    constructor <;> linarith
  · rw [h]
    push_cast
    constructor <;> linarith

theorem abs_roundHalfEven_sub_le (q : ℚ) : |(roundHalfEven q : ℚ) - q| ≤ 1 / 2 := by
  have hfloor := Int.floor_le q
  have hfloor' := Int.lt_floor_add_one q
  rw [abs_le]
  unfold roundHalfEven
  split_ifs with hdown hup heven
  · constructor <;> linarith
  · push_cast
    constructor <;> linarith
  · constructor <;> linarith
  · push_cast
    constructor <;> linarith

/-! ## To the grid -/

/-- The power of two that is the step of the grid around `q`. -/
def gridExponent (q : ℚ) : ℤ := max (Int.log 2 |q| - 52) (-1074)

def roundBinary64 (q : ℚ) : ℚ := roundHalfEven (q / 2 ^ gridExponent q) * 2 ^ gridExponent q

theorem roundBinary64_zero : roundBinary64 0 = 0 := by
  have hzero : roundHalfEven 0 = 0 := roundHalfEven_intCast 0
  rw [roundBinary64, zero_div, hzero, Int.cast_zero, zero_mul]

theorem two_zpow_gridExponent_le (q : ℚ) : (2 : ℚ) ^ gridExponent q ≤ |q| + 1 := by
  have habs := abs_nonneg q
  have htiny : (2 : ℚ) ^ (-1074 : ℤ) ≤ 1 :=
    zpow_le_one_of_nonpos₀ (by norm_num) (by norm_num)
  by_cases hq : q = 0
  · have hgrid : gridExponent q = -52 := by simp [gridExponent, hq]
    have hsmall : (2 : ℚ) ^ (-52 : ℤ) ≤ 1 := zpow_le_one_of_nonpos₀ (by norm_num) (by norm_num)
    rw [hgrid]
    linarith
  · have hpos : 0 < |q| := abs_pos.2 hq
    have hlog : (2 : ℚ) ^ (Int.log 2 |q| - 52) ≤ |q| := by
      calc (2 : ℚ) ^ (Int.log 2 |q| - 52) ≤ 2 ^ Int.log 2 |q| :=
            zpow_le_zpow_right₀ (by norm_num) (by omega)
        _ ≤ |q| := Int.zpow_log_le_self (by norm_num) hpos
    rcases max_choice (Int.log 2 |q| - 52) (-1074) with h | h <;> rw [gridExponent, h] <;> linarith

/-- Rounding is off by a step of the grid at most. -/
theorem abs_roundBinary64_le (q : ℚ) : |roundBinary64 q| ≤ 2 * |q| + 1 := by
  have hpos : (0 : ℚ) < 2 ^ gridExponent q := zpow_pos (by norm_num) _
  have hstep := two_zpow_gridExponent_le q
  calc |roundBinary64 q|
      = |(roundHalfEven (q / 2 ^ gridExponent q) : ℚ)| * 2 ^ gridExponent q := by
        rw [roundBinary64, abs_mul, abs_of_pos hpos]
    _ ≤ (|q / 2 ^ gridExponent q| + 1) * 2 ^ gridExponent q :=
        mul_le_mul_of_nonneg_right (abs_roundHalfEven_le _) hpos.le
    _ = |q| + 2 ^ gridExponent q := by
        rw [abs_div, abs_of_pos hpos, add_mul, div_mul_cancel₀ _ hpos.ne', one_mul]
    _ ≤ 2 * |q| + 1 := by linarith

/-- Above the subnormal numbers, rounding is off by half a unit in the last place at most. -/
theorem abs_roundBinary64_sub_le {q : ℚ} (hq : (2 : ℚ) ^ (-1022 : ℤ) ≤ |q|) :
    |roundBinary64 q - q| ≤ |q| / 2 ^ 53 := by
  have hpos : 0 < |q| := lt_of_lt_of_le (zpow_pos (by norm_num) _) hq
  have hlog : -1022 ≤ Int.log 2 |q| := (Int.zpow_le_iff_le_log (by norm_num) hpos).1 (by exact_mod_cast hq)
  have hgrid : gridExponent q = Int.log 2 |q| - 52 := max_eq_left (by omega)
  have hstep : (0 : ℚ) < 2 ^ gridExponent q := zpow_pos (by norm_num) _
  have hscaled : roundBinary64 q - q =
      ((roundHalfEven (q / 2 ^ gridExponent q) : ℚ) - q / 2 ^ gridExponent q) *
        2 ^ gridExponent q := by
    rw [roundBinary64, sub_mul, div_mul_cancel₀ _ hstep.ne']
  have hbinade : (2 : ℚ) ^ Int.log 2 |q| ≤ |q| := Int.zpow_log_le_self (by norm_num) hpos
  calc |roundBinary64 q - q|
      = |(roundHalfEven (q / 2 ^ gridExponent q) : ℚ) - q / 2 ^ gridExponent q| *
          2 ^ gridExponent q := by rw [hscaled, abs_mul, abs_of_pos hstep]
    _ ≤ 1 / 2 * 2 ^ gridExponent q :=
        mul_le_mul_of_nonneg_right (abs_roundHalfEven_sub_le _) hstep.le
    _ = 2 ^ Int.log 2 |q| / 2 ^ 53 := by
        rw [hgrid, zpow_sub₀ (by norm_num)]
        norm_num
        ring
    _ ≤ |q| / 2 ^ 53 := div_le_div_of_nonneg_right hbinade (by positivity)

theorem abs_roundBinary64_div_sub_le {c d : ℕ} (hd : 0 < d) (hd' : d < 2 ^ 26) :
    |roundBinary64 ((c : ℚ) / d) - c / d| ≤ (c : ℚ) / d / 2 ^ 53 := by
  have hdpos : (0 : ℚ) < d := by exact_mod_cast hd
  have hdlt : (d : ℚ) < 2 ^ 26 := by exact_mod_cast hd'
  rcases Nat.eq_zero_or_pos c with rfl | hc
  · simp [roundBinary64_zero]
  · have hcone : (1 : ℚ) ≤ c := by exact_mod_cast hc
    have hnonneg : (0 : ℚ) ≤ c / d := by positivity
    have hlarge : (2 : ℚ) ^ (-1022 : ℤ) ≤ c / d := by
      calc (2 : ℚ) ^ (-1022 : ℤ) ≤ 2 ^ (-26 : ℤ) :=
            zpow_le_zpow_right₀ (by norm_num) (by norm_num)
        _ = 1 / 2 ^ 26 := by norm_num
        _ ≤ c / d := div_le_div₀ (by positivity) hcone hdpos hdlt.le
    have hround := abs_roundBinary64_sub_le (hlarge.trans (le_abs_self _))
    rwa [abs_of_nonneg hnonneg] at hround

/-- Quotients of small numbers that differ are further apart than rounding can bridge. -/
theorem roundBinary64_div_lt {a b c d : ℕ} (hb : 0 < b) (hd : 0 < d) (ha : a < 2 ^ 26)
    (hb' : b < 2 ^ 26) (hd' : d < 2 ^ 26) (h : c * b < a * d) :
    roundBinary64 ((c : ℚ) / d) < roundBinary64 ((a : ℚ) / b) := by
  have hbpos : (0 : ℚ) < b := by exact_mod_cast hb
  have hdpos : (0 : ℚ) < d := by exact_mod_cast hd
  have hgap : 1 / (b * d : ℚ) ≤ a / b - c / d := by
    have hone : (1 : ℚ) ≤ a * d - c * b := by
      have hcast : ((c * b + 1 : ℕ) : ℚ) ≤ ((a * d : ℕ) : ℚ) := Nat.cast_le.2 h
      push_cast at hcast
      linarith
    calc 1 / (b * d : ℚ) ≤ (a * d - c * b) / (b * d) :=
          div_le_div_of_nonneg_right hone (by positivity)
      _ = a / b - c / d := by
          field_simp
  have hstep : (a : ℚ) / b / 2 ^ 52 < 1 / (b * d) := by
    have hproduct : a * d < 2 ^ 26 * 2 ^ 26 := Nat.mul_lt_mul'' ha hd'
    have hcast : (a : ℚ) * d < 2 ^ 52 := by
      have hcasts : ((a * d : ℕ) : ℚ) < ((2 ^ 26 * 2 ^ 26 : ℕ) : ℚ) := Nat.cast_lt.2 hproduct
      push_cast at hcasts
      linarith
    rw [div_div, div_lt_div_iff₀ (by positivity) (by positivity)]
    calc (a : ℚ) * (b * d) = b * (a * d) := by ring
      _ < b * 2 ^ 52 := mul_lt_mul_of_pos_left hcast hbpos
      _ = 1 * (b * 2 ^ 52) := (one_mul _).symm
  have hup := (abs_le.1 (abs_roundBinary64_div_sub_le (c := c) hd hd')).2
  have hdown := (abs_le.1 (abs_roundBinary64_div_sub_le (c := a) hb hb')).1
  have hless : (c : ℚ) / d / 2 ^ 53 ≤ a / b / 2 ^ 53 := by
    have hpos : 0 < 1 / (b * d : ℚ) := by positivity
    exact div_le_div_of_nonneg_right (by linarith) (by positivity)
  have hhalf : (a : ℚ) / b / 2 ^ 52 = a / b / 2 ^ 53 + a / b / 2 ^ 53 := by ring
  linarith
/-- In the binade where the step of the grid is `2 ^ -n`. -/
theorem roundBinary64_scaled {q : ℚ} {n : ℕ} (hn : n ≤ 1074) (hlow : 2 ^ 52 ≤ q * 2 ^ n)
    (hhigh : q * 2 ^ n < 2 ^ 53) : roundBinary64 q = roundHalfEven (q * 2 ^ n) / 2 ^ n := by
  have hpow : (0 : ℚ) < 2 ^ n := by positivity
  have hpos : 0 < q := by
    by_contra hneg
    have hle : q * 2 ^ n ≤ 0 := mul_nonpos_of_nonpos_of_nonneg (not_lt.1 hneg) hpow.le
    linarith
  have hsplit : ∀ k : ℕ, (2 : ℚ) ^ ((k : ℤ) - n) = 2 ^ k / 2 ^ n := by
    intro k
    rw [zpow_sub₀ (by norm_num), zpow_natCast, zpow_natCast]
  have hlog : Int.log 2 q = 52 - n := by
    apply le_antisymm
    · have hlt : Int.log 2 q < 53 - n := by
        rw [← Int.lt_zpow_iff_log_lt (by norm_num) hpos]
        have hbound := hsplit 53
        push_cast at hbound ⊢
        rw [hbound, lt_div_iff₀ hpow]
        exact hhigh
      omega
    · rw [← Int.zpow_le_iff_le_log (by norm_num) hpos]
      have hbound := hsplit 52
      push_cast at hbound ⊢
      rw [hbound, div_le_iff₀ hpow]
      exact hlow
  have hgrid : gridExponent q = -n := by
    rw [gridExponent, abs_of_pos hpos, hlog]
    omega
  rw [roundBinary64, hgrid, zpow_neg, zpow_natCast, div_inv_eq_mul, div_eq_mul_inv]

/-! ## Integers -/

/-- An integer of at most 53 significant bits. -/
def IsExact (k : ℤ) : Prop := ∃ (m : ℤ) (e : ℕ), |m| < 2 ^ 53 ∧ k = m * 2 ^ e

theorem isExact_of_lt {k : ℤ} (h : |k| < 2 ^ 53) : IsExact k := ⟨k, 0, h, by ring⟩

theorem IsExact.lt_of_odd {k : ℤ} (h : IsExact k) (hodd : k % 2 = 1) : |k| < 2 ^ 53 := by
  obtain ⟨m, e, hm, hk⟩ := h
  cases e with
  | zero =>
      rw [hk, pow_zero, mul_one]
      exact hm
  | succ e =>
      have heven : k % 2 = 0 := by
        rw [hk, pow_succ, ← mul_assoc]
        exact Int.mul_emod_left _ 2
      omega

theorem roundBinary64_of_grid {q : ℚ} {j : ℤ} (h : q / 2 ^ gridExponent q = j) :
    roundBinary64 q = q := by
  have hpos : (0 : ℚ) < 2 ^ gridExponent q := zpow_pos (by norm_num) _
  rw [roundBinary64, h, roundHalfEven_intCast, ← h, div_mul_cancel₀ _ hpos.ne']

/-- Where the grid is coarser than the integers. -/
theorem isExact_of_roundBinary64 {k : ℤ} (h : roundBinary64 k = k) : IsExact k := by
  by_cases hsmall : |k| < 2 ^ 53
  · exact isExact_of_lt hsmall
  have hlarge : (2 : ℚ) ^ 53 ≤ |(k : ℚ)| := by exact_mod_cast not_lt.1 hsmall
  have hpos : 0 < |(k : ℚ)| := lt_of_lt_of_le (by positivity) hlarge
  have hlog : 53 ≤ Int.log 2 |(k : ℚ)| :=
    (Int.zpow_le_iff_le_log (by norm_num) hpos).1 (by exact_mod_cast hlarge)
  obtain ⟨e, he⟩ : ∃ e : ℕ, gridExponent k = e ∧ Int.log 2 |(k : ℚ)| + 1 = (53 + e : ℕ) := by
    refine ⟨(Int.log 2 |(k : ℚ)| - 52).toNat, ?_, ?_⟩
    · rw [gridExponent]
      omega
    · omega
  have hvalue : (k : ℚ) = roundHalfEven (k / 2 ^ gridExponent k) * 2 ^ e := by
    calc (k : ℚ) = roundBinary64 k := h.symm
      _ = roundHalfEven (k / 2 ^ gridExponent k) * 2 ^ gridExponent k := rfl
      _ = roundHalfEven (k / 2 ^ gridExponent k) * 2 ^ e := by rw [he.1, zpow_natCast]
  have hbound : |(k : ℚ)| < 2 ^ 53 * 2 ^ e := by
    calc |(k : ℚ)| < 2 ^ (Int.log 2 |(k : ℚ)| + 1) := Int.lt_zpow_succ_log_self (by norm_num) _
      _ = 2 ^ 53 * 2 ^ e := by rw [he.2, zpow_natCast, pow_add]
  refine ⟨roundHalfEven (k / 2 ^ gridExponent k), e, ?_, by exact_mod_cast hvalue⟩
  rw [hvalue, abs_mul, abs_of_pos (by positivity : (0 : ℚ) < 2 ^ e)] at hbound
  have hlt := lt_of_mul_lt_mul_right hbound (by positivity)
  exact_mod_cast hlt

theorem gridExponent_le {q : ℚ} {e : ℕ} (h : |q| < 2 ^ (53 + e)) : gridExponent q ≤ e := by
  have hlog : Int.log 2 |q| < 53 + e := by
    by_cases hzero : q = 0
    · rw [hzero, abs_zero, Int.log_zero_right]
      omega
    · apply (Int.lt_zpow_iff_log_lt (by norm_num) (abs_pos.2 hzero)).1
      exact_mod_cast h
  rw [gridExponent]
  omega

theorem roundBinary64_of_isExact {k : ℤ} (h : IsExact k) : roundBinary64 k = k := by
  obtain ⟨m, e, hm, hk⟩ := h
  have hvalue : (k : ℚ) = m * 2 ^ e := by exact_mod_cast hk
  have hpow : (0 : ℚ) < 2 ^ e := by positivity
  have hfine : gridExponent k ≤ e := by
    apply gridExponent_le
    have hm' : |(m : ℚ)| < 2 ^ 53 := by exact_mod_cast hm
    calc |(k : ℚ)| = |(m : ℚ)| * 2 ^ e := by rw [hvalue, abs_mul, abs_of_pos hpow]
      _ < 2 ^ 53 * 2 ^ e := mul_lt_mul_of_pos_right hm' hpow
      _ = 2 ^ (53 + e) := (pow_add 2 53 e).symm
  have hsplit : (2 : ℚ) ^ e / 2 ^ gridExponent k = 2 ^ ((e : ℤ) - gridExponent k).toNat := by
    rw [← zpow_natCast, ← zpow_natCast, ← zpow_sub₀ (by norm_num), Int.toNat_of_nonneg (by omega)]
  have hgrid : (k : ℚ) / 2 ^ gridExponent k =
      ((m * 2 ^ ((e : ℤ) - gridExponent k).toNat : ℤ) : ℚ) := by
    calc (k : ℚ) / 2 ^ gridExponent k = m * (2 ^ e / 2 ^ gridExponent k) := by
          rw [hvalue, mul_div_assoc, ← hvalue]
      _ = ((m * 2 ^ ((e : ℤ) - gridExponent k).toNat : ℤ) : ℚ) := by
          rw [hsplit]
          push_cast
          rfl
  exact roundBinary64_of_grid hgrid

/-- The integers that rounding leaves alone are those of at most 53 significant bits. -/
theorem roundBinary64_eq_self_iff (k : ℤ) : roundBinary64 k = k ↔ IsExact k :=
  ⟨isExact_of_roundBinary64, roundBinary64_of_isExact⟩

/-! ## Numbers, infinities and NaN -/

inductive Binary64 where
  | finite (q : ℚ)
  | infinite (negative : Bool)
  | nan
  deriving DecidableEq

namespace Binary64

/-- From here on a result is rounded to an infinity. -/
def overflow : ℚ := (2 ^ 54 - 1) * 2 ^ 970

/-- The smallest normal number. -/
def normal : ℚ := 1 / 2 ^ 1022

theorem two_pow_le_overflow {n : ℕ} (hn : n ≤ 970) : 2 ^ n ≤ overflow := by
  have hpow : (2 : ℚ) ^ n ≤ 2 ^ 970 := pow_le_pow_right₀ (by norm_num) hn
  calc (2 : ℚ) ^ n ≤ 1 * 2 ^ 970 := by rwa [one_mul]
    _ ≤ overflow := by
        rw [overflow]
        exact mul_le_mul_of_nonneg_right (by norm_num) (by positivity)

theorem normal_le_two_pow {n : ℕ} (hn : n ≤ 1022) : normal ≤ 1 / 2 ^ n :=
  one_div_le_one_div_of_le (by positivity) (pow_le_pow_right₀ (by norm_num) hn)

/-- The correctly rounded result of an operation whose exact result is `q`. -/
def ofRat (q : ℚ) : Binary64 :=
  if |q| < overflow then .finite (roundBinary64 q) else .infinite (decide (q < 0))

theorem ofRat_of_lt {q : ℚ} {n : ℕ} (hn : n ≤ 970) (h : |q| < 2 ^ n) :
    ofRat q = .finite (roundBinary64 q) :=
  if_pos (h.trans_le (two_pow_le_overflow hn))

/-- The integers of at most 53 significant bits are numbers of the format. -/
theorem ofRat_intCast_iff {k : ℤ} {n : ℕ} (hn : n ≤ 970) (h : |k| < 2 ^ n) :
    ofRat k = .finite k ↔ IsExact k := by
  rw [ofRat_of_lt hn (by exact_mod_cast h), finite.injEq, roundBinary64_eq_self_iff]

/-- Multiplication by a positive constant. -/
def scale (c : ℚ) : Binary64 → Binary64
  | .finite q => ofRat (q * c)
  | .infinite negative => .infinite negative
  | .nan => .nan

end Binary64

/-- The integer part, toward zero. -/
def truncate (q : ℚ) : ℤ := if 0 ≤ q then ⌊q⌋ else ⌈q⌉

theorem abs_truncate_le (q : ℚ) : |(truncate q : ℚ)| ≤ |q| := by
  unfold truncate
  split_ifs with hq
  · have hfloor : (0 : ℤ) ≤ ⌊q⌋ := Int.floor_nonneg.2 hq
    have hfloor' : (0 : ℚ) ≤ ⌊q⌋ := by exact_mod_cast hfloor
    rw [abs_of_nonneg hq, abs_of_nonneg hfloor']
    exact Int.floor_le q
  · have hneg : q ≤ 0 := (not_le.1 hq).le
    have hceil : ⌈q⌉ ≤ (0 : ℤ) := Int.ceil_le.2 (by simpa using hneg)
    have hceil' : (⌈q⌉ : ℚ) ≤ 0 := by exact_mod_cast hceil
    rw [abs_of_nonpos hneg, abs_of_nonpos hceil']
    linarith [Int.le_ceil q]

theorem abs_le_abs_truncate_add_one (q : ℚ) : |q| ≤ |(truncate q : ℚ)| + 1 := by
  unfold truncate
  split_ifs with hq
  · rw [abs_of_nonneg hq]
    linarith [Int.lt_floor_add_one q, le_abs_self (⌊q⌋ : ℚ)]
  · rw [abs_of_neg (not_le.1 hq)]
    linarith [Int.ceil_lt_add_one q, neg_abs_le (⌈q⌉ : ℚ)]

end SSize.Lib

import SSize.Lib.Binary64

/-!
# Hundredths in binary64

A whole number `n` is divided by a hundred, rounded, multiplied by a hundred, rounded
again and truncated. The first rounding is off by at most half a step, and a hundred
times that is at most 48 hundredths of a step of the quotient. What the second rounding
makes of it is a matter of how long a step of the product is: 64 of these, or 128.
-/

namespace SSize.Lib

/-- `n` hundredths of a whole, as a double, and back to whole hundredths. -/
def hundredthsAndBack (n : ℕ) : ℤ := truncate (roundBinary64 (roundBinary64 (n / 100) * 100))

/-- The quotient is rounded down so far that the product rounds down with it. -/
def FallsShort (n : ℕ) : Prop :=
  25 * 2 ^ Nat.log 2 n ≤ 16 * n ∧ 32 < n * 2 ^ (58 - Nat.log 2 n) % 100 ∧
    n * 2 ^ (58 - Nat.log 2 n) % 100 < 50

instance (n : ℕ) : Decidable (FallsShort n) := inferInstanceAs (Decidable (_ ∧ _))

theorem scaled_mod_four (n : ℕ) {e : ℕ} (he : 2 ≤ e) : n * 2 ^ e % 4 = 0 := by
  obtain ⟨k, rfl⟩ := Nat.exists_eq_add_of_le he
  rw [pow_add, ← mul_assoc, mul_right_comm]
  exact Nat.mul_mod_left _ 4

/-- The first rounding. A multiple of four is never half way between two hundreds. -/
theorem roundBinary64_hundredth {n e : ℕ} (he : 2 ≤ e) (he' : e ≤ 1074)
    (hlow : 100 * 2 ^ 52 ≤ n * 2 ^ e) (hhigh : n * 2 ^ e < 100 * 2 ^ 53) :
    roundBinary64 (n / 100) = (((n * 2 ^ e + 50) / 100 : ℕ) : ℚ) / 2 ^ e := by
  have hscale : (n / 100 : ℚ) * 2 ^ e = ((n * 2 ^ e : ℕ) : ℚ) / 100 := by
    push_cast
    ring
  have hfour := scaled_mod_four n he
  rw [roundBinary64_scaled he', hscale]
  · congr 1
    have hround : roundHalfEven (((n * 2 ^ e : ℕ) : ℚ) / 100) =
        (((n * 2 ^ e + 50) / 100 : ℕ) : ℤ) := by
      generalize n * 2 ^ e = t at hfour ⊢
      have hupper : t < 100 * ((t + 50) / 100) + 50 := by omega
      have hlower : 100 * ((t + 50) / 100) < t + 50 := by omega
      have hupper' : (t : ℚ) < 100 * (((t + 50) / 100 : ℕ) : ℚ) + 50 := by exact_mod_cast hupper
      have hlower' : 100 * (((t + 50) / 100 : ℕ) : ℚ) < t + 50 := by exact_mod_cast hlower
      apply roundHalfEven_near
      rw [Int.cast_natCast, abs_lt]
      constructor <;> linarith
    rw [hround, Int.cast_natCast]
  · rw [hscale, le_div_iff₀ (by norm_num)]
    have hlow' : (100 * 2 ^ 52 : ℚ) ≤ ((n * 2 ^ e : ℕ) : ℚ) := by exact_mod_cast hlow
    linarith
  · rw [hscale, div_lt_iff₀ (by norm_num)]
    have hhigh' : ((n * 2 ^ e : ℕ) : ℚ) < 100 * 2 ^ 53 := by exact_mod_cast hhigh
    linarith

/-- The second rounding, in a binade where the product is `r` hundredths of a step of
the quotient off, `2 ^ g` of which are a step of the product. -/
theorem roundBinary64_product {n p g m : ℕ} {r : ℤ} (hp : p ≤ 52)
    (hm : (100 * m : ℤ) = n * 2 ^ (52 - p + g) + r)
    (hlow : 2 ^ p * 2 ^ (52 - p + g) ≤ 100 * m) (hhigh : 100 * m < 2 ^ (p + 1) * 2 ^ (52 - p + g)) :
    roundBinary64 ((m : ℚ) / 2 ^ (52 - p + g) * 100) =
      roundHalfEven ((n * 2 ^ (52 - p) : ℕ) + r / 2 ^ g) / 2 ^ (52 - p) := by
  have hpow : (0 : ℚ) < 2 ^ (52 - p + g) := by positivity
  have hbinade : (2 : ℚ) ^ p * 2 ^ (52 - p) = 2 ^ 52 := by
    rw [← pow_add]
    congr 1
    omega
  have hscale : (m : ℚ) / 2 ^ (52 - p + g) * 100 * 2 ^ (52 - p) =
      (100 * m : ℕ) / 2 ^ (52 - p + g) * 2 ^ (52 - p) := by
    push_cast
    ring
  have hexact : (m : ℚ) / 2 ^ (52 - p + g) * 100 * 2 ^ (52 - p) =
      (n * 2 ^ (52 - p) : ℕ) + r / 2 ^ g := by
    have hm' : (100 * m : ℚ) = n * 2 ^ (52 - p + g) + r := by exact_mod_cast hm
    have hdiv : (m : ℚ) / 2 ^ (52 - p + g) * 100 * 2 ^ (52 - p) = (100 * m) / 2 ^ g := by
      rw [pow_add]
      field_simp
    rw [hdiv, hm', pow_add]
    push_cast
    field_simp
  have hlow' : (2 ^ p * 2 ^ (52 - p + g) : ℚ) ≤ (100 * m : ℕ) := by exact_mod_cast hlow
  have hhigh' : ((100 * m : ℕ) : ℚ) < 2 ^ (p + 1) * 2 ^ (52 - p + g) := by exact_mod_cast hhigh
  rw [roundBinary64_scaled (n := 52 - p) (by omega), hexact]
  · rw [hscale]
    calc (2 : ℚ) ^ 52 = 2 ^ p * 2 ^ (52 - p) := hbinade.symm
      _ ≤ (100 * m : ℕ) / 2 ^ (52 - p + g) * 2 ^ (52 - p) := by
          apply mul_le_mul_of_nonneg_right _ (by positivity)
          rwa [le_div_iff₀ hpow]
  · rw [hscale]
    calc ((100 * m : ℕ) : ℚ) / 2 ^ (52 - p + g) * 2 ^ (52 - p)
        < 2 ^ (p + 1) * 2 ^ (52 - p) := by
          apply mul_lt_mul_of_pos_right _ (by positivity)
          rwa [div_lt_iff₀ hpow]
      _ = 2 ^ 53 := by
          rw [pow_succ, mul_right_comm, hbinade]
          norm_num

/-- How far `m` hundreds are from `t`, where `m` is the rounded quotient. -/
def offBy (t : ℕ) : ℤ := 100 * ((t + 50) / 100 : ℕ) - t

theorem offBy_bounds {t : ℕ} (h : t % 4 = 0) : -48 ≤ offBy t ∧ offBy t ≤ 48 := by
  unfold offBy
  omega

theorem offBy_lt_iff {t : ℕ} : offBy t < -32 ↔ 32 < t % 100 ∧ t % 100 < 50 := by
  unfold offBy
  omega

/-- Both roundings, in the binade of `n`. -/
theorem hundredthsAndBack_eq {n p g : ℕ} (hp : p ≤ 46) (hg : 6 ≤ g) (hg' : g ≤ 7)
    (hn : 2 ^ p ≤ n) (hn' : n < 2 ^ (p + 1)) (hlow : 100 * 2 ^ 52 ≤ n * 2 ^ (52 - p + g))
    (hhigh : n * 2 ^ (52 - p + g) < 100 * 2 ^ 53)
    (hpower : n = 2 ^ p → n * 2 ^ (52 - p + g) = 2 ^ 59) :
    hundredthsAndBack n =
      truncate (roundHalfEven ((n * 2 ^ (52 - p) : ℕ) + offBy (n * 2 ^ (52 - p + g)) / 2 ^ g) /
        2 ^ (52 - p)) := by
  have hfour := scaled_mod_four n (show 2 ≤ 52 - p + g by omega)
  have hbounds := offBy_bounds hfour
  have hstep : 48 < 2 ^ (52 - p + g) :=
    lt_of_lt_of_le (by norm_num : 48 < 2 ^ 6) (Nat.pow_le_pow_right (by norm_num) (by omega))
  have hoff : (100 * ((n * 2 ^ (52 - p + g) + 50) / 100 : ℕ) : ℤ) =
      n * 2 ^ (52 - p + g) + offBy (n * 2 ^ (52 - p + g)) := by
    unfold offBy
    push_cast
    ring
  have hupper : n * 2 ^ (52 - p + g) + 2 ^ (52 - p + g) ≤ 2 ^ (p + 1) * 2 ^ (52 - p + g) := by
    rw [← Nat.succ_mul]
    exact Nat.mul_le_mul_right _ hn'
  have hlower : 2 ^ p * 2 ^ (52 - p + g) ≤ 100 * ((n * 2 ^ (52 - p + g) + 50) / 100) := by
    by_cases heq : n = 2 ^ p
    · have ht := hpower heq
      rw [← heq, ht]
      norm_num
    · have hlt : 2 ^ p + 1 ≤ n := by omega
      have hmul : 2 ^ p * 2 ^ (52 - p + g) + 2 ^ (52 - p + g) ≤ n * 2 ^ (52 - p + g) := by
        rw [← Nat.succ_mul]
        exact Nat.mul_le_mul_right _ hlt
      omega
  rw [hundredthsAndBack, roundBinary64_hundredth (by omega) (by omega) hlow hhigh,
    roundBinary64_product (by omega) hoff hlower (by omega)]

theorem truncate_of_nonneg {q : ℚ} {k : ℤ} (hk : 0 ≤ k) (hlow : k ≤ q) (hhigh : q < k + 1) :
    truncate q = k := by
  have hzero : (0 : ℚ) ≤ k := by exact_mod_cast hk
  rw [truncate, if_pos (by linarith)]
  exact Int.floor_eq_iff.2 ⟨hlow, hhigh⟩

/-- A step of the grid more or less, where the steps are parts of one. -/
theorem truncate_step {n w : ℕ} (hn : 1 ≤ n) (hw : 1 ≤ w) (d : ℤ) (hd : d = 0 ∨ d = 1 ∨ d = -1) :
    truncate (((n * 2 ^ w : ℕ) + d : ℚ) / 2 ^ w) = if d = -1 then (n : ℤ) - 1 else n := by
  have hpow : (2 : ℚ) ≤ 2 ^ w := by
    calc (2 : ℚ) = 2 ^ 1 := by norm_num
      _ ≤ 2 ^ w := pow_le_pow_right₀ (by norm_num) hw
  have hpos : (0 : ℚ) < 2 ^ w := by linarith
  have hsplit : ((n * 2 ^ w : ℕ) + d : ℚ) / 2 ^ w = n + d / 2 ^ w := by
    push_cast
    field_simp
  have hsmall : (1 : ℚ) / 2 ^ w < 1 := by
    rw [div_lt_one hpos]
    linarith
  have hstep : (0 : ℚ) < 1 / 2 ^ w := by positivity
  rw [hsplit]
  rcases hd with rfl | rfl | rfl
  · rw [if_neg (by omega)]
    apply truncate_of_nonneg (by omega) <;> simp
  · rw [if_neg (by omega)]
    apply truncate_of_nonneg (by omega) <;> push_cast <;> linarith
  · rw [if_pos rfl]
    apply truncate_of_nonneg (by omega) <;> push_cast <;> rw [neg_div] <;> linarith

/-- What the second rounding makes of an error of `r` parts out of `2 ^ g`. -/
def roundedOff (g : ℕ) (r : ℤ) : ℤ := if 2 * |r| ≤ 2 ^ g then 0 else if r < 0 then -1 else 1

theorem roundHalfEven_offBy {k : ℤ} (heven : k % 2 = 0) {r : ℤ} {g : ℕ} (hg : 6 ≤ g)
    (hlow : -48 ≤ r) (hhigh : r ≤ 48) :
    roundHalfEven (k + r / 2 ^ g) = k + roundedOff g r := by
  have hpow : (64 : ℚ) ≤ 2 ^ g := by
    calc (64 : ℚ) = 2 ^ 6 := by norm_num
      _ ≤ 2 ^ g := pow_le_pow_right₀ (by norm_num) hg
  have hpos : (0 : ℚ) < 2 ^ g := by linarith
  have hlow' : (-48 : ℚ) ≤ r := by exact_mod_cast hlow
  have hhigh' : (r : ℚ) ≤ 48 := by exact_mod_cast hhigh
  by_cases hhalf : 2 * |r| ≤ 2 ^ g
  · rw [roundedOff, if_pos hhalf, add_zero]
    apply roundHalfEven_even heven
    have hhalf' : 2 * |(r : ℚ)| ≤ 2 ^ g := by exact_mod_cast hhalf
    rw [add_sub_cancel_left, abs_div, abs_of_pos hpos, div_le_div_iff₀ hpos (by norm_num)]
    linarith
  · have hfar : (2 : ℚ) ^ g < 2 * |(r : ℚ)| := by exact_mod_cast not_le.1 hhalf
    rw [roundedOff, if_neg hhalf]
    by_cases hneg : r < 0
    · have hneg' : (r : ℚ) < 0 := by exact_mod_cast hneg
      rw [abs_of_neg hneg'] at hfar
      have hbelow : (r : ℚ) / 2 ^ g < -1 / 2 := by
        rw [div_lt_iff₀ hpos]
        linarith
      have habove : -1 < (r : ℚ) / 2 ^ g := by
        rw [lt_div_iff₀ hpos]
        linarith
      rw [if_pos hneg]
      apply roundHalfEven_near
      push_cast
      rw [abs_lt]
      constructor <;> linarith
    · have hpos' : (0 : ℚ) ≤ r := by exact_mod_cast not_lt.1 hneg
      rw [abs_of_nonneg hpos'] at hfar
      have habove : 1 / 2 < (r : ℚ) / 2 ^ g := by
        rw [lt_div_iff₀ hpos]
        linarith
      have hbelow : (r : ℚ) / 2 ^ g < 1 := by
        rw [div_lt_iff₀ hpos]
        linarith
      rw [if_neg hneg]
      apply roundHalfEven_near
      push_cast
      rw [abs_lt]
      constructor <;> linarith

/-- Down it rounds only where 64 parts are a step. -/
theorem roundedOff_eq_neg_one_iff {g : ℕ} (hg : 6 ≤ g) (hg' : g ≤ 7) {r : ℤ} (hlow : -48 ≤ r) :
    roundedOff g r = -1 ↔ g = 6 ∧ r < -32 := by
  unfold roundedOff
  constructor
  · intro h
    split_ifs at h with hhalf hneg
    rw [abs_of_neg hneg] at hhalf
    have hcases : g = 6 ∨ g = 7 := by omega
    rcases hcases with rfl | rfl <;> omega
  · rintro ⟨rfl, hr⟩
    rw [abs_of_neg (by omega), if_neg (by omega), if_pos (by omega)]

/-- Nothing is lost exactly where the product is not rounded down. -/
theorem hundredthsAndBack_eq_self_iff {n p g : ℕ} (hp : p ≤ 46) (hg : 6 ≤ g) (hg' : g ≤ 7)
    (hn : 2 ^ p ≤ n) (hn' : n < 2 ^ (p + 1)) (hlow : 100 * 2 ^ 52 ≤ n * 2 ^ (52 - p + g))
    (hhigh : n * 2 ^ (52 - p + g) < 100 * 2 ^ 53)
    (hpower : n = 2 ^ p → n * 2 ^ (52 - p + g) = 2 ^ 59) :
    hundredthsAndBack n = n ↔ ¬ (g = 6 ∧ offBy (n * 2 ^ (52 - p + g)) < -32) := by
  have hpos : 1 ≤ n := Nat.one_le_two_pow.trans hn
  have hbounds := offBy_bounds (scaled_mod_four n (show 2 ≤ 52 - p + g by omega))
  have heven : ((n * 2 ^ (52 - p) : ℕ) : ℤ) % 2 = 0 := by
    have hsplit : 52 - p = (51 - p) + 1 := by omega
    rw [hsplit, pow_succ, ← mul_assoc]
    omega
  have hstep : ∀ g r, roundedOff g r = 0 ∨ roundedOff g r = 1 ∨ roundedOff g r = -1 := by
    intro g r
    unfold roundedOff
    split_ifs <;> simp
  rw [hundredthsAndBack_eq hp hg hg' hn hn' hlow hhigh hpower, ← roundedOff_eq_neg_one_iff hg hg'
    hbounds.1]
  generalize offBy (n * 2 ^ (52 - p + g)) = r at hbounds ⊢
  have hround := roundHalfEven_offBy heven hg hbounds.1 hbounds.2
  have htrunc := truncate_step hpos (show 1 ≤ 52 - p by omega) (roundedOff g r) (hstep g r)
  rw [Int.cast_natCast] at hround
  rw [hround, Int.cast_add, Int.cast_natCast, htrunc]
  split_ifs with hdown
  · simp [hdown]
  · simp [hdown]

/-- A number of hundredths below `2 ^ 47` comes back exactly when it does not fall
short. -/
theorem hundredthsAndBack_iff {n : ℕ} (h : n < 2 ^ 47) :
    hundredthsAndBack n = n ↔ ¬ FallsShort n := by
  by_cases hzero : n = 0
  · subst hzero
    have hback : hundredthsAndBack 0 = 0 := by
      simp [hundredthsAndBack, roundBinary64_zero, truncate]
    exact iff_of_true hback (by decide)
  · have hn : 2 ^ Nat.log 2 n ≤ n := Nat.pow_log_le_self 2 hzero
    have hn' : n < 2 ^ (Nat.log 2 n + 1) := Nat.lt_pow_succ_log_self (by norm_num) n
    have hp : Nat.log 2 n ≤ 46 := by
      have hlog := Nat.log_lt_of_lt_pow hzero h
      omega
    unfold FallsShort
    generalize Nat.log 2 n = p at hn hn' hp ⊢
    by_cases hlong : 25 * 2 ^ p ≤ 16 * n
    · -- A step of the product is 64 parts.
      have he : 52 - p + 6 = 58 - p := by omega
      have hbinade : 2 ^ p * 2 ^ (58 - p) = 2 ^ 58 := by
        rw [← pow_add]
        congr 1
        omega
      have hmul : 25 * 2 ^ p * 2 ^ (58 - p) ≤ 16 * n * 2 ^ (58 - p) :=
        Nat.mul_le_mul_right _ hlong
      have hmul' : n * 2 ^ (58 - p) < 2 ^ (p + 1) * 2 ^ (58 - p) :=
        Nat.mul_lt_mul_of_pos_right hn' (by positivity)
      rw [mul_assoc, mul_assoc, hbinade] at hmul
      rw [pow_succ, mul_right_comm, hbinade] at hmul'
      rw [hundredthsAndBack_eq_self_iff hp (le_refl 6) (by norm_num) hn hn' (by rw [he]; omega)
        (by rw [he]; omega) (by intro heq; omega), he, offBy_lt_iff]
      simp [hlong]
    · have he : 52 - p + 7 = 59 - p := by omega
      have hbinade : 2 ^ p * 2 ^ (59 - p) = 2 ^ 59 := by
        rw [← pow_add]
        congr 1
        omega
      have hmul : 16 * n * 2 ^ (59 - p) < 25 * 2 ^ p * 2 ^ (59 - p) :=
        Nat.mul_lt_mul_of_pos_right (not_le.1 hlong) (by positivity)
      have hmul' : 2 ^ p * 2 ^ (59 - p) ≤ n * 2 ^ (59 - p) := Nat.mul_le_mul_right _ hn
      rw [mul_assoc, mul_assoc, hbinade] at hmul
      rw [hbinade] at hmul'
      rw [hundredthsAndBack_eq_self_iff hp (by norm_num) (le_refl 7) hn hn' (by rw [he]; omega)
        (by rw [he]; omega) (by intro heq; rw [he, ← hbinade, heq])]
      simp [hlong]

end SSize.Lib

import Mathlib.Tactic.NormNum
import SchemaAlgebra.Number.Decimal
import SchemaAlgebra.Proofs.Rounding

/-!
# Numerals read back

A decimal is read to the double nearest to its value, so decimals of one value are read
alike. The shortest decimal of a double and every text made of it read back to the double.
-/
namespace SchemaAlgebra.Decimal

def value (d : Decimal) : ℚ := d.coefficient * (10 : ℚ) ^ d.exponent

/-- The position of the leading digit, one more than its power of ten. -/
def top (d : Decimal) : ℤ := d.exponent + digitCount d.coefficient

theorem digitCount_le_iff {n k : Nat} (hn : 0 < n) : digitCount n ≤ k ↔ n < 10 ^ k := by
  rw [digitCount, if_neg hn.ne']
  cases k with
  | zero =>
    have := Nat.length_toDigits_pos (b := 10) (n := n)
    simp only [Nat.pow_zero]
    omega
  | succ k => exact Nat.length_toDigits_le_iff (by norm_num) (by omega)

theorem digitCount_eq_iff {n k : Nat} (hn : 0 < n) :
    digitCount n = k + 1 ↔ 10 ^ k ≤ n ∧ n < 10 ^ (k + 1) := by
  have lower := digitCount_le_iff (k := k) hn
  have upper := digitCount_le_iff (k := k + 1) hn
  omega

theorem digitCount_pos {n : Nat} (hn : 0 < n) : 0 < digitCount n := by
  have := digitCount_le_iff (k := 0) hn
  simp only [Nat.pow_zero] at this
  omega

theorem digitCount_mul_pow {n : Nat} (hn : 0 < n) (k : Nat) :
    digitCount (n * 10 ^ k) = digitCount n + k := by
  obtain ⟨m, hm⟩ : ∃ m, digitCount n = m + 1 :=
    ⟨digitCount n - 1, by have := digitCount_pos hn; omega⟩
  obtain ⟨lower, upper⟩ := (digitCount_eq_iff hn).mp hm
  rw [hm, show m + 1 + k = (m + k) + 1 by omega, digitCount_eq_iff (by positivity)]
  constructor
  · rw [Nat.pow_add]; exact Nat.mul_le_mul_right _ lower
  · rw [show m + k + 1 = (m + 1) + k by omega, Nat.pow_add]
    exact Nat.mul_lt_mul_of_pos_right upper (by positivity)

/-- The value lies between the powers of ten around its leading digit. -/
theorem value_bounds {d : Decimal} (hd : 0 < d.coefficient) :
    (10 : ℚ) ^ (d.top - 1) ≤ d.value ∧ d.value < (10 : ℚ) ^ d.top := by
  obtain ⟨m, hm⟩ : ∃ m, digitCount d.coefficient = m + 1 :=
    ⟨digitCount d.coefficient - 1, by have := digitCount_pos hd; omega⟩
  obtain ⟨lower, upper⟩ := (digitCount_eq_iff hd).mp hm
  have lower' : (10 : ℚ) ^ (m : ℤ) ≤ d.coefficient := by exact_mod_cast lower
  have upper' : (d.coefficient : ℚ) < 10 ^ ((m : ℤ) + 1) := by exact_mod_cast upper
  have scale : (0 : ℚ) < 10 ^ d.exponent := by positivity
  simp only [top, value, hm, Nat.cast_add, Nat.cast_one]
  constructor
  · rw [show d.exponent + ((m : ℤ) + 1) - 1 = m + d.exponent by ring, zpow_add₀ (by norm_num)]
    exact mul_le_mul_of_nonneg_right lower' scale.le
  · rw [show d.exponent + ((m : ℤ) + 1) =
      (m + 1) + d.exponent by ring, zpow_add₀ (by norm_num)]
    exact mul_lt_mul_of_pos_right upper' scale

/-- A decimal of moderate size is read to the double nearest to its value. -/
theorem toBinary64_eq_ofRatio {d : Decimal} {a b : Nat} (hb : 0 < b)
    (hvalue : d.value = (a : ℚ) / b) (lower : -400 ≤ d.top) (upper : d.top ≤ 400) :
    d.toBinary64 = .ofRatio d.negative a b := by
  obtain ⟨negative, c, e⟩ := d
  simp only [value, top] at hvalue lower upper
  by_cases hc : c = 0
  · subst hc
    have ha : a = 0 := by
      have hbq : (b : ℚ) ≠ 0 := by exact_mod_cast hb.ne'
      have : (a : ℚ) / b = 0 := by rw [← hvalue]; simp
      simpa [hbq] using this
    simp [toBinary64, ha, Binary64.ofRatio]
  · have tiny : ¬(c = 0 ∨ e + (digitCount c : ℤ) < -400) := by omega
    have huge : ¬400 < e + (digitCount c : ℤ) := by omega
    simp only [toBinary64, Bool.or_eq_true, decide_eq_true_eq, if_neg tiny, if_neg huge]
    cases e with
    | ofNat k =>
      apply Binary64.ofRatio_eq_of_ratio _ one_pos hb
      rw [← hvalue]
      simp
    | negSucc k =>
      apply Binary64.ofRatio_eq_of_ratio _ (by simp) hb
      rw [← hvalue]
      simp [zpow_negSucc, div_eq_mul_inv]

theorem top_mul_pow {c : Nat} (hc : 0 < c) (negative : Bool) (k : Nat) (e : ℤ) :
    top ⟨negative, c * 10 ^ k, e⟩ = top ⟨negative, c, e + k⟩ := by
  simp only [top, digitCount_mul_pow hc, Nat.cast_add]
  ring

theorem toBinary64_mul_pow (negative : Bool) (c k : Nat) (e : ℤ) :
    toBinary64 ⟨negative, c * 10 ^ k, e⟩ = toBinary64 ⟨negative, c, e + k⟩ := by
  rcases Nat.eq_zero_or_pos c with rfl | hc
  · simp [toBinary64]
  have same_top := top_mul_pow hc negative k e
  by_cases moderate : -400 ≤ top ⟨negative, c, e + k⟩ ∧ top ⟨negative, c, e + k⟩ ≤ 400
  · have value_eq : value ⟨negative, c * 10 ^ k, e⟩ = value ⟨negative, c, e + k⟩ := by
      simp only [value, Nat.cast_mul, Nat.cast_pow, Nat.cast_ofNat]
      rw [zpow_add₀ (by norm_num), zpow_natCast]
      ring
    obtain ⟨a, b, hb, hab⟩ :
        ∃ a b : Nat, 0 < b ∧ value ⟨negative, c, e + k⟩ = (a : ℚ) / b := by
      have nonneg : 0 ≤ value ⟨negative, c, e + k⟩ := by unfold value; positivity
      refine ⟨(value ⟨negative, c, e + k⟩).num.toNat, (value ⟨negative, c, e + k⟩).den,
        Rat.den_pos _, ?_⟩
      rw [show (((value ⟨negative, c, e + k⟩).num.toNat : Nat) : ℚ) =
        ((value ⟨negative, c, e + k⟩).num : ℚ) by
          exact_mod_cast Int.toNat_of_nonneg (Rat.num_nonneg.mpr nonneg)]
      exact (Rat.num_div_den _).symm
    rw [toBinary64_eq_ofRatio hb hab moderate.1 moderate.2,
      toBinary64_eq_ofRatio hb (value_eq.trans hab) (same_top ▸ moderate.1)
        (same_top ▸ moderate.2)]
  · simp only [top] at same_top moderate
    have hck : c * 10 ^ k ≠ 0 := by positivity
    simp only [toBinary64, hck, hc.ne', same_top, decide_false, Bool.false_or, decide_eq_true_eq]
    by_cases tiny : e + (k : ℤ) + (digitCount c : ℤ) < -400
    · rw [if_pos tiny, if_pos tiny]
    · rw [if_neg tiny, if_neg tiny, if_pos (by omega), if_pos (by omega)]

theorem trim_toBinary64 (fuel : Nat) (d : Decimal) : (trim fuel d).toBinary64 = d.toBinary64 := by
  induction fuel generalizing d with
  | zero => rfl
  | succ fuel ih =>
    rw [trim]
    split_ifs with h
    · have exact : d.coefficient = d.coefficient / 10 * 10 ^ 1 := by omega
      calc (trim fuel ⟨d.negative, d.coefficient / 10, d.exponent + 1⟩).toBinary64
          = toBinary64 ⟨d.negative, d.coefficient / 10, d.exponent + (1 : ℕ)⟩ := ih _
        _ = toBinary64 ⟨d.negative, d.coefficient / 10 * 10 ^ 1, d.exponent⟩ :=
            (toBinary64_mul_pow _ _ 1 _).symm
        _ = d.toBinary64 := by rw [← exact]
    · rfl

theorem trim_negative (fuel : Nat) (d : Decimal) : (trim fuel d).negative = d.negative := by
  induction fuel generalizing d with
  | zero => rfl
  | succ fuel ih =>
    rw [trim]
    split_ifs
    · exact ih _
    · rfl

theorem neighbour_toBinary64 {tie : Tie} {x : Binary64} {num den : Nat} {p : ℤ} {d : Decimal}
    (h : neighbour? tie x num den p = some d) : d.toBinary64 = x ∧ d.negative = x.negative := by
  unfold neighbour? at h
  split at h
  simp only at h
  split at h
  · cases h
  · rename_i below above
    cases h
    exact ⟨of_decide_eq_true below, rfl⟩
  · rename_i below above
    cases h
    exact ⟨of_decide_eq_true above, rfl⟩
  · rename_i below above
    have choice : d.toBinary64 = x ∧ d.negative = x.negative := by
      split at h <;> (try split_ifs at h) <;> cases h <;>
        first
        | exact ⟨of_decide_eq_true below, rfl⟩
        | exact ⟨of_decide_eq_true above, rfl⟩
    exact choice

theorem fraction_den (x : Binary64) : x.fraction.2 = 2 ^ x.fraction.2.log2 := by
  unfold Binary64.fraction
  split
  · rfl
  · simp [Nat.shiftLeft_eq, Nat.log2_two_pow]

theorem exponent_lt {x : Binary64} (h : x.isFinite = true) : x.exponent < 972 := by
  have finite : x.magnitude < Binary64.infinityBits := by simpa [Binary64.isFinite] using h
  simp only [Binary64.infinityBits, Nat.pow_eq] at finite
  simp only [Binary64.exponent, Nat.pow_eq]
  omega

theorem exponent_ge (x : Binary64) : -1074 ≤ x.exponent := by
  simp only [Binary64.exponent]
  omega

theorem ten_pow_lt_two_pow : (10 : ℚ) ^ (-401 : ℤ) < 2 ^ (-1074 : ℤ) := by
  have large : (2 : ℕ) ^ 1074 < 10 ^ 401 := by decide +kernel
  have large' : (2 : ℚ) ^ 1074 < 10 ^ 401 := by exact_mod_cast large
  rw [zpow_neg, zpow_neg]
  exact (inv_lt_inv₀ (by positivity) (by positivity)).mpr large'

theorem two_pow_lt_ten_pow : (2 : ℚ) ^ (53 : ℤ) * 2 ^ (972 : ℤ) < 10 ^ (400 : ℤ) := by
  have large : (2 : ℕ) ^ 53 * 2 ^ 972 < 10 ^ 400 := by decide +kernel
  have large' : (2 : ℚ) ^ 53 * 2 ^ 972 < 10 ^ 400 := by exact_mod_cast large
  exact large'

/-- A decimal with the value of a finite double other than zero is of moderate size. -/
theorem top_bounds {x : Binary64} (h : x.isFinite = true) (hz : x.isZero = false) {d : Decimal}
    (hvalue : d.value = (x.fraction.1 : ℚ) / x.fraction.2) :
    -400 ≤ d.top ∧ d.top ≤ 400 := by
  obtain ⟨pos, small, -⟩ := Binary64.significand_bounds x hz
  have value_pos := Binary64.fraction_value_pos hz
  rw [Binary64.fraction_value] at hvalue
  have coefficient_pos : 0 < d.coefficient := by
    rcases Nat.eq_zero_or_pos d.coefficient with h0 | hd
    · rw [← hvalue, value, h0, Nat.cast_zero, zero_mul] at value_pos
      exact absurd value_pos (lt_irrefl 0)
    · exact hd
  obtain ⟨lower, upper⟩ := value_bounds coefficient_pos
  rw [hvalue] at lower upper
  have pos' : (1 : ℚ) ≤ x.significand := by exact_mod_cast pos
  have small' : (x.significand : ℚ) < 2 ^ (53 : ℤ) := by exact_mod_cast small
  have scale : (0 : ℚ) < 2 ^ x.exponent := by positivity
  have least : (10 : ℚ) ^ (-401 : ℤ) < x.significand * 2 ^ x.exponent := by
    calc (10 : ℚ) ^ (-401 : ℤ) < 2 ^ (-1074 : ℤ) := ten_pow_lt_two_pow
      _ ≤ 2 ^ x.exponent := zpow_le_zpow_right₀ (by norm_num) (exponent_ge x)
      _ ≤ x.significand * 2 ^ x.exponent := le_mul_of_one_le_left scale.le pos'
  have greatest : (x.significand : ℚ) * 2 ^ x.exponent < 10 ^ (400 : ℤ) := by
    calc (x.significand : ℚ) * 2 ^ x.exponent < 2 ^ (53 : ℤ) * 2 ^ x.exponent :=
          mul_lt_mul_of_pos_right small' scale
      _ ≤ 2 ^ (53 : ℤ) * 2 ^ (972 : ℤ) := by
          gcongr
          · norm_num
          · exact (exponent_lt h).le
      _ < 10 ^ (400 : ℤ) := two_pow_lt_ten_pow
  have above := (zpow_lt_zpow_iff_right₀ (by norm_num)).mp (least.trans upper)
  have below := (zpow_lt_zpow_iff_right₀ (by norm_num)).mp (lower.trans_lt greatest)
  omega

/-- A decimal with the value and the sign of a finite double reads back to it. -/
theorem toBinary64_of_value {x : Binary64} (h : x.isFinite = true) {d : Decimal}
    (hsign : d.negative = x.negative) (hvalue : d.value = (x.fraction.1 : ℚ) / x.fraction.2) :
    d.toBinary64 = x := by
  cases hz : x.isZero with
  | true =>
    have zero := Binary64.ofRatio_fraction h
    rw [Binary64.ofRatio, if_pos (Binary64.numerator_eq_zero hz), ← hsign] at zero
    have coefficient_zero : d.coefficient = 0 := by
      have scale : (10 : ℚ) ^ d.exponent ≠ 0 := zpow_ne_zero _ (by norm_num)
      rw [value, Binary64.numerator_eq_zero hz, Nat.cast_zero, zero_div] at hvalue
      exact_mod_cast (mul_eq_zero.mp hvalue).resolve_right scale
    simpa [toBinary64, coefficient_zero] using zero
  | false =>
    obtain ⟨lower, upper⟩ := top_bounds h hz hvalue
    rw [toBinary64_eq_ofRatio (Binary64.fraction_pos x) hvalue lower upper, hsign]
    exact Binary64.ofRatio_fraction h

theorem expansion_value (x : Binary64) (negative : Bool) :
    value ⟨negative, x.fraction.1 * Nat.pow 5 x.fraction.2.log2, -(x.fraction.2.log2 : ℤ)⟩ =
      (x.fraction.1 : ℚ) / x.fraction.2 := by
  have den : (x.fraction.2 : ℚ) = 2 ^ x.fraction.2.log2 := by exact_mod_cast fraction_den x
  rw [den]
  simp only [value, Nat.pow_eq, Nat.cast_mul, Nat.cast_pow, Nat.cast_ofNat, zpow_neg, zpow_natCast]
  rw [show (10 : ℚ) = 5 * 2 by norm_num, mul_pow]
  field_simp

theorem shortest_toBinary64 (tie : Tie) {x : Binary64} (h : x.isFinite = true) :
    (shortest tie x).toBinary64 = x ∧ (shortest tie x).negative = x.negative := by
  unfold shortest
  simp only
  split_ifs with hn
  · have zero := Binary64.ofRatio_fraction h
    rw [Binary64.ofRatio, if_pos hn] at zero
    exact ⟨by simpa [toBinary64] using zero, rfl⟩
  · rw [trim_toBinary64, trim_negative]
    cases found : (List.range 17).findSome? fun n =>
        neighbour? tie x x.fraction.1 x.fraction.2
          (leading x.fraction.1 x.fraction.2 - (n : Nat)) with
    | none => exact ⟨toBinary64_of_value h rfl (expansion_value x _), rfl⟩
    | some d =>
      obtain ⟨n, -, chosen⟩ := List.exists_of_findSome?_eq_some found
      exact neighbour_toBinary64 chosen

end SchemaAlgebra.Decimal

import Mathlib.Data.Nat.Log
import SchemaAlgebra.Proofs.Rounding

/-!
# Multiples of whole numbers

Whole numbers of up to 53 bits are doubles, so what is a multiple of one is a multiple of its
divisors.
-/
namespace SchemaAlgebra.Binary64

/-- The double of a positive magnitude, with its significand in the upper half of 53 bits. -/
def ofSignificand (significand exponent : Nat) : Binary64 :=
  ofParts false (2 ^ 52 * exponent + significand)

section

variable {m e : Nat} (large : 2 ^ 52 ≤ m) (small : m < 2 ^ 53) (within : e < 2000)
include large small within

theorem magnitude_ofSignificand : (ofSignificand m e).magnitude = 2 ^ 52 * e + m := by
  have bits : 2 ^ 52 * e + m < 2 ^ 63 := by omega
  simp only [ofSignificand, ofParts, magnitude, Bool.false_eq_true, if_false, Nat.pow_eq,
    UInt64.toNat_ofNat']
  omega

theorem isFinite_ofSignificand : (ofSignificand m e).isFinite = true := by
  rw [isFinite, magnitude_ofSignificand large small within, infinityBits, decide_eq_true_eq,
    Nat.pow_eq]
  omega

theorem negative_ofSignificand : (ofSignificand m e).negative = false := by
  have bits : 2 ^ 52 * e + m < 2 ^ 63 := by omega
  simp only [ofSignificand, ofParts, negative, Bool.false_eq_true, if_false, Nat.pow_eq,
    UInt64.toNat_ofNat', decide_eq_false_iff_not]
  omega

theorem significand_ofSignificand : (ofSignificand m e).significand = m := by
  rw [significand, magnitude_ofSignificand large small within, Nat.pow_eq]
  split_ifs <;> omega

theorem exponent_ofSignificand : (ofSignificand m e).exponent = e - 1074 := by
  rw [exponent, magnitude_ofSignificand large small within, Nat.pow_eq]
  omega

/-- A whole number with such a significand is the double itself. -/
theorem fraction_ofNat_of_significand {k : Nat}
    (value : (m : ℚ) * (2 : ℚ) ^ ((e : ℤ) - 1074) = k) :
    (ofNat k).fraction.1 = k * (ofNat k).fraction.2 := by
  have ratio : ((ofSignificand m e).fraction.1 : ℚ) / (ofSignificand m e).fraction.2 = k := by
    rw [fraction_value, significand_ofSignificand large small within,
      exponent_ofSignificand large small within, value]
  have same : ofNat k = ofSignificand m e := by
    rw [← ofRatio_fraction (isFinite_ofSignificand large small within),
      negative_ofSignificand large small within]
    exact ofRatio_eq_of_ratio false Nat.one_pos (fraction_pos _)
      (by rw [ratio, Nat.cast_one, div_one])
  have positive : (0 : ℚ) < (ofSignificand m e).fraction.2 := by exact_mod_cast fraction_pos _
  rw [div_eq_iff positive.ne'] at ratio
  rw [same]
  exact_mod_cast ratio

end

theorem fraction_ofNat {k : Nat} (positive : 0 < k) (small : k ≤ 2 ^ 53) :
    (ofNat k).fraction.1 = k * (ofNat k).fraction.2 := by
  rcases Nat.lt_or_eq_of_le small with less | rfl
  · have low : 2 ^ Nat.log 2 k ≤ k := Nat.pow_log_le_self 2 positive.ne'
    have high : k < 2 ^ (Nat.log 2 k + 1) := Nat.lt_pow_succ_log_self Nat.one_lt_two k
    have bits : Nat.log 2 k ≤ 52 := Nat.lt_succ_iff.mp (Nat.log_lt_of_lt_pow positive.ne' less)
    obtain ⟨j, hj⟩ := Nat.exists_eq_add_of_le bits
    have large : 2 ^ 52 ≤ k * 2 ^ j := by
      calc 2 ^ 52 = 2 ^ Nat.log 2 k * 2 ^ j := by rw [← pow_add, ← hj]
        _ ≤ k * 2 ^ j := Nat.mul_le_mul_right _ low
    have less' : k * 2 ^ j < 2 ^ 53 := by
      calc k * 2 ^ j < 2 ^ (Nat.log 2 k + 1) * 2 ^ j :=
        Nat.mul_lt_mul_of_pos_right high (by positivity)
        _ = 2 ^ 53 := by rw [← pow_add]; congr 1; omega
    apply fraction_ofNat_of_significand large less' (e := 1074 - j) (by omega)
    have exponent : ((1074 - j : Nat) : ℤ) - 1074 = -(j : ℤ) := by omega
    rw [exponent, zpow_neg, zpow_natCast]
    push_cast
    exact mul_inv_cancel_right₀ (by positivity) _
  · have exponent : ((1075 : Nat) : ℤ) - 1074 = 1 := by norm_num
    apply fraction_ofNat_of_significand (m := 2 ^ 52) (e := 1075) (Nat.le_refl _) (by norm_num)
      (by norm_num)
    rw [exponent]
    norm_num

theorem isMultipleOf_ofNat (x : Binary64) {k : Nat} (positive : 0 < k) (small : k ≤ 2 ^ 53) :
    x.isMultipleOf (ofNat k) = true ↔ x.fraction.2 * k ∣ x.fraction.1 := by
  have scale := fraction_pos (ofNat k)
  have exact := fraction_ofNat positive small
  have nonzero : (ofNat k).fraction.1 ≠ 0 := by
    rw [exact]
    exact (Nat.mul_pos positive scale).ne'
  unfold isMultipleOf
  simp only [Bool.and_eq_true, bne_iff_ne, ne_eq, nonzero, not_false_eq_true, true_and, beq_iff_eq]
  rw [← Nat.dvd_iff_mod_eq_zero, exact, ← Nat.mul_assoc]
  exact Nat.mul_dvd_mul_iff_right scale

/-- A multiple of a multiple, both of up to 53 bits, is a multiple. -/
theorem isMultipleOf_of_dvd {x : Binary64} {k n : Nat} (positive : 0 < n) (small : n ≤ 2 ^ 53)
    (divides : k ∣ n) (h : x.isMultipleOf (ofNat n) = true) :
    x.isMultipleOf (ofNat k) = true := by
  have less := Nat.le_of_dvd positive divides
  rw [isMultipleOf_ofNat x positive small] at h
  rw [isMultipleOf_ofNat x (Nat.pos_of_dvd_of_pos divides positive) (less.trans small)]
  exact (Nat.mul_dvd_mul_left _ divides).trans h

end SchemaAlgebra.Binary64

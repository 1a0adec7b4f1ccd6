import Mathlib.Algebra.Order.Field.Power
import Mathlib.Data.Int.Log
import Mathlib.Data.Rat.Floor
import Mathlib.Tactic.FieldSimp
import Mathlib.Tactic.Linarith
import Mathlib.Tactic.Positivity
import Mathlib.Tactic.Ring
import SchemaAlgebra.Number.Binary64

/-!
# Rounding of fractions

The double nearest to a fraction depends on the value of the fraction only, and a finite
double is the one nearest to its own value.
-/
namespace SchemaAlgebra.Binary64

theorem log_eq_of_bounds {v : ℚ} (hv : 0 < v) {k : ℤ} (lower : (2 : ℚ) ^ k ≤ v)
    (upper : v < (2 : ℚ) ^ (k + 1)) : Int.log 2 v = k := by
  have below : k ≤ Int.log 2 v :=
    (Int.zpow_le_iff_le_log (by norm_num) hv).mp (by exact_mod_cast lower)
  have above : Int.log 2 v < k + 1 :=
    (Int.lt_zpow_iff_log_lt (by norm_num) hv).mp (by exact_mod_cast upper)
  omega

theorem scale_pos (num : Nat) {den : Nat} (hd : 0 < den) (e : ℤ) : 0 < (scale num den e).2 := by
  cases e with
  | ofNat k => simpa [scale, Nat.shiftLeft_eq] using hd
  | negSucc k => exact hd

theorem scale_value (num : Nat) {den : Nat} (hd : 0 < den) (e : ℤ) :
    ((scale num den e).1 : ℚ) / (scale num den e).2 = num / den / (2 : ℚ) ^ e := by
  have hden : (den : ℚ) ≠ 0 := by exact_mod_cast hd.ne'
  cases e with
  | ofNat k =>
    simp [scale, Nat.shiftLeft_eq]
    field_simp
  | negSucc k =>
    simp [scale, Nat.shiftLeft_eq, zpow_negSucc]
    field_simp

theorem div_lt_iff_ratio {n d : Nat} (hd : 0 < d) (m : Nat) : n / d < m ↔ (n : ℚ) / d < m := by
  have hq : (0 : ℚ) < d := by exact_mod_cast hd
  rw [Nat.div_lt_iff_lt_mul hd, div_lt_iff₀ hq]
  exact_mod_cast Iff.rfl

theorem ratio_bounds {num den : Nat} (hn : 0 < num) (hd : 0 < den) :
    (2 : ℚ) ^ ((num.log2 : ℤ) - den.log2 - 1) < num / den ∧
      (num : ℚ) / den < (2 : ℚ) ^ ((num.log2 : ℤ) - den.log2 + 1) := by
  have hq : (0 : ℚ) < den := by exact_mod_cast hd
  have num_lower : (2 : ℚ) ^ num.log2 ≤ num := by exact_mod_cast Nat.log2_self_le hn.ne'
  have num_upper : (num : ℚ) < 2 ^ (num.log2 + 1) := by exact_mod_cast Nat.lt_log2_self
  have den_lower : (2 : ℚ) ^ den.log2 ≤ den := by exact_mod_cast Nat.log2_self_le hd.ne'
  have den_upper : (den : ℚ) < 2 ^ (den.log2 + 1) := by exact_mod_cast Nat.lt_log2_self
  have num_exponent : (2 : ℚ) ^ ((num.log2 : ℤ) + 1) = 2 ^ (num.log2 + 1) := by norm_cast
  have den_exponent : (2 : ℚ) ^ ((den.log2 : ℤ) + 1) = 2 ^ (den.log2 + 1) := by norm_cast
  constructor
  · rw [lt_div_iff₀ hq, sub_sub, zpow_sub₀ (by norm_num), div_mul_eq_mul_div,
      div_lt_iff₀ (by positivity), den_exponent, zpow_natCast]
    calc (2 : ℚ) ^ num.log2 * den < 2 ^ num.log2 * 2 ^ (den.log2 + 1) := by gcongr
      _ ≤ num * 2 ^ (den.log2 + 1) := by gcongr
  · rw [div_lt_iff₀ hq, sub_add_eq_add_sub, zpow_sub₀ (by norm_num), div_mul_eq_mul_div,
      lt_div_iff₀ (by positivity), num_exponent, zpow_natCast]
    calc (num : ℚ) * 2 ^ den.log2 < 2 ^ (num.log2 + 1) * 2 ^ den.log2 := by gcongr
      _ ≤ 2 ^ (num.log2 + 1) * den := by gcongr

theorem exponentOf_eq {num den : Nat} (hn : 0 < num) (hd : 0 < den) :
    exponentOf num den = max (Int.log 2 ((num : ℚ) / den) - 52) (-1074) := by
  have hv : (0 : ℚ) < num / den := by positivity
  obtain ⟨lower, upper⟩ := ratio_bounds hn hd
  set e : ℤ := (num.log2 : ℤ) - den.log2 - 53 with he
  have test : (scale num den e).1 / (scale num den e).2 < Nat.pow 2 53 ↔
      (num : ℚ) / den < (2 : ℚ) ^ (e + 53) := by
    rw [div_lt_iff_ratio (scale_pos num hd e), scale_value num hd, div_lt_iff₀ (by positivity),
      zpow_add₀ (by norm_num), mul_comm]
    norm_num
  have unfolded : exponentOf num den =
      max (if (scale num den e).1 / (scale num den e).2 < Nat.pow 2 53 then e else e + 1)
        (-1074) := rfl
  rw [unfolded]
  congr 1
  by_cases small : (num : ℚ) / den < (2 : ℚ) ^ (e + 53)
  · rw [if_pos (test.mpr small), log_eq_of_bounds (k := e + 52) hv _ _]
    · omega
    · rw [show e + 52 = (num.log2 : ℤ) - den.log2 - 1 by omega]; exact lower.le
    · rw [show e + 52 + 1 = e + 53 by omega]; exact small
  · rw [if_neg (fun h => small (test.mp h)), log_eq_of_bounds (k := e + 53) hv _ _]
    · omega
    · exact not_lt.mp small
    · rw [show e + 53 + 1 = (num.log2 : ℤ) - den.log2 + 1 by omega]; exact upper

theorem divRound_mul (n d : Nat) {k : Nat} (hk : 0 < k) :
    divRound (n * k) (d * k) = divRound n d := by
  have scaled (a b : Nat) : 2 * (a * k) < b * k ↔ 2 * a < b := by
    rw [← mul_assoc]; exact Nat.mul_lt_mul_right hk
  have scaled' (a b : Nat) : a * k < 2 * (b * k) ↔ a < 2 * b := by
    rw [← mul_assoc]; exact Nat.mul_lt_mul_right hk
  simp only [divRound, Nat.mul_div_mul_right n d hk, Nat.mul_mod_mul_right, scaled, scaled']

theorem divRound_eq_of_ratio {a b c d : Nat} (hb : 0 < b) (hd : 0 < d)
    (h : (a : ℚ) / b = c / d) : divRound a b = divRound c d := by
  have hbq : (b : ℚ) ≠ 0 := by exact_mod_cast hb.ne'
  have hdq : (d : ℚ) ≠ 0 := by exact_mod_cast hd.ne'
  have cross : a * d = c * b := by
    rw [div_eq_div_iff hbq hdq] at h
    exact_mod_cast h
  calc divRound a b = divRound (a * d) (b * d) := (divRound_mul a b hd).symm
    _ = divRound (c * b) (d * b) := by rw [cross, mul_comm b d]
    _ = divRound c d := divRound_mul c d hb

theorem divRound_of_ratio {a b : Nat} (hb : 0 < b) {m : Nat} (h : (a : ℚ) / b = m) :
    divRound a b = m := by
  rw [divRound_eq_of_ratio hb one_pos (c := m) (by simpa using h)]
  simp [divRound, Nat.mod_one]

/-- The nearest double depends on the value of the fraction only. -/
theorem ofRatio_eq_of_ratio (negative : Bool) {a b c d : Nat} (hb : 0 < b) (hd : 0 < d)
    (h : (a : ℚ) / b = c / d) : ofRatio negative a b = ofRatio negative c d := by
  have hbq : (0 : ℚ) < b := by exact_mod_cast hb
  have hdq : (0 : ℚ) < d := by exact_mod_cast hd
  rcases Nat.eq_zero_or_pos a with rfl | ha
  · have hc : c = 0 := by
      have : (c : ℚ) / d = 0 := by rw [← h]; simp
      simpa [hdq.ne'] using this
    simp [ofRatio, hc]
  · have hc : 0 < c := by
      rcases Nat.eq_zero_or_pos c with rfl | hc
      · simp [hbq.ne', ha.ne'] at h
      · exact hc
    have same_exponent : exponentOf a b = exponentOf c d := by
      rw [exponentOf_eq ha hb, exponentOf_eq hc hd, h]
    have same_rounding :
        divRound (scale a b (exponentOf a b)).1 (scale a b (exponentOf a b)).2 =
          divRound (scale c d (exponentOf c d)).1 (scale c d (exponentOf c d)).2 := by
      apply divRound_eq_of_ratio (scale_pos a hb _) (scale_pos c hd _)
      rw [scale_value a hb, scale_value c hd, h, same_exponent]
    simp only [ofRatio, ha.ne', hc.ne', if_false]
    rw [same_rounding, same_exponent]

variable {x : Binary64}

theorem ofParts_parts (x : Binary64) : ofParts x.negative x.magnitude = x := by
  obtain ⟨bits⟩ := x
  have hlt : bits.toNat < 2 ^ 64 := bits.toNat_lt
  have key : (if 2 ^ 63 ≤ bits.toNat then 2 ^ 63 + bits.toNat % 2 ^ 63 else bits.toNat % 2 ^ 63) =
      bits.toNat := by
    split_ifs <;> omega
  simp only [ofParts, negative, magnitude, Nat.pow_eq, decide_eq_true_eq, key, UInt64.ofNat_toNat]

theorem fraction_pos (x : Binary64) : 0 < x.fraction.2 := by
  unfold fraction
  split <;> simp [Nat.shiftLeft_eq]

/-- A finite double stands for its significand times a power of two. -/
theorem fraction_value (x : Binary64) :
    (x.fraction.1 : ℚ) / x.fraction.2 = x.significand * (2 : ℚ) ^ x.exponent := by
  unfold fraction
  split
  · rename_i k hk
    simp [hk, Nat.shiftLeft_eq]
  · rename_i k hk
    simp [hk, Nat.shiftLeft_eq, zpow_negSucc, div_eq_mul_inv]

theorem magnitude_eq (x : Binary64) :
    2 ^ 52 * (x.exponent + 1074).toNat + x.significand = x.magnitude := by
  simp only [exponent, significand, Nat.pow_eq]
  split_ifs <;> omega

/-- A significand of 53 bits is normal, a shorter one has the least exponent. -/
theorem significand_bounds (x : Binary64) (h : x.isZero = false) :
    0 < x.significand ∧ x.significand < 2 ^ 53 ∧
      (2 ^ 52 ≤ x.significand ∧ -1074 ≤ x.exponent ∨ x.exponent = -1074) := by
  have nonzero : x.magnitude ≠ 0 := by simpa [isZero] using h
  simp only [exponent, significand, Nat.pow_eq]
  split_ifs <;> omega

theorem fraction_value_pos (h : x.isZero = false) :
    (0 : ℚ) < x.significand * (2 : ℚ) ^ x.exponent := by
  have pos : (0 : ℚ) < x.significand := by exact_mod_cast (significand_bounds x h).1
  positivity

theorem numerator_pos (h : x.isZero = false) : 0 < x.fraction.1 := by
  have value := fraction_value x
  rcases Nat.eq_zero_or_pos x.fraction.1 with h0 | hn
  · have pos := fraction_value_pos h
    rw [← value, h0, Nat.cast_zero, zero_div] at pos
    exact absurd pos (lt_irrefl 0)
  · exact hn

theorem numerator_eq_zero (h : x.isZero = true) : x.fraction.1 = 0 := by
  have zero : x.magnitude = 0 := by simpa [isZero] using h
  have parts := magnitude_eq x
  have significand_zero : x.significand = 0 := by omega
  unfold fraction
  split <;> simp [significand_zero]

theorem exponentOf_fraction (h : x.isZero = false) :
    exponentOf x.fraction.1 x.fraction.2 = x.exponent := by
  obtain ⟨-, small, normal⟩ := significand_bounds x h
  have value_pos := fraction_value_pos h
  have upper : (x.significand : ℚ) * 2 ^ x.exponent < (2 : ℚ) ^ (x.exponent + 52 + 1) := by
    have : (x.significand : ℚ) < 2 ^ (53 : ℤ) := by exact_mod_cast small
    rw [show x.exponent + 52 + 1 = 53 + x.exponent by ring, zpow_add₀ (by norm_num)]
    exact mul_lt_mul_of_pos_right this (by positivity)
  rw [exponentOf_eq (numerator_pos h) (fraction_pos x), fraction_value x]
  rcases normal with ⟨large, least⟩ | least
  · have lower : (2 : ℚ) ^ (x.exponent + 52) ≤ x.significand * 2 ^ x.exponent := by
      have : (2 : ℚ) ^ (52 : ℤ) ≤ x.significand := by exact_mod_cast large
      rw [add_comm, zpow_add₀ (by norm_num)]
      exact mul_le_mul_of_nonneg_right this (by positivity)
    rw [log_eq_of_bounds value_pos lower upper]
    omega
  · have : Int.log 2 ((x.significand : ℚ) * 2 ^ x.exponent) < x.exponent + 52 + 1 :=
      (Int.lt_zpow_iff_log_lt (by norm_num) value_pos).mp (by exact_mod_cast upper)
    omega

theorem ofRatio_fraction (h : x.isFinite = true) :
    ofRatio x.negative x.fraction.1 x.fraction.2 = x := by
  have hd := fraction_pos x
  have finite : x.magnitude < infinityBits := by simpa [isFinite] using h
  cases hz : x.isZero with
  | true =>
    have zero : x.magnitude = 0 := by simpa [isZero] using hz
    rw [ofRatio, if_pos (numerator_eq_zero hz), ← zero, ofParts_parts]
  | false =>
    have rounded : divRound (scale x.fraction.1 x.fraction.2 x.exponent).1
        (scale x.fraction.1 x.fraction.2 x.exponent).2 = x.significand := by
      apply divRound_of_ratio (scale_pos _ hd _)
      rw [scale_value _ hd, fraction_value x, mul_div_assoc,
        div_self (zpow_ne_zero _ (by norm_num)), mul_one]
    simp only [ofRatio, if_neg (numerator_pos hz).ne', exponentOf_fraction hz]
    rw [rounded, Nat.pow_eq, magnitude_eq, min_eq_left finite.le, ofParts_parts]

end SchemaAlgebra.Binary64

import SchemaAlgebra.Proofs.Multiples
import SchemaAlgebra.Proofs.Sameness

/-!
# Whole numbers as doubles

A double is a multiple of the least positive one. In these units doubles are ordered as whole
numbers, and the double of a whole number stands for the nearest whole number of 53 bits.
-/
namespace SchemaAlgebra.Binary64

/-- The nearest number of at most 53 significant bits, a half going to the even neighbour. -/
def nearestNat (n : Nat) : Nat := divRound n (2 ^ (n.log2 - 52)) * 2 ^ (n.log2 - 52)

/-- The nearest whole number of at most 53 significant bits. -/
def nearest (n : ℤ) : ℤ := n.sign * nearestNat n.natAbs

/-- The significand and the exponent that magnitude bits stand for, in units of the least positive
double. -/
def unitsOf (magnitude : Nat) : Nat :=
  (if magnitude < 2 ^ 52 then magnitude else 2 ^ 52 + magnitude % 2 ^ 52) * 2 ^
    (max (magnitude / 2 ^ 52) 1 - 1)

/-- A double as a multiple of the least positive one. -/
def units (x : Binary64) : ℤ :=
  if x.negative then -(unitsOf x.magnitude : ℤ) else unitsOf x.magnitude

def unitsOfOne : Nat := 2 ^ 1074

theorem unitsOfOne_pos : 0 < unitsOfOne := by
  unfold unitsOfOne
  exact pow_pos two_pos _

theorem unitsOf_strictMono : StrictMono unitsOf := by
  refine strictMono_nat_of_lt_succ fun m => ?_
  by_cases last : m % 2 ^ 52 = 2 ^ 52 - 1
  · have quotient : (m + 1) / 2 ^ 52 = m / 2 ^ 52 + 1 := by omega
    have next : unitsOf (m + 1) = 2 ^ 52 * 2 ^ (m / 2 ^ 52) := by
      rw [unitsOf, quotient]
      congr 1
      · split_ifs <;> omega
      · congr 1
        omega
    rw [next, unitsOf]
    rcases Nat.eq_zero_or_pos (m / 2 ^ 52) with zero | positive
    · rw [zero, if_pos (by omega)]
      norm_num
      omega
    · obtain ⟨e, he⟩ := Nat.exists_eq_add_of_lt positive
      rw [he, if_neg (by omega),
        show max (0 + e + 1) 1 - 1 = e by omega, zero_add, pow_succ 2 e, last]
      have scale : 0 < 2 ^ e := Nat.two_pow_pos e
      omega
  · have quotient : (m + 1) / 2 ^ 52 = m / 2 ^ 52 := by omega
    rw [unitsOf, unitsOf, quotient]
    refine Nat.mul_lt_mul_of_pos_right ?_ (Nat.two_pow_pos _)
    split_ifs <;> omega

theorem unitsOf_zero : unitsOf 0 = 0 := rfl

theorem rank_lt_iff (x y : Binary64) : x.rank < y.rank ↔ x.units < y.units := by
  have less := unitsOf_strictMono.lt_iff_lt (a := x.magnitude) (b := y.magnitude)
  have more := unitsOf_strictMono.lt_iff_lt (a := y.magnitude) (b := x.magnitude)
  have zero (z : Binary64) : unitsOf z.magnitude = 0 ↔ z.magnitude = 0 :=
    unitsOf_strictMono.injective.eq_iff' unitsOf_zero
  have zero_x := zero x
  have zero_y := zero y
  simp only [rank, units]
  split_ifs <;> omega

theorem rank_eq_iff (x y : Binary64) : x.rank = y.rank ↔ x.units = y.units := by
  have less := rank_lt_iff x y
  have more := rank_lt_iff y x
  omega

theorem significand_mul (x : Binary64) {e : Nat} (h : x.exponent = e - 1074) :
    x.significand * 2 ^ e = unitsOf x.magnitude := by
  rw [exponent, Nat.pow_eq] at h
  rw [significand, unitsOf, Nat.pow_eq]
  congr 2
  omega

theorem fraction_units (x : Binary64) :
    x.fraction.1 * unitsOfOne = unitsOf x.magnitude * x.fraction.2 := by
  have least : -1074 ≤ x.exponent := by
    rw [exponent]
    omega
  unfold fraction
  split
  · rename_i k hk
    rw [Nat.shiftLeft_eq, Nat.mul_one, Nat.mul_assoc, unitsOfOne, ← pow_add]
    exact significand_mul x (by rw [hk, Int.ofNat_eq_natCast]; push_cast; omega)
  · rename_i k hk
    obtain ⟨e, he⟩ := Nat.exists_eq_add_of_le (show k + 1 ≤ 1074 by omega)
    rw [Nat.shiftLeft_eq, Nat.one_mul, ← significand_mul x (e := e) (by omega),
      Nat.mul_assoc, ← pow_add, Nat.add_comm e, ← he]
    rfl

section

variable {negative : Bool} {m : Nat} (bits : m < 2 ^ 63)
include bits

theorem negative_ofParts : (ofParts negative m).negative = negative := by
  cases negative <;> simp only [ofParts, Binary64.negative, if_true, Bool.false_eq_true, if_false,
    Nat.pow_eq, UInt64.toNat_ofNat', decide_eq_true_eq, decide_eq_false_iff_not] <;> omega

theorem magnitude_ofParts : (ofParts negative m).magnitude = m := by
  cases negative <;> simp only [ofParts, magnitude, if_true, Bool.false_eq_true, if_false,
    Nat.pow_eq, UInt64.toNat_ofNat'] <;> omega

end

/-- A significand of up to 53 bits, the power of two above them included, has its own value. -/
theorem unitsOf_significand {m : Nat} (large : 2 ^ 52 ≤ m) (small : m ≤ 2 ^ 53) (e : Nat) :
    unitsOf (2 ^ 52 * e + m) = m * 2 ^ e := by
  have normal : ¬2 ^ 52 * e + m < 2 ^ 52 := by omega
  rcases Nat.lt_or_eq_of_le small with less | rfl
  · have exponent : max ((2 ^ 52 * e + m) / 2 ^ 52) 1 - 1 = e := by omega
    rw [unitsOf, if_neg normal, exponent]
    congr 1
    omega
  · have exponent : max ((2 ^ 52 * e + 2 ^ 53) / 2 ^ 52) 1 - 1 = e + 1 := by omega
    have significand : 2 ^ 52 + (2 ^ 52 * e + 2 ^ 53) % 2 ^ 52 = 2 ^ 52 := by omega
    rw [unitsOf, if_neg normal, exponent, significand, pow_succ 2 e]
    omega

theorem divRound_bounds {n k : Nat} (low : 2 ^ (52 + k) ≤ n) (high : n < 2 ^ (53 + k)) :
    2 ^ 52 ≤ divRound n (2 ^ k) ∧ divRound n (2 ^ k) ≤ 2 ^ 53 := by
  have quotient : 2 ^ 52 ≤ n / 2 ^ k :=
    (Nat.le_div_iff_mul_le (Nat.two_pow_pos k)).mpr (by rwa [← pow_add])
  have quotient' : n / 2 ^ k < 2 ^ 53 := Nat.div_lt_of_lt_mul (by rwa [← pow_add, Nat.add_comm])
  rw [divRound]
  split_ifs <;> omega

theorem nearestNat_of_log {n : Nat} (short : n.log2 ≤ 52) : nearestNat n = n := by
  rw [nearestNat, Nat.sub_eq_zero_of_le short]
  simp [divRound_of_ratio Nat.one_pos (a := n) (m := n) (by simp)]

theorem nearestNat_of_le {n : Nat} (small : n ≤ 2 ^ 53) : nearestNat n = n := by
  rcases Nat.lt_or_eq_of_le small with less | rfl
  · refine nearestNat_of_log ?_
    rcases Nat.eq_zero_or_pos n with rfl | positive
    · decide
    · exact Nat.lt_succ_iff.mp ((Nat.log2_lt positive.ne').mpr less)
  · decide

/-- A whole number scaled to 53 bits is rounded to the significand of the nearest one. -/
theorem exists_significand {n : Nat} (positive : 0 < n) (finite : n < 2 ^ 64) :
    ∃ e a b : Nat, (e : ℤ) = n.log2 + 1022 ∧ scale n 1 (n.log2 - 52) = (a, b) ∧
      2 ^ 52 ≤ divRound a b ∧ divRound a b ≤ 2 ^ 53 ∧
      divRound a b * 2 ^ e = nearestNat n * unitsOfOne := by
  have low : 2 ^ n.log2 ≤ n := Nat.log2_self_le positive.ne'
  have high : n < 2 ^ (n.log2 + 1) := Nat.lt_log2_self
  have log : n.log2 < 64 := (Nat.log2_lt positive.ne').mpr finite
  rcases Nat.lt_or_ge n.log2 52 with short | long
  · obtain ⟨j, hj⟩ := Nat.exists_eq_add_of_lt short
    have shift : (n.log2 : ℤ) - 52 = Int.negSucc j := by omega
    have whole : divRound (n * 2 ^ (j + 1)) 1 = n * 2 ^ (j + 1) :=
      divRound_of_ratio Nat.one_pos (by simp)
    refine ⟨1074 - (j + 1), n * 2 ^ (j + 1),
      1, by omega, by rw [shift, scale, Nat.shiftLeft_eq], ?_⟩
    rw [whole, nearestNat_of_log short.le]
    refine ⟨?_, ?_, ?_⟩
    · calc 2 ^ 52 = 2 ^ n.log2 * 2 ^ (j + 1) := by rw [← pow_add, hj, Nat.add_assoc]
        _ ≤ n * 2 ^ (j + 1) := Nat.mul_le_mul_right _ low
    · calc n * 2 ^ (j + 1) ≤ 2 ^ (n.log2 + 1) * 2 ^ (j + 1) := Nat.mul_le_mul_right _ high.le
        _ = 2 ^ 53 := by rw [← pow_add]; congr 1; omega
    · rw [Nat.mul_assoc, ← pow_add, show j + 1 + (1074 - (j + 1)) = 1074 by omega, unitsOfOne]
  · obtain ⟨k, hk⟩ := Nat.exists_eq_add_of_le long
    have shift : (n.log2 : ℤ) - 52 = Int.ofNat k := by
      rw [hk, Int.ofNat_eq_natCast]; push_cast; omega
    obtain ⟨large, small⟩ := divRound_bounds (n := n) (k := k) (by rwa [← hk])
      (by rwa [show 53 + k = n.log2 + 1 by omega])
    refine ⟨k + 1074, n, 2 ^
      k, by omega, by rw [shift, scale, Nat.shiftLeft_eq, Nat.one_mul], large, small, ?_⟩
    rw [nearestNat, show n.log2 - 52 = k by omega, pow_add, Nat.mul_assoc, unitsOfOne]

/-- The double of a whole number has the units of the nearest one. -/
theorem ofRatio_whole (negative : Bool) {n : Nat} (finite : n < 2 ^ 64) :
    ∃ m, m < infinityBits ∧ ofRatio negative n 1 = ofParts negative m ∧
      unitsOf m = nearestNat n * unitsOfOne := by
  rcases Nat.eq_zero_or_pos n with rfl | positive
  · exact ⟨0, by decide, rfl, by rw [nearestNat_of_le (Nat.zero_le _), Nat.zero_mul]; rfl⟩
  · obtain ⟨e, a, b, he, scaled, large, small, value⟩ := exists_significand positive finite
    have log : n.log2 < 64 := (Nat.log2_lt positive.ne').mpr finite
    have exponent : exponentOf n 1 = n.log2 - 52 := by
      rw [exponentOf_eq positive Nat.one_pos, Nat.cast_one, div_one, Int.log_natCast,
        ← Nat.log2_eq_log_two]
      omega
    have within : 2 ^ 52 * e + divRound a b < infinityBits := by
      rw [infinityBits, Nat.pow_eq]
      omega
    refine ⟨2 ^ 52 * e + divRound a b, within,
      ?_, by rw [unitsOf_significand large small, value]⟩
    simp only [ofRatio, positive.ne', if_false, exponent, scaled]
    rw [show ((n.log2 : ℤ) - 52 + 1074).toNat = e by omega, Nat.pow_eq, min_eq_left within.le]

theorem nearest_natCast (n : Nat) : nearest n = nearestNat n := by
  rcases Nat.eq_zero_or_pos n with rfl | positive
  · rfl
  · rw [nearest, Int.sign_natCast_of_ne_zero positive.ne', one_mul, Int.natAbs_natCast]

/-- A whole number of up to 53 bits is the nearest one to itself. -/
theorem nearest_of_natAbs_le {n : ℤ} (small : n.natAbs ≤ 2 ^ 53) : nearest n = n := by
  rw [nearest, nearestNat_of_le small, Int.sign_mul_natAbs]

theorem nearestNat_pos {n : Nat} (positive : 0 < n) (finite : n < 2 ^ 64) : 0 < nearestNat n := by
  obtain ⟨e, a, b, -, -, large, -, value⟩ := exists_significand positive finite
  refine Nat.pos_of_mul_pos_right (b := unitsOfOne) ?_
  rw [← value]
  exact Nat.mul_pos (large.trans_lt' (by norm_num)) (Nat.two_pow_pos e)

theorem natAbs_nearest (n : ℤ) : (nearest n).natAbs = nearestNat n.natAbs := by
  rcases eq_or_ne n 0 with rfl | nonzero
  · rfl
  · rw [nearest, Int.natAbs_mul, Int.natAbs_sign_of_ne_zero nonzero, Nat.one_mul,
      Int.natAbs_natCast]

section

variable {n a : ℤ} (finite : n.natAbs < 2 ^ 64) (finite' : a.natAbs < 2 ^ 64)
include finite

/-- The double of a whole number has its sign and the units of the nearest one. -/
theorem ofInt_parts : (ofInt n).isFinite = true ∧ (ofInt n).negative = decide (n < 0) ∧
    unitsOf (ofInt n).magnitude = nearestNat n.natAbs * unitsOfOne := by
  obtain ⟨m, within, same, value⟩ := ofRatio_whole (decide (n < 0)) finite
  have bits : m < 2 ^ 63 := within.trans (by decide)
  rw [ofInt, same, isFinite, magnitude_ofParts bits, negative_ofParts bits]
  exact ⟨decide_eq_true within, rfl, value⟩

theorem ofInt_regular : ((ofInt n).negative && (ofInt n).isZero) = false := by
  obtain ⟨-, sign, value⟩ := ofInt_parts finite
  rw [sign, Bool.and_eq_false_imp]
  intro minus
  have positive := nearestNat_pos (n := n.natAbs)
      (Int.natAbs_pos.mpr (of_decide_eq_true minus).ne) finite
  rw [isZero, beq_eq_false_iff_ne]
  intro zero
  rw [zero, unitsOf_zero] at value
  exact absurd value (Nat.mul_pos positive unitsOfOne_pos).ne

theorem units_ofInt : (ofInt n).units = nearest n * unitsOfOne := by
  obtain ⟨-, sign, value⟩ := ofInt_parts finite
  rw [units, sign, value, nearest]
  rcases lt_trichotomy n 0 with minus | rfl | plus
  · rw [if_pos (decide_eq_true minus), Int.sign_eq_neg_one_of_neg minus]
    push_cast
    ring
  · generalize unitsOfOne = one
    simp [nearestNat_of_le]
  · rw [if_neg (by simpa using plus.le), Int.sign_eq_one_of_pos plus]
    push_cast
    ring

include finite' in
theorem lt_ofInt : (ofInt n).lt (ofInt a) = true ↔ nearest n < nearest a := by
  have number : (ofInt n).isNaN = false := isNaN_of_isFinite (ofInt_parts finite).1
  have number' : (ofInt a).isNaN = false := isNaN_of_isFinite (ofInt_parts finite').1
  rw [lt, number, number', Bool.not_false, Bool.true_and, Bool.true_and, decide_eq_true_eq,
    rank_lt_iff, units_ofInt finite, units_ofInt finite']
  exact Int.mul_lt_mul_right (Int.natCast_pos.mpr unitsOfOne_pos)

include finite' in
theorem eq_ofInt : (ofInt n).eq (ofInt a) = true ↔ nearest n = nearest a := by
  have number : (ofInt n).isNaN = false := isNaN_of_isFinite (ofInt_parts finite).1
  have number' : (ofInt a).isNaN = false := isNaN_of_isFinite (ofInt_parts finite').1
  rw [eq, number, number', Bool.not_false, Bool.true_and, Bool.true_and, beq_iff_eq,
    rank_eq_iff, units_ofInt finite, units_ofInt finite']
  exact Int.mul_eq_mul_right_iff (Int.natCast_pos.mpr unitsOfOne_pos).ne'

theorem fraction_ofInt : (ofInt n).fraction.1 = nearestNat n.natAbs * (ofInt n).fraction.2 := by
  have value := fraction_units (ofInt n)
  rw [(ofInt_parts finite).2.2, Nat.mul_right_comm] at value
  exact Nat.eq_of_mul_eq_mul_right unitsOfOne_pos value

theorem isMultipleOf_ofInt {d : Nat} (positive : 0 < d) (small : d < 2 ^ 64) :
    (ofInt n).isMultipleOf (ofNat d) = true ↔ nearest d ∣ nearest n := by
  have whole := fraction_ofInt finite
  have divisor : (ofNat d).fraction.1 = nearestNat d * (ofNat d).fraction.2 :=
    fraction_ofInt (n := d) small
  have scale := Nat.mul_pos (fraction_pos (ofInt n)) (fraction_pos (ofNat d))
  have nonzero : (ofNat d).fraction.1 ≠ 0 := by
    rw [divisor]
    exact (Nat.mul_pos (nearestNat_pos positive small) (fraction_pos _)).ne'
  unfold isMultipleOf
  simp only [Bool.and_eq_true, bne_iff_ne, ne_eq, nonzero, not_false_eq_true, true_and, beq_iff_eq]
  rw [← Nat.dvd_iff_mod_eq_zero, whole, divisor, nearest_natCast, Int.natCast_dvd, natAbs_nearest,
    Nat.mul_assoc, Nat.mul_left_comm]
  exact Nat.mul_dvd_mul_iff_right scale

end

theorem le_nearestNat {d : Nat} (large : 2 ^ 53 ≤ d) : 2 ^ 53 ≤ nearestNat d := by
  have positive : d ≠ 0 := by omega
  have long : 53 ≤ d.log2 := (Nat.le_log2 positive).mpr large
  obtain ⟨k, hk⟩ := Nat.exists_eq_add_of_le long
  have low : 2 ^ (52 + (k + 1)) ≤ d := by
    rw [show 52 + (k + 1) = d.log2 by omega]
    exact Nat.log2_self_le positive
  have high : d < 2 ^ (53 + (k + 1)) := by
    rw [show 53 + (k + 1) = d.log2 + 1 by omega]
    exact Nat.lt_log2_self
  have bounds := divRound_bounds low high
  rw [nearestNat, show d.log2 - 52 = k + 1 by omega]
  calc 2 ^ 53 = 2 ^ 52 * 2 ^ 1 := by norm_num
    _ ≤ divRound d (2 ^ (k + 1)) * 2 ^ (k + 1) :=
    Nat.mul_le_mul bounds.1 (Nat.pow_le_pow_right Nat.two_pos (by omega))

/-- Divisibility is that of the numbers themselves where one of them is small enough. -/
theorem nearest_dvd_iff {n : ℤ} {d : Nat} (small : n.natAbs ≤ 2 ^ 53)
    (exact : d ≤ 2 ^ 53 ∨ n.natAbs < 2 ^ 53) : nearest d ∣ nearest n ↔ (d : ℤ) ∣ n := by
  rw [nearest_of_natAbs_le small, nearest_natCast]
  by_cases less : d ≤ 2 ^ 53
  · rw [nearestNat_of_le less]
  · have least := le_nearestNat (d := d) (by omega)
    have few := exact.resolve_left less
    have zero {k : Nat} (more : 2 ^ 53 ≤ k) : (k : ℤ) ∣ n ↔ n = 0 := by
      refine ⟨fun divides => ?_, fun zero => zero ▸ Int.dvd_zero _⟩
      exact Int.eq_zero_of_dvd_of_natAbs_lt_natAbs divides (by rw [Int.natAbs_natCast]; omega)
    rw [zero least, zero (by omega)]

/-- Below a power of two are the significands of 53 bits and less. -/
theorem isSmall_of_unitsOf {x : Binary64} (small : unitsOf x.magnitude < 2 ^ 53 * unitsOfOne) :
    x.isSmall = true := by
  have limit (e : Nat) : unitsOf (2 ^ 52 * (e + 1) + 2 ^ 52) = 2 ^ 53 * 2 ^ e := by
    rw [unitsOf_significand (Nat.le_refl _) (by norm_num), pow_succ 2 e]
    omega
  rw [unitsOfOne, ← limit, unitsOf_strictMono.lt_iff_lt] at small
  rw [isSmall, decide_eq_true_eq, Nat.pow_eq]
  omega

theorem format_ofInt {n : ℤ} (small : n.natAbs ≤ 2 ^ 53) : (ofInt n).format = toString n := by
  rcases Nat.lt_or_eq_of_le small with less | edge
  · have finite : n.natAbs < 2 ^ 64 := by omega
    obtain ⟨isFinite, sign, value⟩ := ofInt_parts finite
    have whole := fraction_ofInt finite
    rw [nearestNat_of_le small] at value whole
    have isWhole : (ofInt n).isWhole = true := by
      rw [Binary64.isWhole, isFinite, whole, Nat.mul_mod_left]
      rfl
    have isSmall : (ofInt n).isSmall = true := isSmall_of_unitsOf <| by
      rw [value]
      exact Nat.mul_lt_mul_of_pos_right less unitsOfOne_pos
    have toInt : (ofInt n).toInt = n := by
      rw [Binary64.toInt, sign, whole, Nat.mul_div_cancel _ (fraction_pos _)]
      by_cases minus : n < 0
      · rw [if_pos (decide_eq_true minus)]
        omega
      · rw [if_neg (by simpa using minus)]
        omega
    rw [format, isWhole, isSmall, toInt]
    rfl
  · rcases Int.natAbs_eq_iff.mp edge with rfl | rfl
    · decide +kernel
    · decide +kernel

end SchemaAlgebra.Binary64

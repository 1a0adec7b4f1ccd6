import Mathlib.Data.List.TakeWhile
import Mathlib.Data.Nat.Cast.Field
import SchemaAlgebra.Literal
import SchemaAlgebra.Proofs.Numerals

/-!
# Texts of numbers

The text of a finite number reads back to the number, so different numbers have different
texts.
-/
namespace SchemaAlgebra

namespace Decimal

theorem isDigit_of_mem_toDigits {n : Nat} {c : Char} (h : c ∈ Nat.toDigits 10 n) :
    isDigit c = true :=
  Nat.isDigit_of_mem_toDigits (by norm_num) (by norm_num) h

theorem valueOf_eq (cs : List Char) : valueOf cs = Nat.ofDigitChars 10 cs 0 := rfl

theorem valueOf_toDigits (n : Nat) : valueOf (Nat.toDigits 10 n) = n :=
  Nat.ofDigitChars_ten_toDigits

theorem toList_digits (d : Decimal) : d.digits.toList = Nat.toDigits 10 d.coefficient :=
  Nat.toList_repr

theorem isDigit_of_mem_zeros {k : Nat} {c : Char} (h : c ∈ List.replicate k '0') :
    isDigit c = true := by
  rw [(List.mem_replicate.mp h).2]
  rfl

theorem toLower_of_isDigit {c : Char} (h : isDigit c = true) : c.toLower = c := by
  have upper : ¬(c.val ≥ 'A'.val ∧ c.val ≤ 'Z'.val) := by
    simp only [isDigit, Bool.and_eq_true, decide_eq_true_eq, Char.le_def] at h
    rintro ⟨above, -⟩
    exact absurd (UInt32.le_trans above h.2) (by decide)
  exact dif_neg upper

theorem readUnsigned_whole (negative : Bool) {whole : List Char} (hne : whole ≠ [])
    (hw : ∀ c ∈ whole, isDigit c = true) :
    readUnsigned? negative whole = some ⟨negative, valueOf whole, 0⟩ := by
  have taken : whole.takeWhile isDigit = whole := List.takeWhile_eq_self_iff.mpr hw
  have dropped : whole.dropWhile isDigit = [] := List.dropWhile_eq_nil_iff.mpr hw
  simp [readUnsigned?, taken, dropped, hne, readExponent?]

theorem readUnsigned_point (negative : Bool) {whole places : List Char} (hne : whole ≠ [])
    (hw : ∀ c ∈ whole, isDigit c = true) (hp : ∀ c ∈ places, isDigit c = true) :
    readUnsigned? negative (whole ++ '.' :: places) =
      some ⟨negative, valueOf (whole ++ places), -(places.length : ℤ)⟩ := by
  have taken : (whole ++ '.' :: places).takeWhile isDigit = whole := by
    rw [List.takeWhile_append_of_pos hw]
    simp [isDigit]
  have dropped : (whole ++ '.' :: places).dropWhile isDigit = '.' :: places := by
    rw [List.dropWhile_append_of_pos hw]
    simp [isDigit]
  have places_taken : places.takeWhile isDigit = places := List.takeWhile_eq_self_iff.mpr hp
  have places_dropped : places.dropWhile isDigit = [] := List.dropWhile_eq_nil_iff.mpr hp
  simp [readUnsigned?, taken, dropped, places_taken, places_dropped, hne, readExponent?]

def signText (negative : Bool) : String := if negative then "-" else ""

theorem splitSign_digit {c : Char} (hd : isDigit c = true) (r : List Char) :
    splitSign (c :: r) = (false, c :: r) := by
  unfold splitSign
  split
  · rename_i heq; cases heq; exact absurd hd (by decide)
  · rename_i heq; cases heq; exact absurd hd (by decide)
  · rfl

theorem splitSign_signText (negative : Bool) {c : Char} (hd : isDigit c = true) (r : List Char) :
    splitSign (signText negative ++ String.ofList (c :: r)).toList = (negative, c :: r) := by
  cases negative with
  | true => simp [signText, splitSign]
  | false => simp [signText, splitSign_digit hd]

theorem readBinary64_signed (negative : Bool) {cs : List Char} (hne : cs ≠ [])
    (hd : isDigit (cs.head hne) = true) :
    readBinary64? (signText negative ++ String.ofList cs) =
      (readUnsigned? negative cs).map toBinary64 := by
  obtain ⟨c, r, rfl⟩ := List.exists_cons_of_ne_nil hne
  simp only [List.head_cons] at hd
  have word_ne (d : Char) (ds : List Char) (hd' : isDigit d = false) :
      String.ofList ((c :: r).map Char.toLower) ≠ String.ofList (d :: ds) := by
    intro heq
    have heads := congrArg String.toList heq
    simp only [String.toList_ofList, List.map_cons, toLower_of_isDigit hd] at heads
    rw [(List.cons.inj heads).1, hd'] at hd
    cases hd
  have no_infinity : ¬(String.ofList ((c :: r).map Char.toLower) = "inf" ∨
      String.ofList ((c :: r).map Char.toLower) = "infinity") :=
    not_or.mpr ⟨word_ne 'i' ['n', 'f'] rfl, word_ne 'i' ['n', 'f', 'i', 'n', 'i', 't', 'y'] rfl⟩
  have no_nan : String.ofList ((c :: r).map Char.toLower) ≠ "nan" := word_ne 'n' ['a', 'n'] rfl
  simp only [readBinary64?, splitSign_signText negative hd, Bool.or_eq_true, decide_eq_true_eq,
    if_neg no_infinity, if_neg no_nan]

theorem toDigits_head (n : Nat) : isDigit ((Nat.toDigits 10 n).head Nat.toDigits_ne_nil) = true :=
  isDigit_of_mem_toDigits (List.head_mem _)

def body (d : Decimal) : List Char :=
  let cs := Nat.toDigits 10 d.coefficient
  match d.exponent with
  | .ofNat k => if d.coefficient = 0 then cs else cs ++ List.replicate k '0'
  | .negSucc k =>
    if k + 1 < cs.length then cs.take (cs.length - (k + 1)) ++ '.' :: cs.drop (cs.length - (k + 1))
    else ['0'] ++ '.' :: (List.replicate (k + 1 - cs.length) '0' ++ cs)

theorem positional_eq (d : Decimal) :
    d.positional = signText d.negative ++ String.ofList d.body := by
  obtain ⟨negative, c, e⟩ := d
  apply String.toList_injective
  cases e with
  | ofNat k =>
    simp only [positional, body, sign, signText, String.toList_append, String.toList_ofList]
    split_ifs <;> simp [toList_digits, zeros]
  | negSucc k =>
    simp only [positional, body, sign, signText, String.toList_append, String.toList_ofList,
      toList_digits]
    split_ifs <;> simp [toList_digits, zeros]

/-- Without its sign the text of a decimal reads to a decimal of the same value. -/
theorem readUnsigned_body (d : Decimal) :
    (readUnsigned? d.negative d.body).map toBinary64 = some d.toBinary64 := by
  obtain ⟨negative, c, e⟩ := d
  have digit {x : Char} (h : x ∈ Nat.toDigits 10 c) : isDigit x = true :=
    isDigit_of_mem_toDigits h
  cases e with
  | ofNat k =>
    simp only [body]
    split_ifs with hc
    · rw [readUnsigned_whole _ Nat.toDigits_ne_nil fun x h => digit h]
      rw [Option.map_some, valueOf_toDigits]
      simp [hc, toBinary64]
    · have all_digits : ∀ x ∈ Nat.toDigits 10 c ++ List.replicate k '0', isDigit x = true := by
        intro x hx
        rcases List.mem_append.mp hx with h | h
        · exact digit h
        · exact isDigit_of_mem_zeros h
      have value : valueOf (Nat.toDigits 10 c ++ List.replicate k '0') = c * 10 ^ k := by
        simp [valueOf_eq, Nat.ofDigitChars_append, Nat.mul_comm]
      rw [readUnsigned_whole _ (by simp) all_digits, value, Option.map_some, toBinary64_mul_pow]
      simp
  | negSucc k =>
    simp only [body]
    split_ifs with hk
    · set cut := (Nat.toDigits 10 c).length - (k + 1) with hcut
      have hne : (Nat.toDigits 10 c).take cut ≠ [] := by
        rw [ne_eq, List.take_eq_nil_iff]
        simp only [Nat.toDigits_ne_nil, or_false]
        omega
      have length : ((Nat.toDigits 10 c).drop cut).length = k + 1 := by
        rw [List.length_drop]
        omega
      rw [readUnsigned_point _ hne (fun x h => digit (List.mem_of_mem_take h))
        fun x h => digit (List.mem_of_mem_drop h), length, List.take_append_drop, valueOf_toDigits]
      simp [Int.negSucc_eq]
    · set zeros := List.replicate (k + 1 - (Nat.toDigits 10 c).length) '0' with hzeros
      have all_digits : ∀ x ∈ zeros ++ Nat.toDigits 10 c, isDigit x = true := by
        intro x hx
        rcases List.mem_append.mp hx with h | h
        · exact isDigit_of_mem_zeros h
        · exact digit h
      have length : (zeros ++ Nat.toDigits 10 c).length = k + 1 := by
        rw [List.length_append, hzeros, List.length_replicate]
        omega
      have value : valueOf (['0'] ++ (zeros ++ Nat.toDigits 10 c)) = c := by
        have leading : valueOf (['0'] ++ zeros) = 0 := by
          simp [valueOf_eq, hzeros, Nat.ofDigitChars_cons]
        rw [← List.append_assoc, valueOf_eq, Nat.ofDigitChars_append, ← valueOf_eq, leading]
        exact Nat.ofDigitChars_ten_toDigits
      rw [readUnsigned_point _ (by simp) (by simp [isDigit]) all_digits, length, value]
      simp [Int.negSucc_eq]

theorem body_head (d : Decimal) : ∃ hne : d.body ≠ [], isDigit (d.body.head hne) = true := by
  obtain ⟨negative, c, e⟩ := d
  cases e with
  | ofNat k =>
    simp only [body]
    split_ifs with hc
    · exact ⟨Nat.toDigits_ne_nil, toDigits_head c⟩
    · refine ⟨by simp, ?_⟩
      rw [List.head_append_of_ne_nil Nat.toDigits_ne_nil]
      exact toDigits_head c
  | negSucc k =>
    simp only [body]
    split_ifs with hk
    · have hne : (Nat.toDigits 10 c).take ((Nat.toDigits 10 c).length - (k + 1)) ≠ [] := by
        rw [ne_eq, List.take_eq_nil_iff]
        simp only [Nat.toDigits_ne_nil, or_false]
        omega
      refine ⟨by simp, ?_⟩
      rw [List.head_append_of_ne_nil hne]
      exact isDigit_of_mem_toDigits (List.mem_of_mem_take (List.head_mem hne))
    · exact ⟨by simp, rfl⟩

theorem readBinary64_positional (d : Decimal) :
    readBinary64? d.positional = some d.toBinary64 := by
  obtain ⟨hne, hd⟩ := body_head d
  rw [positional_eq, readBinary64_signed d.negative hne hd, readUnsigned_body]

end Decimal

namespace Binary64

theorem toPositional_eq {x : Binary64} (h : x.isFinite = true) :
    x.toPositional = (Decimal.shortest .up x).positional := by
  have no_nan : x.isNaN = false := by
    simp only [isFinite, decide_eq_true_eq] at h
    simp only [isNaN, decide_eq_false_iff_not]
    omega
  simp [toPositional, no_nan, h]

/-- A whole number written with all its digits. -/
def wholeDecimal (x : Binary64) : Decimal := ⟨x.negative, x.fraction.1 / x.fraction.2, 0⟩

theorem wholeDecimal_toBinary64 {x : Binary64} (h : x.isWhole = true) :
    x.wholeDecimal.toBinary64 = x := by
  simp only [isWhole, Bool.and_eq_true, beq_iff_eq] at h
  obtain ⟨finite, whole⟩ := h
  apply Decimal.toBinary64_of_value finite rfl
  have den_ne : (x.fraction.2 : ℚ) ≠ 0 := by exact_mod_cast (fraction_pos x).ne'
  simp only [wholeDecimal, Decimal.value, zpow_zero, mul_one]
  exact Nat.cast_div (Nat.dvd_of_mod_eq_zero whole) den_ne

theorem wholeDecimal_pos {x : Binary64} (h : x.isWhole = true) (hz : x.isZero = false) :
    0 < x.fraction.1 / x.fraction.2 := by
  simp only [isWhole, Bool.and_eq_true, beq_iff_eq] at h
  exact Nat.div_pos (Nat.le_of_dvd (numerator_pos hz) (Nat.dvd_of_mod_eq_zero h.2)) (fraction_pos x)

theorem toString_toInt {x : Binary64} (h : x.isWhole = true)
    (regular : (x.negative && x.isZero) = false) :
    toString x.toInt = x.wholeDecimal.positional := by
  have layout (negative : Bool) (n : Nat) :
      Decimal.positional ⟨negative, n, 0⟩ = Decimal.signText negative ++ n.repr := by
    rw [Decimal.positional_eq, Nat.repr_eq_ofList_toDigits]
    simp [Decimal.body]
  rw [wholeDecimal, layout, toInt, Int.toString_eq_repr]
  cases hn : x.negative with
  | false => rfl
  | true =>
    have hz : x.isZero = false := by simpa [hn] using regular
    have pos := wholeDecimal_pos h hz
    generalize x.fraction.1 / x.fraction.2 = n at pos
    obtain ⟨m, rfl⟩ := Nat.exists_eq_succ_of_ne_zero pos.ne'
    rfl

/-- The text of a finite number is the layout of a decimal that reads back to it. -/
theorem format_eq_positional {x : Binary64} (h : x.isFinite = true)
    (regular : (x.negative && x.isZero) = false) :
    ∃ d : Decimal, x.format = d.positional ∧ d.toBinary64 = x := by
  unfold format
  split_ifs with hw
  · have whole : x.isWhole = true := (Bool.and_eq_true_iff.mp hw).1
    exact ⟨x.wholeDecimal, toString_toInt whole regular, wholeDecimal_toBinary64 whole⟩
  · exact ⟨.shortest .up x, toPositional_eq h, (Decimal.shortest_toBinary64 .up h).1⟩

theorem readBinary64_format {x : Binary64} (h : x.isFinite = true)
    (regular : (x.negative && x.isZero) = false) : Decimal.readBinary64? x.format = some x := by
  obtain ⟨d, text, back⟩ := format_eq_positional h regular
  rw [text, Decimal.readBinary64_positional, back]

end Binary64

namespace Numeral

theorem readBinary64_format (n : Numeral) :
    Decimal.readBinary64? n.value.format = some n.value := by
  have regular := n.isRegular
  simp only [Bool.and_eq_true, Bool.not_eq_true'] at regular
  exact Binary64.readBinary64_format regular.1 regular.2

theorem format_injective {m n : Numeral} (h : m.value.format = n.value.format) : m = n := by
  have same := readBinary64_format m
  rw [h, readBinary64_format n] at same
  obtain ⟨x, hx⟩ := m
  obtain ⟨y, hy⟩ := n
  simp only [Option.some.injEq] at same
  subst same
  rfl

end Numeral

end SchemaAlgebra

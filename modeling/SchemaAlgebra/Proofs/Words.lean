import Mathlib.Tactic.IntervalCases
import SchemaAlgebra.Proofs.LiteralText
import SchemaAlgebra.Proofs.Scanning

/-!
# Words for numbers

The text of a finite number is one word, and as a word it stands for the number. So is the text
of every other literal a token of its own.
-/
namespace SchemaAlgebra

namespace Decimal

theorem toDigits_leading {n : Nat} (pos : 0 < n) : (Nat.toDigits 10 n).head? ≠ some '0' := by
  induction n using Nat.strong_induction_on with
  | _ n ih =>
    rw [Nat.toDigits_eq_if (by norm_num)]
    split_ifs with small
    · interval_cases n <;> decide
    · rw [List.head?_append_of_ne_nil _ Nat.toDigits_ne_nil]
      exact ih (n / 10) (by omega) (by omega)

theorem isWordChar_of_isDigit {c : Char} (h : isDigit c = true) : Scan.isWordChar c = true := by
  have bounds : 48 ≤ c.toNat ∧ c.toNat ≤ 57 := by
    simpa [isDigit, Char.le_def, UInt32.le_iff_toNat_le] using h
  rw [← Char.ofNat_toNat c]
  generalize c.toNat = n at bounds
  obtain ⟨lower, upper⟩ := bounds
  interval_cases n <;> rfl

/-- Digits without a leading zero, and digits behind a point if there is one. -/
structure Numeral (whole places : List Char) : Prop where
  some_digit : whole ≠ []
  digits : ∀ c ∈ whole, isDigit c = true
  leading : whole = ['0'] ∨ whole.head? ≠ some '0'
  places : places = [] ∨ ∃ ds, places = '.' :: ds ∧ ds ≠ [] ∧
    ∀ c ∈ ds, isDigit c = true

theorem body_numeral (d : Decimal) :
    ∃ whole places, d.body = whole ++ places ∧ Numeral whole places := by
  obtain ⟨negative, c, e⟩ := d
  have digit {x : Char} (h : x ∈ Nat.toDigits 10 c) : isDigit x = true :=
    isDigit_of_mem_toDigits h
  cases e with
  | ofNat k =>
    simp only [body]
    split_ifs with hc
    · subst hc
      exact ⟨['0'], [], rfl, by simp, by simp [isDigit], .inl rfl, .inl rfl⟩
    · refine ⟨Nat.toDigits 10 c ++ List.replicate k '0',
        [], by simp, by simp, fun x hx => ?_, .inr ?_, .inl rfl⟩
      · rcases List.mem_append.mp hx with h | h
        · exact digit h
        · exact isDigit_of_mem_zeros h
      · rw [List.head?_append_of_ne_nil _ Nat.toDigits_ne_nil]
        exact toDigits_leading (Nat.pos_of_ne_zero hc)
  | negSucc k =>
    simp only [body]
    split_ifs with hk
    · set cut := (Nat.toDigits 10 c).length - (k + 1) with hcut
      have some_digit : (Nat.toDigits 10 c).take cut ≠ [] := by
        rw [ne_eq, List.take_eq_nil_iff]
        simp only [Nat.toDigits_ne_nil, or_false]
        omega
      have pos : 0 < c := by
        refine Nat.pos_of_ne_zero fun zero => ?_
        simp [zero] at hk
      refine ⟨_, _, rfl, some_digit, fun x hx => digit (List.mem_of_mem_take hx), .inr ?_,
        .inr ⟨_, rfl, ?_, fun x hx => digit (List.mem_of_mem_drop hx)⟩⟩
      · rw [List.head?_take, if_neg (by omega)]
        exact toDigits_leading pos
      · rw [ne_eq, List.drop_eq_nil_iff]
        omega
    · refine ⟨['0'], _,
        rfl, by simp, by simp [isDigit], .inl rfl, .inr ⟨_, rfl, by simp, fun x hx => ?_⟩⟩
      rcases List.mem_append.mp hx with h | h
      · exact isDigit_of_mem_zeros h
      · exact digit h

theorem word_of_signed {cs : List Char} (word : ∀ c ∈ cs, Scan.isWordChar c = true)
    (negative : Bool) : ∀ c ∈ (signText negative).toList ++ cs, Scan.isWordChar c = true := by
  intro c hc
  rcases List.mem_append.mp hc with h | h
  · cases negative with
    | true => cases List.mem_singleton.mp (show c ∈ ['-'] from h); rfl
    | false => cases h
  · exact word c h

/-- A decimal written out is a word of the form that numbers have. -/
theorem positional_word (d : Decimal) : Word.isNumeral d.positional.toList = true ∧
    ∀ c ∈ d.positional.toList, Scan.isWordChar c = true := by
  obtain ⟨whole, places, text, h⟩ := d.body_numeral
  have spelled : d.positional.toList = (signText d.negative).toList ++ (whole ++ places) := by
    rw [positional_eq, String.toList_append, String.toList_ofList, text]
  obtain ⟨x, r, rfl⟩ := List.exists_cons_of_ne_nil h.some_digit
  rw [spelled]
  constructor
  · have unsigned : (if ((signText d.negative).toList ++ (x :: r ++ places)).head? = some '-' then
        ((signText d.negative).toList ++ (x :: r ++ places)).tail
        else (signText d.negative).toList ++ (x :: r ++ places)) = x :: r ++ places := by
      cases d.negative with
      | true => rfl
      | false =>
        have digit := h.digits x List.mem_cons_self
        have plain : x ≠ '-' := by
          rintro rfl
          cases digit
        simp [signText, plain]
    have ends : places.takeWhile isDigit = [] ∧ places.dropWhile isDigit = places := by
      rcases h.places with rfl | ⟨ds, rfl, -⟩
      · exact ⟨rfl, rfl⟩
      · exact ⟨rfl, rfl⟩
    have taken : (x :: r ++ places).takeWhile isDigit = x :: r := by
      rw [List.takeWhile_append_of_pos h.digits, ends.1, List.append_nil]
    have dropped : (x :: r ++ places).dropWhile isDigit = places := by
      rw [List.dropWhile_append_of_pos h.digits, ends.2]
    simp only [Word.isNumeral, unsigned, taken, dropped]
    have leading := h.leading
    rcases h.places with rfl | ⟨ds, rfl, some_place, digits⟩
    · simpa using leading
    · have places : (!ds.isEmpty && ds.all isDigit) = true := by
        simpa [some_place] using digits
      simpa [places] using leading
  · refine word_of_signed (fun c hc => ?_) _
    rcases List.mem_append.mp hc with hc | hc
    · exact isWordChar_of_isDigit (h.digits c hc)
    · rcases h.places with rfl | ⟨ds, rfl, -, digits⟩
      · cases hc
      · rcases List.mem_cons.mp hc with rfl | hc
        · rfl
        · exact isWordChar_of_isDigit (digits c hc)

end Decimal

namespace Binary64

/-- The text of a finite number is a word that stands for the number. -/
theorem format_word {x : Binary64} (finite : x.isFinite = true)
    (regular : (x.negative && x.isZero) = false) :
    Word.number? x.format = some x ∧ x.format.toList ≠ [] ∧
      ∀ c ∈ x.format.toList, Scan.isWordChar c = true := by
  obtain ⟨d, text, -⟩ := format_eq_positional finite regular
  obtain ⟨numeral, word⟩ := d.positional_word
  rw [← text] at numeral word
  refine ⟨?_, fun empty => ?_, word⟩
  · rw [Word.number?, if_pos numeral, readBinary64_format finite regular, Option.filter_some,
      if_pos finite]
  · rw [empty] at numeral
    cases numeral

end Binary64

end SchemaAlgebra

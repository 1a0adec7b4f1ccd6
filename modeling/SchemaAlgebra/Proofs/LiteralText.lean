import SchemaAlgebra.Proofs.NumberText

/-!
# Texts of literals

Different literals have different expressions. The last character tells their kinds apart.
-/
namespace SchemaAlgebra

namespace Decimal

theorem body_getLast (d : Decimal) : ∃ c, d.body.getLast? = some c ∧ isDigit c = true := by
  obtain ⟨negative, c, e⟩ := d
  have digits_last : ∃ x, (Nat.toDigits 10 c).getLast? = some x ∧ isDigit x = true :=
    ⟨_, List.getLast?_eq_some_getLast Nat.toDigits_ne_nil,
      isDigit_of_mem_toDigits (List.getLast_mem _)⟩
  cases e with
  | ofNat k =>
    simp only [body]
    split_ifs with hc
    · exact digits_last
    · rcases k with _ | k
      · simpa using digits_last
      · exact ⟨'0', by simp [List.getLast?_append, List.getLast?_replicate], rfl⟩
  | negSucc k =>
    obtain ⟨x, hx, digit⟩ := digits_last
    refine ⟨x, ?_, digit⟩
    simp only [body]
    split_ifs with hk
    · have hne : (Nat.toDigits 10 c).drop ((Nat.toDigits 10 c).length - (k + 1)) ≠ [] := by
        rw [ne_eq, List.drop_eq_nil_iff]
        omega
      have last : ((Nat.toDigits 10 c).drop ((Nat.toDigits 10 c).length - (k + 1))).getLast? =
          (Nat.toDigits 10 c).getLast? := by
        rw [List.getLast?_drop, if_neg (by omega)]
      rw [List.getLast?_append, List.getLast?_cons, last, hx]
      rfl
    · rw [List.getLast?_append, List.getLast?_cons, List.getLast?_append, hx]
      rfl

end Decimal

namespace Numeral

theorem format_getLast (n : Numeral) :
    ∃ c, n.value.format.toList.getLast? = some c ∧ Decimal.isDigit c = true := by
  have regular := n.isRegular
  simp only [Bool.and_eq_true, Bool.not_eq_true'] at regular
  obtain ⟨d, text, -⟩ := Binary64.format_eq_positional regular.1 regular.2
  obtain ⟨c, last, digit⟩ := d.body_getLast
  refine ⟨c, ?_, digit⟩
  rw [text, Decimal.positional_eq, String.toList_append, String.toList_ofList,
    List.getLast?_append, last]
  rfl

end Numeral

namespace Literal

theorem escaped_injective (d : Char) {cs ds : List Char} (h : escaped d cs = escaped d ds) :
    cs = ds := by
  induction cs generalizing ds with
  | nil =>
    cases ds with
    | nil => rfl
    | cons c r => simp only [escaped] at h; split_ifs at h
  | cons a as ih =>
    cases ds with
    | nil => simp only [escaped] at h; split_ifs at h
    | cons c r =>
      simp only [escaped, Bool.or_eq_true, decide_eq_true_eq] at h
      split_ifs at h with ha hc hc
      · simp only [List.cons.injEq, true_and] at h
        rw [h.1, ih h.2]
      · exact absurd (Or.inl (List.cons.inj h).1.symm) hc
      · exact absurd (Or.inl (List.cons.inj h).1) ha
      · simp only [List.cons.injEq] at h
        rw [h.1, ih h.2]

theorem toList_quoted (text : String) :
    (quoted text).toList = delimiter text.toList ::
      (escaped (delimiter text.toList) text.toList ++ [delimiter text.toList]) := by
  simp [quoted]

theorem quoted_injective {s t : String} (h : quoted s = quoted t) : s = t := by
  have lists := congrArg String.toList h
  rw [toList_quoted, toList_quoted] at lists
  obtain ⟨same_delimiter, rest⟩ := List.cons.inj lists
  rw [same_delimiter] at rest
  exact String.toList_injective (escaped_injective _ (List.append_cancel_right rest))

/-- The kind of a literal, by the last character of its expression. -/
def kindOfLast (c : Char) : Nat :=
  if c = 'e' then 0 else if c = 'l' then 1 else if Decimal.isDigit c then 2
  else if c = 'n' then 4 else 3

def kind : Literal → Nat
  | boolean _ => 0
  | null => 1
  | number _ => 2
  | string _ => 3
  | bigint _ => 4

theorem expression_getLast (l : Literal) :
    ∃ c, l.expression.toList.getLast? = some c ∧ kindOfLast c = l.kind := by
  cases l with
  | boolean b => cases b <;> exact ⟨'e', rfl, rfl⟩
  | null => exact ⟨'l', rfl, rfl⟩
  | number n =>
    obtain ⟨c, last, digit⟩ := n.format_getLast
    refine ⟨c, last, ?_⟩
    have not_e : c ≠ 'e' := by rintro rfl; exact absurd digit (by decide)
    have not_l : c ≠ 'l' := by rintro rfl; exact absurd digit (by decide)
    simp [kindOfLast, kind, not_e, not_l, digit]
  | string s =>
    refine ⟨delimiter s.toList, ?_, ?_⟩
    · rw [expression, toList_quoted, ← List.cons_append, List.getLast?_append]
      rfl
    · unfold delimiter
      split_ifs <;> rfl
  | bigint digits =>
    refine ⟨'n', ?_, rfl⟩
    rw [expression, String.toList_append, List.getLast?_append]
    rfl

theorem expression_ne_empty (l : Literal) : l.expression ≠ "" := by
  obtain ⟨c, last, -⟩ := l.expression_getLast
  intro h
  rw [h] at last
  cases last

theorem expression_injective {a b : Literal} (h : a.expression = b.expression) : a = b := by
  have same_kind : a.kind = b.kind := by
    obtain ⟨c, last, kind⟩ := a.expression_getLast
    obtain ⟨d, last', kind'⟩ := b.expression_getLast
    rw [h, last'] at last
    rw [← kind, ← kind', Option.some.inj last]
  cases a <;> cases b <;> simp only [kind] at same_kind <;> try omega
  case boolean.boolean x y => cases x <;> cases y <;> first | rfl | exact absurd h (by decide)
  case null.null => rfl
  case number.number m n => rw [Numeral.format_injective h]
  case string.string s t => rw [quoted_injective h]
  case bigint.bigint s t =>
    have lists := congrArg String.toList h
    simp only [expression, String.toList_append] at lists
    rw [String.toList_injective (List.append_cancel_right lists)]

end Literal

end SchemaAlgebra

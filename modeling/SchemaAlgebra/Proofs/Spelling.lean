import SchemaAlgebra.Proofs.Layout
import SchemaAlgebra.Proofs.Reading
import SchemaAlgebra.Proofs.Routing
import SchemaAlgebra.Proofs.Words

/-!
# Texts that are read again

The text of an operand is scanned to tokens that are read to the node again, and what is
written behind an operand is read as a suffix of it.
-/
namespace SchemaAlgebra

open Parsing
open Scan (Spells Ends)

theorem ExpressionState.divisor_toString {k : Nat}
    (settled : (Constraint.divisor k : Constraint Node).Settled) :
    ExpressionState.divisor? (.word (toString k)) = some k := by
  have digit (c : Char) (hc : c ∈ Nat.toDigits 10 k) : Decimal.isDigit c = true :=
    Decimal.isDigit_of_mem_toDigits hc
  have value := Decimal.valueOf_toDigits k
  have read : Decimal.readNat? (Nat.toDigits 10 k) = some k := by
    obtain ⟨c, r, same⟩ := List.exists_cons_of_ne_nil (Nat.toDigits_ne_nil (n := k) (b := 10))
    rw [same] at digit value ⊢
    have unsigned : c ≠ '+' := by
      rintro rfl
      exact absurd (digit '+' List.mem_cons_self) (by decide)
    have all : (c :: r).all Decimal.isDigit = true := List.all_eq_true.mpr digit
    unfold Decimal.readNat?
    split
    · rename_i heq
      exact absurd (List.cons.inj heq).1 unsigned
    · simp [all, value]
  obtain ⟨positive, small⟩ : 0 < k ∧ k < 2 ^ 64 := settled
  rw [ExpressionState.divisor?, Nat.toString_eq_ofList_toDigits, String.toList_ofList, read]
  rw [Option.filter_some, if_pos (by simpa using ⟨positive, small⟩)]

theorem Numeral.limit_isRegular (x : Numeral) : (Limit.inclusive x.value).IsRegular := by
  obtain ⟨finite, signed⟩ := Bool.and_eq_true_iff.mp x.isRegular
  exact ⟨finite, Bool.not_eq_true' _ ▸ signed⟩

theorem Limit.IsRegular.word {a : Limit} (h : a.IsRegular) :
    Word.number? a.value.format = some a.value ∧
    a.value.format.toList ≠ [] ∧ ∀ c ∈ a.value.format.toList, Scan.isWordChar c = true :=
  Binary64.format_word h.1 h.2

theorem Limit.IsRegular.literal {a : Limit} (h : a.IsRegular) :
    ∃ x : Numeral, x.value = a.value ∧ Word.literal? a.value.format = some (.number x) := by
  have regular : (a.value.isFinite && !(a.value.negative && a.value.isZero)) = true := by
    rw [h.1, h.2]; rfl
  refine ⟨⟨a.value, regular⟩, rfl, ?_⟩
  rw [Word.literal?, h.word.1]
  exact (Literal.ofBinary64_eq_iff ⟨a.value, regular⟩ a.value).mpr (Binary64.eq_refl h.1)

theorem Range.eq_exactly {a b : Limit} (ha : a.IsRegular) (hb : b.IsRegular)
    (single : (a.value.eq b.value && !a.exclusive && !b.exclusive) = true) :
    (⟨some a, some b⟩ : Range) = .exactly a.value := by
  simp only [Bool.and_eq_true, Bool.not_eq_true'] at single
  have value := ha.value_eq hb (Binary64.rank_of_eq single.1.1)
  obtain ⟨x, e⟩ := a
  obtain ⟨y, f⟩ := b
  obtain ⟨⟨-, rfl⟩, rfl⟩ := single
  cases value
  rfl

variable [Library]

namespace Descent

variable (lookup : Lookup)

/-- The characters are those of an operand. One that is free may stand behind a left bound. -/
structure Spelled (free : Bool) (cs : List Char) (n : Node) : Prop where
  opens : ∃ c r, cs = c :: r ∧ c ≠ '='
  read : ∃ ts, Spells cs ts ∧ ∀ left, (free = true ∨ left = none) →
    Bounded lookup left ts n

variable {lookup} {free : Bool} {cs ds : List Char} {n m : Node}

namespace Spelled

theorem some_char (h : Spelled lookup free cs n) : cs ≠ [] := by
  obtain ⟨c, r, rfl, -⟩ := h.opens
  exact List.cons_ne_nil c r

theorem bound (h : Spelled lookup true cs n) : Spelled lookup false cs n := by
  obtain ⟨ts, spells, read⟩ := h.read
  exact ⟨h.opens, ts, spells, fun left _ => read left (.inl rfl)⟩

theorem suffix (h : Spelled lookup free cs n) {us : List Token} (spells : Spells ds us)
    (ends : Ends ds) (some_suffix : ds ≠ [])
    (onward : ∀ left rest Q, Onward lookup left m rest Q →
      Onward lookup left n (us.map .ok ++ rest) Q) : Spelled lookup free (cs ++ ds) m := by
  obtain ⟨⟨c, r, rfl, other⟩, ts, first, read⟩ := h
  exact ⟨⟨c, r ++ ds, rfl, other⟩, ts ++ us, first.append spells ends some_suffix,
    fun left hl => (read left hl).suffix (onward left)⟩

theorem list (h : Spelled lookup free cs n) : Spelled lookup free (cs ++ ['[', ']']) n.array :=
  h.suffix .list (Scan.ends_cons (by decide) _) nofun fun _ _ _ later => later.list

theorem brand (h : Spelled lookup free cs n) {name : String}
    (written : (Node.of (.brand name)).Written)
    (met : (meet n (.of (.brand name))).outcome id = .ok m) :
    Spelled lookup free (cs ++ ("#" ++ name).toList) m := by
  have spells := Spells.brand written.form.1 written.form.2
  rw [show ("#" ++ name).toList = '#' :: name.toList by simp]
  exact h.suffix spells (Scan.ends_cons (by decide) _) nofun fun _ _ _ later => later.brand met

theorem divisor (h : Spelled lookup free cs n) {k : Nat} (written : (Node.of (.divisor k)).Written)
    (plain : n.isPlain = true) (number : n.domain? = some .number)
    (met : (meet n (.of (.divisor k))).outcome id = .ok m) :
    Spelled lookup free (cs ++ ("%" ++ toString k).toList) m := by
  have text : (toString k).toList = Nat.toDigits 10 k := by
    rw [Nat.toString_eq_ofList_toDigits, String.toList_ofList]
  have word : Spells (toString k).toList [.word (toString k)] := by
    have spells := Spells.word (w := (toString k).toList) (by rw [text]; exact Nat.toDigits_ne_nil)
        fun c hc =>
      Decimal.isWordChar_of_isDigit (Decimal.isDigit_of_mem_toDigits (text ▸ hc))
    rwa [String.ofList_toList] at spells
  have spells : Spells (['%'] ++ (toString k).toList) [.percent, .word (toString k)] :=
    Spells.of_first (fun rest => rfl) nofun word
  rw [show ("%" ++ toString k).toList =
    '%' :: (toString k).toList by rw [String.toList_append]; rfl]
  refine h.suffix spells (Scan.ends_cons (by decide) _) nofun fun _ _ _ later => ?_
  exact later.divisor (ExpressionState.divisor_toString written.reduced.settled) plain number met

end Spelled

theorem result_literal_word {text : String} {l : Literal} (h : Word.literal? text = some l) :
    Result (ExpressionState.word lookup text) (some (.of (.literal l))) := by
  rw [ExpressionState.word, h]
  exact result_literal l

theorem result_keyword (bare : lookup.Bare) {text : String} (other : Word.literal? text = none)
    {x : Traced Node} (keyword : Word.keyword? text = some x) (built : Result (build x) (some n)) :
    Result (ExpressionState.word lookup text) (some n) := by
  simp only [ExpressionState.word, other, bare text, pure_bind, keyword]
  exact built

theorem Spelled.word {text : String} (some_char : text.toList ≠ [])
    (word : ∀ c ∈ text.toList, Scan.isWordChar c = true)
    (result : Result (ExpressionState.word lookup text) (some n)) :
    Spelled lookup true text.toList n := by
  have spells := Spells.word some_char word
  rw [String.ofList_toList] at spells
  obtain ⟨c, r, same⟩ := List.exists_cons_of_ne_nil some_char
  refine ⟨⟨c, r, same, ?_⟩, _, spells, fun left _ => .word result⟩
  rintro rfl
  exact absurd (word '=' (by simp [same])) (by decide)

theorem Spelled.keyword (bare : lookup.Bare) {text : String} (some_char : text.toList ≠ [])
    (word : text.toList.all Scan.isWordChar = true) (other : Word.literal? text = none)
    {x : Traced Node} (keyword : Word.keyword? text = some x) (built : Result (build x) (some n)) :
    Spelled lookup true text.toList n :=
  .word some_char (List.all_eq_true.mp word) (result_keyword bare other keyword built)

theorem Spelled.literal (bare : lookup.Bare) {l : Literal} (written : l.IsWritten) :
    Spelled lookup true l.expression.toList (.of (.literal l)) := by
  cases l with
  | boolean b => cases b <;> exact .keyword bare (by decide) (by decide) rfl rfl (result_literal _)
  | null => exact .keyword bare (by decide) (by decide) rfl rfl (result_literal _)
  | number x =>
    obtain ⟨-, some_char, word⟩ := x.limit_isRegular.word
    obtain ⟨⟨y, regular⟩, same, found⟩ := x.limit_isRegular.literal
    cases same
    exact .word some_char word (result_literal_word found)
  | string s =>
    obtain ⟨d, quote, spells⟩ := Spells.quoted s
    refine ⟨⟨_, _, String.toList_ofList, ?_⟩, _, spells, fun left _ => .quoted quote s⟩
    rw [Literal.delimiter]
    split_ifs <;> decide
  | bigint digits =>
    refine .word (by simp [Literal.expression]) (fun c hc => ?_) (result_literal_word written.2)
    simp only [Literal.expression, String.toList_append, List.mem_append] at hc
    rcases hc with hc | hc
    · exact written.1 c hc
    · cases List.mem_singleton.mp hc
      rfl

theorem Spelled.kind (bare : lookup.Bare) {k : Constraint Node} (fixed : k.rank = 0)
    (written : k.IsWritten) :
    ∃ text, (Node.of k).text? = some text ∧ Spelled lookup true text.toList (.of k) := by
  cases k with
  | domain d =>
    refine ⟨d.name, Node.text?.eq_1 d, ?_⟩
    cases d with
    | null => exact absurd rfl written
    | _ => exact .keyword bare (by decide) (by decide) rfl rfl (result_constraint rfl)
  | literal l => exact ⟨l.expression, Node.text?.eq_2 l, .literal bare written⟩
  | basis b =>
    refine ⟨b.name, Node.text?.eq_3 b, ?_⟩
    cases b <;> exact .keyword bare (by decide) (by decide) rfl rfl (result_constraint rfl)
  | _ => cases fixed

omit [Library] in
theorem spells_limit (c : Comparator) {a : Limit} (regular : a.IsRegular) :
    Spells (c.text ++ a.value.format).toList [.comparator c, .word a.value.format] := by
  obtain ⟨-, some_char, word⟩ := regular.word
  have spells := Spells.word some_char word
  rw [String.ofList_toList] at spells
  rw [String.toList_append]
  refine Spells.comparator c spells (fun d hd => ?_) some_char
  rintro rfl
  exact absurd (word '=' (List.mem_of_mem_head? hd)) (by decide)

omit [Library] in
theorem ends_limit (c : Comparator) (text : String) : Ends (c.text ++ text).toList := by
  rw [String.toList_append]
  cases c <;> exact Scan.ends_cons (by decide) _

namespace Spelled

variable (plain : n.isPlain = true) (sizable : ExpressionState.isSizable n = true)
  (number : ∀ x, n.constraint ≠ .literal (.number x))
include plain sizable number

theorem limit (h : Spelled lookup free cs n) (c : Comparator) {a : Limit} (regular : a.IsRegular)
    (bare : (ExpressionState.rangeOf c a.value).canonical = ExpressionState.rangeOf c a.value)
    (met : (meet n (.of (.bound (ExpressionState.rangeOf c a.value)))).outcome id = .ok m) :
    Spelled lookup false (cs ++ (c.text ++ a.value.format).toList) m := by
  obtain ⟨⟨d, r, rfl, other⟩, ts, first, read⟩ := h
  have some_char : (c.text ++ a.value.format).toList ≠ [] := by cases c <;> simp [Comparator.text]
  refine ⟨⟨d, _, rfl, other⟩, _,
    first.append (spells_limit c regular) (ends_limit c _) some_char, fun left hl => ?_⟩
  obtain rfl : left = none := hl.resolve_left Bool.false_ne_true
  rw [← bare] at met
  exact (read none (.inr rfl)).suffix fun rest Q later =>
    later.bound regular.word.1 rfl plain sizable number met

theorem within {text : String} (h : Spelled lookup true text.toList n) {c e : Comparator}
    (upper : c.isUpper = true) (upper' : e.isUpper = true) {a b : Limit} (ha : a.IsRegular)
    (hb : b.IsRegular) {range : Range}
    (combined : (ExpressionState.rangeOf c.invert a.value).intersect?
      (ExpressionState.rangeOf e b.value) = some range)
    (bare : range.canonical = range) (met : (meet n (.of (.bound range))).outcome id = .ok m) :
    Spelled lookup false (a.value.format ++ c.text ++ text ++ (e.text ++ b.value.format)).toList
      m := by
  obtain ⟨⟨d, r, opens, other⟩, ts, first, read⟩ := h
  obtain ⟨-, some_char, word⟩ := ha.word
  obtain ⟨x, xs, same⟩ := List.exists_cons_of_ne_nil some_char
  have number_word := Spells.word some_char word
  rw [String.ofList_toList] at number_word
  have behind : (e.text ++ b.value.format).toList ≠ [] := by cases e <;> simp [Comparator.text]
  have operand := first.append (spells_limit e hb) (ends_limit e _) behind
  have bounded := Spells.comparator c operand
      (fun y hy => by rw [opens] at hy; cases hy; exact other) (by simp [opens])
  have spells := number_word.append bounded (by cases c <;> exact Scan.ends_cons (by decide) _)
    (by cases c <;> simp [Comparator.text])
  have chars : (a.value.format ++ c.text ++ text ++ (e.text ++ b.value.format)).toList =
      a.value.format.toList ++
        (c.text.toList ++ (text.toList ++ (e.text ++ b.value.format).toList)) := by simp
  rw [chars]
  refine ⟨⟨x, _, by rw [same]; rfl, ?_⟩, _, spells, fun left hl => ?_⟩
  · rintro rfl
    exact absurd (word '=' (by simp [same])) (by decide)
  · obtain rfl : left = none := hl.resolve_left Bool.false_ne_true
    obtain ⟨y, value, found⟩ := ha.literal
    rw [← bare] at met
    intro rest Q later
    have tokens : ([Token.word a.value.format] ++ Token.comparator c :: (ts ++ [Token.comparator e,
        Token.word b.value.format])).map Except.ok ++ rest =
          [Token.word a.value.format].map Except.ok ++
          ((.ok (.comparator c) : Except Fault Token) ::
            (ts.map .ok ++ (.ok (.comparator e) :: .ok (.word b.value.format) :: rest))) := by simp
    rw [tokens]
    refine Bounded.word (result_literal_word found) _ _ (.leftBound upper ?_)
    refine read (some ⟨y.value, c⟩) (.inl rfl) _ _
      (.bound hb.word.1 ?_ plain sizable number met later)
    rw [ExpressionState.combinedRange, upper', value, combined]
    rfl

theorem range (h : Spelled lookup true cs n) {r : Range} (written : (Node.of (.bound r)).Written)
    (met : (meet n (.of (.bound r))).outcome id = .ok m) {text : String}
    (operand : cs = text.toList) : Spelled lookup false (r.applied text).toList m := by
  obtain ⟨bare, limited, nonempty⟩ : r.IsWritten := written.form
  obtain ⟨lower, upper⟩ := Range.limits_isRegular written.reduced.settled bare
  subst operand
  obtain ⟨lo, hi⟩ := r
  match lo, hi with
  | none, none => simp at limited
  | some ⟨x, exclusive⟩, none =>
    have regular := lower _ rfl
    rw [show Range.applied ⟨some ⟨x, exclusive⟩, none⟩ text = text ++ Range.lowerText
      ⟨x, exclusive⟩ from rfl, String.toList_append]
    cases exclusive with
    | true => exact h.limit plain sizable number .gt regular bare met
    | false => exact h.limit plain sizable number .ge regular bare met
  | none, some ⟨x, exclusive⟩ =>
    have regular := upper _ rfl
    rw [show Range.applied ⟨none, some ⟨x, exclusive⟩⟩ text = text ++ Range.upperText
      ⟨x, exclusive⟩ from rfl, String.toList_append]
    cases exclusive with
    | true => exact h.limit plain sizable number .lt regular bare met
    | false => exact h.limit plain sizable number .le regular bare met
  | some a, some b =>
    have ha := lower a rfl
    have hb := upper b rfl
    by_cases single : (a.value.eq b.value && !a.exclusive && !b.exclusive) = true
    · have exactly := Range.eq_exactly ha hb single
      have applied : Range.applied ⟨some a, some b⟩ text =
          text ++ (Comparator.eq.text ++ a.value.format) := by
        rw [Range.applied, Range.single?]
        simp only [single, if_true]
        rw [String.append_assoc]
        rfl
      rw [applied, String.toList_append]
      rw [exactly] at bare met
      exact h.limit plain sizable number .eq ha bare met
    · have applied : Range.applied ⟨some a, some b⟩ text =
          a.value.format ++ (if a.exclusive then "<" else "<=") ++ text ++ Range.upperText b := by
        rw [Range.applied, Range.single?]
        simp only [single, Bool.false_eq_true, if_false]
      have both : Range.intersect? ⟨some a, none⟩ ⟨none, some b⟩ =
          some ⟨some a, some b⟩ := by
        rw [Range.intersect?]
        exact if_neg (Bool.eq_false_iff.mp nonempty)
      rw [applied]
      obtain ⟨x, e⟩ := a
      obtain ⟨y, f⟩ := b
      cases e <;> cases f
      · exact h.within plain sizable number (c := .le) (e := .le) rfl rfl ha hb both bare met
      · exact h.within plain sizable number (c := .le) (e := .lt) rfl rfl ha hb both bare met
      · exact h.within plain sizable number (c := .lt) (e := .le) rfl rfl ha hb both bare met
      · exact h.within plain sizable number (c := .lt) (e := .lt) rfl rfl ha hb both bare met

end Spelled

end Descent

end SchemaAlgebra

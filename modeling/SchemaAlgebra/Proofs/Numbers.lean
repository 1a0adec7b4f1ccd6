import SchemaAlgebra.Proofs.Narrowing
import SchemaAlgebra.Proofs.Nearest
import SchemaAlgebra.Proofs.RoundTrip
import SchemaAlgebra.Proofs.Validation
import SchemaAlgebra.Standard

/-!
# Checks of whole numbers

Whole numbers are compared and divided as doubles: what is tested is the nearest number of 53 bits,
which is the number itself as long as it has no more.
-/
namespace SchemaAlgebra

section

open Descent Parsing
open Binary64 (nearest)

/-- Validating a value against the node comes to the verdict, whatever is bound and capped. -/
def Node.Validates [Library] (n : Node) (d : Json) (verdict : Bool) : Prop :=
  ∀ (b : Bindings) (maxDepth : Option Nat),
    (∀ patience v, n.compile.allows b patience maxDepth d = some v → v.outcome = verdict) ∧
      ∃ least, ∀ patience, least ≤ patience →
        n.compile.allows b patience maxDepth d = some ⟨verdict, []⟩

theorem Node.validates [Library] {n m : Node} (same : m.same n = true)
    (hasAlias : n.hasAlias = false) {d : Json} {verdict : Bool} (admits : n.admits d = verdict) :
    m.Validates d verdict := by
  subst admits
  intro b maxDepth
  rw [show n.admits d = m.admits d from congrFun (admitsWith_congr same).symm d]
  exact compile_allows_eq_admits ((hasAlias_congr same).trans hasAlias) b maxDepth d

/-- The numbers that are multiples of all the divisors. -/
def Node.multiples (divisors : List Nat) : Node :=
  .of (.intersection (.of (.domain .number) :: divisors.map (.of <| .divisor ·)))

theorem Node.admits_multiples [Library] (divisors : List Nat) (x : Number) :
    (multiples divisors).admits (.number x) =
      divisors.all (x.toBinary64.isMultipleOf <| .ofNat ·) := by
  simp [multiples, Node.admits_of, Node.constraintAdmits, Constraint.map, Json.isMultipleOf,
    Domain.of, Function.comp_def]

theorem Node.hasAlias_multiples (divisors : List Nat) : (multiples divisors).hasAlias = false := by
  rw [multiples, hasAlias, fold_of]
  refine List.any_eq_false.mpr fun b hb => ?_
  simp only [Constraint.children, Constraint.map, List.map_cons, List.map_map, List.mem_cons,
    List.mem_map] at hb
  rcases hb with rfl | ⟨d, -, rfl⟩ <;> exact Bool.false_ne_true

theorem Descent.Spelled.parse [Library] {s : Scope} {free : Bool} {text : String} {n : Node}
    (spelled : Spelled s.lookup free text.toList n)
    (united : (determinateUnion [n]).value id = .ok n) :
    ∃ m, (s.parse text).1 = .ok m ∧ m.same n = true := by
  obtain ⟨-, ts, spells, read⟩ := spelled
  have inter := (read none (.inr rfl)).inter
  have expr : Expr s.lookup (ts ++ barred (([] : List (List Token × Node)).map Prod.fst)) n :=
    .of_inters inter nofun united
  rw [List.map_nil, show barred [] = [] from rfl, List.append_nil] at expr
  obtain ⟨m, parsed, same⟩ := Scope.noted_of_yields (s := s) text (expr.yields spells)
  exact ⟨m, parsed, same ▸ Node.same_iff.mpr m.erase_erase.symm⟩

theorem Limit.IsRegular.canonical {a : Limit} (regular : a.IsRegular) : a.canonical = a := by
  rw [Limit.canonical, if_neg (Bool.eq_false_iff.mp regular.isNaN)]
  split_ifs with zero
  · obtain ⟨-, signed⟩ := regular
    rw [zero, Bool.and_true] at signed
    obtain ⟨x, exclusive⟩ := a
    have value : x = .zero := by
      rw [← Binary64.ofParts_parts x, show x.negative = false from signed,
        show x.magnitude = 0 from beq_iff_eq.mp zero]
      rfl
    rw [value]
  · rfl

/-- A limit at a whole number, with its own value. -/
abbrev Limit.at (a : ℤ) : Limit := .inclusive (.ofInt a)

/-- The sizes from one whole number to another. -/
abbrev Range.between (a b : ℤ) : Range := ⟨some (.at a), some (.at b)⟩

section

variable {a b : ℤ} (small : a.natAbs ≤ 2 ^ 53) (small' : b.natAbs ≤ 2 ^ 53)
include small

theorem Limit.at_isRegular : (Limit.at a).IsRegular := by
  have finite : a.natAbs < 2 ^ 64 := by omega
  exact ⟨(Binary64.ofInt_parts finite).1, Binary64.ofInt_regular finite⟩

include small'

theorem Range.between_canonical : (Range.between a b).canonical = .between a b := by
  rw [Range.canonical, Option.map_some, Option.map_some, (Limit.at_isRegular small).canonical,
    (Limit.at_isRegular small').canonical]

theorem Range.intersect_between (ordered : a ≤ b) :
    Range.intersect? (.atLeast (.at a)) (.atMost (.at b)) = some (.between a b) := by
  have number : (Binary64.ofInt a).isNaN = false := (Limit.at_isRegular small).isNaN
  have number' : (Binary64.ofInt b).isNaN = false := (Limit.at_isRegular small').isNaN
  have ranks : (Binary64.ofInt a).rank ≤ (Binary64.ofInt b).rank := by
    have less := Binary64.lt_ofInt (n := b) (a := a) (by omega) (by omega)
    rw [Binary64.nearest_of_natAbs_le small, Binary64.nearest_of_natAbs_le small', Binary64.lt,
      number, number'] at less
    simpa using (not_congr less).mpr (by omega)
  have filled : (Range.between a b).isEmpty = false := by
    rw [Range.isEmpty]
    simp only [Binary64.compare?, Limit.inclusive, number, number', Bool.or_self,
      Bool.false_eq_true, if_false]
    rcases Int.lt_or_eq_of_le ranks with less | same
    · rw [compare_lt_iff_lt.mpr less]
    · rw [compare_eq_iff_eq.mpr same]
  rw [Range.intersect?]
  exact if_neg (Bool.eq_false_iff.mp filled)

end

theorem Range.allows_between {a b n : ℤ} (small : a.natAbs ≤ 2 ^ 53)
    (small' : b.natAbs ≤ 2 ^ 53) (finite : n.natAbs < 2 ^ 64) :
    (Range.between a b).allows (.ofInt n) = decide (a ≤ nearest n ∧ nearest n ≤ b) := by
  have below := Binary64.lt_ofInt (n := n) (a := a) finite (by omega)
  have above := Binary64.lt_ofInt (n := b) (a := n) (by omega) finite
  rw [Binary64.nearest_of_natAbs_le small] at below
  rw [Binary64.nearest_of_natAbs_le small'] at above
  rw [Bool.eq_iff_iff, decide_eq_true_iff]
  simp only [Range.allows, Range.aboveLower, Range.belowUpper, Limit.inclusive, Bool.false_and,
    Bool.or_false, Bool.and_eq_true,
    Bool.not_eq_true', ← Bool.not_eq_true, below, above, not_lt]

variable [Library]

namespace Scope

variable {s : Scope} (empty : s.declarations.aliases = []) {n : ℤ} (finite : n.natAbs < 2 ^ 64)
include empty

omit finite in
theorem spelled_number : Spelled s.lookup true "number".toList (.of (.domain .number)) :=
  .keyword (lookup_bare empty) (by decide) (by decide) rfl rfl (result_constraint rfl)

include finite

omit finite in
theorem parse_multiples {d : Nat} (positive : 0 < d) (small : d < 2 ^ 64) :
    ∃ m, (s.parse ("number%" ++ toString d)).1 = .ok m ∧ m.same (.multiples [d]) = true := by
  have written : (Node.of (.divisor d)).Written := .of _ ⟨positive, small⟩ trivial nofun
  have spelled := (spelled_number empty).divisor written rfl rfl (m := .multiples [d]) rfl
  rw [← String.toList_append, ← String.append_assoc] at spelled
  exact spelled.parse rfl

theorem parse_divisor {d : Nat} (positive : 0 < d) (small : d < 2 ^ 64) :
    ∃ m, (s.parse ("number%" ++ toString d)).1 = .ok m ∧
      m.Validates (.number (.int n)) (decide (nearest d ∣ nearest n)) := by
  obtain ⟨m, parsed, same⟩ := parse_multiples empty positive small
  refine ⟨m, parsed, Node.validates same (Node.hasAlias_multiples _) ?_⟩
  rw [Bool.eq_iff_iff, decide_eq_true_iff, ← Binary64.isMultipleOf_ofInt finite positive small,
    Node.admits_multiples, List.all_cons, List.all_nil, Bool.and_true]
  rfl

theorem parse_between {a b : ℤ} (ordered : a ≤ b) (small : a.natAbs ≤ 2 ^ 53)
    (small' : b.natAbs ≤ 2 ^ 53) :
    ∃ m, (s.parse (toString a ++ "<=number<=" ++ toString b)).1 = .ok m ∧
      m.Validates (.number (.int n)) (decide (a ≤ nearest n ∧ nearest n ≤ b)) := by
  have spelled := (spelled_number empty).within rfl rfl (fun x h => by cases h) (c := .le)
      (e := .le) rfl rfl
    (Limit.at_isRegular small) (Limit.at_isRegular small')
      (Range.intersect_between small small' ordered) (Range.between_canonical small small')
    (m := .of (.intersection [.of (.domain .number), .of (.bound (.between a b))])) rfl
  rw [show (Limit.at a).value.format = _ from Binary64.format_ofInt small,
    show (Limit.at b).value.format = _ from Binary64.format_ofInt small'] at spelled
  obtain ⟨m, parsed, same⟩ := spelled.parse rfl
  have text : toString a ++ "<=" ++ "number" ++ ("<=" ++ toString b) = toString a ++ "<=number<=" ++
      toString b := by
    rw [show "<=number<=" = "<=" ++ "number" ++ "<=" from rfl]
    simp only [String.append_assoc]
  refine ⟨m, text ▸ parsed, Node.validates same rfl ?_⟩
  rw [← Range.allows_between small small' finite]
  simp [Node.admits_of, Node.constraintAdmits, Constraint.map, Json.size?, Domain.of,
    Number.toBinary64]

omit empty in
theorem parse_whole {a : ℤ} (small : a.natAbs ≤ 2 ^ 53) :
    ∃ m, (s.parse (toString a)).1 = .ok m ∧
      m.Validates (.number (.int n)) (decide (nearest n = a)) := by
  have regular := Limit.at_isRegular small
  obtain ⟨x, value, literal⟩ := regular.literal
  obtain ⟨-, some_char, word⟩ := regular.word
  have spelled : Spelled s.lookup true _ _ := .word some_char word (result_literal_word literal)
  rw [show (Limit.at a).value.format = _ from Binary64.format_ofInt small] at spelled
  obtain ⟨m, parsed, same⟩ := spelled.parse rfl
  refine ⟨m, parsed, Node.validates same rfl ?_⟩
  have equal := Binary64.eq_ofInt (n := a) (a := n) (by omega) finite
  rw [Binary64.nearest_of_natAbs_le small, ← show x.value = .ofInt a from value] at equal
  rw [Bool.eq_iff_iff, decide_eq_true_iff, eq_comm (a := nearest n), ← equal]
  exact Iff.rfl

/-- Multiples, limits and literals are tested with the nearest numbers of 53 bits, in exact
arithmetic. The nearest number is the number itself up to two to the 53rd. -/
theorem parse_number :
    (∀ d : Nat, 0 < d → d < 2 ^ 64 → ∃ m, (s.parse ("number%" ++ toString d)).1 = .ok m ∧
      m.Validates (.number (.int n)) (decide (nearest d ∣ nearest n))) ∧
    (∀ a b : ℤ, a ≤ b → a.natAbs ≤ 2 ^ 53 → b.natAbs ≤ 2 ^ 53 →
      ∃ m, (s.parse (toString a ++ "<=number<=" ++ toString b)).1 = .ok m ∧
        m.Validates (.number (.int n)) (decide (a ≤ nearest n ∧ nearest n ≤ b))) ∧
    (∀ a : ℤ, a.natAbs ≤ 2 ^ 53 → ∃ m, (s.parse (toString a)).1 = .ok m ∧
      m.Validates (.number (.int n)) (decide (nearest n = a))) ∧
    (n.natAbs ≤ 2 ^ 53 → nearest n = n ∧
      ∀ d : Nat, d ≤ 2 ^ 53 ∨ n.natAbs < 2 ^ 53 →
        (nearest d ∣ nearest n ↔ (d : ℤ) ∣ n)) :=
  ⟨fun _ positive small => parse_divisor empty finite positive small,
    fun _ _ ordered small small' => parse_between empty finite ordered small small',
    fun _ small => parse_whole finite small,
    fun small => ⟨Binary64.nearest_of_natAbs_le small,
      fun _ exact => Binary64.nearest_dvd_iff small exact⟩⟩

end Scope

end

namespace Scope

attribute [local instance] Library.standard

/-- Above two to the 53rd the neighbour is tested: it is no multiple of three, and is within the
limit. -/
theorem parse_number_neighbour :
    (∃ m, ((ofDeclarations 0 .empty).parse "number%3").1 = .ok m ∧
      m.Validates (.number (.int (2 ^ 53 + 1))) false) ∧
    (∃ m, ((ofDeclarations 0 .empty).parse "0<=number<=9007199254740992").1 = .ok m ∧
      m.Validates (.number (.int (2 ^ 53 + 1))) true) ∧
    ∃ m, ((ofDeclarations 0 .empty).parse "9007199254740992").1 = .ok m ∧
      m.Validates (.number (.int (2 ^ 53 + 1))) true := by
  obtain ⟨divisors, ranges, literals, -⟩ :=
    parse_number (s := ofDeclarations 0 .empty) rfl (n := 2 ^ 53 + 1) (by decide)
  have third := divisors 3 (by decide) (by decide)
  have limited := ranges 0 (2 ^ 53) (by decide) (by decide) (by decide)
  have exactly := literals (2 ^ 53) (by decide)
  exact ⟨third, limited, exactly⟩

end Scope

end SchemaAlgebra

import SchemaAlgebra.Proofs.Wording
import SchemaAlgebra.Standard

/-!
# Expressions are read back

The expression of a node that was parsed is parsed to the same node. A node has the same text
as what is left of it when names and the forms of limits are erased, and that is written.
-/
namespace SchemaAlgebra

section

namespace Binary64

theorem format_of_isZero {x : Binary64} (zero : x.isZero = true) : x.format = "0" := by
  have magnitude : x.magnitude = 0 := by simpa [isZero] using zero
  have fraction : x.fraction.1 = 0 := by
    rw [Binary64.fraction]
    split <;> simp [significand, magnitude]
  have whole : (x.isWhole && x.isSmall) = true := by
    simp [isWhole, isSmall, isFinite, infinityBits, magnitude, fraction]
  have value : x.toInt = 0 := by simp [toInt, fraction]
  rw [format, if_pos whole, value]
  rfl

theorem format_of_isNaN {x : Binary64} (nan : x.isNaN = true) : x.format = "NaN" := by
  have infinite : x.isFinite = false := by
    simp only [isNaN, isFinite, decide_eq_true_eq, decide_eq_false_iff_not] at nan ⊢
    omega
  rw [format, isWhole, infinite, toPositional, nan]
  rfl

end Binary64

namespace Limit

theorem format_canonical (a : Limit) : a.canonical.value.format = a.value.format := by
  rw [canonical]
  split_ifs with zero nan
  · rw [Binary64.format_of_isZero zero]
    exact Binary64.format_of_isZero rfl
  · rw [Binary64.format_of_isNaN nan]
    exact Binary64.format_of_isNaN rfl
  · rfl

theorem eq_canonical (a b : Limit) :
    a.canonical.value.eq b.canonical.value = a.value.eq b.value := by
  obtain ⟨nan, rank⟩ := a.canonical_value
  obtain ⟨nan', rank'⟩ := b.canonical_value
  rw [Binary64.eq, Binary64.eq, nan, nan']
  cases number : a.value.isNaN <;> cases number' : b.value.isNaN <;> first | rfl | skip
  rw [rank number, rank' number']

end Limit

namespace Range

variable (r : Range)

theorem single_canonical : r.single? = none ∧ r.canonical.single? = none ∨
    ∃ x y, r.single? = some x ∧ r.canonical.single? = some y ∧ y.format = x.format := by
  obtain ⟨lower, upper⟩ := r
  cases lower <;> cases upper <;> first | exact .inl ⟨rfl, rfl⟩ | skip
  rename_i a b
  simp only [canonical, single?, Option.map_some, Limit.eq_canonical, Limit.canonical_exclusive]
  split_ifs
  · exact .inr ⟨_, _, rfl, rfl, a.format_canonical⟩
  · exact .inl ⟨rfl, rfl⟩

theorem limitText_canonical (a : Limit) :
    lowerText a.canonical = lowerText a ∧ upperText a.canonical = upperText a := by
  simp only [lowerText, upperText, Limit.canonical_exclusive, Limit.format_canonical, and_self]

theorem expression_canonical : r.canonical.expression = r.expression := by
  have limits : r.canonical.limitTexts = r.limitTexts := by
    obtain ⟨lower, upper⟩ := r
    cases lower <;> cases upper <;> simp [canonical, limitTexts, limitText_canonical]
  rw [expression, expression, limits]
  rcases r.single_canonical with ⟨h, h'⟩ | ⟨x, y, h, h', format⟩
  · rw [h, h']
  · simp only [h, h', format]

theorem applied_canonical (operand : String) : r.canonical.applied operand = r.applied operand := by
  rw [applied, applied]
  rcases r.single_canonical with ⟨h, h'⟩ | ⟨x, y, h, h', format⟩
  · rw [h, h']
    obtain ⟨lower, upper⟩ := r
    cases lower <;> cases upper <;>
      simp [canonical, limitText_canonical, Limit.format_canonical, Limit.canonical_exclusive]
  · simp only [h, h', format]

end Range

namespace Node

/-- The parts with the range in canonical form. -/
def Phrase.canonical (p : Phrase) : Phrase := { p with range := p.range.map (·.canonical) }

theorem Phrase.text_canonical (p : Phrase) : p.canonical.text = p.text := by
  have bounded : p.canonical.bounded = p.bounded := by
    obtain ⟨base, isString, range, suffixes, patterns⟩ := p
    cases base <;> cases range <;>
      simp [canonical, Phrase.bounded, Range.applied_canonical, Range.expression_canonical]
  have range : p.canonical.range.isNone = p.range.isNone := by simp [canonical]
  rw [text, text, bounded, range]
  rfl

theorem isArrayBasis_erase (n : Node) : isArrayBasis n.erase = isArrayBasis n := by
  obtain ⟨c⟩ := n
  rw [erase_of]
  cases c <;> rfl

mutual

theorem text_erase : (n : Node) → n.erase.text? = n.text?
  | of (.domain d) => rfl
  | of (.literal l) => rfl
  | of (.basis b) => rfl
  | of (.bound r) => congrArg some r.expression_canonical
  | of (.divisor k) => rfl
  | of (.patterns ps) => rfl
  | of (.props p) => by
    rw [erase_of, text?]
    rfl
  | of (.brand name) => rfl
  | of (.deferred name home) => rfl
  | of (.morph input steps) => by
    rw [erase_of, text?]
    rfl
  | of (.union branches) => by
    rw [erase_of]
    simp only [Constraint.erased, Constraint.map, text?, texts_erase branches, List.isEmpty_map]
  | of (.intersection children) => by
    have basis : (children.map erase).any isArrayBasis = children.any isArrayBasis := by
      simp [List.any_map, Function.comp_def, isArrayBasis_erase]
    have gathered := gather_erase (children.any isArrayBasis) .empty children
    rw [erase_of]
    simp only [Constraint.erased, Constraint.map, text?, List.isEmpty_map, basis]
    rw [show (Phrase.empty : Phrase) = Phrase.empty.canonical from rfl, gathered, Option.map_map]
    split_ifs
    · rfl
    · exact congrArg (Option.map · _) (funext Phrase.text_canonical)

theorem texts_erase : (ns : List Node) → texts? (ns.map erase) = texts? ns
  | [] => rfl
  | n :: r => by rw [List.map_cons, texts?, texts?, text_erase n, texts_erase r]

theorem gather_erase (isArray : Bool) (p : Phrase) :
    (ns : List Node) → gather? isArray p.canonical (ns.map erase) =
      (gather? isArray p ns).map Phrase.canonical
  | [] => rfl
  | of (.domain d) :: r =>
    gather_erase isArray { p with base := some d.name, isString := d == .string } r
  | of (.literal l) :: r => gather_erase isArray { p with base := some l.expression } r
  | of (.basis b) :: r => gather_erase isArray { p with base := some b.name } r
  | of (.bound range) :: r => gather_erase isArray { p with range := some range } r
  | of (.divisor n) :: r => gather_erase isArray (p.addSuffix _) r
  | of (.patterns ps) :: r =>
    gather_erase isArray { p with patterns := some (Pattern.conjunction ps) } r
  | of (.props ⟨[], [], [], some ⟨[], some element⟩⟩) :: r => by
    have told := text_erase element
    have later (t : String) := gather_erase isArray { p with base := some (arrayOf t) } r
    change (if isArray then (text? element.erase).bind fun t =>
      gather? isArray { p with base := some (arrayOf t) }.canonical (r.map erase) else none) =
      (if isArray then (text? element).bind fun t =>
        gather? isArray { p with base := some (arrayOf t) } r
        else none).map Phrase.canonical
    rw [told]
    cases isArray with
    | true => cases text? element <;> first | rfl | exact later _
    | false => rfl
  | of (.props ⟨[], [], [], none⟩) :: _ => rfl
  | of (.props ⟨[], [], [], some ⟨[], none⟩⟩) :: _ => rfl
  | of (.props ⟨[], [], [], some ⟨_ :: _, none⟩⟩) :: _ => rfl
  | of (.props ⟨[], [], [], some ⟨_ :: _, some _⟩⟩) :: _ => rfl
  | of (.props ⟨[], [], _ :: _, _⟩) :: _ => rfl
  | of (.props ⟨[], _ :: _, _, _⟩) :: _ => rfl
  | of (.props ⟨_ :: _, _, _, _⟩) :: _ => rfl
  | of (.brand name) :: r => gather_erase isArray (p.addSuffix _) r
  | of (.deferred name _) :: r => gather_erase isArray (p.addSuffix _) r
  | of (.morph _ _) :: _ => rfl
  | of (.union _) :: _ => rfl
  | of (.intersection _) :: _ => rfl

end

theorem isBrand_erase (n : Node) : n.erase.isBrand = n.isBrand := by
  obtain ⟨c⟩ := n
  rw [erase_of]
  cases c <;> rfl

theorem onlyBrands_erase (n : Node) : n.erase.onlyBrands = n.onlyBrands := by
  simp [onlyBrands, conjuncts_erase, List.all_map, Function.comp_def, isBrand_erase]

theorem within_erase (n : Node) : n.erase.within = n.within.map erase := by
  simp [within, conjuncts_erase, List.flatMap_map, List.map_flatMap, erase_constraint,
    Constraint.children_map, Constraint.children_erased]

theorem Expressible.erase {n : Node} (h : n.Expressible) : n.erase.Expressible := by
  induction h with
  | @intro n noMorph based within ih =>
    refine ⟨by rwa [isMorph_erase], by rwa [onlyBrands_erase], fun m hm => ?_⟩
    rw [within_erase] at hm
    obtain ⟨k, hk, rfl⟩ := List.mem_map.mp hm
    exact ih k hk

/-- Nodes within one another are looked at, up to a depth. -/
def isExpressibleTo : Nat → Node → Bool
  | 0, _ => false
  | depth + 1, n => !n.isMorph && !n.onlyBrands && n.within.all (isExpressibleTo depth)

theorem expressible_of_isExpressibleTo {depth : Nat} {n : Node}
    (h : n.isExpressibleTo depth = true) : n.Expressible := by
  induction depth generalizing n with
  | zero => cases h
  | succ depth ih =>
    simp only [isExpressibleTo, Bool.and_eq_true, Bool.not_eq_true', List.all_eq_true] at h
    exact ⟨h.1.1, h.1.2, fun m hm => ih (h.2 m hm)⟩

end Node

theorem Parsing.Yields.congr {α : Type} {x y : Parsing α} {Q : α → Prop} (alike : Alike x y)
    (h : Yields x Q) : Yields y Q := by
  intro s
  obtain ⟨a, t, ran, ha⟩ := h s
  exact ⟨a, t, (alike s t a).mp ran, ha⟩

variable [Library]

theorem Descent.Expr.yields {lookup : Lookup} {text : String} {ts : List Token} {n : Node}
    (read : Expr lookup ts n) (spells : Scan.Spells text.toList ts) :
    Parsing.Yields ((·.node) <$> parseExpression lookup false text) (·.erase = n) := by
  refine .congr (parseExpression_alike lookup text).symm ?_
  rw [Scan.all_eq, spells.tokens_eq]
  exact read.definition

namespace Scope

omit [Library] in
theorem noted_of_yields {s : Scope} (text : String) {x : Parsing Node} {Q : Node → Prop}
    (yields : x.Yields Q) : ∃ m, (noteFailure text (s.call x)).1 = .ok m ∧ Q m := by
  obtain ⟨m, t, ran, holds⟩ := yields s.state
  have called : (s.call x).1 = .ok m := by rw [call, ran]
  refine ⟨m, ?_, holds⟩
  cases found : s.call x with
  | mk result later =>
    rw [found] at called
    cases called
    rfl

theorem lookup_bare {s : Scope} (empty : s.declarations.aliases = []) : s.lookup.Bare := by
  intro name
  rw [lookup, lookupWith, empty]
  rfl

theorem parse_writable {s : Scope} (empty : s.declarations.aliases = []) {text : String} {n : Node}
    (parsed : (s.parse text).1 = .ok n) : n.Writable := by
  rw [parse, call] at parsed
  cases ran : ((·.node) <$> parseExpression s.lookup false text).run.run s.state with
  | mk result state =>
    rw [ran] at parsed
    cases result with
    | error e => cases parsed
    | ok m =>
      obtain rfl : m = n := Except.ok.inj parsed
      have returns : Parsing.Returns ((·.node) <$> parseExpression s.lookup false text)
          Node.Writable :=
        (parseExpression_returns (lookup_bare empty) false text).bind fun p hp => .pure hp
      exact returns _ _ _ ran

/-- The expression of a node that a text was parsed to is parsed to the same node. The scopes have
no aliases, and the node has neither morphs nor brands of nothing else. -/
theorem parse_expression {s t : Scope} (empty : s.declarations.aliases = [])
    (empty' : t.declarations.aliases = []) {text : String} {n : Node}
    (parsed : (s.parse text).1 = .ok n) (expressible : n.Expressible) :
    ∃ m, (t.parse n.expression).1 = .ok m ∧ m.same n = true ∧ m.digest = n.digest := by
  obtain ⟨written, grounded⟩ := parse_writable empty parsed
  obtain ⟨wording, text, told⟩ :=
    Descent.told (lookup_bare empty') expressible.erase written grounded
  rw [Node.text_erase] at text
  have expression : n.expression = wording := by rw [Node.expression, text]
  obtain ⟨ts, spells, read⟩ := told.whole
  obtain ⟨m, state, ran, same⟩ := read.definition t.state
  have again : (t.call (Descent.definition t.lookup (Scan.all wording))).1 = .ok m := by
    rw [Scan.all_eq, spells.tokens_eq, call, ran]
  have parsed_again := (parse_eq_ok_iff_descent t _ wording m).mpr (Prod.ext again rfl)
  have same := Node.same_iff.mpr same
  exact ⟨m, by rw [expression, parsed_again], same,
    congrArg Digest.ofText (Node.key_congr same)⟩

end Scope

end

namespace Scope

attribute [local instance] Library.standard

/-- The parts of an alternative are written in another order than they are read here. -/
theorem parse_expression_alternatives : ∃ n,
    ((ofDeclarations 0 .empty).parse "(/a/&string<9|1<number<=9%2#even)[]|null").1 = .ok n ∧
      n.Expressible ∧
      ∃ m, ((ofDeclarations 0 .empty).parse n.expression).1 = .ok m ∧ m.same n = true ∧
        m.digest = n.digest := by
  have checked : ((ofDeclarations 0 .empty).parse
      "(/a/&string<9|1<number<=9%2#even)[]|null").1.toOption.any
      (·.isExpressibleTo 4) = true := by decide +kernel
  cases found : ((ofDeclarations 0 .empty).parse "(/a/&string<9|1<number<=9%2#even)[]|null").1 with
  | error e =>
    rw [found] at checked
    cases checked
  | ok n =>
    rw [found] at checked
    have expressible : n.Expressible := Node.expressible_of_isExpressibleTo checked
    exact ⟨n, rfl, expressible, parse_expression rfl rfl found expressible⟩

end Scope

end SchemaAlgebra

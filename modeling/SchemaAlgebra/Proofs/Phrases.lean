import SchemaAlgebra.Node.Expression
import SchemaAlgebra.Proofs.JsonText
import SchemaAlgebra.Proofs.Layout

/-!
# The texts of parts

The text of a plain node is that of its kind, or of the arrays of its element, with its range
applied, its divisors and brands behind, and its patterns joined to it.
-/
namespace SchemaAlgebra

open Node

namespace Node

theorem gather_bound (isArray : Bool) (p : Phrase) (range : Option Range) (rest : List Node) :
    gather? isArray p (range.toList.map (.of <| .bound ·) ++ rest) =
      gather? isArray { p with range := range <|> p.range } rest := by
  cases range with
  | none => rfl
  | some r =>
    change gather? isArray p (.of (.bound r) :: rest) = _
    rw [gather?]
    rfl

theorem gather_divisors (isArray : Bool) (p : Phrase) (divisors : List Nat) (rest : List Node) :
    gather? isArray p (divisors.map (.of <| .divisor ·) ++ rest) =
      gather? isArray { p with suffixes := p.suffixes ++ divisors.map ("%" ++ toString ·) }
        rest := by
  induction divisors generalizing p with
  | nil => simp
  | cons k ks ih =>
    rw [List.map_cons, List.cons_append, gather?, ih]
    simp [Phrase.addSuffix]

theorem gather_brands (isArray : Bool) (p : Phrase) (brands : List String) :
    gather? isArray p (brands.map (.of <| .brand ·)) =
      some { p with suffixes := p.suffixes ++ brands.map ("#" ++ ·) } := by
  induction brands generalizing p with
  | nil => simp [gather?]
  | cons name names ih =>
    rw [List.map_cons, gather?, ih]
    simp [Phrase.addSuffix]

theorem gather_patterned (isArray : Bool) (p : Phrase) (patterns : List Pattern)
    (rest : List Node) : gather? isArray p (Conjunction.patterned patterns ++ rest) =
      gather? isArray
        (if patterns.isEmpty then p
          else { p with patterns := some (Pattern.conjunction patterns) })
        rest := by
  rw [Conjunction.patterned]
  split_ifs
  · rfl
  · rw [List.singleton_append, gather?]

theorem gather_element {element : Node} {t : String} (text : element.text? = some t) (p : Phrase)
    (rest : List Node) :
    gather? true p (Layout.arrayOf element :: rest) =
      gather? true { p with base := some (arrayOf t) } rest := by
  rw [Layout.arrayOf, Props.ofSequence, Props.empty, gather?, text]
  rfl

end Node

namespace Layout

variable {x : Layout}

def isString (x : Layout) : Bool :=
  match x.kind with
  | .domain d => d == .string
  | _ => false

/-- What is said of the parts beside the base. -/
def phrase (x : Layout) (base : String) : Phrase where
  base := some base
  isString := x.isString
  range := x.range
  suffixes := x.divisors.map ("%" ++ toString ·) ++ x.brands.map ("#" ++ ·)
  patterns := if x.patterns.isEmpty then none else some (Pattern.conjunction x.patterns)

/-- The text of the kind, or of the arrays of the element. -/
def IsBase (x : Layout) (base : String) : Prop :=
  match x.element with
  | none => (Node.of x.kind).text? = some base
  | some element => ∃ t, element.text? = some t ∧ base = Node.arrayOf t

theorem gather_kind (isArray : Bool) (fixed : x.kind.rank = 0) (rest : List Node) :
    ∃ text, (Node.of x.kind).text? = some text ∧ gather? isArray .empty (.of x.kind :: rest) =
      gather? isArray { Phrase.empty with base := some text, isString := x.isString } rest := by
  rw [isString]
  generalize x.kind = k at fixed
  cases k with
  | domain d => exact ⟨_, text?.eq_1 d, by rw [gather?]⟩
  | literal l => exact ⟨_, text?.eq_2 l, by rw [gather?]; rfl⟩
  | basis b => exact ⟨_, text?.eq_3 b, by rw [gather?]; rfl⟩
  | _ => cases fixed

variable [Library]

theorem gather_conjuncts (sound : x.Sound) {base : String} (spoken : x.IsBase base) :
    gather? (x.conjuncts.any isArrayBasis) .empty x.conjuncts = some (x.phrase base) := by
  obtain ⟨text, found, first⟩ := gather_kind (x.conjuncts.any isArrayBasis) sound.fixed
    (x.range.toList.map (.of <| .bound ·) ++ (x.divisors.map (.of <| .divisor ·) ++
      (Conjunction.patterned x.patterns ++
        (x.element.toList.map arrayOf ++ x.brands.map (.of <| .brand ·)))))
  change gather? _ .empty x.conjuncts = _ at first
  rw [first, gather_bound, gather_divisors, gather_patterned, phrase]
  rw [IsBase] at spoken
  cases elements : x.element with
  | none =>
    rw [elements] at spoken
    obtain rfl := Option.some.inj (found.symm.trans spoken)
    rw [Option.toList_none, List.map_nil, List.nil_append, gather_brands]
    split_ifs <;> simp [Phrase.empty]
  | some element =>
    rw [elements] at spoken
    obtain ⟨t, spoken, rfl⟩ := spoken
    have isArray : x.conjuncts.any isArrayBasis = true := by
      rw [conjuncts, List.any_cons, sound.kind_of_element elements]
      rfl
    rw [isArray, Option.toList_some, List.map_singleton, List.singleton_append,
      gather_element spoken, gather_brands]
    split_ifs <;> simp [Phrase.empty]

theorem text_of_conjuncts (sound : x.Sound) {base : String} (spoken : x.IsBase base) {n : Node}
    (plain : n.isPlain = true) (same : n.conjuncts = x.conjuncts) :
    n.text? = some (x.phrase base).text := by
  have gathered := gather_conjuncts sound spoken
  rw [← same] at gathered
  have kind : n = .of x.kind → n.conjuncts = [n] → n.text? = some (x.phrase base).text := by
    intro kind single
    rw [same, conjuncts, kind] at single
    obtain ⟨ranges, divisors, patterns, elements, brands⟩ :
        x.range = none ∧ x.divisors = [] ∧ x.patterns = [] ∧
        x.element = none ∧ x.brands = [] := by
      simpa [Conjunction.patterned] using (List.cons.inj single).2
    rw [IsBase, elements] at spoken
    rw [kind, spoken, phrase, ranges, divisors, patterns, brands]
    rfl
  obtain ⟨c⟩ := n
  cases c with
  | intersection children =>
    have some_child : children.isEmpty = false := by
      rw [show children = x.conjuncts from same]
      rfl
    change gather? (children.any isArrayBasis) .empty children = _ at gathered
    rw [text?, some_child, gathered]
    rfl
  | union branches => cases plain
  | morph input steps => cases plain
  | _ => exact kind (List.cons.inj same).1 rfl

end Layout

end SchemaAlgebra

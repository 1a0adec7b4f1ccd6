import SchemaAlgebra.Proofs.Composition
import SchemaAlgebra.Proofs.Declared
import SchemaAlgebra.Proofs.Identity
import SchemaAlgebra.Proofs.Writing
import SchemaAlgebra.Standard

/-!
# Definitions and their parts

The node of an object holds a node for every name that is declared, and the node of an array holds
the nodes of its items, each the same as the node that its own definition is parsed to. So what a
definition makes of a value is put together from what the definitions of the parts make of the
parts.
-/
namespace SchemaAlgebra

open Parsing Traversal

section

namespace Props

variable {p q : Props Node}

/-- Properties with the same keys and the same nodes in the same places. -/
abbrev AreSame (p q : Props Node) : Prop := p.Agrees (fun a b => a.same b = true) q

theorem areSame_iff : p.AreSame q ↔ p.map Node.erase = q.map Node.erase := by
  rw [← agrees_eq, agrees_map, AreSame]
  simp only [Node.same_iff]

theorem AreSame.get? (h : p.AreSame q) {key : String} {v : Node} {required : Bool}
    (found : q.get? key = some (v, required)) :
    ∃ m, p.get? key = some (m, required) ∧ m.same v = true := by
  have mapped := congrArg (Props.get? · key) (areSame_iff.mp h)
  simp only [get?_map, found, Option.map_some] at mapped
  obtain ⟨⟨m, required'⟩, hm, same⟩ := Option.map_eq_some_iff.mp mapped
  obtain ⟨erased, rfl⟩ := Prod.mk.inj same
  exact ⟨m, hm, Node.same_iff.mpr erased⟩

theorem AreSame.namedKeys (h : p.AreSame q) : p.namedKeys = q.namedKeys := by
  rw [← namedKeys_map Node.erase (p := p), areSame_iff.mp h, namedKeys_map]

theorem AreSame.index (h : p.AreSame q) (unsigned : q.index = []) : p.index = [] := by
  have mapped := congrArg Props.index (areSame_iff.mp h)
  rw [Props.map, Props.map, unsigned] at mapped
  exact List.map_eq_nil_iff.mp mapped

theorem AreSame.sequence (h : p.AreSame q) (unordered : q.sequence = none) : p.sequence = none := by
  have mapped := congrArg Props.sequence (areSame_iff.mp h)
  rw [Props.map, Props.map, unordered] at mapped
  exact Option.map_eq_none_iff.mp mapped

theorem AreSame.sorted (h : p.AreSame q) (sorted : q.Sorted) : p.Sorted := by
  have keys {es fs : List (String × Node)}
      (same : List.Forall₂ (fun e f => e.1 = f.1 ∧ e.2.same f.2 = true) es fs)
      (sorted : Entries.Sorted fs) : Entries.Sorted es := by
    have equal : Entries.keys es = Entries.keys fs := by
      induction same with
      | nil => rfl
      | cons first _ ih =>
        exact List.cons_eq_cons.mpr ⟨first.1, ih (Entries.sorted_cons.mp sorted).2⟩
    exact List.pairwise_map.mp
      ((congrArg (List.Pairwise (· < ·)) equal).mpr (List.pairwise_map.mpr sorted))
  exact ⟨keys h.1 sorted.required, keys h.2.1 sorted.optional⟩

end Props

namespace Sequence

abbrev AreSame (s t : Sequence Node) : Prop := s.Agrees (fun a b => a.same b = true) t

theorem AreSame.admitsLength {s t : Sequence Node} (h : s.AreSame t) (n : Nat) :
    s.admitsLength n = t.admitsLength n := by
  obtain ⟨items, rest⟩ := s
  obtain ⟨items', rest'⟩ := t
  have lengths : items.length = items'.length := h.1.length_eq
  rw [Sequence.admitsLength, Sequence.admitsLength]
  cases h.2 with
  | none => exact congrArg (n == ·) lengths
  | some _ => exact congrArg (fun l => decide (l ≤ n)) lengths

end Sequence

namespace Node

/-- A node without aliases refers to none in its outermost constraint and has children without
aliases. -/
theorem hasAlias_of_children {c : Constraint Node}
    (plain : ∀ name home, c ≠ .deferred name home)
    (children : ∀ m ∈ c.children, m.hasAlias = false) : (of c).hasAlias = false := by
  have any_child : (c.map hasAlias).children.any id = false := by
    rw [Constraint.children_map, List.any_map, List.any_eq_false]
    simpa using children
  rw [hasAlias, fold_of]
  cases c <;> first | exact any_child | exact absurd rfl (plain _ _)

/-- A kind of values with properties stays so up to identity, with the same properties. -/
theorem exists_props_of_same {kind : Constraint Node}
    (leaf : ∀ m : Node, m.same (of kind) = true → m = of kind) {n : Node}
    {p : Props Node} (h : n.same (of (.intersection [of kind, of (.props p)])) = true) :
    ∃ q, n = of (.intersection [of kind, of (.props q)]) ∧ q.AreSame p := by
  rw [same_iff] at h
  obtain ⟨c⟩ := n
  cases c with
  | intersection children =>
    rw [erase_of, erase_of] at h
    have mapped : children.map erase = [(of kind).erase, (of (.props p)).erase] :=
      Constraint.intersection.inj (of.inj h)
    obtain ⟨a, rest, rfl, first, rest'⟩ := List.map_eq_cons_iff.mp mapped
    obtain ⟨⟨e⟩, none, rfl, second, empty⟩ := List.map_eq_cons_iff.mp rest'
    obtain rfl := List.map_eq_nil_iff.mp empty
    rw [leaf a (same_iff.mpr first)]
    rw [erase_of, erase_of] at second
    cases e with
    | props q => exact ⟨q, rfl, Props.areSame_iff.mpr (Constraint.props.inj (of.inj second))⟩
    | _ => cases second
  | _ => cases h

theorem basis_of_same {n : Node} {basis : Basis} (same : n.same (of (.basis basis)) = true) :
    n = of (.basis basis) := by
  obtain ⟨c⟩ := n
  cases c <;> cases same_iff.mp same
  rfl

theorem exists_objectNode {n : Node} {p : Props Node} (h : n.same (objectNode p) = true) :
    ∃ q, n = objectNode q ∧ q.AreSame p := by
  refine exists_props_of_same (fun m same => ?_) h
  obtain ⟨c⟩ := m
  cases c <;> cases same_iff.mp same
  rfl

theorem exists_arrayNode {n : Node} {s : Sequence Node} (h : n.same (arrayNode s) = true) :
    ∃ t, n = arrayNode t ∧ t.AreSame s := by
  obtain ⟨q, rfl, same⟩ := exists_props_of_same (fun _ => basis_of_same) h
  obtain ⟨required, optional, index, sequence⟩ := q
  obtain ⟨left, right, signatures, sequences⟩ := same
  cases left
  cases right
  cases signatures
  cases sequences with
  | some items => exact ⟨_, rfl, items⟩

end Node

section

variable {rep : Node → Node} (faithful : ∀ n : Node, n.same (rep n) = true)
include faithful

theorem Traced.object_same (p : Props Node) :
    ((object p).value rep).same (Node.objectNode p) = true :=
  Node.same_iff.mpr ((Traced.both_erase faithful _ _).trans
    (Traced.both_erase Node.same_refl _ _).symm)

theorem Traced.sequence_same (s : Sequence Node) : ((do
    let basis ← basis .array
    let props ← props (.ofSequence s)
    intersection [basis, props] : Traced Node).value rep).same (Node.arrayNode s) = true :=
  Node.same_iff.mpr ((Traced.both_erase faithful _ _).trans
    (Traced.both_erase Node.same_refl _ _).symm)

end

namespace Node

theorem objectNode_same {p q : Props Node} (h : p.AreSame q) :
    (objectNode p).same (objectNode q) = true := by
  have erased (p : Props Node) : (objectNode p).erase =
      of (.intersection [of (.domain .object), of (.props (p.map erase))]) := by
    simp [objectNode, erase_of, Constraint.map, Constraint.erased]
  rw [same_iff, erased, erased, Props.areSame_iff.mp h]

theorem arrayNode_same {s t : Sequence Node} (h : s.AreSame t) :
    (arrayNode s).same (arrayNode t) = true := by
  have erased (s : Sequence Node) : (arrayNode s).erase =
      of (.intersection [of (.basis .array), of (.props ((Props.ofSequence s).map erase))]) := by
    simp [arrayNode, erase_of, Constraint.map, Constraint.erased]
  have same : (Props.ofSequence s).AreSame (.ofSequence t) := ⟨.nil, .nil, .nil, .some h⟩
  rw [same_iff, erased, erased, Props.areSame_iff.mp same]

end Node

namespace Definition

/-- Properties of just the names that are declared, in order, each with the node of its definition
up to identity. -/
structure Collects (declared : List Declared) (p : Props Node) : Prop extends p.Sorted where
  named : ∀ name value optional, .named name value optional ∈ declared →
    ∃ own, p.get? name = some (own, !optional) ∧ own.same value = true
  only : ∀ name ∈ p.namedKeys, name ∈ namesOf declared

variable {declared : List Declared} {n : Node}

variable [Library]

/-- Where the names differ and there are no signatures, the node of an object is made of what is
declared. -/
theorem Makes.exists_collected (made : Makes declared n)
    (unsigned : ∀ e ∈ declared, e.signature? = none) (distinct : (namesOf declared).Nodup) :
    ∃ p, n = Node.objectNode p ∧ Collects declared p ∧ p.index = [] ∧
      p.sequence = none ∧ p.namedKeys.Nodup ∧ p.AreSame (propsOf declared) := by
  obtain ⟨s, t, q, normal, rfl⟩ := made
  have unsigned := List.filterMap_eq_nil_iff.mpr unsigned
  have index : (propsOf declared).index = [] := by
    rw [propsOf, foldl_addTo_index, unsigned]
    rfl
  have sequence : (propsOf declared).sequence = none := foldl_addTo_sequence
  rw [outcome_normalize_propsOf unsigned] at normal
  obtain rfl : propsOf declared = q := Except.ok.inj normal
  obtain ⟨p, same, areSame⟩ := Node.exists_objectNode
    (Traced.object_same (Store.representative_same t) (propsOf declared))
  obtain ⟨tidy, found⟩ := foldl_addTo_named Props.tidy_empty distinct fun _ _ => rfl
  refine ⟨p, same, ⟨areSame.sorted tidy.toSorted, fun name value optional named => ?_,
    fun name named => ?_⟩, areSame.index index, areSame.sequence sequence, ?_, areSame⟩
  · exact areSame.get? (found name value optional named)
  · by_contra undeclared
    rw [areSame.namedKeys, Props.mem_namedKeys, propsOf, get?_foldl_addTo undeclared] at named
    cases named
  · rw [areSame.namedKeys]
    exact tidy.nodup

/-- Parses the items of a tuple, and the element of the array that is spread at its end. -/
def declareItems (lookup : Lookup) : List Json → Parsing (Sequence Node)
  | [] => pure ⟨[], none⟩
  | [.string "..."] => fail .missingSpread
  | [.string "...", array] => do
    let n ← parse lookup array
    return ⟨[], some (← spread n)⟩
  | .string "..." :: _ => fail .spreadNotLast
  | item :: r => do
    let n ← parse lookup item
    let s ← declareItems lookup r
    return ⟨n :: s.items, s.rest⟩

/-- The items are parsed in order, and the tuple is made of them. -/
theorem parseItems_eq (lookup : Lookup) (done : List Node) (items : List Json) :
    parseItems lookup done items = (do
      let s ← declareItems lookup items
      finishTuple (done ++ s.items) s.rest) := by
  induction items using declareItems.induct generalizing done with
  | case1 => simp [parseItems, declareItems]
  | case2 => simp [parseItems, declareItems, fail]
  | case3 array => simp [parseItems, declareItems]
  | case4 => simp [parseItems, declareItems, fail]
  | case5 item r h h' h'' ih =>
    rw [parseItems, declareItems]
    · simp [ih]
    all_goals assumption

/-- An array that is neither an expression nor the definition of a literal. -/
def IsTuple (items : List Json) : Prop :=
  isMisfit items = false ∧ ∀ value, items ≠ [.string "===", value]

theorem parse_tuple {items : List Json} (tuple : IsTuple items) (lookup : Lookup) :
    parse lookup (.array items) = parseItems lookup [] items := by
  obtain ⟨fits, literal⟩ := tuple
  have operator {items : List Json}
      (h : ["|", "&", "[]", "=>"].contains (operatorOf items) = true) :
      isMisfit items ≠ false := by
    rw [isMisfit, h]
    nofun
  unfold parse
  split
  · rename_i h
    cases h
  · rename_i h
    cases h
  · rename_i value h
    cases h
    exact absurd rfl (literal value)
  · rename_i h
    cases h
    exact absurd fits (operator rfl)
  · rename_i h
    cases h
    exact absurd fits (operator rfl)
  · rename_i h
    cases h
    exact absurd fits (operator rfl)
  · rename_i h
    cases h
    exact absurd fits (operator rfl)
  · rename_i h
    cases h
    exact absurd fits (operator rfl)
  · rename_i h
    cases h
    rw [if_neg (Bool.eq_false_iff.mp fits)]
  · rename_i none
    exact absurd rfl (none items)

section

variable {lookup : Lookup} {s u : ScopeState} {n : Node}

/-- The node of a tuple is made of its items, each with the node of its definition up to identity.
-/
theorem parse_tuple_eq_ok {items : List Json} (tuple : IsTuple items)
    (ran : (parse lookup (.array items)).run.run s = (.ok n, u)) :
    ∃ declared t, (declareItems lookup items).run.run s = (.ok declared, t) ∧
      ∃ own, n = Node.arrayNode own ∧ own.AreSame declared := by
  rw [parse_tuple tuple, parseItems_eq] at ran
  obtain ⟨declared, t, declares, built⟩ := run_bind_eq_ok.mp ran
  refine ⟨declared, t, declares, Node.exists_arrayNode ?_⟩
  rw [← build_eq_ok built]
  exact Traced.sequence_same (ScopeState.settled_same _ t) declared

theorem parse_array_eq_ok {element : Json} (notLiteral : element ≠ .string "===")
    (ran : (parse lookup (.array [element, .string "[]"])).run.run s = (.ok n, u)) :
    ∃ m t, (parse lookup element).run.run s = (.ok m, t) ∧
      n.same ((Traced.arrayOf m).value id) = true := by
  rw [parse] at ran
  · obtain ⟨m, t, parsed, built⟩ := run_bind_eq_ok.mp ran
    refine ⟨m, t, parsed, ?_⟩
    have faithful := ScopeState.settled_same (Traced.arrayOf m) t
    rw [← build_eq_ok built]
    exact Node.same_iff.mpr ((Traced.arrayOf_erase faithful m).trans
      (Traced.arrayOf_erase Node.same_refl m).symm)
  · exact notLiteral

end

end Definition

namespace Node

variable {b : Bindings} {maxDepth : Option Nat} {own : Node → Json → Applied}

theorem Concludes.congr {m n : Node} (same : m.same n = true) (ends : n.Concludes maxDepth) :
    m.Concludes maxDepth := by
  rwa [Concludes, hasAlias_congr same]

theorem Concludes.of_children {c : Constraint Node}
    (plain : ∀ name home, c ≠ .deferred name home)
    (children : ∀ m ∈ c.children, m.Concludes maxDepth) : (of c).Concludes maxDepth := by
  by_cases capped : maxDepth.isSome = true
  · exact .inr capped
  · exact .inl (hasAlias_of_children plain fun m hm => (children m hm).resolve_right capped)

theorem concludes_objectNode {p : Props Node} (values : ∀ m ∈ p.values, m.Concludes maxDepth) :
    (objectNode p).Concludes maxDepth := by
  refine .of_children nofun
    (List.forall_mem_cons.mpr ⟨.inl rfl, List.forall_mem_singleton.mpr ?_⟩)
  exact .of_children nofun values

theorem concludes_arrayNode {s : Sequence Node}
    (values : ∀ m ∈ s.values, m.Concludes maxDepth) : (arrayNode s).Concludes maxDepth := by
  refine .of_children nofun
    (List.forall_mem_cons.mpr ⟨.inl rfl, List.forall_mem_singleton.mpr ?_⟩)
  exact .of_children nofun values

variable [Library]

theorem Outcomes.of_unknown (outcomes : Outcomes b maxDepth own) (x : Json) :
    own .unknown x = .ok x :=
  applied_of_rewrites outcomes (.inl rfl) fun _ _ _ _ ran => rewrites_nil ran id

/-- Applying an array of elements is applying the element to the items. -/
theorem Outcomes.of_arrayOf (outcomes : Outcomes b maxDepth own) {m n : Node}
    (ends : m.Concludes maxDepth) (same : n.same ((Traced.arrayOf m).value id) = true) :
    n.Concludes maxDepth ∧ ∃ element, element.same m = true ∧
      ∀ xs, own n (.array xs) = Sequence.applied own ⟨[], some element⟩ xs := by
  have node : (Traced.arrayOf m).value id = if m.isUnknown then of (.basis .array) else arrayNode
      ⟨[], some m⟩ := by
    rw [Traced.arrayOf]
    split_ifs <;> rfl
  rw [node] at same
  split_ifs at same with all
  · obtain rfl := basis_of_same same
    refine ⟨.inl rfl, m, m.same_refl, fun xs => ?_⟩
    have kept : own (of (.basis .array)) (.array xs) = .ok (.array xs) :=
      applied_of_rewrites outcomes (.inl rfl) fun _ _ _ data ran =>
        rewrites_passes (by rw [data]; rfl) (fun _ ran => rewrites_nil ran id) ran
    have item (x : Json) : own m x = .ok x := by
      rw [eq_unknown all]
      exact outcomes.of_unknown x
    have found : (xs.zipIdx.flatMap fun e => ((Sequence.at? ⟨[], some m⟩ e.2).map fun m =>
        problemsAt own (.index e.2) m e.1).getD []) = [] :=
      List.flatMap_eq_nil_iff.mpr fun e _ =>
        congrArg (List.map _) (congrArg Applied.problems (item e.1))
    have whole : (xs.zipIdx.map fun e => ((Sequence.at? ⟨[], some m⟩ e.2).map fun m =>
        (own m e.1).value e.1).getD e.1) = xs := by
      refine (List.map_congr_left fun e _ => congrArg (Applied.value e.1) (item e.1)).trans ?_
      exact List.zipIdx_map_fst 0 xs
    rw [kept, Sequence.applied, found, whole]
    rfl
  · obtain ⟨⟨items, rest⟩, rfl, alike⟩ := exists_arrayNode same
    have ended : (arrayNode ⟨items, rest⟩).Concludes maxDepth :=
      .congr same (concludes_arrayNode (List.forall_mem_singleton.mpr ends))
    obtain ⟨none, some⟩ := alike
    cases none
    cases some with
    | some element =>
      exact ⟨ended, _, element,
        fun xs => outcomes.of_arrayNode ended (by simp [Sequence.admitsLength])⟩

end Node

variable [Library]

/-- What a definition makes of a value in the empty scope, if that ends soon. -/
def Definition.outcome? (definition d : Json) : Option Applied :=
  ((Scope.ofDeclarations 0 .empty).parseValue definition).1.toOption.bind fun n =>
    (n.compile.apply .unbound 9 none d).map (·.outcome)

theorem Node.ComesTo.eq_of_outcome? {definition d : Json} {n : Node} {outcome found : Applied}
    (parsed : ((Scope.ofDeclarations 0 .empty).parseValue definition).1 = .ok n)
    (comes : n.ComesTo .unbound none d outcome)
    (ran : Definition.outcome? definition d = some found) : outcome = found := by
  rw [Definition.outcome?, parsed] at ran
  obtain ⟨v, applied, rfl⟩ := Option.map_eq_some_iff.mp ran
  exact (comes.1 9 v applied).symm

end

section

attribute [local instance] Library.standard

def Definition.coded : List (String × Json) :=
  [("code", .string "trim"), ("size?", .string "number")]

def Definition.codes : List Json :=
  [.string "string", .string "trim", .string "...", .string "trim[]"]

end

end SchemaAlgebra

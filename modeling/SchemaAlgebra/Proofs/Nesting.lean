import SchemaAlgebra.Proofs.KeyTexts

/-!
# Nested definitions

What cannot be written in the grammar is written as an object or an array of definitions. Such a
definition is parsed to the node again, part by part, if it mentions all conjuncts of the node.
-/
namespace SchemaAlgebra

open Parsing

namespace Parsing

variable {α β : Type}

theorem Returns.behind (x : Parsing α) {f : α → Parsing β} {S : β → Prop}
    (next : ∀ a, Returns (f a) S) : Returns (x >>= f) S :=
  Returns.bind (Q := fun _ => True) (fun _ _ _ _ => trivial) fun a _ => next a

end Parsing

namespace ExpressionState

variable {lookup : Lookup} {e : ExpressionState}

theorem compare_optional (root : Node) (c : Comparator) :
    Returns (compare e root c) (·.optional = e.optional) := by
  unfold compare
  split
  · exact .ite (fun _ => .fail _) fun _ => .ite (fun _ => .pure rfl) fun _ => .fail _
  · exact .pure rfl

variable [Library]

theorem close_optional (root : Node) : Returns (close e root) (·.optional = e.optional) := by
  unfold close
  split
  · exact .fail _
  · exact .behind _ fun _ => .pure rfl

theorem operator_optional (root : Node) (t : Token) :
    Returns (operator false e root t) (·.optional = e.optional) := by
  unfold operator
  cases t with
  | list => exact .behind _ fun _ => .pure rfl
  | optional => exact .fail _
  | brand name => exact .behind _ fun _ => .behind _ fun _ => .pure rfl
  | percent => exact .pure rfl
  | comparator c => exact compare_optional root c
  | ampersand => exact .behind _ fun _ => .pure rfl
  | bar => exact .behind _ fun _ => .pure rfl
  | groupClose => exact close_optional root
  | finish => exact .ite (fun _ => .behind _ fun _ => .pure rfl) fun _ => .fail _
  | _ => exact .fail _

theorem step_optional (t : Token) : Returns (step lookup false e t) (·.optional = e.optional) := by
  unfold step
  split
  · unfold operand
    split
    · exact .pure rfl
    · exact .behind _ fun _ => .pure rfl
    · exact .behind _ fun _ => .pure rfl
    · exact .behind _ fun _ => .pure rfl
    · exact .fail _
    · exact .fail _
  · exact operator_optional _ t
  · exact .behind _ fun _ => .pure rfl
  · exact .behind _ fun _ => .pure rfl
  · exact .ite (fun _ => .behind _ fun _ => .pure rfl) fun _ => .fail _
  · exact .pure rfl

/-- A token that is read where no question mark is allowed is read alike where one is. -/
theorem step_allowing {t : Token} {s s' : ScopeState} {e' : ExpressionState}
    (ran : (step lookup false e t).run.run s = (.ok e', s')) :
    (step lookup true e t).run.run s = (.ok e', s') := by
  have same : step lookup true e t = step lookup false e t ∨
      step lookup false e t = fail .optionalOutsideProperty := by
    unfold step operator
    cases e.awaiting with
    | operator root => cases t <;> first | exact .inl rfl | exact .inr rfl
    | _ => exact .inl rfl
  rcases same with same | refused
  · rw [same, ran]
  · rw [refused] at ran
    cases ran

theorem steps_allowing {ts : List (Except Fault Token)} {s s' : ScopeState} {e' : ExpressionState}
    (ran : (steps lookup false e ts).run.run s = (.ok e', s')) :
    e'.optional = e.optional ∧ (steps lookup true e ts).run.run s = (.ok e', s') := by
  induction ts generalizing e s with
  | nil =>
    cases ran
    exact ⟨rfl, rfl⟩
  | cons t ts ih =>
    cases t with
    | error f => cases ran
    | ok t =>
      obtain ⟨m, u, first, later⟩ := run_bind_eq_ok.mp ran
      obtain ⟨kept, again⟩ := ih later
      exact ⟨kept.trans (step_optional t s m u first),
        run_bind_eq_ok.mpr ⟨m, u, step_allowing first, again⟩⟩

end ExpressionState

/-- A text that is parsed without question mark is parsed alike where one is allowed. -/
theorem parseExpression_allowing [Library] {lookup : Lookup} {text : String} {Q : Node → Prop}
    (h : Yields ((·.node) <$> parseExpression lookup false text) Q) :
    Yields (parseExpression lookup true text) fun p => p.optional = false ∧ Q p.node := by
  intro s
  obtain ⟨n, t, ran, holds⟩ := h s
  rw [map_eq_pure_bind, parseExpression, bind_assoc] at ran
  obtain ⟨e, u, read, later⟩ := run_bind_eq_ok.mp ran
  obtain ⟨kept, again⟩ := ExpressionState.steps_allowing read
  rw [parseExpression, run_bind_ok again]
  cases awaiting : e.awaiting with
  | nothing node =>
    rw [awaiting] at later
    cases later
    exact ⟨_, _, rfl, kept, holds⟩
  | _ =>
    rw [awaiting] at later
    cases later

theorem Descent.Told.yields [Library] {lookup : Lookup} {text : String} {n : Node}
    (told : Told lookup text n) :
    Yields ((·.node) <$> parseExpression lookup false text) (·.erase = n) := by
  obtain ⟨ts, spells, read⟩ := told.whole
  exact read.yields spells

theorem Props.map_eq_self {f : Node → Node} {p : Props Node} (h : ∀ v ∈ p.values, f v = v) :
    p.map f = p :=
  Constraint.props.inj ((Constraint.map_congr h).trans (Constraint.map_id (.props p)))

theorem Sequence.map_eq_self {f : Node → Node} {s : Sequence Node}
    (h : ∀ v ∈ s.values, f v = v) : s.map f = s :=
  have same : (Props.ofSequence s).map f = .ofSequence s := Props.map_eq_self h
  Option.some.inj (congrArg Props.sequence same)

namespace Node

theorem definition_of_text {n : Node} {t : String} (text : n.text? = some t) :
    n.definition = .string t := by
  obtain ⟨c⟩ := n
  cases c with
  | props p => cases text
  | morph input steps => cases text
  | _ => simp [definition, orText, text]

/-- The node of the arrays of an element is made of the array and the properties, unless the element
is unknown. -/
theorem array_eq (n : Node) :
    n.array = if n.isUnknown then of (.basis .array) else arrayNode ⟨[], some n⟩ := by
  rw [array]
  split_ifs <;> rfl

theorem erase_array (n : Node) : n.array.erase = n.erase.array := by
  have built : (Traced.arrayOf n).value id = n.array := by
    rw [Traced.arrayOf, array]
    split_ifs <;> rfl
  rw [← built]
  exact Traced.arrayOf_erase same_refl n

theorem branches_array (n : Node) : n.array.branches = [n.array] ∧ n.array.isMorph = false := by
  rw [array_eq]
  split_ifs <;> exact ⟨rfl, rfl⟩

end Node

namespace Definition

section

variable {lookup : Lookup} {n : Node}

variable [Library]

variable (lookup) in
/-- The definition of a node is parsed to a node that may be another one: by itself, as the value
of a key, and as the element of an array. -/
structure ReadBack (n back : Node) : Prop where
  whole : Yields (parse lookup n.definition) (·.erase = back.erase)
  value : StandsFor lookup n.definition back
  element : Yields (parse lookup (Node.arrayDefinition n.text? n.definition))
    (·.erase = back.erase.array)

theorem yields_parse_text {text : String} {Q : Node → Prop}
    (h : Yields ((·.node) <$> parseExpression lookup false text) Q) :
    Yields (parse lookup (.string text)) Q := by
  rw [map_eq_pure_bind] at h
  rw [parse]
  exact h

theorem ReadBack.of_text (bare : lookup.Bare) (writable : n.Writable)
    (expressible : n.Expressible) : ReadBack lookup n n := by
  obtain ⟨t, text, told⟩ :=
    Descent.told bare expressible.erase writable.written writable.grounded
  rw [Node.text_erase] at text
  have array : Descent.Told lookup (Node.arrayOf t) n.erase.array := by
    obtain ⟨single, plain⟩ := n.erase.branches_array
    refine told.array.told (Node.array_written writable.written writable.grounded).1 ?_
    rw [single]
    exact List.forall_mem_singleton.mpr plain
  refine ⟨?_, ?_, ?_⟩
  · rw [Node.definition_of_text text]
    exact yields_parse_text told.yields
  · rw [Node.definition_of_text text]
    exact standsFor_text (parseExpression_allowing told.yields)
  · rw [text]
    exact yields_parse_text array.yields

theorem ReadBack.of_nested {back : Node} (nested : n.text? = none)
    (notText : ∀ t, n.definition ≠ .string t)
    (whole : Yields (parse lookup n.definition) (·.erase = back.erase)) :
    ReadBack lookup n back := by
  refine ⟨whole, fun key name optional named => ?_, ?_⟩
  · have other : declare lookup (key, n.definition) = (do
        let p ← (fun n => Parsed.mk n false) <$> parse lookup n.definition
        return .named name p.node (optional || p.optional)) := by
      simp only [declare, named]
    rw [other, map_eq_pure_bind, bind_assoc]
    refine whole.bind fun m hm => ?_
    rw [pure_bind, Bool.or_false]
    exact .pure ⟨m, rfl, hm⟩
  · rw [nested, Node.arrayDefinition, parse]
    · exact whole.bind fun m hm => hm ▸ (result_arrayOf m).yields
    · exact notText _

/-- The texts that are no definitions in an array. -/
def signs : List String := ["|", "&", "[]", "=>", "===", "..."]

theorem fails_sign (bare : lookup.Bare) {sign : String} (h : sign ∈ signs) :
    Fails (parse lookup (.string sign)) := by
  have failed {t : String}
      (refused : ∀ s, ((parse lookup (.string t)).run.run s).1.toOption = none) :
      Fails (parse lookup (.string t)) := fun s u n ran => by
    have none := refused s
    rw [ran] at none
    cases none
  simp only [signs, List.mem_cons, List.not_mem_nil, or_false] at h
  rcases h with rfl | rfl | rfl | rfl | rfl | rfl
  · exact failed fun _ => rfl
  · exact failed fun _ => rfl
  · exact failed fun _ => rfl
  · exact failed fun _ => rfl
  · exact failed fun _ => rfl
  · have scanned : Scan.all "..." = [.ok (.word "..."), .ok .finish] := rfl
    have unknown : ExpressionState.word lookup "..." = fail (.unresolvable "...") := by
      rw [ExpressionState.word, show Word.literal? "..." = none from rfl, bare]
      rfl
    rw [parse, parseExpression, scanned]
    simp only [ExpressionState.steps, ExpressionState.step, ExpressionState.start,
      ExpressionState.operand, unknown]
    exact fails_fail _

theorem ne_sign_of_yields (bare : lookup.Bare) {definition : Json} {Q : Node → Prop}
    (yields : Yields (parse lookup definition) Q) {sign : String} (hs : sign ∈ signs) :
    definition ≠ .string sign := by
  rintro rfl
  obtain ⟨m, t, ran, -⟩ := yields .empty
  exact fails_sign bare hs _ _ _ ran

omit [Library] in
theorem yields_spread {m : Node} (array : m.erase = n.erase.array) :
    Yields (spread m) fun e => e.erase = n.erase := by
  have same : m.same n.erase.array = true := Node.same_iff.mpr (by rw [← array, Node.erase_erase])
  rw [Node.array_eq] at same
  split_ifs at same with all
  · obtain rfl := Node.basis_of_same same
    rw [Node.eq_unknown all]
    exact (result_constraint rfl).yields
  · obtain ⟨⟨items, rest⟩, rfl, none, some⟩ := Node.exists_arrayNode same
    cases none
    cases some with
    | some element => exact .pure ((Node.same_iff.mp element).trans n.erase_erase)

/-- The definitions in the definition of an array. -/
def itemDefinitions (s : Sequence Node) : List Json :=
  Node.definitions s.items ++
    (s.rest.map fun n => [.string "...", Node.arrayDefinition n.text? n.definition]).getD []

theorem yields_declareItems (bare : lookup.Bare) {s : Sequence Node} {back : Node → Node}
    (readBack : ∀ v ∈ s.values, ReadBack lookup v (back v)) :
    Yields (declareItems lookup (itemDefinitions s)) fun t => t.AreSame (s.map back) := by
  obtain ⟨items, rest⟩ := s
  induction items with
  | nil =>
    cases rest with
    | none => exact .pure ⟨.nil, .none⟩
    | some n =>
      obtain ⟨-, -, element⟩ := readBack n (List.mem_singleton_self n)
      change Yields (declareItems lookup
        [.string "...", Node.arrayDefinition n.text? n.definition]) _
      rw [declareItems]
      exact element.bind fun m hm => (yields_spread hm).bind fun e he =>
        .pure ⟨.nil, .some (Node.same_iff.mpr he)⟩
  | cons n items ih =>
    obtain ⟨readBack, later⟩ := List.forall_mem_cons.mp readBack
    have item : n.definition ≠ .string "..." := ne_sign_of_yields bare readBack.whole (by decide)
    change Yields (declareItems lookup (n.definition :: itemDefinitions ⟨items, rest⟩)) _
    rw [declareItems]
    · refine readBack.whole.bind fun m hm => (ih later).bind fun t ht => .pure ?_
      exact ⟨.cons (Node.same_iff.mpr hm) ht.1, ht.2⟩
    all_goals intros; contradiction

omit [Library] in
theorem yields_finishTuple (s : Sequence Node) :
    Yields (finishTuple s.items s.rest) fun m => m.same (Node.arrayNode s) = true :=
  fun state => ⟨_, _, run_build _ state,
    Traced.sequence_same (ScopeState.settled_same _ state) s⟩

omit [Library] in
theorem isMisfit_of_second {first second : Json} {later : List Json}
    (h : ∀ sign ∈ ["|", "&", "[]", "=>"], second ≠ .string sign) :
    isMisfit (first :: second :: later) = false := by
  refine Bool.eq_false_iff.mpr fun misfit => ?_
  have operator := List.contains_iff_mem.mp misfit
  have no_text : "" ∉ ["|", "&", "[]", "=>"] := by decide
  cases second with
  | string word => exact h word operator rfl
  | _ => exact absurd operator no_text

theorem isTuple_itemDefinitions (bare : lookup.Bare) {s : Sequence Node} {back : Node → Node}
    (readBack : ∀ v ∈ s.values, ReadBack lookup v (back v)) : IsTuple (itemDefinitions s) := by
  obtain ⟨items, rest⟩ := s
  have ne_sign (v : Node) (hv : v ∈ items) {sign : String} (hs : sign ∈ signs) :
      v.definition ≠ .string sign :=
    ne_sign_of_yields bare (readBack v (List.mem_append_left _ hv)).whole hs
  match items with
  | [] =>
    cases rest with
    | none => exact ⟨rfl, nofun⟩
    | some n =>
      have element := (readBack n (List.mem_singleton_self n)).element
      refine ⟨isMisfit_of_second fun sign hs => ?_, fun value same => ?_⟩
      · exact ne_sign_of_yields bare element (List.mem_append_left _ hs)
      · exact absurd (Json.string.inj (List.cons.inj same).1) (by decide)
  | [first] =>
    have literal (value : Json) (ds : List Json) :
        first.definition :: ds ≠ [.string "===", value] :=
      fun same => ne_sign first (List.mem_singleton_self _) (by decide) (List.cons.inj same).1
    cases rest with
    | none => exact ⟨rfl, fun value => literal value _⟩
    | some n => exact ⟨rfl, fun value => literal value _⟩
  | first :: second :: later =>
    refine ⟨isMisfit_of_second fun sign hs => ?_, fun value same => ?_⟩
    · exact ne_sign second (by simp) (List.mem_append_left _ hs)
    · exact ne_sign first (by simp) (by decide) (List.cons.inj same).1

theorem yields_tuple (bare : lookup.Bare) {s : Sequence Node} {back : Node → Node}
    (readBack : ∀ v ∈ s.values, ReadBack lookup v (back v)) :
    Yields (parse lookup (.array (itemDefinitions s)))
      fun m => m.same (Node.arrayNode (s.map back)) = true := by
  rw [parse_tuple (isTuple_itemDefinitions bare readBack), parseItems_eq]
  refine (yields_declareItems bare readBack).bind fun t same => ?_
  rw [List.nil_append]
  intro state
  obtain ⟨m, u, ran, made⟩ := yields_finishTuple t state
  exact ⟨m, u, ran, Node.same_trans made (Node.arrayNode_same same)⟩

end

end Definition

open Definition

namespace Node

/-- The definition of an array that is not written in the grammar. -/
theorem definition_arrayNode {s : Sequence Node} (nested : (arrayNode s).text? = none) :
    (arrayNode s).definition = sequenceDefinition false s := by
  have unwritten : (of (.intersection [of (.basis .array), of (.props (.ofSequence s))])).text? =
      none := nested
  simp only [Props.ofSequence, Props.empty] at unwritten
  simp [arrayNode, definition, orText, unwritten, Props.ofSequence, Props.empty, isArrayBasis,
    constraint, structural?, others, chain]

theorem text_arrayNode {s : Sequence Node}
    (nested : ∀ v, s = ⟨[], some v⟩ → v.text? = none) : (arrayNode s).text? = none := by
  rw [arrayNode, Props.ofSequence, Props.empty]
  obtain ⟨_ | ⟨m, ms⟩, _ | n⟩ := s
  · simp [text?, gather?]
  · simp [text?, gather?, isArrayBasis, constraint, nested n rfl]
  · simp [text?, gather?]
  · simp [text?, gather?]

theorem text_objectNode {p : Props Node} (unordered : p.sequence = none) :
    (objectNode p).text? = none := by
  obtain ⟨required, optional, index, _⟩ := p
  subst unordered
  simp [objectNode, text?, gather?]

/-- An array that has named keys beside its items, which none of its values has. -/
def keyedArray (optional : List (String × Node)) (index : List (Signature Node))
    (s : Sequence Node) : Node :=
  of (.intersection [of (.basis .array), of (.props ⟨[], optional, index, some s⟩)])

section

variable {optional : List (String × Node)} {index : List (Signature Node)} {s : Sequence Node}

theorem text_keyedArray (named : optional ≠ []) : (keyedArray optional index s).text? = none := by
  obtain ⟨e, es, rfl⟩ := List.exists_cons_of_ne_nil named
  simp [keyedArray, text?, gather?]

/-- The named keys of an array are not written. -/
theorem definition_keyedArray (named : optional ≠ []) :
    (keyedArray optional index s).definition = .array (itemDefinitions s) := by
  have unwritten : (keyedArray optional index s).text? = none := text_keyedArray named
  have nonempty : optional.isEmpty = false := List.isEmpty_eq_false_iff.mpr named
  rw [keyedArray] at unwritten ⊢
  obtain ⟨items, _ | n⟩ := s
  · simp [definition, orText, unwritten, isArrayBasis, constraint, structural?, others, chain,
      sequenceDefinition, itemDefinitions]
  · simp [definition, orText, unwritten, isArrayBasis, constraint, structural?, others, chain,
      sequenceDefinition, itemDefinitions, nonempty]

end

variable [Library]

theorem admits_pair (m n : Node) (d : Json) :
    (of (.intersection [m, n])).admits d = (m.admits d && n.admits d) := by
  simp [admits, admitsWith, fold_of, Constraint.map, constraintAdmits]

/-- Other values under the keys or among the items make no difference if they admit the same. -/
theorem admits_map {back : Node → Node} {c : Constraint Node}
    (h : ∀ m ∈ c.children, ∀ d, (back m).admits d = m.admits d) :
    (of (c.map back)).admits = (of c).admits := by
  rw [admits, admitsWith, fold_of, fold_of, Constraint.map_map]
  exact congrArg _ (Constraint.map_congr fun m hm => funext (h m hm))

theorem admits_arrayNode {back : Node → Node} {s : Sequence Node}
    (h : ∀ v ∈ s.values, (back v).admits = v.admits) :
    (arrayNode (s.map back)).admits = (arrayNode s).admits := by
  have items (v : Node) (hv : v ∈ s.values) (d : Json) : (back v).admits d = v.admits d :=
    congrFun (h v hv) d
  have props := admits_map (c := .props (.ofSequence s)) items
  funext d
  rw [arrayNode, arrayNode, admits_pair, admits_pair]
  exact congrArg _ (congrFun props d)

theorem admits_keyedArray (optional : List (String × Node)) (index : List (Signature Node))
    (s : Sequence Node) (d : Json) :
    (keyedArray optional index s).admits d = (arrayNode s).admits d := by
  have all {α : Type} (xs : List α) : (xs.all fun _ => true) = true := by simp
  rw [keyedArray, arrayNode, admits_pair, admits_pair]
  cases d with
  | array xs =>
    simp [admits, admitsWith, fold_of, Constraint.map, constraintAdmits, Props.map, Props.admits,
      Props.ofSequence, Props.empty, Json.get?, Json.asEntries?, all]
  | _ => rfl

/-- Nothing stands beside the named keys of an object, no optional key is marked, and nothing
required stands beside the items of an array. Whether arrays have optional keys is left open. -/
inductive Structured (keys : Prop) : Node → Prop
  | text {n : Node} (writable : n.Writable) (expressible : n.Expressible) : Structured keys n
  | object {p : Props Node} (tidy : p.Tidy) (unsigned : p.index = [])
    (unordered : p.sequence = none)
      (plain : ∀ key v, p.get? key = some (v, false) → ¬IsMarked key)
      (values : ∀ v ∈ p.values, Structured keys v) : Structured keys (objectNode p)
  | array {s : Sequence Node} (nested : ∀ v, s = ⟨[], some v⟩ → v.text? = none)
      (values : ∀ v ∈ s.values, Structured keys v) : Structured keys (arrayNode s)
  | keyed {optional : List (String × Node)} {index : List (Signature Node)} {s : Sequence Node}
      (allowed : keys) (named : optional ≠ []) (values : ∀ v ∈ s.values, Structured keys v) :
      Structured keys (keyedArray optional index s)

theorem Structured.domain {keys : Prop} {d : Domain} (other : d ≠ .null) :
    (of (.domain d)).Structured keys :=
  .text ⟨.leaf trivial other rfl, grounded_leaf rfl rfl⟩ (.intro rfl rfl nofun)

end Node

namespace Definition

variable {lookup : Lookup}

theorem ReadBack.of_object [Library] {p : Props Node} {back : Node → Node} (tidy : p.Tidy)
    (unsigned : p.index = []) (unordered : p.sequence = none)
    (plain : ∀ key v, p.get? key = some (v, false) → ¬IsMarked key)
    (values : ∀ v ∈ p.values, ReadBack lookup v (back v)) :
    ReadBack lookup (Node.objectNode p) (Node.objectNode (p.map back)) := by
  have same : p.map id = p := Props.map_eq_self fun _ _ => rfl
  have written (v : Node) : (id v).definition = v.definition := rfl
  have text := Node.definition_objectNode written unsigned unordered
  rw [same] at text
  refine .of_nested (Node.text_objectNode unordered)
    (fun t same => by rw [text] at same; cases same) ?_
  rw [text]
  have stand (v : Node) (hv : v ∈ p.values) : StandsFor lookup v.definition (back v) :=
    (values v hv).value
  refine fun s => ?_
  obtain ⟨m, t, ran, q, made, tidy', unsigned', unordered', bare, comesBack⟩ :=
    yields_object tidy stand s
  have all := Props.eq_map_of_comesBack tidy unsigned unordered plain tidy' unsigned' unordered'
    comesBack
  refine ⟨m, t, ran, Node.same_iff.mp (Node.same_trans made ?_)⟩
  rw [all] at bare ⊢
  exact Node.objectNode_same (Props.areSame_iff.mpr bare)

theorem sequenceDefinition_of_listed {s : Sequence Node}
    (listed : s.rest.isSome → s.items ≠ []) :
    Node.sequenceDefinition false s = .array (itemDefinitions s) := by
  match s with
  | ⟨items, none⟩ => simp [Node.sequenceDefinition, itemDefinitions]
  | ⟨[], some n⟩ => exact absurd rfl (listed rfl)
  | ⟨_ :: _, some n⟩ => simp [Node.sequenceDefinition, itemDefinitions]

variable [Library]

/-- What is written as its items is read as the array of what they are read as. -/
theorem ReadBack.of_items (bare : lookup.Bare) {n : Node} {s : Sequence Node} {back : Node → Node}
    (unwritten : n.text? = none) (definition : n.definition = .array (itemDefinitions s))
    (values : ∀ v ∈ s.values, ReadBack lookup v (back v)) :
    ReadBack lookup n (Node.arrayNode (s.map back)) := by
  refine .of_nested unwritten (fun t same => by rw [definition] at same; cases same) ?_
  rw [definition]
  refine fun state => ?_
  obtain ⟨m, t, ran, same⟩ := yields_tuple bare values state
  exact ⟨m, t, ran, Node.same_iff.mp same⟩

theorem ReadBack.of_array (bare : lookup.Bare) {s : Sequence Node} {back : Node → Node}
    (nested : ∀ v, s = ⟨[], some v⟩ → v.text? = none)
    (values : ∀ v ∈ s.values, ReadBack lookup v (back v))
    (known : ∀ v ∈ s.values, v.text? = none → (back v).isUnknown = false) :
    ReadBack lookup (Node.arrayNode s) (Node.arrayNode (s.map back)) := by
  have unwritten := Node.text_arrayNode nested
  have definition := Node.definition_arrayNode unwritten
  by_cases listed : s.rest.isSome → s.items ≠ []
  · exact .of_items bare unwritten (definition.trans (sequenceDefinition_of_listed listed)) values
  · obtain ⟨items, rest⟩ := s
    obtain ⟨some_rest, none⟩ := Classical.not_imp.mp listed
    obtain ⟨n, rfl⟩ := Option.isSome_iff_exists.mp some_rest
    obtain rfl : items = [] := not_not.mp none
    have member : n ∈ (Sequence.mk [] (some n)).values := List.mem_singleton_self n
    have array : (back n).array = Node.arrayNode (Sequence.map back ⟨[], some n⟩) := by
      rw [Node.array_eq, known n member (nested n rfl)]
      rfl
    have definition : (Node.arrayNode ⟨[], some n⟩).definition =
        Node.arrayDefinition n.text? n.definition := by
      rw [definition]
      rfl
    refine .of_nested unwritten (fun t same => ?_) ?_
    · rw [definition, nested n rfl] at same
      cases same
    · rw [definition, ← array, Node.erase_array]
      exact (values n member).element

/-- A node is read back as one that allows the same values, and as itself if no array has keys. -/
structure Restores (lookup : Lookup) (keys : Prop) (n back : Node) : Prop where
  readBack : ReadBack lookup n back
  admits : back.admits = n.admits
  same : ¬keys → back = n
  known : n.text? = none → back.isUnknown = false

theorem exists_restores (bare : lookup.Bare) {keys : Prop} {n : Node} (h : n.Structured keys) :
    ∃ back, Restores lookup keys n back := by
  induction h with
  | @text n writable expressible =>
    refine ⟨n, .of_text bare writable expressible, rfl, fun _ => rfl, fun unwritten => ?_⟩
    refine Bool.eq_false_iff.mpr fun all => ?_
    rw [Node.eq_unknown all] at unwritten
    cases unwritten
  | @object p tidy unsigned unordered plain _ ih =>
    choose! back restores using ih
    have values := Node.admits_map (c := .props p) fun v (hv : v ∈ p.values) d =>
      congrFun (restores v hv).admits d
    refine ⟨_, .of_object tidy unsigned unordered plain fun v hv => (restores v hv).readBack,
      funext fun d => ?_, fun none => ?_, fun _ => rfl⟩
    · rw [Node.objectNode, Node.objectNode, Node.admits_pair, Node.admits_pair]
      exact congrArg _ (congrFun values d)
    · exact congrArg Node.objectNode (Props.map_eq_self fun v hv => (restores v hv).same none)
  | @array s nested _ ih =>
    choose! back restores using ih
    refine ⟨_, .of_array bare nested (fun v hv => (restores v hv).readBack)
      fun v hv => (restores v hv).known, ?_, fun none => ?_, fun _ => rfl⟩
    · exact Node.admits_arrayNode fun v hv => (restores v hv).admits
    · exact congrArg Node.arrayNode (Sequence.map_eq_self fun v hv => (restores v hv).same none)
  | @keyed optional index s allowed named _ ih =>
    choose! back restores using ih
    refine ⟨_, .of_items bare (Node.text_keyedArray named) (Node.definition_keyedArray named)
      fun v hv => (restores v hv).readBack, ?_, fun none => absurd allowed none, fun _ => rfl⟩
    rw [Node.admits_arrayNode fun v hv => (restores v hv).admits]
    exact funext fun d => (Node.admits_keyedArray optional index s d).symm

end Definition

namespace Scope

/-- The definition of a node is parsed to a node that allows the same values if nothing stands
beside the keys of its objects, nothing required beside the items of its arrays, and no optional
key is marked. Without keys beside items it is parsed to the node itself. -/
theorem parseValue_structured [Library] {s : Scope} (empty : s.declarations.aliases = [])
    {keys : Prop} {n : Node} (structured : n.Structured keys) :
    ∃ m, (s.parseValue n.definition).1 = .ok m ∧ (∀ d, m.admits d = n.admits d) ∧
      (¬keys → m.same n = true ∧ m.digest = n.digest) := by
  obtain ⟨back, restores⟩ := exists_restores (lookup_bare empty) structured
  obtain ⟨m, parsed, erased⟩ := noted_of_yields _ restores.readBack.whole
  have same : m.same back = true := Node.same_iff.mpr erased
  refine ⟨m, parsed, fun d => ?_, fun none => ?_⟩
  · rw [← restores.admits]
    exact congrFun (Node.admitsWith_congr same) d
  · rw [← restores.same none]
    exact ⟨same, congrArg Digest.ofText (Node.key_congr same)⟩

attribute [local instance] Library.standard in
/-- A text and any number of numbers behind it, beside all arrays, and one text beside an
optional key. -/
theorem parseValue_structured_tuple : ∃ n m n' m',
    ((ofDeclarations 0 .empty).parseValue (.array
      [.array [.string "string", .string "...", .string "number[]"], .string "&",
        .string "Array"])).1 = .ok n ∧
    ((ofDeclarations 0 .empty).parseValue n.definition).1 = .ok m ∧
    m.same n = true ∧ (∀ d, m.admits d = n.admits d) ∧
    ((ofDeclarations 0 .empty).parseValue (.array
      [.object [("a?", .string "string")], .string "&", .array [.string "string"]])).1 = .ok n' ∧
    ((ofDeclarations 0 .empty).parseValue n'.definition).1 = .ok m' ∧
    ∀ d, m'.admits d = n'.admits d := by
  have tuple : (Node.arrayNode
      ⟨[.of (.domain .string)], some (.of (.domain .number))⟩).Structured False := by
    refine .array nofun (List.forall_mem_cons.mpr ⟨?_, List.forall_mem_singleton.mpr ?_⟩)
    · exact .domain nofun
    · exact .domain nofun
  have keyed : (Node.keyedArray [("a", .of (.domain .string))] []
      ⟨[.of (.domain .string)], none⟩).Structured True :=
    .keyed trivial (List.cons_ne_nil _ _) (List.forall_mem_singleton.mpr (.domain nofun))
  obtain ⟨m, parsed, admits, itself⟩ :=
    parseValue_structured (s := ofDeclarations 0 .empty) rfl tuple
  obtain ⟨m', parsed', admits', -⟩ :=
    parseValue_structured (s := ofDeclarations 0 .empty) rfl keyed
  refine ⟨_, m, _, m', ?_, parsed, (itself id).1, admits, ?_, parsed', admits'⟩
  · rfl
  · rfl

end Scope

end SchemaAlgebra

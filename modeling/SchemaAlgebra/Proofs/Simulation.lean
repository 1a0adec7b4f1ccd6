import SchemaAlgebra.Proofs.Repetition

/-!
# Definitions read with two lookups

The only names that reading a definition looks up are those written in it. Where two lookups
find nodes that are the same for these names, reading with one simulates reading with the
other: what is read is the same, and what the lookups keep of the state is kept.
-/
namespace SchemaAlgebra

def namesIn (text : String) : List String := (Scan.all text).filterMap fun
  | .ok (.word name) => some name
  | _ => none

def Definition.Key.names : Definition.Key → List String
  | .named _ _ => []
  | .signature text => namesIn text

namespace Definition

mutual

/-- The names that reading a definition looks up. -/
def names : Json → List String
  | .string text => namesIn text
  | .object entries => namesOfEntries entries
  | .array [.string "===", _] => []
  | .array [input, .string "=>", .string _] => names input
  | .array items => namesOfItems items
  | _ => []

def namesOfEntries : List (String × Json) → List String
  | [] => []
  | (key, value) :: r => (Key.ofText key).names ++ (names value ++ namesOfEntries r)

def namesOfItems : List Json → List String
  | [] => []
  | item :: r => names item ++ namesOfItems r

end

end Definition

namespace Parsing

variable {α β γ δ : Type} {I J : ScopeState → Prop} {R : α → β → Prop}
  {S : γ → δ → Prop}

/-- Whether the property holds of a state depends on the resolutions in it only. -/
def IsOfResolutions (I : ScopeState → Prop) : Prop :=
  ∀ s t : ScopeState, t.resolutions = s.resolutions → I s → I t

/-- Where the first computation succeeds the second one succeeds as well, and their results are
related. Both keep what is stated of their states. -/
def Simulates (I J : ScopeState → Prop) (R : α → β → Prop) (x : Parsing α)
    (y : Parsing β) : Prop :=
  ∀ s a t, I s → x.run.run s = (.ok a, t) → I t ∧ (∃ b, R a b) ∧
    ∀ s', J s' → ∃ b t', y.run.run s' = (.ok b, t') ∧ J t' ∧ R a b

theorem Mirrors.simulates {x : Parsing α} {y : Parsing β} (h : Mirrors R x y)
    (hI : IsOfResolutions I) (hJ : IsOfResolutions J) : Simulates I J R x y := by
  intro s a t hs ran
  obtain ⟨same, again⟩ := h s a t ran
  refine ⟨hI s t same hs, ?_, fun s' hs' => ?_⟩
  · obtain ⟨b, -, -, -, related⟩ := again s
    exact ⟨b, related⟩
  · obtain ⟨b, t', ran', same', related⟩ := again s'
    exact ⟨b, t', ran', hJ s' t' same' hs', related⟩

namespace Simulates

theorem bind {x : Parsing α} {y : Parsing β} {f : α → Parsing γ} {g : β → Parsing δ}
    (first : Simulates I J R x y) (next : ∀ a b, R a b → Simulates I J S (f a) (g b)) :
    Simulates I J S (x >>= f) (y >>= g) := by
  intro s c t hs ran
  obtain ⟨a, u, ran, later⟩ := run_bind_eq_ok.mp ran
  obtain ⟨hu, ⟨b, related⟩, again⟩ := first s a u hs ran
  obtain ⟨ht, made, -⟩ := next a b related u c t hu later
  refine ⟨ht, made, fun s' hs' => ?_⟩
  obtain ⟨b, v, ran', hv, related⟩ := again s' hs'
  obtain ⟨-, -, again⟩ := next a b related u c t hu later
  obtain ⟨e, w, later', hw, related'⟩ := again v hv
  exact ⟨e, w, run_bind_eq_ok.mpr ⟨b, v, ran', later'⟩, hw, related'⟩

theorem pure {a : α} {b : β} (h : R a b) : Simulates I J R (Pure.pure a) (Pure.pure b) := by
  intro s c t hs ran
  cases ran
  exact ⟨hs, ⟨b, h⟩, fun s' hs' => ⟨b, s', rfl, hs', h⟩⟩

theorem fail (f : Fault) (y : Parsing β) : Simulates I J R (Parsing.fail f) y :=
  fun _ _ _ _ ran => nomatch ran

theorem map {x : Parsing α} {y : Parsing β} {f : α → γ} {g : β → δ}
    (first : Simulates I J R x y) (next : ∀ a b, R a b → S (f a) (g b)) :
    Simulates I J S (f <$> x) (g <$> y) := by
  rw [map_eq_pure_bind, map_eq_pure_bind]
  exact first.bind fun a b related => .pure (next a b related)

theorem ite {c : Prop} [Decidable c] {x x' : Parsing α} {y y' : Parsing β}
    (yes : c → Simulates I J R x y) (no : ¬c → Simulates I J R x' y') :
    Simulates I J R (if c then x else x') (if c then y else y') := by
  by_cases h : c
  · rw [if_pos h, if_pos h]
    exact yes h
  · rw [if_neg h, if_neg h]
    exact no h

end Simulates

theorem run_attempt_ok {x : Attempt α} {s : ScopeState} {a : α}
    (outcome : x.outcome (ScopeState.settled x.run s) = .ok a) :
    (Parsing.attempt x).run.run s = (.ok a, (s.run x.run).2) := by
  rw [Parsing.attempt, run_bind_ok (run_build x.run s), Attempt.value_run, outcome]
  rfl

theorem run_attempt_error {x : Attempt α} {s : ScopeState} {d : Disjoint}
    (outcome : x.outcome (ScopeState.settled x.run s) = .error d) :
    (Parsing.attempt x).run.run s = (.error (.ofFault (.unsatisfiable d)), (s.run x.run).2) := by
  rw [Parsing.attempt, run_bind_ok (run_build x.run s), Attempt.value_run, outcome]
  rfl

theorem Mirrors.attempt {x : Attempt α} {y : Attempt β} {f : α → γ} {g : β → γ}
    {o : Except Disjoint γ}
    (outcome : ∀ rep : Node → Node, (∀ n : Node, n.same (rep n) = true) →
      Disjoint.eraseOr f (x.outcome rep) = o)
    (outcome' : ∀ rep : Node → Node, (∀ n : Node, n.same (rep n) = true) →
      Disjoint.eraseOr g (y.outcome rep) = o) :
    Mirrors (fun a b => f a = g b) (Parsing.attempt x) (Parsing.attempt y) := by
  intro s a t ran
  have found := outcome _ (ScopeState.settled_same x.run s)
  cases left : x.outcome (ScopeState.settled x.run s) with
  | error d =>
    rw [run_attempt_error left] at ran
    cases ran
  | ok c =>
    rw [run_attempt_ok left] at ran
    cases ran
    rw [left] at found
    refine ⟨quiet_build _ s, fun s' => ?_⟩
    have found' := outcome' _ (ScopeState.settled_same y.run s')
    cases right : y.outcome (ScopeState.settled y.run s') with
    | error d =>
      rw [right, ← found] at found'
      cases found'
    | ok b =>
      rw [right, ← found] at found'
      exact ⟨b, _, run_attempt_ok right, quiet_build _ s', (Except.ok.inj found').symm⟩

theorem Mirrors.build_same {n m : Node} (same : n.erase = m.erase) :
    Mirrors (fun a b => a.erase = b.erase) (Parsing.build (Traced.build n))
      (Parsing.build (Traced.build m)) :=
  build (fun _ faithful => (Node.same_iff.mp (faithful n)).symm)
    fun _ faithful => ((Node.same_iff.mp (faithful m)).symm).trans same.symm

end Parsing

open Parsing

namespace Definition

variable {n m : Node} {p q : Props Node}

theorem elementOf_erase (isArray : Bool) (element : Option Node) (children : List Node) :
    elementOf isArray (element.map Node.erase) (children.map Node.erase) =
      (elementOf isArray element children).map Node.erase := by
  have named (p : Props Node) : (p.map Node.erase).hasNamed = p.hasNamed := by
    simp [Props.hasNamed, Props.map]
  have elements (p : Props Node) : (p.map Node.erase).element? = p.element?.map Node.erase := by
    obtain ⟨required, optional, index, sequence⟩ := p
    rw [Props.element?, Props.element?, named]
    split_ifs
    · rfl
    · cases sequence with
      | none => rfl
      | some s => obtain ⟨_ | ⟨first, items⟩, rest⟩ := s <;> rfl
  induction children generalizing isArray element with
  | nil => cases isArray <;> rfl
  | cons n r ih =>
    obtain ⟨c⟩ := n
    rw [List.map_cons, Node.erase_of]
    cases c with
    | basis b => cases b <;> first | exact ih true element | rfl
    | props p =>
      change (if (p.map Node.erase).hasNamed then none
        else elementOf isArray (p.map Node.erase).element? (r.map Node.erase)) =
          (if p.hasNamed then none else elementOf isArray p.element? r).map Node.erase
      rw [named, elements, ih]
      split_ifs <;> rfl
    | _ => rfl

theorem mirrors_spread (same : n.erase = m.erase) :
    Mirrors (fun a b => a.erase = b.erase) (spread n) (spread m) := by
  obtain ⟨c⟩ := n
  obtain ⟨e⟩ := m
  rw [Node.erase_of, Node.erase_of, Node.of.injEq] at same
  cases c with
  | basis b =>
    cases b with
    | array =>
      cases e <;> cases same
      exact .build_node _
    | _ => exact .fail _ _
  | intersection children =>
    cases e <;> try cases same
    rename_i children'
    have children_same : children.map Node.erase = children'.map Node.erase := by
      simpa [Constraint.erased, Constraint.map] using same
    have elements : (elementOf false none children).map Node.erase =
        (elementOf false none children').map Node.erase := by
      rw [← elementOf_erase, ← elementOf_erase, children_same]
    unfold spread
    dsimp only [Node.constraint]
    generalize elementOf false none children = o at elements ⊢
    generalize elementOf false none children' = o' at elements ⊢
    cases o <;> cases o' <;> try cases elements
    · exact .fail _ _
    · exact .pure (Option.some.inj elements)
  | _ => exact .fail _ _

theorem mirrors_finishTuple {items items' : List Node} {rest rest' : Option Node}
    (same : items.map Node.erase = items'.map Node.erase)
    (rests : rest.map Node.erase = rest'.map Node.erase) :
    Mirrors (fun a b => a.erase = b.erase) (finishTuple items rest) (finishTuple items' rest') := by
  have arrays : (Node.of (.props (.ofSequence ⟨items, rest⟩))).erase =
      (Node.of (.props (.ofSequence ⟨items', rest'⟩))).erase := by
    simp [Node.erase_of, Constraint.erased, Constraint.map, Props.map, Props.ofSequence,
      Props.empty, Sequence.map, same, rests]
  refine .build (fun _ faithful => Traced.both_erase faithful _ _) fun _ faithful => ?_
  rw [arrays]
  exact Traced.both_erase faithful _ _

theorem mirrors_finishObject [Library] (same : p.map Node.erase = q.map Node.erase) :
    Mirrors (fun a b => a.erase = b.erase) (finishObject p) (finishObject q) := by
  have normal : Mirrors (fun p q : Props Node => p.map Node.erase = q.map Node.erase)
      (attempt (normalize p)) (attempt (normalize q)) := by
    refine Mirrors.attempt (fun rep faithful => Properties.normalize_erase faithful
      (meet_erase faithful) p) ?_
    intro rep faithful
    rw [same]
    exact Properties.normalize_erase faithful (meet_erase faithful) q
  refine normal.bind fun p q same => ?_
  have objects : (Node.of (.props p)).erase = (Node.of (.props q)).erase := by
    simp [Node.erase_of, Constraint.erased, Constraint.map, same]
  refine .build (fun _ faithful => Traced.both_erase faithful _ _) fun _ faithful => ?_
  rw [objects]
  exact Traced.both_erase faithful _ _

theorem mirrors_morph (same : n.erase = m.erase) {s s' : Step} (steps : s.nominal = s'.nominal) :
    Mirrors (fun a b => a.erase = b.erase) (morph n s) (morph m s') := by
  obtain ⟨c⟩ := n
  obtain ⟨e⟩ := m
  by_cases isMorph : ∃ inner ss, c = .morph inner ss
  · obtain ⟨inner, ss, rfl⟩ := isMorph
    rw [Node.erase_of, Node.erase_of, Node.of.injEq] at same
    cases e <;> try cases same
    rename_i inner' ss'
    obtain ⟨inners, before⟩ :
        inner.erase = inner'.erase ∧ ss.map Step.nominal = ss'.map Step.nominal := by
      simpa [Constraint.erased, Constraint.map] using same
    refine .build_same ?_
    simp [Node.erase_of, Constraint.erased, Constraint.map, inners, before, steps]
  · have single (k : Node) (none : ¬∃ inner ss, k.constraint = .morph inner ss) (s : Step) :
        morph k s = build (Traced.build (.of (.morph k [s]))) := by
      unfold morph
      split
      · rename_i inner ss found
        exact absurd ⟨inner, ss, found⟩ none
      · rfl
    have other : ¬∃ inner ss, e = .morph inner ss := by
      rintro ⟨inner, ss, rfl⟩
      rw [Node.erase_of, Node.erase_of, Node.of.injEq] at same
      cases c <;> try cases same
      exact isMorph ⟨_, _, rfl⟩
    rw [single (.of c) isMorph, single (.of e) other]
    refine .build_same ?_
    simp [Node.erase_of, Constraint.erased, Constraint.map, same, steps]

theorem addNamed_erase (p : Props Node) (name : String) (n : Node) (optional : Bool) :
    (addNamed p name n optional).map Node.erase = addNamed (p.map Node.erase) name n.erase
      optional := by
  cases optional <;> simp [addNamed, Props.map, Entries.insert_map]

theorem addSignature_erase (p : Props Node) (key value : Node) :
    (addSignature p key value).map Node.erase = addSignature (p.map Node.erase) key.erase
      value.erase := by
  simp [addSignature, Props.map]

end Definition

/-- For the given names two lookups find nodes that are the same, and steps with the same names. -/
structure Lookup.Simulates (I J : ScopeState → Prop) (known : String → Prop)
    (lookup lookup' : Lookup) : Prop where
  aliases : ∀ name, known name →
    Parsing.Simulates I J (fun o o' => o.map Node.erase = o'.map Node.erase)
    (lookup.alias? name) (lookup'.alias? name)
  morphs : ∀ name, (lookup.morph? name).map Step.nominal = (lookup'.morph? name).map Step.nominal
  ofResolutions : IsOfResolutions I
  ofResolutions' : IsOfResolutions J

section

variable {I J : ScopeState → Prop} {known : String → Prop} {lookup lookup' : Lookup}
  (lookups : lookup.Simulates I J known lookup')
include lookups

theorem Lookup.Simulates.quiet {α β : Type} {R : α → β → Prop} {x : Parsing α}
    {y : Parsing β} (h : Mirrors R x y) :
    Parsing.Simulates I J R x y := h.simulates lookups.ofResolutions lookups.ofResolutions'

namespace ExpressionState

variable {e e' : ExpressionState} {g g' : Group} {n m : Node}

theorem simulates_word [Library] {text : String} (named : known text) :
    Parsing.Simulates I J (fun a b => a.erase = b.erase)
    (word lookup text) (word lookup' text) := by
  rw [word, word]
  cases Word.literal? text with
  | some l => exact lookups.quiet (.build_node _)
  | none =>
    refine (lookups.aliases text named).bind fun o o' same => ?_
    cases o <;> cases o' <;> try cases same
    · cases found : Word.keyword? text with
      | some x => exact lookups.quiet (Word.mirrors_keyword found)
      | none => exact .fail _ _
    · exact .pure (Option.some.inj same)

end ExpressionState

end

/-- What is read next is the same, up to what is erased. -/
inductive Awaiting.Alike : Awaiting → Awaiting → Prop
  | operand : Alike .operand .operand
  | operator {n m : Node} (same : n.erase = m.erase) : Alike (.operator n) (.operator m)
  | divisor {n m : Node} (same : n.erase = m.erase) : Alike (.divisor n) (.divisor m)
  | limit {n m : Node} (c : Comparator) (same : n.erase = m.erase) : Alike (.limit n c) (.limit m c)
  | finish {n m : Node} (same : n.erase = m.erase) : Alike (.finish n) (.finish m)
  | nothing {n m : Node} (same : n.erase = m.erase) : Alike (.nothing n) (.nothing m)

namespace ExpressionState

/-- The states are the same, up to what is erased. -/
structure Alike (e e' : ExpressionState) : Prop where
  awaiting : e.awaiting.Alike e'.awaiting
  group : e.group.erase = e'.group.erase
  outer : e.outer.map Group.erase = e'.outer.map Group.erase
  optional : e.optional = e'.optional

variable {e e' : ExpressionState} {g g' : Group} {n m : Node}

theorem Alike.await (h : e.Alike e') {a a' : Awaiting} (awaiting : a.Alike a') :
    Alike { e with awaiting := a } { e' with awaiting := a' } :=
  ⟨awaiting, h.group, h.outer, h.optional⟩

theorem Alike.isEmpty (h : e.Alike e') : e.outer.isEmpty = e'.outer.isEmpty := by
  rw [← List.isEmpty_map, h.outer, List.isEmpty_map]

theorem alike_compare (h : e.Alike e') (same : n.erase = m.erase) (c : Comparator) :
    Mirrors Alike (compare e n c) (compare e' m c) := by
  obtain ⟨left, pending, branches⟩ := Group.erase_eq_iff.mp h.group
  by_cases number : ∃ x, n.constraint = .literal (.number x)
  · obtain ⟨x, found⟩ := number
    rw [compare, compare, found, (literal_of_erase same x).mp found, left]
    refine .ite (fun _ => .fail _ _) fun _ => .ite (fun _ => .pure ?_) fun _ => .fail _ _
    exact ⟨.operand, Group.erase_eq_iff.mpr ⟨rfl, pending, branches⟩, h.outer, h.optional⟩
  · have other : ¬∃ x, m.constraint = .literal (.number x) :=
      fun ⟨x, found⟩ => number ⟨x, (literal_of_erase same x).mpr found⟩
    rw [compare_of_not_number e number, compare_of_not_number e' other]
    exact .pure (h.await (.limit c same))

variable [Library]

theorem alike_close (h : e.Alike e') (same : n.erase = m.erase) :
    Mirrors Alike (close e n) (close e' m) := by
  have outer := h.outer
  unfold close
  cases he : e.outer with
  | nil => exact .fail _ _
  | cons parent rest =>
    cases he' : e'.outer with
    | nil =>
      rw [he, he'] at outer
      cases outer
    | cons parent' rest' =>
      rw [he, he'] at outer
      obtain ⟨same_parent, same_rest⟩ := List.cons.inj outer
      refine (mirrors_finishGroup h.group same).bind fun a b closed => .pure ?_
      exact ⟨.operator closed, same_parent, same_rest, h.optional⟩

theorem alike_conclude (h : e.Alike e') (same : n.erase = m.erase) :
    Mirrors Alike (conclude e n) (conclude e' m) :=
  (mirrors_finishGroup h.group same).bind fun _ _ last =>
    .pure ⟨.nothing last, rfl, h.outer, h.optional⟩

theorem alike_operator (allowOptional : Bool) (h : e.Alike e') (same : n.erase = m.erase)
    (t : Token) : Mirrors Alike (operator allowOptional e n t) (operator allowOptional e' m t) := by
  obtain ⟨left, pending, branches⟩ := Group.erase_eq_iff.mp h.group
  cases t with
  | list => exact Mirrors.bind (.arrayOf same) fun a b made => .pure (h.await (.operator made))
  | optional =>
    exact .ite (fun _ => .pure ⟨.finish same, h.group, h.outer, rfl⟩) fun _ => .fail _ _
  | brand name =>
    refine Mirrors.bind (.build_node _) fun a b brand => ?_
    exact Mirrors.bind (.intersect same brand) fun a b made => .pure (h.await (.operator made))
  | percent => exact .pure (h.await (.divisor same))
  | comparator c => exact alike_compare h same c
  | ampersand =>
    refine (mirrors_conjoin h.group same).bind fun a b made =>
      .pure ⟨.operand, ?_, h.outer, h.optional⟩
    exact Group.erase_eq_iff.mpr ⟨left, congrArg some made, branches⟩
  | bar =>
    refine (mirrors_conjoin h.group same).bind fun a b made =>
      .pure ⟨.operand, ?_, h.outer, h.optional⟩
    refine Group.erase_eq_iff.mpr ⟨left, rfl, ?_⟩
    rw [List.map_append, List.map_append, branches, List.map_singleton, List.map_singleton, made]
  | groupClose => exact alike_close h same
  | finish =>
    rw [operator, operator, h.isEmpty]
    exact .ite (fun _ => alike_conclude h same) fun _ => .fail _ _
  | _ => exact .fail _ _

section

variable {I J : ScopeState → Prop} {known : String → Prop} {lookup lookup' : Lookup}
  (lookups : lookup.Simulates I J known lookup')
include lookups

theorem simulates_operand (h : e.Alike e') {t : Token}
    (named : ∀ name, t = .word name → known name) :
    Parsing.Simulates I J Alike (operand lookup e t) (operand lookup' e' t) := by
  have read {x y : Parsing Node} (hx : Parsing.Simulates I J (fun a b => a.erase = b.erase) x y) :
      Parsing.Simulates I J Alike (do return { e with awaiting := .operator (← x) })
        (do return { e' with awaiting := .operator (← y) }) :=
    hx.bind fun a b same => .pure (h.await (.operator same))
  cases t with
  | groupOpen =>
    exact .pure ⟨h.awaiting, rfl, congrArg₂ List.cons h.group h.outer, h.optional⟩
  | word text => exact read (simulates_word lookups (named text rfl))
  | enclosed d text =>
    by_cases slash : d = '/'
    · subst slash
      exact read (lookups.quiet (mirrors_regex text))
    · rw [operand_quoted _ _ slash, operand_quoted _ _ slash]
      exact read (lookups.quiet (.build_node _))
  | _ => exact .fail _ _

theorem simulates_step (allowOptional : Bool) (h : e.Alike e') {t : Token}
    (named : ∀ name, t = .word name → known name) :
    Parsing.Simulates I J Alike (step lookup allowOptional e t)
      (step lookup' allowOptional e' t) := by
  have awaiting := h.awaiting
  unfold step
  generalize ha : e.awaiting = a at awaiting
  generalize hb : e'.awaiting = b at awaiting
  cases awaiting with
  | operand => exact simulates_operand lookups h named
  | operator same => exact lookups.quiet (alike_operator allowOptional h same t)
  | divisor same =>
    exact lookups.quiet ((mirrors_divide same t).bind fun a b made =>
      .pure (h.await (.operator made)))
  | limit c same =>
    obtain ⟨-, pending, branches⟩ := Group.erase_eq_iff.mp h.group
    refine lookups.quiet ((mirrors_boundBy h.group same c t).bind fun a b made => .pure ?_)
    exact ⟨.operator made, Group.erase_eq_iff.mpr ⟨rfl, pending, branches⟩, h.outer,
      h.optional⟩
  | finish same =>
    dsimp only
    rw [h.isEmpty]
    exact .ite (fun _ => lookups.quiet (alike_conclude h same)) fun _ => .fail _ _
  | nothing same => exact .pure h

theorem simulates_steps (allowOptional : Bool) {ts : List (Except Fault Token)}
    (named : ∀ name, .ok (.word name) ∈ ts → known name) (h : e.Alike e') :
    Parsing.Simulates I J Alike (steps lookup allowOptional e ts)
      (steps lookup' allowOptional e' ts) := by
  induction ts generalizing e e' with
  | nil => exact .pure h
  | cons t ts ih =>
    cases t with
    | error f => exact .fail _ _
    | ok t =>
      have first : ∀ name, t = .word name → known name :=
        fun name same => named name (same ▸ List.mem_cons_self)
      exact (simulates_step lookups allowOptional h first).bind fun a b next =>
        ih (fun name later => named name (List.mem_cons_of_mem _ later)) next

end

end ExpressionState

variable [Library]

section

variable {I J : ScopeState → Prop} {known : String → Prop} {lookup lookup' : Lookup}
  (lookups : lookup.Simulates I J known lookup')
include lookups

theorem parseExpression_simulates (allowOptional : Bool) {text : String}
    (named : ∀ name ∈ namesIn text, known name) :
    Parsing.Simulates I J (fun p q => p.node.erase = q.node.erase ∧ p.optional = q.optional)
      (parseExpression lookup allowOptional text) (parseExpression lookup' allowOptional text) := by
  have words : ∀ name, .ok (.word name) ∈ Scan.all text → known name := fun name found =>
    named name (List.mem_filterMap.mpr ⟨_, found, rfl⟩)
  refine (ExpressionState.simulates_steps lookups allowOptional words
    ⟨.operand, rfl, rfl, rfl⟩).bind fun e e' h => ?_
  have awaiting := h.awaiting
  generalize ha : e.awaiting = a at awaiting
  generalize hb : e'.awaiting = b at awaiting
  cases awaiting with
  | nothing same => exact .pure ⟨same, h.optional⟩
  | _ => exact .fail _ _

namespace Definition

omit [Library] in
theorem step_simulates (name : String) :
    Parsing.Simulates I J (fun s s' => s.nominal = s'.nominal) (step lookup name)
      (step lookup' name) := by
  have found : (lookup.morph? name <|> (Builtin.ofName? name).map Step.builtin).map Step.nominal =
      (lookup'.morph? name <|> (Builtin.ofName? name).map Step.builtin).map Step.nominal := by
    simp only [Option.orElse_eq_orElse, Option.orElse_eq_or, Option.map_or, lookups.morphs name]
  unfold step
  generalize (lookup.morph? name <|> (Builtin.ofName? name).map Step.builtin) = o at found ⊢
  generalize (lookup'.morph? name <|> (Builtin.ofName? name).map Step.builtin) = o' at found ⊢
  cases o <;> cases o' <;> try cases found
  · exact .fail _ _
  · exact .pure (Option.some.inj found)

mutual

/-- Reading a definition with one lookup simulates reading it with the other. -/
theorem parse_simulates : ∀ definition : Json, (∀ name ∈ names definition, known name) →
    Parsing.Simulates I J (fun a b => a.erase = b.erase) (parse lookup definition)
      (parse lookup' definition)
  | .string text, named => by
    rw [parse, parse]
    rw [names] at named
    exact (parseExpression_simulates lookups false named).bind fun p q same => .pure same.1
  | .object entries, named => by
    rw [parse, parse]
    rw [names] at named
    exact (parseEntries_simulates entries named rfl).bind fun p q same =>
      lookups.quiet (mirrors_finishObject same)
  | .array items, named => by
    rw [parse.eq_def lookup]
    split
    · rename_i h
      cases h
    · rename_i h
      cases h
    · rename_i value h
      cases h
      rw [parse]
      cases Literal.ofJson? value with
      | some l => exact lookups.quiet (.build_node _)
      | none => exact .fail _ _
    · rename_i element other h
      cases h
      rw [parse.eq_4 _ element other]
      rw [names.eq_5 _ (by simpa using other) (by simp), namesOfItems, List.forall_mem_append]
        at named
      exact (parse_simulates element named.1).bind fun a b same => lookups.quiet (.arrayOf same)
    · rename_i left right h
      cases h
      rw [parse]
      rw [names.eq_5 _ (by simp) (by simp)] at named
      simp only [namesOfItems, List.forall_mem_append] at named
      refine (parse_simulates left named.1).bind fun l l' hl => ?_
      refine (parse_simulates right named.2.2.1).bind fun r r' hr => lookups.quiet (.unite ?_)
      simp [hl, hr]
    · rename_i left right h
      cases h
      rw [parse]
      rw [names.eq_5 _ (by simp) (by simp)] at named
      simp only [namesOfItems, List.forall_mem_append] at named
      refine (parse_simulates left named.1).bind fun l l' hl => ?_
      exact (parse_simulates right named.2.2.1).bind fun r r' hr => lookups.quiet (.intersect hl hr)
    · rename_i input name h
      cases h
      rw [parse]
      rw [names] at named
      refine (step_simulates lookups name).bind fun s s' steps => ?_
      exact (parse_simulates input named).bind
        fun n m same => lookups.quiet (mirrors_morph same steps)
    · exact .fail _ _
    · rename_i h
      cases h
      rename_i literal _ _ _ morph _
      rw [names.eq_5 items literal morph] at named
      rw [parse]
      · exact .ite (fun _ => .fail _ _) fun _ => parseItems_simulates items named rfl
      all_goals assumption
    · exact .fail _ _
  | .null, _ => by
    rw [parse] <;> first | exact .fail _ _ | simp
  | .bool _, _ => by
    rw [parse] <;> first | exact .fail _ _ | simp
  | .number _, _ => by
    rw [parse] <;> first | exact .fail _ _ | simp

theorem parseEntries_simulates : ∀ (entries : List (String × Json)) {p q : Props Node},
    (∀ name ∈ namesOfEntries entries, known name) → p.map Node.erase = q.map Node.erase →
      Parsing.Simulates I J (fun p q => p.map Node.erase = q.map Node.erase)
        (parseEntries lookup p entries) (parseEntries lookup' q entries)
  | [], _, _, _, same => by
    rw [parseEntries, parseEntries]
    exact .pure same
  | (key, value) :: r, p, q, named, same => by
    rw [namesOfEntries, List.forall_mem_append, List.forall_mem_append] at named
    obtain ⟨keys, values, others⟩ := named
    rw [parseEntries, parseEntries]
    generalize Key.ofText key = k at keys
    cases k with
    | signature text =>
      refine (parseExpression_simulates lookups false keys).bind fun a b key => ?_
      refine (parse_simulates value values).bind fun v w value => ?_
      refine parseEntries_simulates r others ?_
      rw [addSignature_erase, addSignature_erase, same, key.1, value]
    | named name optional =>
      have rest {x y : Parsing Parsed}
          (hx : Parsing.Simulates I J
            (fun a b => a.node.erase = b.node.erase ∧ a.optional = b.optional) x y) :
          Parsing.Simulates I J (fun p q => p.map Node.erase = q.map Node.erase)
            (do
              let parsed ← x
              parseEntries lookup (addNamed p name parsed.node (optional || parsed.optional)) r)
            (do
              let parsed ← y
              parseEntries lookup' (addNamed q name parsed.node (optional || parsed.optional)) r) :=
        hx.bind fun a b made => parseEntries_simulates r others (by
          rw [addNamed_erase, addNamed_erase, same, made.1, made.2])
      have nested : Parsing.Simulates I J
          (fun a b : Parsed => a.node.erase = b.node.erase ∧ a.optional = b.optional)
          ((fun n => Parsed.mk n false) <$> parse lookup value)
          ((fun n => Parsed.mk n false) <$> parse lookup' value) :=
        (parse_simulates value values).map fun a b same => ⟨same, rfl⟩
      cases value with
      | string text =>
        rw [names] at values
        exact rest (parseExpression_simulates lookups true values)
      | _ => exact rest nested

theorem parseItems_simulates : ∀ (items : List Json) {done done' : List Node},
    (∀ name ∈ namesOfItems items, known name) → done.map Node.erase = done'.map Node.erase →
      Parsing.Simulates I J (fun a b => a.erase = b.erase)
        (parseItems lookup done items) (parseItems lookup' done' items)
  | items, done, done', named, same => by
    rw [parseItems.eq_def lookup]
    split
    · rw [parseItems]
      exact lookups.quiet (mirrors_finishTuple same rfl)
    · exact .fail _ _
    · rename_i array
      rw [parseItems]
      simp only [namesOfItems, List.forall_mem_append] at named
      refine (parse_simulates array named.2.1).bind fun n m element => ?_
      refine Parsing.Simulates.bind (lookups.quiet (mirrors_spread element)) fun a b spread => ?_
      exact lookups.quiet (mirrors_finishTuple same (congrArg some spread))
    · exact .fail _ _
    · rename_i item r _ _ _
      rw [parseItems]
      · rw [namesOfItems, List.forall_mem_append] at named
        refine (parse_simulates item named.1).bind fun n m made => ?_
        refine parseItems_simulates r named.2 ?_
        rw [List.map_append, List.map_append, same, List.map_singleton, List.map_singleton, made]
      all_goals assumption

end

end Definition

end

end SchemaAlgebra

import SchemaAlgebra.Proofs.Assembly
import SchemaAlgebra.Proofs.Definitions
import SchemaAlgebra.Proofs.Scanning

/-!
# What grammar texts write

Where no names are declared, every node that a grammar text stands for is written, and what it
refines is of a kind. Both are stated up to what is erased, so it does not matter what a scope
has stored before.
-/
namespace SchemaAlgebra
namespace Parsing

variable {α β : Type}

/-- If the computation does not fail, its result is as stated, whatever the state. -/
def Returns (x : Parsing α) (Q : α → Prop) : Prop := ∀ s a t, x.run.run s = (.ok a, t) → Q a

namespace Returns

variable {Q R : α → Prop} {S : β → Prop}

theorem pure {a : α} (h : Q a) : Returns (Pure.pure a) Q := by
  intro s b t ran
  cases ran
  exact h

theorem fail (f : Fault) : Returns (Parsing.fail f : Parsing α) Q := fun _ _ _ ran => nomatch ran

theorem bind {x : Parsing α} {f : α → Parsing β} (first : Returns x Q)
    (next : ∀ a, Q a → Returns (f a) S) : Returns (x >>= f) S := by
  intro s b t ran
  obtain ⟨a, u, ran, later⟩ := run_bind_eq_ok.mp ran
  exact next a (first s a u ran) u b t later

theorem mono {x : Parsing α} (h : Returns x Q) (weaker : ∀ a, Q a → R a) : Returns x R :=
  fun s a t ran => weaker a (h s a t ran)

theorem ite {c : Prop} [Decidable c] {x y : Parsing α} (yes : c → Returns x Q)
    (no : ¬c → Returns y Q) : Returns (if c then x else y) Q := by
  by_cases h : c
  · rw [if_pos h]; exact yes h
  · rw [if_neg h]; exact no h

end Returns

/-- Whatever the state, the computation comes to this node, up to what is erased, or fails if there
is none. -/
def Result (x : Parsing Node) (o : Option Node) : Prop :=
  ∀ s, (x.run.run s).1.toOption.map Node.erase = o

theorem Result.returns {x : Parsing Node} {o : Option Node} (h : Result x o) :
    Returns x fun n => o = some n.erase := by
  intro s n t ran
  rw [← h s, ran]
  rfl

theorem result_build {x : Traced Node} {m : Node}
    (built : ∀ rep : Node → Node, (∀ n : Node, n.same (rep n) = true) →
      (x.value rep).erase = m) : Result (build x) (some m) := by
  intro s
  rw [run_build]
  exact congrArg some (built _ (ScopeState.settled_same x s))

theorem result_attempt (x : Attempt Node) {o : Option Node}
    (outcome : ∀ rep : Node → Node, (∀ n : Node, n.same (rep n) = true) →
      (x.outcome rep).toOption.map Node.erase = o) : Result (attempt x) o := by
  intro s
  rw [← outcome _ (ScopeState.settled_same x.run s), attempt, run_bind_ok (run_build x.run s),
    Attempt.value_run]
  cases x.outcome (ScopeState.settled x.run s) <;> rfl

variable [Library]

theorem result_intersect (l r : Node) :
    Result (intersect l r) ((meet l.erase r.erase).outcome id).toOption := by
  refine result_attempt _ fun rep faithful => ?_
  rw [← meet_erase faithful]
  cases (meet l r).outcome rep <;> rfl

theorem result_unite (nodes : List Node) :
    Result (unite nodes) ((determinateUnion (nodes.map Node.erase)).value id).toOption := by
  intro s
  rw [← Union.determinate_erase (ScopeState.settled_same (determinateUnion nodes) s), unite,
    run_bind_ok (run_build _ s)]
  cases (determinateUnion nodes).value (ScopeState.settled _ s) <;> rfl

end Parsing

/-- Up to what is erased the node is written, and only kinds of values are refined in it. -/
structure Node.Writable [Library] (n : Node) : Prop where
  written : n.erase.Written
  grounded : n.erase.Grounded

theorem Parsing.Result.writable [Library] {x : Parsing Node} {m : Node} (h : Result x (some m))
    (written : m.Written) (grounded : m.Grounded) : Returns x Node.Writable := by
  refine h.returns.mono fun n same => ?_
  cases same
  exact ⟨written, grounded⟩

namespace Node

theorem apart_of_ranks {a b : Constraint Node} (ranks : a.rank ≠ b.rank)
    (beside : a.StaysBeside b) : Apart (of a) (of b) := by
  refine ⟨Bool.eq_false_iff.mpr fun same => ranks ?_, beside⟩
  have heads : a.head = b.head := head_of_same same
  rw [← Constraint.rank_head, heads, Constraint.rank_head]

theorem grounded_leaf {c : Constraint Node} (single : c.isComposite = false)
    (free : c.isRefinement = false) : (of c).Grounded := by
  refine (grounded_of_plain (isPlain_of_single (n := of c) single)).mpr (.inr fun m hm => ?_)
  have same : (of c).conjuncts = [of c] := by cases c <;> first | rfl | cases single
  rw [same, List.mem_singleton] at hm
  exact hm ▸ free

theorem hasKind_node [Library] {conjuncts : List Node}
    (written : ∀ c ∈ conjuncts, Conjunction.IsWritten c) (apart : conjuncts.Pairwise Apart)
    (kind : Conjunction.HasKind conjuncts) : (Conjunction.node conjuncts).HasKind := by
  obtain ⟨-, plain, perm⟩ := Conjunction.node_written written apart
  obtain ⟨c, hc, kind⟩ := kind
  exact (hasKind_of_plain plain).mpr ⟨c, perm.mem_iff.mpr hc, kind⟩

end Node

namespace Traced

variable {rep : Node → Node} (faithful : ∀ n : Node, n.same (rep n) = true)
include faithful

theorem both_erase (a b : Constraint Node) : ((do
    let l ← build (.of a)
    let r ← build (.of b)
    intersection [l, r] : Traced Node).value rep).erase = Conjunction.node
      [(Node.of a).erase, (Node.of b).erase] := by
  have build_same (c : Constraint Node) : (rep (.of c)).erase = (Node.of c).erase :=
    (Node.same_iff.mp (faithful (.of c))).symm
  change ((intersection [rep (.of a), rep (.of b)]).value rep).erase = _
  rw [intersection_erase faithful, Conjunction.node, List.map_cons, List.map_cons, List.map_nil,
    build_same, build_same]

end Traced

theorem Node.refined_written [Library] {a b : Constraint Node} (ha : Conjunction.IsWritten (.of a))
    (hb : Conjunction.IsWritten (.of b)) (kind : a.isKind = true) (ranks : a.rank ≠ b.rank)
    (beside : a.StaysBeside b) :
    (Conjunction.node [.of a, .of b]).Written ∧ (Conjunction.node [.of a, .of b]).Grounded := by
  have written : ∀ c ∈ [of a, of b], Conjunction.IsWritten c := by simp [ha, hb]
  have apart : [of a, of b].Pairwise Apart := by simp [apart_of_ranks ranks beside]
  exact ⟨(Conjunction.node_written written apart).1,
    (hasKind_node written apart ⟨_, List.mem_cons_self, kind⟩).grounded⟩

section

variable {rep : Node → Node} (faithful : ∀ n : Node, n.same (rep n) = true)

def Pattern.node (p : Pattern) : Node :=
  Conjunction.node [.of (.domain .string), .of (.patterns [p])]

theorem Pattern.node_written [Library] {p : Pattern} (h : p.IsWritten) :
    p.node.Written ∧ p.node.Grounded := by
  have ranks : (0 : Nat) ≠ 3 := by decide
  refine Node.refined_written ⟨.leaf trivial nofun rfl, rfl⟩
    ⟨.leaf (List.nodup_singleton p) ?_ rfl, rfl⟩ rfl ranks
    ⟨rfl, rfl,
      .inr (.inr (.inr ⟨ranks, rfl, rfl, .string, List.mem_singleton_self _,
        List.mem_singleton_self _⟩))⟩
  exact ⟨nofun, List.pairwise_singleton _ _, List.forall_mem_singleton.mpr h⟩

include faithful in
theorem Word.matching_erase (p : Pattern) : ((matching p).value rep).erase = p.node :=
  Traced.both_erase faithful _ _

include faithful in
theorem Word.transformed_erase (b : Builtin) : ((transformed b).value rep).erase =
    .of (.morph (.of (.domain .string)) [(Step.builtin b).nominal]) := by
  have input : (rep (.of (.domain .string))).erase = .of (.domain .string) :=
    (Node.same_iff.mp (faithful _)).symm
  refine (Node.same_iff.mp (faithful _)).symm.trans ?_
  rw [Node.erase_of]
  simp only [Constraint.erased, Constraint.map, List.map_cons, List.map_nil]
  rw [input]

def Node.integer : Node := Conjunction.node [.of (.domain .number), .of (.divisor 1)]

theorem Node.integer_written [Library] : integer.Written ∧ integer.Grounded := by
  have ranks : (0 : Nat) ≠ 2 := by decide
  exact Node.refined_written ⟨.leaf trivial nofun rfl, rfl⟩
    ⟨.leaf ⟨by decide, by decide⟩ trivial rfl, rfl⟩ rfl ranks
    ⟨rfl, rfl,
      .inr (.inr (.inr ⟨ranks, rfl, rfl, .number, List.mem_singleton_self _,
        List.mem_singleton_self _⟩))⟩

def Node.array (element : Node) : Node :=
  if element.isUnknown then .of (.basis .array)
  else Conjunction.node [.of (.basis .array), .of (.props (.ofSequence ⟨[], some element⟩))]

theorem Node.array_written [Library] {element : Node} (h : element.Written)
    (grounded : element.Grounded) : element.array.Written ∧ element.array.Grounded := by
  have basis : (of (.basis .array)).Written := .leaf trivial trivial rfl
  rw [array]
  split_ifs with all
  · exact ⟨basis, grounded_leaf rfl rfl⟩
  · have ranks : (0 : Nat) ≠ 4 := by decide
    refine Node.refined_written ⟨basis, rfl⟩
      ⟨.of _ trivial ⟨element, rfl, grounded, Bool.eq_false_iff.mpr all⟩ ?_, rfl⟩ rfl
      ranks ⟨rfl, rfl, .inr (.inr
        (.inr ⟨ranks, rfl, rfl, .object, List.mem_singleton_self _,
          List.mem_singleton_self _⟩))⟩
    simpa [Constraint.children, Props.ofSequence, Props.values, Props.empty, Entries.values,
      Sequence.values] using h

include faithful in
theorem Traced.arrayOf_erase (n : Node) : ((arrayOf n).value rep).erase = n.erase.array := by
  have known : n.erase.isUnknown = n.isUnknown := by
    obtain ⟨c⟩ := n
    rw [Node.erase_of]
    cases c <;> simp [Node.isUnknown, Node.constraint, Constraint.erased, Constraint.map]
  rw [arrayOf, Node.array, known]
  by_cases all : n.isUnknown = true
  · simp only [all, if_true]
    exact (Node.same_iff.mp (faithful (.of (.basis .array)))).symm
  · simp only [all, Bool.false_eq_true, if_false]
    refine (both_erase faithful _ _).trans ?_
    rw [Node.erase_of, Node.erase_of]
    rfl

end

theorem Word.literal_isWritten {text : String}
    (word : ∀ c ∈ text.toList, Scan.isWordChar c = true) {l : Literal}
    (h : literal? text = some l) : l.IsWritten := by
  have whole := h
  rw [literal?] at h
  cases number : number? text with
  | some x =>
    rw [number] at h
    obtain ⟨n, -, rfl⟩ := Option.map_eq_some_iff.mp h
    trivial
  | none =>
    rw [number] at h
    obtain ⟨digits, found, rfl⟩ := Option.map_eq_some_iff.mp h
    have spelled : text = digits ++ "n" := by
      rw [bigint?] at found
      split at found
      · rename_i r reversed
        split_ifs at found
        cases found
        apply String.toList_injective
        rw [← List.reverse_inj, reversed]
        simp
      · cases found
    subst spelled
    exact ⟨fun c hc => word c (by simp [hc]), whole⟩

namespace Parsing

theorem result_literal (l : Literal) :
    Result (build (Traced.literal l)) (some (.of (.literal l))) :=
  result_build fun _ faithful => (Node.same_iff.mp (faithful _)).symm

theorem writable_literal [Library] {l : Literal} (h : l.IsWritten) :
    Returns (build (Traced.literal l)) Node.Writable :=
  (result_literal l).writable (.leaf trivial h rfl) (Node.grounded_leaf rfl rfl)

theorem result_constraint {c : Constraint Node} (bare : (Node.of c).erase = .of c) :
    Result (build (Traced.build (.of c))) (some (.of c)) :=
  result_build fun _ faithful => (Node.same_iff.mp (faithful _)).symm.trans bare

theorem result_matching (p : Pattern) : Result (build (Word.matching p)) (some p.node) :=
  result_build fun _ faithful => Word.matching_erase faithful p

theorem result_arrayOf (n : Node) : Result (build (Traced.arrayOf n)) (some n.erase.array) :=
  result_build fun _ faithful => Traced.arrayOf_erase faithful n

end Parsing

theorem Pattern.ofSource?_eq_some [Library] {source : String} {p : Pattern} :
    ofSource? source = some p ↔ Library.isRegex source = true ∧ p.source = source := by
  rw [ofSource?]
  split_ifs with valid
  · rw [Option.some.injEq, and_iff_right valid]
    exact ⟨fun same => same ▸ rfl, fun same => same ▸ rfl⟩
  · exact iff_of_false nofun fun h => valid h.1

theorem Word.forms_written [Library] {word : String} {p : Pattern}
    (h : (forms.lookup word).bind Pattern.ofSource? = some p) : p.IsWritten := by
  have scanned : ∀ e ∈ forms,
      (Scan.enclosed '/' [] (e.2.toList ++ ['/'])).token.toOption = some (.enclosed '/' e.2) := by
    decide +kernel
  obtain ⟨source, found, valid⟩ := Option.bind_eq_some_iff.mp h
  obtain ⟨valid, same⟩ := Pattern.ofSource?_eq_some.mp valid
  obtain ⟨l, r, listed, -⟩ := List.lookup_eq_some_iff.mp found
  obtain ⟨body, text, again⟩ :=
    Scan.enclosed_body (Union.toOption_eq_some.mp (scanned (word, source) (by simp [listed])))
  refine ⟨same ▸ valid, fun rest => ?_⟩
  rw [same]
  dsimp only at text
  rw [text]
  simpa using again [] rest

theorem Word.keyword_writable [Library] {word : String} {x : Traced Node}
    (h : keyword? word = some x) : Parsing.Returns (Parsing.build x) Node.Writable := by
  simp only [keyword?, Option.orElse_eq_orElse, Option.orElse_eq_or, Option.or_eq_some_iff,
    Option.map_eq_some_iff] at h
  have constraint {c : Constraint Node} (bare : (Node.of c).erase = .of c)
      (written : (Node.of c).Written) (grounded : (Node.of c).Grounded) :
      Parsing.Returns (Parsing.build (Traced.build (.of c))) Node.Writable :=
    (Parsing.result_constraint bare).writable written grounded
  have kind {c : Constraint Node} (written : c.IsWritten) (settled : c.Settled)
      (bare : (Node.of c).erase = .of c) (leaf : c.children = []) (single : c.isComposite = false)
      (free : c.isRefinement = false) :
      Parsing.Returns (Parsing.build (Traced.build (.of c))) Node.Writable :=
    constraint bare (.leaf settled written leaf) (Node.grounded_leaf single free)
  rcases h with ⟨d, found, rfl⟩ | ⟨-,
    named | ⟨-, ⟨p, found, rfl⟩ | ⟨-, b, -, rfl⟩⟩⟩
  · have other : d ≠ .null := by
      rintro rfl
      have listed := List.mem_of_find?_eq_some found
      exact absurd listed (by decide)
    exact kind other trivial rfl rfl rfl rfl
  · have known : (word, x) ∈ named? := by
      obtain ⟨l, r, same, -⟩ := List.lookup_eq_some_iff.mp named
      rw [same]
      exact List.mem_append_right _ List.mem_cons_self
    have all : ∀ e ∈ named?, Parsing.Returns (Parsing.build e.2) Node.Writable := by
      simp only [named?, List.forall_mem_cons]
      have literal (l : Literal) (h : l.IsWritten) := Parsing.writable_literal h
      have basis (b : Basis) : Parsing.Returns (Parsing.build (Traced.basis b)) Node.Writable :=
        kind trivial trivial rfl rfl rfl rfl
      have unknown : Parsing.Returns (Parsing.build Traced.unknown) Node.Writable :=
        constraint rfl Node.written_unknown fun b hb => .inr fun c hc => by
          cases List.mem_singleton.mp hb
          cases hc
      have never : Parsing.Returns (Parsing.build Traced.never) Node.Writable :=
        constraint rfl Node.written_never fun b hb => by cases hb
      have integer : Parsing.Returns (Parsing.build Word.integer) Node.Writable :=
        (Parsing.result_build fun rep faithful => Traced.both_erase faithful _ _).writable
          Node.integer_written.1 Node.integer_written.2
      exact ⟨literal _ trivial, literal _ trivial, literal _ trivial, unknown, unknown, never,
        integer, basis _, basis _, List.forall_mem_nil _⟩
    exact all _ known
  · obtain ⟨written, grounded⟩ := Pattern.node_written (forms_written found)
    exact (Parsing.result_matching p).writable written grounded
  · refine (Parsing.result_build fun _ faithful => transformed_erase faithful b).writable
      (.of _ trivial ⟨rfl, rfl⟩ ?_) fun m hm => ?_
    · exact List.forall_mem_singleton.mpr (.leaf trivial (fun h => by cases h) rfl)
    · cases List.mem_singleton.mp hm
      exact .inr (List.forall_mem_singleton.mpr rfl)

def Constraint.basis? {α : Type u} : Constraint α → Option Basis
  | basis b => some b
  | _ => none

namespace Node

variable {n : Node}

theorem domain_of_single (single : n.constraint.isComposite = false) :
    n.domain? = n.constraint.fixedDomain? := by
  obtain ⟨c⟩ := n
  rw [domain?, fold_of]
  cases c <;> first | rfl | cases single

theorem basis_of_single (single : n.constraint.isComposite = false) :
    n.basis? = n.constraint.basis? := by
  obtain ⟨c⟩ := n
  rw [basis?, fold_of]
  cases c <;> first | rfl | cases single

theorem domain_of_plain (plain : n.isPlain = true) : n.domain? = n.conjuncts.findSome? domain? := by
  obtain ⟨c⟩ := n
  cases c with
  | intersection children =>
    rw [domain?, fold_of, ← domain?, Constraint.map]
    simp [conjuncts, constraint, List.findSome?_map]
  | union branches => cases plain
  | morph input steps => cases plain
  | _ => simp [conjuncts, constraint]

theorem basis_of_plain (plain : n.isPlain = true) : n.basis? = n.conjuncts.findSome? basis? := by
  obtain ⟨c⟩ := n
  cases c with
  | intersection children =>
    rw [basis?, fold_of, ← basis?, Constraint.map]
    simp [conjuncts, constraint, List.findSome?_map]
  | union branches => cases plain
  | morph input steps => cases plain
  | _ => simp [conjuncts, constraint]

theorem isComposite_of_plain (h : n.Reduced) (plain : n.isPlain = true) {m : Node}
    (hm : m ∈ n.conjuncts) : m.constraint.isComposite = false :=
  h.isComposite_of_conjunct (isPlain_iff.mp plain).1 (isPlain_iff.mp plain).2 hm

theorem hasKind_of_sizable (h : n.Reduced) (plain : n.isPlain = true)
    (sizable : ExpressionState.isSizable n = true) : Conjunction.HasKind n.conjuncts := by
  have domain {d : Domain} (other : d ≠ .object) (found : n.domain? = some d) :
      Conjunction.HasKind n.conjuncts := by
    rw [domain_of_plain plain] at found
    obtain ⟨c, hc, fixed⟩ := List.exists_of_findSome?_eq_some found
    rw [domain_of_single (isComposite_of_plain h plain hc)] at fixed
    refine ⟨c, hc, ?_⟩
    obtain ⟨c⟩ := c
    cases c with
    | domain e =>
      cases fixed
      simpa [constraint, Constraint.isKind] using other
    | literal l => rfl
    | basis b => rfl
    | _ => cases fixed
  rw [ExpressionState.isSizable, Bool.or_eq_true, Bool.or_eq_true, beq_iff_eq, beq_iff_eq,
    beq_iff_eq] at sizable
  rcases sizable with (found | found) | found
  · rw [basis_of_plain plain] at found
    obtain ⟨c, hc, fixed⟩ := List.exists_of_findSome?_eq_some found
    rw [basis_of_single (isComposite_of_plain h plain hc)] at fixed
    refine ⟨c, hc, ?_⟩
    obtain ⟨c⟩ := c
    cases c <;> first | rfl | cases fixed
  · exact domain (by decide) found
  · exact domain (by decide) found

theorem sizable_erase (n : Node) :
    ExpressionState.isSizable n.erase = ExpressionState.isSizable n := by
  have domain : n.erase.domain? = n.domain? := fold_erase (fun c => by cases c <;> rfl) n
  have basis : n.erase.basis? = n.basis? := fold_erase (fun c => by cases c <;> rfl) n
  rw [ExpressionState.isSizable, ExpressionState.isSizable, domain, basis]

theorem Writable.hasKind [Library] (h : n.Writable)
    (sizable : ∀ b ∈ n.branches, ExpressionState.isSizable b = true) : n.erase.HasKind := by
  intro b hb
  have single := h.written.reduced.isUnion_of_branch hb
  have written := h.written.branches b hb
  rw [branches_erase] at hb
  obtain ⟨m, hm, rfl⟩ := List.mem_map.mp hb
  have sized := sizable m hm
  rw [← sizable_erase] at sized
  by_cases morph : m.erase.isMorph = true
  · obtain ⟨input, steps, same⟩ := exists_morph morph
    generalize m.erase = k at *
    obtain ⟨c⟩ := k
    cases same
    refine hasKind_of_sizable (written.children input (List.mem_singleton_self input)).reduced
      written.form.1 ?_
    have domain : (of (.morph input steps)).domain? = input.domain? := by
      rw [domain?, fold_of]
      rfl
    have basis : (of (.morph input steps)).basis? = none := by
      rw [basis?, fold_of]
      rfl
    rw [ExpressionState.isSizable, domain, basis] at sized
    change ExpressionState.isSizable input = true
    rw [ExpressionState.isSizable, Bool.or_assoc, Bool.or_eq_true]
    exact .inr (by simpa using sized)
  · rw [Bool.not_eq_true] at morph
    rw [input_of_plain morph]
    exact hasKind_of_sizable written.reduced (isPlain_iff.mpr ⟨single, morph⟩) sized

end Node

variable [Library]

namespace Parsing

variable {l r : Node}

theorem writable_intersect (hl : l.Writable) (hr : r.Writable) :
    Returns (intersect l r) Node.Writable := by
  refine (result_intersect l r).returns.mono fun n met => ?_
  have met := meet_written hl.written hr.written (Union.toOption_eq_some.mp met)
  exact ⟨met.written, met.grounded hl.grounded hr.grounded⟩

theorem writable_refine (hl : l.Writable) (kind : l.erase.HasKind) (hr : r.erase.Written) :
    Returns (intersect l r) Node.Writable := by
  refine (result_intersect l r).returns.mono fun n met => ?_
  have met := meet_written hl.written hr (Union.toOption_eq_some.mp met)
  exact ⟨met.written, (met.hasKind (.inl kind)).grounded⟩

theorem writable_unite {nodes : List Node} (h : ∀ n ∈ nodes, n.Writable) :
    Returns (unite nodes) Node.Writable := by
  refine (result_unite nodes).returns.mono fun n united => ?_
  have written : ∀ m ∈ nodes.map Node.erase, m.Written :=
    List.forall_mem_map.mpr fun m hm => (h m hm).written
  obtain ⟨united, origin⟩ := determinateUnion_written written (Union.toOption_eq_some.mp united)
  refine ⟨united, fun b hb => ?_⟩
  obtain ⟨-, m, hm, inside⟩ := origin b hb
  obtain ⟨k, hk, rfl⟩ := List.mem_map.mp hm
  exact (h k hk).grounded b inside

theorem writable_arrayOf {n : Node} (h : n.Writable) :
    Returns (build (Traced.arrayOf n)) Node.Writable :=
  (result_arrayOf n).writable (Node.array_written h.written h.grounded).1
    (Node.array_written h.written h.grounded).2

end Parsing

def Lookup.Bare (lookup : Lookup) : Prop := ∀ name, lookup.alias? name = pure none

theorem Range.bound_written {r : Range} (finite : r.IsFinite)
    (limited : r.lower.isSome ∨ r.upper.isSome) (nonempty : r.isEmpty = false) :
    (Node.of (.bound r.canonical)).Written := by
  refine .leaf finite.canonical
    ⟨r.canonical_canonical, ?_, r.isEmpty_canonical.trans nonempty⟩ rfl
  simpa [canonical] using limited

namespace ExpressionState

open Parsing
open Node (Writable)

variable {lookup : Lookup} {e : ExpressionState} {root : Node}

theorem word_returns (bare : lookup.Bare) {text : String} (formed : Scan.Formed (.word text)) :
    Returns (word lookup text) Writable := by
  unfold word
  cases literal : Word.literal? text with
  | some l => exact writable_literal (Word.literal_isWritten formed.2 literal)
  | none =>
    simp only [bare text, pure_bind]
    cases keyword : Word.keyword? text with
    | some x => exact Word.keyword_writable keyword
    | none => exact .fail _

theorem regex_returns {source : String} (formed : Scan.Formed (.enclosed '/' source)) :
    Returns (regex source) Writable := by
  unfold regex
  cases valid : Pattern.ofSource? source with
  | some p =>
    obtain ⟨valid, rfl⟩ := Pattern.ofSource?_eq_some.mp valid
    obtain ⟨written, grounded⟩ := Pattern.node_written (p := p) ⟨valid, formed rfl⟩
    exact (result_matching p).writable written grounded
  | none => exact .fail _

theorem operand_returns (bare : lookup.Bare) (he : e.Holds Writable) {t : Token}
    (formed : Scan.Formed t) : Returns (operand lookup e t) (Holds Writable) := by
  have read {x : Parsing Node} (hx : Returns x Writable) :
      Returns (do return { e with awaiting := .operator (← x) }) (Holds Writable) :=
    hx.bind fun _ hn => .pure (he.operator hn)
  unfold operand
  split
  · exact .pure ⟨he.awaiting, empty_holds, List.forall_mem_cons.mpr ⟨he.group, he.outer⟩⟩
  · exact read (word_returns bare formed)
  · exact read (regex_returns formed)
  · exact read (writable_literal trivial)
  · exact .fail _
  · exact .fail _

omit [Library] in
theorem checkLeftBound_returns (g : Group) : Returns (checkLeftBound g) fun _ => True := by
  unfold checkLeftBound
  cases g.leftBound with
  | some b => exact .fail _
  | none => exact .pure trivial

theorem conjoin_returns {g : Group} (hg : g.Holds Writable) (hr : root.Writable) :
    Returns (conjoin g root) Writable := by
  refine (checkLeftBound_returns g).bind fun _ _ => ?_
  cases pending : g.intersection with
  | some n => exact writable_intersect (hg.intersection n pending) hr
  | none => exact .pure hr

theorem finishGroup_returns {g : Group} (hg : g.Holds Writable) (hr : root.Writable) :
    Returns (finishGroup g root) Writable := by
  refine (conjoin_returns hg hr).bind fun last hl => writable_unite fun n hn => ?_
  rcases List.mem_append.mp hn with hn | hn
  · exact hg.branches n hn
  · exact List.mem_singleton.mp hn ▸ hl

omit [Library] in
theorem requireAll_returns (test : Node → Bool) (fault : Node → Fault) (n : Node) :
    Returns (requireAll test fault n) fun _ => ∀ b ∈ n.branches, test b = true := by
  unfold requireAll
  cases failing : n.branches.find? (!test ·) with
  | some b => exact .fail _
  | none => exact .pure fun b hb => by simpa using List.find?_eq_none.mp failing b hb

theorem divide_returns (hr : root.Writable) (t : Token) : Returns (divide root t) Writable := by
  unfold divide
  cases hd : divisor? t with
  | none => exact .fail _
  | some n =>
    have settled : (Constraint.divisor n : Constraint Node).Settled := by
      cases t with
      | word text =>
        rw [divisor?, Option.filter_eq_some_iff] at hd
        simpa [Constraint.Settled] using hd.2
      | _ => cases hd
    refine (requireAll_returns _ _ _).bind fun _ numbers => ?_
    refine ((result_constraint rfl).returns (x := build (Traced.divisor n))).bind fun d hd => ?_
    refine writable_refine hr (hr.hasKind fun b hb => ?_) ?_
    · rw [isSizable, numbers b hb, Bool.or_true, Bool.true_or]
    · rw [← Option.some.inj hd]
      exact .leaf settled trivial rfl

omit [Library] in
theorem rangeOf_written (c : Comparator) {x : Binary64} (finite : x.isFinite = true) :
    ((rangeOf c x).lower.isSome ∨ (rangeOf c x).upper.isSome) ∧
      (rangeOf c x).isEmpty = false := by
  have number : x.isNaN = false := by
    simp only [Binary64.isFinite, decide_eq_true_eq] at finite
    simpa [Binary64.isNaN] using finite.le
  cases c <;> simp [rangeOf, Range.atLeast, Range.atMost, Range.exactly, Range.isEmpty,
    Limit.inclusive, Binary64.compare?, number]

omit [Library] in
theorem combinedRange_returns {left : Option LeftBound}
    (hb : ∀ b, left = some b → b.value.isFinite = true) (c : Comparator) {x : Binary64}
    (h : x.isFinite = true) : Returns (combinedRange left c x) fun r =>
      r.IsFinite ∧ (r.lower.isSome ∨ r.upper.isSome) ∧ r.isEmpty = false := by
  unfold combinedRange
  cases left with
  | none => exact .pure ⟨rangeOf_isFinite c h, rangeOf_written c h⟩
  | some b =>
    refine .ite (fun _ => .fail _) fun upper => ?_
    cases met : (rangeOf b.comparator.invert b.value).intersect? (rangeOf c x) with
    | none => exact .fail _
    | some r =>
      refine .pure ⟨Range.IsFinite.intersect (rangeOf_isFinite _ (hb b rfl))
        (rangeOf_isFinite c h) met, ?_⟩
      rw [Range.intersect?] at met
      split_ifs at met with empty
      cases met
      refine ⟨.inr ?_, Bool.not_eq_true _ ▸ empty⟩
      cases c <;> first | exact absurd rfl upper | skip
      all_goals
        cases (rangeOf b.comparator.invert b.value).upper <;> rfl

theorem boundBy_returns {g : Group} (hg : g.Holds Writable) (hr : root.Writable) (c : Comparator)
    (t : Token) : Returns (boundBy g root c t) Writable := by
  unfold boundBy
  cases hx : limit? t with
  | none => exact .fail _
  | some x =>
    refine (combinedRange_returns hg.leftBound c (limit_isFinite hx)).bind fun r hr' => ?_
    refine (requireAll_returns _ _ _).bind fun _ sizable => ?_
    have bare : (Node.of (.bound r.canonical)).erase = .of (.bound r.canonical) := by
      rw [Node.erase_of, Constraint.erased, Range.canonical_canonical]
      rfl
    refine ((result_constraint bare).returns (x := build (Traced.bound r))).bind fun b hb => ?_
    refine writable_refine hr (hr.hasKind sizable) ?_
    rw [← Option.some.inj hb]
    exact Range.bound_written hr'.1 hr'.2.1 hr'.2.2

theorem compare_returns (he : e.Holds Writable) (hr : root.Writable) (c : Comparator) :
    Returns (compare e root c) (Holds Writable) := by
  unfold compare
  split
  · rename_i x _
    refine .ite (fun _ => .fail _) fun _ => .ite (fun _ => .pure ?_) fun _ => .fail _
    refine ⟨trivial, ⟨fun b hb => ?_, he.group.intersection, he.group.branches⟩, he.outer⟩
    cases hb
    have regular := x.isRegular
    rw [Bool.and_eq_true] at regular
    exact regular.1
  · exact .pure ⟨hr, he.group, he.outer⟩

theorem conclude_returns (he : e.Holds Writable) (hr : root.Writable) :
    Returns (conclude e root) (Holds Writable) :=
  (finishGroup_returns he.group hr).bind fun _ hn => .pure ⟨hn, empty_holds, he.outer⟩

theorem close_returns (he : e.Holds Writable) (hr : root.Writable) :
    Returns (close e root) (Holds Writable) := by
  unfold close
  cases ho : e.outer with
  | nil => exact .fail _
  | cons parent outer =>
    have around := he.outer
    rw [ho, List.forall_mem_cons] at around
    exact (finishGroup_returns he.group hr).bind fun n hn => .pure ⟨hn, around.1, around.2⟩

theorem operator_returns (allowOptional : Bool) (he : e.Holds Writable) (hr : root.Writable)
    {t : Token} (formed : Scan.Formed t) :
    Returns (operator allowOptional e root t) (Holds Writable) := by
  cases t with
  | list => exact (writable_arrayOf hr).bind fun n hn => .pure (he.operator hn)
  | optional => exact .ite (fun _ => .pure ⟨hr, he.group, he.outer⟩) fun _ => .fail _
  | brand name =>
    have brand := (result_constraint (c := .brand name) rfl).writable (.leaf trivial formed rfl)
      (Node.grounded_leaf rfl rfl)
    exact brand.bind fun b hb => (writable_intersect hr hb).bind fun n hn => .pure (he.operator hn)
  | percent => exact .pure ⟨hr, he.group, he.outer⟩
  | comparator c => exact compare_returns he hr c
  | ampersand =>
    refine (conjoin_returns he.group hr).bind fun n hn => .pure ?_
    refine ⟨trivial, ⟨he.group.leftBound, fun m hm => ?_, he.group.branches⟩, he.outer⟩
    cases hm
    exact hn
  | bar =>
    refine (conjoin_returns he.group hr).bind fun n hn => .pure ?_
    refine ⟨trivial, ⟨he.group.leftBound, nofun, fun m hm => ?_⟩, he.outer⟩
    rcases List.mem_append.mp hm with hm | hm
    · exact he.group.branches m hm
    · exact List.mem_singleton.mp hm ▸ hn
  | groupClose => exact close_returns he hr
  | finish => exact .ite (fun _ => conclude_returns he hr) fun _ => .fail _
  | _ => exact .fail _

theorem step_returns (bare : lookup.Bare) (allowOptional : Bool) (he : e.Holds Writable) {t : Token}
    (formed : Scan.Formed t) : Returns (step lookup allowOptional e t) (Holds Writable) := by
  have awaits := he.awaiting
  unfold step
  cases ha : e.awaiting with
  | operand => exact operand_returns bare he formed
  | operator root => exact operator_returns allowOptional he (ha ▸ awaits :) formed
  | divisor root =>
    rw [ha] at awaits
    exact (divide_returns awaits t).bind fun n hn => .pure (he.operator hn)
  | limit root c =>
    rw [ha] at awaits
    exact (boundBy_returns he.group awaits c t).bind fun n hn =>
      .pure ⟨hn, ⟨nofun, he.group.intersection, he.group.branches⟩, he.outer⟩
  | finish root =>
    rw [ha] at awaits
    exact .ite (fun _ => conclude_returns he awaits) fun _ => .fail _
  | nothing result => exact .pure he

theorem steps_returns (bare : lookup.Bare) (allowOptional : Bool) (he : e.Holds Writable)
    {ts : List (Except Fault Token)} (formed : ∀ t, .ok t ∈ ts → Scan.Formed t) :
    Returns (steps lookup allowOptional e ts) (Holds Writable) := by
  induction ts generalizing e with
  | nil => exact .pure he
  | cons t ts ih =>
    cases t with
    | ok t =>
      refine (step_returns bare allowOptional he (formed t List.mem_cons_self)).bind fun e he => ?_
      exact ih he fun t ht => formed t (List.mem_cons_of_mem _ ht)
    | error f => exact .fail f

end ExpressionState

theorem parseExpression_returns {lookup : Lookup} (bare : lookup.Bare) (allowOptional : Bool)
    (text : String) :
    Parsing.Returns (parseExpression lookup allowOptional text) fun p => p.node.Writable := by
  refine (ExpressionState.steps_returns bare allowOptional ExpressionState.start_holds
    fun t ht => Scan.formed_of_mem ht).bind fun e he => ?_
  have awaits := he.awaiting
  cases ha : e.awaiting with
  | nothing node =>
    rw [ha] at awaits
    exact .pure awaits
  | _ => exact .fail _

end SchemaAlgebra

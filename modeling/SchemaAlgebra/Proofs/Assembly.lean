import SchemaAlgebra.Proofs.Closure

/-!
# Putting written nodes together

Conjuncts that stay side by side make up one written node in whatever order they are met,
and nothing is lost by meeting the node of all values.
-/
namespace SchemaAlgebra
namespace Sorting

theorem sort_eq_self {α : Type u} {before : α → α → Bool} {as : List α}
    (sorted : as.Pairwise fun a b => before b a = false) : sort before as = as := by
  induction as with
  | nil => rfl
  | cons a as ih =>
    obtain ⟨first, rest⟩ := List.pairwise_cons.mp sorted
    change place before a (sort before as) = _
    rw [ih rest]
    cases as with
    | nil => rfl
    | cons b as => rw [place, first b List.mem_cons_self, if_neg Bool.false_ne_true]

end Sorting

namespace Conjunction

variable {l r : List Node}

variable [Library]

theorem addAll_beside (meet : Meet) (apart : (l ++ r).Pairwise Node.Apart) :
    (addAll (Pairing.of meet (Properties.meetProps meet)) l r).outcome id = .ok (l ++ r) := by
  induction r generalizing l with
  | nil => simp [addAll]
  | cons n r ih =>
    have beside : ∀ c ∈ l, Node.Apart c n := fun c hc =>
      (List.pairwise_append.mp apart).2.2 c hc n List.mem_cons_self
    rw [outcome_addAll_cons, add_irreducible fun c hc => Pairing.of_apart meet (beside c hc)]
    change (addAll _ (l ++ [n]) r).outcome id = _
    rw [ih (by simpa using apart), List.append_assoc]
    rfl

theorem node_perm (perm : l.Perm r) (written : ∀ c ∈ l, c.Written)
    (apart : l.Pairwise Node.Apart) : node l = node r := by
  refine intersection_perm perm (ordered_of_pairwise (fun c hc n divisor => ?_) apart)
  have settled := (written c hc).reduced.settled
  rwa [divisor] at settled

theorem node_conjuncts {n : Node} (h : n.Written) (plain : n.isPlain = true) :
    node n.conjuncts = n := by
  obtain ⟨c⟩ := n
  cases c with
  | intersection children =>
    rw [Node.conjuncts, node]
    dsimp only [Node.constraint]
    rw [intersection_apart h.reduced.settled.2 h.form.1, Sorting.sort_eq_self h.form.2]
    rfl
  | union branches => cases plain
  | morph input steps => cases plain
  | _ => rfl

end Conjunction

section

variable [Library]

variable {a b : Node} (ha : a.Written) (hb : b.Written) (plain : a.isPlain = true)
  (plain' : b.isPlain = true)
include ha hb plain plain'

theorem meet_plain (different : a ≠ b) : (meet a b).outcome id =
    ((Conjunction.addAll (Pairing.of meetFreely (Properties.meetProps meetFreely)) a.conjuncts
      b.conjuncts).outcome id).map Conjunction.node := by
  have same : a.same b = false :=
    Bool.eq_false_iff.mpr fun same => different ((Node.Written.same_iff ha hb).mp same)
  have never : (a.isNever || b.isNever) = false := by
    rw [Node.isNever_of_plain plain, Node.isNever_of_plain plain', Bool.or_self]
  obtain ⟨single, plain⟩ := Node.isPlain_iff.mp plain
  obtain ⟨single', plain'⟩ := Node.isPlain_iff.mp plain'
  rw [← meetFreely_eq_meet ha.reduced hb.reduced, meetFreely_eq_step ha.reduced hb.reduced,
    meetStep_plain same never single single' plain plain', conjoin, Attempt.outcome_bind]
  simp only [Attempt.outcome_monadLift]
  cases (Conjunction.addAll _ a.conjuncts b.conjuncts).outcome id <;> rfl

theorem meet_apart (apart : (a.conjuncts ++ b.conjuncts).Pairwise Node.Apart) :
    (meet a b).outcome id = .ok (Conjunction.node (a.conjuncts ++ b.conjuncts)) := by
  by_cases same : a = b
  · subst same
    have none : a.conjuncts = [] := by
      refine List.eq_nil_iff_forall_not_mem.mpr fun c hc => ?_
      have different := ((List.pairwise_append.mp apart).2.2 c hc c hc).1
      rw [Node.same_refl] at different
      cases different
    rw [← meetFreely_eq_meet ha.reduced ha.reduced, meetFreely_eq_step ha.reduced ha.reduced,
      meetStep_same (Node.same_refl a), none, List.append_nil, ← none,
        Conjunction.node_conjuncts ha plain]
    rfl
  · rw [meet_plain ha hb plain plain' same, Conjunction.addAll_beside meetFreely apart]
    rfl

end

section

variable [Library]

variable {n : Node} (h : n.Written) (plain : n.isPlain = true)
include h plain

theorem meet_unknown : (meet n .unknown).outcome id = .ok n := by
  have apart : (n.conjuncts ++ Node.unknown.conjuncts).Pairwise Node.Apart := by
    simpa [Node.unknown, Node.conjuncts, Node.constraint] using h.reduced.conjuncts_pairwise
  rw [meet_apart h Node.written_unknown plain rfl apart]
  refine congrArg Except.ok ?_
  simpa [Node.unknown, Node.conjuncts, Node.constraint] using Conjunction.node_conjuncts h plain

theorem unknown_meet : (meet .unknown n).outcome id = .ok n := by
  rw [meet_apart Node.written_unknown h rfl plain h.reduced.conjuncts_pairwise]
  exact congrArg Except.ok (Conjunction.node_conjuncts h plain)

end

namespace Union

theorem value_isSubtype (meet : Meet) (a b : Node) (rep : Node → Node) :
    (isSubtype meet a b).value rep = match (meet a b).outcome rep with
    | .ok n => n.same a
    | .error _ => false := by
  rw [isSubtype, Traced.value_bind, Attempt.value_run]
  cases (meet a b).outcome rep <;> rfl

theorem value_overlaps (meet : Meet) (a b : Node) (rep : Node → Node) :
    (overlaps meet a b).value rep = match (meet a.input b.input).outcome rep with
    | .ok both => !both.hasAlias
    | .error _ => false := by
  rw [overlaps, Traced.value_bind, Attempt.value_run]
  cases (meet a.input b.input).outcome rep <;> rfl

theorem isSome_firstOverlap (meet : Meet) (rep : Node → Node) (ps : List (Node × Node)) :
    ((firstOverlap? meet ps).value rep).isSome =
      ps.any fun p => (p.1.isMorph || p.2.isMorph) && (overlaps meet p.1 p.2).value rep := by
  induction ps with
  | nil => rfl
  | cons p r ih =>
    obtain ⟨a, b⟩ := p
    rw [List.any_cons, ← ih, firstOverlap?]
    split_ifs with morph
    · rw [morph, Bool.true_and, Traced.value_bind]
      cases (overlaps meet a b).value rep <;> rfl
    · rw [Bool.not_eq_true] at morph
      rw [morph]
      rfl

theorem value_determinate (meet : Meet) (nodes : List Node) (rep : Node → Node) {n : Node} :
    (determinate meet nodes).value rep = .ok n ↔ (of meet nodes).value rep = n ∧
      (pairs n.branches).any (fun p => (p.1.isMorph || p.2.isMorph) &&
        (overlaps meet p.1 p.2).value rep) = false := by
  rw [determinate, Traced.value_bind, Traced.value_bind, ← isSome_firstOverlap]
  generalize (of meet nodes).value rep = u
  constructor
  · intro h
    cases overlap : (firstOverlap? meet (pairs u.branches)).value rep with
    | some o =>
      rw [overlap] at h
      cases h
    | none =>
      rw [overlap] at h
      cases h
      exact ⟨rfl, by rw [overlap]; rfl⟩
  · rintro ⟨rfl, none⟩
    rw [Option.isSome_eq_false_iff, Option.isNone_iff_eq_none] at none
    rw [none]
    rfl

theorem pairwise_of_pairs {α : Type u} {R : α → α → Prop} {as : List α}
    (h : ∀ p ∈ pairs as, R p.1 p.2) : as.Pairwise R := by
  induction as with
  | nil => exact List.Pairwise.nil
  | cons a r ih =>
    refine List.pairwise_cons.mpr
      ⟨fun b hb => h (a, b) ?_, ih fun p hp => h p (List.mem_append_right _ hp)⟩
    exact List.mem_append_left _ (List.mem_map_of_mem hb)

theorem pairs_map {α : Type u} {β : Type v} (f : α → β) (as : List α) :
    pairs (as.map f) = (pairs as).map (Prod.map f f) := by
  induction as with
  | nil => rfl
  | cons a r ih => simp [pairs, ih, Function.comp_def]

theorem toOption_eq_some {ε α : Type} {o : Except ε α} {a : α} : o.toOption = some a ↔
    o = .ok a := by
  cases o <;> simp [Except.toOption]

theorem determinate_erase [Library] {rep : Node → Node}
    (faithful : ∀ n : Node, n.same (rep n) = true) (nodes : List Node) :
    ((determinateUnion nodes).value rep).toOption.map Node.erase =
      ((determinateUnion (nodes.map Node.erase)).value id).toOption := by
  have inputs (a : Node) : a.erase.input = a.input.erase := by
    obtain ⟨c⟩ := a
    rw [Node.erase_of]
    cases c <;> first | rfl | exact (Node.erase_of _).symm
  have overlap (a b : Node) :
      (overlaps meet a.erase b.erase).value id = (overlaps meet a b).value rep := by
    rw [value_overlaps, value_overlaps, inputs, inputs, ← meet_erase faithful]
    cases (meet a.input b.input).outcome rep with
    | ok both => exact congrArg (! ·) (Node.hasAlias_congr both.erase_same)
    | error d => rfl
  have united := (of_erase faithful (meet_erase faithful) nodes).symm
  have apart (n : Node) : (pairs n.erase.branches).any (fun p =>
        (p.1.isMorph || p.2.isMorph) && (overlaps meet p.1 p.2).value id) =
      (pairs n.branches).any fun p => (p.1.isMorph || p.2.isMorph) &&
        (overlaps meet p.1 p.2).value rep := by
    rw [Node.branches_erase, pairs_map, List.any_map]
    simp [Function.comp_def, Node.isMorph_erase, overlap]
  ext m
  rw [Option.map_eq_some_iff, toOption_eq_some]
  refine Iff.trans ?_ (value_determinate meet (nodes.map Node.erase) id).symm
  constructor
  · rintro ⟨n, found, rfl⟩
    obtain ⟨rfl, none⟩ := (value_determinate meet nodes rep).mp (toOption_eq_some.mp found)
    exact ⟨united, (apart _).trans none⟩
  · rintro ⟨rfl, none⟩
    rw [united, apart] at none
    exact ⟨_, toOption_eq_some.mpr ((value_determinate meet nodes rep).mpr ⟨rfl, none⟩),
      united.symm⟩

end Union

theorem Node.eq_unknown {n : Node} (h : n.isUnknown = true) : n = .unknown := by
  obtain ⟨c⟩ := n
  cases c with
  | intersection children =>
    rw [List.isEmpty_iff.mp (show children.isEmpty = true from h)]
    rfl
  | _ => cases h

variable [Library]

/-- In a determinate union the node of all values does not stand beside others. -/
theorem Union.known_of_determinate {kept : List Node} (written : ∀ b ∈ kept, b.Written)
    (single : ∀ b ∈ kept, b.constraint.isUnion = false) (irredundant : Irredundant kept)
    (determinate : (pairs kept).any (fun p =>
      (p.1.isMorph || p.2.isMorph) && (overlaps SchemaAlgebra.meet p.1 p.2).value id) = false)
    (several : kept.length ≠ 1) : ∀ b ∈ kept, b.isUnknown = false := by
  have includes {x : Node} (hx : x ∈ kept) (plain : x.isMorph = false) :
      (isSubtype meetFreely x .unknown).value id = true := by
    have known := meet_unknown (written x hx) (Node.isPlain_iff.mpr ⟨single x hx, plain⟩)
    rw [← meetFreely_eq_meet (written x hx).reduced Node.written_unknown.reduced] at known
    rw [value_isSubtype, known]
    exact Node.same_refl x
  have input {x : Node} (hx : x ∈ kept) (morph : x.isMorph = true) :
      x.input.Written ∧ x.input.isPlain = true := by
    obtain ⟨y, steps, same⟩ := Node.exists_morph morph
    have hw := written x hx
    obtain ⟨c⟩ := x
    cases same
    exact ⟨hw.children y (List.mem_singleton_self y), hw.form.1⟩
  have apart : kept.Pairwise fun x y => x.isUnknown = false ∧ y.isUnknown = false := by
    have separate := pairwise_of_pairs (R := fun x y => ((x.isMorph || y.isMorph) &&
      (overlaps SchemaAlgebra.meet x y).value id) = false) fun p hp =>
        Bool.eq_false_iff.mpr (List.any_eq_false.mp determinate p hp)
    refine (irredundant.and separate).imp_of_mem
      fun {x y} hx hy ⟨⟨_, apart⟩, separate⟩ => ?_
    constructor
    · refine Bool.eq_false_iff.mpr fun all => ?_
      obtain rfl := Node.eq_unknown all
      by_cases morph : y.isMorph = true
      · obtain ⟨hw, plain⟩ := input hy morph
        rw [morph, Bool.or_true, Bool.true_and, value_overlaps,
          show Node.unknown.input = .unknown from rfl, unknown_meet hw plain] at separate
        simp [hw.hasAlias] at separate
      · rw [Bool.not_eq_true] at morph
        rw [includes hy morph] at apart
        cases (apart rfl morph).2
    · refine Bool.eq_false_iff.mpr fun all => ?_
      obtain rfl := Node.eq_unknown all
      by_cases morph : x.isMorph = true
      · obtain ⟨hw, plain⟩ := input hx morph
        rw [morph, Bool.true_or, Bool.true_and, value_overlaps,
          show Node.unknown.input = .unknown from rfl, meet_unknown hw plain] at separate
        simp [hw.hasAlias] at separate
      · rw [Bool.not_eq_true] at morph
        rw [includes hx morph] at apart
        cases (apart morph rfl).1
  match kept, several, apart with
  | [], _, _ => exact fun _ h => absurd h List.not_mem_nil
  | [_], several, _ => exact absurd rfl several
  | a :: b :: r, _, apart =>
    have first := (List.pairwise_cons.mp apart).1
    exact List.forall_mem_cons.mpr ⟨(first b List.mem_cons_self).1, fun c hc => (first c hc).2⟩

theorem determinateUnion_written {nodes : List Node} (written : ∀ n ∈ nodes, n.Written)
    {n : Node} (h : (determinateUnion nodes).value id = .ok n) :
    n.Written ∧ ∀ b ∈ n.branches, b.constraint.isUnion = false ∧
      ∃ m ∈ nodes, b ∈ m.branches := by
  obtain ⟨united, determinate⟩ := (Union.value_determinate meet nodes id).mp h
  rw [union_eq_freely fun m hm => (written m hm).reduced] at united
  obtain ⟨kept, value, irredundant, from_nodes⟩ := Union.value_of_nodes nodes
  rw [value] at united
  subst united
  have single (b : Node) (hb : b ∈ kept) : b.constraint.isUnion = false := by
    obtain ⟨m, hm, inside⟩ := from_nodes b hb
    exact (written m hm).reduced.isUnion_of_branch inside
  have branch (b : Node) (hb : b ∈ kept) : b.Written := by
    obtain ⟨m, hm, inside⟩ := from_nodes b hb
    exact (written m hm).branches b inside
  rw [Union.branches_joined single] at determinate ⊢
  exact ⟨Union.joined_written branch single irredundant
    (Union.known_of_determinate branch single irredundant determinate),
      fun b hb => ⟨single b hb, from_nodes b hb⟩⟩

omit [Library] in
theorem Union.joined_branches {n : Node}
    (several : ∀ branches, n.constraint = .union branches → branches.length ≠ 1) :
    joined n.branches = n := by
  obtain ⟨c⟩ := n
  cases c with
  | union branches =>
    match branches, several branches rfl with
    | [], _ => rfl
    | [_], several => exact absurd rfl several
    | _ :: _ :: _, _ => rfl
  | _ => rfl

/-- A node with irredundant branches is the union of whatever has its branches. -/
theorem Union.value_of_irredundant {n : Node}
    (single : ∀ b ∈ n.branches, b.constraint.isUnion = false)
    (several : ∀ branches, n.constraint = .union branches → branches.length ≠ 1)
    (irredundant : Irredundant n.branches) {nodes : List Node}
    (reduced : ∀ m ∈ nodes, m.Reduced) (same : nodes.flatMap Node.branches = n.branches) :
    (of SchemaAlgebra.meet nodes).value id = n := by
  have flat : flatten nodes = n.branches := by
    have itself : n.branches.flatMap Node.branches = n.branches := by
      conv_rhs => rw [← List.flatMap_singleton' n.branches]
      exact List.flatMap_congr fun b hb => Node.branches_of_single (single b hb)
    have flat := flatten_eq_self single (irredundant.imp And.left)
    rw [flatten, itself, ← same] at flat
    exact flat.trans same
  rw [union_eq_freely reduced, value_of, flat, reduce_irredundant irredundant,
    joined_branches several]

/-- A written node without morphs is the union of whatever has its branches. -/
theorem determinateUnion_same {n : Node} (h : n.Written)
    (plain : ∀ b ∈ n.branches, b.isMorph = false) {nodes : List Node}
    (reduced : ∀ m ∈ nodes, m.Reduced) (same : nodes.flatMap Node.branches = n.branches) :
    (determinateUnion nodes).value id = .ok n := by
  have form : (∀ branches, n.constraint = .union branches → branches.length ≠ 1) ∧
      Union.Irredundant n.branches := by
    have written := h.form
    obtain ⟨c⟩ := n
    cases c with
    | union branches =>
      refine ⟨fun bs same => ?_, written.2.1⟩
      cases same
      exact written.1
    | _ => exact ⟨nofun, List.pairwise_singleton _ _⟩
  refine (Union.value_determinate meet nodes id).mpr ⟨?_, List.any_eq_false.mpr fun p hp => ?_⟩
  · exact Union.value_of_irredundant (fun b hb => h.reduced.isUnion_of_branch hb) form.1 form.2
      reduced same
  · obtain ⟨first, second⟩ := Union.mem_pairs hp
    rw [plain _ first, plain _ second]
    exact Bool.false_ne_true

end SchemaAlgebra

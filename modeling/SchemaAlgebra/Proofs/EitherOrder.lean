import SchemaAlgebra.Proofs.Joining
import SchemaAlgebra.Proofs.Sessions
import SchemaAlgebra.Standard

/-!
# Intersections in either order

Every step of intersecting comes to the same in either order, and so does the whole, since
both orders have the same budget. What a scope returns is intersected with the same result
in either order, up to what nodes are told apart by.
-/
namespace SchemaAlgebra

section

variable [Library]

variable {K : Node → Prop} (keyed : Keyed K) {meet : Meet} (commutes : meet.Commutes K)
include keyed

omit [Library] in
theorem operands_comm {l r : Node} (hl : K l) (hr : K r) (different : l ≠ r) :
    operands l r = operands r l := by
  have keys : l.key ≠ r.key := fun same => different (keyed.key l r hl hr same)
  unfold operands
  rcases lt_or_gt_of_ne keys with less | more
  · rw [if_neg (not_lt_of_gt less), if_pos less]
  · rw [if_pos more, if_neg (not_lt_of_gt more)]

omit [Library] in
omit keyed in
theorem told_morph {a b : Node} (steps : List Step) (h : Disjoint.told ((meet a b).outcome id) =
    Disjoint.told ((meet b a).outcome id)) :
    Disjoint.told ((do Traced.morph (← meet a b) steps : Attempt Node).outcome id) =
      Disjoint.told ((do Traced.morph (← meet b a) steps : Attempt Node).outcome id) := by
  rw [Attempt.outcome_bind, Attempt.outcome_bind]
  exact Disjoint.told_bind h fun _ => rfl

include commutes

theorem meetStep_commutes : Meet.Commutes K (meetStep meet) := by
  intro l r hl hr
  by_cases same : l.same r = true
  · rw [(keyed.same hl hr).mp same]
  rw [Bool.not_eq_true] at same
  have same' : r.same l = false := (Node.same_comm r l).trans same
  have different : l ≠ r := fun h => by
    rw [h, Node.same_refl] at same
    cases same
  by_cases never : (l.isNever || r.isNever) = true
  · rw [meetStep_never same never, meetStep_never same' (Bool.or_comm _ _ ▸ never)]
  rw [Bool.not_eq_true] at never
  have never' : (r.isNever || l.isNever) = false := (Bool.or_comm _ _).trans never
  by_cases union : l.constraint.isUnion = true ∨ r.constraint.isUnion = true
  · rw [meetStep_union same never union, meetStep_union same' never' union.symm, distribute_eq,
      distribute_eq, operands_comm keyed hl hr different]
  simp only [not_or, Bool.not_eq_true] at union
  obtain ⟨single, single'⟩ := union
  cases plain : l.isMorph <;> cases plain' : r.isMorph
  · rw [meetStep_plain same never single single' plain plain',
      meetStep_plain same' never' single' single plain' plain]
    exact told_conjoin_comm keyed commutes hl hr single single' plain plain'
  · obtain ⟨b, steps, hb⟩ := Node.exists_morph plain'
    obtain ⟨c⟩ := r
    obtain rfl : c = .morph b steps := hb
    rw [meetStep_morph_right same never rfl single plain,
      meetStep_morph_left same' never' rfl single plain]
    exact told_morph steps (commutes l b hl (keyed.children _ hr b List.mem_cons_self))
  · obtain ⟨a, steps, ha⟩ := Node.exists_morph plain
    obtain ⟨c⟩ := l
    obtain rfl : c = .morph a steps := ha
    rw [meetStep_morph_left same never rfl single' plain',
      meetStep_morph_right same' never' rfl single' plain']
    exact told_morph steps (commutes a r (keyed.children _ hl a List.mem_cons_self) hr)
  · obtain ⟨a, steps, ha⟩ := Node.exists_morph plain
    obtain ⟨c⟩ := l
    obtain rfl : c = .morph a steps := ha
    obtain ⟨b, others, hb⟩ := Node.exists_morph plain'
    obtain ⟨e⟩ := r
    obtain rfl : e = .morph b others := hb
    rw [meetStep_morphs same never rfl rfl, meetStep_morphs same' never' rfl rfl]
    by_cases names : steps.map Step.name = others.map Step.name
    · have nominal {n : Node} {steps : List Step} (hn : K (.of (.morph n steps))) :
          steps = (steps.map Step.name).map (.registered · none) := by
        have bare := keyed.bare _ hn
        rw [Node.erase_of] at bare
        injection bare with bare
        injection bare with _ bare
        conv_lhs => rw [← bare]
        rw [List.map_map]
        rfl
      have steps_eq : steps = others := by rw [nominal hl, names, ← nominal hr]
      subst steps_eq
      rw [if_neg (not_not_intro rfl), if_neg (not_not_intro rfl)]
      exact told_morph steps
        (commutes a b (keyed.children _ hl a List.mem_cons_self)
          (keyed.children _ hr b List.mem_cons_self))
    · rw [if_pos names, if_pos (Ne.symm names)]
      rfl

omit commutes in
theorem meetUpTo_commutes (depth : Nat) : Meet.Commutes K (meetUpTo depth) := by
  induction depth with
  | zero =>
    intro l r hl hr
    refine congrArg Except.ok (Conjunction.intersection_perm (List.Perm.swap r l []) ?_)
    intro a ha b hb _ key
    have known (c : Node) (hc : c ∈ [l, r]) : K c := by
      rcases List.mem_pair.mp hc with rfl | rfl
      · exact hl
      · exact hr
    exact keyed.key a b (known a ha) (known b hb) key
  | succ depth ih => exact meetStep_commutes keyed ih

omit commutes in
/-- Intersecting nodes without what is erased comes to the same in either order. -/
theorem meet_commutes : Meet.Commutes K SchemaAlgebra.meet := by
  intro l r hl hr
  have budget : Node.budget l r = Node.budget r l := by
    unfold Node.budget
    rw [Nat.add_comm l.size]
  rw [SchemaAlgebra.meet, SchemaAlgebra.meet, budget]
  exact meetUpTo_commutes keyed _ l r hl hr

end

/-- No two signatures of a property set have the same key. -/
def Constraint.DeclaresOnce : Constraint Node → Prop
  | props p => Properties.Once p.index
  | _ => True

instance : DecidablePred Constraint.DeclaresOnce := fun c =>
  match c with
  | .props p => inferInstanceAs (Decidable (p.index.Pairwise fun s t => s.key.same t.key = false))
  | .domain _ | .literal _ | .basis _ | .bound _ | .divisor _ | .patterns _ | .brand _ | .deferred _
    _ | .morph _ _ | .union _ | .intersection _ => inferInstanceAs (Decidable True)

namespace Node

/-- The node together with its parts: itself and the parts of its children. -/
def withParts : Node → Node × List Node := fold fun c =>
  (of (c.map Prod.fst), of (c.map Prod.fst) :: c.children.flatMap Prod.snd)

def parts (n : Node) : List Node := n.withParts.2

theorem withParts_fst (n : Node) : n.withParts.1 = n := by
  induction n using inductionOn with
  | step c ih =>
    rw [withParts, fold_of, Constraint.map_map]
    exact congrArg of ((Constraint.map_congr ih).trans c.map_id)

theorem parts_of (c : Constraint Node) : (of c).parts = of c :: c.children.flatMap parts := by
  have whole := (of c).withParts_fst
  rw [withParts, fold_of] at whole
  rw [parts, withParts, fold_of]
  dsimp only at whole ⊢
  rw [whole, Constraint.children_map, List.flatMap_map]
  rfl

theorem mem_parts (n : Node) : n ∈ n.parts := by
  obtain ⟨c⟩ := n
  rw [parts_of]
  exact List.mem_cons_self

theorem parts_child {n m : Node} {c : Constraint Node} (h : of c ∈ n.parts)
    (hm : m ∈ c.children) : m ∈ n.parts := by
  induction n using inductionOn with
  | step e ih =>
    rw [parts_of] at h ⊢
    rcases List.mem_cons.mp h with same | h
    · cases same
      exact List.mem_cons_of_mem _ (List.mem_flatMap.mpr ⟨m, hm, m.mem_parts⟩)
    · obtain ⟨k, hk, h⟩ := List.mem_flatMap.mp h
      exact List.mem_cons_of_mem _ (List.mem_flatMap.mpr ⟨k, hk, ih k hk h⟩)

theorem Reduced.parts {n : Node} (h : n.Reduced) : ∀ m ∈ n.parts, m.Reduced := by
  induction n using inductionOn with
  | step c ih =>
    rw [parts_of]
    refine List.forall_mem_cons.mpr ⟨h, fun m hm => ?_⟩
    obtain ⟨k, hk, hm⟩ := List.mem_flatMap.mp hm
    exact ih k hk (h.children k hk) m hm

theorem Reduced.erase {n : Node} (h : n.Reduced) : n.erase.Reduced := by
  induction n using inductionOn with
  | step c ih =>
    have settled := h.settled
    rw [erase_of]
    refine .of _ ?_ ?_
    · cases c with
      | bound r => exact settled.canonical
      | union branches =>
        intro b hb
        obtain ⟨m, hm, rfl⟩ := List.mem_map.mp hb
        rw [← Constraint.isUnion_head, constraint_head_erase, Constraint.isUnion_head]
        exact settled m hm
      | intersection children =>
        refine ⟨fun b hb => ?_, List.pairwise_map.mpr (settled.2.imp fun apart => ?_)⟩
        · obtain ⟨m, hm, rfl⟩ := List.mem_map.mp hb
          rw [← Constraint.isComposite_head, constraint_head_erase, Constraint.isComposite_head]
          exact settled.1 m hm
        · exact apart.congr (same_symm (erase_same _)) (same_symm (erase_same _))
      | _ => exact settled
    · rw [Constraint.children_map, Constraint.children_erased]
      intro m hm
      obtain ⟨k, hk, rfl⟩ := List.mem_map.mp hm
      exact ih k hk (h.children k hk)

end Node

/-- What is left of reduced nodes whose keys their digests tell apart. -/
theorem keyed_parts {l r : Node} (hl : l.Reduced) (hr : r.Reduced)
    (once : ∀ m ∈ l.parts ++ r.parts, m.constraint.DeclaresOnce)
    (distinguished : ∀ a ∈ l.parts ++ r.parts, ∀ b ∈ l.parts ++ r.parts,
      a.digest = b.digest → a.key = b.key) :
    Keyed fun n => ∃ m ∈ l.parts ++ r.parts, n = m.erase := by
  have reduced (m : Node) (hm : m ∈ l.parts ++ r.parts) : m.Reduced :=
    (List.mem_append.mp hm).elim (hl.parts m) (hr.parts m)
  have child (c : Constraint Node) (hc : .of c ∈ l.parts ++ r.parts) (m : Node)
      (hm : m ∈ c.children) : m ∈ l.parts ++ r.parts :=
    List.mem_append.mpr ((List.mem_append.mp hc).imp (Node.parts_child · hm)
      (Node.parts_child · hm))
  constructor
  · rintro c ⟨⟨e⟩, he, same⟩ m hm
    rw [Node.erase_of] at same
    injection same with same
    rw [same, Constraint.children_map, Constraint.children_erased] at hm
    obtain ⟨k, hk, rfl⟩ := List.mem_map.mp hm
    exact ⟨k, child e he k hk, rfl⟩
  · rintro n ⟨m, hm, rfl⟩
    exact (reduced m hm).erase
  · rintro n ⟨m, -, rfl⟩
    exact m.erase_erase
  · rintro p ⟨⟨e⟩, he, same⟩
    rw [Node.erase_of] at same
    injection same with same
    cases e <;> cases same
    refine List.pairwise_map.mpr ((once _ he).imp fun different => ?_)
    rwa [Node.same_erase]
  · rintro a b ⟨m, hm, rfl⟩ ⟨k, hk, rfl⟩ key
    rw [Node.key_erase, Node.key_erase] at key
    exact Node.same_iff.mp (Node.same_of_key (fun r hr => (reduced _ hr).settled) child
      (fun a b ha hb => distinguished a ha b hb) hm hk key)

namespace Session

/-- Two nodes that a scope returned are intersected with the same result in either order, whatever
was called in between: the same node, or none. No object in them declares two signatures with the
same key, and their digests tell keys apart. -/
theorem intersect_either_order [Library] (home : Nat) (d : Declarations) (requests : List Request)
    {l r : Node} (hl : l ∈ (run home d requests).nodes) (hr : r ∈ (run home d requests).nodes)
    (once : ∀ m ∈ l.parts ++ r.parts, m.constraint.DeclaresOnce)
    (distinguished : ∀ a ∈ l.parts ++ r.parts, ∀ b ∈ l.parts ++ r.parts,
      a.digest = b.digest → a.key = b.key) (s t : Scope) :
    (∃ a b, (s.intersect l r).1 = .ok a ∧ (t.intersect r l).1 = .ok b ∧ a.same b = true) ∨
      ∃ x y, (s.intersect l r).1 = .error x ∧ (t.intersect r l).1 = .error y := by
  have any : Hereditary fun _ => True := ⟨fun _ _ _ _ => trivial, fun _ _ _ => trivial⟩
  have sound := (run_sound (any.buildable fun _ => trivial) d requests : Sound home d _ _).nodes
  have keyed := keyed_parts (sound l hl).1 (sound r hr).1 once distinguished
  have left : ∃ m ∈ l.parts ++ r.parts, l.erase = m.erase :=
    ⟨l, List.mem_append_left _ l.mem_parts, rfl⟩
  have right : ∃ m ∈ l.parts ++ r.parts, r.erase = m.erase :=
    ⟨r, List.mem_append_right _ r.mem_parts, rfl⟩
  have either := meet_commutes keyed l.erase r.erase left right
  have met (u : Scope) (a b : Node) :
      Disjoint.eraseOr Node.erase (u.intersect a b).1 = (meet a.erase b.erase).outcome id :=
    u.intersect_erase a b
  rw [← met s, ← met t] at either
  generalize (s.intersect l r).1 = x at either ⊢
  generalize (t.intersect r l).1 = y at either ⊢
  cases x <;> cases y
  · exact .inr ⟨_, _, rfl, rfl⟩
  · cases either
  · cases either
  · exact .inl ⟨_, _, rfl, rfl, Node.same_iff.mpr (Except.ok.inj either)⟩

end Session

namespace Session

attribute [local instance] Library.standard

/-- Two divisors that have no common multiple within the limits. -/
def multiples : List Request :=
  [.parse "number%9223372036854775807", .parse "number%9223372036854775806"]

theorem intersect_either_order_multiples :
    ∃ l r, (run 0 .empty multiples).nodes = [l, r] ∧
      ∃ a b, ((run 0 .empty multiples).scope.intersect l r).1 = .ok a ∧
      (((run 0 .empty multiples).scope.intersect l r).2.intersect r l).1 = .ok b ∧
        a.same b = true := by
  have two : (run 0 .empty multiples).nodes.length = 2 := by decide +kernel
  have sides : ∀ p ∈ (run 0 .empty multiples).nodes.zip (run 0 .empty multiples).nodes.tail,
      (∀ m ∈ p.1.parts ++ p.2.parts, m.constraint.DeclaresOnce) ∧
        (∀ a ∈ p.1.parts ++ p.2.parts, ∀ b ∈ p.1.parts ++ p.2.parts, a.key = b.key ∨
          a.digest ≠ b.digest) ∧
          ((run 0 .empty multiples).scope.intersect p.1 p.2).1.isOk = true := by decide +kernel
  obtain ⟨l, r, nodes⟩ := List.length_eq_two.mp two
  rw [nodes] at sides
  obtain ⟨once, apart, ok⟩ := sides (l, r) List.mem_cons_self
  refine ⟨l, r, nodes, ?_⟩
  have hl : l ∈ (run 0 .empty multiples).nodes := nodes ▸ List.mem_cons_self
  have hr : r ∈ (run 0 .empty multiples).nodes :=
    nodes ▸ List.mem_cons_of_mem l List.mem_cons_self
  rcases intersect_either_order 0 .empty multiples hl hr once
    (fun a ha b hb same => (apart a ha b hb).resolve_right (not_not_intro same))
      (run 0 .empty multiples).scope
    ((run 0 .empty multiples).scope.intersect l r).2 with both | ⟨x, y, failed, -⟩
  · exact both
  · rw [failed] at ok
    cases ok

end Session

end SchemaAlgebra

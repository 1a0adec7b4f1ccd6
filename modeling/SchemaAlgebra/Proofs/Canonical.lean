import SchemaAlgebra.Proofs.Budget
import SchemaAlgebra.Proofs.Deferrals
import SchemaAlgebra.Proofs.EitherOrder
import SchemaAlgebra.Standard

/-!
# Canonical nodes

Whatever is called on a scope, every node that a returned node leads to is canonical. The
branches of a union are several different nodes none of which another one includes, and the
conjuncts of an intersection are several constraints in strict order none of which reduces
with another.
-/
namespace SchemaAlgebra

section

namespace Node

variable [Library]

/-- A node all of whose constraints are normal. -/
inductive Normal : Node → Prop
  | of (c : Constraint Node) (normal : c.IsNormal) (children : ∀ m ∈ c.children, Normal m) :
    Normal (.of c)

namespace Normal

theorem isNormal {n : Node} (h : n.Normal) : n.constraint.IsNormal := by
  cases h with
  | of c normal => exact normal

theorem children {c : Constraint Node} (h : Normal (.of c)) : ∀ m ∈ c.children, m.Normal := by
  cases h with
  | of c _ children => exact children

theorem inherited : Inherited fun n => n.Reduced ∧ n.Normal where
  reduced _ h := h.1
  children _ h m hm := ⟨h.1.children m hm, h.2.children m hm⟩
  built c _ settled normal hc :=
  ⟨.of c settled fun m hm => (hc m hm).1, .of c normal fun m hm => (hc m hm).2⟩

theorem buildable (home : Nat) : Buildable home fun n => n.Reduced ∧ n.Normal :=
  inherited.buildable fun _ => ⟨.leaf trivial rfl, .of _ trivial (List.forall_mem_nil _)⟩

end Normal

end Node

/-- What is asked of all nodes that a scope knows holds for every node that is reached from one. -/
theorem Scope.Sound.reaches {P : Node → Prop}
    (children : ∀ c : Constraint Node, P (.of c) → ∀ m ∈ c.children, P m) {s : Scope}
    (sound : s.Sound (.plain P)) {n m : Node} (hn : P n) (reached : s.Reaches n m) : P m := by
  induction reached with
  | here => exact hn
  | child _ hm ih => exact children _ ih _ hm
  | target _ found _ => exact (sound.resolved found).1

/-- The nodes are not the same, and their digests differ if they tell apart the keys of what the
nodes are made of. -/
def Node.Differ (a b : Node) : Prop :=
  a.same b = false ∧ (Node.Distinguished (· ∈ a.parts ++ b.parts) → a.digest ≠ b.digest)

theorem Node.Reduced.differ {a b : Node} (ha : a.Reduced) (hb : b.Reduced)
    (different : a.same b = false) : a.Differ b := by
  refine ⟨different, fun distinguished digest => ?_⟩
  have left : a ∈ a.parts ++ b.parts := List.mem_append_left _ a.mem_parts
  have right : b ∈ a.parts ++ b.parts := List.mem_append_right _ b.mem_parts
  have reduced (m : Node) (hm : m ∈ a.parts ++ b.parts) : m.Reduced :=
    (List.mem_append.mp hm).elim (ha.parts m) (hb.parts m)
  have same := Node.same_of_key (K := (· ∈ a.parts ++ b.parts))
      (fun r hr => (reduced _ hr).settled)
    (fun c hc m hm => List.mem_append.mpr
      ((List.mem_append.mp hc).imp (parts_child · hm) (parts_child · hm)))
    distinguished left right (distinguished a b left right digest)
  rw [different] at same
  cases same

variable [Library]

/-- Within its budget the test of whether one node includes another finds out. -/
theorem Union.isSubtype_eq_false_iff {a b : Node} (ha : a.Reduced) (hb : b.Reduced)
    (plain : a.isMorph = false) (plain' : b.isMorph = false) :
    (isSubtype meet a b).value id = false ↔ a.Exceeds b := by
  have lasts (a b : Node) (ha : a.Reduced) (hb : b.Reduced) (_ : a.isMorph = false)
      (_ : b.isMorph = false) :
      Attempt.Ensures .reduced (SchemaAlgebra.meet a b) (fun _ => True) fun _ => True :=
    (meet_inherits Judging.reduced_inherited ⟨ha, trivial⟩ ⟨hb, trivial⟩).mono
      (fun _ _ => trivial) fun _ _ => trivial
  exact (isSubtype_inherits lasts (meet_decides Node.same_refl) ha hb plain plain' fun _ _ =>
    trivial).1

/-- In whatever scope two reduced nodes are intersected, it is seen whether one includes the other.
-/
theorem Scope.intersect_same_iff {a b : Node} (ha : a.Reduced) (hb : b.Reduced)
    (plain : a.isMorph = false) (plain' : b.isMorph = false) (s : Scope) :
    (∃ n, (s.intersect a b).1 = .ok n ∧ n.same a = true) ↔ ¬a.Exceeds b := by
  let rep := ScopeState.settled (meet a b).run s.state
  have met : (Union.isSubtype meet a b).value rep = (Union.isSubtype meet a b).value id :=
    (Union.isSubtype_erase (meet_erase (ScopeState.settled_same _ s.state)) a b).trans
      (Union.isSubtype_erase (meet_erase Node.same_refl) a b).symm
  rw [← Union.isSubtype_eq_false_iff ha hb plain plain', ← met, Union.isSubtype,
    Traced.value_bind, Bool.not_eq_false, Scope.intersect, s.value_build]
  cases (meet a b).run.value rep with
  | ok n => simp
  | error d => simp

/-- The branches of a union that a scope returns. -/
structure Union.IsCanonical (s : Scope) (branches : List Node) : Prop where
  several : branches.length ≠ 1
  flat : ∀ b ∈ branches, b.constraint.isUnion = false
  different : branches.Pairwise Node.Differ
  /-- Unless one of them is a morph, intersecting two branches gives neither of them. -/
  irredundant : branches.Pairwise fun a b => a.isMorph = false → b.isMorph = false →
    (∀ n, (s.intersect a b).1 = .ok n → n.Differ a) ∧ ∀ n, (s.intersect b a).1 = .ok n →
      n.Differ b

theorem Union.canonical {s : Scope} (sound : s.Sound (.plain fun n => n.Reduced ∧ n.Normal))
    {branches : List Node} (settled : Constraint.Settled (.union branches))
    (normal : Constraint.IsNormal (.union branches))
    (hb : ∀ b ∈ branches, b.Reduced ∧ b.Normal) : IsCanonical s branches where
  several := normal.1
  flat := settled
  different := normal.2.imp_of_mem fun ha hb' separate => (hb _ ha).1.differ (hb _ hb').1 separate.1
  irredundant := by
    have outside {a b : Node} (ha : a.Reduced ∧ a.Normal) (hb : b.Reduced ∧ b.Normal)
        (plain : a.isMorph = false) (plain' : b.isMorph = false) (exceeds : a.Exceeds b) (n : Node)
        (met : (s.intersect a b).1 = .ok n) : n.Differ a := by
      have reduced :=
        ((Scope.intersect_sound (Node.Normal.buildable s.home) sound ha hb).value n met).1
      refine reduced.differ ha.1 (Bool.eq_false_iff.mpr fun same => ?_)
      exact (Scope.intersect_same_iff ha.1 hb.1 plain plain' s).mp ⟨n, met, same⟩ exceeds
    refine normal.2.imp_of_mem fun {a b} ha hb' separate plain plain' => ?_
    obtain ⟨left, right⟩ := separate.2 plain plain'
    exact ⟨outside (hb a ha) (hb b hb') plain plain' left,
      outside (hb b hb') (hb a ha) plain' plain right⟩

/-- The conjuncts of an intersection that a scope returns. -/
structure Conjunction.IsCanonical (conjuncts : List Node) : Prop where
  several : conjuncts.length ≠ 1
  sorted : conjuncts.Pairwise fun a b => a.precedes b = true
  single : ∀ c ∈ conjuncts, c.constraint.isComposite = false
  /-- At most one domain, literal or basis, one bound, one set of patterns and one set of
  properties. -/
  once : ∀ rank ∈ [0, 1, 3, 4], conjuncts.countP (·.constraint.rank == rank) ≤ 1
  /-- Beside a literal there are only brands and aliases. -/
  nominal : conjuncts.Pairwise fun a b =>
    (a.constraint.isLiteral = true → b.constraint.isNominal = true) ∧
    (b.constraint.isLiteral = true → a.constraint.isNominal = true)

omit [Library] in
theorem Constraint.isLiteral_of_nominal {c : Constraint Node} (h : c.isNominal = true) :
    c.isLiteral = false := by
  cases c <;> first | rfl | cases h

omit [Library] in
theorem Constraint.rank_of_nominal {c : Constraint Node} (h : c.isNominal = true) :
    5 ≤ c.rank := by
  cases c <;> cases h <;> simp [rank]

namespace Conjunction

omit [Library] in
theorem nominal_of_apart {a b : Node} (apart : Node.Apart a b)
    (literal : a.constraint.isLiteral = true) : b.constraint.isNominal = true := by
  obtain ⟨-, -, -, kinds⟩ := apart
  rcases kinds with nominal | nominal | ⟨m, n, divisor, -⟩ | ⟨-, plain, -⟩
  · rw [Constraint.isLiteral_of_nominal nominal] at literal
    cases literal
  · exact nominal
  · rw [divisor] at literal
    cases literal
  · rw [literal] at plain
    cases plain

omit [Library] in
/-- Only divisors and what is known by its name are kept beside constraints of their own kind. -/
theorem rank_ne_of_apart {a b : Node} (apart : Node.Apart a b) {rank : Nat}
    (within : rank ∈ [0, 1, 3, 4]) (ha : a.constraint.rank = rank) :
    b.constraint.rank ≠ rank := by
  intro hb
  have others : rank ≠ 2 ∧ rank < 5 := by
    simp only [List.mem_cons, List.not_mem_nil, or_false] at within
    omega
  obtain ⟨-, -, -, kinds⟩ := apart
  rcases kinds with nominal | nominal | ⟨m, n, divisor, -⟩ | ⟨ranks, -⟩
  · exact absurd (Constraint.rank_of_nominal nominal) (by omega)
  · exact absurd (Constraint.rank_of_nominal nominal) (by omega)
  · rw [divisor] at ha
    exact others.1 ha.symm
  · exact ranks (ha.trans hb.symm)

theorem canonical {conjuncts : List Node} (settled : Constraint.Settled (.intersection conjuncts))
    (normal : Constraint.IsNormal (.intersection conjuncts))
    (reduced : ∀ c ∈ conjuncts, c.Reduced) : IsCanonical conjuncts where
  several := normal.1
  sorted := by
    have divisor (c : Node) (hc : c ∈ conjuncts) (n : Nat) (h : c.constraint = .divisor n) :
        0 < n ∧ n < 2 ^ 64 := by
      have settled := (reduced c hc).settled
      rwa [h] at settled
    refine (normal.2.and settled.2).imp_of_mem fun {a b} ha hb ⟨inOrder, apart⟩ => ?_
    rw [Node.precedes_eq, decide_eq_false_iff_not, not_lt] at inOrder
    rw [Node.precedes_eq, decide_eq_true_eq]
    refine lt_of_le_of_ne inOrder fun same => ?_
    obtain ⟨rank, key⟩ := Prod.mk.inj (toLex_inj.mp same)
    exact Pairing.key_ne_of_apart (divisor a ha) (divisor b hb) apart rank key
  single := settled.1
  once rank within := by
    have apart := settled.2
    clear settled normal reduced
    induction conjuncts with
    | nil => exact Nat.zero_le 1
    | cons c r ih =>
      obtain ⟨first, rest⟩ := List.pairwise_cons.mp apart
      rw [List.countP_cons]
      split_ifs with found
      · have none : r.countP (·.constraint.rank == rank) = 0 := by
          refine List.countP_eq_zero.mpr fun m hm => ?_
          simpa using rank_ne_of_apart (first m hm) within (beq_iff_eq.mp found)
        rw [none]
      · exact ih rest
  nominal := settled.2.imp fun apart => ⟨nominal_of_apart apart, nominal_of_apart apart.symm⟩

end Conjunction

/-- The outermost constraint of a node, as a scope returns it. -/
def Node.IsCanonical (s : Scope) (n : Node) : Prop :=
  match n.constraint with
  | .union branches => Union.IsCanonical s branches
  | .intersection conjuncts => Conjunction.IsCanonical conjuncts
  | _ => True

/-- Every node that a returned node leads to, through children and the targets of references, is
canonical. -/
theorem Session.run_canonical (home : Nat) (d : Declarations) (requests : List Request) {n m : Node}
    (returned : n ∈ (run home d requests).nodes)
    (reached : (run home d requests).scope.Reaches n m) :
    m.IsCanonical (run home d requests).scope := by
  have session := run_sound (Node.Normal.buildable home) d requests
  obtain ⟨reduced, normal⟩ :=
    session.scope.reaches Node.Normal.inherited.children (session.nodes n returned) reached
  have settled := reduced.settled
  have form := normal.isNormal
  obtain ⟨c⟩ := m
  cases c with
  | union branches =>
    exact Union.canonical session.scope settled form
      fun b hb => ⟨reduced.children b hb, normal.children b hb⟩
  | intersection conjuncts => exact Conjunction.canonical settled form reduced.children
  | _ => trivial

end

section

attribute [local instance] Library.standard

/-- Entries of some size, each below another one or none. -/
def Scope.entries : Declarations where
  aliases := [("entry", .object [("size", .string "number>=0"), ("parent", .string "entry|null")])]
  morphs := []
  config := .default

theorem Session.run_canonical_entries :
    let s := run 0 Scope.entries [.resolve "entry"]
    ∃ n ∈ s.nodes, ∃ branches, s.scope.Reaches n (.of (.union branches)) ∧
      branches.length = 2 ∧ Union.IsCanonical s.scope branches := by
  intro s
  have leads : (s.nodes.any fun n => n.constraint.children.any fun m =>
      m.constraint.children.any fun k =>
      k.constraint.isUnion && k.constraint.children.length == 2) = true := by decide +kernel
  obtain ⟨n, hn, hm⟩ := List.any_eq_true.mp leads
  obtain ⟨m, hm, hk⟩ := List.any_eq_true.mp hm
  obtain ⟨k, hk, parent⟩ := List.any_eq_true.mp hk
  have reached : s.scope.Reaches n k := by
    cases n
    cases m
    exact .child (.child .here hm) hk
  cases k with
  | of c =>
    cases c with
    | union branches =>
      exact ⟨n, hn, branches, reached, beq_iff_eq.mp parent,
        run_canonical 0 Scope.entries [.resolve "entry"] hn reached⟩
    | _ => cases parent

end

end SchemaAlgebra

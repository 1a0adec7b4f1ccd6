import SchemaAlgebra.Algebra.Pairing
import SchemaAlgebra.Proofs.Sameness

/-!
# Reduced nodes

Every node that a scope returns is reduced: the branches of a union are no unions, the
conjuncts of an intersection are single constraints none of which merges or clashes with
another, and numbers are within the limits of the grammar. Only such nodes are intersected,
and what they are nested in bounds the recursion.
-/
namespace SchemaAlgebra
namespace Constraint

variable {α : Type u} {β : Type v}

def isLiteral : Constraint α → Bool
  | literal _ => true
  | _ => false

def isUnion : Constraint α → Bool
  | union _ => true
  | _ => false

/-- The domains in which a single constraint that is not nominal has values. -/
def domains (c : Constraint α) : List Domain :=
  match c.fixedDomain? with
  | some d => [d]
  | none => c.refinedDomains

/-- Two single constraints that neither merge nor clash, if they are different. -/
def StaysBeside (a b : Constraint α) : Prop :=
  a.isComposite = false ∧ b.isComposite = false ∧
    (a.isNominal = true ∨ b.isNominal = true ∨
      (∃ m n, a = divisor m ∧ b = divisor n ∧ 2 ^ 64 ≤ Nat.lcm m n) ∨
      (a.rank ≠ b.rank ∧ a.isLiteral = false ∧ b.isLiteral = false ∧
        ∃ d ∈ a.domains, d ∈ b.domains))

theorem StaysBeside.symm {a b : Constraint α} (h : StaysBeside a b) : StaysBeside b a := by
  obtain ⟨left, right, h⟩ := h
  refine ⟨right, left, ?_⟩
  rcases h with h | h | ⟨m, n, hm, hn, large⟩ | ⟨ranks, notLeft, notRight, d, hl, hr⟩
  · exact Or.inr (Or.inl h)
  · exact Or.inl h
  · exact Or.inr (Or.inr (Or.inl ⟨n, m, hn, hm, Nat.lcm_comm m n ▸ large⟩))
  · exact Or.inr (Or.inr (Or.inr ⟨ranks.symm, notRight, notLeft, d, hr, hl⟩))

theorem rank_head (c : Constraint α) : c.head.rank = c.rank := by cases c <;> rfl

theorem isLiteral_head (c : Constraint α) : c.head.isLiteral = c.isLiteral := by cases c <;> rfl

theorem isUnion_head (c : Constraint α) : c.head.isUnion = c.isUnion := by cases c <;> rfl

theorem isNominal_head (c : Constraint α) : c.head.isNominal = c.isNominal := by cases c <;> rfl

theorem isComposite_head (c : Constraint α) : c.head.isComposite = c.isComposite := by
  cases c <;> rfl

theorem domains_head (c : Constraint α) : c.head.domains = c.domains := by cases c <;> rfl

theorem head_eq_divisor {c : Constraint α} {m : Nat} : c.head = divisor m ↔ c = divisor m := by
  cases c <;> simp [head, erased, map]

theorem staysBeside_head {a b : Constraint α} : StaysBeside a.head b.head ↔ StaysBeside a b := by
  simp only [StaysBeside, rank_head, isLiteral_head, isNominal_head, isComposite_head, domains_head,
    head_eq_divisor]

end Constraint

namespace Node

theorem head_of_same {a b : Node} (h : a.same b = true) :
    a.constraint.head = b.constraint.head := by
  rw [same, Bool.and_eq_true, decide_eq_true_eq] at h
  exact h.1

/-- Two conjuncts that neither merge nor clash. -/
def Apart (a b : Node) : Prop := a.same b = false ∧ a.constraint.StaysBeside b.constraint

theorem Apart.symm {a b : Node} (h : Apart a b) : Apart b a :=
  ⟨same_comm a b ▸ h.1, h.2.symm⟩

theorem Apart.congr {a b a' b' : Node} (left : a.same a' = true) (right : b.same b' = true)
    (h : Apart a b) : Apart a' b' :=
  ⟨same_congr left right ▸ h.1, by
    rw [← Constraint.staysBeside_head, ← head_of_same left, ← head_of_same right]
    exact Constraint.staysBeside_head.mpr h.2⟩

end Node

def Range.IsFinite (r : Range) : Prop :=
  (∀ a ∈ r.lower, a.value.isFinite = true) ∧ ∀ a ∈ r.upper, a.value.isFinite = true

theorem Limit.stricter_cases (o : Ordering) (a b : Limit) :
    (a.stricter o b).value = a.value ∨ (a.stricter o b).value = b.value := by
  unfold stricter
  split
  · exact Or.inl rfl
  · split_ifs
    · exact Or.inl rfl
    · exact Or.inr rfl
  · exact Or.inr rfl

theorem Range.IsFinite.intersect {r s both : Range} (hr : r.IsFinite) (hs : s.IsFinite)
    (h : r.intersect? s = some both) : both.IsFinite := by
  have stricter (o : Ordering) {a b : Option Limit} (ha : ∀ x ∈ a, x.value.isFinite = true)
      (hb : ∀ x ∈ b, x.value.isFinite = true) :
      ∀ x ∈ stricterOf o a b, x.value.isFinite = true := by
    intro x hx
    cases a with
    | none => exact hb x hx
    | some a =>
      cases b with
      | none => exact ha x hx
      | some b =>
        cases hx
        rcases Limit.stricter_cases o a b with same | same
        · exact same ▸ ha a rfl
        · exact same ▸ hb b rfl
  rw [intersect?] at h
  split_ifs at h
  cases h
  exact ⟨stricter .gt hr.1 hs.1, stricter .lt hr.2 hs.2⟩

theorem Range.IsFinite.canonical {r : Range} (h : r.IsFinite) : r.canonical.IsFinite := by
  have zero : Binary64.zero.isFinite = true := by decide
  have limit {a : Option Limit} (ha : ∀ x ∈ a, x.value.isFinite = true) :
      ∀ x ∈ a.map (·.canonical), x.value.isFinite = true := by
    intro x hx
    obtain ⟨y, hy, rfl⟩ := Option.map_eq_some_iff.mp hx
    have finite := ha y hy
    have number := Binary64.isNaN_of_isFinite finite
    rw [Limit.canonical]
    split_ifs with hz hn
    · exact zero
    · rw [number] at hn
      cases hn
    · exact finite
  exact ⟨limit h.1, limit h.2⟩

/-- What a reduced node says of its outermost constraint. -/
def Constraint.Settled : Constraint Node → Prop
  | bound r => r.IsFinite
  | divisor n => 0 < n ∧ n < 2 ^ 64
  | patterns ps => ps.Nodup
  | union branches => ∀ b ∈ branches, b.constraint.isUnion = false
  | intersection children =>
    (∀ c ∈ children, c.constraint.isComposite = false) ∧ children.Pairwise Node.Apart
  | _ => True

namespace Node

/-- A node all of whose constraints are settled. -/
inductive Reduced : Node → Prop
  | of (c : Constraint Node) (settled : c.Settled) (children : ∀ m ∈ c.children, Reduced m) :
    Reduced (.of c)

theorem isUnion_of_eq {n : Node} {branches : List Node} (h : n.constraint = .union branches) :
    n.constraint.isUnion = true := by
  rw [h]
  rfl

theorem isUnion_eq_false {n : Node} (h : ∀ branches, n.constraint ≠ .union branches) :
    n.constraint.isUnion = false := by
  obtain ⟨c⟩ := n
  cases c <;> first | rfl | exact absurd rfl (h _)

theorem isMorph_eq_false {n : Node} (h : ∀ input steps, n.constraint ≠ .morph input steps) :
    n.isMorph = false := by
  obtain ⟨c⟩ := n
  cases c <;> first | rfl | exact absurd rfl (h _ _)

namespace Reduced

theorem settled {n : Node} (h : n.Reduced) : n.constraint.Settled := by
  cases h with
  | of c settled => exact settled

theorem children {c : Constraint Node} (h : Reduced (.of c)) : ∀ m ∈ c.children, m.Reduced := by
  cases h with
  | of c _ children => exact children

theorem leaf {c : Constraint Node} (settled : c.Settled) (leaf : c.children = []) :
    Reduced (.of c) :=
  .of c settled fun _ hm => absurd (leaf ▸ hm) List.not_mem_nil

theorem isComposite_of_conjunct {n m : Node} (h : n.Reduced) (single : n.constraint.isUnion = false)
    (plain : n.isMorph = false) (hm : m ∈ n.conjuncts) : m.constraint.isComposite = false := by
  obtain ⟨c⟩ := n
  cases c with
  | intersection children => exact h.settled.1 m hm
  | union branches => cases single
  | morph input steps => cases plain
  | _ =>
    rw [List.mem_singleton.mp hm]
    rfl

theorem conjuncts_pairwise {n : Node} (h : n.Reduced) : n.conjuncts.Pairwise Apart := by
  obtain ⟨c⟩ := n
  cases c with
  | intersection children => exact h.settled.2
  | _ => exact List.pairwise_singleton _ _

theorem isUnion_of_branch {n m : Node} (h : n.Reduced) (hm : m ∈ n.branches) :
    m.constraint.isUnion = false := by
  obtain ⟨c⟩ := n
  cases c with
  | union branches => exact h.settled m hm
  | _ =>
    rw [List.mem_singleton.mp hm]
    rfl

end Reduced

/-- Property sets are nested at most `k` deep, and morphs at most `i` deep before the first
property set and at most `depth` deep behind it. -/
def Fits (depth : Nat) : Node → Nat → Nat → Prop := fold fun c k i =>
  match c with
  | .props p => 0 < k ∧ ∀ q ∈ p.values, q (k - 1) depth
  | .morph input _ => 0 < i ∧ input k (i - 1)
  | c => ∀ q ∈ c.children, q k i

variable {depth k i : Nat}

theorem fits_props {p : Props Node} :
    Fits depth (of (.props p)) k i ↔
      0 < k ∧ ∀ m ∈ p.values, m.Fits depth (k - 1) depth := by
  rw [Fits, fold_of]
  simp [Constraint.map, Props.values_map]

theorem fits_morph {input : Node} {steps : List Step} :
    Fits depth (of (.morph input steps)) k i ↔ 0 < i ∧ input.Fits depth k (i - 1) := by
  rw [Fits, fold_of]
  rfl

theorem fits_union {branches : List Node} :
    Fits depth (of (.union branches)) k i ↔ ∀ m ∈ branches, m.Fits depth k i := by
  rw [Fits, fold_of]
  simp [Constraint.map, Constraint.children]

theorem fits_intersection {children : List Node} :
    Fits depth (of (.intersection children)) k i ↔ ∀ m ∈ children, m.Fits depth k i := by
  rw [Fits, fold_of]
  simp [Constraint.map, Constraint.children]

theorem fits_leaf {c : Constraint Node} (leaf : c.children = []) (plain : ∀ p, c ≠ .props p) :
    Fits depth (of c) k i := by
  rw [Fits, fold_of]
  cases c with
  | props p => exact absurd rfl (plain p)
  | morph input steps => cases leaf
  | union branches =>
    rw [show branches = [] from leaf]
    exact fun _ hm => absurd hm List.not_mem_nil
  | intersection children =>
    rw [show children = [] from leaf]
    exact fun _ hm => absurd hm List.not_mem_nil
  | _ => exact fun _ hm => absurd hm List.not_mem_nil

theorem fits_congr {a b : Node} (h : a.same b = true) : a.Fits depth = b.Fits depth :=
  fold_congr (fun c => by cases c <;> rfl) h

theorem Fits.mono {depth' k' i' : Nat} {n : Node} (h : n.Fits depth k i) (deeper : depth ≤ depth')
    (hk : k ≤ k') (hi : i ≤ i') : n.Fits depth' k' i' := by
  induction n using inductionOn generalizing k i k' i' with
  | step c ih =>
    cases c with
    | props p =>
      rw [fits_props] at h ⊢
      exact ⟨by omega, fun m hm => ih m hm (h.2 m hm) (by omega) deeper⟩
    | morph input steps =>
      rw [fits_morph] at h ⊢
      exact ⟨by omega, ih input List.mem_cons_self h.2 hk (by omega)⟩
    | union branches =>
      rw [fits_union] at h ⊢
      exact fun m hm => ih m hm (h m hm) hk hi
    | intersection children =>
      rw [fits_intersection] at h ⊢
      exact fun m hm => ih m hm (h m hm) hk hi
    | _ => exact fits_leaf rfl nofun

/-- Without unions and morphs outside of property sets nothing is nested there. -/
theorem Reduced.fits_plain {n : Node} (reduced : n.Reduced) (single : n.constraint.isUnion = false)
    (plain : n.isMorph = false) (h : n.Fits depth k i) : n.Fits depth k 0 := by
  have conjunct {m : Node} (composite : m.constraint.isComposite = false) (hm : m.Fits depth k i) :
      m.Fits depth k 0 := by
    obtain ⟨c⟩ := m
    cases c with
    | props p =>
      rw [fits_props] at hm ⊢
      exact hm
    | morph input steps => cases composite
    | union branches => cases composite
    | intersection children => cases composite
    | _ => exact fits_leaf rfl nofun
  obtain ⟨c⟩ := n
  cases c with
  | morph input steps => cases plain
  | union branches => cases single
  | intersection children =>
    rw [fits_intersection] at h ⊢
    exact fun m hm => conjunct (reduced.settled.1 m hm) (h m hm)
  | _ => exact conjunct rfl h

theorem exists_fits_all {ns : List Node}
    (h : ∀ n ∈ ns, ∃ k depth, k + depth ≤ n.size ∧ n.Fits depth k depth) :
    ∃ k depth, k + depth ≤ (ns.map size).sum ∧ ∀ n ∈ ns, n.Fits depth k depth := by
  induction ns with
  | nil => exact ⟨0, 0, Nat.le_refl 0, fun _ hn => absurd hn List.not_mem_nil⟩
  | cons n ns ih =>
    rw [List.forall_mem_cons] at h
    obtain ⟨k, depth, small, fits⟩ := h.1
    obtain ⟨k', depth', small', fits'⟩ := ih h.2
    refine ⟨max k k', max depth depth', ?_, List.forall_mem_cons.mpr ⟨?_, fun m hm => ?_⟩⟩
    · rw [List.map_cons, List.sum_cons]
      omega
    · exact fits.mono (by omega) (by omega) (by omega)
    · exact (fits' m hm).mono (by omega) (by omega) (by omega)

theorem exists_fits (n : Node) : ∃ k depth, k + depth ≤ n.size ∧ n.Fits depth k depth := by
  induction n using inductionOn with
  | step c ih =>
    obtain ⟨k, depth, small, fits⟩ := exists_fits_all ih
    rw [size_of]
    cases c with
    | props p =>
      refine ⟨k + 1, depth, by omega, fits_props.mpr ⟨by omega, fun m hm => ?_⟩⟩
      exact (fits m hm).mono (by omega) (by omega) (by omega)
    | morph input steps =>
      refine ⟨k, depth + 1, by omega, fits_morph.mpr ⟨by omega, ?_⟩⟩
      exact (fits input List.mem_cons_self).mono (by omega) (by omega) (by omega)
    | union branches => exact ⟨k, depth, by omega, fits_union.mpr fits⟩
    | intersection children => exact ⟨k, depth, by omega, fits_intersection.mpr fits⟩
    | _ => exact ⟨k, depth, by omega, fits_leaf rfl nofun⟩

end Node

end SchemaAlgebra

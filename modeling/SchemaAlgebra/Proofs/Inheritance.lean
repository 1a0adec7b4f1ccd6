import Mathlib.Tactic.Linarith
import SchemaAlgebra.Algebra.Meet
import SchemaAlgebra.Proofs.Entries
import SchemaAlgebra.Proofs.Normal
import SchemaAlgebra.Proofs.Tracing

/-!
# Inherited properties

A property that a node has as soon as its children have it, whatever the node is, except
for a reference to an alias, is inherited by everything that the algebra makes of reduced
nodes with the property, and what it makes of them is reduced. What it builds is normal, so
the property may ask for that too. How deep nodes are nested bounds the recursion, so its
budget never runs out.
-/
namespace SchemaAlgebra

/-- A property that passes from nodes to their children, and from the children of
everything but references back to the node. -/
structure Hereditary (P : Node → Prop) : Prop where
  children : ∀ c : Constraint Node, P (.of c) → ∀ m ∈ c.children, P m
  built : ∀ c : Constraint Node, (∀ name home, c ≠ .deferred name home) →
    (∀ m ∈ c.children, P m) → P (.of c)

/-- A property of reduced nodes that passes from nodes to their children, and from the
children of everything settled and normal but references back to the node. -/
structure Inherited [Library] (P : Node → Prop) : Prop where
  reduced : ∀ n, P n → n.Reduced
  children : ∀ c : Constraint Node, P (.of c) → ∀ m ∈ c.children, P m
  built : ∀ c : Constraint Node, (∀ name home, c ≠ .deferred name home) → c.Settled →
    c.IsNormal → (∀ m ∈ c.children, P m) → P (.of c)

variable {P : Node → Prop}

theorem Hereditary.inherited [Library] (h : Hereditary P) :
    Inherited fun n => n.Reduced ∧ P n where
  reduced _ hn := hn.1
  children c hc m hm := ⟨hc.1.children m hm, h.children c hc.2 m hm⟩
  built c reference settled _ hc :=
    ⟨.of c settled fun m hm => (hc m hm).1, h.built c reference fun m hm => (hc m hm).2⟩

namespace Inherited

variable [Library]

theorem atom (h : Inherited P) {c : Constraint Node}
    (reference : ∀ name home, c ≠ .deferred name home) (settled : c.Settled)
    (leaf : c.children = []) : P (.of c) :=
  h.built c reference settled (Constraint.isNormal_of_leaf leaf) fun _ hm =>
    absurd (leaf ▸ hm) List.not_mem_nil

theorem conjuncts (h : Inherited P) {n : Node} (hn : P n) : ∀ m ∈ n.conjuncts, P m := by
  obtain ⟨c⟩ := n
  cases c with
  | intersection children => exact h.children _ hn
  | _ => exact List.forall_mem_singleton.mpr hn

theorem branches (h : Inherited P) {n : Node} (hn : P n) : ∀ m ∈ n.branches, P m := by
  obtain ⟨c⟩ := n
  cases c with
  | union branches => exact h.children _ hn
  | _ => exact List.forall_mem_singleton.mpr hn

theorem input (h : Inherited P) {n : Node} (hn : P n) : P n.input := by
  obtain ⟨c⟩ := n
  cases c with
  | morph input steps => exact h.children _ hn input List.mem_cons_self
  | _ => exact hn

end Inherited

variable {j : Judging}

namespace Traced

theorem build_same {n : Node} (hn : j.holds n) :
    (build n).Ensures j fun m => j.holds m ∧ n.same m = true :=
  .build hn fun hm => ⟨hm, j.faithful n⟩

theorem build_inherits {n : Node} (hn : j.holds n) : (build n).Ensures j j.holds :=
  .build hn id

variable [Library]

section

variable (h : Inherited j.holds)
include h

theorem never_holds : j.holds .never :=
  h.atom nofun (fun _ hb => absurd hb List.not_mem_nil) rfl

theorem unknown_inherits : unknown.Ensures j j.holds :=
  build_inherits (h.atom nofun ⟨fun _ hc => absurd hc List.not_mem_nil, List.Pairwise.nil⟩ rfl)

theorem domain_holds (d : Domain) : j.holds (.of (.domain d)) := h.atom nofun trivial rfl

theorem basis_holds (b : Basis) : j.holds (.of (.basis b)) := h.atom nofun trivial rfl

theorem props_holds {p : Props Node} (hp : ∀ m ∈ p.values, j.holds m) :
    j.holds (.of (.props p)) :=
  h.built _ nofun trivial trivial hp

omit h in
/-- An only child stands for itself, and others become the conjuncts of a new node. -/
theorem intersection_ensures {Q : Node → Prop} {children : List Node}
    (only : ∀ m ∈ children, Q m) (apart : children.Pairwise Node.Apart)
    (joined : ∀ members, members ⊆ children → members.Pairwise Node.Apart →
      Constraint.IsNormal (.intersection members) →
        (build (.of (.intersection members))).Ensures j Q) :
    (intersection children).Ensures j Q := by
  by_cases several : children.length = 1
  · obtain ⟨n, rfl⟩ := List.length_eq_one_iff.mp several
    exact .pure (only n (List.mem_singleton_self n))
  · rw [Conjunction.intersection_apart apart several]
    have perm : (Sorting.sort Node.precedes children).Perm children := Sorting.sort_perm children
    exact joined _ perm.subset (perm.symm.pairwise apart fun h => h.symm)
      ⟨perm.length_eq ▸ several, Conjunction.sort_precedes children⟩

theorem intersection_inherits {children : List Node} (hc : ∀ m ∈ children, j.holds m)
    (single : ∀ m ∈ children, m.constraint.isComposite = false)
    (apart : children.Pairwise Node.Apart) : (intersection children).Ensures j j.holds :=
  intersection_ensures hc apart fun _ members apart normal => build_inherits
    (h.built _ nofun ⟨fun m hm => single m (members hm), apart⟩ normal fun m hm =>
      hc m (members hm))

theorem both_inherits {a b : Constraint Node} (ha : j.holds (.of a)) (hb : j.holds (.of b))
    (ranks : a.rank ≠ b.rank) (apart : a.StaysBeside b) :
    Traced.Ensures j (do
      let l ← build (.of a)
      let r ← build (.of b)
      intersection [l, r]) j.holds := by
  refine (build_same ha).bind fun l hl => (build_same hb).bind fun r hr => ?_
  have different : (Node.of a).same (.of b) = false := by
    refine Bool.eq_false_iff.mpr fun same => ranks ?_
    have heads : a.head = b.head := Node.head_of_same same
    rw [← Constraint.rank_head, heads, Constraint.rank_head]
  have beside : Node.Apart l r := Node.Apart.congr hl.2 hr.2 ⟨different, apart⟩
  exact intersection_inherits h (by simp [hl.1, hr.1]) (by simp [beside.2.1, beside.2.2.1])
    (by simp [beside])

theorem object_inherits {p : Props Node} (hp : ∀ m ∈ p.values, j.holds m) :
    (object p).Ensures j j.holds :=
  have ranks : (0 : Nat) ≠ 4 := by decide
  both_inherits h (domain_holds h .object) (props_holds h hp) ranks
    ⟨rfl, rfl, .inr (.inr (.inr ⟨ranks, rfl, rfl, .object, List.mem_singleton_self _,
      List.mem_singleton_self _⟩))⟩

theorem tuple_inherits {s : Sequence Node} (hs : ∀ m ∈ s.values, j.holds m) :
    Traced.Ensures j (do
      let basis ← basis .array
      let props ← props (.ofSequence s)
      intersection [basis, props]) j.holds := by
  have ranks : (0 : Nat) ≠ 4 := by decide
  refine both_inherits h (basis_holds h .array) (props_holds h ?_) ranks
    ⟨rfl, rfl, .inr (.inr (.inr ⟨ranks, rfl, rfl, .object, List.mem_singleton_self _,
      List.mem_singleton_self _⟩))⟩
  simpa [Props.ofSequence, Props.values, Props.empty, Entries.values] using hs

theorem arrayOf_inherits {n : Node} (hn : j.holds n) : (arrayOf n).Ensures j j.holds := by
  unfold arrayOf
  by_cases all : n.isUnknown = true
  · simp only [all, if_true]
    exact (build_inherits (basis_holds h .array)).bind fun b hb => .pure hb
  · simp only [all, Bool.false_eq_true, if_false]
    exact tuple_inherits h (s := ⟨[], some n⟩) (by simpa [Sequence.values] using hn)

end

end Traced

/-- The nodes with the property that are nested within bounds. -/
def Judging.Tier (j : Judging) (depth k i : Nat) (n : Node) : Prop := j.holds n ∧ n.Fits depth k i

namespace Traced

variable {depth k i : Nat}

theorem build_tier {n : Node} (hn : j.Tier depth k i n) : (build n).Ensures j (j.Tier depth k i) :=
  (build_same hn.1).mono fun _ hm => ⟨hm.1, Node.fits_congr hm.2 ▸ hn.2⟩

theorem leaf_tier {c : Constraint Node} (hc : j.holds (.of c)) (leaf : c.children = [])
    (plain : ∀ p, c ≠ .props p) : (build (.of c)).Ensures j (j.Tier depth k i) :=
  build_tier ⟨hc, Node.fits_leaf leaf plain⟩

end Traced

namespace Constraint

variable {α : Type u}

theorem rank_of_fixedDomain {c : Constraint α} {d : Domain} (h : c.fixedDomain? = some d) :
    c.rank = 0 ∧ c.domains = [d] := by
  cases c <;> first | exact ⟨rfl, by rw [domains, h]⟩ | cases h

theorem rank_of_refinedDomains {c : Constraint α} {d : Domain} (h : d ∈ c.refinedDomains) :
    c.rank ≠ 0 ∧ c.isLiteral = false ∧ c.domains = c.refinedDomains := by
  cases c <;> first | exact ⟨by simp [rank], rfl, rfl⟩ | cases h

/-- What is neither composite nor nominal and does not fix a domain is one of the refinements. -/
theorem refinement_cases {c : Constraint α} (composite : c.isComposite = false)
    (nominal : c.isNominal = false) (free : c.fixedDomain? = none) :
    (∃ r, c = bound r) ∨ (∃ n, c = divisor n) ∨ (∃ ps, c = patterns ps) ∨
      ∃ p, c = props p := by
  cases c <;> simp_all [isComposite, isNominal, fixedDomain?]

end Constraint

theorem Pattern.mem_union {p : Pattern} {ps qs : List Pattern} : p ∈ union ps qs ↔
    p ∈ ps ∨ p ∈ qs := by
  rw [union, Sorting.mem_sort, List.mem_append, List.mem_filter]
  by_cases inside : p ∈ ps <;> simp [inside]

theorem Pattern.nodup_union {ps qs : List Pattern} (hp : ps.Nodup) (hq : qs.Nodup) :
    (union ps qs).Nodup := by
  refine (Sorting.sort_perm _).nodup_iff.mpr
    (List.nodup_append.mpr ⟨hp, hq.filter _, fun p hps q hqs same => ?_⟩)
  subst same
  simp [hps] at hqs

namespace Pairing

/-- A merged node has the property, and what does not reduce stays side by side. -/
def Keeps (Q : Node → Prop) (l r : Node) : Pairing → Prop
  | merged n => Q n
  | clash _ => True
  | irreducible => Node.Apart l r

variable {Q : Node → Prop} {l r : Node}

theorem Keeps.symm {p : Pairing} (h : p.Keeps Q l r) : p.Keeps Q r l := by
  cases p with
  | irreducible => exact Node.Apart.symm h
  | _ => exact h

theorem narrow_keeps {fits : Bool} {clash : Clash} {n : Node} (hn : Q n) (a b : Node) :
    (narrow fits clash n a b).Keeps Q l r := by
  cases fits
  · trivial
  · exact hn

variable [Library]

theorem literalBasis_keeps {x : Literal} {b : Basis} {n : Node} (hn : Q n) (a c : Node) :
    (literalBasis x b n a c).Keeps Q l r := by
  unfold literalBasis
  split_ifs
  · exact narrow_keeps hn a c
  · trivial

theorem fixed_keeps (hl : Q l) (hr : Q r) : (fixed l r).Keeps Q l r := by
  unfold fixed
  split
  · exact narrow_keeps hl l r
  · exact narrow_keeps hl l r
  · exact narrow_keeps hr l r
  · exact literalBasis_keeps hl l r
  · exact literalBasis_keeps hr l r
  · exact narrow_keeps hr l r
  · exact narrow_keeps hl l r
  · trivial
  · trivial

theorem refine_keeps {kind refinement : Node} (hk : Q kind)
    (different : kind.same refinement = false) (single : kind.constraint.isComposite = false)
    (single' : refinement.constraint.isComposite = false) (a b : Node) :
    (refine kind refinement a b).Keeps Q kind refinement := by
  unfold refine
  split
  · split_ifs
    · exact narrow_keeps hk a b
    · trivial
  · rename_i notLiteral
    split
    · rename_i d fixed
      split_ifs with within
      · obtain ⟨rank, domains⟩ := Constraint.rank_of_fixedDomain fixed
        have mem := List.contains_iff_mem.mp within
        obtain ⟨rank', literal, domains'⟩ := Constraint.rank_of_refinedDomains mem
        refine ⟨different, single, single',
          .inr (.inr (.inr ⟨?_, ?_, literal, d, ?_, domains' ▸ mem⟩))⟩
        · exact rank ▸ rank'.symm
        · cases hc : kind.constraint with
          | literal x => exact absurd hc (notLiteral x)
          | _ => rfl
        · exact domains ▸ List.mem_singleton_self d
      · trivial
    · trivial

end Pairing

/-- Refinements of different kinds stay side by side if they have a domain in common. -/
theorem Pairing.apart_of_refinements {l r : Node} (different : l.same r = false)
    (single : l.constraint.isComposite = false) (single' : r.constraint.isComposite = false)
    (nominal : l.constraint.isNominal = false) (nominal' : r.constraint.isNominal = false)
    (free : l.constraint.fixedDomain? = none) (free' : r.constraint.fixedDomain? = none)
    (common : l.constraint.refinedDomains.any r.constraint.refinedDomains.contains = true)
    (notBounds : ∀ a b, l.constraint = .bound a → r.constraint = .bound b → False)
    (notDivisors : ∀ m n, l.constraint = .divisor m → r.constraint = .divisor n → False)
    (notPatterns : ∀ ps qs, l.constraint = .patterns ps → r.constraint = .patterns qs → False)
    (notProps : ∀ p q, l.constraint = .props p → r.constraint = .props q → False) :
    Node.Apart l r := by
  obtain ⟨d, hd, hd'⟩ := List.any_eq_true.mp common
  have mem := List.contains_iff_mem.mp hd'
  obtain ⟨-, literal, domains⟩ := Constraint.rank_of_refinedDomains hd
  obtain ⟨-, literal', domains'⟩ := Constraint.rank_of_refinedDomains mem
  refine ⟨different, single, single', .inr (.inr (.inr ⟨fun ranks => ?_, literal, literal', d,
    domains ▸ hd, domains' ▸ mem⟩))⟩
  obtain ⟨a⟩ := l
  obtain ⟨b⟩ := r
  rcases Constraint.refinement_cases single nominal
    free with ⟨_, rfl⟩ | ⟨_, rfl⟩ | ⟨_, rfl⟩ | ⟨_, rfl⟩ <;>
    rcases Constraint.refinement_cases single' nominal'
      free' with ⟨_, rfl⟩ | ⟨_, rfl⟩ | ⟨_, rfl⟩ | ⟨_, rfl⟩ <;>
    first
      | exact notBounds _ _ rfl rfl
      | exact notDivisors _ _ rfl rfl
      | exact notPatterns _ _ rfl rfl
      | exact notProps _ _ rfl rfl
      | cases ranks

/-- The nodes of a tier that are single constraints. -/
def Judging.Single (j : Judging) (depth k i : Nat) (n : Node) : Prop :=
  j.Tier depth k i n ∧ n.constraint.isComposite = false

namespace Pairing

variable {depth k i : Nat} {l r : Node}

theorem leaf_keeps {c : Constraint Node} (hc : j.holds (.of c)) (leaf : c.children = [])
    (plain : ∀ p, c ≠ .props p) (single : c.isComposite = false) :
    (merged <$> Traced.build (.of c)).Ensures j (Keeps (j.Single depth k i) l r) := by
  refine .map ((Traced.build_same hc).mono fun n hn => ⟨⟨hn.1, ?_⟩, ?_⟩)
  · exact Node.fits_congr hn.2 ▸ Node.fits_leaf leaf plain
  · rw [← Constraint.isComposite_head, ← Node.head_of_same hn.2, Constraint.isComposite_head]
    exact single

/-- Intersecting properties stays within the tier of their values. -/
def KeepsProps (j : Judging) (depth k : Nat)
    (meetProps : Props Node → Props Node → Attempt (Props Node)) : Prop :=
  ∀ p q, 0 < k → (∀ m ∈ p.values, j.Tier depth (k - 1) depth m) →
    (∀ m ∈ q.values, j.Tier depth (k - 1) depth m) →
    Attempt.Ensures j (meetProps p q) (fun p => ∀ m ∈ p.values, j.Tier depth (k - 1) depth m)
      fun _ => True

variable [Library]

theorem props_values (h : Inherited j.holds) {p : Props Node}
    (hp : j.Tier depth k i (.of (.props p))) :
    0 < k ∧ ∀ m ∈ p.values, j.Tier depth (k - 1) depth m := by
  obtain ⟨pos, fits⟩ := Node.fits_props.mp hp.2
  exact ⟨pos, fun m hm => ⟨h.children _ hp.1 m hm, fits m hm⟩⟩

theorem refinements_keeps (h : Inherited j.holds)
    {meetProps : Props Node → Props Node → Attempt (Props Node)}
    (hm : KeepsProps j depth k meetProps) (hl : j.Single depth k i l) (hr : j.Single depth k i r)
    (different : l.same r = false) (nominal : l.constraint.isNominal = false)
    (nominal' : r.constraint.isNominal = false) (free : l.constraint.fixedDomain? = none)
    (free' : r.constraint.fixedDomain? = none) :
    (refinements meetProps l r).Ensures j (Keeps (j.Single depth k i) l r) := by
  obtain ⟨a⟩ := l
  obtain ⟨b⟩ := r
  have settled := (h.reduced _ hl.1.1).settled
  have settled' := (h.reduced _ hr.1.1).settled
  unfold refinements
  split
  · rename_i r s ha hb
    cases ha
    cases hb
    split
    · rename_i both met
      have finite : both.IsFinite := Range.IsFinite.intersect settled settled' met
      exact leaf_keeps (h.atom nofun finite.canonical rfl) rfl nofun rfl
    · exact .pure trivial
  · rename_i m n ha hb
    cases ha
    cases hb
    refine .ite (fun small => ?_) fun large => .pure ?_
    · exact leaf_keeps (h.atom nofun ⟨Nat.lcm_pos settled.1 settled'.1, small⟩ rfl)
        rfl nofun rfl
    · exact ⟨different, rfl, rfl, .inr (.inr (.inl ⟨m, n, rfl, rfl, not_lt.mp large⟩))⟩
  · rename_i ps qs ha hb
    cases ha
    cases hb
    exact leaf_keeps (h.atom nofun (Pattern.nodup_union settled settled') rfl) rfl nofun rfl
  · rename_i p q ha hb
    cases ha
    cases hb
    obtain ⟨pos, left⟩ := props_values h hl.1
    obtain ⟨-, right⟩ := props_values h hr.1
    have merged : Attempt.Ensures j (do Traced.props (← meetProps p q)) (j.Single depth k i)
        fun _ => True := by
      refine (hm p q pos left right).bind fun both hb => .lift ?_
      have holds : j.holds (.of (.props both)) := Traced.props_holds h fun m hm => (hb m hm).1
      refine (Traced.build_same holds).mono fun n hn => ⟨⟨hn.1, ?_⟩, ?_⟩
      · exact Node.fits_congr hn.2 ▸ Node.fits_props.mpr ⟨pos, fun m hm => (hb m hm).2⟩
      · rw [← Constraint.isComposite_head, ← Node.head_of_same hn.2]
        rfl
    exact merged.run_bind (fun n hn => .pure hn) fun _ _ => .pure trivial
  · rename_i notBounds notDivisors notPatterns notProps
    refine .pure ?_
    split_ifs with common
    · exact apart_of_refinements different hl.2 hr.2 nominal nominal' free free' common notBounds
        notDivisors notPatterns notProps
    · trivial

theorem of_keeps {Q : Node → Prop} {meet : Meet}
    {meetProps : Props Node → Props Node → Attempt (Props Node)} (hl : Q l) (hr : Q r)
    (single : l.constraint.isComposite = false) (single' : r.constraint.isComposite = false)
    (refined : l.same r = false → l.constraint.isNominal = false →
      r.constraint.isNominal = false →
      l.constraint.fixedDomain? = none → r.constraint.fixedDomain? = none →
        (refinements meetProps l r).Ensures j (Keeps Q l r)) :
    (of meet meetProps l r).Ensures j (Keeps Q l r) := by
  refine .ite (fun _ => .pure hl) fun different => .ite (fun composite => ?_) fun _ => ?_
  · rw [single, single'] at composite
    cases composite
  rw [Bool.not_eq_true] at different
  refine .ite (fun nominal => .pure ⟨different, single, single', ?_⟩) fun plain => ?_
  · rcases Bool.or_eq_true_iff.mp nominal with nominal | nominal
    · exact Or.inl nominal
    · exact Or.inr (Or.inl nominal)
  simp only [Bool.or_eq_true, not_or, Bool.not_eq_true] at plain
  split
  · exact .pure (fixed_keeps hl hr)
  · exact .pure (refine_keeps hl different single single' l r)
  · exact .pure (refine_keeps hr (Node.same_comm l r ▸ different) single' single l r).symm
  · rename_i free free'
    exact refined different plain.1 plain.2 free free'

end Pairing

namespace Conjunction

variable {pair : Node → Node → Traced Pairing} {Q : Node → Prop}

/-- Pairs of nodes with the property merge into nodes with it or stay side by side. -/
def Keeps (j : Judging) (Q : Node → Prop) (pair : Node → Node → Traced Pairing) : Prop :=
  ∀ l r, Q l → Q r → (pair l r).Ensures j (Pairing.Keeps Q l r)

theorem firstMerge_keeps (hp : Keeps j Q pair) {incoming : Node} (hi : Q incoming)
    {conjuncts : List Node} (hc : ∀ m ∈ conjuncts, Q m) :
    Attempt.Ensures j (firstMerge pair incoming conjuncts)
      (fun
        | some (n, others) =>
          Q n ∧ others.Sublist conjuncts ∧ others.length + 1 = conjuncts.length
        | none => ∀ c ∈ conjuncts, Node.Apart c incoming)
      fun _ => True := by
  induction conjuncts with
  | nil => exact .pure (List.forall_mem_nil _)
  | cons c r ih =>
    rw [List.forall_mem_cons] at hc
    rw [firstMerge]
    refine Attempt.Ensures.bind (.lift (hp c incoming hc.1 hi)) fun p hp => ?_
    cases p with
    | merged n => exact .pure ⟨hp, List.sublist_cons_self c r, rfl⟩
    | clash d => exact .throw trivial
    | irreducible =>
      refine (ih hc.2).bind fun o ho => .pure ?_
      cases o with
      | none => exact List.forall_mem_cons.mpr ⟨hp, ho⟩
      | some found => exact ⟨ho.1, ho.2.1.cons_cons c, congrArg (· + 1) ho.2.2⟩

/-- The conjuncts have the property and stay side by side. -/
def Kept (Q : Node → Prop) (conjuncts : List Node) : Prop :=
  (∀ m ∈ conjuncts, Q m) ∧ conjuncts.Pairwise Node.Apart

theorem Kept.append {conjuncts : List Node} (hc : Kept Q conjuncts) {incoming : Node}
    (hi : Q incoming) (apart : ∀ c ∈ conjuncts, Node.Apart c incoming) :
    Kept Q (conjuncts ++ [incoming]) := by
  refine ⟨List.forall_mem_append.mpr ⟨hc.1, List.forall_mem_singleton.mpr hi⟩, ?_⟩
  refine List.pairwise_append.mpr ⟨hc.2, List.pairwise_singleton _ _, fun c hm n hn => ?_⟩
  rw [List.mem_singleton.mp hn]
  exact apart c hm

theorem addUpTo_keeps (hp : Keeps j Q pair) {merges : Nat} {incoming : Node} (hi : Q incoming)
    {conjuncts : List Node} (hc : Kept Q conjuncts) (enough : conjuncts.length ≤ merges) :
    Attempt.Ensures j (addUpTo pair merges conjuncts incoming) (Kept Q) fun _ => True := by
  induction merges generalizing incoming conjuncts with
  | zero =>
    rw [List.length_eq_zero_iff.mp (Nat.le_zero.mp enough)] at hc ⊢
    exact .pure (hc.append hi (List.forall_mem_nil _))
  | succ merges ih =>
    rw [addUpTo]
    refine (firstMerge_keeps hp hi hc.1).bind fun o ho => ?_
    cases o with
    | none => exact .pure (hc.append hi ho)
    | some found =>
      obtain ⟨hn, fewer, length⟩ := ho
      exact ih hn ⟨fun m hm => hc.1 m (fewer.subset hm), hc.2.sublist fewer⟩ (by omega)

theorem addAll_keeps (hp : Keeps j Q pair) {incoming : List Node} (hi : ∀ m ∈ incoming, Q m)
    {conjuncts : List Node} (hc : Kept Q conjuncts) :
    Attempt.Ensures j (addAll pair conjuncts incoming) (Kept Q) fun _ => True := by
  induction incoming generalizing conjuncts with
  | nil => exact .pure hc
  | cons n r ih =>
    rw [List.forall_mem_cons] at hi
    exact (addUpTo_keeps hp hi.1 hc (Nat.le_refl _)).bind fun ms hms => ih hi.2 hms

end Conjunction

namespace Props

theorem mem_values {α : Type u} {p : Props α} {v : α} :
    v ∈ p.values ↔ v ∈ Entries.values p.required ∨ v ∈ Entries.values p.optional ∨
      (∃ s ∈ p.index, v = s.key ∨ v = s.value) ∨ ∃ s, p.sequence = some s ∧
        v ∈ s.values := by
  simp only [values, List.mem_append, List.mem_flatMap, List.mem_cons, List.not_mem_nil, or_false]
  cases p.sequence <;> simp [or_assoc]

theorem mem_values_of_get? {α : Type u} {p : Props α} {key : String} {v : α} {required : Bool}
    (h : p.get? key = some (v, required)) : v ∈ p.values := by
  rw [get?] at h
  cases hr : Entries.get? key p.required with
  | some w =>
    rw [hr] at h
    cases h
    exact mem_values_of_required (Entries.mem_of_get? hr)
  | none =>
    rw [hr] at h
    obtain ⟨w, hw, same⟩ := Option.map_eq_some_iff.mp h
    cases same
    exact mem_values_of_optional (Entries.mem_of_get? hw)

theorem mem_values_of_element? {α : Type u} {p : Props α} {v : α} (h : v ∈ p.element?) :
    v ∈ p.values := by
  unfold element? at h
  split_ifs at h
  · cases h
  · split at h
    · rename_i rest hs
      exact mem_values_of_sequence hs (by simpa [Sequence.values] using h)
    · cases h

theorem values_insert {p : Props Node} (hp : ∀ m ∈ p.values, P m) (key : String) {v : Node}
    (hv : P v) (required : Bool) : ∀ m ∈ (p.insert key v required).values, P m := by
  simp only [values, List.forall_mem_append] at hp
  obtain ⟨⟨⟨hr, ho⟩, hi⟩, hs⟩ := hp
  unfold insert
  cases required with
  | true =>
    simp only [if_true, values, List.forall_mem_append]
    exact ⟨⟨⟨Entries.forall_values_insert hr key hv, Entries.forall_values_erase ho key⟩,
      hi⟩, hs⟩
  | false =>
    simp only [Bool.false_eq_true, if_false, values, List.forall_mem_append]
    exact ⟨⟨⟨Entries.forall_values_erase hr key, Entries.forall_values_insert ho key hv⟩,
      hi⟩, hs⟩

end Props

/-- What is made of two nodes with a property has it too, and so does the node without
values. -/
structure Meet.Keeps (j : Judging) (Q : Node → Prop) (meet : Meet) : Prop where
  met : ∀ l r, Q l → Q r → Attempt.Ensures j (meet l r) Q fun _ => True
  never : Traced.never.Ensures j Q
  listed : ∀ s : Sequence Node, (∀ m ∈ s.values, Q m) →
    (Traced.props (.ofSequence s)).Ensures j fun _ => True

namespace Properties

/-- The values found so far have the property. -/
def Draft.Holds (P : Node → Prop) (d : Draft) : Prop := ∀ m ∈ d.props.values, P m

variable {Q : Node → Prop}

theorem meetItems_inherits {meet : Meet} (keeps : meet.Keeps j Q) {s t : Sequence Node}
    (hs : ∀ m ∈ s.values, Q m) (ht : ∀ m ∈ t.values, Q m) {items : List Node}
    (hi : ∀ m ∈ items, Q m) (reasons : Disjoint) (places : List Nat) :
    (meetItems meet s t items reasons places).Ensures j fun r => ∀ m ∈ r.1, Q m := by
  induction places generalizing items reasons with
  | nil => exact .pure hi
  | cons i r ih =>
    rw [meetItems]
    split
    · rename_i a b ha hb
      refine (keeps.met a b (hs a (Sequence.mem_values_of_at? ha))
        (ht b (Sequence.mem_values_of_at? hb))).run_bind
        (fun n hn => .ite (fun _ => ih hi _) fun _ => ih ?_ _) fun _ _ => ih hi _
      exact List.forall_mem_append.mpr ⟨hi, List.forall_mem_singleton.mpr hn⟩
    · exact ih hi _

theorem foldl_presence_props (never : Node) (es : List (String × Node)) (d : Draft) :
    (es.foldl (fun d e => d.presence [e.1] e.2 never) d).props = d.props := by
  induction es generalizing d with
  | nil => rfl
  | cons e es ih => exact ih _

theorem refuteRequired_inherits (never : Traced.never.Ensures j Q) {d : Draft} (hd : d.Holds Q) :
    (refuteRequired d).Ensures j (Draft.Holds Q) := by
  refine .ite (fun _ => .pure hd) fun _ => never.bind fun n _ => .pure ?_
  rw [Draft.Holds, foldl_presence_props]
  exact hd

section

variable {meet : Meet} (keeps : meet.Keeps j Q)
include keeps

theorem meetOrNever_inherits {a b : Node} (ha : Q a) (hb : Q b) :
    (meetOrNever meet a b).Ensures j Q :=
  (keeps.met a b ha hb).run_bind (fun _ hn => .pure hn) fun _ _ => keeps.never

theorem meetNamed_inherits {d : Draft} (hd : d.Holds Q) (key : String) {a b : Node}
    (ha : Q a) (hb : Q b) (inLeft inRight : Bool) :
    (meetNamed meet d key a b inLeft inRight).Ensures j (Draft.Holds Q) := by
  refine (keeps.met a b ha hb).run_bind (fun n hn => ?_) fun e _ => ?_
  · refine .pure ?_
    split_ifs
    · exact hd
    · exact Props.values_insert hd key hn _
  · refine .ite (fun _ => ?_) fun _ => .pure ?_
    · exact (keeps.never).bind fun n hn => .pure (Props.values_insert hd key hn _)
    · split_ifs <;> exact hd

theorem meetKey_inherits {p q : Props Node} (hp : ∀ m ∈ p.values, Q m)
    (hq : ∀ m ∈ q.values, Q m) {d : Draft} (hd : d.Holds Q) (key : String) :
    (meetKey meet p q d key).Ensures j (Draft.Holds Q) := by
  unfold meetKey
  split
  · rename_i a inLeft b inRight ha hb
    exact meetNamed_inherits keeps hd key (hp a (Props.mem_values_of_get? ha))
      (hq b (Props.mem_values_of_get? hb)) inLeft inRight
  · rename_i value required hv _
    exact .pure (Props.values_insert hd key (hp value (Props.mem_values_of_get? hv)) required)
  · rename_i value required _ hv
    exact .pure (Props.values_insert hd key (hq value (Props.mem_values_of_get? hv)) required)
  · exact .pure hd

theorem meetKeys_inherits {p q : Props Node} (hp : ∀ m ∈ p.values, Q m)
    (hq : ∀ m ∈ q.values, Q m) {d : Draft} (hd : d.Holds Q) (keys : List String) :
    (meetKeys meet p q d keys).Ensures j (Draft.Holds Q) := by
  induction keys generalizing d with
  | nil => exact .pure hd
  | cons key r ih => exact (meetKey_inherits keeps hp hq hd key).bind fun _ hd => ih hd

theorem addSignature_inherits {s : Signature Node} (hs : Q s.key ∧ Q s.value)
    {index : List (Signature Node)} (hi : ∀ t ∈ index, Q t.key ∧ Q t.value) :
    (addSignature meet s index).Ensures j fun ts => ∀ t ∈ ts, Q t.key ∧ Q t.value := by
  induction index with
  | nil => exact .pure (List.forall_mem_singleton.mpr hs)
  | cons t r ih =>
    rw [List.forall_mem_cons] at hi
    rw [addSignature]
    refine .ite (fun _ => ?_) fun _ => ?_
    · refine (meetOrNever_inherits keeps hi.1.2 hs.2).bind fun v hv => .pure ?_
      exact List.forall_mem_cons.mpr ⟨⟨hi.1.1, hv⟩, hi.2⟩
    · exact (ih hi.2).bind fun ts hts => .pure (List.forall_mem_cons.mpr ⟨hi.1, hts⟩)

theorem meetIndex_inherits {index others : List (Signature Node)}
    (hi : ∀ t ∈ index, Q t.key ∧ Q t.value)
    (ho : ∀ t ∈ others, Q t.key ∧ Q t.value) :
    (meetIndex meet index others).Ensures j fun ts => ∀ t ∈ ts, Q t.key ∧ Q t.value := by
  induction others generalizing index with
  | nil => exact .pure hi
  | cons s r ih =>
    rw [List.forall_mem_cons] at ho
    exact (addSignature_inherits keeps ho.1 hi).bind fun ts hts => ih hts ho.2

theorem meetRest_inherits {a b : Option Node} (ha : ∀ m ∈ a, Q m) (hb : ∀ m ∈ b, Q m) :
    (meetRest meet a b).Ensures j fun o => ∀ m ∈ o, Q m := by
  unfold meetRest
  split
  · refine .map ((meetOrNever_inherits keeps (ha _ rfl) (hb _ rfl)).mono fun n hn m hm => ?_)
    cases hm
    exact hn
  · exact .pure fun _ h => nomatch h

theorem meetSequences_inherits {s t : Sequence Node} (hs : ∀ m ∈ s.values, Q m)
    (ht : ∀ m ∈ t.values, Q m) :
    Attempt.Ensures j (meetSequences meet s t) (fun u => ∀ m ∈ u.values, Q m) fun _ =>
      True := by
  have rest {u : Sequence Node} (hu : ∀ m ∈ u.values, Q m) : ∀ m ∈ u.rest, Q m :=
    fun m hm => hu m (List.mem_append_right _ (by simpa using hm))
  unfold meetSequences
  refine Attempt.Ensures.ite (fun _ => ?_) fun _ => ?_
  · refine Attempt.Ensures.bind (.lift (keeps.listed s hs)) fun _ _ => ?_
    exact Attempt.Ensures.bind (.lift (keeps.listed t ht)) fun _ _ => .throw trivial
  · refine Attempt.Ensures.bind
      (.lift (meetItems_inherits keeps hs ht (List.forall_mem_nil _) .none _))
      fun found hf => Attempt.Ensures.ite (fun _ => .throw_bind trivial) fun _ => ?_
    refine Attempt.Ensures.bind (.lift (meetRest_inherits keeps (rest hs) (rest ht)))
      fun o ho => .pure ?_
    rw [Sequence.values, List.forall_mem_append]
    exact ⟨hf, fun m hm => ho m (by simpa using hm)⟩

theorem meetSequence_inherits {p q : Props Node} (hp : ∀ m ∈ p.values, Q m)
    (hq : ∀ m ∈ q.values, Q m) {d : Draft} (hd : d.Holds Q) :
    (meetSequence meet p q d).Ensures j (Draft.Holds Q) := by
  have placed {o : Option (Sequence Node)} (ho : ∀ s, o = some s → ∀ m ∈ s.values, Q m) :
      Draft.Holds Q { d with props := { d.props with sequence := o } } := by
    intro m hm
    rcases Props.mem_values.mp hm with hm | hm | hm | ⟨s, hs, hm⟩
    · exact hd m (Props.mem_values.mpr (Or.inl hm))
    · exact hd m (Props.mem_values.mpr (Or.inr (Or.inl hm)))
    · exact hd m (Props.mem_values.mpr (Or.inr (Or.inr (Or.inl hm))))
    · exact ho s hs m hm
  have left : ∀ s, p.sequence = some s → ∀ m ∈ s.values, Q m :=
    fun s hs m hm => hp m (Props.mem_values_of_sequence hs hm)
  have right : ∀ s, q.sequence = some s → ∀ m ∈ s.values, Q m :=
    fun s hs m hm => hq m (Props.mem_values_of_sequence hs hm)
  unfold meetSequence
  split
  · rename_i s t hs ht
    refine (meetSequences_inherits keeps (left s hs) (right t ht)).run_bind (fun u hu => ?_)
      fun _ _ => .pure hd
    exact .pure (placed fun s hs => by cases hs; exact hu)
  · refine .pure (placed fun s hs => ?_)
    rw [Option.orElse_eq_orElse, Option.orElse_eq_or, Option.or_eq_some_iff] at hs
    rcases hs with hs | ⟨-, hs⟩
    · exact left s hs
    · exact right s hs

variable [Library]

theorem narrowKey_inherits {s : Signature Node} (hs : Q s.value) {d : Draft}
    (hd : d.Holds Q) (key : String) :
    (narrowKey meet s d key).Ensures j (Draft.Holds Q) := by
  have asked : (Traced.emit (.consulted s.key)).Ensures j fun _ => True :=
    .emit (by exact trivial) fun _ => trivial
  refine asked.bind fun _ _ => .ite (fun _ => .pure hd) fun _ => ?_
  cases hk : d.props.get? key with
  | none => exact .pure hd
  | some found =>
    obtain ⟨value, required⟩ := found
    refine (keeps.met value s.value (hd value (Props.mem_values_of_get? hk)) hs).run_bind
      (fun n hn => .pure ?_)
      fun _ _ => .ite (fun _ => .pure hd) fun _ => ?_
    · split_ifs
      · exact hd
      · exact Props.values_insert hd key hn required
    · exact (keeps.never).bind fun n hn => .pure (Props.values_insert hd key hn false)

theorem narrowKeys_inherits {s : Signature Node} (hs : Q s.value) {d : Draft}
    (hd : d.Holds Q) (keys : List String) :
    (narrowKeys meet s d keys).Ensures j (Draft.Holds Q) := by
  induction keys generalizing d with
  | nil => exact .pure hd
  | cons key r ih => exact (narrowKey_inherits keeps hs hd key).bind fun _ hd => ih hd

theorem narrowAll_inherits {index : List (Signature Node)} (hi : ∀ s ∈ index, Q s.value)
    {d : Draft} (hd : d.Holds Q) :
    (narrowAll meet d index).Ensures j (Draft.Holds Q) := by
  induction index generalizing d with
  | nil => exact .pure hd
  | cons s r ih =>
    rw [List.forall_mem_cons] at hi
    rw [narrowAll]
    refine .ite (fun _ => Traced.Ensures.bind (.pure hd) fun _ hd => ih hi.2 hd) fun _ => ?_
    exact (narrowKeys_inherits keeps hi.1 hd _).bind fun _ hd => ih hi.2 hd

theorem normalize_inherits {p : Props Node} (hp : ∀ m ∈ p.values, Q m) :
    Attempt.Ensures j (normalize meet p) (fun q => ∀ m ∈ q.values, Q m) fun _ => True := by
  have index : ∀ s ∈ sortedIndex p.index, s ∈ p.index := fun s hs => Sorting.mem_sort.mp hs
  have sorted : ∀ m ∈ ({ p with index := sortedIndex p.index } : Props Node).values, Q m := by
    intro m hm
    rcases Props.mem_values.mp hm with hm | hm | ⟨s, hs, hm⟩ | hm
    · exact hp m (Props.mem_values.mpr (Or.inl hm))
    · exact hp m (Props.mem_values.mpr (Or.inr (Or.inl hm)))
    · exact hp m (Props.mem_values.mpr (Or.inr (Or.inr (Or.inl ⟨s, index s hs, hm⟩))))
    · exact hp m (Props.mem_values.mpr (Or.inr (Or.inr (Or.inr hm))))
  have values : ∀ s ∈ sortedIndex p.index, Q s.value :=
    fun s hs => hp _ (Props.mem_values_of_index (index s hs)).2
  have start : Draft.Holds Q ⟨{ p with index := sortedIndex p.index }, .none⟩ := sorted
  refine Attempt.Ensures.bind (.lift (narrowAll_inherits keeps values start)) fun d hd => ?_
  refine Attempt.Ensures.bind (.lift (refuteRequired_inherits keeps.never hd)) fun d hd => ?_
  exact .ite (fun _ => .pure hd) fun _ => .throw trivial

theorem meetProps_inherits {p q : Props Node} (hp : ∀ m ∈ p.values, Q m)
    (hq : ∀ m ∈ q.values, Q m) :
    Attempt.Ensures j (meetProps meet p q) (fun q => ∀ m ∈ q.values, Q m) fun _ => True := by
  have empty : Draft.Holds Q ⟨.empty, .none⟩ := fun _ hm => absurd hm List.not_mem_nil
  have signatures {p : Props Node} (hp : ∀ m ∈ p.values, Q m) :
      ∀ s ∈ p.index, Q s.key ∧ Q s.value :=
    fun s hs => ⟨hp _ (Props.mem_values_of_index hs).1, hp _ (Props.mem_values_of_index hs).2⟩
  refine Attempt.Ensures.bind (.lift (meetKeys_inherits keeps hp hq empty _)) fun named hn => ?_
  refine Attempt.Ensures.bind (.lift (meetIndex_inherits keeps (signatures hp) (signatures hq)))
    fun index hi => ?_
  have indexed : Draft.Holds Q { named with props := { named.props with index := index } } := by
    intro m hm
    rcases Props.mem_values.mp hm with hm | hm | ⟨s, hs, rfl | rfl⟩ | hm
    · exact hn m (Props.mem_values.mpr (Or.inl hm))
    · exact hn m (Props.mem_values.mpr (Or.inr (Or.inl hm)))
    · exact (hi s hs).1
    · exact (hi s hs).2
    · exact hn m (Props.mem_values.mpr (Or.inr (Or.inr (Or.inr hm))))
  refine Attempt.Ensures.bind (.lift (meetSequence_inherits keeps hp hq indexed)) fun d hd => ?_
  have finished : Attempt.Ensures j d.finish (fun r => ∀ m ∈ r.values, Q m) fun _ => True :=
    .ite (fun _ => .pure hd) fun _ => .throw trivial
  exact finished.bind fun r hr => normalize_inherits keeps hr

end

end Properties

namespace Union

theorem mem_flatten {n : Node} {nodes : List Node} (h : n ∈ flatten nodes) :
    ∃ m ∈ nodes, n ∈ m.branches := by
  have folded (ns flat : List Node)
      (hn : n ∈ ns.foldl (fun flat n => if flat.any (·.same n) then flat else flat ++ [n])
        flat) : n ∈ flat ∨ n ∈ ns := by
    induction ns generalizing flat with
    | nil => exact Or.inl hn
    | cons m ns ih =>
      rcases ih _ hn with hn | hn
      · dsimp only at hn
        split_ifs at hn
        · exact Or.inl hn
        · rcases List.mem_append.mp hn with hn | hn
          · exact Or.inl hn
          · exact Or.inr (List.mem_singleton.mp hn ▸ List.mem_cons_self)
      · exact Or.inr (List.mem_cons_of_mem _ hn)
  rcases folded _ [] h with h | h
  · exact absurd h List.not_mem_nil
  · exact List.mem_flatMap.mp h

theorem mem_pairs {α : Type u} {as : List α} {p : α × α} (h : p ∈ pairs as) :
    p.1 ∈ as ∧ p.2 ∈ as := by
  induction as with
  | nil => cases h
  | cons a as ih =>
    rcases List.mem_append.mp h with h | h
    · obtain ⟨b, hb, rfl⟩ := List.mem_map.mp h
      exact ⟨List.mem_cons_self, List.mem_cons_of_mem _ hb⟩
    · exact ⟨List.mem_cons_of_mem _ (ih h).1, List.mem_cons_of_mem _ (ih h).2⟩

variable {Q B : Node → Prop}

variable [Library]

section

-- branches are intersected unless they are morphs
variable {meet : Meet} (met : ∀ a b, B a → B b → a.isMorph = false → b.isMorph = false →
  Attempt.Ensures j (meet a b) (fun _ => True) fun _ => True) (decides : Decides j.rep meet)
include met decides

theorem isSubtype_inherits {a b : Node} (ha : B a) (hb : B b) (plain : a.isMorph = false)
    (plain' : b.isMorph = false) :
    (isSubtype meet a b).Ensures j fun included => included = false ↔ a.Exceeds b := by
  intro events
  have lasts : (isSubtype meet a b).Ensures j fun _ => True :=
    (met a b ha hb plain plain').run_bind (fun _ _ => .pure trivial) fun _ _ => .pure trivial
  obtain ⟨-, promised⟩ := lasts events
  exact ⟨decides a b (promised .exhausted), promised⟩

theorem isIncluded_inherits (i k : Nat) {branch other : Node} (hb : B branch) (ho : B other)
    (plain : branch.isMorph = false) :
    (isIncluded meet i branch k other).Ensures j fun included => included = false →
      Spares (branch, i) (other, k) := by
  refine .ite (fun skipped => .pure fun _ => ?_) fun compared => ?_
  · simp only [Bool.or_eq_true, decide_eq_true_eq] at skipped
    exact skipped.imp_right .inl
  have plain' : other.isMorph = false := by
    simp only [Bool.or_eq_true, not_or, Bool.not_eq_true] at compared
    exact compared.2
  refine (isSubtype_inherits met decides hb ho plain plain').bind fun subtype outside => ?_
  refine .ite (fun none => .pure fun _ => ?_) fun _ => .ite (fun _ => .pure nofun) fun later => ?_
  · exact .inr (.inr (.inl (outside.mp (by simpa using none))))
  · refine (isSubtype_inherits met decides ho hb plain' plain).bind fun back outside' =>
      .pure fun notBack => ?_
    refine .inr (.inr (.inr ⟨not_lt.mp later, fun exceeds => ?_⟩))
    rw [outside'.mpr exceeds] at notBack
    cases notBack

theorem anyIncludes_inherits (i : Nat) {branch : Node} (hb : B branch)
    (plain : branch.isMorph = false) {others : List (Node × Nat)} (ho : ∀ o ∈ others, B o.1) :
    (anyIncludes meet i branch others).Ensures j fun included =>
      included = false → ∀ o ∈ others, Spares (branch, i) o := by
  induction others with
  | nil => exact .pure fun _ => List.forall_mem_nil _
  | cons o r ih =>
    rw [List.forall_mem_cons] at ho
    refine (isIncluded_inherits met decides i o.2 hb ho.1 plain).bind fun included first => ?_
    refine .ite (fun _ => .pure nofun) fun none => (ih ho.2).mono fun _ rest none' => ?_
    exact List.forall_mem_cons.mpr ⟨first (Bool.eq_false_iff.mpr none), rest none'⟩

/-- What is kept are the branches that are not dropped for any other. -/
theorem reduce_inherits {all branches : List (Node × Nat)} (hall : ∀ b ∈ all, B b.1)
    (hb : ∀ b ∈ branches, B b.1) :
    (reduce meet all branches).Ensures j (Spared all branches) := by
  induction branches with
  | nil => exact .pure ⟨[], List.Sublist.refl _, rfl, List.forall_mem_nil _⟩
  | cons b r ih =>
    rw [List.forall_mem_cons] at hb
    have rest {included : Bool}
        (spares : included = false → b.1.isMorph = true ∨ ∀ o ∈ all, Spares b o) :
        Traced.Ensures j (do
          let kept ← reduce meet all r
          return if included then kept else b.1 :: kept) (Spared all (b :: r)) := by
      refine (ih hb.2).bind fun kept hk => .pure ?_
      obtain ⟨spared, fewer, rfl, others⟩ := hk
      cases included with
      | true => exact ⟨spared, fewer.cons b, rfl, others⟩
      | false =>
        exact ⟨b :: spared, fewer.cons_cons b, rfl,
          List.forall_mem_cons.mpr ⟨spares rfl, others⟩⟩
    refine .ite (fun morph => rest fun _ => .inl morph) fun plain => ?_
    exact (anyIncludes_inherits met decides b.2 hb.1 (Bool.eq_false_iff.mpr plain) hall).bind
      fun included spares => rest fun none => .inr (spares none)

theorem of_inherits (only : ∀ n, B n → Q n)
    (united : ∀ kept, (∀ n ∈ kept, B n) → Constraint.IsNormal (.union kept) →
      (Traced.build (.of (.union kept))).Ensures j Q)
    {nodes : List Node} (hn : ∀ n ∈ nodes, ∀ b ∈ n.branches, B b) :
    (of meet nodes).Ensures j Q := by
  have flat : ∀ b ∈ (flatten nodes).zipIdx, B b.1 := by
    intro b hb
    obtain ⟨m, hm, hb⟩ := mem_flatten (List.fst_mem_of_mem_zipIdx hb)
    exact hn m hm _ hb
  refine (reduce_inherits met decides flat flat).bind fun kept hk => ?_
  have noted : (Traced.emit (.reduced (flatten nodes) kept)).Ensures j fun _ => True :=
    .emit (by exact trivial) fun _ => trivial
  have branches : ∀ n ∈ kept, B n := by
    intro n hn
    obtain ⟨b, hb, rfl⟩ := hk.mem n hn
    exact flat b hb
  refine noted.bind fun _ _ => ?_
  split
  · exact .pure (only _ (branches _ List.mem_cons_self))
  · rename_i several
    exact united _ branches ⟨fun one => (List.length_eq_one_iff.mp one).elim several,
      hk.pairwise (flatten_pairwise nodes)⟩

end

end Union

namespace Node

/-- How often unions and morphs can be taken off a node before the next property set. -/
def layers (n : Node) (i : Nat) : Nat := 2 * i + n.constraint.isUnion.toNat

theorem layers_eq_add (n : Node) (i : Nat) : n.layers i = 2 * i + n.constraint.isUnion.toNat := rfl

theorem layers_le (n : Node) (i : Nat) : n.layers i ≤ 2 * i + 1 :=
  Nat.add_le_add_left (Bool.toNat_le _) _

end Node

variable {depth k i i' budget : Nat}

/-- Nodes within the budget are intersected to a node of the tier of both. -/
def Meet.Copes (j : Judging) (depth budget : Nat) (meet : Meet) : Prop :=
  ∀ k i i' l r, i ≤ depth → i' ≤ depth → j.Tier depth k i l → j.Tier depth k i' r →
    k * (4 * depth + 3) + (l.layers i + r.layers i') < budget →
    Attempt.Ensures j (meet l r) (j.Tier depth k (max i i')) fun _ => True

theorem Judging.Tier.weaken {n : Node} (h : j.Tier depth k i n) (more : i ≤ i') :
    j.Tier depth k i' n :=
  ⟨h.1, h.2.mono (Nat.le_refl _) (Nat.le_refl _) more⟩

variable [Library]

section

variable (h : Inherited j.holds) {meet : Meet} (met : meet.Copes j depth budget)
include h met

/-- Behind a property set the budget for its values is still there. -/
theorem Meet.Copes.keeps (pos : 0 < k) (enough : k * (4 * depth + 3) ≤ budget) :
    meet.Keeps j (j.Tier depth (k - 1) depth) where
  met l r hl hr := by
    have left := l.layers_le depth
    have right := r.layers_le depth
    obtain ⟨k, rfl⟩ := Nat.exists_eq_succ_of_ne_zero pos.ne'
    rw [Nat.succ_mul] at enough
    have copes := met k depth depth l r (Nat.le_refl _) (Nat.le_refl _) hl hr (by omega)
    rwa [max_self] at copes
  never := Traced.leaf_tier (Traced.never_holds h) rfl nofun
  listed s hs := by
    have values : ∀ m ∈ (Props.ofSequence s).values, j.holds m := by
      simpa [Props.ofSequence, Props.values, Props.empty, Entries.values] using fun m hm =>
        (hs m hm).1
    exact (Traced.build_same (Traced.props_holds h values)).mono fun _ _ => trivial

theorem union_tier (decides : Union.Decides j.rep meet) (pos : k * (4 * depth + 3) < budget)
    {nodes : List Node} (hn : ∀ n ∈ nodes, j.Tier depth k i n) :
    (Union.of meet nodes).Ensures j (j.Tier depth k i) := by
  let B (n : Node) : Prop := j.Tier depth k i n ∧ n.constraint.isUnion = false
  have plain {n : Node} (hb : B n) (plain : n.isMorph = false) : j.Tier depth k 0 n :=
    ⟨hb.1.1, (h.reduced n hb.1.1).fits_plain hb.2 plain hb.1.2⟩
  refine Union.of_inherits (B := B) (fun a b ha hb morph morph' => ?_) decides (fun n hb => hb.1)
    (fun kept hk normal => ?_) fun n hm b hb => ?_
  · have layers {n : Node} (hb : B n) : n.layers 0 = 0 := by rw [Node.layers, hb.2]; rfl
    refine Attempt.Ensures.mono (met k 0 0 a b (Nat.zero_le _) (Nat.zero_le _) (plain ha morph)
      (plain hb morph') ?_) (fun _ _ => trivial) fun _ _ => trivial
    rw [layers ha, layers hb]
    exact pos
  · refine Traced.build_tier
      ⟨h.built _ nofun (fun b hb => (hk b hb).2) normal fun b hb => (hk b hb).1.1, ?_⟩
    exact Node.fits_union.mpr fun b hb => (hk b hb).1.2
  · refine ⟨⟨h.branches (hn n hm).1 b hb, ?_⟩,
      (h.reduced n (hn n hm).1).isUnion_of_branch hb⟩
    have fits := (hn n hm).2
    obtain ⟨c⟩ := n
    cases c with
    | union branches => exact Node.fits_union.mp fits b hb
    | _ => exact List.mem_singleton.mp hb ▸ fits

omit h met in
theorem branches_tier (h : Inherited j.holds) {n b : Node} (hn : j.Tier depth k i n)
    (hb : b ∈ n.branches) :
    j.Tier depth k i b ∧ b.layers i + n.constraint.isUnion.toNat ≤ n.layers i := by
  have single := (h.reduced n hn.1).isUnion_of_branch hb
  refine ⟨⟨h.branches hn.1 b hb, ?_⟩, ?_⟩
  · obtain ⟨c⟩ := n
    cases c with
    | union branches => exact Node.fits_union.mp hn.2 b hb
    | _ => exact List.mem_singleton.mp hb ▸ hn.2
  · rw [Node.layers, Node.layers, single]
    exact Nat.le_refl _

omit [Library] in
omit h met in
theorem meetAll_inherits {Q : Node → Prop} {ps : List (Node × Node)}
    (hp : ∀ p ∈ ps, Attempt.Ensures j (meet p.1 p.2) Q fun _ => True) :
    (meetAll meet ps).Ensures j fun outcomes => ∀ n, .ok n ∈ outcomes → Q n := by
  induction ps with
  | nil => exact .pure fun _ h => absurd h List.not_mem_nil
  | cons p r ih =>
    rw [List.forall_mem_cons] at hp
    have first : Traced.Ensures j (meet p.1 p.2).run fun o => ∀ n, .ok n = o → Q n := by
      refine Traced.Ensures.mono hp.1 fun o ho n hn => ?_
      cases hn
      exact ho
    refine first.bind fun o ho => (ih hp.2).bind fun outcomes hr => .pure fun n hn => ?_
    rcases List.mem_cons.mp hn with hn | hn
    · exact ho n hn
    · exact hr n hn

theorem distribute_tier (decides : Union.Decides j.rep meet) {l r : Node} (small : i ≤ depth)
    (small' : i' ≤ depth) (hl : j.Tier depth k i l) (hr : j.Tier depth k i' r)
    (some_union : l.constraint.isUnion = true ∨ r.constraint.isUnion = true)
    (enough : k * (4 * depth + 3) + (l.layers i + r.layers i') < budget + 1) :
    Attempt.Ensures j (distribute meet l r) (j.Tier depth k (max i i')) fun _ => True := by
  have fewer : 0 < l.constraint.isUnion.toNat + r.constraint.isUnion.toNat := by
    rcases some_union with union | union <;> rw [union, Bool.toNat_true] <;> omega
  have pairs {a b : Node} (ha : a ∈ l.branches) (hb : b ∈ r.branches) :
      Attempt.Ensures j (meet a b) (j.Tier depth k (max i i')) (fun _ => True) ∧
        Attempt.Ensures j (meet b a) (j.Tier depth k (max i i')) fun _ => True := by
    obtain ⟨left, layers⟩ := branches_tier h hl ha
    obtain ⟨right, layers'⟩ := branches_tier h hr hb
    have swapped := met k i' i b a small' small right left (by omega)
    rw [max_comm] at swapped
    exact ⟨met k i i' a b small small' left right (by omega), swapped⟩
  have operands : ∀ sides : List Node × List Node,
      sides = (if r.key < l.key then (r.branches, l.branches) else (l.branches, r.branches)) →
      ∀ p ∈ sides.1.flatMap fun a => sides.2.map (a, ·),
        Attempt.Ensures j (meet p.1 p.2) (j.Tier depth k (max i i')) fun _ => True := by
    rintro _ rfl p hp
    obtain ⟨a, ha, hp⟩ := List.mem_flatMap.mp hp
    obtain ⟨b, hb, rfl⟩ := List.mem_map.mp hp
    split_ifs at ha hb
    · exact (pairs hb ha).2
    · exact (pairs ha hb).1
  refine Attempt.Ensures.bind (.lift (meetAll_inherits (operands _ rfl))) fun outcomes ho => ?_
  have found : ∀ n ∈ outcomes.filterMap fun o => o.toOption.filter (!·.isNever),
      j.Tier depth k (max i i') n := by
    intro n hn
    obtain ⟨o, hmem, hn⟩ := List.mem_filterMap.mp hn
    obtain ⟨hn, -⟩ := Option.filter_eq_some_iff.mp hn
    cases o with
    | error d => cases hn
    | ok m =>
      cases hn
      exact ho n hmem
  refine Attempt.Ensures.ite (fun _ => .throw_bind trivial) fun _ =>
    .lift (union_tier h met decides ?_ found)
  have one := l.layers_eq_add i
  have other := r.layers_eq_add i'
  omega

omit met in
theorem morph_tier {input : Node} (pos : 0 < i) (hi : j.Tier depth k (i - 1) input)
    (steps : List Step) : (Traced.morph input steps).Ensures j (j.Tier depth k i) := by
  refine .ite (fun _ => .pure (hi.weaken (Nat.sub_le i 1))) fun _ => Traced.build_tier ⟨?_, ?_⟩
  · exact h.built _ nofun trivial trivial (List.forall_mem_singleton.mpr hi.1)
  · exact Node.fits_morph.mpr ⟨pos, hi.2⟩

omit met in
theorem input_tier {input : Node} {steps : List Step}
    (hn : j.Tier depth k i (.of (.morph input steps))) : 0 < i ∧ j.Tier depth k (i - 1) input ∧
      input.layers (i - 1) < Node.layers (.of (.morph input steps)) i := by
  obtain ⟨pos, fits⟩ := Node.fits_morph.mp hn.2
  refine ⟨pos, ⟨h.children _ hn.1 input List.mem_cons_self, fits⟩, ?_⟩
  have within := input.layers_le (i - 1)
  have all : Node.layers (.of (.morph input steps)) i = 2 * i := rfl
  omega

omit met in
theorem plain_tier {n : Node} (hn : j.Tier depth k i n) (single : n.constraint.isUnion = false)
    (plain : n.isMorph = false) : j.Tier depth k 0 n ∧ n.layers 0 ≤ n.layers i :=
  ⟨⟨hn.1, (h.reduced n hn.1).fits_plain single plain hn.2⟩, by
    rw [Node.layers_eq_add, Node.layers_eq_add]
    omega⟩

omit met in
theorem conjuncts_single {n m : Node} (hn : j.Tier depth k i n)
    (single : n.constraint.isUnion = false) (plain : n.isMorph = false) (hm : m ∈ n.conjuncts) :
    j.Single depth k i m := by
  refine ⟨⟨h.conjuncts hn.1 m hm, ?_⟩,
    (h.reduced n hn.1).isComposite_of_conjunct single plain hm⟩
  obtain ⟨c⟩ := n
  cases c with
  | intersection children => exact Node.fits_intersection.mp hn.2 m hm
  | _ => exact List.mem_singleton.mp hm ▸ hn.2

/-- Conjuncts of nodes that are neither unions nor morphs are merged into one node. -/
theorem conjoin_tier {l r : Node} (hl : j.Tier depth k i l) (hr : j.Tier depth k i r)
    (single : l.constraint.isUnion = false) (single' : r.constraint.isUnion = false)
    (plain : l.isMorph = false) (plain' : r.isMorph = false)
    (enough : k * (4 * depth + 3) ≤ budget) : Attempt.Ensures j (do
      let children ←
        Conjunction.addAll (Pairing.of meet (Properties.meetProps meet)) l.conjuncts r.conjuncts
      Traced.intersection children) (j.Tier depth k i) fun _ => True := by
  have props : Pairing.KeepsProps j depth k (Properties.meetProps meet) := fun p q pos hp hq =>
    Properties.meetProps_inherits (met.keeps h pos enough) hp hq
  have start : Conjunction.Kept (j.Single depth k i) l.conjuncts :=
    ⟨fun m hm => conjuncts_single h hl single plain hm, (h.reduced l hl.1).conjuncts_pairwise⟩
  have pairs : Conjunction.Keeps j (j.Single depth k i)
      (Pairing.of meet (Properties.meetProps meet)) :=
    fun _ _ hl hr => Pairing.of_keeps hl hr hl.2 hr.2 (Pairing.refinements_keeps h props hl hr)
  refine (Conjunction.addAll_keeps pairs
    (fun m hm => conjuncts_single h hr single' plain' hm) start).bind fun children hc => .lift ?_
  refine Traced.intersection_ensures (fun m hm => (hc.1 m hm).1) hc.2
    fun members sub apart normal => ?_
  refine Traced.build_tier
    ⟨h.built _ nofun ⟨fun m hm => (hc.1 m (sub hm)).2, apart⟩ normal fun m hm => ?_, ?_⟩
  · exact (hc.1 m (sub hm)).1.1
  · exact Node.fits_intersection.mpr fun m hm => (hc.1 m (sub hm)).1.2

theorem meetStep_copes (decides : Union.Decides j.rep meet) :
    Meet.Copes j depth (budget + 1) (meetStep meet) := by
  intro k i i' l r small small' hl hr enough
  obtain ⟨a⟩ := l
  obtain ⟨b⟩ := r
  refine Attempt.Ensures.ite (fun _ => .pure (hl.weaken (le_max_left i i'))) fun _ =>
    Attempt.Ensures.ite
    (fun _ => .lift (Traced.leaf_tier (Traced.never_holds h) rfl nofun)) fun _ => ?_
  split
  · rename_i branches ha
    exact distribute_tier h met decides small small' hl hr (Or.inl (Node.isUnion_of_eq ha)) enough
  · rename_i branches hb _
    exact distribute_tier h met decides small small' hl hr (Or.inr (Node.isUnion_of_eq hb)) enough
  · rename_i x steps y others ha hb
    cases ha
    cases hb
    obtain ⟨pos, left, layers⟩ := input_tier h hl
    obtain ⟨-, right, layers'⟩ := input_tier h hr
    refine Attempt.Ensures.ite (fun _ => .throw_bind trivial) fun _ => ?_
    refine (met k (i - 1) (i' - 1) x y (by omega) (by omega) left right (by omega)).bind
      fun n hn => .lift ?_
    exact morph_tier h (by omega) (hn.weaken (by omega)) steps
  · rename_i x steps ha notUnion notMorph
    cases ha
    obtain ⟨pos, left, layers⟩ := input_tier h hl
    obtain ⟨right, fewer⟩ :=
      plain_tier h hr (Node.isUnion_eq_false notUnion) (Node.isMorph_eq_false notMorph)
    refine (met k (i - 1) 0 x (.of b) (by omega) (Nat.zero_le _) left right (by omega)).bind
      fun n hn => .lift ?_
    exact (morph_tier h pos (hn.weaken (by omega)) steps).mono fun m hm =>
      hm.weaken (le_max_left i i')
  · rename_i y steps hb notUnion notMorph
    cases hb
    obtain ⟨pos, right, layers⟩ := input_tier h hr
    obtain ⟨left, fewer⟩ :=
      plain_tier h hl (Node.isUnion_eq_false notUnion) (Node.isMorph_eq_false notMorph)
    refine (met k 0 (i' - 1) (.of a) y (Nat.zero_le _) (by omega) left right (by omega)).bind
      fun n hn => .lift ?_
    exact (morph_tier h pos (hn.weaken (by omega)) steps).mono
      fun m hm => hm.weaken (le_max_right i i')
  · rename_i notUnion notMorph notUnion' notMorph' _
    exact conjoin_tier h met (hl.weaken (le_max_left i i')) (hr.weaken (le_max_right i i'))
      (Node.isUnion_eq_false notUnion) (Node.isUnion_eq_false notUnion')
        (Node.isMorph_eq_false notMorph) (Node.isMorph_eq_false notMorph') (by omega)

end

theorem meetUpTo_copes (h : Inherited j.holds) (depth budget : Nat) :
    Meet.Copes j depth budget (meetUpTo budget) := by
  induction budget with
  | zero => exact fun _ _ _ _ _ _ _ _ _ enough => absurd enough (Nat.not_lt_zero _)
  | succ budget ih => exact meetStep_copes h ih (Union.meetUpTo_decides j.faithful budget)

/-- The budget is enough for reduced nodes, and what is made of them is reduced. -/
theorem meet_inherits (h : Inherited j.holds) {l r : Node} (hl : j.holds l) (hr : j.holds r) :
    Attempt.Ensures j (meet l r) j.holds fun _ => True := by
  obtain ⟨k, depth, small, fits⟩ :=
    Node.exists_fits_all fun n (_ : n ∈ [l, r]) => n.exists_fits
  simp only [List.forall_mem_cons, List.map_cons, List.map_nil, List.sum_cons,
    List.sum_nil] at small fits
  have enough : k * (4 * depth + 3) + (l.layers depth + r.layers depth) < Node.budget l r := by
    have left := l.layers_le depth
    have right := r.layers_le depth
    have nested : (k + depth) * (k + depth) ≤ (l.size + r.size) * (l.size + r.size) :=
      Nat.mul_le_mul (by omega) (by omega)
    have pos : 0 < l.size := l.size_pos
    rw [Node.budget]
    nlinarith
  refine Attempt.Ensures.mono
    (meetUpTo_copes h depth (Node.budget l r) k depth depth l r (Nat.le_refl _) (Nat.le_refl _)
      ⟨hl, fits.1⟩ ⟨hr, fits.2.1⟩ enough) (fun n hn => hn.1) fun _ _ => trivial

theorem meet_keeps (h : Inherited j.holds) : Meet.Keeps j j.holds meet where
  met _ _ hl hr := meet_inherits h hl hr
  never := Traced.build_inherits (Traced.never_holds h)
  listed s hs := by
    have values : ∀ m ∈ (Props.ofSequence s).values, j.holds m := by
      simpa [Props.ofSequence, Props.values, Props.empty, Entries.values] using hs
    exact (Traced.build_same (Traced.props_holds h values)).mono fun _ _ => trivial

theorem normalize_holds (h : Inherited j.holds) {p : Props Node}
    (hp : ∀ m ∈ p.values, j.holds m) :
    Attempt.Ensures j (normalize p) (fun q => ∀ m ∈ q.values, j.holds m) fun _ => True :=
  Properties.normalize_inherits (meet_keeps h) hp

namespace Union

section

variable {meet : Meet}

omit [Library]

theorem overlaps_inherits {a b : Node}
    (met : Attempt.Ensures j (meet a.input b.input) (fun _ => True) fun _ => True) :
    (overlaps meet a b).Ensures j fun _ => True :=
  met.run_bind (fun _ _ => .pure trivial) fun _ _ => .pure trivial

theorem firstOverlap_inherits {ps : List (Node × Node)}
    (met : ∀ p ∈ ps, Attempt.Ensures j (meet p.1.input p.2.input) (fun _ => True)
      fun _ => True) : (firstOverlap? meet ps).Ensures j fun _ => True := by
  induction ps with
  | nil => exact .pure trivial
  | cons p r ih =>
    rw [List.forall_mem_cons] at met
    refine .ite (fun _ => ?_) fun _ => ih met.2
    refine (overlaps_inherits met.1).bind fun _ _ => ?_
    exact .ite (fun _ => .pure trivial) fun _ => ih met.2

/-- A determinate union is the union, if the inputs of its branches can be intersected. -/
theorem determinate_ensures {Q : Node → Prop} {nodes : List Node}
    (united : (of meet nodes).Ensures j Q)
    (met : ∀ n, Q n → ∀ a ∈ n.branches, ∀ b ∈ n.branches,
      Attempt.Ensures j (meet a.input b.input) (fun _ => True) fun _ => True) :
    (determinate meet nodes).Ensures j fun o => ∀ n, o = .ok n → Q n := by
  refine united.bind fun n hn => ?_
  have operands : ∀ p ∈ pairs n.branches,
      Attempt.Ensures j (meet p.1.input p.2.input) (fun _ => True) fun _ => True := by
    intro p hp
    obtain ⟨first, second⟩ := mem_pairs hp
    exact met n hn p.1 first p.2 second
  refine (firstOverlap_inherits operands).bind fun o _ => ?_
  cases o with
  | some o => exact .pure fun _ h => nomatch h
  | none =>
    refine .pure fun m hm => ?_
    cases hm
    exact hn

end

section

variable (h : Inherited j.holds) {nodes : List Node} (hn : ∀ n ∈ nodes, j.holds n)
include h hn

theorem union_inherits : (union nodes).Ensures j j.holds := by
  let B (n : Node) : Prop := j.holds n ∧ n.constraint.isUnion = false
  refine of_inherits (B := B) (fun a b ha hb _ _ => ?_) (meet_decides j.faithful) (fun n hb => hb.1)
    (fun kept hk normal => ?_) fun n hm b hb => ?_
  · exact Attempt.Ensures.mono (meet_inherits h ha.1 hb.1) (fun _ _ => trivial) fun _ _ => trivial
  · exact Traced.build_inherits
      (h.built _ nofun (fun b hb => (hk b hb).2) normal fun b hb => (hk b hb).1)
  · exact ⟨h.branches (hn n hm) b hb, (h.reduced n (hn n hm)).isUnion_of_branch hb⟩

theorem determinate_inherits : (determinateUnion nodes).Ensures j fun o => ∀ n, o = .ok n →
    j.holds n := by
  refine determinate_ensures (union_inherits h hn) fun n hn a ha b hb => ?_
  exact Attempt.Ensures.mono
    (meet_inherits h (h.input (h.branches hn a ha)) (h.input (h.branches hn b hb)))
      (fun _ _ => trivial) fun _ _ => trivial

end

end Union

end SchemaAlgebra

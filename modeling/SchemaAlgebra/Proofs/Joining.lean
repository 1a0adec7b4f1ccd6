import Mathlib.Data.Prod.Lex
import SchemaAlgebra.Proofs.Commutativity

/-!
# Joining conjuncts in either order

Single constraints are paired with the same result in either order, so conjuncts are
joined in either order: literals take in what they stand beside, and everything else stays
apart or merges into what is narrower.
-/
namespace SchemaAlgebra
namespace Pairing

open Conjunction

theorem clash_single {a b : Node} {c : Clash} {d : Disjoint} (h : clashOf c a b = clash d) :
    d.isEmpty = false := by
  cases h
  rfl

theorem narrow_reasons {fits : Bool} {c : Clash} {n a b : Node} {d : Disjoint}
    (h : narrow fits c n a b = clash d) : d.isEmpty = false := by
  unfold narrow at h
  split_ifs at h
  exact clash_single h

variable [Library]

theorem fixed_reasons {a b : Node} {d : Disjoint} (h : fixed a b = clash d) :
    d.isEmpty = false := by
  unfold fixed literalBasis at h
  split at h <;> (try split_ifs at h) <;> first | exact narrow_reasons h | exact clash_single h

theorem refine_reasons {kind refinement a b : Node} {d : Disjoint}
    (h : refine kind refinement a b = clash d) : d.isEmpty = false := by
  unfold refine at h
  split at h
  · split_ifs at h
    · exact narrow_reasons h
    · exact clash_single h
  · split at h
    · split_ifs at h
      exact clash_single h
    · exact clash_single h

theorem refinements_reasons {meet : Meet} {a b : Node} {d : Disjoint}
    (h : (refinements (Properties.meetProps meet) a b).value id = clash d) : d.isEmpty = false := by
  unfold refinements at h
  split at h
  · split at h
    · cases h
    · exact clash_single h
  · split_ifs at h <;> cases h
  · cases h
  · rename_i p q _ _
    rw [value_ofAttempt, Attempt.outcome_bind] at h
    cases met : (Properties.meetProps meet p q).outcome id with
    | error e =>
      rw [met] at h
      cases h
      exact Properties.meetProps_reasons met
    | ok both =>
      rw [met] at h
      cases h
  · rw [Traced.value_pure] at h
    split_ifs at h
    exact clash_single h

theorem of_reasons {meet : Meet} {a b : Node} (single : a.constraint.isComposite = false)
    (single' : b.constraint.isComposite = false) {d : Disjoint}
    (h : (of meet (Properties.meetProps meet) a b).value id = clash d) : d.isEmpty = false := by
  unfold of at h
  simp only [single, single', Bool.or_self, Bool.false_eq_true, if_false] at h
  split_ifs at h
  · cases h
  · cases h
  · split at h
    · exact fixed_reasons h
    · exact refine_reasons h
    · exact refine_reasons h
    · exact refinements_reasons h

omit [Library] in
theorem narrow_takes (fits : Bool) (c : Clash) (n a b : Node) :
    narrow fits c n a b = merged n ∨ ∃ d, narrow fits c n a b = clash d := by
  cases fits
  · exact .inr ⟨_, rfl⟩
  · exact .inl rfl

theorem refine_takes {kind : Node} {x : Literal} (literal : kind.constraint = .literal x)
    (refinement a b : Node) :
    refine kind refinement a b = merged kind ∨ ∃ d, refine kind refinement a b = clash d := by
  simp only [refine, literal]
  split_ifs
  · exact narrow_takes _ _ _ _ _
  · exact .inr ⟨_, rfl⟩

theorem of_literal (meet : Meet) {v c : Node} {x : Literal} (literal : v.constraint = .literal x)
    (single : c.constraint.isComposite = false) (plain : c.constraint.isNominal = false) :
    (of meet (Properties.meetProps meet) v c).value id = merged v ∨
      ∃ d, (of meet (Properties.meetProps meet) v c).value id = clash d := by
  obtain ⟨v⟩ := v
  obtain ⟨c⟩ := c
  obtain rfl : v = .literal x := literal
  by_cases same : Node.same (.of (.literal x)) (.of c) = true
  · unfold of
    simp only [same, if_true]
    exact .inl rfl
  · unfold of
    simp only [same, Bool.false_eq_true, if_false]
    cases c <;> cases single <;> cases plain
    · exact narrow_takes _ _ _ _ _
    · exact narrow_takes _ _ _ _ _
    · change literalBasis _ _ _ _ _ = _ ∨ ∃ d, literalBasis _ _ _ _ _ = _
      unfold literalBasis
      split_ifs
      · exact narrow_takes _ _ _ _ _
      · exact .inr ⟨_, rfl⟩
    all_goals exact refine_takes (show Node.constraint (.of (.literal x)) = _ from rfl) (.of _) _ _

omit [Library] in
theorem narrow_alike (fits : Bool) (c c' : Clash) (n a b a' b' : Node) :
    Alike (narrow fits c n a b) (narrow fits c' n a' b') := by
  cases fits
  · trivial
  · rfl

theorem literalBasis_alike (x : Literal) (b : Basis) (n a c a' c' : Node) :
    Alike (literalBasis x b n a c) (literalBasis x b n a' c') := by
  unfold literalBasis
  split_ifs
  · exact narrow_alike _ _ _ _ _ _ _ _
  · trivial

theorem fixed_alike {a b : Node} {d d' : Domain} (hd : a.constraint.fixedDomain? = some d)
    (hd' : b.constraint.fixedDomain? = some d') : Alike (fixed a b) (fixed b a) := by
  obtain ⟨a⟩ := a
  obtain ⟨b⟩ := b
  cases a <;> cases hd <;> cases b <;> cases hd' <;>
    first
      | trivial
      | exact narrow_alike _ _ _ _ _ _ _ _
      | exact literalBasis_alike _ _ _ _ _ _ _
      | skip
  rename_i x y
  change Alike (narrow (x = y) .unit _ _ _) (narrow (y = x) .unit _ _ _)
  by_cases same : x = y
  · rw [same]
    exact narrow_alike _ _ _ _ _ _ _ _
  · rw [narrow, narrow, if_neg (by simpa using same), if_neg (by simpa using Ne.symm same)]
    trivial

theorem refine_alike (kind refinement a b a' b' : Node) :
    Alike (refine kind refinement a b) (refine kind refinement a' b') := by
  unfold refine
  split
  · split_ifs
    · exact narrow_alike _ _ _ _ _ _ _ _
    · trivial
  · split
    · split_ifs <;> trivial
    · trivial

omit [Library] in
theorem ofAttempt_alike {x y : Attempt Node}
    (h : Disjoint.told (x.outcome id) = Disjoint.told (y.outcome id)) :
    Alike ((ofAttempt x).value id) ((ofAttempt y).value id) := by
  rw [value_ofAttempt, value_ofAttempt]
  rcases Disjoint.told_cases h with ⟨n, ok, ok'⟩ | ⟨d, e, failed, failed', -⟩
  · rw [ok, ok']
    rfl
  · rw [failed, failed']
    trivial

section

variable {K : Node → Prop} (keyed : Keyed K) {meet : Meet} (commutes : meet.Commutes K)
include keyed commutes

theorem refinements_alike {a b : Node} (ha : K a) (hb : K b)
    (single : a.constraint.isComposite = false) (single' : b.constraint.isComposite = false)
    (nominal : a.constraint.isNominal = false) (nominal' : b.constraint.isNominal = false)
    (free : a.constraint.fixedDomain? = none) (free' : b.constraint.fixedDomain? = none) :
    Alike ((refinements (Properties.meetProps meet) a b).value id)
      ((refinements (Properties.meetProps meet) b a).value id) := by
  have settled := (keyed.reduced a ha).settled
  have settled' := (keyed.reduced b hb).settled
  have bare := keyed.bare a ha
  have bare' := keyed.bare b hb
  by_cases ranks : a.constraint.rank = b.constraint.rank
  · obtain ⟨a⟩ := a
    obtain ⟨b⟩ := b
    rcases Constraint.refinement_cases single nominal
      free with ⟨r, rfl⟩ | ⟨m, rfl⟩ | ⟨ps, rfl⟩ | ⟨p, rfl⟩ <;>
      rcases Constraint.refinement_cases single' nominal'
        free' with ⟨s, rfl⟩ | ⟨n, rfl⟩ | ⟨qs, rfl⟩ | ⟨q, rfl⟩ <;>
      try cases ranks
    · rw [Node.erase_of] at bare bare'
      have canonical : r.canonical = r := by injection bare with h; injection h
      have canonical' : s.canonical = s := by injection bare' with h; injection h
      rw [refinements_bound, refinements_bound,
        Range.intersect_comm settled settled' canonical canonical']
      cases s.intersect? r
      · trivial
      · exact rfl
    · rw [refinements_divisor, refinements_divisor, Nat.lcm_comm n m]
      split_ifs
      · exact rfl
      · trivial
    · exact congrArg (fun ps => Node.of (.patterns ps)) (Pattern.union_comm settled settled')
    · refine ofAttempt_alike ?_
      rw [Attempt.outcome_bind, Attempt.outcome_bind]
      exact Disjoint.told_bind (Properties.meetProps_comm commutes keyed ha hb) fun both => rfl
  · rw [refinements_other fun same => ranks same.1,
      refinements_other fun same => ranks same.1.symm]
    have common : a.constraint.refinedDomains.any b.constraint.refinedDomains.contains =
        b.constraint.refinedDomains.any a.constraint.refinedDomains.contains := by
      rw [Bool.eq_iff_iff]
      simp only [List.any_eq_true, List.contains_iff_mem]
      exact ⟨fun ⟨d, h, h'⟩ => ⟨d, h', h⟩, fun ⟨d, h, h'⟩ => ⟨d, h', h⟩⟩
    change Alike (if _ then _ else _) (if _ then _ else _)
    rw [common]
    split_ifs <;> trivial

/-- A pair of single constraints comes to the same in either order. -/
theorem of_alike {a b : Node} (ha : K a) (hb : K b) (single : a.constraint.isComposite = false)
    (single' : b.constraint.isComposite = false) :
    Alike ((of meet (Properties.meetProps meet) a b).value id)
      ((of meet (Properties.meetProps meet) b a).value id) := by
  unfold of
  rw [Node.same_comm b a]
  by_cases same : a.same b = true
  · simp only [same, if_true]
    exact (keyed.same ha hb).mp same
  · simp only [same, Bool.false_eq_true, if_false, single, single', Bool.or_self]
    rw [Bool.or_comm b.constraint.isNominal]
    split_ifs with nominal
    · trivial
    · simp only [Bool.or_eq_true, not_or, Bool.not_eq_true] at nominal
      rcases fixed : a.constraint.fixedDomain? with _ | d <;> rcases fixed' :
        b.constraint.fixedDomain? with _ | d'
      · exact refinements_alike keyed commutes ha hb single single' nominal.1 nominal.2
          fixed fixed'
      · exact refine_alike b a a b b a
      · exact refine_alike a b a b b a
      · exact fixed_alike fixed fixed'

end

end Pairing

namespace Conjunction

variable [Library]

variable {K : Node → Prop} (keyed : Keyed K) {meet : Meet} (commutes : meet.Commutes K)
include keyed

def Single (K : Node → Prop) (n : Node) : Prop := K n ∧ n.constraint.isComposite = false

include commutes in
theorem absorbing {v : Node} {x : Literal} (literal : v.constraint = .literal x) (hv : K v) :
    Absorbing (Single K) (Pairing.of meet (Properties.meetProps meet)) id v where
  plain := by rw [literal]; rfl
  same {a} _ := by
    unfold Pairing.of
    simp only [Node.same_refl, if_true]
    rfl
  nominal {a b} ha hb different nominal := by
    have unlike : a.same b = false :=
      Bool.eq_false_iff.mpr fun same => different ((keyed.same ha.1 hb.1).mp same)
    unfold Pairing.of
    simp only [unlike, ha.2, hb.2, Bool.or_self, Bool.false_eq_true, if_false]
    rw [if_pos (by simpa using nominal)]
    rfl
  literal {c} hc plain := by
    have single : v.constraint.isComposite = false := by rw [literal]; rfl
    have alike := Pairing.of_alike keyed commutes hv hc.1 single hc.2
    rcases Pairing.of_literal meet literal hc.2 plain with merged | ⟨d, clash⟩
    · rw [merged] at alike
      generalize back : (Pairing.of meet (Properties.meetProps meet) c v).value id = p at alike
      cases p with
      | merged n => exact .inl ⟨merged, congrArg Pairing.merged alike.symm⟩
      | clash e => exact alike.elim
      | irreducible => exact alike.elim
    · rw [clash] at alike
      generalize back : (Pairing.of meet (Properties.meetProps meet) c v).value id = p at alike
      cases p with
      | merged n => exact alike.elim
      | clash e =>
        exact .inr ⟨d, e, clash, rfl, Pairing.of_reasons single hc.2 clash,
          Pairing.of_reasons hc.2 single back⟩
      | irreducible => exact alike.elim

end Conjunction

namespace Conjunction

/-- No two of the nodes have the same place in the order of conjuncts. -/
def Ordered (conjuncts : List Node) : Prop :=
  ∀ a ∈ conjuncts, ∀ b ∈ conjuncts, a.constraint.rank = b.constraint.rank →
    a.key = b.key → a = b

theorem intersection_perm {as bs : List Node} (perm : as.Perm bs) (ordered : Ordered as) :
    (Traced.intersection as).value id = (Traced.intersection bs).value id := by
  have sorted : Sorting.sort Node.precedes as = Sorting.sort Node.precedes bs := by
    refine Sorting.sort_congr Node.precedes_eq perm fun a ha b hb same => ?_
    obtain ⟨rank, key⟩ := Prod.mk.inj (toLex_inj.mp same)
    exact ordered a ha b hb rank key
  by_cases single : ∃ n, as = [n]
  · obtain ⟨n, rfl⟩ := single
    rw [List.perm_singleton.mp perm.symm]
  · have single' : ¬∃ n, bs = [n] :=
      fun ⟨n, h⟩ => single ⟨n, List.perm_singleton.mp (h ▸ perm)⟩
    rw [Traced.intersection.eq_2 as fun n h => single ⟨n, h⟩,
      Traced.intersection.eq_2 bs fun n h => single' ⟨n, h⟩, sorted]

end Conjunction

theorem told_conjoin [Library] {meet : Meet} {l r : Node}
    (agree : Conjunction.Agree
      ((Conjunction.addAll (Pairing.of meet (Properties.meetProps meet)) l.conjuncts
        r.conjuncts).outcome id)
      ((Conjunction.addAll (Pairing.of meet (Properties.meetProps meet)) r.conjuncts
        l.conjuncts).outcome id))
    (ordered : ∀ cs, (Conjunction.addAll (Pairing.of meet (Properties.meetProps meet)) l.conjuncts
      r.conjuncts).outcome id = .ok cs → Conjunction.Ordered cs) :
    Disjoint.told ((conjoin meet l r).outcome id) = Disjoint.told
      ((conjoin meet r l).outcome id) := by
  rw [conjoin, conjoin, Attempt.outcome_bind, Attempt.outcome_bind]
  simp only [Attempt.outcome_monadLift]
  generalize (Conjunction.addAll _ l.conjuncts r.conjuncts).outcome id = o at agree ordered
  generalize (Conjunction.addAll _ r.conjuncts l.conjuncts).outcome id = o' at agree
  cases o <;> cases o'
  · exact congrArg Except.error (agree.1.trans agree.2.symm)
  · exact agree.elim
  · exact agree.elim
  · exact congrArg Except.ok (Conjunction.intersection_perm agree (ordered _ rfl))

namespace Pairing

/-- Conjuncts of one kind that stay side by side have different keys. -/
theorem key_ne_of_apart {a b : Node}
    (ha : ∀ n, a.constraint = .divisor n → 0 < n ∧ n < 2 ^ 64)
    (hb : ∀ n, b.constraint = .divisor n → 0 < n ∧ n < 2 ^ 64) (apart : Node.Apart a b)
    (rank : a.constraint.rank = b.constraint.rank) : a.key ≠ b.key := by
  intro key
  obtain ⟨different, -, -, kinds⟩ := apart
  rw [Bool.eq_false_iff] at different
  obtain ⟨c⟩ := a
  obtain ⟨e⟩ := b
  have leaves (left : c.children = []) (right : e.children = []) (settled : c.Settled)
      (settled' : e.Settled) : Node.same (.of c) (.of e) = true := by
    let K : Node → Prop := fun n => n = .of c ∨ n = .of e
    have keys (n : Node) (hn : K n) : n.key = Node.key (.of c) := by
      rcases hn with rfl | rfl
      · rfl
      · exact key.symm
    have distinguished : Node.Distinguished K :=
      fun a b ha hb _ => (keys a ha).trans (keys b hb).symm
    refine Node.same_of_key ?_ ?_ distinguished (.inl rfl) (.inr rfl) key
    · rintro r (h | h)
      · cases h
        exact settled
      · cases h
        exact settled'
    · rintro d (h | h) m hm
      · cases h
        rw [left] at hm
        cases hm
      · cases h
        rw [right] at hm
        cases hm
  rcases kinds with nominal | nominal | ⟨m, n, hm, hn, -⟩ | ⟨ranks, -⟩
  · cases c <;> cases nominal <;> cases e <;> cases rank <;>
      exact different (leaves rfl rfl trivial trivial)
  · cases e <;> cases nominal <;> cases c <;> cases rank <;>
      exact different (leaves rfl rfl trivial trivial)
  · cases hm
    cases hn
    exact different (leaves rfl rfl (ha m rfl) (hb n rfl))
  · exact ranks rank

end Pairing

namespace Conjunction

theorem ordered_of_pairwise {conjuncts : List Node}
    (divisors : ∀ c ∈ conjuncts, ∀ n, c.constraint = .divisor n → 0 < n ∧ n < 2 ^ 64)
    (apart : conjuncts.Pairwise Node.Apart) : Ordered conjuncts := by
  intro a ha b hb rank key
  by_contra different
  have symmetric : Std.Symm Node.Apart := ⟨fun _ _ => Node.Apart.symm⟩
  exact Pairing.key_ne_of_apart (divisors a ha) (divisors b hb)
    (apart.forall ha hb different) rank key

end Conjunction

variable [Library]

section

variable {K : Node → Prop} (keyed : Keyed K) {meet : Meet} (commutes : meet.Commutes K)
include keyed

omit [Library] in
theorem Keyed.conjuncts {n : Node} (hn : K n) : ∀ m ∈ n.conjuncts, K m := by
  obtain ⟨c⟩ := n
  cases c with
  | intersection children => exact keyed.children _ hn
  | _ => exact List.forall_mem_singleton.mpr hn

omit [Library] in
theorem Keyed.branches {n : Node} (hn : K n) : ∀ m ∈ n.branches, K m := by
  obtain ⟨c⟩ := n
  cases c with
  | union branches => exact keyed.children _ hn
  | _ => exact List.forall_mem_singleton.mpr hn

include commutes

theorem told_conjoin_of_literal {l r v : Node} {x : Literal} (hl : K l) (hr : K r)
    (single : ∀ m ∈ l.conjuncts, m.constraint.isComposite = false)
    (single' : ∀ m ∈ r.conjuncts, m.constraint.isComposite = false) (hv : v ∈ l.conjuncts)
    (literal : v.constraint = .literal x) :
    Disjoint.told ((conjoin meet l r).outcome id) = Disjoint.told
      ((conjoin meet r l).outcome id) := by
  have absorbing := Conjunction.absorbing keyed commutes literal (keyed.conjuncts hl v hv)
  have apart := (keyed.reduced l hl).conjuncts_pairwise
  have once {n : Node} (hn : K n) : n.conjuncts.Nodup := by
    refine (keyed.reduced n hn).conjuncts_pairwise.imp fun apart same => ?_
    have different := apart.1
    rw [same, Node.same_refl] at different
    cases different
  have left : ∀ m ∈ l.conjuncts, Conjunction.Single K m :=
    fun m hm => ⟨keyed.conjuncts hl m hm, single m hm⟩
  have right : ∀ m ∈ r.conjuncts, Conjunction.Single K m :=
    fun m hm => ⟨keyed.conjuncts hr m hm, single' m hm⟩
  have others : ∀ c ∈ l.conjuncts, c ≠ v → c.constraint.isNominal = true := by
    intro c hc different
    have symmetric : Std.Symm Node.Apart := ⟨fun _ _ => Node.Apart.symm⟩
    obtain ⟨-, -, -, kinds⟩ := apart.forall hc hv different
    rcases kinds with nominal | nominal | ⟨m, n, -, hn, -⟩ | ⟨-, -, plain, -⟩
    · exact nominal
    · rw [literal] at nominal
      cases nominal
    · rw [literal] at hn
      cases hn
    · rw [literal] at plain
      cases plain
  refine told_conjoin (Conjunction.addAll_comm_of_literal absorbing (left v hv) left right (once hl)
    (once hr) hv others) fun cs ok => ?_
  have taken := Conjunction.addAll_absorbed absorbing (left v hv) left (once hl) hv others right
  rw [ok] at taken
  have known (c : Node) (hc : c ∈ cs) : K c := by
    rcases taken.mem hc with hc | ⟨hc, -⟩
    · exact (left c hc).1
    · exact (right c hc).1
  exact fun a ha b hb _ key => keyed.key a b (known a ha) (known b hb) key

theorem told_conjoin_comm {l r : Node} (hl : K l) (hr : K r) (single : l.constraint.isUnion = false)
    (single' : r.constraint.isUnion = false) (plain : l.isMorph = false)
    (plain' : r.isMorph = false) :
    Disjoint.told ((conjoin meet l r).outcome id) = Disjoint.told
      ((conjoin meet r l).outcome id) := by
  have left (m : Node) (hm : m ∈ l.conjuncts) :=
    (keyed.reduced l hl).isComposite_of_conjunct single plain hm
  have right (m : Node) (hm : m ∈ r.conjuncts) :=
    (keyed.reduced r hr).isComposite_of_conjunct single' plain' hm
  have found {n : Node} : (∃ v ∈ n.conjuncts, ∃ x, v.constraint = .literal x) ∨
      ∀ v ∈ n.conjuncts, v.constraint.isLiteral = false := by
    by_cases literal : ∃ v ∈ n.conjuncts, ∃ x, v.constraint = .literal x
    · exact .inl literal
    · refine .inr fun v hv => ?_
      obtain ⟨c⟩ := v
      cases c <;> first | rfl | exact absurd ⟨_, hv, _, rfl⟩ literal
  rcases found (n := l) with ⟨v, hv, x, literal⟩ | none
  · exact told_conjoin_of_literal keyed commutes hl hr left right hv literal
  rcases found (n := r) with ⟨v, hv, x, literal⟩ | none'
  · exact (told_conjoin_of_literal keyed commutes hr hl right left hv literal).symm
  have divisor {n : Node} (hn : K n) (m : Node) (hm : m ∈ n.conjuncts) (k : Nat)
      (h : m.constraint = .divisor k) : 0 < k ∧ k < 2 ^ 64 := by
    have settled := (keyed.reduced m (keyed.conjuncts hn m hm)).settled
    rwa [h] at settled
  have regular : ∀ m ∈ l.conjuncts, Pairing.Regular m :=
    fun m hm => ⟨left m hm, none m hm, divisor hl m hm⟩
  have regular' : ∀ m ∈ r.conjuncts, Pairing.Regular m :=
    fun m hm => ⟨right m hm, none' m hm, divisor hr m hm⟩
  have apart := (keyed.reduced l hl).conjuncts_pairwise
  have orderly := Conjunction.orderly meet
  refine told_conjoin (Conjunction.addAll_comm orderly regular regular' apart
    (keyed.reduced r hr).conjuncts_pairwise
    fun a ha b hb => Pairing.of_alike keyed commutes (keyed.conjuncts hl a ha)
      (keyed.conjuncts hr b hb) (left a ha) (right b hb)) fun cs ok => ?_
  have added := Conjunction.addAll_forall (Conjunction.merges orderly) regular regular' ok
  exact Conjunction.ordered_of_pairwise (fun c hc => (added c hc).2.2)
    (Conjunction.addAll_pairwise orderly regular apart regular' ok)

end

end SchemaAlgebra

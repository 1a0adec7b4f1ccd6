import SchemaAlgebra.Proofs.Conjuncts
import SchemaAlgebra.Proofs.Inheritance
import SchemaAlgebra.Proofs.Keys

/-!
# Pairs of conjuncts

Single constraints that are not literals stay side by side exactly when they do not
reduce. What they merge into is a constraint of the same kind and domains, so it stays beside
whatever they stay beside.
-/
namespace SchemaAlgebra

theorem Binary64.eq_of_rank_eq {x y : Binary64} (hx : (x.negative && x.isZero) = false)
    (hy : (y.negative && y.isZero) = false) (h : x.rank = y.rank) : x = y := by
  have signed {x : Binary64} (regular : (x.negative && x.isZero) = false) :
      2 ^ 63 ≤ x.bits.toNat → x.bits.toNat % 2 ^ 63 ≠ 0 := by
    rw [Bool.and_eq_false_imp] at regular
    intro negative zero
    have nonzero := regular (decide_eq_true negative)
    rw [isZero, magnitude, beq_eq_false_iff_ne] at nonzero
    exact nonzero zero
  have one := signed hx
  have other := signed hy
  have small := x.bits.toNat_lt
  have small' := y.bits.toNat_lt
  obtain ⟨x⟩ := x
  obtain ⟨y⟩ := y
  simp only [rank, negative, magnitude, decide_eq_true_eq, Nat.pow_eq]
    at h one other small small' ⊢
  have same : x.toNat = y.toNat := by
    split_ifs at h <;> omega
  rw [UInt64.toNat_inj.mp same]

namespace Limit

namespace IsRegular

theorem isNaN {a : Limit} (h : a.IsRegular) : a.value.isNaN = false :=
  Binary64.isNaN_of_isFinite h.1

theorem value_eq {a b : Limit} (ha : a.IsRegular) (hb : b.IsRegular)
    (h : a.value.rank = b.value.rank) : a.value = b.value :=
  Binary64.eq_of_rank_eq ha.2 hb.2 h

end IsRegular

theorem stricter_comm {o : Ordering} (ho : o ≠ .eq) {a b : Limit} (ha : a.IsRegular)
    (hb : b.IsRegular) : a.stricter o b = b.stricter o a := by
  unfold stricter Binary64.compare?
  rw [ha.isNaN, hb.isNaN]
  rcases lt_trichotomy a.value.rank b.value.rank with less | same | more
  · simp only [Bool.or_self, Bool.false_eq_true, if_false, compare_lt_iff_lt.mpr less,
      compare_gt_iff_gt.mpr less]
    cases o <;> simp_all
  · have values := ha.value_eq hb same
    simp only [Bool.or_self, Bool.false_eq_true, if_false, compare_eq_iff_eq.mpr same,
      compare_eq_iff_eq.mpr same.symm]
    rw [values, Bool.or_comm]
  · simp only [Bool.or_self, Bool.false_eq_true, if_false, compare_lt_iff_lt.mpr more,
      compare_gt_iff_gt.mpr more]
    cases o <;> simp_all

end Limit

namespace Range

theorem limits_isRegular {r : Range} (finite : r.IsFinite) (bare : r.canonical = r) :
    (∀ a ∈ r.lower, a.IsRegular) ∧ ∀ a ∈ r.upper, a.IsRegular := by
  rw [← bare]
  constructor
  · intro a ha
    obtain ⟨x, hx, rfl⟩ := Option.map_eq_some_iff.mp ha
    exact Limit.canonical_isRegular (finite.1 x hx)
  · intro a ha
    obtain ⟨x, hx, rfl⟩ := Option.map_eq_some_iff.mp ha
    exact Limit.canonical_isRegular (finite.2 x hx)

theorem intersect_comm {r s : Range} (finite : r.IsFinite) (finite' : s.IsFinite)
    (bare : r.canonical = r) (bare' : s.canonical = s) : r.intersect? s = s.intersect? r := by
  obtain ⟨lower, upper⟩ := limits_isRegular finite bare
  obtain ⟨lower', upper'⟩ := limits_isRegular finite' bare'
  have stricter {o : Ordering} (ho : o ≠ .eq) {a b : Option Limit} (ha : ∀ x ∈ a, x.IsRegular)
      (hb : ∀ x ∈ b, x.IsRegular) : stricterOf o a b = stricterOf o b a := by
    cases a <;> cases b
    · rfl
    · rfl
    · rfl
    · exact congrArg some (Limit.stricter_comm ho (ha _ rfl) (hb _ rfl))
  rw [intersect?, intersect?, stricter (by decide) lower lower', stricter (by decide) upper upper']

end Range

theorem Pattern.union_comm {ps qs : List Pattern} (hp : ps.Nodup) (hq : qs.Nodup) :
    union ps qs = union qs ps := by
  unfold union
  refine Sorting.sort_congr (f := Pattern.source) (fun _ _ => rfl) ?_ fun p _ q _ same => ?_
  · refine (List.perm_ext_iff_of_nodup ?_ ?_).mpr fun p => ?_
    · refine List.nodup_append.mpr ⟨hp, hq.filter _, fun p hps q hqs same => ?_⟩
      subst same
      simp [hps] at hqs
    · refine List.nodup_append.mpr ⟨hq, hp.filter _, fun p hps q hqs same => ?_⟩
      subst same
      simp [hps] at hqs
    · simp only [List.mem_append, List.mem_filter, Bool.not_eq_true', List.contains_eq_mem,
        decide_eq_false_iff_not]
      tauto
  · obtain ⟨source⟩ := p
    subst same
    rfl

namespace Properties

theorem finish_reasons {d : Draft} {rep : Node → Node} {e : Disjoint}
    (h : d.finish.outcome rep = .error e) : e.isEmpty = false := by
  unfold Draft.finish at h
  split_ifs at h with empty
  · cases h
  · cases h
    exact Bool.eq_false_iff.mpr empty

theorem meetProps_reasons [Library] {meet : Meet} {p q : Props Node} {rep : Node → Node}
    {e : Disjoint} (h : (meetProps meet p q).outcome rep = .error e) : e.isEmpty = false := by
  rw [outcome_meetProps] at h
  generalize found : ((meetSequence meet p q _).value rep).finish.outcome rep = o at h
  cases o with
  | error d =>
    cases h
    exact finish_reasons found
  | ok both =>
    rw [Except.bind, normalize] at h
    simp only [Attempt.outcome_bind, Attempt.outcome_monadLift, Except.bind] at h
    exact finish_reasons h

end Properties

namespace Pairing

/-- A single constraint that is not a literal, with a divisor within its limits. -/
def Regular (n : Node) : Prop :=
  n.constraint.isComposite = false ∧ n.constraint.isLiteral = false ∧
    ∀ k, n.constraint = .divisor k → 0 < k ∧ k < 2 ^ 64

/-- A constraint of the same kind and the same domains; a divisor is a multiple. -/
structure Narrows (n a : Node) : Prop where
  nominal : a.constraint.isNominal = false ∧ n.constraint.isNominal = false
  rank : n.constraint.rank = a.constraint.rank
  domains : n.constraint.domains = a.constraint.domains
  divisor : ∀ k, a.constraint = .divisor k → ∃ m, n.constraint = .divisor m ∧ k ∣ m

/-- What stays beside a constraint stays beside what narrows it. -/
theorem Narrows.apart {n a x : Node} (h : Narrows n a) (hx : Regular x) (hn : Regular n)
    (apart : Node.Apart x a) : Node.Apart x n := by
  obtain ⟨different, left, right, cases⟩ := apart
  have unlike (h : x.constraint.head ≠ n.constraint.head) : x.same n = false :=
    Bool.eq_false_iff.mpr fun same => h (Node.head_of_same same)
  rcases cases with nominal | nominal | ⟨k, m, hk, hm, large⟩ | ⟨ranks, literal, -, d,
    hd, hd'⟩
  · refine ⟨unlike fun same => ?_, left, hn.1, .inl nominal⟩
    have marked := h.nominal.2
    rw [← Constraint.isNominal_head, ← same, Constraint.isNominal_head, nominal] at marked
    cases marked
  · rw [h.nominal.1] at nominal
    cases nominal
  · obtain ⟨m', hm', divides⟩ := h.divisor m hm
    have larger : 2 ^ 64 ≤ Nat.lcm k m' :=
      large.trans (Nat.le_of_dvd (Nat.lcm_pos (hx.2.2 k hk).1 (hn.2.2 m' hm').1)
        (Nat.lcm_dvd (Nat.dvd_lcm_left k m') (divides.trans (Nat.dvd_lcm_right k m'))))
    refine ⟨unlike fun same => ?_, left, hn.1, .inr (.inr (.inl ⟨k, m', hk, hm', larger⟩))⟩
    rw [hk, hm'] at same
    have equal : k = m' := by simpa [Constraint.head, Constraint.erased, Constraint.map] using same
    rw [← equal, Nat.lcm_self] at larger
    exact absurd (hx.2.2 k hk).2 (not_lt.mpr larger)
  · refine ⟨unlike fun same => ranks ?_, left, hn.1,
      .inr (.inr (.inr ⟨?_, literal, hn.2.1, d, hd, ?_⟩))⟩
    · rw [← h.rank, ← Constraint.rank_head, same, Constraint.rank_head]
    · exact h.rank ▸ ranks
    · exact h.domains ▸ hd'

theorem fixed_cases {c : Constraint Node} {d : Domain} (fixed : c.fixedDomain? = some d)
    (literal : c.isLiteral = false) :
    c = .domain d ∨ ∃ b : Basis, c = .basis b ∧ b.domain = d := by
  cases c <;> simp_all [Constraint.fixedDomain?, Constraint.isLiteral]

def Comes (a b : Node) : Pairing → Prop
  | merged n => (n = a ∧ a.same b = true) ∨ (Regular n ∧ Narrows n a ∧ Narrows n b)
  | clash d => d.isEmpty = false
  | irreducible => Node.Apart a b

theorem Comes.symm {a b : Node} {p : Pairing} (ha : Comes a b p) (different : a.same b = false) :
    Comes b a p := by
  cases p with
  | merged n =>
    rcases ha with ⟨-, same⟩ | ⟨hn, left, right⟩
    · rw [different] at same
      cases same
    · exact .inr ⟨hn, right, left⟩
  | clash d => exact ha
  | irreducible => exact Node.Apart.symm ha

variable [Library]

theorem fixed_comes {a b : Node} (ha : Regular a) (hb : Regular b) {d d' : Domain}
    (hd : a.constraint.fixedDomain? = some d) (hd' : b.constraint.fixedDomain? = some d') :
    Comes a b (fixed a b) := by
  obtain ⟨a⟩ := a
  obtain ⟨b⟩ := b
  rcases fixed_cases hd ha.2.1 with rfl | ⟨x, rfl, rfl⟩ <;>
    rcases fixed_cases hd' hb.2.1 with rfl | ⟨y, rfl, rfl⟩
  · rfl
  · change Comes _ _ (narrow (y.domain = d) .domain _ _ _)
    by_cases fits : y.domain = d
    · rw [narrow, if_pos (decide_eq_true fits)]
      refine .inr ⟨hb, ⟨⟨rfl, rfl⟩, rfl, ?_, nofun⟩,
        ⟨⟨rfl, rfl⟩, rfl, rfl, nofun⟩⟩
      subst fits
      rfl
    · rw [narrow, if_neg (by simpa using fits)]
      rfl
  · change Comes _ _ (narrow (x.domain = d') .domain _ _ _)
    by_cases fits : x.domain = d'
    · rw [narrow, if_pos (decide_eq_true fits)]
      refine .inr ⟨ha, ⟨⟨rfl, rfl⟩, rfl, rfl, nofun⟩,
        ⟨⟨rfl, rfl⟩, rfl, ?_, nofun⟩⟩
      subst fits
      rfl
    · rw [narrow, if_neg (by simpa using fits)]
      rfl
  · rfl

theorem refine_eq {kind refinement : Node} {d : Domain}
    (fixed : kind.constraint.fixedDomain? = some d) (literal : kind.constraint.isLiteral = false)
    (a b : Node) : refine kind refinement a b =
      if refinement.constraint.refinedDomains.contains d then irreducible else clashOf
        .domain a b := by
  obtain ⟨c⟩ := kind
  rcases fixed_cases fixed literal with rfl | ⟨x, rfl, rfl⟩ <;> rfl

theorem refine_comes {kind refinement : Node} (hk : Regular kind) (hr : Regular refinement)
    (different : kind.same refinement = false) {d : Domain}
    (fixed : kind.constraint.fixedDomain? = some d) (a b : Node) :
    Comes kind refinement (refine kind refinement a b) := by
  have keeps := refine_keeps (Q := fun _ => True) trivial different hk.1 hr.1 a b
  rw [refine_eq fixed hk.2.1] at keeps ⊢
  split_ifs with within
  · rwa [if_pos within] at keeps
  · rfl

theorem refinements_comes {meet : Meet} {a b : Node} (ha : Regular a)
    (hb : Regular b) (different : a.same b = false) (nominal : a.constraint.isNominal = false)
    (nominal' : b.constraint.isNominal = false) (free : a.constraint.fixedDomain? = none)
    (free' : b.constraint.fixedDomain? = none) :
    Comes a b ((refinements (Properties.meetProps meet) a b).value id) := by
  by_cases ranks : a.constraint.rank = b.constraint.rank
  · obtain ⟨a⟩ := a
    obtain ⟨b⟩ := b
    rcases Constraint.refinement_cases ha.1 nominal
      free with ⟨r, rfl⟩ | ⟨m, rfl⟩ | ⟨ps, rfl⟩ | ⟨p, rfl⟩ <;>
      rcases Constraint.refinement_cases hb.1 nominal'
        free' with ⟨s, rfl⟩ | ⟨n, rfl⟩ | ⟨qs, rfl⟩ | ⟨q, rfl⟩ <;>
      try cases ranks
    · rw [refinements_bound]
      cases r.intersect? s with
      | none => exact rfl
      | some both =>
        exact .inr ⟨⟨rfl, rfl, nofun⟩, ⟨⟨rfl, rfl⟩, rfl, rfl, nofun⟩,
          ⟨⟨rfl, rfl⟩, rfl, rfl, nofun⟩⟩
    · rw [refinements_divisor]
      have positive := Nat.lcm_pos (ha.2.2 m rfl).1 (hb.2.2 n rfl).1
      split_ifs with small
      · refine .inr ⟨⟨rfl, rfl, ?_⟩, ⟨⟨rfl, rfl⟩, rfl, rfl, ?_⟩,
          ⟨⟨rfl, rfl⟩, rfl, rfl, ?_⟩⟩
        · intro k same
          cases same
          exact ⟨positive, small⟩
        · intro k same
          cases same
          exact ⟨_, rfl, Nat.dvd_lcm_left m n⟩
        · intro k same
          cases same
          exact ⟨_, rfl, Nat.dvd_lcm_right m n⟩
      · exact ⟨different, rfl, rfl, .inr (.inr (.inl ⟨m, n, rfl, rfl, not_lt.mp small⟩))⟩
    · exact .inr ⟨⟨rfl, rfl, nofun⟩, ⟨⟨rfl, rfl⟩, rfl, rfl, nofun⟩,
        ⟨⟨rfl, rfl⟩, rfl, rfl, nofun⟩⟩
    · change Comes _ _ ((ofAttempt do
        let both ← Properties.meetProps meet p q
        Traced.props both).value id)
      rw [value_ofAttempt, Attempt.outcome_bind]
      cases met : (Properties.meetProps meet p q).outcome id with
      | error e => exact Properties.meetProps_reasons met
      | ok both =>
        exact .inr ⟨⟨rfl, rfl, nofun⟩, ⟨⟨rfl, rfl⟩, rfl, rfl, nofun⟩,
          ⟨⟨rfl, rfl⟩, rfl, rfl, nofun⟩⟩
  · rw [refinements_other (fun same => ranks same.1)]
    change Comes _ _ (if _ then _ else _)
    split_ifs with common
    · obtain ⟨d, hd, hd'⟩ := List.any_eq_true.mp common
      have mem := List.contains_iff_mem.mp hd'
      obtain ⟨-, literal, domains⟩ := Constraint.rank_of_refinedDomains hd
      obtain ⟨-, literal', domains'⟩ := Constraint.rank_of_refinedDomains mem
      exact ⟨different, ha.1, hb.1,
        .inr (.inr (.inr ⟨ranks, literal, literal', d, domains ▸ hd, domains' ▸ mem⟩))⟩
    · exact rfl

/-- Regular constraints stay side by side, clash for a reason, or merge into one that narrows both.
-/
theorem of_comes (meet : Meet) {a b : Node} (ha : Regular a) (hb : Regular b) :
    Comes a b ((of meet (Properties.meetProps meet) a b).value id) := by
  unfold of
  by_cases different : a.same b = true
  · simp only [different, if_true]
    exact .inl ⟨rfl, different⟩
  rw [Bool.not_eq_true] at different
  simp only [different, Bool.false_eq_true, if_false, ha.1, hb.1, Bool.or_self]
  split_ifs with nominal
  · refine ⟨different, ha.1, hb.1, ?_⟩
    rcases Bool.or_eq_true_iff.mp nominal with nominal | nominal
    · exact .inl nominal
    · exact .inr (.inl nominal)
  · simp only [Bool.or_eq_true, not_or, Bool.not_eq_true] at nominal
    split
    · exact fixed_comes ha hb ‹_› ‹_›
    · exact refine_comes ha hb different ‹_› a b
    · rw [Node.same_comm] at different
      exact (refine_comes hb ha different ‹_› a b).symm different
    · exact refinements_comes ha hb different nominal.1 nominal.2 ‹_› ‹_›

theorem of_apart (meet : Meet) {a b : Node} (apart : Node.Apart a b) :
    (of meet (Properties.meetProps meet) a b).value id = irreducible := by
  obtain ⟨different, single, single', cases⟩ := apart
  unfold of
  simp only [different, Bool.false_eq_true, if_false, single, single', Bool.or_self]
  by_cases nominal : (a.constraint.isNominal || b.constraint.isNominal) = true
  · rw [if_pos nominal]
    rfl
  · rw [if_neg nominal]
    simp only [Bool.or_eq_true, not_or, Bool.not_eq_true] at nominal
    rcases cases with marked | marked | ⟨m, n, hm, hn, large⟩ | ⟨ranks, literal, literal', d,
      hd, hd'⟩
    · rw [nominal.1] at marked
      cases marked
    · rw [nominal.2] at marked
      cases marked
    · obtain ⟨a⟩ := a
      obtain ⟨b⟩ := b
      cases hm
      cases hn
      change (if Nat.lcm m n < Nat.pow 2 64 then merged <$> Traced.divisor (Nat.lcm m n)
        else pure irreducible : Traced Pairing).value id = _
      have overflows : ¬Nat.lcm m n < Nat.pow 2 64 := not_lt.mpr large
      rw [if_neg overflows]
      rfl
    · split
      · rename_i fixed fixed'
        rw [(Constraint.rank_of_fixedDomain fixed).1,
          (Constraint.rank_of_fixedDomain fixed').1] at ranks
        exact absurd rfl ranks
      · rename_i e fixed free
        rw [(Constraint.rank_of_fixedDomain fixed).2, List.mem_singleton] at hd
        rw [Constraint.domains, free] at hd'
        subst hd
        rw [refine_eq fixed literal]
        exact if_pos (List.contains_iff_mem.mpr hd')
      · rename_i e free fixed
        rw [(Constraint.rank_of_fixedDomain fixed).2, List.mem_singleton] at hd'
        rw [Constraint.domains, free] at hd
        subst hd'
        rw [refine_eq fixed literal']
        exact if_pos (List.contains_iff_mem.mpr hd)
      · rename_i free free'
        rw [Constraint.domains, free] at hd
        rw [Constraint.domains, free'] at hd'
        rw [refinements_other fun same => ranks same.1]
        exact if_pos (List.any_eq_true.mpr ⟨d, hd, List.contains_iff_mem.mpr hd'⟩)

end Pairing

theorem Conjunction.orderly [Library] (meet : Meet) :
    Orderly Pairing.Regular (Pairing.of meet (Properties.meetProps meet)) id where
  irreducible _ _ apart := Pairing.of_apart meet apart
  apart ha hb irreducible := by
    have comes := Pairing.of_comes meet ha hb
    rwa [irreducible] at comes
  clash ha hb clash := by
    have comes := Pairing.of_comes meet ha hb
    rwa [clash] at comes
  merged {a b n} ha hb merged := by
    have comes := Pairing.of_comes meet ha hb
    rw [merged] at comes
    rcases comes with ⟨rfl, same⟩ | ⟨hn, left, right⟩
    · exact ⟨ha, fun x _ apart => apart.elim id fun apart =>
        Node.Apart.congr (Node.same_refl x) (Node.same_symm same) apart⟩
    · exact ⟨hn, fun x hx apart => apart.elim (left.apart hx hn) (right.apart hx hn)⟩

end SchemaAlgebra

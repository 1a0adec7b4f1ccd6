import Mathlib.Data.Nat.Prime.Pow
import SchemaAlgebra.Proofs.Layout
import SchemaAlgebra.Proofs.Numbers
import SchemaAlgebra.Proofs.Soundness
import SchemaAlgebra.Standard

/-!
# Common multiples

Two divisors are merged into their least common multiple where a word of 64 bits holds it, and are
kept side by side where none does. A number is divided by what is nearest to the divisor, so the
merged divisor is exact just where rounding the least common multiple comes to the least common
multiple of what was rounded.
-/
namespace SchemaAlgebra

section

namespace Binary64

/-- The nearest number is a significand of up to 53 bits, moved up. -/
theorem exists_nearestNat (n : Nat) :
    ∃ m, m ≤ 2 ^ 53 ∧ nearestNat n = m * 2 ^ (n.log2 - 52) := by
  rcases Nat.eq_zero_or_pos n with rfl | positive
  · exact ⟨0, Nat.zero_le _, by rw [nearestNat_of_le (Nat.zero_le _), Nat.zero_mul]⟩
  have low : 2 ^ n.log2 ≤ n := Nat.log2_self_le positive.ne'
  have high : n < 2 ^ (n.log2 + 1) := Nat.lt_log2_self
  rcases Nat.lt_or_ge n.log2 52 with short | long
  · refine ⟨n, high.le.trans (Nat.pow_le_pow_right Nat.two_pos (by omega)), ?_⟩
    rw [nearestNat_of_log short.le, Nat.sub_eq_zero_of_le short.le, pow_zero, Nat.mul_one]
  · obtain ⟨k, hk⟩ := Nat.exists_eq_add_of_le long
    refine ⟨divRound n (2 ^ (n.log2 - 52)), ?_, rfl⟩
    rw [show n.log2 - 52 = k by omega]
    exact (divRound_bounds (by rwa [← hk]) (by rwa [show 53 + k = n.log2 + 1 by omega])).2

theorem nearestNat_le {n : Nat} (finite : n < 2 ^ 64) : nearestNat n ≤ 2 ^ 64 := by
  rcases Nat.eq_zero_or_pos n with rfl | positive
  · rw [nearestNat_of_le (Nat.zero_le _)]
    exact Nat.zero_le _
  have log : n.log2 < 64 := (Nat.log2_lt positive.ne').mpr finite
  obtain ⟨m, small, value⟩ := exists_nearestNat n
  rw [value]
  calc m * 2 ^ (n.log2 - 52) ≤ 2 ^ 53 * 2 ^ 11 :=
        Nat.mul_le_mul small (Nat.pow_le_pow_right Nat.two_pos (by omega))
    _ = 2 ^ 64 := by rw [← pow_add]

/-- A number of up to 53 bits, moved up, is its own nearest one. -/
theorem nearestNat_mul_two_pow {m : Nat} (small : m < 2 ^ 53) (e : Nat) :
    nearestNat (m * 2 ^ e) = m * 2 ^ e := by
  rcases Nat.eq_zero_or_pos m with rfl | positive
  · rw [Nat.zero_mul, nearestNat_of_le (Nat.zero_le _)]
  have nonzero : m * 2 ^ e ≠ 0 := (Nat.mul_pos positive (Nat.two_pow_pos e)).ne'
  have log : (m * 2 ^ e).log2 < 53 + e := by
    rw [Nat.log2_lt nonzero, pow_add]
    exact Nat.mul_lt_mul_of_pos_right small (Nat.two_pow_pos e)
  obtain ⟨j, hj⟩ := Nat.exists_eq_add_of_le (show (m * 2 ^ e).log2 - 52 ≤ e by omega)
  have whole : m * 2 ^ e = m * 2 ^ j * 2 ^ ((m * 2 ^ e).log2 - 52) := by
    rw [Nat.mul_assoc, ← pow_add, Nat.add_comm j, ← hj]
  have quotient : divRound (m * 2 ^ e) (2 ^ ((m * 2 ^ e).log2 - 52)) = m * 2 ^ j := by
    conv_lhs => arg 1; rw [whole]
    have unit := divRound_mul (m * 2 ^ j) 1 (Nat.two_pow_pos ((m * 2 ^ e).log2 - 52))
    rw [Nat.one_mul] at unit
    rw [unit]
    exact divRound_of_ratio Nat.one_pos (by simp)
  rw [nearestNat, quotient, ← whole]

theorem nearestNat_of_dvd {m n : Nat} (positive : 0 < nearestNat n) (divides : m ∣ nearestNat n) :
    nearestNat m = m := by
  obtain ⟨q, small, value⟩ := exists_nearestNat n
  rw [value] at positive divides
  obtain ⟨x, y, hx, hy, rfl⟩ := (Nat.dvd_mul).mp divides
  obtain ⟨e, -, rfl⟩ := (Nat.dvd_prime_pow Nat.prime_two).mp hy
  have less : x ≤ 2 ^ 53 := (Nat.le_of_dvd (Nat.pos_of_mul_pos_right positive) hx).trans small
  rcases Nat.lt_or_eq_of_le less with few | rfl
  · exact nearestNat_mul_two_pow few e
  · have moved : 2 ^ 53 * 2 ^ e = 1 * 2 ^ (53 + e) := by rw [pow_add, Nat.one_mul]
    rw [moved]
    exact nearestNat_mul_two_pow (by decide) _

/-- Any double is divided exactly, in units, by what is nearest to the divisor. -/
theorem isMultipleOf_iff_units (x : Binary64) {d : Nat} (positive : 0 < d) (small : d < 2 ^ 64) :
    x.isMultipleOf (ofNat d) = true ↔ nearestNat d * unitsOfOne ∣ unitsOf x.magnitude := by
  have divisor : (ofNat d).fraction.1 = nearestNat d * (ofNat d).fraction.2 :=
    fraction_ofInt (n := d) small
  have nonzero : (ofNat d).fraction.1 ≠ 0 := by
    rw [divisor]
    exact (Nat.mul_pos (nearestNat_pos positive small) (fraction_pos _)).ne'
  unfold isMultipleOf
  simp only [Bool.and_eq_true, bne_iff_ne, ne_eq, nonzero, not_false_eq_true, true_and, beq_iff_eq]
  rw [← Nat.dvd_iff_mod_eq_zero, divisor, ← Nat.mul_assoc,
    Nat.mul_dvd_mul_iff_right (fraction_pos _),
    ← Nat.mul_dvd_mul_iff_right unitsOfOne_pos, fraction_units, Nat.mul_comm x.fraction.2,
      Nat.mul_right_comm, Nat.mul_dvd_mul_iff_right (fraction_pos _)]

/-- Rounding the least common multiple comes to the least common multiple of what was rounded, if
the nearest numbers have the same multiples among them. -/
theorem nearestNat_lcm {a b : Nat} (finite : Nat.lcm a b < 2 ^ 64) (positive : 0 < Nat.lcm a b)
    (exact : ∀ k < 2 ^ 64, nearestNat (Nat.lcm a b) ∣ nearestNat k ↔
      Nat.lcm (nearestNat a) (nearestNat b) ∣ nearestNat k) :
    nearestNat (Nat.lcm a b) = Nat.lcm (nearestNat a) (nearestNat b) := by
  have nonzero := nearestNat_pos positive finite
  have divides := (exact _ finite).mp dvd_rfl
  have less := (Nat.le_of_dvd nonzero divides).trans (nearestNat_le finite)
  rcases Nat.lt_or_eq_of_le less with few | most
  · have own := nearestNat_of_dvd nonzero divides
    have back := (exact _ few).mpr (by rw [own])
    rw [own] at back
    exact Nat.dvd_antisymm back divides
  · rw [most]
    exact (nearestNat_le finite).antisymm (most ▸ Nat.le_of_dvd nonzero divides)

end Binary64

open Binary64 (nearestNat unitsOf unitsOfOne)

namespace Node

/-- What one node allows is what both of two nodes allow. -/
def Conjoins [Library] (l r n : Node) (d : Json) : Prop :=
  ∃ p q, l.Validates d p ∧ r.Validates d q ∧ n.Validates d (p && q)

theorem Validates.unique [Library] {n : Node} {d : Json} {p q : Bool} (hp : n.Validates d p)
    (hq : n.Validates d q) : p = q := by
  obtain ⟨-, least, done⟩ := hp .unbound none
  exact (hq .unbound none).1 least _ (done least le_rfl)

/-- The node holds the least common multiple of two divisors, or both divisors where a word does not
hold it. -/
def IsCommon (a b : Nat) (n : Node) : Prop :=
  (Nat.lcm a b < 2 ^ 64 ∧ n.same (multiples [Nat.lcm a b]) = true) ∨
    (2 ^ 64 ≤ Nat.lcm a b ∧ ∃ x y, [x, y].Perm [a, b] ∧ n.same (multiples [x, y]) = true)

theorem IsCommon.congr {a b : Nat} {n m : Node} (h : m.IsCommon a b) (same : n.same m = true) :
    n.IsCommon a b :=
  h.imp (And.imp_right (same_trans same))
    (And.imp_right fun ⟨x, y, perm, h⟩ => ⟨x, y, perm, same_trans same h⟩)

theorem apart_number (d : Nat) : Apart (.of (.domain .number)) (.of (.divisor d)) := by
  refine ⟨rfl, rfl, rfl,
    .inr (.inr (.inr ⟨Nat.zero_ne_add_one 1, rfl, rfl, .number, ?_, ?_⟩))⟩
  · exact List.mem_singleton_self _
  · exact List.mem_singleton_self _

theorem same_divisors {a b : Nat} (different : a ≠ b) :
    (Node.of (.divisor a)).same (.of (.divisor b)) = false :=
  Bool.eq_false_iff.mpr fun same => different (Constraint.divisor.inj (head_of_same same))

theorem apart_divisors {a b : Nat} (different : a ≠ b) (large : 2 ^ 64 ≤ Nat.lcm a b) :
    Apart (.of (.divisor a)) (.of (.divisor b)) :=
  ⟨same_divisors different, rfl, rfl, .inr (.inr (.inl ⟨a, b, rfl, rfl, large⟩))⟩

variable [Library]

section

variable {d : Nat} (positive : 0 < d) (small : d < 2 ^ 64)
include positive small

theorem written_divisor : Written (.of (.divisor d)) := .of _ ⟨positive, small⟩ trivial nofun

theorem written_multiples : Written (multiples [d]) := by
  refine .of _ ⟨?_, List.pairwise_pair.mpr (apart_number d)⟩
    ⟨Nat.succ_ne_self 1, List.pairwise_pair.mpr rfl⟩ ?_
  · exact List.forall_mem_cons.mpr ⟨rfl, List.forall_mem_singleton.mpr rfl⟩
  · refine List.forall_mem_cons.mpr
      ⟨?_, List.forall_mem_singleton.mpr (written_divisor positive small)⟩
    exact .leaf trivial nofun rfl

end

end Node

variable [Library]

section

open Conjunction Node

variable {meet : Meet}

theorem Pairing.of_divisors {a b : Nat} (different : a ≠ b) (finite : Nat.lcm a b < 2 ^ 64) :
    (Pairing.of meet (Properties.meetProps meet) (.of (.divisor a)) (.of (.divisor b))).value id =
      .merged (.of (.divisor (Nat.lcm a b))) := by
  rw [Pairing.of, same_divisors different]
  exact congrArg (Traced.value · id) (if_pos finite)

theorem Conjunction.add_front {c k n incoming : Node}
    (merged : (Pairing.of meet (Properties.meetProps meet) c incoming).value id = .merged n)
    (apart : Apart k n) :
    (add (Pairing.of meet (Properties.meetProps meet)) [c, k] incoming).outcome id = .ok [k, n] :=
  have replaced := add_replaces (List.forall_mem_nil _) merged (List.forall_mem_singleton.mpr apart)
  replaced

theorem Conjunction.addAll_divisors {a b : Nat} (different : a ≠ b) :
    (addAll (Pairing.of meet (Properties.meetProps meet)) [.of (.domain .number), .of (.divisor a)]
      [.of (.domain .number), .of (.divisor b)]).outcome id = .ok (if Nat.lcm a b < 2 ^ 64
        then [.of (.domain .number), .of (.divisor (Nat.lcm a b))]
        else [.of (.divisor a), .of (.domain .number), .of (.divisor b)]) := by
  rw [outcome_addAll_cons, add_front rfl (apart_number a).symm]
  change (addAll _ [.of (.divisor a), .of (.domain .number)] [.of (.divisor b)]).outcome id = _
  rw [outcome_addAll_cons]
  by_cases finite : Nat.lcm a b < 2 ^ 64
  · rw [if_pos finite, add_front (Pairing.of_divisors different finite) (apart_number _)]
    rfl
  · rw [if_neg finite, add_irreducible]
    · rfl
    · exact List.forall_mem_cons.mpr
        ⟨Pairing.of_apart _ (apart_divisors different (Nat.le_of_not_lt finite)),
        List.forall_mem_singleton.mpr (Pairing.of_apart _ (apart_number b))⟩

omit [Library]

/-- Divisors without a common multiple within the limits are kept, in the order of their texts. -/
theorem Conjunction.node_divisors {a b : Nat} (different : a ≠ b)
    (large : 2 ^ 64 ≤ Nat.lcm a b) : ∃ x y, [x, y].Perm [a, b] ∧
      node [.of (.divisor a), .of (.domain .number), .of (.divisor b)] = .multiples [x, y] := by
  have apart : [.of (.divisor a), .of (.domain .number), .of (.divisor b)].Pairwise Node.Apart := by
    have first := List.forall_mem_singleton.mpr (apart_divisors different large)
    refine List.pairwise_cons.mpr
      ⟨List.forall_mem_cons.mpr ⟨(apart_number a).symm, first⟩, ?_⟩
    exact List.pairwise_pair.mpr (apart_number b)
  have sorted : Sorting.sort Node.precedes
      [.of (.divisor a), .of (.domain .number), .of (.divisor b)] =
      if (Node.of (.divisor b)).precedes (.of (.divisor a)) then
        [.of (.domain .number), .of (.divisor b), .of (.divisor a)]
      else [.of (.domain .number), .of (.divisor a), .of (.divisor b)] := by
    change Node.of (.domain .number) :: Sorting.place Node.precedes (.of (.divisor a))
      [.of (.divisor b)] = _
    rw [Sorting.place]
    split_ifs <;> rfl
  rw [node, Conjunction.intersection_apart apart (by simp), sorted]
  split_ifs
  · exact ⟨b, a, List.Perm.swap a b [], rfl⟩
  · exact ⟨a, b, .rfl, rfl⟩

end

section

variable {a b : Nat} (positive : 0 < a) (positive' : 0 < b) (small : a < 2 ^ 64)
  (small' : b < 2 ^ 64)
include positive positive' small small'

open Node

theorem meet_multiples : ∃ n, (meet (multiples [a]) (multiples [b])).outcome id = .ok n ∧
    n.IsCommon a b := by
  have written := written_multiples positive small
  rcases eq_or_ne a b with rfl | different
  · rw [← meetFreely_eq_meet written.reduced written.reduced,
      meetFreely_eq_step written.reduced written.reduced, meetStep_same (Node.same_refl _)]
    refine ⟨_, rfl, .inl ?_⟩
    rw [Nat.lcm_self]
    exact ⟨small, Node.same_refl _⟩
  · have unequal : multiples [a] ≠ multiples [b] :=
      fun same => different (by simpa [multiples] using same)
    rw [meet_plain written (written_multiples positive' small') rfl rfl unequal]
    change ∃ n, Except.map _ ((Conjunction.addAll _ [.of (.domain .number), .of (.divisor a)]
      [.of (.domain .number), .of (.divisor b)]).outcome id) = _ ∧ _
    rw [Conjunction.addAll_divisors different]
    by_cases finite : Nat.lcm a b < 2 ^ 64
    · rw [if_pos finite]
      have common := written_multiples (Nat.lcm_pos positive positive') finite
      refine ⟨_, congrArg Except.ok (Conjunction.node_conjuncts common rfl),
        .inl ⟨finite, Node.same_refl _⟩⟩
    · rw [if_neg finite]
      obtain ⟨x, y, perm, same⟩ := Conjunction.node_divisors different (Nat.le_of_not_lt finite)
      exact ⟨_, congrArg Except.ok same,
        .inr ⟨Nat.le_of_not_lt finite, x, y, perm, Node.same_refl _⟩⟩

end

section

variable {a b c : Nat} {l r n : Node} (hl : l.same (.multiples [a]) = true)
  (hr : r.same (.multiples [b]) = true)

namespace Node

theorem validates_multiples {m : Node} {divisors : List Nat}
    (same : m.same (multiples divisors) = true) (x : Number) :
    m.Validates (.number x) (divisors.all (x.toBinary64.isMultipleOf <| .ofNat ·)) :=
  validates same (hasAlias_multiples divisors) (admits_multiples divisors x)

include hl hr

theorem conjoins_iff {divisors : List Nat} (hn : n.same (multiples divisors) = true) (x : Number) :
    l.Conjoins r n (.number x) ↔ divisors.all (x.toBinary64.isMultipleOf <| .ofNat ·) =
      (x.toBinary64.isMultipleOf (.ofNat a) && x.toBinary64.isMultipleOf (.ofNat b)) := by
  have left := validates_multiples hl x
  have right := validates_multiples hr x
  have both := validates_multiples hn x
  rw [List.all_cons, List.all_nil, Bool.and_true] at left right
  constructor
  · rintro ⟨p, q, hp, hq, hpq⟩
    rw [left.unique hp, right.unique hq, both.unique hpq]
  · intro exact
    exact ⟨_, _, left, right, exact ▸ both⟩

theorem conjoins_of_perm {x y : Nat} (perm : [x, y].Perm [a, b])
    (hn : n.same (multiples [x, y]) = true) (v : Number) : l.Conjoins r n (.number v) := by
  rw [conjoins_iff hl hr hn, perm.all_eq, List.all_cons, List.all_cons, List.all_nil, Bool.and_true]

variable (positive : 0 < a) (positive' : 0 < b) (small : a < 2 ^ 64) (small' : b < 2 ^ 64)
include positive positive' small small'

/-- One divisor allows what both allow where what is nearest to it divides as the least common
multiple does. -/
theorem conjoins_iff_units (nonzero : 0 < c) (finite : c < 2 ^ 64)
    (hn : n.same (multiples [c]) = true) (v : Number) :
    l.Conjoins r n (.number v) ↔ (nearestNat c * unitsOfOne ∣ unitsOf v.toBinary64.magnitude ↔
      Nat.lcm (nearestNat a) (nearestNat b) * unitsOfOne ∣ unitsOf v.toBinary64.magnitude) := by
  rw [conjoins_iff hl hr hn, List.all_cons, List.all_nil, Bool.and_true, Bool.eq_iff_iff,
    Bool.and_eq_true,
    Binary64.isMultipleOf_iff_units _ nonzero finite,
      Binary64.isMultipleOf_iff_units _ positive small,
    Binary64.isMultipleOf_iff_units _ positive' small', ← Nat.lcm_mul_right, Nat.lcm_dvd_iff]

theorem nearestNat_of_conjoins (finite : Nat.lcm a b < 2 ^ 64)
    (hn : n.same (multiples [Nat.lcm a b]) = true)
    (exact : ∀ k : Nat, k < 2 ^ 64 → l.Conjoins r n (.number (.int k))) :
    nearestNat (Nat.lcm a b) = Nat.lcm (nearestNat a) (nearestNat b) := by
  have nonzero := Nat.lcm_pos positive positive'
  refine Binary64.nearestNat_lcm finite nonzero fun k word => ?_
  have units : unitsOf (Number.int k).toBinary64.magnitude = nearestNat k * unitsOfOne :=
    (Binary64.ofInt_parts (n := k) word).2.2
  have here := (conjoins_iff_units hl hr positive positive' small small' nonzero finite hn _).mp
      (exact k word)
  rwa [units, Nat.mul_dvd_mul_iff_right Binary64.unitsOfOne_pos,
    Nat.mul_dvd_mul_iff_right Binary64.unitsOfOne_pos] at here

end Node

namespace Scope

variable (t : Scope)

include hl hr in
theorem intersect_multiples (positive : 0 < a) (positive' : 0 < b) (small : a < 2 ^ 64)
    (small' : b < 2 ^ 64) : ∃ n, (t.intersect l r).1 = .ok n ∧ n.IsCommon a b := by
  have erased : l.erase = .multiples [a] :=
    (Node.same_iff.mp hl).trans (Node.written_multiples positive small).erase
  have erased' : r.erase = .multiples [b] :=
    (Node.same_iff.mp hr).trans (Node.written_multiples positive' small').erase
  have mirrored := t.intersect_erase l r
  obtain ⟨m, met, common⟩ := meet_multiples positive positive' small small'
  rw [erased, erased', met] at mirrored
  generalize (t.intersect l r).1 = o at mirrored ⊢
  cases o with
  | error d => cases mirrored
  | ok n =>
    obtain rfl : n.erase = m := Except.ok.inj mirrored
    exact ⟨n, rfl, common.congr (Node.same_symm n.erase_same)⟩

variable {s s' : Scope} (empty : s.declarations.aliases = [])
  (empty' : s'.declarations.aliases = [])
include empty empty'

/-- The multiples of two divisors are those of their least common multiple, or of both where that
is out of the limits. Just where rounding it to 53 bits comes to the same as rounding both, and so
up to two to the 53rd, it allows what both allow. -/
theorem intersect_divisors (positive : 0 < a) (positive' : 0 < b) (small : a < 2 ^ 64)
    (small' : b < 2 ^ 64) :
    ∃ l r n, (s.parse ("number%" ++ toString a)).1 = .ok l ∧
      (s'.parse ("number%" ++ toString b)).1 = .ok r ∧
    (t.intersect l r).1 = .ok n ∧ n.IsCommon a b ∧
    ((Nat.lcm a b < 2 ^ 64 → nearestNat (Nat.lcm a b) = Nat.lcm (nearestNat a) (nearestNat b)) →
      ∀ v : Number, l.Conjoins r n (.number v)) ∧
    ((∀ k : Nat, k < 2 ^ 64 → l.Conjoins r n (.number (.int k))) → Nat.lcm a b < 2 ^ 64 →
      nearestNat (Nat.lcm a b) = Nat.lcm (nearestNat a) (nearestNat b)) ∧
    (Nat.lcm a b ≤ 2 ^ 53 → ∀ v : Number, l.Conjoins r n (.number v)) := by
  obtain ⟨l, parsed, hl⟩ := parse_multiples empty positive small
  obtain ⟨r, parsed', hr⟩ := parse_multiples empty' positive' small'
  obtain ⟨n, met, common⟩ := intersect_multiples hl hr t positive positive' small small'
  have exact (rounded : Nat.lcm a b < 2 ^ 64 →
      nearestNat (Nat.lcm a b) = Nat.lcm (nearestNat a) (nearestNat b))
      (v : Number) : l.Conjoins r n (.number v) := by
    rcases common with ⟨finite, hn⟩ | ⟨-, x, y, perm, hn⟩
    · rw [Node.conjoins_iff_units hl hr positive positive' small small'
        (Nat.lcm_pos positive positive') finite hn, rounded finite]
    · exact Node.conjoins_of_perm hl hr perm hn v
  refine ⟨l, r, n, parsed, parsed', met, common, exact, fun exact finite => ?_,
    fun few => exact fun _ => ?_⟩
  · rcases common with ⟨-, hn⟩ | ⟨large, -⟩
    · exact Node.nearestNat_of_conjoins hl hr positive positive' small small' finite hn exact
    · exact absurd finite (Nat.not_lt_of_le large)
  · have nonzero := Nat.lcm_pos positive positive'
    have left := (Nat.le_of_dvd nonzero (Nat.dvd_lcm_left a b)).trans few
    have right := (Nat.le_of_dvd nonzero (Nat.dvd_lcm_right a b)).trans few
    rw [Binary64.nearestNat_of_le few, Binary64.nearestNat_of_le left,
      Binary64.nearestNat_of_le right]

end Scope

end

end

namespace Scope

attribute [local instance] Library.standard

/-- Multiples of four and six are those of twelve. The least common multiple of two to the 53rd
less one and three is rounded to a number that three does not divide. -/
theorem intersect_divisors_rounded :
    (∃ l r n, ((ofDeclarations 0 .empty).parse "number%4").1 = .ok l ∧
      ((ofDeclarations 0 .empty).parse "number%6").1 = .ok r ∧
      ((ofDeclarations 0 .empty).intersect l r).1 = .ok n ∧
        ∀ v : Number, l.Conjoins r n (.number v)) ∧
    ∃ l r n, ((ofDeclarations 0 .empty).parse "number%9007199254740991").1 = .ok l ∧
      ((ofDeclarations 0 .empty).parse "number%3").1 = .ok r ∧
        ((ofDeclarations 0 .empty).intersect l r).1 = .ok n ∧
      l.Validates (.number (.int 27021597764222972)) false ∧
        r.Validates (.number (.int 27021597764222972)) false ∧
      n.Validates (.number (.int 27021597764222972)) true := by
  have empty : (ofDeclarations 0 .empty).declarations.aliases = [] := rfl
  constructor
  · obtain ⟨l, r, n, parsed, parsed', met, -, -, -, exact⟩ :=
      intersect_divisors (a := 4) (b := 6)
      (ofDeclarations 0 .empty) empty empty (by decide) (by decide) (by decide) (by decide)
    exact ⟨l, r, n, parsed, parsed', met, exact (by decide)⟩
  · obtain ⟨l, parsed, hl⟩ :=
      parse_multiples empty (d := 9007199254740991) (by decide) (by decide)
    obtain ⟨r, parsed', hr⟩ := parse_multiples empty (d := 3) (by decide) (by decide)
    obtain ⟨n, met, ⟨-, hn⟩ | ⟨large, -⟩⟩ :=
      intersect_multiples hl hr (ofDeclarations 0 .empty)
      (by decide) (by decide) (by decide) (by decide)
    · have value {m : Node} {d : Nat} {verdict : Bool} (h : m.same (.multiples [d]) = true)
          (allowed : [d].all ((Binary64.ofInt 27021597764222972).isMultipleOf <| .ofNat ·) =
            verdict) : m.Validates (.number (.int 27021597764222972)) verdict :=
        allowed ▸ Node.validates_multiples h _
      exact ⟨l, r, n, parsed, parsed', met, value hl (by decide +kernel),
        value hr (by decide +kernel), value hn (by decide +kernel)⟩
    · exact absurd large (by decide)

end Scope

end SchemaAlgebra

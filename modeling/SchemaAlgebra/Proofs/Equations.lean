import SchemaAlgebra.Algebra.Meet
import SchemaAlgebra.Proofs.Reduced

/-!
# Equations of the algebra

An attempt has a value or reasons why there is none. What a step of intersecting does is
one of six things, by the kinds of the two nodes.
-/
namespace SchemaAlgebra

/-- The value of an attempt, or the reasons why there is none. -/
def Attempt.outcome {α : Type} (x : Attempt α) (rep : Node → Node) : Except Disjoint α :=
  x.run.value rep

namespace Attempt

variable {α β : Type} (rep : Node → Node)

@[simp] theorem outcome_pure (a : α) : (pure a : Attempt α).outcome rep = .ok a := rfl

@[simp] theorem outcome_throw (d : Disjoint) : (throw d : Attempt α).outcome rep = .error d := rfl

@[simp] theorem outcome_monadLift (x : Traced α) :
    (liftM x : Attempt α).outcome rep = .ok (x.value rep) :=
  Traced.value_bind rep x _

theorem outcome_bind (x : Attempt α) (f : α → Attempt β) :
    (x >>= f).outcome rep = (x.outcome rep).bind fun a => (f a).outcome rep := by
  change Traced.value _ rep = _
  unfold outcome
  rw [ExceptT.run_bind, Traced.value_bind]
  cases x.run.value rep <;> rfl

theorem value_run (x : Attempt α) : x.run.value rep = x.outcome rep := rfl

end Attempt

namespace Pairing

theorem value_ofAttempt (x : Attempt Node) (rep : Node → Node) :
    (ofAttempt x).value rep = match x.outcome rep with
      | .ok n => merged n
      | .error d => clash d := by
  rw [ofAttempt, Traced.value_bind, Attempt.value_run]
  cases x.outcome rep <;> rfl

end Pairing

theorem Constraint.refinement_of_rank {c : Constraint Node} (refined : 0 < c.rank)
    (small : c.rank ≤ 4) :
    (∃ r, c = .bound r) ∨ (∃ n, c = .divisor n) ∨ (∃ ps, c = .patterns ps) ∨
      ∃ p, c = .props p := by
  cases c <;> simp_all [Constraint.rank]

section

variable {meetProps : Props Node → Props Node → Attempt (Props Node)}

theorem Pairing.refinements_bound (r s : Range) :
    refinements meetProps (.of (.bound r)) (.of (.bound s)) = match r.intersect? s with
      | some both => merged <$> Traced.bound both
      | none => pure (clashOf .range (.of (.bound r)) (.of (.bound s))) := rfl

/-- Divisors merge into their least common multiple, if it is in range. -/
theorem Pairing.refinements_divisor (m n : Nat) :
    refinements meetProps (.of (.divisor m)) (.of (.divisor n)) =
      if Nat.lcm m n < Nat.pow 2 64 then merged <$> Traced.divisor
        (Nat.lcm m n) else pure irreducible := rfl

theorem Pairing.refinements_other {l r : Node}
    (h : ¬(l.constraint.rank = r.constraint.rank ∧ 0 < l.constraint.rank ∧
      l.constraint.rank ≤ 4)) :
    refinements meetProps l r =
      pure (if l.constraint.refinedDomains.any r.constraint.refinedDomains.contains
      then irreducible else clashOf .domain l r) := by
  unfold refinements
  split
  · rename_i hl hr
    exact absurd (by simp [hl, hr, Constraint.rank]) h
  · rename_i hl hr
    exact absurd (by simp [hl, hr, Constraint.rank]) h
  · rename_i hl hr
    exact absurd (by simp [hl, hr, Constraint.rank]) h
  · rename_i hl hr
    exact absurd (by simp [hl, hr, Constraint.rank]) h
  · rfl

end

namespace Properties

section

variable (meet : Meet) (rep : Node → Node)

theorem value_meetRest (a b : Node) :
    (meetRest meet (some a) (some b)).value rep = some ((meetOrNever meet a b).value rep) :=
  Traced.value_map rep some _

theorem value_addSignature (s t : Signature Node) (r : List (Signature Node)) :
    (addSignature meet s (t :: r)).value rep =
      if t.key.same s.key then ⟨t.key, (meetOrNever meet t.value s.value).value rep⟩ :: r
      else t :: (addSignature meet s r).value rep := by
  rw [addSignature]
  split_ifs <;> exact Traced.value_bind rep _ _

theorem value_meetIndex (index : List (Signature Node)) (s : Signature Node)
    (r : List (Signature Node)) :
    (meetIndex meet index (s :: r)).value rep =
      (meetIndex meet ((addSignature meet s index).value rep) r).value rep :=
  Traced.value_bind rep _ _

theorem value_meetKeys (p q : Props Node) (d : Draft) (key : String) (r : List String) :
    (meetKeys meet p q d (key :: r)).value rep =
      (meetKeys meet p q ((meetKey meet p q d key).value rep) r).value rep :=
  Traced.value_bind rep _ _

end

def Draft.withIndex (d : Draft) (index : List (Signature Node)) : Draft :=
  { d with props := { d.props with index := index } }

theorem outcome_meetProps [Library] (meet : Meet) (p q : Props Node) (rep : Node → Node) :
    (meetProps meet p q).outcome rep =
      (((meetSequence meet p q
        (((meetKeys meet p q ⟨.empty, .none⟩ (allKeys p q)).value rep).withIndex
        ((meetIndex meet p.index q.index).value rep))).value rep).finish.outcome rep).bind
          fun both => (normalize meet both).outcome rep := by
  rw [meetProps]
  simp only [Attempt.outcome_bind, Attempt.outcome_monadLift, Except.bind]
  rfl

end Properties

/-- The pairs of branches, in an order that does not depend on the sides. -/
def operands (l r : Node) : List (Node × Node) :=
  if r.key < l.key then r.branches.flatMap fun a => l.branches.map (a, ·)
  else l.branches.flatMap fun a => r.branches.map (a, ·)

theorem mem_operands {a b : Node} {p : Node × Node} (h : p ∈ operands a b) :
    (p.1 ∈ a.branches ∧ p.2 ∈ b.branches) ∨
      (p.1 ∈ b.branches ∧ p.2 ∈ a.branches) := by
  unfold operands at h
  split_ifs at h
  · obtain ⟨x, hx, hp⟩ := List.mem_flatMap.mp h
    obtain ⟨y, hy, rfl⟩ := List.mem_map.mp hp
    exact .inr ⟨hx, hy⟩
  · obtain ⟨x, hx, hp⟩ := List.mem_flatMap.mp h
    obtain ⟨y, hy, rfl⟩ := List.mem_map.mp hp
    exact .inl ⟨hx, hy⟩

def reunite (meet : Meet) (outcomes : List (Except Disjoint Node)) : Attempt Node :=
  let found := outcomes.filterMap fun o => o.toOption.filter (!·.isNever)
  if found.isEmpty then
    throw (outcomes.foldl (fun acc o => match o with | .ok _ => acc | .error d => acc ++ d) .none)
  else Union.of meet found

theorem distribute_eq (meet : Meet) (l r : Node) :
    distribute meet l r = (do reunite meet (← meetAll meet (operands l r))) := by
  rw [distribute, operands]
  split_ifs <;> rfl

/-- Nodes that are neither unions nor morphs, conjunct by conjunct. -/
def conjoin [Library] (meet : Meet) (l r : Node) : Attempt Node := do
  Traced.intersection
    (← Conjunction.addAll (Pairing.of meet (Properties.meetProps meet)) l.conjuncts r.conjuncts)

theorem Node.exists_morph {a : Node} (h : a.isMorph = true) :
    ∃ input steps, a.constraint = .morph input steps := by
  obtain ⟨c⟩ := a
  cases c with
  | morph input steps => exact ⟨input, steps, rfl⟩
  | _ => cases h

variable [Library]

section

variable {meet : Meet} {l r : Node}

theorem meetStep_same (same : l.same r = true) : meetStep meet l r = pure l := if_pos same

variable (same : l.same r = false)
include same

theorem meetStep_never (never : (l.isNever || r.isNever) = true) :
    meetStep meet l r = liftM Traced.never := by
  rw [meetStep, same, if_neg Bool.false_ne_true, if_pos never]

variable (never : (l.isNever || r.isNever) = false)
include never

theorem meetStep_union (union : l.constraint.isUnion = true ∨ r.constraint.isUnion = true) :
    meetStep meet l r = distribute meet l r := by
  rw [meetStep, same, never, if_neg Bool.false_ne_true, if_neg Bool.false_ne_true]
  split
  · rfl
  · rfl
  all_goals simp_all [Constraint.isUnion]

theorem meetStep_morphs {a b : Node} {steps others : List Step} (hl : l.constraint = .morph a steps)
    (hr : r.constraint = .morph b others) :
    meetStep meet l r = if steps.map Step.name ≠ others.map Step.name then throw
      (.single .morph [] l r)
      else (do Traced.morph (← meet a b) steps) := by
  rw [meetStep, same, never, if_neg Bool.false_ne_true, if_neg Bool.false_ne_true, hl, hr]
  dsimp only
  split_ifs <;> rfl

theorem meetStep_morph_left {a : Node} {steps : List Step} (hl : l.constraint = .morph a steps)
    (union : r.constraint.isUnion = false) (plain : r.isMorph = false) :
    meetStep meet l r = (do Traced.morph (← meet a r) steps) := by
  rw [meetStep, same, never, if_neg Bool.false_ne_true, if_neg Bool.false_ne_true, hl]
  split <;> simp_all [Constraint.isUnion, Node.isMorph]

theorem meetStep_morph_right {b : Node} {steps : List Step} (hr : r.constraint = .morph b steps)
    (union : l.constraint.isUnion = false) (plain : l.isMorph = false) :
    meetStep meet l r = (do Traced.morph (← meet l b) steps) := by
  rw [meetStep, same, never, if_neg Bool.false_ne_true, if_neg Bool.false_ne_true, hr]
  split <;> simp_all [Constraint.isUnion, Node.isMorph]

theorem meetStep_plain (union : l.constraint.isUnion = false)
    (union' : r.constraint.isUnion = false) (plain : l.isMorph = false)
    (plain' : r.isMorph = false) : meetStep meet l r = conjoin meet l r := by
  rw [meetStep, same, never, if_neg Bool.false_ne_true, if_neg Bool.false_ne_true]
  split
  case h_6 => rfl
  all_goals simp_all [Constraint.isUnion, Node.isMorph]

end

end SchemaAlgebra

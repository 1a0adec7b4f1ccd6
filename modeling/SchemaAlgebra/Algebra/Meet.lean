import SchemaAlgebra.Algebra.Pairing
import SchemaAlgebra.Algebra.Properties
import SchemaAlgebra.Algebra.Union

/-!
# Intersecting nodes

Unions distribute, morphs narrow their input, and everything else is reduced conjunct by
conjunct: a conjunct is merged with the first one it reduces with, and the result is added anew to
the others. The recursion runs on a budget computed from the sizes of the nodes. If it
ever ran out, both nodes would be kept side by side, which admits the same values.
-/
namespace SchemaAlgebra

variable [Library]

namespace Conjunction

/-- The first conjunct that merges with the incoming one, merged, and the others. -/
def firstMerge (pair : Node → Node → Traced Pairing) (incoming : Node) :
    List Node → Attempt (Option (Node × List Node))
  | [] => pure none
  | c :: r => do
    match ← pair c incoming with
    | .merged n => pure (some (n, r))
    | .clash d => throw d
    | .irreducible =>
      return (← firstMerge pair incoming r).map fun (n, others) => (n, c :: others)

/-- Every merge leaves one conjunct less, so their number bounds the merges. -/
def addUpTo (pair : Node → Node → Traced Pairing) :
    Nat → List Node → Node → Attempt (List Node)
  | 0, conjuncts, incoming => pure (conjuncts ++ [incoming])
  | merges + 1, conjuncts, incoming => do
    match ← firstMerge pair incoming conjuncts with
    | none => pure (conjuncts ++ [incoming])
    | some (n, others) => addUpTo pair merges others n

def add (pair : Node → Node → Traced Pairing) (conjuncts : List Node) (incoming : Node) :
    Attempt (List Node) :=
  addUpTo pair conjuncts.length conjuncts incoming

/-- Adds the incoming conjuncts one after the other. -/
def addAll (pair : Node → Node → Traced Pairing) (conjuncts : List Node) :
    List Node → Attempt (List Node)
  | [] => pure conjuncts
  | n :: r => do addAll pair (← add pair conjuncts n) r

end Conjunction

/-- The outcomes of intersecting each node of one list with each of the other. -/
def meetAll (meet : Meet) : List (Node × Node) → Traced (List (Except Disjoint Node))
  | [] => pure []
  | (a, b) :: r => do
    let first ← (meet a b).run
    return first :: (← meetAll meet r)

/-- Distributes over branches, paired in an order that does not depend on the sides. -/
def distribute (meet : Meet) (l r : Node) : Attempt Node := do
  let (outer, inner) :=
    if r.key < l.key then (r.branches, l.branches) else (l.branches, r.branches)
  let outcomes ← meetAll meet (outer.flatMap fun a => inner.map (a, ·))
  let found := outcomes.filterMap fun o => o.toOption.filter (!·.isNever)
  if found.isEmpty then
    throw (outcomes.foldl (fun acc o => match o with | .ok _ => acc | .error d => acc ++ d) .none)
  Union.of meet found

/-- One step of intersecting, given how smaller nodes are intersected. -/
def meetStep (meet : Meet) (l r : Node) : Attempt Node := do
  if l.same r then return l
  if l.isNever || r.isNever then return ← Traced.never
  match l.constraint, r.constraint with
  | .union _, _ => distribute meet l r
  | _, .union _ => distribute meet l r
  | .morph a steps, .morph b others =>
    if steps.map Step.name ≠ others.map Step.name then throw (.single .morph [] l r)
    Traced.morph (← meet a b) steps
  | .morph a steps, _ => do Traced.morph (← meet a r) steps
  | _, .morph b steps => do Traced.morph (← meet l b) steps
  | _, _ =>
    let pair := Pairing.of meet (Properties.meetProps meet)
    let children ← Conjunction.addAll pair l.conjuncts r.conjuncts
    Traced.intersection children

/-- Intersects with at most the given depth of recursion. -/
def meetUpTo : Nat → Meet
  | 0, l, r => do
    Traced.emit .exhausted
    Traced.intersection [l, r]
  | depth + 1, l, r => meetStep (meetUpTo depth) l r

/-- More than the recursion can need: a few steps for every morph on the way to the next
property set, and that for every property set. -/
def Node.budget (l r : Node) : Nat :=
  let size := l.size + r.size
  size * (2 * size + 5) + 2

/-- The narrowest node that admits what both nodes admit, or the reasons why there is
nothing that both admit. -/
def meet (l r : Node) : Attempt Node := meetUpTo (Node.budget l r) l r

def union (nodes : List Node) : Traced Node := Union.of meet nodes

/-- The reduced union of the nodes, unless two of its branches overlap. -/
def determinateUnion (nodes : List Node) : Traced (Except Overlap Node) :=
  Union.determinate meet nodes

/-- Properties in normal form, or the reasons why there are no values. -/
def normalize (p : Props Node) : Attempt (Props Node) := Properties.normalize meet p

/-- The rule for a pair of single constraints. -/
def pairing (l r : Node) : Traced Pairing := Pairing.of meet (Properties.meetProps meet) l r

end SchemaAlgebra

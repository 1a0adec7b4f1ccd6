import SchemaAlgebra.Algebra.Building

/-!
# Unions

A union has no repeated branches and none that another branch includes. A union is
determinate if no value can be changed by one branch and admitted by another.
-/
namespace SchemaAlgebra

/-- Two branches that admit a common value, at least one of which changes it. -/
structure Overlap where
  left : Node
  right : Node

namespace Union

def flatten (nodes : List Node) : List Node :=
  (nodes.flatMap (·.branches)).foldl
    (fun flat n => if flat.any (·.same n) then flat else flat ++ [n]) []

/-- Whether `a` admits no value outside `b`: their intersection is `a`. -/
def isSubtype (meet : Meet) (a b : Node) : Traced Bool := do
  match ← (meet a b).run with
  | .ok n => pure (n.same a)
  | .error _ => pure false

/-- Whether the branch with number `i` adds nothing to the one with number `j`. Of two
that include each other the first is kept. -/
def isIncluded (meet : Meet) (i : Nat) (branch : Node) (j : Nat) (other : Node) :
    Traced Bool := do
  if j = i || other.isMorph then return false
  if !(← isSubtype meet branch other) then return false
  if j < i then return true
  return !(← isSubtype meet other branch)

def anyIncludes (meet : Meet) (i : Nat) (branch : Node) : List (Node × Nat) → Traced Bool
  | [] => pure false
  | (other, j) :: r => do
    if ← isIncluded meet i branch j other then pure true else anyIncludes meet i branch r

/-- The branches that no other branch includes. Morphs are always kept. -/
def reduce (meet : Meet) (all : List (Node × Nat)) : List (Node × Nat) → Traced (List Node)
  | [] => pure []
  | (branch, i) :: r => do
    let included ← if branch.isMorph then pure false else anyIncludes meet i branch all
    let kept ← reduce meet all r
    return if included then kept else branch :: kept

/-- The reduced union of the nodes. An only branch stands for itself. -/
def of (meet : Meet) (nodes : List Node) : Traced Node := do
  let flat := flatten nodes
  let kept ← reduce meet flat.zipIdx flat.zipIdx
  Traced.emit (.reduced flat kept)
  match kept with
  | [n] => pure n
  | kept => Traced.build (.of (.union kept))

/-- Whether some value satisfies both inputs. What depends on an alias cannot be decided
and counts as no overlap. -/
def overlaps (meet : Meet) (a b : Node) : Traced Bool := do
  match ← (meet a.input b.input).run with
  | .ok both => pure (!both.hasAlias)
  | .error _ => pure false

def firstOverlap? (meet : Meet) : List (Node × Node) → Traced (Option Overlap)
  | [] => pure none
  | (a, b) :: r => do
    if a.isMorph || b.isMorph then
      if ← overlaps meet a b then return some ⟨a, b⟩
    firstOverlap? meet r

def pairs {α : Type u} : List α → List (α × α)
  | [] => []
  | a :: r => r.map (a, ·) ++ pairs r

def determinate (meet : Meet) (nodes : List Node) : Traced (Except Overlap Node) := do
  let union ← of meet nodes
  match ← firstOverlap? meet (pairs union.branches) with
  | some o => return .error o
  | none => return .ok union

end Union

end SchemaAlgebra

import SchemaAlgebra.Algebra.Building
import SchemaAlgebra.Node.Admission

/-!
# Pairs of constraints

The rule for each pair of single constraints: they merge into one node, they clash, or
both are kept side by side.
-/
namespace SchemaAlgebra

variable [Library]

inductive Pairing where
  | merged (n : Node)
  | clash (d : Disjoint)
  | irreducible

namespace Constraint

variable {α : Type u}

/-- Constraints that are intersected as a whole. -/
def isComposite : Constraint α → Bool
  | morph _ _ => true
  | union _ => true
  | intersection _ => true
  | _ => false

def isNominal : Constraint α → Bool
  | brand _ => true
  | deferred _ _ => true
  | _ => false

/-- The domain of a constraint that fixes one. -/
def fixedDomain? : Constraint α → Option Domain
  | domain d => some d
  | literal l => some l.domain
  | basis b => some b.domain
  | _ => none

/-- The domains whose values a refinement can admit. -/
def refinedDomains : Constraint α → List Domain
  | bound _ => [.number, .string, .object]
  | divisor _ => [.number]
  | patterns _ => [.string]
  | props _ => [.object]
  | _ => []

/-- Whether a literal of a fitting domain satisfies a refinement. -/
def refinementAdmits (l : Literal) : Constraint α → Bool
  | bound r => (l.size?.map r.allows).getD false
  | divisor n =>
    match l with
    | .number x => x.value.isMultipleOf (.ofNat n)
    | _ => false
  | patterns ps =>
    match l with
    | .string s => Pattern.allMatch ps s
    | _ => false
  | _ => false

end Constraint

namespace Pairing

def clashOf (clash : Clash) (l r : Node) : Pairing := .clash (.single clash [] l r)

/-- The narrower of two constraints if they fit together. -/
def narrow (fits : Bool) (clash : Clash) (n l r : Node) : Pairing :=
  if fits then merged n else clashOf clash l r

def literalBasis (x : Literal) (b : Basis) (n l r : Node) : Pairing :=
  if x.domain = b.domain then narrow (b.allowsLiteral x) .assignability n l r
  else clashOf .domain l r

/-- Two different constraints that fix their domains. -/
def fixed (l r : Node) : Pairing :=
  match l.constraint, r.constraint with
  | .literal x, .literal y => narrow (x = y) .unit l l r
  | .literal x, .domain d => narrow (x.domain = d) .domain l l r
  | .domain d, .literal x => narrow (x.domain = d) .domain r l r
  | .literal x, .basis b => literalBasis x b l l r
  | .basis b, .literal x => literalBasis x b r l r
  | .domain d, .basis b => narrow (b.domain = d) .domain r l r
  | .basis b, .domain d => narrow (b.domain = d) .domain l l r
  | .basis a, .basis b => clashOf (if a.domain = b.domain then .basis else .domain) l r
  | _, _ => clashOf .domain l r

/-- A refinement of a constraint that fixes its domain; `kind` and `refinement` are the
two nodes in either order. -/
def refine (kind refinement l r : Node) : Pairing :=
  match kind.constraint with
  | .literal x =>
    if refinement.constraint.refinedDomains.contains x.domain then
      narrow (refinement.constraint.refinementAdmits x) .assignability kind l r
    else clashOf .domain l r
  | c =>
    match c.fixedDomain? with
    | some d =>
      if refinement.constraint.refinedDomains.contains d then irreducible
      else clashOf .domain l r
    | none => clashOf .domain l r

def ofAttempt (x : Attempt Node) : Traced Pairing := do
  match ← x.run with
  | .ok n => pure (merged n)
  | .error d => pure (clash d)

def refinements (meetProps : Props Node → Props Node → Attempt (Props Node)) (l r : Node) :
    Traced Pairing :=
  match l.constraint, r.constraint with
  | .bound a, .bound b =>
    match a.intersect? b with
    | some both => merged <$> Traced.bound both
    | none => pure (clashOf .range l r)
  | .divisor m, .divisor n =>
    if Nat.lcm m n < Nat.pow 2 64 then merged <$> Traced.divisor (Nat.lcm m n) else pure irreducible
  | .patterns ps, .patterns qs => merged <$> Traced.patterns (Pattern.union ps qs)
  | .props p, .props q => ofAttempt do
    let both ← meetProps p q
    Traced.props both
  | a, b =>
    pure (if a.refinedDomains.any b.refinedDomains.contains then irreducible
      else clashOf .domain l r)

/-- The rule for two nodes, given how composite nodes and properties are intersected. -/
def of (meet : Meet) (meetProps : Props Node → Props Node → Attempt (Props Node))
    (l r : Node) : Traced Pairing :=
  let a := l.constraint
  let b := r.constraint
  if l.same r then pure (merged l)
  else if a.isComposite || b.isComposite then ofAttempt (meet l r)
  else if a.isNominal || b.isNominal then pure irreducible
  else match a.fixedDomain?, b.fixedDomain? with
    | some _, some _ => pure (fixed l r)
    | some _, none => pure (refine l r l r)
    | none, some _ => pure (refine r l l r)
    | none, none => refinements meetProps l r

end Pairing

end SchemaAlgebra

import SchemaAlgebra.Node.Identity

/-!
# Telling the branches of a union apart

Every value that a branch admits has certain facts in common: its domain, its literal
value, and those of its required keys. Where each of several branches has a fact of one
kind at one path, and they differ, a look at the data there leaves only some of the
branches to be tested. A decision tree puts such looks in order.
-/
namespace SchemaAlgebra

/-- Which property of a value is looked at. -/
inductive Aspect where
  | domain
  | unit
  deriving DecidableEq

def Aspect.name : Aspect → String
  | domain => "domain"
  | unit => "unit"

/-- A path of keys and the property of the value found there. -/
structure Probe where
  path : List String
  aspect : Aspect
  deriving DecidableEq

inductive Outcome where
  | domain (d : Domain)
  | unit (l : Literal)
  deriving DecidableEq

def Outcome.key : Outcome → String
  | domain d => d.name
  | unit l => l.expression

/-- The key of a value's outcome; arrays and objects have no literal and an empty key. -/
def Aspect.keyOf (data : Json) : Aspect → String
  | domain => (Domain.of data).name
  | unit => ((Literal.ofJson? data).map (·.expression)).getD ""

/-- The key of the outcome of a probe, absent if the data have no value at the path. -/
def Probe.keyIn? (p : Probe) (data : Json) : Option String :=
  (data.at? p.path).map fun v => p.aspect.keyOf v

abbrev Facts := List (Probe × Outcome)

namespace Facts

/-- The outcome of a probe for all values, if it is known. -/
def get? (facts : Facts) (p : Probe) : Option Outcome := facts.lookup p

def firsts (facts : Facts) : Facts :=
  facts.foldl (fun acc f => if (acc.get? f.1).isSome then acc else acc ++ [f]) []

/-- The facts of a constraint at a path, in the order they are discovered. -/
def ofConstraint (c : Constraint (List String → Facts)) (path : List String) : Facts :=
  match c with
  | .domain d => [(⟨path, .domain⟩, .domain d)]
  | .basis b => [(⟨path, .domain⟩, .domain b.domain)]
  | .literal l => [(⟨path, .domain⟩, .domain l.domain), (⟨path, .unit⟩, .unit l)]
  | .intersection children => children.flatMap (· path)
  | .props p => p.required.flatMap fun (k, facts) => facts (path ++ [k])
  | .morph input _ => input path
  | _ => []

def ofNode (n : Node) : Facts := firsts (n.fold ofConstraint [])

end Facts

inductive DecisionTree where
  /-- Test the branches with these numbers in order. -/
  | sequential (indices : List Nat)
  | switch (probe : Probe) (cases : List (Outcome × DecisionTree))

namespace DecisionTree

def factsAt (facts : List Facts) (i : Nat) : Facts := (facts[i]?).getD []

/-- The outcomes of a probe for the branches, if it is known for all of them. -/
def outcomes? (facts : List Facts) (p : Probe) : List Nat → Option (List Outcome)
  | [] => some []
  | i :: r => ((factsAt facts i).get? p).bind fun o => (outcomes? facts p r).map (o :: ·)

def distinctKeys (outcomes : List Outcome) : Nat := (outcomes.map (·.key)).eraseDups.length

/-- The better of a probe with its number of outcomes and the best one so far: more
outcomes, then a shorter path, then the one found first. -/
def better (best : Option (Probe × Nat)) (p : Probe) (distinct : Nat) : Option (Probe × Nat) :=
  match best with
  | none => some (p, distinct)
  | some (q, n) =>
    if n < distinct || (distinct == n && p.path.length < q.path.length) then some (p, distinct)
    else some (q, n)

def consider (facts : List Facts) (indices : List Nat) (used : List Probe)
    (best : Option (Probe × Nat)) (p : Probe) : Option (Probe × Nat) :=
  if used.contains p then best
  else match outcomes? facts p indices with
    | none => best
    | some outcomes =>
      let distinct := distinctKeys outcomes
      if distinct < 2 then best else better best p distinct

/-- The probe that tells the most branches apart. -/
def bestProbe? (facts : List Facts) (indices : List Nat) (used : List Probe) : Option Probe :=
  let probes := indices.flatMap fun i => (factsAt facts i).map (·.1)
  (probes.foldl (consider facts indices used) none).map (·.1)

/-- Adds a branch to the group of its outcome. -/
def addTo (groups : List (Outcome × List Nat)) (o : Outcome) (i : Nat) :
    List (Outcome × List Nat) :=
  match groups with
  | [] => [(o, [i])]
  | (q, members) :: r =>
    if q.key = o.key then (q, members ++ [i]) :: r else (q, members) :: addTo r o i

def groups (facts : List Facts) (p : Probe) (indices : List Nat) : List (Outcome × List Nat) :=
  indices.foldl (fun gs i =>
    match (factsAt facts i).get? p with
    | some o => addTo gs o i
    | none => gs) []

/-- A switch leaves fewer branches in each case, so their number bounds the depth. -/
def build (facts : List Facts) (used : List Probe) : Nat → List Nat → DecisionTree
  | 0, indices => sequential indices
  | depth + 1, indices =>
    if indices.length < 2 then sequential indices
    else match bestProbe? facts indices used with
      | none => sequential indices
      | some p =>
        switch p ((groups facts p indices).map fun (o, members) =>
          (o, build facts (used ++ [p]) depth members))

/-- The tree that routes a value to the branches that may admit it. -/
def ofBranches (branches : List Node) : DecisionTree :=
  build (branches.map Facts.ofNode) [] branches.length (List.range branches.length)

end DecisionTree

end SchemaAlgebra

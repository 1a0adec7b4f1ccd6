import SchemaAlgebra.Node.Description
import SchemaAlgebra.Program

/-!
# Compiling nodes

A node is lowered to a program. A check is left out where a fact that is already known
implies it: a fact from a check further in front, or the outcome that a union was routed
by.
-/
namespace SchemaAlgebra

/-- Facts about a value and the values reached by keys, the latest first, and its basis. -/
structure Known where
  facts : Facts
  basis : Option Basis

namespace Known

def nothing : Known := ⟨[], none⟩

def domain? (k : Known) : Option Domain :=
  match k.facts.get? ⟨[], .domain⟩ with
  | some (.domain d) => some d
  | _ => none

def literal? (k : Known) : Option Literal :=
  match k.facts.get? ⟨[], .unit⟩ with
  | some (.unit l) => some l
  | _ => none

def learn (k : Known) (p : Probe) (o : Outcome) : Known := { k with facts := (p, o) :: k.facts }

def learnDomain (k : Known) (d : Domain) : Known := k.learn ⟨[], .domain⟩ (.domain d)

def learnLiteral (k : Known) (l : Literal) : Known := k.learn ⟨[], .unit⟩ (.unit l)

def learnBasis (k : Known) (b : Basis) : Known := { k with basis := some b }

def under (k : Known) (key : String) : Known :=
  ⟨k.facts.filterMap fun (p, o) =>
    match p.path with
    | [] => none
    | first :: path => if first = key then some (⟨path, p.aspect⟩, o) else none, none⟩

def impliesDomain (k : Known) (d : Domain) : Bool :=
  k.domain? == some d || k.literal?.map (·.domain) == some d || k.basis.map (·.domain) == some d

end Known

/-- What the bounds among the constraints of a node measure. -/
def dimensionOf (n : Node) (k : Known) : Dimension :=
  match n.basis? <|> k.basis, n.domain? <|> k.domain? with
  | some .array, _ => .items
  | some .date, _ => .chars
  | none, some .string => .chars
  | none, some .number => .value
  | none, _ => .dynamic

def Outcome.describe : Outcome → String
  | domain d => d.describe
  | unit l => l.expression

mutual

/-- Routes along a decision tree to the branches, lowered with the outcomes known. -/
def lowerTree (branches : List (Known → Program)) : DecisionTree → Known → Dispatch
  | .sequential indices, k =>
    .sequential (indices.filterMap fun i => branches[i]?.map fun lower => lower k)
  | .switch probe cases, k =>
    .switch probe (lowerCases branches probe cases k)
      (joinOr (cases.map fun (o, _) => o.describe))

def lowerCases (branches : List (Known → Program)) (probe : Probe) :
    List (Outcome × DecisionTree) → Known → List (String × Dispatch)
  | [], _ => []
  | (o, tree) :: r, k =>
    (o.key, lowerTree branches tree (k.learn probe o)) :: lowerCases branches probe r k

end

namespace Node

mutual

/-- The checks of a node and the facts known after them. -/
def lowerAs : Node → Dimension → Known → Program × Known
  | of (.domain d), _, k => if k.impliesDomain d then ([], k) else ([.domain d], k.learnDomain d)
  | of (.literal l), _, k =>
    if k.literal? = some l then ([], k) else ([.literal l], k.learnLiteral l)
  | of (.basis b), _, k => if k.basis = some b then ([], k) else ([.basis b], k.learnBasis b)
  | of (.bound r), dimension, k => ([.range r dimension], k)
  | of (.divisor n), _, k => ([.divisor n], k)
  | of (.patterns ps), _, k => ([.patterns ps], k)
  | of (.props ⟨required, optional, index, sequence⟩), _, k =>
    let named := Entries.keys required ++ Entries.keys optional
    (lowerEntries true required k ++ lowerEntries false optional k ++ lowerIndex named index ++
      lowerSequence sequence, k)
  | of (.brand _), _, k => ([], k)
  | of (.deferred name home), _, k => ([.deferred name home], k)
  | of (.morph input steps), _, k => ([.morph (lowerAs input (dimensionOf input k) k).1 steps], k)
  | of (.union branches), _, k =>
    if branches.isEmpty then ([.never], k)
    else
      let lowered := lowerEach branches
      ([.union (lowerTree lowered (DecisionTree.ofBranches branches) k)
        (lowered.map fun lower => lower k) (describe (of (.union branches)))], k)
  | of (.intersection children), _, k =>
    (lowerAll children (dimensionOf (of (.intersection children)) k) k, k)

/-- The checks of constraints that hold together, each knowing the facts before it. -/
def lowerAll : List Node → Dimension → Known → Program
  | [], _, _ => []
  | n :: r, dimension, k =>
    let (checks, after) := lowerAs n dimension k
    checks ++ lowerAll r dimension after

def lowerEach : List Node → List (Known → Program)
  | [] => []
  | n :: r => (fun k => (lowerAs n (dimensionOf n k) k).1) :: lowerEach r

def lowerEntries (required : Bool) : List (String × Node) → Known → Program
  | [], _ => []
  | (key, n) :: r, k =>
    .key key required (lowerAs n (dimensionOf n (k.under key)) (k.under key)).1 ::
      lowerEntries required r k

def lowerIndex (named : List String) : List (Signature Node) → Program
  | [] => []
  | ⟨key, value⟩ :: r =>
    .index (lowerAs key (dimensionOf key .nothing) .nothing).1
      (lowerAs value (dimensionOf value .nothing) .nothing).1 named :: lowerIndex named r

def lowerSequence : Option (Sequence Node) → Program
  | none => []
  | some ⟨items, none⟩ => [.elements (lowerItems items) none]
  | some ⟨items, some n⟩ =>
    [.elements (lowerItems items) (some (lowerAs n (dimensionOf n .nothing) .nothing).1)]

def lowerItems : List Node → List Program
  | [] => []
  | n :: r => (lowerAs n (dimensionOf n .nothing) .nothing).1 :: lowerItems r

end

/-- The program of a node of whose values certain facts are known. -/
def lower (n : Node) (k : Known) : Program := (n.lowerAs (dimensionOf n k) k).1

def compile (n : Node) : Program := n.lower .nothing

end Node

end SchemaAlgebra

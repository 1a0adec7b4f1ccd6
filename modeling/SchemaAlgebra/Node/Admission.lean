import SchemaAlgebra.Node.Basic

/-!
# The values a node admits

The meaning of a node, read off its structure. References to aliases are given a meaning
from outside.
-/
namespace SchemaAlgebra

variable [Library]

/-- What a bound measures: a number itself, or the length of a text or an array. -/
def Json.size? : Json → Option Binary64
  | .number n => some n.toBinary64
  | .string s => some (.ofNat s.length)
  | .array items => some (.ofNat items.length)
  | _ => none

/-- Whether a number is a multiple of `n`, both taken as doubles. -/
def Json.isMultipleOf (n : Nat) : Json → Bool
  | .number x => x.toBinary64.isMultipleOf (.ofNat n)
  | _ => false

def Json.matchesAll (ps : List Pattern) : Json → Bool
  | .string s => Pattern.allMatch ps s
  | _ => false

namespace Sequence

/-- The items within an array, each tested by the predicate in its place. -/
def admits (s : Sequence (Json → Bool)) (items : List Json) : Bool :=
  s.admitsLength items.length &&
    (items.zipIdx.all fun (item, i) => ((s.at? i).map (· item)).getD true)

end Sequence

namespace Props

/-- Required keys are there, named values and the values of other keys that a signature
matches are admitted, and so are the items of an array. -/
def admits (p : Props (Json → Bool)) (data : Json) : Bool :=
  (p.required.all fun (k, v) => ((data.get? k).map v).getD false) &&
  (p.optional.all fun (k, v) => ((data.get? k).map v).getD true) &&
  (p.index.all fun s => ((data.asEntries?).getD []).all fun (k, x) =>
    p.namedKeys.contains k || !s.key (.string k) || s.value x) &&
  (match p.sequence, data with
    | some s, .array items => s.admits items
    | _, _ => true)

end Props

namespace Node

/-- The values a reference to an alias admits. -/
abbrev Meaning := Home → String → Json → Bool

/-- The values that a constraint over predicates admits. -/
def constraintAdmits (ρ : Meaning) (c : Constraint (Json → Bool)) (data : Json) : Bool :=
  match c with
  | .domain d => Domain.of data == d
  | .literal l => l.isMatch data
  | .basis b => b.allows data
  | .bound r => (data.size?.map r.allows).getD false
  | .divisor n => data.isMultipleOf n
  | .patterns ps => data.matchesAll ps
  | .props p => p.admits data
  | .brand _ => true
  | .deferred name home => ρ home name data
  | .morph input _ => input data
  | .union branches => branches.any (· data)
  | .intersection children => children.all (· data)

def admitsWith (ρ : Meaning) : Node → Json → Bool := fold (constraintAdmits ρ)

/-- The values of a node without references to aliases. -/
def admits : Node → Json → Bool := admitsWith fun _ _ _ => false

end Node

end SchemaAlgebra

import SchemaAlgebra.Digest
import SchemaAlgebra.Node.Basic

/-!
# Identity of nodes

Two nodes are the same if they agree in structure, with names compared as texts whatever
scope they belong to. The key of a node is a text made of its own content and the digests
of its children, and the digest of the key names the node. Keys order the nodes.
-/
namespace SchemaAlgebra

namespace Constraint

variable {α : Type u}

def head (c : Constraint α) : Constraint Unit := c.erased.map fun _ => ()

def namedDigests (entries : List (String × String)) : Json :=
  .object (entries.map fun (k, id) => (k, .string id))

def digests (list : List String) : Json := .array (list.map .string)

/-- The parts that are present, in order of their names. -/
def propsKey (p : Props String) : Json :=
  let index := p.index.map fun s => digests [s.key, s.value]
  let sequence := p.sequence.map fun s =>
    Json.object [("prefix", digests s.items), ("variadic", (s.rest.map .string).getD .null)]
  .object <|
    (if index.isEmpty then [] else [("index", .array index)]) ++
    (if p.optional.isEmpty then [] else [("optional", namedDigests p.optional)]) ++
    (if p.required.isEmpty then [] else [("required", namedDigests p.required)]) ++
    (sequence.map fun s => ("sequence", s)).toList

/-- The key of a constraint over the digests of its children. -/
def key : Constraint String → String
  | domain d => "domain:" ++ d.name
  | literal l => "unit:" ++ l.expression
  | patterns ps => "pattern:" ++ (digests (ps.map (·.source))).toText
  | bound r => "bound:" ++ r.canonical.key
  | divisor n => "divisor:" ++ toString n
  | basis b => "basis:" ++ b.name
  | props p => "props:" ++ (propsKey p).toText
  | morph input steps => "morph:" ++ input ++ "=>" ++ (digests (steps.map (·.name))).toText
  | union branches => "union:[" ++ String.intercalate "," branches ++ "]"
  | intersection children => "intersection:[" ++ String.intercalate "," children ++ "]"
  | brand name => "brand:" ++ name
  | deferred name _ => "alias:" ++ name

end Constraint

namespace Node

/-- Tests each element with the predicate in its place; the lengths must agree. -/
def zipAll {α : Type u} : List (α → Bool) → List α → Bool
  | [], [] => true
  | p :: ps, a :: as => p a && zipAll ps as
  | _, _ => false

def sameThroughout : Node → Node → Bool := fold fun c n =>
  decide (c.head = n.constraint.head) && zipAll c.children n.constraint.children

/-- Whether two nodes agree in structure. Looking at the outermost constraints first
settles most comparisons. -/
def same (a b : Node) : Bool :=
  decide (a.constraint.head = b.constraint.head) && a.sameThroughout b

def key : Node → String := fold fun c => (c.map Digest.ofText).key

def digest (n : Node) : String := Digest.ofText n.key

def shortDigest (n : Node) : String := String.ofList (n.digest.toList.take 16)

/-- The order of the conjuncts of an intersection: by kind, then by key. -/
def precedes (a b : Node) : Bool :=
  a.constraint.rank < b.constraint.rank ||
    (a.constraint.rank == b.constraint.rank && decide (a.key < b.key))

end Node

end SchemaAlgebra

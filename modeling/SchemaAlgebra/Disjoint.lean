import SchemaAlgebra.Node.Expression

/-!
# Proofs of emptiness

When two nodes admit no common value, every reason found is an entry of the proof: what
clashes, where, and the two nodes that do.
-/
namespace SchemaAlgebra

inductive Clash where
  | domain
  | unit
  | range
  | basis
  /-- A literal fails a refinement. -/
  | assignability
  /-- A key is required on one side and impossible on the other. -/
  | presence
  /-- Fixed lengths of arrays differ. -/
  | length
  | morph
  deriving DecidableEq

def Clash.name : Clash → String
  | domain => "domain"
  | unit => "unit"
  | range => "range"
  | basis => "basis"
  | assignability => "assignability"
  | presence => "presence"
  | length => "length"
  | morph => "morph"

structure Disjoint.Entry where
  clash : Clash
  path : List String
  left : Node
  right : Node

/-- The reasons why two nodes admit no common value. -/
structure Disjoint where
  entries : List Disjoint.Entry

namespace Disjoint

def Entry.message (e : Entry) : String :=
  let place := if e.path.isEmpty then "" else " at " ++ String.intercalate "." e.path
  "Intersection" ++ place ++ " of " ++ e.left.expression ++ " and " ++ e.right.expression ++
    " results in an unsatisfiable type (" ++ e.clash.name ++ ")"

def none : Disjoint := ⟨[]⟩

def single (clash : Clash) (path : List String) (left right : Node) : Disjoint :=
  ⟨[⟨clash, path, left, right⟩]⟩

def append (d e : Disjoint) : Disjoint := ⟨d.entries ++ e.entries⟩

instance : Append Disjoint := ⟨append⟩

/-- The same reasons one step further from the root. -/
def inside (segment : String) (d : Disjoint) : Disjoint :=
  ⟨d.entries.map fun e => { e with path := segment :: e.path }⟩

def isEmpty (d : Disjoint) : Bool := d.entries.isEmpty

def clash? (d : Disjoint) : Option Clash := d.entries.head?.map (·.clash)

def message (d : Disjoint) : String :=
  if d.isEmpty then "Intersection results in an unsatisfiable type"
  else String.intercalate "\n" (d.entries.map (·.message))

end Disjoint

end SchemaAlgebra

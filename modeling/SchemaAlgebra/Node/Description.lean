import SchemaAlgebra.Node.Expression

/-!
# Describing nodes in words
-/
namespace SchemaAlgebra

/-- Alternatives in a row, the last behind "or". -/
def joinOr (parts : List String) : String :=
  match parts.reverse with
  | [] => ""
  | [only] => only
  | last :: front => String.intercalate ", " front.reverse ++ " or " ++ last

namespace Node

def describeDivisor (n : Nat) : String :=
  if n = 1 then "an integer" else "a multiple of " ++ toString n

def describePatterns (ps : List Pattern) : String :=
  "matching " ++ String.ofList ((Pattern.conjunction ps).toList.flatMap
    fun c => if c = '&' then " and ".toList else [c])

/-- The parts of a description as they are met; `length` tells what a bound measures. -/
structure Outline where
  base : String
  length : String
  tail : List String

namespace Outline

def add (o : Outline) (text : String) : Outline := { o with tail := o.tail ++ [text] }

def text (o : Outline) : String :=
  String.intercalate " " (if o.base.isEmpty then o.tail else o.base :: o.tail)

def empty : Outline := ⟨"", "", []⟩

def step (isArray : Bool) (o : Outline) (child : Node) (words : String) : Outline :=
  match child.constraint with
  | .domain d =>
    { o with base := d.describe, length := if d = .string then "length " else o.length }
  | .literal l => { o with base := l.expression }
  | .basis b => { o with base := b.describe, length := "length " }
  | .divisor n => { o with base := describeDivisor n }
  | .bound r =>
    if o.length.isEmpty then o.add r.describe else o.add ("with " ++ o.length ++ r.describe)
  | .patterns _ => o.add words
  | .props p =>
    let o := if o.base.isEmpty then { o with base := words } else o
    match p.element? with
    | some element => if isArray then o.add ("of " ++ element.expression) else o
    | none => o
  | .brand name => o.add ("branded #" ++ name)
  | .deferred name _ => o.add ("and " ++ name)
  | _ => o.add words

end Outline

def gather (isArray : Bool) (o : Outline) : List Node → List String → Outline
  | child :: children, words :: rest => gather isArray (o.step isArray child words) children rest
  | _, _ => o

mutual

def describe : Node → String
  | of (.domain d) => d.describe
  | of (.literal l) => l.expression
  | of (.basis b) => b.describe
  | of (.bound r) => r.describe
  | of (.divisor n) => describeDivisor n
  | of (.patterns ps) => describePatterns ps
  | of (.props p) => if p.sequence.isSome then "an array" else "an object"
  | of (.brand name) => "a value branded #" ++ name
  | of (.deferred name _) => name
  | of (.morph input _) => describe input
  | of (.union branches) => if branches.isEmpty then "nothing" else joinOr (describeAll branches)
  | of (.intersection children) =>
    if children.isEmpty then "anything"
    else
      let isArray := children.any isArrayBasis
      (gather isArray .empty children (describeAll children)).text

def describeAll : List Node → List String
  | [] => []
  | n :: r => describe n :: describeAll r

end

end Node

end SchemaAlgebra

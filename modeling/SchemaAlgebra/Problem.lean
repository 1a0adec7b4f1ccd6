import SchemaAlgebra.Json.Text

/-!
# Problems

A problem tells where a value fails, which kind of check it fails, and what it must be
instead.
-/
namespace SchemaAlgebra

inductive Segment where
  | key (name : String)
  | index (i : Nat)
  deriving DecidableEq

def Segment.text : Segment → String
  | key name => name
  | index i => toString i

namespace Problem

inductive Code where
  | domain
  | unit
  | range
  | divisor
  | pattern
  | basis
  | missing
  | union
  | morph
  | depth
  /-- A reference to an alias that is not resolved. -/
  | dangling
  deriving DecidableEq

def Code.name : Code → String
  | domain => "domain"
  | unit => "unit"
  | range => "range"
  | divisor => "divisor"
  | pattern => "pattern"
  | basis => "basis"
  | missing => "missing"
  | union => "union"
  | morph => "morph"
  | depth => "depth"
  | dangling => "alias"

def Code.all : List Code :=
  [domain, unit, range, divisor, pattern, basis, missing, union, morph, depth, dangling]

end Problem

structure Problem where
  path : List Segment
  code : Problem.Code
  message : String
  deriving DecidableEq

namespace Problem

/-- The segments of the path with points between them. -/
def place (p : Problem) : String := String.intercalate "." (p.path.map (·.text))

def text (p : Problem) : String :=
  if p.path.isEmpty then p.message else p.place ++ " " ++ p.message

def summary (ps : List Problem) : String := String.intercalate "\n" (ps.map text)

def atPlace (ps : List Problem) (place : String) : List Problem := ps.filter (·.place = place)

/-- Texts are cut after 40 characters, and arrays and objects are only named. -/
def describeData : Json → String
  | .null => "null"
  | .bool b => toString b
  | .number n => n.toText
  | .string s =>
    let cut := String.ofList (s.toList.take 40)
    if cut.length < s.length then "'" ++ cut ++ "...'" else "'" ++ cut ++ "'"
  | .array items => "an array of length " ++ toString items.length
  | .object _ => "an object"

/-- The kind of the data, arrays apart from objects. -/
def kindOf : Json → String
  | .null => "null"
  | .bool _ => "boolean"
  | .number _ => "number"
  | .string _ => "string"
  | .array _ => "array"
  | .object _ => "object"

def must (what was : String) : String := "must " ++ what ++ " (was " ++ was ++ ")"

def mustBe (expected was : String) : String := must ("be " ++ expected) was

end Problem

end SchemaAlgebra

import SchemaAlgebra.Library
import SchemaAlgebra.Literal

/-!
# Bases and patterns

Classes of values within a domain: arrays, texts that hold a date, and texts that match. A pattern
is the source of a regular expression. A set of patterns is sorted by source and matches a text if
each of its patterns does.
-/
namespace SchemaAlgebra

variable [Library]

inductive Basis where
  | array
  | date
  deriving DecidableEq

namespace Basis

def name : Basis → String
  | array => "Array"
  | date => "Date"

def ofName? (word : String) : Option Basis := [array, date].find? (·.name = word)

def domain : Basis → Domain
  | array => .object
  | date => .string

def describe : Basis → String
  | array => "an array"
  | date => "a date"

def allows : Basis → Json → Bool
  | array, .array _ => true
  | date, .string s => (Library.universalDate? s).isSome
  | _, _ => false

def allowsLiteral : Basis → Literal → Bool
  | date, .string s => (Library.universalDate? s).isSome
  | _, _ => false

end Basis

structure Pattern where
  source : String
  deriving DecidableEq

namespace Pattern

def ofSource? (source : String) : Option Pattern :=
  if Library.isRegex source then some ⟨source⟩ else none

def isMatch (p : Pattern) (text : String) : Bool := Library.isMatch p.source text

def expression (p : Pattern) : String := "/" ++ p.source ++ "/"

/-- The patterns of both sets, sorted by source. -/
def union (ps qs : List Pattern) : List Pattern :=
  Sorting.sort (fun p q => decide (p.source < q.source)) (ps ++ qs.filter (!ps.contains ·))

def allMatch (ps : List Pattern) (text : String) : Bool := ps.all (·.isMatch text)

def conjunction (ps : List Pattern) : String := String.intercalate "&" (ps.map expression)

end Pattern

end SchemaAlgebra

import SchemaAlgebra.Json.Reader
import SchemaAlgebra.Json.Text
import SchemaAlgebra.Library
import SchemaAlgebra.Text.CharClass
import SchemaAlgebra.Text.Case

/-!
# Transforms

A transform turns a validated value into another or says what it must be. The built-in
ones take texts.
-/
namespace SchemaAlgebra

/-- The outcome of a transform; an error is the end of the phrase "the value …". -/
abbrev Transform := Json → Except String Json

inductive Builtin where
  | parseNumber
  | parseInteger
  | parseDate
  | parseJson
  | trim
  | toLowercase
  | toUppercase
  deriving DecidableEq

namespace Builtin

def name : Builtin → String
  | parseNumber => "parse.number"
  | parseInteger => "parse.integer"
  | parseDate => "parse.date"
  | parseJson => "parse.json"
  | trim => "trim"
  | toLowercase => "to.lowercase"
  | toUppercase => "to.uppercase"

def all : List Builtin :=
  [parseNumber, parseInteger, parseDate, parseJson, trim, toLowercase, toUppercase]

def ofName? (word : String) : Option Builtin := all.find? (·.name = word)

def orElse (message : String) : Option Json → Except String Json
  | some v => .ok v
  | none => .error message

def isInt64 (n : Int) : Bool :=
  decide (-(Nat.pow 2 63 : Nat) ≤ n) && decide (n < (Nat.pow 2 63 : Nat))

variable [Library]

def runText (text : String) : Builtin → Except String Json
  | parseNumber =>
    orElse "must be a well-formed numeric string"
      (((Decimal.readBinary64? (Text.trimBlanks text)).bind Number.ofBinary64?).map .number)
  | parseInteger =>
    orElse "must be a well-formed integer string"
      (((Decimal.readInt? (Text.trimBlanks text).toList).filter isInt64).map
        fun n => .number (.int n))
  | parseDate =>
    orElse "must be a valid date"
      ((Library.universalDate? (Text.trimBlanks text)).map .string)
  | parseJson =>
    match Json.read text with
    | .ok v => .ok v
    | .error e => .error s!"must be a valid JSON string ({e.message})"
  | trim => .ok (.string (Text.trimBlanks text))
  | toLowercase => .ok (.string (Text.toLowercase text))
  | toUppercase => .ok (.string (Text.toUppercase text))

def run (b : Builtin) : Transform
  | .string text => b.runText text
  | _ => .error "must be a string"

end Builtin

end SchemaAlgebra

import SchemaAlgebra.Domain

/-!
# Literal values

A literal admits exactly one value. Its expression is its text in the grammar, and
different literals have different expressions.
-/
namespace SchemaAlgebra

/-- A finite number with a single zero. -/
structure Numeral where
  value : Binary64
  isRegular : (value.isFinite && !(value.negative && value.isZero)) = true
  deriving DecidableEq

/-- The numeral of a finite number; negative zero becomes zero. -/
def Numeral.ofBinary64? (x : Binary64) : Option Numeral :=
  let y := if x.isZero then .zero else x
  if h : (y.isFinite && !(y.negative && y.isZero)) = true then some ⟨y, h⟩ else none

inductive Literal where
  | boolean (b : Bool)
  | null
  | number (n : Numeral)
  | string (s : String)
  /-- Decimal digits with an optional sign in front. -/
  | bigint (digits : String)
  deriving DecidableEq

namespace Literal

def ofBinary64? (x : Binary64) : Option Literal := (Numeral.ofBinary64? x).map number

def ofJson? : Json → Option Literal
  | .null => some null
  | .bool b => some (boolean b)
  | .number n => ofBinary64? n.toBinary64
  | .string s => some (string s)
  | .array _ => none
  | .object _ => none

def toJson? : Literal → Option Json
  | boolean b => some (.bool b)
  | null => some .null
  | number n => (Number.ofBinary64? n.value).map .number
  | string s => some (.string s)
  | bigint _ => none

def domain : Literal → Domain
  | boolean _ => .boolean
  | null => .null
  | number _ => .number
  | string _ => .string
  | bigint _ => .bigint

/-- Whether the value is exactly the literal; numbers are compared as doubles. -/
def isMatch : Literal → Json → Bool
  | boolean a, .bool b => a == b
  | null, .null => true
  | number a, .number b => a.value.eq b.toBinary64
  | string a, .string b => a == b
  | _, _ => false

/-- What a bound measures: a number itself, or the length of a text. -/
def size? : Literal → Option Binary64
  | number n => some n.value
  | string s => some (.ofNat s.length)
  | _ => none

/-- Single quotes, unless the text holds some and no double quote. -/
def delimiter (text : List Char) : Char :=
  if text.contains '\'' && !text.contains '"' then '"' else '\''

/-- A backslash before every backslash and delimiter. -/
def escaped (d : Char) : List Char → List Char
  | [] => []
  | c :: r => if c = '\\' || c = d then '\\' :: c :: escaped d r else c :: escaped d r

def quoted (text : String) : String :=
  let cs := text.toList
  let d := delimiter cs
  String.ofList (d :: escaped d cs ++ [d])

def expression : Literal → String
  | boolean true => "true"
  | boolean false => "false"
  | null => "null"
  | number n => n.value.format
  | string s => quoted s
  | bigint digits => digits ++ "n"

end Literal

end SchemaAlgebra

import SchemaAlgebra.Json.Basic

/-!
# Compact text of JSON values

No blanks, the entries of an object in order of their keys, and only those characters
escaped that have to be. A double always shows a point or an exponent.
-/
namespace SchemaAlgebra

namespace Binary64

/-- Positional between `10 ^ -5` and `10 ^ 16`, otherwise with an exponent. -/
def toJsonText (x : Binary64) : String :=
  let d := Decimal.shortest .even x
  let power := d.exponent + (d.digits.length : Int) - 1
  if power < -5 || 15 < power then d.scientific
  else if 0 ≤ d.exponent then d.positional ++ ".0"
  else d.positional

end Binary64

namespace Number

def toText : Number → String
  | int n => toString n
  | float x => x.toJsonText

end Number

namespace Json

def hexDigit (n : Nat) : Char :=
  if n < 10 then Char.ofNat ('0'.toNat + n) else Char.ofNat ('a'.toNat + (n - 10))

def escape (c : Char) : List Char :=
  if c = '"' then ['\\', '"']
  else if c = '\\' then ['\\', '\\']
  else if c = '\n' then ['\\', 'n']
  else if c = '\r' then ['\\', 'r']
  else if c = '\t' then ['\\', 't']
  else if c = '\x08' then ['\\', 'b']
  else if c = '\x0c' then ['\\', 'f']
  else if c.toNat < 0x20 then
    ['\\', 'u', '0', '0', hexDigit (c.toNat / 16), hexDigit (c.toNat % 16)]
  else [c]

def quoted (text : String) : String :=
  "\"" ++ String.ofList (text.toList.flatMap escape) ++ "\""

mutual

def toText : Json → String
  | null => "null"
  | bool true => "true"
  | bool false => "false"
  | number n => n.toText
  | string s => quoted s
  | array items => "[" ++ String.intercalate "," (itemTexts items) ++ "]"
  | object entries => "\x7b" ++ String.intercalate "," (entryTexts entries) ++ "\x7d"

def itemTexts : List Json → List String
  | [] => []
  | v :: r => toText v :: itemTexts r

def entryTexts : List (String × Json) → List String
  | [] => []
  | (k, v) :: r => (quoted k ++ ":" ++ toText v) :: entryTexts r

end

end Json

end SchemaAlgebra

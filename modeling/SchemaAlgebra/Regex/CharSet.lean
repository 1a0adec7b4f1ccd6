import SchemaAlgebra.Text.CharClass
import SchemaAlgebra.Text.Case
import SchemaAlgebra.Text.Category
import SchemaAlgebra.Text.Script

/-!
# Sets of characters in regular expressions
-/
namespace SchemaAlgebra.Regex

inductive CharSet where
  | empty
  | range (lo hi : Char)
  | digit
  | blank
  | word
  | ranges (table : List (Nat × Nat))
  /-- The characters of some general categories. -/
  | categories (codes : List String)
  | script (code : String)
  /-- The characters used with a script, if not with it alone. -/
  | sharedScript (code : String)
  /-- The characters that lower case changes. -/
  | lowered
  /-- The characters that upper case changes. -/
  | uppered
  | union (s t : CharSet)
  | intersection (s t : CharSet)
  | complement (s : CharSet)
  /-- Every character that differs in case only from one of the set. -/
  | folded (s : CharSet)
  /-- The same for the letters `a` to `z` alone. -/
  | foldedAscii (s : CharSet)

namespace CharSet

def contains : CharSet → Char → Bool
  | empty, _ => false
  | range lo hi, c => lo ≤ c && c ≤ hi
  | digit, c => Text.isDecimalDigit c
  | blank, c => Text.isBlank c
  | word, c => Text.isWord c
  | ranges table, c => Text.inRanges table c
  | categories codes, c => (Text.category? c).any codes.contains
  | script code, c => Text.script? c == some code
  | sharedScript code, c => (Text.scriptsOf c).contains code
  | lowered, c => Text.lowerOf [] c [] != [c]
  | uppered, c => Text.upperOf c != [c]
  | union s t, c => s.contains c || t.contains c
  | intersection s t, c => s.contains c && t.contains c
  | complement s, c => !s.contains c
  | folded s, c => (Text.caseVariants c).any s.contains
  | foldedAscii s, c => s.contains c || s.contains c.toLower || s.contains c.toUpper

def single (c : Char) : CharSet := range c c
def all : CharSet := complement empty
def difference (s t : CharSet) : CharSet := intersection s (complement t)
def symmetricDifference (s t : CharSet) : CharSet := union (difference s t) (difference t s)
def ofList (sets : List CharSet) : CharSet := sets.foldl union empty

def asciiDigit : CharSet := range '0' '9'
def asciiLower : CharSet := range 'a' 'z'
def asciiUpper : CharSet := range 'A' 'Z'
def asciiAlpha : CharSet := union asciiLower asciiUpper
def asciiAlnum : CharSet := union asciiAlpha asciiDigit
def asciiWord : CharSet := union asciiAlnum (single '_')
def asciiBlank : CharSet := ofList [range '\t' '\r', single ' ']

/-- The classes of characters that have a name of their own in brackets. -/
def named? (name : String) : Option CharSet :=
  match name with
  | "alnum" => some asciiAlnum
  | "alpha" => some asciiAlpha
  | "ascii" => some (range '\x00' '\x7f')
  | "blank" => some (union (single '\t') (single ' '))
  | "cntrl" => some (union (range '\x00' '\x1f') (single '\x7f'))
  | "digit" => some asciiDigit
  | "graph" => some (range '!' '~')
  | "lower" => some asciiLower
  | "print" => some (range ' ' '~')
  | "punct" => some (ofList [range '!' '/', range ':' '@', range '[' '`', range '\x7b' '~'])
  | "space" => some asciiBlank
  | "upper" => some asciiUpper
  | "word" => some asciiWord
  | "xdigit" => some (ofList [asciiDigit, range 'a' 'f', range 'A' 'F'])
  | _ => none

end CharSet

end SchemaAlgebra.Regex

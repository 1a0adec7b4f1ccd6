import SchemaAlgebra.SortedList
import SchemaAlgebra.Number.Decimal

/-!
# JSON values

A number is an integer of 64 bits, signed or unsigned, or a finite double. The
entries of an object are sorted by key.
-/
namespace SchemaAlgebra

inductive Number where
  | int (n : Int)
  | float (x : Binary64)
  deriving DecidableEq

namespace Number

def toBinary64 : Number → Binary64
  | int n => .ofInt n
  | float x => x

/-- A finite double, as an integer where it is whole and small. -/
def ofBinary64? (x : Binary64) : Option Number :=
  if !x.isFinite then none
  else if x.isWhole && x.isSmall then some (int x.toInt)
  else some (float x)

end Number

inductive Json where
  | null
  | bool (b : Bool)
  | number (n : Number)
  | string (s : String)
  | array (items : List Json)
  | object (entries : List (String × Json))

namespace Json

instance : Inhabited Json := ⟨null⟩

def asString? : Json → Option String
  | string s => some s
  | _ => none

def asItems? : Json → Option (List Json)
  | array items => some items
  | _ => none

def asEntries? : Json → Option (List (String × Json))
  | object entries => some entries
  | _ => none

/-- The value under a key, of an object only. -/
def get? (key : String) : Json → Option Json
  | object entries => Entries.get? key entries
  | _ => none

/-- The value reached by following the keys through objects. -/
def at? (data : Json) : List String → Option Json
  | [] => some data
  | key :: path => (data.get? key).bind (·.at? path)

end Json

end SchemaAlgebra

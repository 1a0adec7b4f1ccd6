import SchemaAlgebra.Algebra.Building
import SchemaAlgebra.Text.CharClass

/-!
# Words

A word is a number, a bigint, the name of an alias, or a keyword.
-/
namespace SchemaAlgebra.Word

variable [Library]

/-- No leading zeros, and digits on both sides of a point. -/
def isNumeral (cs : List Char) : Bool :=
  let unsigned := if cs.head? = some '-' then cs.tail else cs
  let whole := unsigned.takeWhile Decimal.isDigit
  let places := unsigned.dropWhile Decimal.isDigit
  (whole = ['0'] || (!whole.isEmpty && whole.head? != some '0')) &&
    match places with
    | [] => true
    | '.' :: ds => !ds.isEmpty && ds.all Decimal.isDigit
    | _ => false

def number? (word : String) : Option Binary64 :=
  if isNumeral word.toList then (Decimal.readBinary64? word).filter (·.isFinite) else none

/-- Digits without leading zeros behind an optional sign. Beyond the first, digits of any
script count. -/
def isInteger (cs : List Char) : Bool :=
  match if cs.head? = some '-' then cs.tail else cs with
  | ['0'] => true
  | c :: r => '1' ≤ c && c ≤ '9' && r.all Text.isDecimalDigit
  | [] => false

/-- The digits of a word that writes a bigint: an integer before the letter n. -/
def bigint? (word : String) : Option String :=
  match word.toList.reverse with
  | 'n' :: r => if isInteger r.reverse then some (String.ofList r.reverse) else none
  | _ => none

def literal? (word : String) : Option Literal :=
  match number? word with
  | some x => Literal.ofBinary64? x
  | none => (bigint? word).map .bigint

/-- The keywords for texts of a certain form. -/
def forms : List (String × String) :=
  [("email", r"^(.+)@(.+)\.(.+)$"),
    ("uuid",
      r"^[\da-fA-F]{8}-[\da-fA-F]{4}-[\da-fA-F]{4}-[\da-fA-F]{4}-[\da-fA-F]{12}$"),
    ("alpha", r"^[A-Za-z]*$"),
    ("alphanumeric", r"^[A-Za-z\d]*$"),
    ("digits", r"^\d*$"),
    ("lowercase", r"^[a-z]*$"),
    ("uppercase", r"^[A-Z]*$"),
    ("semver",
      r"^(0|[1-9]\d*)\.(0|[1-9]\d*)\.(0|[1-9]\d*)(?:-((?:0|[1-9]\d*|\d*[a-zA-Z-][0-9a-zA-Z-]*)(?:\.(?:0|[1-9]\d*|\d*[a-zA-Z-][0-9a-zA-Z-]*))*))?(?:\+([0-9a-zA-Z-]+(?:\.[0-9a-zA-Z-]+)*))?$")]

def matching (p : Pattern) : Traced Node := do
  let string ← Traced.domain .string
  let pattern ← Traced.patterns [p]
  Traced.intersection [string, pattern]

def integer : Traced Node := do
  let number ← Traced.domain .number
  let divisor ← Traced.divisor 1
  Traced.intersection [number, divisor]

def transformed (b : Builtin) : Traced Node := do
  let input ← Traced.domain .string
  Traced.build (.of (.morph input [.builtin b]))

def named? : List (String × Traced Node) :=
  [("null", Traced.literal .null),
    ("true", Traced.literal (.boolean true)),
    ("false", Traced.literal (.boolean false)),
    ("unknown", Traced.unknown),
    ("any", Traced.unknown),
    ("never", Traced.never),
    ("integer", integer),
    ("Array", Traced.basis .array),
    ("Date", Traced.basis .date)]

def keyword? (word : String) : Option (Traced Node) :=
  ((Domain.ofKeyword? word).map Traced.domain)
    <|> named?.lookup word
    <|> ((forms.lookup word).bind Pattern.ofSource?).map matching
    <|> (Builtin.ofName? word).map transformed

end SchemaAlgebra.Word

import SchemaAlgebra.Number.Binary64

/-!
# Decimal numerals

A finite decimal is `±coefficient * 10 ^ exponent`. It is read to the nearest
double, and a double is written with the fewest digits that read back to it.
-/
namespace SchemaAlgebra

structure Decimal where
  negative : Bool
  coefficient : Nat
  exponent : Int
  deriving DecidableEq

namespace Decimal

def digitCount (n : Nat) : Nat := if n = 0 then 0 else (Nat.toDigits 10 n).length

/-- The double nearest to the decimal. Exponents far outside the range are settled
without forming the power of ten. -/
def toBinary64 (d : Decimal) : Binary64 :=
  let top := d.exponent + digitCount d.coefficient
  if d.coefficient = 0 || top < -400 then .ofParts d.negative 0
  else if 400 < top then .infinity d.negative
  else match d.exponent with
    | .ofNat k => .ofRatio d.negative (d.coefficient * Nat.pow 10 k) 1
    | .negSucc k => .ofRatio d.negative d.coefficient (Nat.pow 10 (k + 1))

/-- The decimal exponent of the leading digit of the positive fraction `num / den`. -/
def leading (num den : Nat) : Int :=
  if den ≤ num then (digitCount (num / den) : Int) - 1
  else -(digitCount ((den - 1) / num) : Int)

/-- How a value exactly between two equally short decimals is written. -/
inductive Tie where
  | even
  | up
  deriving DecidableEq

/-- The point of the grid `10 ^ p` nearest to `num / den` among the two neighbours
that read back to `x`. -/
def neighbour? (tie : Tie) (x : Binary64) (num den : Nat) (p : Int) : Option Decimal :=
  let (n, d) := match p with
    | .ofNat k => (num, den * Nat.pow 10 k)
    | .negSucc k => (num * Nat.pow 10 (k + 1), den)
  let below : Decimal := ⟨x.negative, n / d, p⟩
  let above : Decimal := ⟨x.negative, n / d + 1, p⟩
  match decide (below.toBinary64 = x), decide (above.toBinary64 = x) with
  | false, false => none
  | true, false => some below
  | false, true => some above
  | true, true =>
    match compare (2 * (n % d)) d, tie with
    | .lt, _ => some below
    | .gt, _ => some above
    | .eq, .up => some above
    | .eq, .even => some (if n / d % 2 = 0 then below else above)

def trim : Nat → Decimal → Decimal
  | 0, d => d
  | fuel + 1, d =>
    if d.coefficient ≠ 0 ∧ d.coefficient % 10 = 0 then
      trim fuel { d with coefficient := d.coefficient / 10, exponent := d.exponent + 1 }
    else d

/-- The shortest decimal that reads back to the finite number `x`; of several the
nearest. Seventeen digits suffice, and the exact expansion stands behind them. -/
def shortest (tie : Tie) (x : Binary64) : Decimal :=
  let (num, den) := x.fraction
  if num = 0 then ⟨x.negative, 0, 0⟩
  else
    let top := leading num den
    let found := (List.range 17).findSome? fun n => neighbour? tie x num den (top - (n : Nat))
    trim 17 (found.getD ⟨x.negative, num * Nat.pow 5 den.log2, -(den.log2 : Int)⟩)

def digits (d : Decimal) : String := toString d.coefficient
def sign (d : Decimal) : String := if d.negative then "-" else ""
def zeros (n : Nat) : String := String.ofList (List.replicate n '0')

/-- Every digit written out, a point only before a fraction. -/
def positional (d : Decimal) : String :=
  let ds := d.digits
  let body := match d.exponent with
    | .ofNat k => if d.coefficient = 0 then ds else ds ++ zeros k
    | .negSucc k =>
      let places := k + 1
      let cs := ds.toList
      if places < cs.length then
        String.ofList (cs.take (cs.length - places)) ++ "." ++
          String.ofList (cs.drop (cs.length - places))
      else "0." ++ zeros (places - cs.length) ++ ds
  d.sign ++ body

/-- One digit before the point and a signed exponent. -/
def scientific (d : Decimal) : String :=
  let cs := d.digits.toList
  let power := d.exponent + (cs.length : Int) - 1
  let fraction := if cs.length ≤ 1 then "" else "." ++ String.ofList (cs.drop 1)
  let mark := if power < 0 then "e-" else "e+"
  d.sign ++ String.ofList (cs.take 1) ++ fraction ++ mark ++ toString power.natAbs

def isDigit (c : Char) : Bool := '0' ≤ c && c ≤ '9'
def digitValue (c : Char) : Nat := c.toNat - '0'.toNat

def valueOf (cs : List Char) : Nat := cs.foldl (fun n c => 10 * n + digitValue c) 0

/-- Whether a minus stands in front, and what stands behind an optional sign. -/
def splitSign : List Char → Bool × List Char
  | '-' :: r => (true, r)
  | '+' :: r => (false, r)
  | r => (false, r)

/-- A run of digits with an optional sign in front, as an integer. -/
def readInt? (cs : List Char) : Option Int :=
  let (negative, ds) := splitSign cs
  if ds.isEmpty || !ds.all isDigit then none
  else some (if negative then -(valueOf ds : Int) else valueOf ds)

/-- A run of digits with an optional plus in front, as a natural number. -/
def readNat? (cs : List Char) : Option Nat :=
  let ds := match cs with
    | '+' :: r => r
    | r => r
  if ds.isEmpty || !ds.all isDigit then none else some (valueOf ds)

/-- An exponent mark and its value; no text at all means zero. -/
def readExponent? : List Char → Option Int
  | [] => some 0
  | c :: r => if c = 'e' || c = 'E' then readInt? r else none

/-- Digits with an optional point and an optional exponent; at least one digit. -/
def readUnsigned? (negative : Bool) (cs : List Char) : Option Decimal :=
  let whole := cs.takeWhile isDigit
  let rest := cs.dropWhile isDigit
  let (places, rest) := match rest with
    | '.' :: r => (r.takeWhile isDigit, r.dropWhile isDigit)
    | r => ([], r)
  if whole.isEmpty && places.isEmpty then none
  else (readExponent? rest).map fun e =>
    ⟨negative, valueOf (whole ++ places), e - (places.length : Int)⟩

/-- The number a text denotes: a decimal numeral, or a name of infinity or of the
value that is not a number, in any case of letters. -/
def readBinary64? (text : String) : Option Binary64 :=
  let (negative, cs) := splitSign text.toList
  let word := String.ofList (cs.map Char.toLower)
  if word = "inf" || word = "infinity" then some (.infinity negative)
  else if word = "nan" then some .notANumber
  else (readUnsigned? negative cs).map toBinary64

end Decimal

namespace Binary64

/-- The number written out in full, with the fewest digits that read back. -/
def toPositional (x : Binary64) : String :=
  if x.isNaN then "NaN"
  else if !x.isFinite then (if x.negative then "-inf" else "inf")
  else (Decimal.shortest .up x).positional

/-- A number as definitions write it: a small whole number as an integer. -/
def format (x : Binary64) : String :=
  if x.isWhole && x.isSmall then toString x.toInt else x.toPositional

end Binary64

end SchemaAlgebra

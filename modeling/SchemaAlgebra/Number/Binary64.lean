/-!
# Double-precision numbers

A number is carried by its 64 bits, so equality is decidable and every operation
reduces to exact arithmetic on `Nat` and `Int`. A finite number stands for
`±significand * 2 ^ exponent`. Results are rounded to nearest, ties to even.
-/
namespace SchemaAlgebra

structure Binary64 where
  bits : UInt64
  deriving DecidableEq

namespace Binary64

/-- The magnitude bits of infinity; a larger magnitude is not a number. -/
def infinityBits : Nat := 2047 * Nat.pow 2 52

def ofParts (negative : Bool) (magnitude : Nat) : Binary64 :=
  ⟨UInt64.ofNat (if negative then Nat.pow 2 63 + magnitude else magnitude)⟩

def negative (x : Binary64) : Bool := decide (Nat.pow 2 63 ≤ x.bits.toNat)
def magnitude (x : Binary64) : Nat := x.bits.toNat % Nat.pow 2 63

def isNaN (x : Binary64) : Bool := decide (infinityBits < x.magnitude)
def isFinite (x : Binary64) : Bool := decide (x.magnitude < infinityBits)
def isZero (x : Binary64) : Bool := x.magnitude == 0

def significand (x : Binary64) : Nat :=
  if x.magnitude < Nat.pow 2 52 then x.magnitude
  else Nat.pow 2 52 + x.magnitude % Nat.pow 2 52

def exponent (x : Binary64) : Int :=
  (max (x.magnitude / Nat.pow 2 52) 1 : Nat) - 1075

def zero : Binary64 := ofParts false 0
def infinity (negative : Bool) : Binary64 := ofParts negative infinityBits
def notANumber : Binary64 := ofParts false (infinityBits + Nat.pow 2 51)

def neg (x : Binary64) : Binary64 := ofParts (!x.negative) x.magnitude

/-- The signed magnitude: the magnitude bits grow with the magnitude, and the two zeros are one. -/
def rank (x : Binary64) : Int :=
  if x.negative then -(x.magnitude : Int) else x.magnitude

def eq (x y : Binary64) : Bool := !x.isNaN && !y.isNaN && x.rank == y.rank
def lt (x y : Binary64) : Bool := !x.isNaN && !y.isNaN && decide (x.rank < y.rank)

/-- The order of two numbers, absent when either is not a number. -/
def compare? (x y : Binary64) : Option Ordering :=
  if x.isNaN || y.isNaN then none else some (compare x.rank y.rank)

/-- The quotient rounded to nearest, a half going to the even neighbour. -/
def divRound (num den : Nat) : Nat :=
  let q := num / den
  let r := num % den
  if 2 * r < den then q
  else if den < 2 * r then q + 1
  else q + q % 2

def scale (num den : Nat) (e : Int) : Nat × Nat :=
  match e with
  | .ofNat k => (num, den <<< k)
  | .negSucc k => (num <<< (k + 1), den)

/-- The exponent at which the significand of `num / den` has 53 bits, or the least one. -/
def exponentOf (num den : Nat) : Int :=
  let e : Int := (num.log2 : Int) - den.log2 - 53
  let (n, d) := scale num den e
  max (if n / d < Nat.pow 2 53 then e else e + 1) (-1074)

/-- The number nearest to `±num / den`, with `den` positive. -/
def ofRatio (negative : Bool) (num den : Nat) : Binary64 :=
  if num = 0 then ofParts negative 0
  else
    let e := exponentOf num den
    let (n, d) := scale num den e
    ofParts negative (min (Nat.pow 2 52 * (e + 1074).toNat + divRound n d) infinityBits)

def ofInt (n : Int) : Binary64 := ofRatio (decide (n < 0)) n.natAbs 1
def ofNat (n : Nat) : Binary64 := ofRatio false n 1

/-- The magnitude of a finite number as a fraction. -/
def fraction (x : Binary64) : Nat × Nat :=
  match x.exponent with
  | .ofNat k => (x.significand <<< k, 1)
  | .negSucc k => (x.significand, 1 <<< (k + 1))

def mul (x y : Binary64) : Binary64 :=
  let (a, b) := x.fraction
  let (c, d) := y.fraction
  ofRatio (x.negative != y.negative) (a * c) (b * d)

/-- The quotient of two finite numbers, the second not zero. -/
def div (x y : Binary64) : Binary64 :=
  let (a, b) := x.fraction
  let (c, d) := y.fraction
  ofRatio (x.negative != y.negative) (a * d) (b * c)

def isWhole (x : Binary64) : Bool :=
  x.isFinite && x.fraction.1 % x.fraction.2 == 0

def toInt (x : Binary64) : Int :=
  let n : Int := (x.fraction.1 / x.fraction.2 : Nat)
  if x.negative then -n else n

def isSmall (x : Binary64) : Bool := decide (x.magnitude < (1023 + 53) * Nat.pow 2 52)

/-- Whether dividing the finite `x` by the finite `y` leaves no remainder.
Nothing is a multiple of zero. -/
def isMultipleOf (x y : Binary64) : Bool :=
  let (a, b) := x.fraction
  let (c, d) := y.fraction
  c != 0 && (a * d) % (b * c) == 0

end Binary64

end SchemaAlgebra

import SchemaAlgebra.Number.Decimal

/-!
# Ranges of sizes

A range has a lower and an upper limit, each optional and each with or without its
own value.
-/
namespace SchemaAlgebra

structure Limit where
  value : Binary64
  exclusive : Bool
  deriving DecidableEq

structure Range where
  lower : Option Limit
  upper : Option Limit
  deriving DecidableEq

namespace Limit

def inclusive (x : Binary64) : Limit := ⟨x, false⟩

def eq (a b : Limit) : Bool := a.value.eq b.value && a.exclusive == b.exclusive

/-- The stricter of two limits in the given direction; of equal values the exclusive one. -/
def stricter (direction : Ordering) (a b : Limit) : Limit :=
  match a.value.compare? b.value with
  | some .eq => ⟨a.value, a.exclusive || b.exclusive⟩
  | some o => if o = direction then a else b
  | none => b

/-- The same limit with a single zero and a single value that is not a number. -/
def canonical (a : Limit) : Limit :=
  if a.value.isZero then ⟨.zero, a.exclusive⟩
  else if a.value.isNaN then ⟨.notANumber, a.exclusive⟩
  else a

end Limit

namespace Range

def atLeast (a : Limit) : Range := ⟨some a, none⟩
def atMost (a : Limit) : Range := ⟨none, some a⟩
def exactly (x : Binary64) : Range := ⟨some (.inclusive x), some (.inclusive x)⟩

def eqLimit : Option Limit → Option Limit → Bool
  | none, none => true
  | some a, some b => a.eq b
  | _, _ => false

def eq (r s : Range) : Bool := eqLimit r.lower s.lower && eqLimit r.upper s.upper

def canonical (r : Range) : Range := ⟨r.lower.map (·.canonical), r.upper.map (·.canonical)⟩

def aboveLower (size : Binary64) : Option Limit → Bool
  | none => true
  | some a => !(size.lt a.value || (a.exclusive && size.eq a.value))

def belowUpper (size : Binary64) : Option Limit → Bool
  | none => true
  | some a => !(a.value.lt size || (a.exclusive && size.eq a.value))

def allows (r : Range) (size : Binary64) : Bool :=
  aboveLower size r.lower && belowUpper size r.upper

/-- Whether no size lies between the limits. -/
def isEmpty (r : Range) : Bool :=
  match r.lower, r.upper with
  | some a, some b =>
    match a.value.compare? b.value with
    | some .gt => true
    | some .eq => a.exclusive || b.exclusive
    | some .lt => false
    | none => true
  | _, _ => false

/-- The only size the range allows, if both limits include the same value. -/
def single? (r : Range) : Option Binary64 :=
  match r.lower, r.upper with
  | some a, some b =>
    if a.value.eq b.value && !a.exclusive && !b.exclusive then some a.value else none
  | _, _ => none

def stricterOf (direction : Ordering) : Option Limit → Option Limit → Option Limit
  | some a, some b => some (a.stricter direction b)
  | some a, none => some a
  | none, b => b

/-- The sizes in both ranges; absent if there are none. -/
def intersect? (r s : Range) : Option Range :=
  let both : Range := ⟨stricterOf .gt r.lower s.lower, stricterOf .lt r.upper s.upper⟩
  if both.isEmpty then none else some both

def lowerText (a : Limit) : String := (if a.exclusive then ">" else ">=") ++ a.value.format
def upperText (a : Limit) : String := (if a.exclusive then "<" else "<=") ++ a.value.format

def limitTexts (r : Range) : List String :=
  (r.lower.map lowerText).toList ++ (r.upper.map upperText).toList

def key (r : Range) : String := String.intercalate "," r.limitTexts

/-- The range as a constraint without operand. -/
def expression (r : Range) : String :=
  match r.single? with
  | some x => "==" ++ x.format
  | none => String.intercalate "&" r.limitTexts

/-- The range applied to an operand, with the lower limit on its left if there are two. -/
def applied (r : Range) (operand : String) : String :=
  match r.single?, r.lower, r.upper with
  | some x, _, _ => operand ++ "==" ++ x.format
  | none, some a, some b =>
    a.value.format ++ (if a.exclusive then "<" else "<=") ++ operand ++ upperText b
  | none, some a, none => operand ++ lowerText a
  | none, none, some b => operand ++ upperText b
  | none, none, none => operand

def describe (r : Range) : String :=
  match r.single? with
  | some x => "exactly " ++ x.format
  | none =>
    let lower := r.lower.map fun a =>
      (if a.exclusive then "more than " else "at least ") ++ a.value.format
    let upper := r.upper.map fun a =>
      (if a.exclusive then "less than " else "at most ") ++ a.value.format
    String.intercalate " and " (lower.toList ++ upper.toList)

end Range

end SchemaAlgebra

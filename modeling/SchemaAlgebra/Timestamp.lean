import SchemaAlgebra.Number.Decimal

/-!
# RFC 3339 timestamps

A date, a time of day and an offset in minutes. A letter `t`, `T` or a blank separates
date and time; second 60 is a leap second. Digits beyond nanoseconds are dropped.
-/
namespace SchemaAlgebra

structure Timestamp where
  year : Int
  month : Nat
  day : Nat
  hour : Nat
  minute : Nat
  second : Nat
  nanosecond : Nat
  deriving DecidableEq

namespace Timestamp

def isLeapYear (y : Int) : Bool := y % 4 == 0 && (y % 100 != 0 || y % 400 == 0)

def daysInMonth (y : Int) (m : Nat) : Nat :=
  if m = 2 then (if isLeapYear y then 29 else 28)
  else if m = 4 || m = 6 || m = 9 || m = 11 then 30
  else 31

def isValid (t : Timestamp) : Bool :=
  1 ≤ t.month && t.month ≤ 12 && 1 ≤ t.day && t.day ≤ daysInMonth t.year t.month &&
    t.hour ≤ 23 && t.minute ≤ 59 && t.second ≤ 60

def digits? (n : Nat) (cs : List Char) : Option (Nat × List Char) :=
  let ds := cs.take n
  if ds.length = n && ds.all Decimal.isDigit then some (Decimal.valueOf ds, cs.drop n) else none

def expect? (c : Char) : List Char → Option (List Char)
  | d :: r => if d = c then some r else none
  | [] => none

def separator? : List Char → Option (List Char)
  | c :: r => if c = 'T' || c = 't' || c = ' ' then some r else none
  | [] => none

/-- A fraction of a second in nanoseconds; none at all means zero. -/
def nanosecond? : List Char → Option (Nat × List Char)
  | '.' :: r =>
    let ds := r.takeWhile Decimal.isDigit
    let kept := ds.take 9
    if ds.isEmpty then none
    else some (Decimal.valueOf kept * Nat.pow 10 (9 - kept.length), r.dropWhile Decimal.isDigit)
  | r => some (0, r)

/-- The minutes by which local time is ahead. -/
def offset? : List Char → Option Int
  | ['Z'] => some 0
  | ['z'] => some 0
  | c :: r => do
    let sign : Int ← if c = '+' then some 1 else if c = '-' || c = '−' then some (-1) else none
    let (hours, r) ← digits? 2 r
    let r ← expect? ':' r
    let (minutes, r) ← digits? 2 r
    if r.isEmpty && hours ≤ 23 && minutes ≤ 59 then some (sign * (60 * hours + minutes : Nat))
    else none
  | [] => none

/-- The local time a text denotes, and its offset. -/
def read? (cs : List Char) : Option (Timestamp × Int) := do
  let (year, cs) ← digits? 4 cs
  let cs ← expect? '-' cs
  let (month, cs) ← digits? 2 cs
  let cs ← expect? '-' cs
  let (day, cs) ← digits? 2 cs
  let cs ← separator? cs
  let (hour, cs) ← digits? 2 cs
  let cs ← expect? ':' cs
  let (minute, cs) ← digits? 2 cs
  let cs ← expect? ':' cs
  let (second, cs) ← digits? 2 cs
  let (nanosecond, cs) ← nanosecond? cs
  let offset ← offset? cs
  let t : Timestamp := ⟨year, month, day, hour, minute, second, nanosecond⟩
  if t.isValid then some (t, offset) else none

def nextDay (t : Timestamp) : Timestamp :=
  if t.day < daysInMonth t.year t.month then { t with day := t.day + 1 }
  else if t.month < 12 then { t with month := t.month + 1, day := 1 }
  else { t with year := t.year + 1, month := 1, day := 1 }

def previousDay (t : Timestamp) : Timestamp :=
  if 1 < t.day then { t with day := t.day - 1 }
  else if 1 < t.month then { t with month := t.month - 1, day := daysInMonth t.year (t.month - 1) }
  else { t with year := t.year - 1, month := 12, day := 31 }

/-- The universal time of a local time that is less than a day ahead or behind. -/
def toUniversal (t : Timestamp) (offset : Int) : Timestamp :=
  let minutes := (60 * t.hour + t.minute : Nat) - offset
  let (t, minutes) :=
    if minutes < 0 then (t.previousDay, minutes + 1440)
    else if 1440 ≤ minutes then (t.nextDay, minutes - 1440)
    else (t, minutes)
  { t with hour := minutes.toNat / 60, minute := minutes.toNat % 60 }

def padded (width n : Nat) : String :=
  let ds := (toString n).toList
  String.ofList (List.replicate (width - ds.length) '0' ++ ds)

/-- Years outside the four digits carry a sign. -/
def yearText (y : Int) : String :=
  if y < 0 then "-" ++ padded 4 y.natAbs
  else if 9999 < y then "+" ++ padded 4 y.natAbs
  else padded 4 y.natAbs

/-- None, three, six or nine places, as many as are needed. -/
def fractionText (n : Nat) : String :=
  if n = 0 then ""
  else if n % 1000000 = 0 then "." ++ padded 3 (n / 1000000)
  else if n % 1000 = 0 then "." ++ padded 6 (n / 1000)
  else "." ++ padded 9 n

def toText (t : Timestamp) : String :=
  yearText t.year ++ "-" ++ padded 2 t.month ++ "-" ++ padded 2 t.day ++ "T" ++
    padded 2 t.hour ++ ":" ++ padded 2 t.minute ++ ":" ++ padded 2 t.second ++
    fractionText t.nanosecond ++ "Z"

def universal? (text : String) : Option String :=
  (read? text.toList).map fun (t, offset) => (t.toUniversal offset).toText

end Timestamp

end SchemaAlgebra

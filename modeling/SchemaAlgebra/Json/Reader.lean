import SchemaAlgebra.Json.Basic

/-!
# Reading JSON text

A text is read from left to right, and the first fault is reported with its line and
with its column in bytes. Integers of 64 bits are kept exactly. Any other number is the
double that results when its leading digits, as many as fit 64 bits, are scaled by a
power of ten in double arithmetic.
-/
namespace SchemaAlgebra.Json

inductive ReadFault where
  | endInValue
  | endInList
  | endInObject
  | endInString
  | expectedValue
  | expectedIdent
  | expectedColon
  | expectedListEnd
  | expectedObjectEnd
  | expectedKey
  | trailingComma
  | trailingCharacters
  | invalidNumber
  | numberOutOfRange
  | invalidEscape
  | controlCharacter
  | loneSurrogate
  | unfinishedSurrogate
  | tooDeep
  deriving DecidableEq

def ReadFault.message : ReadFault → String
  | endInValue => "EOF while parsing a value"
  | endInList => "EOF while parsing a list"
  | endInObject => "EOF while parsing an object"
  | endInString => "EOF while parsing a string"
  | expectedValue => "expected value"
  | expectedIdent => "expected ident"
  | expectedColon => "expected `:`"
  | expectedListEnd => "expected `,` or `]`"
  | expectedObjectEnd => "expected `,` or `\x7d`"
  | expectedKey => "key must be a string"
  | trailingComma => "trailing comma"
  | trailingCharacters => "trailing characters"
  | invalidNumber => "invalid number"
  | numberOutOfRange => "number out of range"
  | invalidEscape => "invalid escape"
  | controlCharacter => "control character (\\u0000-\\u001F) found while parsing a string"
  | loneSurrogate => "lone leading surrogate in hex escape"
  | unfinishedSurrogate => "unexpected end of hex escape"
  | tooDeep => "recursion limit exceeded"

structure ReadError where
  fault : ReadFault
  line : Nat
  column : Nat
  deriving DecidableEq

def ReadError.message (e : ReadError) : String :=
  s!"{e.fault.message} at line {e.line} column {e.column}"

/-- What is left of the text, and where it stands in the whole. -/
structure Cursor where
  rest : List Char
  line : Nat
  column : Nat

namespace Cursor

def advance (p : Cursor) : Cursor :=
  match p.rest with
  | [] => p
  | c :: r =>
    if c = '\n' then ⟨r, p.line + 1, 0⟩ else ⟨r, p.line, p.column + c.utf8Size⟩

def fail {α : Type} (p : Cursor) (fault : ReadFault) : Except ReadError α :=
  .error ⟨fault, p.line, p.column⟩

def failPast {α : Type} (p : Cursor) (fault : ReadFault) : Except ReadError α :=
  match p.rest with
  | [] => p.fail fault
  | '\n' :: _ => .error ⟨fault, p.line + 1, 0⟩
  | _ :: _ => .error ⟨fault, p.line, p.column + 1⟩

def isSpace (c : Char) : Bool := c = ' ' || c = '\n' || c = '\t' || c = '\r'

def skipFrom (p : Cursor) : Nat → Cursor
  | 0 => p
  | n + 1 =>
    match p.rest with
    | c :: _ => if isSpace c then p.advance.skipFrom n else p
    | [] => p

def skip (p : Cursor) : Cursor := p.skipFrom p.rest.length

def drop (p : Cursor) : Nat → Cursor
  | 0 => p
  | n + 1 => p.advance.drop n

end Cursor

def isDigit (c : Char) : Bool := Decimal.isDigit c

/-- The digits taken into a number while it stays below the limit, and those left over. -/
def accumulate (limit n : Nat) : List Char → Nat × List Char
  | [] => (n, [])
  | c :: r =>
    let next := n * 10 + Decimal.digitValue c
    if next < limit then accumulate limit next r else (n, c :: r)

/-- Scales by a power of ten, in steps of at most 308; absent when out of range. -/
def scaleFrom (x : Binary64) (exponent : Int) : Nat → Option Binary64
  | 0 => some x
  | n + 1 =>
    if exponent.natAbs ≤ 308 then
      let power := Binary64.ofNat (Nat.pow 10 exponent.natAbs)
      let y := if 0 ≤ exponent then x.mul power else x.div power
      if y.isFinite then some y else none
    else if x.isZero then some x
    else if 0 ≤ exponent then none
    else scaleFrom (x.div (Binary64.ofNat (Nat.pow 10 308))) (exponent + 308) n

/-- A sign, an integral significand and a decimal exponent, as a double. -/
def scaled (p : Cursor) (negative : Bool) (significand : Nat) (exponent : Int) :
    Except ReadError (Json × Cursor) :=
  match scaleFrom (Binary64.ofNat significand) exponent 4 with
  | none => p.fail .numberOutOfRange
  | some x => .ok (number (.float (if negative then x.neg else x)), p)

def readExponent (p : Cursor) (negative : Bool) (significand : Nat) (start : Int) :
    Except ReadError (Json × Cursor) :=
  let p := p.advance
  let (negativeExponent, p) := match p.rest with
    | '+' :: _ => (false, p.advance)
    | '-' :: _ => (true, p.advance)
    | _ => (false, p)
  match p.rest with
  | [] => p.fail .endInValue
  | c :: _ =>
    if !isDigit c then p.failPast .invalidNumber
    else
      let ds := p.rest.takeWhile isDigit
      let (value, left) := accumulate (Nat.pow 2 31) 0 ds
      if left.isEmpty then
        let e : Int := if negativeExponent then -(value : Int) else value
        scaled (p.drop ds.length) negative significand (start + e)
      else if significand ≠ 0 && !negativeExponent then
        (p.drop (ds.length - left.length + 1)).fail .numberOutOfRange
      else .ok (number (.float (.ofParts negative 0)), p.drop ds.length)

/-- The places after the point, from the point on. -/
def readPlaces (p : Cursor) (negative : Bool) (significand : Nat) (start : Int) :
    Except ReadError (Json × Cursor) :=
  let p := p.advance
  let ds := p.rest.takeWhile isDigit
  let (value, left) := accumulate (Nat.pow 2 64) significand ds
  if ds.isEmpty then
    match p.rest with
    | [] => p.failPast .endInValue
    | _ => p.failPast .invalidNumber
  else
    let e := start - ((ds.length - left.length : Nat) : Int)
    let p := p.drop ds.length
    match p.rest with
    | 'e' :: _ => readExponent p negative value e
    | 'E' :: _ => readExponent p negative value e
    | _ => scaled p negative value e

/-- An integer that fits 64 bits is kept; the negative of zero is a double. -/
def integer (negative : Bool) (n : Nat) : Json :=
  if !negative then number (.int n)
  else if n = 0 || Nat.pow 2 63 < n then number (.float (Binary64.ofNat n).neg)
  else number (.int (-(n : Int)))

def readNumber (p : Cursor) (negative : Bool) : Except ReadError (Json × Cursor) :=
  match p.rest with
  | [] => p.fail .endInValue
  | c :: _ =>
    if !isDigit c then p.failPast .invalidNumber
    else
      let ds := p.rest.takeWhile isDigit
      if c = '0' && 1 < ds.length then p.advance.failPast .invalidNumber
      else
        let (value, left) := accumulate (Nat.pow 2 64) 0 ds
        let p := p.drop ds.length
        match p.rest with
        | '.' :: _ => readPlaces p negative value left.length
        | 'e' :: _ => readExponent p negative value left.length
        | 'E' :: _ => readExponent p negative value left.length
        | _ =>
          if left.isEmpty then .ok (integer negative value, p)
          else scaled p negative value left.length

/-- The rest of a word, of which the first letter has been read. -/
def readWord (value : Json) (p : Cursor) : List Char → Except ReadError (Json × Cursor)
  | [] => .ok (value, p)
  | w :: ws =>
    match p.rest with
    | [] => p.fail .endInValue
    | c :: _ => if c = w then readWord value p.advance ws else p.failPast .expectedIdent

def hexValue? (c : Char) : Option Nat :=
  if isDigit c then some (c.toNat - '0'.toNat)
  else if 'a' ≤ c && c ≤ 'f' then some (c.toNat - 'a'.toNat + 10)
  else if 'A' ≤ c && c ≤ 'F' then some (c.toNat - 'A'.toNat + 10)
  else none

/-- Four hexadecimal digits. A fault is reported behind the four bytes. -/
def readHex (p : Cursor) : Except ReadError (Nat × Cursor) :=
  match p.rest with
  | a :: b :: c :: d :: _ =>
    match hexValue? a, hexValue? b, hexValue? c, hexValue? d with
    | some a, some b, some c, some d =>
      .ok (((a * 16 + b) * 16 + c) * 16 + d, p.drop 4)
    | _, _, _, _ => faulty p
  | _ => faulty p
where
  /-- Fewer than four bytes are an end; otherwise the position is four bytes on. -/
  faulty (p : Cursor) : Except ReadError (Nat × Cursor) :=
    let bytes := p.rest.flatMap fun c => List.replicate c.utf8Size (c == '\n')
    if bytes.length < 4 then (p.drop p.rest.length).fail .endInString
    else
      let (line, column) := (bytes.take 4).foldl
        (fun (line, column) newline => if newline then (line + 1, 0) else (line, column + 1))
        (p.line, p.column)
      .error ⟨.invalidEscape, line, column⟩

/-- The character of a `\u` escape; one beyond 16 bits is written as two escapes. -/
def readUnicode (p : Cursor) : Except ReadError (Char × Cursor) := do
  let (n, p) ← readHex p
  if 0xDC00 ≤ n && n ≤ 0xDFFF then p.fail .loneSurrogate
  else if n < 0xD800 || 0xDBFF < n then .ok (Char.ofNat n, p)
  else match p.rest with
    | [] => p.fail .endInString
    | '\\' :: r =>
      let p := p.advance
      match r with
      | [] => p.fail .endInString
      | 'u' :: _ =>
        let (m, p) ← readHex p.advance
        if m < 0xDC00 || 0xDFFF < m then p.fail .loneSurrogate
        else .ok (Char.ofNat (0x10000 + (n - 0xD800) * 0x400 + (m - 0xDC00)), p)
      | _ :: _ => p.failPast .unfinishedSurrogate
    | _ :: _ => p.failPast .unfinishedSurrogate

/-- The character of an escape, behind the backslash. -/
def readEscape (p : Cursor) : Except ReadError (Char × Cursor) :=
  match p.rest with
  | [] => p.fail .endInString
  | '"' :: _ => .ok ('"', p.advance)
  | '\\' :: _ => .ok ('\\', p.advance)
  | '/' :: _ => .ok ('/', p.advance)
  | 'b' :: _ => .ok ('\x08', p.advance)
  | 'f' :: _ => .ok ('\x0c', p.advance)
  | 'n' :: _ => .ok ('\n', p.advance)
  | 'r' :: _ => .ok ('\r', p.advance)
  | 't' :: _ => .ok ('\t', p.advance)
  | 'u' :: _ => readUnicode p.advance
  | _ => p.failPast .invalidEscape

def readString (p : Cursor) (done : List Char) : Nat → Except ReadError (String × Cursor)
  | 0 => p.fail .endInString
  | fuel + 1 =>
    match p.rest with
    | [] => p.fail .endInString
    | '"' :: _ => .ok (String.ofList done.reverse, p.advance)
    | '\\' :: _ => do
      let (c, p) ← readEscape p.advance
      readString p (c :: done) fuel
    | c :: _ =>
      if c.toNat < 0x20 then p.failPast .controlCharacter
      else readString p.advance (c :: done) fuel

def readText (p : Cursor) : Except ReadError (String × Cursor) :=
  readString p [] (p.rest.length + 1)

mutual

/-- A value with its leading blanks; `depth` arrays and objects may still be opened. -/
def readValue (depth : Nat) (p : Cursor) : Nat → Except ReadError (Json × Cursor)
  | 0 => p.fail .tooDeep
  | fuel + 1 =>
    let p := p.skip
    match p.rest with
    | [] => p.failPast .endInValue
    | 'n' :: _ => readWord null p.advance ['u', 'l', 'l']
    | 't' :: _ => readWord (bool true) p.advance ['r', 'u', 'e']
    | 'f' :: _ => readWord (bool false) p.advance ['a', 'l', 's', 'e']
    | '-' :: _ => readNumber p.advance true
    | '"' :: _ => do
      let (s, p) ← readText p.advance
      .ok (string s, p)
    | '[' :: _ =>
      if depth ≤ 1 then p.failPast .tooDeep
      else readItems (depth - 1) p.advance [] fuel
    | '\x7b' :: _ =>
      if depth ≤ 1 then p.failPast .tooDeep
      else readEntries (depth - 1) p.advance true [] fuel
    | c :: _ => if isDigit c then readNumber p false else p.failPast .expectedValue
termination_by structural fuel => fuel

/-- The items of an array up to its closing bracket; those read so far are reversed. -/
def readItems (depth : Nat) (p : Cursor) (done : List Json) :
    Nat → Except ReadError (Json × Cursor)
  | 0 => p.fail .tooDeep
  | fuel + 1 =>
    let p := p.skip
    match p.rest with
    | [] => p.failPast .endInList
    | ']' :: _ => .ok (array done.reverse, p.advance)
    | c :: _ =>
      if done.isEmpty then do
        let (v, p) ← readValue depth p fuel
        readItems depth p (v :: done) fuel
      else if c = ',' then
        let p := p.advance.skip
        match p.rest with
        | [] => p.failPast .endInValue
        | ']' :: _ => p.failPast .trailingComma
        | _ => do
          let (v, p) ← readValue depth p fuel
          readItems depth p (v :: done) fuel
      else p.failPast .expectedListEnd
termination_by structural fuel => fuel

/-- The entries of an object up to its closing brace. -/
def readEntries (depth : Nat) (p : Cursor) (first : Bool) (done : List (String × Json)) :
    Nat → Except ReadError (Json × Cursor)
  | 0 => p.fail .tooDeep
  | fuel + 1 =>
    let p := p.skip
    match p.rest with
    | [] => p.failPast .endInObject
    | '\x7d' :: _ => .ok (object done, p.advance)
    | c :: _ =>
      if first then
        if c = '"' then readEntry depth p done fuel else p.failPast .expectedKey
      else if c = ',' then
        let p := p.advance.skip
        match p.rest with
        | [] => p.failPast .endInValue
        | '"' :: _ => readEntry depth p done fuel
        | '\x7d' :: _ => p.failPast .trailingComma
        | _ => p.failPast .expectedKey
      else p.failPast .expectedObjectEnd
termination_by structural fuel => fuel

/-- One entry from its quoted key on, and those after it. -/
def readEntry (depth : Nat) (p : Cursor) (done : List (String × Json)) :
    Nat → Except ReadError (Json × Cursor)
  | 0 => p.fail .tooDeep
  | fuel + 1 => do
    let (key, p) ← readText p.advance
    let p := p.skip
    match p.rest with
    | [] => p.failPast .endInObject
    | ':' :: _ =>
      let (v, p) ← readValue depth p.advance fuel
      readEntries depth p false (Entries.insert key v done) fuel
    | _ => p.failPast .expectedColon
termination_by structural fuel => fuel

end

/-- The value a text denotes. At most 127 arrays and objects may enclose one another. -/
def read (text : String) : Except ReadError Json := do
  let start : Cursor := ⟨text.toList, 1, 0⟩
  let (v, p) ← readValue 128 start (2 * start.rest.length + 2)
  let p := p.skip
  if p.rest.isEmpty then .ok v else p.failPast .trailingCharacters

end SchemaAlgebra.Json

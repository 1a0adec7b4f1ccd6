import SchemaAlgebra.Grammar.Fault
import SchemaAlgebra.Text.CharClass

/-!
# Scanning definitions

A text is split into tokens from left to right. After a fault scanning can go on behind
the characters that were looked at.
-/
namespace SchemaAlgebra

/-- A token or a fault, and the characters left. -/
structure Scan where
  token : Except Fault Token
  rest : List Char

namespace Scan

def isMark (c : Char) : Bool :=
  ['|', '&', '%', '<', '>', '=', '(', ')', '[', ']', '?', '#', '\'', '"', '/'].contains c

def isWordChar (c : Char) : Bool := !Text.isBlank c && !isMark c

def skipBlanks (cs : List Char) : List Char := cs.dropWhile Text.isBlank

def ok (t : Token) (rest : List Char) : Scan := ⟨.ok t, rest⟩

def fault (f : Fault) (rest : List Char) : Scan := ⟨.error f, rest⟩

/-- What a backslash and the next character stand for within delimiters. Regular
expressions keep their escapes. -/
def escape (d c : Char) : List Char :=
  if d != '/' && (c = d || c = '\\') then [c] else ['\\', c]

/-- The text up to the delimiter and the characters behind it; `text` is what was read so
far, backwards. -/
def enclosed (d : Char) (text : List Char) : List Char → Scan
  | [] => fault (.unclosed d (String.ofList text.reverse)) []
  | '\\' :: [] => fault (.unclosed d (String.ofList ('\\' :: text).reverse)) []
  | '\\' :: c :: r => enclosed d ((escape d c).reverse ++ text) r
  | c :: r =>
    if c = d then ok (.enclosed d (String.ofList text.reverse)) r
    else enclosed d (c :: text) r

/-- A comparator that an equals sign makes inclusive. -/
def compared (strict inclusive : Comparator) : List Char → Scan
  | '=' :: r => ok (.comparator inclusive) r
  | r => ok (.comparator strict) r

def afterEquals : List Char → Scan
  | '=' :: r => ok (.comparator .eq) r
  | r => fault .loneEquals r

def afterBracket (cs : List Char) : Scan :=
  match skipBlanks cs with
  | ']' :: r => ok .list r
  | r => fault .openBracket r

def afterHash (cs : List Char) : Scan :=
  let name := cs.takeWhile isWordChar
  let rest := cs.dropWhile isWordChar
  if name.isEmpty then fault .namelessBrand rest else ok (.brand (String.ofList name)) rest

/-- The token that starts with the given character. -/
def startingWith (c : Char) (r : List Char) : Scan :=
  match c with
  | '|' => ok .bar r
  | '&' => ok .ampersand r
  | '%' => ok .percent r
  | '(' => ok .groupOpen r
  | ')' => ok .groupClose r
  | '?' => ok .optional r
  | '<' => compared .lt .le r
  | '>' => compared .gt .ge r
  | '=' => afterEquals r
  | '[' => afterBracket r
  | ']' => fault .closeBracket r
  | '#' => afterHash r
  | '\'' => enclosed '\'' [] r
  | '"' => enclosed '"' [] r
  | '/' => enclosed '/' [] r
  | c => ok (.word (String.ofList (c :: r.takeWhile isWordChar))) (r.dropWhile isWordChar)

def first (cs : List Char) : Scan :=
  match skipBlanks cs with
  | [] => ok .finish []
  | c :: r => startingWith c r

/-- The tokens of a text up to its end or the first fault, that included; every token
takes at least one character. -/
def upTo : Nat → List Char → List (Except Fault Token)
  | 0, _ => []
  | n + 1, cs =>
    let s := first cs
    match s.token with
    | .ok .finish => [.ok .finish]
    | .ok t => .ok t :: upTo n s.rest
    | .error f => [.error f]

def all (text : String) : List (Except Fault Token) := upTo (text.length + 1) text.toList

end Scan

/-- A text and possibly a token that was already looked at. -/
structure Scanner where
  rest : List Char
  ahead : Option Token

namespace Scanner

def ofText (text : String) : Scanner := ⟨text.toList, none⟩

/-- The next token, which stays the next one. -/
def peek (s : Scanner) : Except Fault Token × Scanner :=
  match s.ahead with
  | some t => (.ok t, s)
  | none =>
    let scan := Scan.first s.rest
    match scan.token with
    | .ok t => (.ok t, ⟨scan.rest, some t⟩)
    | .error f => (.error f, ⟨scan.rest, none⟩)

def next (s : Scanner) : Except Fault Token × Scanner :=
  match s.ahead with
  | some t => (.ok t, { s with ahead := none })
  | none =>
    let scan := Scan.first s.rest
    (scan.token, ⟨scan.rest, none⟩)

end Scanner

end SchemaAlgebra

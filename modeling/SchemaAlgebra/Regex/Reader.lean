import SchemaAlgebra.Number.Decimal
import SchemaAlgebra.Regex.Expr
import SchemaAlgebra.Regex.Property

/-!
# Reading regular expressions

There is no look-around and no back reference, so a match takes time linear in the text.
Flags hold from where they are set to the end of the enclosing group. With the flag `x`
blanks and comments between the parts are skipped. Parts may be nested 250 deep.
-/
namespace SchemaAlgebra.Regex

structure Flags where
  ignoreCase : Bool
  multiLine : Bool
  dotAll : Bool
  crlf : Bool
  unicode : Bool
  verbose : Bool

def Flags.default : Flags := ⟨false, false, false, false, true, false⟩

def Flags.set? (f : Flags) (letter : Char) (value : Bool) : Option Flags :=
  match letter with
  | 'i' => some { f with ignoreCase := value }
  | 'm' => some { f with multiLine := value }
  | 's' => some { f with dotAll := value }
  | 'R' => some { f with crlf := value }
  | 'u' => some { f with unicode := value }
  | 'x' => some { f with verbose := value }
  | 'U' => some f
  | _ => none

/-- The set with the case of letters ignored, if the flags say so. -/
def Flags.fold (f : Flags) (s : CharSet) : CharSet :=
  if !f.ignoreCase then s else if f.unicode then .folded s else .foldedAscii s

def skipVerbose : List Char → List Char
  | [] => []
  | c :: r =>
    if Text.isBlank c then skipVerbose r
    else if c = '#' then skipComment r
    else c :: r
where
  /-- Past the end of the line. -/
  skipComment : List Char → List Char
    | [] => []
    | c :: r => if c = '\n' then skipVerbose r else skipComment r

def Flags.skip (f : Flags) (cs : List Char) : List Char := if f.verbose then skipVerbose cs else cs

/-- What an escape stands for. -/
inductive Escape where
  | literal (c : Char)
  | set (s : CharSet)
  | look (l : Look)

def hexValue? (c : Char) : Option Nat :=
  if '0' ≤ c && c ≤ '9' then some (c.toNat - '0'.toNat)
  else if 'a' ≤ c && c ≤ 'f' then some (c.toNat - 'a'.toNat + 10)
  else if 'A' ≤ c && c ≤ 'F' then some (c.toNat - 'A'.toNat + 10)
  else none

def scalar? (n : Nat) : Option Char := if n.isValidChar then some (Char.ofNat n) else none

/-- Exactly `n` hexadecimal digits, blanks between them skipped. -/
def hexDigits? (f : Flags) (value : Nat) : Nat → List Char → Option (Nat × List Char)
  | 0, cs => some (value, cs)
  | n + 1, cs =>
    match f.skip cs with
    | [] => none
    | c :: r => (hexValue? c).bind fun d => hexDigits? f (16 * value + d) n r

/-- Hexadecimal digits up to a closing brace. -/
def hexBraced? (f : Flags) (value count : Nat) : Nat → List Char → Option (Nat × List Char)
  | 0, _ => none
  | fuel + 1, cs =>
    match f.skip cs with
    | [] => none
    | c :: r =>
      if c = '\x7d' then (if count = 0 then none else some (value, r))
      else (hexValue? c).bind fun d => hexBraced? f (16 * value + d) (count + 1) fuel r

/-- The number of a character in hexadecimal: in braces, or with `n` digits. -/
def hexEscape? (f : Flags) (n : Nat) (cs : List Char) : Option (Escape × List Char) :=
  let cs := f.skip cs
  let found := match cs with
    | '\x7b' :: r => hexBraced? f 0 0 (r.length + 1) r
    | r => hexDigits? f 0 n r
  found.bind fun (value, r) => (scalar? value).map fun c => (.literal c, f.skip r)

def boundaryOf? (name : String) : Option Look :=
  match name with
  | "start" => some .wordStart
  | "end" => some .wordEnd
  | "start-half" => some .wordStartHalf
  | "end-half" => some .wordEndHalf
  | _ => none

def isBoundaryLetter (c : Char) : Bool := c.isAlpha || c = '-'

/-- The letters of a boundary's name, blanks between them skipped. -/
def boundaryName (f : Flags) (done : List Char) : Nat → List Char → List Char × List Char
  | 0, cs => (done.reverse, cs)
  | fuel + 1, cs =>
    match f.skip cs with
    | [] => (done.reverse, [])
    | c :: r =>
      if isBoundaryLetter c then boundaryName f (c :: done) fuel r else (done.reverse, c :: r)

/-- A word boundary, which may carry the name of a special one in braces. -/
def boundary? (f : Flags) (cs : List Char) : Option (Escape × List Char) :=
  match cs with
  | '\x7b' :: r =>
    match f.skip r with
    | [] => none
    | c :: r =>
      if !isBoundaryLetter c then some (.look .wordBoundary, cs)
      else
        let (name, rest) := boundaryName f [] (r.length + 2) (c :: r)
        match rest with
        | '\x7d' :: rest => (boundaryOf? (String.ofList name)).map fun l => (.look l, rest)
        | _ => none
  | _ => some (.look .wordBoundary, cs)

/-- A class of characters by its letter, the complement by the capital letter. Without
Unicode the complement would hold parts of characters, so it is refused. -/
def perlClass? (f : Flags) (c : Char) : Option CharSet :=
  let positive? : Option CharSet := match c.toLower with
    | 'd' => some (if f.unicode then .digit else .asciiDigit)
    | 's' => some (if f.unicode then .blank else .asciiBlank)
    | 'w' => some (if f.unicode then .word else .asciiWord)
    | _ => none
  positive?.bind fun s =>
    if c.isLower then some s else if f.unicode then some (.complement s) else none

def bracedName? (f : Flags) (done : List Char) :
    Nat → List Char → Option (List Char × List Char)
  | 0, _ => none
  | fuel + 1, cs =>
    match f.skip cs with
    | [] => none
    | '\x7d' :: r => some (done.reverse, r)
    | c :: r => bracedName? f (c :: done) fuel r

/-- The characters that have a property, or all others. The name of the property is one
letter, or stands in braces. -/
def property? (f : Flags) (negated : Bool) (cs : List Char) : Option (CharSet × List Char) := do
  let (s, rest) ← match f.skip cs with
    | [] => none
    | '\\' :: _ => none
    | '\x7b' :: r => (bracedName? f [] (r.length + 1) r).bind fun (name, rest) =>
      (CharSet.ofBraces? name).map (·, rest)
    | c :: r => (CharSet.ofProperty? [c]).map (·, f.skip r)
  if !f.unicode then none
  else if negated then some (.complement (f.fold s), rest)
  else some (f.fold s, rest)

def isEscapable (c : Char) : Bool :=
  c.toNat < 0x80 && !c.isAlphanum && c != '<' && c != '>'

def escape? (f : Flags) : List Char → Option (Escape × List Char)
  | [] => none
  | c :: r =>
    match c with
    | 'x' => hexEscape? f 2 r
    | 'u' => hexEscape? f 4 r
    | 'U' => hexEscape? f 8 r
    | 'a' => some (.literal '\x07', r)
    | 'f' => some (.literal '\x0c', r)
    | 't' => some (.literal '\t', r)
    | 'n' => some (.literal '\n', r)
    | 'r' => some (.literal '\r', r)
    | 'v' => some (.literal '\x0b', r)
    | 'A' => some (.look .textStart, r)
    | 'z' => some (.look .textEnd, r)
    | 'b' => boundary? f r
    | 'B' => some (.look .notWordBoundary, r)
    | '<' => some (.look .wordStart, r)
    | '>' => some (.look .wordEnd, r)
    | 'p' => (property? f false r).map fun (s, r) => (.set s, r)
    | 'P' => (property? f true r).map fun (s, r) => (.set s, r)
    | _ =>
      if isEscapable c then some (.literal c, r)
      else (perlClass? f c).map fun s => (.set s, r)

/-- What was read, and how deep its parts are nested. -/
structure Nested (α : Type) where
  value : α
  depth : Nat

/-- Several parts side by side are one level deeper than the deepest of them. -/
def joinDepth : List Nat → Nat
  | [] => 0
  | [depth] => depth
  | depths => depths.foldl max 0 + 1

inductive SetOperator where
  | intersection
  | difference
  | symmetricDifference

def SetOperator.apply (f : Flags) : SetOperator → CharSet → CharSet → CharSet
  | intersection, s, t => .intersection (f.fold s) (f.fold t)
  | difference, s, t => .difference (f.fold s) (f.fold t)
  | symmetricDifference, s, t => .symmetricDifference (f.fold s) (f.fold t)

/-- The set read so far: the operands before the last operator, and the items after it, the last one
first. -/
structure PartialSet where
  left : Option (SetOperator × Nested CharSet)
  right : List (Nested CharSet)

def PartialSet.value (f : Flags) (p : PartialSet) : Nested CharSet :=
  let right := p.right.foldr (fun item s => .union s item.value) .empty
  let depth := joinDepth (p.right.map (·.depth))
  match p.left with
  | none => ⟨right, depth⟩
  | some (op, s) => ⟨op.apply f s.value right, max s.depth depth + 1⟩

def PartialSet.add (p : PartialSet) (s : Nested CharSet) : PartialSet :=
  { p with right := s :: p.right }

/-- A class such as `[:alpha:]`, behind its opening bracket. Without Unicode its complement would
hold parts of characters, so it is a class that stands for nothing. -/
def asciiClass? (f : Flags) (cs : List Char) : Option (Option CharSet × List Char) :=
  match cs with
  | ':' :: r =>
    let (negated, r) := match r with
      | '^' :: r => (true, r)
      | r => (false, r)
    let name := r.takeWhile (· != ':')
    match r.dropWhile (· != ':') with
    | ':' :: ']' :: rest =>
      (CharSet.named? (String.ofList name)).map fun s =>
        (if !negated then some s else if f.unicode then some (.complement (f.fold s)) else none,
          rest)
    | _ => none
  | _ => none

/-- A literal character of a set or a class by its letter. -/
def setItem? (f : Flags) : List Char → Option (Escape × List Char)
  | [] => none
  | '\\' :: r => escape? f r
  | c :: r => some (.literal c, r)

/-- A literal may stand in a set unless it is no byte where Unicode is off. -/
def literalSet? (f : Flags) (c : Char) : Option CharSet :=
  if f.unicode || c.toNat < 0x80 then some (.single c) else none

def setRange? (f : Flags) (cs : List Char) : Option (CharSet × List Char) := do
  let (first, rest) ← setItem? f cs
  let rest := f.skip rest
  let single : Option (CharSet × List Char) := match first with
    | .literal c => (literalSet? f c).map (·, rest)
    | .set s => some (s, rest)
    | .look _ => none
  match rest with
  | [] => none
  | '-' :: r =>
    match f.skip r with
    | [] => none
    | ']' :: _ => single
    | '-' :: _ => single
    | r =>
      let (second, rest) ← setItem? f r
      match first, second with
      | .literal lo, .literal hi =>
        if lo ≤ hi && (f.unicode || hi.toNat < 0x80) then some (.range lo hi, rest) else none
      | _, _ => none
  | _ => single

/-- Hyphens at the front of a set are literal, and so is a bracket in first place. -/
def setFront (f : Flags) (p : PartialSet) : Nat → List Char → Option (PartialSet × List Char)
  | 0, _ => none
  | fuel + 1, cs =>
    match cs with
    | '-' :: r =>
      match f.skip r with
      | [] => none
      | r => setFront f (p.add ⟨.single '-', 0⟩) fuel r
    | r => some (p, r)

def charSet? (f : Flags) : Nat → List Char → Option (Nested CharSet × List Char)
  | 0, _ => none
  | fuel + 1, cs => do
    let cs := f.skip cs
    let (negated, cs) := match cs with
      | '^' :: r => (true, f.skip r)
      | r => (false, r)
    let (p, rest) ← setFront f ⟨none, []⟩ (cs.length + 1) cs
    let (p, rest) ← match cs, rest with
      | ']' :: _, ']' :: r =>
        if (f.skip r).isEmpty then none else some (p.add ⟨.single ']', 0⟩, f.skip r)
      | _, r => if r.isEmpty then none else some (p, r)
    let (s, rest) ← items fuel (rest.length + 1) p rest
    if negated then
      if f.unicode then some (⟨.complement (f.fold s.value), s.depth + 1⟩, rest) else none
    else some (⟨f.fold s.value, s.depth + 1⟩, rest)
where
  /-- The items up to the closing bracket; nested sets take from the first budget. -/
  items (nesting : Nat) : Nat → PartialSet → List Char → Option (Nested CharSet × List Char)
    | 0, _, _ => none
    | fuel + 1, p, cs =>
      match f.skip cs with
      | [] => none
      | ']' :: r => some (p.value f, r)
      | '&' :: '&' :: r => items nesting fuel ⟨some (.intersection, p.value f), []⟩ r
      | '-' :: '-' :: r => items nesting fuel ⟨some (.difference, p.value f), []⟩ r
      | '~' :: '~' :: r => items nesting fuel ⟨some (.symmetricDifference, p.value f), []⟩ r
      | '[' :: r =>
        match asciiClass? f r with
        | some (some s, rest) => items nesting fuel (p.add ⟨s, 0⟩) rest
        | some (none, _) => none
        | none => do
          let (s, rest) ← charSet? f nesting r
          items nesting fuel (p.add s) rest
      | r => do
        let (s, rest) ← setRange? f r
        items nesting fuel (p.add ⟨s, 0⟩) rest

/-- The flags before a colon or a closing bracket, which comes with the text behind it.
A hyphen turns off those that follow; none may be given twice. -/
def flagItems? (f : Flags) (seen : List Char) (value pending : Bool) :
    List Char → Option (Flags × Bool × Char × List Char)
  | [] => none
  | c :: r =>
    if c = ':' || c = ')' then
      if pending then none else some (f, seen.isEmpty, c, r)
    else if seen.contains c then none
    else if c = '-' then flagItems? f (c :: seen) false true r
    else (f.set? c value).bind fun f => flagItems? f (c :: seen) value false r

def isNameStart (c : Char) : Bool := c = '_' || CharSet.alphabetic.contains c

def isNamePart (c : Char) : Bool :=
  isNameStart c || (CharSet.categories ["Nd", "Nl", "No"]).contains c || c = '.' ||
    c = '[' || c = ']'

/-- The name of a group up to its closing angle. -/
def groupName? (cs : List Char) : Option (String × List Char) :=
  let name := cs.takeWhile (· != '>')
  match name, cs.dropWhile (· != '>') with
  | c :: r, '>' :: rest =>
    if isNameStart c && r.all isNamePart then some (String.ofList name, rest) else none
  | _, _ => none

/-- What an opening bracket begins. -/
inductive Opening where
  | flags (f : Flags)
  | group (f : Flags) (name : Option String)

def opening? (f : Flags) (cs : List Char) : Option (Opening × List Char) :=
  match f.skip cs with
  | '?' :: '=' :: _ => none
  | '?' :: '!' :: _ => none
  | '?' :: '<' :: '=' :: _ => none
  | '?' :: '<' :: '!' :: _ => none
  | '?' :: 'P' :: '<' :: r => (groupName? r).map fun (name, r) => (.group f (some name), r)
  | '?' :: '<' :: r => (groupName? r).map fun (name, r) => (.group f (some name), r)
  | '?' :: r =>
    (flagItems? f [] true false r).bind fun (g, isEmpty, last, r) =>
      if last = ':' then some (.group g none, r)
      else if isEmpty then none
      else some (.flags g, r)
  | r => some (.group f none, r)

/-- A decimal number of 32 bits with blanks around it; absent if there are no digits. -/
def count? (f : Flags) (cs : List Char) : Option (Option Nat × List Char) :=
  let start := cs.dropWhile Text.isBlank
  let (ds, rest) := run start.length [] start
  let rest := rest.dropWhile Text.isBlank
  if ds.isEmpty then some (none, rest)
  else
    let n := Decimal.valueOf ds
    if n < Nat.pow 2 32 then some (some n, f.skip rest) else none
where
  /-- The leading digits, blanks between them skipped. -/
  run : Nat → List Char → List Char → List Char × List Char
    | 0, done, cs => (done.reverse, cs)
    | fuel + 1, done, cs =>
      match cs with
      | c :: r => if Decimal.isDigit c then run fuel (c :: done) (f.skip r) else (done.reverse, cs)
      | [] => (done.reverse, [])

/-- Past the mark that makes a repetition lazy. -/
def skipLazy : List Char → List Char
  | '?' :: r => r
  | r => r

/-- The bounds of a counted repetition, behind its opening brace. -/
def counted? (f : Flags) (cs : List Char) : Option (Nat × Option Nat × List Char) := do
  let (least, cs) ← count? f (f.skip cs)
  match cs with
  | ',' :: r =>
    match f.skip r with
    | '\x7d' :: r => (least.map fun n => (n, none, skipLazy (f.skip r)))
    | r =>
      let least ← least
      let (most, cs) ← count? f r
      let most ← most
      match cs with
      | '\x7d' :: r => if least ≤ most then some (least, some most, skipLazy (f.skip r)) else none
      | _ => none
  | '\x7d' :: r => least.map fun n => (n, some n, skipLazy (f.skip r))
  | _ => none

/-- A literal character, with its variants if case is ignored. -/
def literal (f : Flags) (c : Char) : Expr := .chars (f.fold (.single c))

/-- Any character but those that end a line. Without Unicode it would match parts of
characters, so it is refused. -/
def dot? (f : Flags) : Option Expr :=
  if !f.unicode then none
  else if f.dotAll then some (.chars .all)
  else if f.crlf then some (.chars (.complement (.union (.single '\n') (.single '\r'))))
  else some (.chars (.complement (.single '\n')))

def lineStart (f : Flags) : Look :=
  if !f.multiLine then .textStart else if f.crlf then .crlfLineStart else .lineStart

def lineEnd (f : Flags) : Look :=
  if !f.multiLine then .textEnd else if f.crlf then .crlfLineEnd else .lineEnd

def escapeExpr (f : Flags) : Escape → Expr
  | .literal c => literal f c
  | .set s => .chars s
  | .look l => .look f.unicode l

/-- The parts of a sequence, last one first. A change of flags is no part. -/
abbrev Parts := List (Nested (Option Expr))

def sequence (parts : Parts) : Nested Expr :=
  let e := parts.foldl (fun e part => match part.value with
    | some p => (match e with
      | .nothing => p
      | e => .concat p e)
    | none => e) .nothing
  ⟨e, joinDepth (parts.map (·.depth))⟩

def alternatives (done : List (Nested Expr)) (last : Nested Expr) : Nested Expr :=
  let depths := last.depth :: done.map (·.depth)
  ⟨done.foldl (fun e d => .alternate d.value e) last.value, joinDepth depths⟩

def repeatLast? (parts : Parts) (least : Nat) (most : Option Nat) : Option Parts :=
  match parts with
  | ⟨some e, depth⟩ :: r => some (⟨some (.times e least most), depth + 1⟩ :: r)
  | _ => none

/-- A group up to its closing bracket, or a whole expression up to the end of the text.
The names given to groups so far are kept, as none may be given twice. -/
def group? (inner : Bool) (f : Flags) (names : List String) (done : List (Nested Expr))
    (parts : Parts) : Nat → List Char → Option (Nested Expr × List String × List Char)
  | 0, _ => none
  | fuel + 1, cs =>
    match f.skip cs with
    | [] => if inner then none else some (alternatives done (sequence parts), names, [])
    | c :: r =>
      let leaf (e : Expr) : Parts := ⟨some e, 0⟩ :: parts
      match c with
      | ')' => if inner then some (alternatives done (sequence parts), names, r) else none
      | '|' => group? inner f names (sequence parts :: done) [] fuel r
      | '(' => do
        let (opening, r) ← opening? f r
        match opening with
        | .flags g => group? inner g names done (⟨none, 0⟩ :: parts) fuel r
        | .group g name =>
          if name.any names.contains then none
          else do
            let (e, names, r) ← group? true g (name.toList ++ names) [] [] fuel r
            group? inner f names done (⟨some e.value, e.depth + 1⟩ :: parts) fuel r
      | '[' => do
        let (s, r) ← charSet? f (r.length + 1) r
        group? inner f names done (⟨some (.chars s.value), s.depth⟩ :: parts) fuel r
      | '?' => do group? inner f names done (← repeatLast? parts 0 (some 1)) fuel (skipLazy r)
      | '*' => do group? inner f names done (← repeatLast? parts 0 none) fuel (skipLazy r)
      | '+' => do group? inner f names done (← repeatLast? parts 1 none) fuel (skipLazy r)
      | '\x7b' => do
        let (least, most, r) ← counted? f r
        group? inner f names done (← repeatLast? parts least most) fuel r
      | '\\' => do
        let (e, r) ← escape? f r
        group? inner f names done (leaf (escapeExpr f e)) fuel r
      | '.' => do group? inner f names done (leaf (← dot? f)) fuel r
      | '^' => group? inner f names done (leaf (.look f.unicode (lineStart f))) fuel r
      | '$' => group? inner f names done (leaf (.look f.unicode (lineEnd f))) fuel r
      | c => group? inner f names done (leaf (literal f c)) fuel r

/-- The largest automaton that is accepted, in bytes. -/
def weightLimit : Nat := 10 * Nat.pow 2 20

def depthLimit : Nat := 250

/-- The expression a source denotes; absent if it is malformed, too deep or too large. -/
def read? (source : String) : Option Expr :=
  let cs := source.toList
  (group? false .default [] [] [] (2 * cs.length + 2) cs).bind fun (e, _, _) =>
    if e.depth ≤ depthLimit && e.value.weight ≤ weightLimit then some e.value else none

end SchemaAlgebra.Regex

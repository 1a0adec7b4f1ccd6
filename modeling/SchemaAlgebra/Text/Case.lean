import SchemaAlgebra.Text.CaseTable

/-!
# Letter case

Full case mapping of texts, and the letters that differ from a letter in case only.
-/
namespace SchemaAlgebra.Text

def mapped (runs : List CaseRun) (c : Char) : Char :=
  match runs.find? (·.holds c) with
  | some r => r.image c
  | none => c

def isCased (c : Char) : Bool := inRanges casedRanges c
def isCaseIgnorable (c : Char) : Bool := inRanges caseIgnorableRanges c

/-- Whether the nearest character that is not ignorable has case. -/
def meetsCased (cs : List Char) : Bool :=
  match cs.dropWhile isCaseIgnorable with
  | c :: _ => isCased c
  | [] => false

/-- A sigma that ends a word has a form of its own. -/
def lowerOf (before : List Char) (c : Char) (after : List Char) : List Char :=
  if c = 'Σ' then
    if meetsCased before && !meetsCased after then ['ς'] else ['σ']
  else if c = 'İ' then ['i', Char.ofNat 0x307]
  else if c.toNat < 0x80 then [c.toLower]
  else [mapped lowerRuns c]

/-- The lower case of a text, of which `before` has been read, last character first. -/
def lowerFrom (before : List Char) : List Char → List Char
  | [] => []
  | c :: r => lowerOf before c r ++ lowerFrom (c :: before) r

def toLowercase (text : String) : String := String.ofList (lowerFrom [] text.toList)

def upperOf (c : Char) : List Char :=
  if c.toNat < 0x80 then [c.toUpper]
  else match upperExpansions.lookup c.toNat with
    | some letters => letters.map Char.ofNat
    | none => [mapped upperRuns c]

def toUppercase (text : String) : String := String.ofList (text.toList.flatMap upperOf)

/-- The character and all that differ from it in case only. -/
def caseVariants (c : Char) : List Char :=
  c :: (foldRuns.filter (·.holds c)).map (·.image c)

end SchemaAlgebra.Text

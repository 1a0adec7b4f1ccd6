import SchemaAlgebra.Json.Text
import SchemaAlgebra.Node.Identity

/-!
# Writing nodes as definitions

A node is written in the grammar if it can be, and otherwise as nested JSON: tuples such as
`[left, "|", right]`, objects with marked keys, and arrays of item definitions.
-/
namespace SchemaAlgebra.Node

/-- Whether a text needs brackets before it can be followed by an array mark. -/
def hasOperator (text : String) : Bool :=
  text.toList.any fun c => ['|', '&', '<', '>', '=', '%', '#'].contains c

def arrayOf (element : String) : String :=
  if hasOperator element then "(" ++ element ++ ")[]" else element ++ "[]"

def isArrayBasis (n : Node) : Bool :=
  match n.constraint with
  | .basis .array => true
  | _ => false

/-- The parts of an intersection as they are met. -/
structure Phrase where
  base : Option String
  isString : Bool
  range : Option Range
  suffixes : List String
  patterns : Option String

namespace Phrase

def empty : Phrase := ⟨none, false, none, [], none⟩

def addSuffix (p : Phrase) (text : String) : Phrase := { p with suffixes := p.suffixes ++ [text] }

def bounded (p : Phrase) : String :=
  match p.base, p.range with
  | some base, some range => range.applied base
  | some base, none => base
  | none, some range => range.expression
  | none, none => ""

def append (text part : String) : String :=
  if text.isEmpty then String.ofList (part.toList.dropWhile (· = '&')) else text ++ part

/-- A pattern alone already implies the domain of texts. -/
def text (p : Phrase) : String :=
  let whole := p.suffixes.foldl append p.bounded
  match p.patterns with
  | none => whole
  | some patterns =>
    if p.isString && p.range.isNone && p.suffixes.isEmpty then patterns
    else if whole.isEmpty then patterns
    else whole ++ "&" ++ patterns

end Phrase

mutual

/-- The node in the grammar, if it can be written there. -/
def text? : Node → Option String
  | of (.domain d) => some d.name
  | of (.literal l) => some l.expression
  | of (.basis b) => some b.name
  | of (.bound r) => some r.expression
  | of (.divisor n) => some ("%" ++ toString n)
  | of (.patterns ps) => some (Pattern.conjunction ps)
  | of (.props _) => none
  | of (.brand name) => some ("#" ++ name)
  | of (.deferred name _) => some name
  | of (.morph _ _) => none
  | of (.union branches) =>
    if branches.isEmpty then some "never" else (texts? branches).map (String.intercalate "|")
  | of (.intersection children) =>
    if children.isEmpty then some "unknown"
    else (gather? (children.any isArrayBasis) .empty children).map (·.text)

def texts? : List Node → Option (List String)
  | [] => some []
  | n :: r => (text? n).bind fun t => (texts? r).map (t :: ·)

/-- The parts of an intersection. Properties can be written only as the element of an array. -/
def gather? (isArray : Bool) (p : Phrase) : List Node → Option Phrase
  | [] => some p
  | of (.domain d) :: r =>
    gather? isArray { p with base := some d.name, isString := d == .string } r
  | of (.literal l) :: r => gather? isArray { p with base := some l.expression } r
  | of (.basis b) :: r => gather? isArray { p with base := some b.name } r
  | of (.bound range) :: r => gather? isArray { p with range := some range } r
  | of (.divisor n) :: r => gather? isArray (p.addSuffix ("%" ++ toString n)) r
  | of (.patterns ps) :: r => gather? isArray { p with patterns := some (Pattern.conjunction ps) } r
  | of (.props ⟨[], [], [], some ⟨[], some element⟩⟩) :: r =>
    if isArray then
      (text? element).bind fun t => gather? isArray { p with base := some (arrayOf t) } r
    else none
  | of (.props _) :: _ => none
  | of (.brand name) :: r => gather? isArray (p.addSuffix ("#" ++ name)) r
  | of (.deferred name _) :: r => gather? isArray (p.addSuffix ("&" ++ name)) r
  | of (.morph _ _) :: _ => none
  | of (.union _) :: _ => none
  | of (.intersection _) :: _ => none

end

/-- Nests values to the left as `[left, operator, right]`. -/
def chain (operator : String) : List Json → Json
  | [] => .string (if operator = "|" then "never" else "unknown")
  | v :: r => r.foldl (fun acc next => .array [acc, .string operator, next]) v

/-- A key that would be read as optional or as a signature gets a backslash. -/
def escapedKey (key : String) : String :=
  let cs := key.toList
  if cs.getLast? == some '?' || cs.head? == some '[' || cs.head? == some '\\' then
    String.ofList ('\\' :: cs)
  else key

def objectOf (required optional index : List (String × Json)) : Json :=
  .object (Entries.ofList (required ++ optional ++ index))

/-- The definition of an array by that of its element. -/
def arrayDefinition (text : Option String) (definition : Json) : Json :=
  match text with
  | some t => .string (arrayOf t)
  | none => .array [definition, .string "[]"]

def orText (n : Node) (other : Json) : Json :=
  match n.text? with
  | some t => .string t
  | none => other

def orTextOf (n : Node) (definition : Json) : String :=
  match n.text? with
  | some t => t
  | none => definition.toText

mutual

def definition : Node → Json
  | of (.union branches) => orText (of (.union branches)) (chain "|" (definitions branches))
  | of (.morph input steps) =>
    steps.foldl (fun acc s => .array [acc, .string "=>", .string s.name]) (definition input)
  | of (.props ⟨required, optional, index, _⟩) =>
    objectOf (entryDefinitions "" required) (entryDefinitions "?" optional)
      (indexDefinitions index)
  | of (.intersection children) =>
    let isArray := children.any isArrayBasis
    orText (of (.intersection children))
      (chain "&" ((structural? isArray children).toList ++ others isArray children))
  | n => orText n (.string "")

def definitions : List Node → List Json
  | [] => []
  | n :: r => definition n :: definitions r

def entryDefinitions (mark : String) : List (String × Node) → List (String × Json)
  | [] => []
  | (k, n) :: r => (escapedKey k ++ mark, definition n) :: entryDefinitions mark r

def indexDefinitions : List (Signature Node) → List (String × Json)
  | [] => []
  | ⟨k, v⟩ :: r =>
    ("[" ++ orTextOf k (definition k) ++ "]", definition v) :: indexDefinitions r

/-- The item definitions of an array, the further items behind three points. -/
def sequenceDefinition (hasNamed : Bool) : Sequence Node → Json
  | ⟨items, none⟩ => .array (definitions items)
  | ⟨items, some n⟩ =>
    let rest := arrayDefinition (text? n) (definition n)
    if items.isEmpty && !hasNamed then rest
    else .array (definitions items ++ [.string "...", rest])

/-- The object or array that an intersection describes, from its last properties. -/
def structural? (isArray : Bool) : List Node → Option Json
  | [] => none
  | of (.props ⟨required, optional, index, some sequence⟩) :: r =>
    let named := !required.isEmpty || !optional.isEmpty || !index.isEmpty
    let here :=
      if isArray then sequenceDefinition named sequence
      else objectOf (entryDefinitions "" required) (entryDefinitions "?" optional)
        (indexDefinitions index)
    some ((structural? isArray r).getD here)
  | of (.props ⟨required, optional, index, none⟩) :: r =>
    some ((structural? isArray r).getD
      (objectOf (entryDefinitions "" required) (entryDefinitions "?" optional)
        (indexDefinitions index)))
  | _ :: r => structural? isArray r

/-- The definitions of the conjuncts that the structural one does not imply. -/
def others (isArray : Bool) : List Node → List Json
  | [] => []
  | of (.props _) :: r => others isArray r
  | of (.domain .object) :: r =>
    if isArray then definition (of (.domain .object)) :: others isArray r else others isArray r
  | of (.basis .array) :: r => others isArray r
  | n :: r => definition n :: others isArray r

end

/-- The node in the grammar, or else the text of its definition. -/
def expression (n : Node) : String :=
  match n.text? with
  | some t => t
  | none => n.definition.toText

end SchemaAlgebra.Node

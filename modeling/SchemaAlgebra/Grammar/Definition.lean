import SchemaAlgebra.Grammar.Expression

/-!
# Nested definitions

A definition is a grammar text, an object of properties and signatures, or an array: a
tuple of items, or an expression with its operator in the second place.
-/
namespace SchemaAlgebra

variable [Library]

namespace Definition

open Parsing

/-- What the key of an object definition declares. -/
inductive Key where
  | named (name : String) (optional : Bool)
  /-- The definition of the keys of a signature. -/
  | signature (text : String)

/-- Brackets mark a signature, a question mark behind a key makes it optional, and a
backslash in front takes the rest as it is. -/
def Key.ofText (text : String) : Key :=
  let cs := text.toList
  match cs, cs.reverse with
  | '[' :: r, ']' :: _ :: _ => .signature (String.ofList r.dropLast)
  | '\\' :: r, _ => .named (String.ofList r) false
  | _, '?' :: r => .named (String.ofList r.reverse) true
  | _, _ => .named text false

/-- Adds a named key; of two with one name and mark the later counts. -/
def addNamed (p : Props Node) (name : String) (n : Node) (optional : Bool) : Props Node :=
  if optional then { p with optional := Entries.insert name n p.optional }
  else { p with required := Entries.insert name n p.required }

def addSignature (p : Props Node) (key value : Node) : Props Node :=
  { p with index := p.index ++ [⟨key, value⟩] }

def finishObject (p : Props Node) : Parsing Node := do
  let normal ← attempt (normalize p)
  build (Traced.object normal)

/-- The element that the conjuncts require of an array, if they require nothing else. -/
def elementOf (isArray : Bool) (element : Option Node) : List Node → Option Node
  | [] => if isArray then element else none
  | .of (.basis .array) :: r => elementOf true element r
  | .of (.props p) :: r => if p.hasNamed then none else elementOf isArray p.element? r
  | _ :: _ => none

def spread (n : Node) : Parsing Node :=
  match n.constraint with
  | .basis .array => build Traced.unknown
  | .intersection children =>
    match elementOf false none children with
    | some element => pure element
    | none => fail (.spreadOperand n)
  | _ => fail (.spreadOperand n)

def finishTuple (items : List Node) (rest : Option Node) : Parsing Node :=
  build do
    let basis ← Traced.basis .array
    let props ← Traced.props (.ofSequence ⟨items, rest⟩)
    Traced.intersection [basis, props]

def step (lookup : Lookup) (name : String) : Parsing Step :=
  match lookup.morph? name <|> (Builtin.ofName? name).map .builtin with
  | some s => pure s
  | none => fail (.unresolvable name)

def morph (input : Node) (s : Step) : Parsing Node :=
  match input.constraint with
  | .morph inner steps => build (Traced.build (.of (.morph inner (steps ++ [s]))))
  | _ => build (Traced.build (.of (.morph input [s])))

/-- The text in the second place of an array. -/
def operatorOf : List Json → String
  | _ :: .string word :: _ => word
  | _ => ""

/-- Whether an operator stands in the second place. -/
def isMisfit (items : List Json) : Bool := ["|", "&", "[]", "=>"].contains (operatorOf items)

mutual

def parse (lookup : Lookup) : Json → Parsing Node
  | .string text => do return (← parseExpression lookup false text).node
  | .object entries => do finishObject (← parseEntries lookup .empty entries)
  | .array [.string "===", value] =>
    match Literal.ofJson? value with
    | some l => build (Traced.literal l)
    | none => fail (.notLiteral value)
  | .array [element, .string "[]"] => do
    let n ← parse lookup element
    build (Traced.arrayOf n)
  | .array [left, .string "|", right] => do
    let l ← parse lookup left
    let r ← parse lookup right
    unite [l, r]
  | .array [left, .string "&", right] => do
    let l ← parse lookup left
    let r ← parse lookup right
    intersect l r
  | .array [input, .string "=>", .string name] => do
    let s ← step lookup name
    morph (← parse lookup input) s
  | .array [_, .string "=>", _] => fail .namelessMorph
  | .array items =>
    if isMisfit items then fail (.operandCount (operatorOf items)) else parseItems lookup [] items
  | other => fail (.notDefinition other)

/-- A text as the value of a named key may itself make the key optional. -/
def parseEntries (lookup : Lookup) (p : Props Node) :
    List (String × Json) → Parsing (Props Node)
  | [] => pure p
  | (key, value) :: r => do
    match Key.ofText key with
    | .signature text =>
      let keyNode := (← parseExpression lookup false text).node
      let valueNode ← parse lookup value
      parseEntries lookup (addSignature p keyNode valueNode) r
    | .named name optional =>
      let parsed ← match value with
        | .string text => parseExpression lookup true text
        | other => (fun n => Parsed.mk n false) <$> parse lookup other
      parseEntries lookup (addNamed p name parsed.node (optional || parsed.optional)) r

def parseItems (lookup : Lookup) (done : List Node) : List Json → Parsing Node
  | [] => finishTuple done none
  | [.string "..."] => fail .missingSpread
  | [.string "...", array] => do
    let n ← parse lookup array
    finishTuple done (some (← spread n))
  | .string "..." :: _ => fail .spreadNotLast
  | item :: r => do
    let n ← parse lookup item
    parseItems lookup (done ++ [n]) r

end

end Definition

end SchemaAlgebra

import SchemaAlgebra.Grammar.Parsing
import SchemaAlgebra.Grammar.Scanner
import SchemaAlgebra.Grammar.Word

/-!
# Grammar texts

Operands and operators are read token by token. Operators behind an operand bind first,
then `&`, then `|`. Every open group keeps what is pending in it.
-/
namespace SchemaAlgebra

variable [Library]

/-- A number in front of an upper comparator. -/
structure LeftBound where
  value : Binary64
  comparator : Comparator

/-- What is pending in a group. -/
structure Group where
  leftBound : Option LeftBound
  intersection : Option Node
  branches : List Node

def Group.empty : Group := ⟨none, none, []⟩

/-- What is read next. -/
inductive Awaiting where
  | operand
  | operator (root : Node)
  /-- The number behind a percent sign. -/
  | divisor (root : Node)
  /-- The number behind a comparator. -/
  | limit (root : Node) (c : Comparator)
  /-- The end behind a question mark. -/
  | finish (root : Node)
  | nothing (result : Node)

structure ExpressionState where
  awaiting : Awaiting
  group : Group
  /-- The groups around this one, the innermost first. -/
  outer : List Group
  optional : Bool

/-- The node of a grammar text, and whether a question mark stands behind it. -/
structure Parsed where
  node : Node
  optional : Bool

namespace ExpressionState

open Parsing

def start : ExpressionState := ⟨.operand, .empty, [], false⟩

def word (lookup : Lookup) (text : String) : Parsing Node := do
  match Word.literal? text with
  | some l => build (Traced.literal l)
  | none =>
    match ← lookup.alias? text with
    | some n => pure n
    | none =>
      match Word.keyword? text with
      | some keyword => build keyword
      | none => fail (.unresolvable text)

def regex (source : String) : Parsing Node :=
  match Pattern.ofSource? source with
  | some p => build (Word.matching p)
  | none => fail (.invalidPattern source)

def operand (lookup : Lookup) (s : ExpressionState) (t : Token) : Parsing ExpressionState := do
  match t with
  | .groupOpen => pure { s with group := .empty, outer := s.group :: s.outer }
  | .word text => return { s with awaiting := .operator (← word lookup text) }
  | .enclosed '/' source => return { s with awaiting := .operator (← regex source) }
  | .enclosed _ text =>
    return { s with awaiting := .operator (← build (Traced.literal (.string text))) }
  | .finish => fail .noOperand
  | t => fail (.operandWas t)

def checkLeftBound (g : Group) : Parsing Unit :=
  match g.leftBound with
  | some b => fail (.leftBoundAlone b.value b.comparator)
  | none => pure ()

/-- The pending intersection with one more operand. -/
def conjoin (g : Group) (root : Node) : Parsing Node := do
  checkLeftBound g
  match g.intersection with
  | some pending => intersect pending root
  | none => pure root

def finishGroup (g : Group) (root : Node) : Parsing Node := do
  let last ← conjoin g root
  unite (g.branches ++ [last])

def requireAll (test : Node → Bool) (fault : Node → Fault) (n : Node) : Parsing Unit :=
  match n.branches.find? (!test ·) with
  | some branch => fail (fault branch)
  | none => pure ()

def divisor? : Token → Option Nat
  | .word text => (Decimal.readNat? text.toList).filter fun n => 0 < n && n < Nat.pow 2 64
  | _ => none

def divide (root : Node) (t : Token) : Parsing Node := do
  match divisor? t with
  | none => fail (.divisorOperand t)
  | some n =>
    requireAll (·.domain? == some .number) .notNumeric root
    let divisor ← build (Traced.divisor n)
    intersect root divisor

def rangeOf (c : Comparator) (x : Binary64) : Range :=
  match c with
  | .lt => .atMost ⟨x, true⟩
  | .le => .atMost ⟨x, false⟩
  | .gt => .atLeast ⟨x, true⟩
  | .ge => .atLeast ⟨x, false⟩
  | .eq => .exactly x

def limit? : Token → Option Binary64
  | .word text => Word.number? text
  | _ => none

/-- The range of a comparator together with a left bound. -/
def combinedRange (left : Option LeftBound) (c : Comparator) (x : Binary64) : Parsing Range :=
  match left with
  | none => pure (rangeOf c x)
  | some b =>
    if !c.isUpper then fail (.unpairedRightBound c)
    else match (rangeOf b.comparator.invert b.value).intersect? (rangeOf c x) with
      | some r => pure r
      | none => fail (.emptyRange b.value b.comparator c x)

def isSizable (n : Node) : Bool :=
  n.basis? == some .array || n.domain? == some .number || n.domain? == some .string

/-- The operand bounded on the right, and on the left if a left bound is pending. -/
def boundBy (g : Group) (root : Node) (c : Comparator) (t : Token) : Parsing Node := do
  match limit? t with
  | none => fail (.limitOperand c t)
  | some x =>
    let range ← combinedRange g.leftBound c x
    requireAll isSizable .notSizable root
    let bound ← build (Traced.bound range)
    intersect root bound

/-- A comparator behind a number makes it a left bound. -/
def compare (s : ExpressionState) (root : Node) (c : Comparator) : Parsing ExpressionState :=
  match root.constraint with
  | .literal (.number x) =>
    if s.group.leftBound.isSome then fail .secondLeftBound
    else if c.isUpper then
      pure { s with awaiting := .operand, group :=
        { s.group with leftBound := some ⟨x.value, c⟩ } }
    else fail (.leftBoundWas x.value c)
  | _ => pure { s with awaiting := .limit root c }

def close (s : ExpressionState) (root : Node) : Parsing ExpressionState := do
  match s.outer with
  | [] => fail .unmatchedClose
  | parent :: outer =>
    let node ← finishGroup s.group root
    pure { s with awaiting := .operator node, group := parent, outer := outer }

def conclude (s : ExpressionState) (root : Node) : Parsing ExpressionState := do
  let node ← finishGroup s.group root
  pure { s with awaiting := .nothing node, group := .empty }

def operator (allowOptional : Bool) (s : ExpressionState) (root : Node) (t : Token) :
    Parsing ExpressionState := do
  match t with
  | .list => return { s with awaiting := .operator (← build (Traced.arrayOf root)) }
  | .optional =>
    if allowOptional then pure { s with awaiting := .finish root, optional := true }
    else fail .optionalOutsideProperty
  | .brand name =>
    let brand ← build (Traced.build (.of (.brand name)))
    return { s with awaiting := .operator (← intersect root brand) }
  | .percent => pure { s with awaiting := .divisor root }
  | .comparator c => compare s root c
  | .ampersand =>
    let pending ← conjoin s.group root
    pure { s with awaiting := .operand, group := { s.group with intersection := some pending } }
  | .bar =>
    let branch ← conjoin s.group root
    let group : Group :=
      { s.group with intersection := none, branches := s.group.branches ++ [branch] }
    pure { s with awaiting := .operand, group := group }
  | .groupClose => close s root
  | .finish => if s.outer.isEmpty then conclude s root else fail .missingClose
  | t => fail (.unexpected t)

def step (lookup : Lookup) (allowOptional : Bool) (s : ExpressionState) (t : Token) :
    Parsing ExpressionState := do
  match s.awaiting with
  | .operand => operand lookup s t
  | .operator root => operator allowOptional s root t
  | .divisor root => return { s with awaiting := .operator (← divide root t) }
  | .limit root c =>
    let node ← boundBy s.group root c t
    pure { s with awaiting := .operator node, group := { s.group with leftBound := none } }
  | .finish root =>
    if t = .finish && s.outer.isEmpty then conclude s root else fail .optionalNotLast
  | .nothing _ => pure s

def steps (lookup : Lookup) (allowOptional : Bool) :
    ExpressionState → List (Except Fault Token) → Parsing ExpressionState
  | s, [] => pure s
  | s, .ok t :: r => do steps lookup allowOptional (← step lookup allowOptional s t) r
  | _, .error f :: _ => fail f

end ExpressionState

def parseExpression (lookup : Lookup) (allowOptional : Bool) (text : String) : Parsing Parsed := do
  let s ← ExpressionState.steps lookup allowOptional .start (Scan.all text)
  match s.awaiting with
  | .nothing node => pure ⟨node, s.optional⟩
  | _ => Parsing.fail .noOperand

end SchemaAlgebra

import SchemaAlgebra.Algebra.Union
import SchemaAlgebra.Grammar.Token
import SchemaAlgebra.Json.Text

/-!
# Faults of definitions

A fault is the cause why a definition is rejected. Its kind is the class that callers tell
apart, and its message is for people.
-/
namespace SchemaAlgebra

inductive FaultKind where
  | syntaxError
  | unresolvable
  | missingOperand
  | unclosedGroup
  | invalidDivisor
  | invalidBound
  | unsatisfiable
  | indeterminateUnion
  | invalidDefinition
  | cyclicAlias
  deriving DecidableEq

def FaultKind.code : FaultKind → String
  | syntaxError => "AERO_SCHEMA_SYNTAX"
  | unresolvable => "AERO_SCHEMA_UNRESOLVABLE"
  | missingOperand => "AERO_SCHEMA_MISSING_OPERAND"
  | unclosedGroup => "AERO_SCHEMA_UNCLOSED_GROUP"
  | invalidDivisor => "AERO_SCHEMA_INVALID_DIVISOR"
  | invalidBound => "AERO_SCHEMA_INVALID_BOUND"
  | unsatisfiable => "AERO_SCHEMA_UNSATISFIABLE"
  | indeterminateUnion => "AERO_SCHEMA_INDETERMINATE_UNION"
  | invalidDefinition => "AERO_SCHEMA_INVALID_DEFINITION"
  | cyclicAlias => "AERO_SCHEMA_CYCLIC_ALIAS"

inductive Fault where
  -- tokens
  | loneEquals
  | openBracket
  | closeBracket
  | namelessBrand
  | unclosed (delimiter : Char) (text : String)
  -- operands and operators
  | invalidPattern (source : String)
  | optionalOutsideProperty
  | optionalNotLast
  | unexpected (t : Token)
  | unresolvable (name : String)
  | noOperand
  | operandWas (t : Token)
  | unmatchedClose
  | missingClose
  -- divisors and bounds
  | divisorOperand (t : Token)
  | notNumeric (n : Node)
  | leftBoundAlone (value : Binary64) (c : Comparator)
  | secondLeftBound
  | leftBoundWas (value : Binary64) (c : Comparator)
  | limitOperand (c : Comparator) (t : Token)
  | unpairedRightBound (c : Comparator)
  | emptyRange (left : Binary64) (leftMark : Comparator) (rightMark : Comparator) (right : Binary64)
  | notSizable (n : Node)
  -- combinations
  | unsatisfiable (d : Disjoint)
  | indeterminate (o : Overlap)
  -- nested definitions
  | notDefinition (v : Json)
  | notLiteral (v : Json)
  | operandCount (operator : String)
  | namelessMorph
  | missingSpread
  | spreadNotLast
  | spreadOperand (n : Node)
  -- aliases
  | cyclicAlias (name : String)

namespace Fault

def kind : Fault → FaultKind
  | loneEquals => .syntaxError
  | openBracket => .syntaxError
  | closeBracket => .syntaxError
  | namelessBrand => .syntaxError
  | unclosed _ _ => .syntaxError
  | invalidPattern _ => .syntaxError
  | optionalOutsideProperty => .syntaxError
  | optionalNotLast => .syntaxError
  | unexpected _ => .syntaxError
  | unresolvable _ => .unresolvable
  | noOperand => .missingOperand
  | operandWas _ => .missingOperand
  | unmatchedClose => .unclosedGroup
  | missingClose => .unclosedGroup
  | divisorOperand _ => .invalidDivisor
  | notNumeric _ => .invalidDivisor
  | leftBoundAlone _ _ => .invalidBound
  | secondLeftBound => .invalidBound
  | leftBoundWas _ _ => .invalidBound
  | limitOperand _ _ => .invalidBound
  | unpairedRightBound _ => .invalidBound
  | emptyRange _ _ _ _ => .invalidBound
  | notSizable _ => .invalidBound
  | unsatisfiable _ => .unsatisfiable
  | indeterminate _ => .indeterminateUnion
  | notDefinition _ => .invalidDefinition
  | notLiteral _ => .invalidDefinition
  | operandCount _ => .invalidDefinition
  | namelessMorph => .invalidDefinition
  | missingSpread => .invalidDefinition
  | spreadNotLast => .invalidDefinition
  | spreadOperand _ => .invalidDefinition
  | cyclicAlias _ => .cyclicAlias

def message : Fault → String
  | loneEquals => "'=' must be followed by '=' to form '=='"
  | openBracket => "'[' must be followed by ']' to form '[]'"
  | closeBracket => "Unexpected ']'"
  | namelessBrand => "'#' must be followed by a brand name"
  | unclosed d text => s!"{d}{text} requires a closing {d}"
  | invalidPattern source => s!"/{source}/ is not a valid regular expression"
  | optionalOutsideProperty => "'?' is only valid for a property value"
  | optionalNotLast => "'?' must be the last token of a property value"
  | unexpected t => s!"Unexpected '{t.text}' after an operand"
  | unresolvable name => s!"'{name}' is unresolvable"
  | noOperand => "Expected an operand before end of definition"
  | operandWas t => s!"Expected an operand (was '{t.text}')"
  | unmatchedClose => "Unmatched ')'"
  | missingClose => "Missing ')'"
  | divisorOperand t => s!"% operator must be followed by a positive integer (was '{t.text}')"
  | notNumeric n => s!"Divisibility operand {n.expression} must be a number"
  | leftBoundAlone x c =>
    s!"Left bound {x.format}{c.text} must be followed by a bounded expression and a right bound"
  | secondLeftBound => "Only one left bound is allowed"
  | leftBoundWas x c => s!"Left bounds must use < or <= (was {x.format}{c.text})"
  | limitOperand c t =>
    s!"Comparator {c.text} must be followed by a number literal (was '{t.text}')"
  | unpairedRightBound c =>
    s!"A left bound must be paired with a right bound using < or <= (was {c.text})"
  | emptyRange x c d y => s!"{x.format}{c.text}...{d.text}{y.format} is empty"
  | notSizable n => s!"Bounded expression {n.expression} must be a number, string or array"
  | unsatisfiable d => d.message
  | indeterminate o =>
    "An unordered union of a type including a morph and a type with overlapping input is " ++
      s!"indeterminate: {o.left.expression} and {o.right.expression}"
  | notDefinition v =>
    s!"{v.toText} is not a valid definition (expected a string, object or array)"
  | notLiteral v => s!"{v.toText} cannot be used as a literal"
  | operandCount operator =>
    s!"Tuple expression with operator '{operator}' has the wrong number of operands"
  | namelessMorph => "Morph operand of '=>' must be a morph name"
  | missingSpread => "'...' must be followed by an array definition"
  | spreadNotLast => "A variadic element must be the last element of a tuple"
  | spreadOperand n => s!"Spread operand {n.expression} must be an unconstrained array definition"
  | cyclicAlias name => s!"Alias '{name}' references itself without an intervening property"

/-- The proof behind an unsatisfiable combination. -/
def disjoint? : Fault → Option Disjoint
  | unsatisfiable d => some d
  | _ => none

end Fault

/-- A fault and the alias in whose definition it was found. -/
structure ParseError where
  fault : Fault
  alias? : Option String

namespace ParseError

def ofFault (f : Fault) : ParseError := ⟨f, none⟩

def code (e : ParseError) : String := e.fault.kind.code

def message (e : ParseError) : String := e.fault.message

/-- Names the alias, unless a definition further in is already named. -/
def inAlias (e : ParseError) (name : String) : ParseError :=
  { e with alias? := e.alias? <|> some name }

def text (e : ParseError) : String :=
  let place := match e.alias? with
    | some name => " (in alias '" ++ name ++ "')"
    | none => ""
  "[" ++ e.code ++ "] " ++ e.message ++ place

end ParseError

end SchemaAlgebra

/-!
# Tokens of the grammar
-/
namespace SchemaAlgebra

inductive Comparator where
  | lt
  | le
  | gt
  | ge
  | eq
  deriving DecidableEq

namespace Comparator

def text : Comparator → String
  | lt => "<"
  | le => "<="
  | gt => ">"
  | ge => ">="
  | eq => "=="

/-- The comparator seen from the other operand. -/
def invert : Comparator → Comparator
  | lt => gt
  | le => ge
  | gt => lt
  | ge => le
  | eq => eq

/-- Whether the comparator bounds from above. -/
def isUpper : Comparator → Bool
  | lt => true
  | le => true
  | _ => false

end Comparator

inductive Token where
  /-- A run of characters without blanks and marks: a number, a keyword or an alias. -/
  | word (text : String)
  /-- The body of a quoted text or of a regular expression. -/
  | enclosed (delimiter : Char) (text : String)
  | bar
  | ampersand
  | percent
  | comparator (c : Comparator)
  | list
  | optional
  | brand (name : String)
  | groupOpen
  | groupClose
  | finish
  deriving DecidableEq

namespace Token

def text : Token → String
  | word text => text
  | enclosed delimiter text => String.ofList (delimiter :: text.toList ++ [delimiter])
  | bar => "|"
  | ampersand => "&"
  | percent => "%"
  | comparator c => c.text
  | list => "[]"
  | optional => "?"
  | brand name => "#" ++ name
  | groupOpen => "("
  | groupClose => ")"
  | finish => "end of definition"

end Token

end SchemaAlgebra

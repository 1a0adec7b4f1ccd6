/-!
# Libraries

Regular expressions and dates are left to libraries. Nothing is assumed of what they answer.
-/
namespace SchemaAlgebra

class Library where
  /-- Whether a text is the source of a regular expression. -/
  isRegex : String → Bool
  /-- Whether the regular expression of a source matches in a text. -/
  isMatch : (source text : String) → Bool
  /-- The date that a text holds, in universal time. -/
  universalDate? : String → Option String

end SchemaAlgebra

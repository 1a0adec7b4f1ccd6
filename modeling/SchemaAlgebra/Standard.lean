import SchemaAlgebra.Library
import SchemaAlgebra.Regex.Reader
import SchemaAlgebra.Timestamp

/-!
# The libraries that are run
-/
namespace SchemaAlgebra

abbrev Library.standard : Library where
  isRegex source := (Regex.read? source).isSome
  isMatch source text := ((Regex.read? source).map (·.isMatch text)).getD false
  universalDate? := Timestamp.universal?

end SchemaAlgebra

import SchemaAlgebra.Json.Basic
import SchemaAlgebra.Log

/-!
# Configuration of a scope
-/
namespace SchemaAlgebra

structure Config where
  /-- How many aliases may be followed within one another; no limit by default. -/
  maxDepth : Option Nat
  /-- Whether every alias is resolved when the scope is built. -/
  eagerResolution : Bool
  logLevel : Severity
  deriving DecidableEq

namespace Config

def default : Config := ⟨none, false, .warn⟩

def eager : Config := { default with eagerResolution := true }
def withMaxDepth (n : Nat) : Config := { default with maxDepth := some n }
def verbose : Config := { default with logLevel := .trace }

def readMaxDepth? : Json → Option (Option Nat)
  | .null => some none
  | .number (.int (.ofNat n)) => some (some n)
  | _ => none

def readBool? : Json → Option Bool
  | .bool b => some b
  | _ => none

/-- A name, or an object with the name as its only key and nothing under it. -/
def readSeverity? : Json → Option Severity
  | .string word => Severity.ofWord? word
  | .object [(word, .null)] => Severity.ofWord? word
  | _ => none

/-- The value of a field, or the default if it is missing. -/
def field? {α : Type} (read : Json → Option α) (missing : α) : Option Json → Option α
  | none => some missing
  | some v => read v

def ofFields? (maxDepth eagerResolution logLevel : Option Json) : Option Config := do
  let maxDepth ← field? readMaxDepth? default.maxDepth maxDepth
  let eagerResolution ← field? readBool? default.eagerResolution eagerResolution
  let logLevel ← field? readSeverity? default.logLevel logLevel
  some ⟨maxDepth, eagerResolution, logLevel⟩

def ofJson? : Json → Option Config
  | .object entries =>
    ofFields? (Entries.get? "max_depth" entries) (Entries.get? "eager_resolution" entries)
      (Entries.get? "log_level" entries)
  | .array items => if items.length ≤ 3 then ofFields? items[0]? items[1]? items[2]? else none
  | _ => none

def toJson (c : Config) : Json :=
  .object
    [("eager_resolution", .bool c.eagerResolution),
      ("log_level", .string c.logLevel.word),
      ("max_depth", match c.maxDepth with
        | some n => .number (.int n)
        | none => .null)]

end Config

end SchemaAlgebra

import SchemaAlgebra.Json.Text
import SchemaAlgebra.SortedList

/-!
# Log lines

An event is written as one line of JSON if its severity reaches the threshold. The event
and the severity come first, then the fields in order of their names.
-/
namespace SchemaAlgebra

inductive Severity where
  | trace
  | info
  | warn
  | error
  /-- As a threshold, nothing is written. -/
  | off
  deriving DecidableEq

namespace Severity

def all : List Severity := [trace, info, warn, error, off]

def word : Severity → String
  | trace => "trace"
  | info => "info"
  | warn => "warn"
  | error => "error"
  | off => "off"

def name : Severity → String
  | trace => "TRACE"
  | info => "INFO"
  | warn => "WARN"
  | error => "ERROR"
  | off => "OFF"

def ofWord? (w : String) : Option Severity := all.find? (·.word = w)

def rank : Severity → Nat
  | trace => 0
  | info => 1
  | warn => 2
  | error => 3
  | off => 4

end Severity

/-- What is worth logging. -/
inductive Occasion where
  | scopeBuilt
  | aliasResolveBegin
  | aliasResolved
  | aliasDeferred
  | aliasResolveFailed
  | validatorCompiled
  | unionDiscriminated
  | parseFailed
  deriving DecidableEq

namespace Occasion

def all : List Occasion :=
  [scopeBuilt, aliasResolveBegin, aliasResolved, aliasDeferred, aliasResolveFailed,
    validatorCompiled, unionDiscriminated, parseFailed]

def name : Occasion → String
  | scopeBuilt => "SCOPE_BUILT"
  | aliasResolveBegin => "ALIAS_RESOLVE_BEGIN"
  | aliasResolved => "ALIAS_RESOLVED"
  | aliasDeferred => "ALIAS_DEFERRED"
  | aliasResolveFailed => "ALIAS_RESOLVE_FAILED"
  | validatorCompiled => "VALIDATOR_COMPILED"
  | unionDiscriminated => "UNION_DISCRIMINATED"
  | parseFailed => "PARSE_FAILED"

def ofName? (name : String) : Option Occasion := all.find? (·.name = name)

def severity : Occasion → Severity
  | scopeBuilt => .info
  | aliasResolveFailed => .warn
  | parseFailed => .warn
  | _ => .trace

end Occasion

/-- A threshold and the lines written so far, the latest first. -/
structure Logger where
  threshold : Severity
  written : List String

namespace Logger

def start : Logger := ⟨.warn, []⟩

def lines (l : Logger) : List String := l.written.reverse

def flush (l : Logger) : Logger := { l with written := [] }

def setThreshold (l : Logger) (s : Severity) : Logger := { l with threshold := s }

/-- Lowers the threshold to the severity; never raises it. -/
def raiseVerbosity (l : Logger) (s : Severity) : Logger :=
  if s.rank < l.threshold.rank then { l with threshold := s } else l

def isEnabled (l : Logger) (s : Severity) : Bool :=
  s != .off && decide (l.threshold.rank ≤ s.rank)

/-- The fields in order of their names; of one name in the order given. -/
def sortedFields (fields : List (String × String)) : List (String × String) :=
  Sorting.sort (fun a b => decide (a.1 < b.1)) fields

def line (s : Severity) (event : String) (fields : List (String × String)) : String :=
  let all := ("event", event) :: ("severity", s.name) :: sortedFields fields
  let parts := all.map fun (key, value) => Json.quoted key ++ ":" ++ Json.quoted value
  "\x7b" ++ String.intercalate "," parts ++ "\x7d"

def log (l : Logger) (s : Severity) (event : String) (fields : List (String × String)) : Logger :=
  if l.isEnabled s then { l with written := line s event fields :: l.written } else l

def logOccasion (l : Logger) (o : Occasion) (fields : List (String × String)) : Logger :=
  l.log o.severity o.name fields

end Logger

end SchemaAlgebra

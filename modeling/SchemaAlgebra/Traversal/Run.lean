import SchemaAlgebra.Traversal.Step

/-!
# Whole runs

A run of `patience` p has up to `2 ^ p` steps; a run that needs more has no result.
-/
namespace SchemaAlgebra

variable [Library]

namespace Traversal

/-- The state after `2 ^ patience` steps, or when the run has finished. -/
def iterate (next : Traversal → Traversal) : Nat → Traversal → Traversal
  | 0, t => next t
  | patience + 1, t =>
    let half := iterate next patience t
    if half.isFinished then half else iterate next patience half

def verdict (t : Traversal) : Verdict := (t.done.map (·.verdict)).getD .failed

/-- The finished run, unless it needs more steps. -/
def finished? (t : Traversal) : Option Traversal := if t.isFinished then some t else none

/-- Runs on a text alone. A signature says nothing about texts, so no key is tested. -/
def runText (b : Bindings) (patience : Nat) (maxDepth : Option Nat) (program : Program)
    (text : String) : Option Traversal :=
  (iterate (step b fun _ _ => none) patience
    (start .allow maxDepth program (.string text))).finished?

def isPassed : Verdict → Bool
  | .failed => false
  | .unchanged => true
  | .changed _ => true

def testKey (b : Bindings) (patience : Nat) (maxDepth : Option Nat) (program : Program)
    (name : String) : Option KeyTest :=
  (runText b patience maxDepth program name).map fun t => ⟨isPassed t.verdict, t.visited⟩

def run (b : Bindings) (patience : Nat) (mode : Mode) (maxDepth : Option Nat) (program : Program)
    (data : Json) : Option Traversal :=
  (iterate (step b (testKey b patience maxDepth)) patience
    (start mode maxDepth program data)).finished?

end Traversal

/-- The outcome of a validation and the aliases that were followed, in order. -/
structure Visiting (α : Type u) where
  outcome : α
  visited : List (Home × String)

namespace Program

/-- Whether the data pass; absent if the run needs more than `2 ^ patience` steps. -/
def allows (p : Program) (b : Bindings) (patience : Nat) (maxDepth : Option Nat) (data : Json) :
    Option (Visiting Bool) :=
  (Traversal.run b patience .allow maxDepth p data).map fun t =>
    ⟨Traversal.isPassed t.verdict, t.visited.reverse⟩

/-- The changed data, or all problems; absent if the run needs more than `2 ^ patience`
steps. -/
def apply (p : Program) (b : Bindings) (patience : Nat) (maxDepth : Option Nat) (data : Json) :
    Option (Visiting (Except (List Problem) Json)) :=
  (Traversal.run b patience .apply maxDepth p data).map fun t =>
    let output : Except (List Problem) Json :=
      match t.problems, t.verdict with
      | [], .unchanged => .ok data
      | [], .changed v => .ok v
      | problems, _ => .error problems.reverse
    ⟨output, t.visited.reverse⟩

end Program

end SchemaAlgebra

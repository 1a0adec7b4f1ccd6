import SchemaAlgebra.Grammar.Fault
import SchemaAlgebra.Algebra.Meet

/-!
# Parsing within a scope

Parsing builds nodes in the store of a scope, resolves aliases on the way, and notes what
happens. A fault ends it, but what was built and noted so far stays.
-/
namespace SchemaAlgebra

variable [Library]

/-- What is known about an alias whose definition was looked at. -/
inductive Resolution where
  /-- Its definition is being parsed. -/
  | inProgress
  | resolved (n : Node)

/-- What happened during a call. -/
inductive Note where
  | resolveBegin (name : String)
  | resolved (name : String) (n : Node)
  | deferred (name : String)
  | resolveFailed (name : String) (e : ParseError)
  /-- It was asked whether the node admits a value. -/
  | consulted (n : Node)
  | parseFailed (definition : String) (e : ParseError)

structure ScopeState where
  store : Store
  resolutions : List (String × Resolution)
  /-- The aliases whose resolution began in the current call, the latest first. -/
  journal : List String
  /-- The latest note first. -/
  notes : List Note

namespace ScopeState

def empty : ScopeState := ⟨.empty, [], [], []⟩

def note (s : ScopeState) (n : Note) : ScopeState := { s with notes := n :: s.notes }

def record (s : ScopeState) : Event → ScopeState
  | .built n => { s with store := s.store.insert n }
  | .consulted n => s.note (.consulted n)
  | .reduced _ _ => s
  | .exhausted => s

/-- The value of a computation of the algebra in the store of the scope. -/
def run {α : Type} (x : Traced α) (s : ScopeState) : α × ScopeState :=
  x.thread (·.store.representative) record s

end ScopeState

abbrev Parsing := ExceptT ParseError (StateM ScopeState)

namespace Parsing

variable {α : Type}

def fail (f : Fault) : Parsing α := throw (.ofFault f)

def note (n : Note) : Parsing Unit := modify (·.note n)

def build (x : Traced α) : Parsing α := modifyGet (ScopeState.run x)

/-- A proof that there are no values is a fault. -/
def attempt (x : Attempt α) : Parsing α := do
  match ← build x.run with
  | .ok a => pure a
  | .error d => fail (.unsatisfiable d)

def intersect (l r : Node) : Parsing Node := attempt (meet l r)

def unite (nodes : List Node) : Parsing Node := do
  match ← build (determinateUnion nodes) with
  | .ok n => pure n
  | .error o => fail (.indeterminate o)

end Parsing

/-- What names in a definition refer to. -/
structure Lookup where
  /-- The node of an alias; absent if the scope has no alias of the name. -/
  alias? : String → Parsing (Option Node)
  /-- The step of a registered morph. -/
  morph? : String → Option Step

end SchemaAlgebra

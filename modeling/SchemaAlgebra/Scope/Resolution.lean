import SchemaAlgebra.Grammar.Definition
import SchemaAlgebra.Scope.Builder

/-!
# Resolving aliases

An alias is parsed when it is first referred to. A reference to an alias that is still
being parsed is deferred until a value is validated. A call that fails leaves no trace of
the aliases whose resolution it began.
-/
namespace SchemaAlgebra

variable [Library]

/-- Declarations and what has been resolved of them. -/
structure Scope where
  home : Nat
  declarations : Declarations
  state : ScopeState

namespace Scope

def ofDeclarations (home : Nat) (d : Declarations) : Scope := ⟨home, d, .empty⟩

def aliasNames (s : Scope) : List String := Entries.keys s.declarations.aliases

def resolved? (s : Scope) (name : String) : Option Node :=
  match Entries.get? name s.state.resolutions with
  | some (.resolved n) => some n
  | _ => none

def resolvedNames (s : Scope) : List String :=
  (Entries.keys s.state.resolutions).filter fun name => (s.resolved? name).isSome

def transform? (s : Scope) (name : String) : Option Transform :=
  Entries.get? name s.declarations.morphs

open Parsing

def mark (name : String) (r : Resolution) : Parsing Unit :=
  modify fun s => { s with resolutions := Entries.insert name r s.resolutions }

def enter (name : String) : Parsing Unit :=
  modify fun s => { s with journal := name :: s.journal }

/-- The node of an alias, if it does not refer to itself without entering a key or an
item. -/
def parseAlias (lookup : Lookup) (name : String) (definition : Json) : Parsing Node := do
  let n ← Definition.parse lookup definition
  if n.references.contains name then fail (.cyclicAlias name) else pure n

/-- Parses an alias that was not looked at before. -/
def resolveNew (lookup : Lookup) (name : String) (definition : Json) : Parsing Node := do
  note (.resolveBegin name)
  mark name .inProgress
  enter name
  try
    let n ← parseAlias lookup name definition
    note (.resolved name n)
    mark name (.resolved n)
    pure n
  catch e =>
    note (.resolveFailed name (e.inAlias name))
    throw (e.inAlias name)

/-- The node of an alias, given how one is parsed that was not looked at before. -/
def resolveWith (home : Nat) (aliases : List (String × Json))
    (parseNew : String → Json → Parsing Node) (name : String) : Parsing Node := do
  match Entries.get? name (← get).resolutions with
  | some (.resolved n) => pure n
  | some .inProgress =>
    note (.deferred name)
    build (Traced.build (.of (.deferred name (some home))))
  | none =>
    match Entries.get? name aliases with
    | some definition => parseNew name definition
    | none => fail (.unresolvable name)

/-- What names refer to in the definitions of a scope, given how aliases are resolved. -/
def lookupWith (home : Nat) (d : Declarations) (resolve : String → Parsing Node) : Lookup where
  alias? name := if Entries.contains name d.aliases then some <$> resolve name else pure none
  morph? name :=
    if Entries.contains name d.morphs then some (.registered name (some home)) else none

/-- Resolves with at most the given number of aliases being parsed within one another. -/
def resolveUpTo (home : Nat) (d : Declarations) : Nat → String → Parsing Node
  | 0 => resolveWith home d.aliases fun name _ => fail (.unresolvable name)
  | depth + 1 =>
    resolveWith home d.aliases (resolveNew (lookupWith home d (resolveUpTo home d depth)))

/-- No alias is parsed within itself, so there are no more within one another than there
are aliases. -/
def resolving (s : Scope) : String → Parsing Node :=
  resolveUpTo s.home s.declarations s.declarations.aliases.length

def lookup (s : Scope) : Lookup := lookupWith s.home s.declarations s.resolving

/-- Runs a call. What it has entered in the journal is taken out again, and if it fails,
every alias whose resolution it began is forgotten. -/
def call {α : Type} (s : Scope) (x : Parsing α) : Except ParseError α × Scope :=
  let (result, state) := x.run.run s.state
  let entered := state.journal.length - s.state.journal.length
  let resolutions :=
    match result with
    | .ok _ => state.resolutions
    | .error _ =>
      (state.journal.take entered).foldl (fun rs name => Entries.erase name rs) state.resolutions
  (result, { s with state := { state with
    resolutions := resolutions
    journal := state.journal.drop entered } })

def note (s : Scope) (n : Note) : Scope := { s with state := s.state.note n }

def resolve (s : Scope) (name : String) : Except ParseError Node × Scope :=
  if Entries.contains name s.declarations.aliases then s.call (s.resolving name)
  else (.error (.ofFault (.unresolvable name)), s)

/-- Resolves the aliases in order, up to the first that fails. -/
def resolveEach (s : Scope) : List String → Except ParseError Unit × Scope
  | [] => (.ok (), s)
  | name :: r =>
    match s.call (s.resolving name) with
    | (.ok _, s) => resolveEach s r
    | (.error e, s) => (.error e, s)

def resolveAll (s : Scope) : Except ParseError Unit × Scope := s.resolveEach s.aliasNames

def noteFailure (definition : String) :
    Except ParseError Node × Scope → Except ParseError Node × Scope
  | (.ok n, s) => (.ok n, s)
  | (.error e, s) => (.error e, s.note (.parseFailed definition e))

def parse (s : Scope) (text : String) : Except ParseError Node × Scope :=
  noteFailure text (s.call ((·.node) <$> parseExpression s.lookup false text))

def parseValue (s : Scope) (definition : Json) : Except ParseError Node × Scope :=
  noteFailure definition.toText (s.call (Definition.parse s.lookup definition))

def build {α : Type} (s : Scope) (x : Traced α) : α × Scope :=
  let (a, state) := s.state.run x
  (a, { s with state := state })

def intersect (s : Scope) (l r : Node) : Except Disjoint Node × Scope := s.build (meet l r).run

def unite (s : Scope) (l r : Node) : Except ParseError Node × Scope :=
  let (result, s) := s.build (determinateUnion [l, r])
  match result with
  | .ok n => (.ok n, s)
  | .error o => (.error (.ofFault (.indeterminate o)), s)

def arrayOf (s : Scope) (n : Node) : Node × Scope := s.build (Traced.arrayOf n)

end Scope

end SchemaAlgebra

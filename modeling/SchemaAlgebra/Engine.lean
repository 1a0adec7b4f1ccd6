import SchemaAlgebra.Log
import SchemaAlgebra.Scope.Resolution
import SchemaAlgebra.Standard
import SchemaAlgebra.Traversal.Run

/-!
# Scopes together

Several scopes live side by side and write to one log. A node is compiled when its values
are first asked for, and that is logged once.
-/
namespace SchemaAlgebra

variable [Library]

/-- A node in the scope that it was parsed or combined in. -/
structure Schema where
  node : Node
  home : Nat

/-- The reasons why a call on schemas fails. -/
inductive EngineError where
  | parse (e : ParseError)
  | scope (e : ScopeError)
  | unsatisfiable (d : Disjoint)
  | invalid (ps : List Problem)

namespace EngineError

def code : EngineError → String
  | parse e => e.code
  | scope e => e.code
  | unsatisfiable _ => "AERO_SCHEMA_UNSATISFIABLE"
  | invalid _ => "AERO_SCHEMA_VALIDATION_FAILED"

def message : EngineError → String
  | parse e => e.text
  | scope e => e.message
  | unsatisfiable d => "Unsatisfiable intersection: " ++ d.message
  | invalid ps => Problem.summary ps

end EngineError

structure Engine where
  scopes : List (Nat × Scope)
  /-- The number of the next scope. -/
  next : Nat
  /-- The nodes that were compiled, with their scopes. -/
  compiled : List (Nat × Node)
  logger : Logger

namespace Engine

def start : Engine := ⟨[], 0, [], .start⟩

def scope? (e : Engine) (home : Nat) : Option Scope := e.scopes.lookup home

def putScope (e : Engine) (s : Scope) : Engine :=
  { e with scopes := (s.home, s) :: e.scopes.filter (·.1 != s.home) }

/-- Closes the scopes that are no longer in use: their aliases refer to nothing, but
their morphs can still be run. -/
def retain (e : Engine) (homes : List Nat) : Engine :=
  { e with scopes := e.scopes.map fun (home, s) =>
      (home, if homes.contains home then s else { s with state := .empty }) }

def log (e : Engine) (o : Occasion) (fields : List (String × String)) : Engine :=
  { e with logger := e.logger.logOccasion o fields }

def logSwitch (e : Engine) (s : Switch) : Engine :=
  e.log .unionDiscriminated
    [("branches", toString s.branches),
      ("kind", s.probe.aspect.name),
      ("path", String.intercalate "." s.probe.path),
      ("cases", toString s.cases)]

/-- Logs that a node is compiled, unless it was before. -/
def compiling (e : Engine) (home : Nat) (n : Node) : Engine :=
  if e.compiled.any fun (h, m) => h == home && m.same n then e
  else
    let e := { e with compiled := (home, n) :: e.compiled }
    if e.logger.isEnabled Occasion.validatorCompiled.severity then
      let program := n.compile
      (program.switches.foldl logSwitch e).log .validatorCompiled
        [("checks", toString program.count), ("node", n.shortDigest)]
    else e

def logNote (home : Nat) (e : Engine) : Note → Engine
  | .resolveBegin name => e.log .aliasResolveBegin [("alias", name)]
  | .resolved name n => e.log .aliasResolved [("alias", name), ("node", n.shortDigest)]
  | .deferred name => e.log .aliasDeferred [("alias", name)]
  | .resolveFailed name err => e.log .aliasResolveFailed [("alias", name), ("error", err.code)]
  | .consulted n => e.compiling home n
  | .parseFailed definition err =>
    e.log .parseFailed [("definition", definition), ("error", err.code)]

/-- Logs what was noted in a scope, and forgets the notes. -/
def settle (e : Engine) (s : Scope) : Engine :=
  (s.state.notes.reverse.foldl (logNote s.home) e).putScope
    { s with state := { s.state with notes := [] } }

/-- A scope with the declarations. Its log level can make the log more verbose only. -/
def build (e : Engine) (d : Declarations) : Except EngineError Scope × Engine :=
  let e := { e with logger := e.logger.raiseVerbosity d.config.logLevel }
  let e := e.log .scopeBuilt
    [("aliases", toString d.aliases.length),
      ("eager", if d.config.eagerResolution then "true" else "false")]
  let s := Scope.ofDeclarations e.next d
  let e := { e with next := e.next + 1 }
  if d.config.eagerResolution then
    match s.resolveAll with
    | (.ok _, s) => (.ok s, e.settle s)
    | (.error err, s) => (.error (.parse err), e.settle s)
  else (.ok s, e.settle s)

def emptyScope (e : Engine) : Scope × Engine :=
  let s := Scope.ofDeclarations e.next .empty
  (s, { e with next := e.next + 1 }.putScope s)

/-- The result of a call on a scope, bound to the scope. -/
def bind {ε : Type} (e : Engine) : Except ε Node × Scope → Except ε Schema × Engine
  | (result, s) => (result.map fun n => ⟨n, s.home⟩, e.settle s)

def parse (e : Engine) (s : Scope) (text : String) : Except ParseError Schema × Engine :=
  e.bind (s.parse text)

def parseValue (e : Engine) (s : Scope) (definition : Json) :
    Except ParseError Schema × Engine :=
  e.bind (s.parseValue definition)

def resolve (e : Engine) (s : Scope) (name : String) : Except ParseError Schema × Engine :=
  e.bind (s.resolve name)

def resolveAll (e : Engine) (s : Scope) : Except ParseError Unit × Engine :=
  let (result, s) := s.resolveAll
  (result, e.settle s)

def scopeOf (e : Engine) (t : Schema) : Scope :=
  (e.scope? t.home).getD (.ofDeclarations t.home .empty)

def intersect (e : Engine) (t u : Schema) : Except Disjoint Schema × Engine :=
  e.bind ((e.scopeOf t).intersect t.node u.node)

def unite (e : Engine) (t u : Schema) : Except ParseError Schema × Engine :=
  e.bind ((e.scopeOf t).unite t.node u.node)

def arrayOf (e : Engine) (t : Schema) : Schema × Engine :=
  let (n, s) := (e.scopeOf t).arrayOf t.node
  (⟨n, s.home⟩, e.settle s)

/-- Whether two schemas are one node of one scope. -/
def isIdentical (t u : Schema) : Bool := t.home == u.home && t.node.same u.node

/-- What names refer to while values are validated. -/
def bindings (e : Engine) : Bindings where
  node? home name := home.bind fun h => (e.scope? h).bind (·.resolved? name)
  transform home name :=
    ((home.bind fun h => (e.scope? h).bind (·.transform? name)).getD .ok)

def compilingVisited (e : Engine) (visited : List (Home × String)) : Engine :=
  visited.foldl (fun e (home, name) =>
    match home, e.bindings.node? home name with
    | some h, some n => e.compiling h n
    | _, _ => e) e

def allows (e : Engine) (patience : Nat) (t : Schema) (maxDepth : Option Nat) (data : Json) :
    Option Bool × Engine :=
  let e := e.compiling t.home t.node
  match t.node.compile.allows e.bindings patience maxDepth data with
  | some v => (some v.outcome, e.compilingVisited v.visited)
  | none => (none, e)

def apply (e : Engine) (patience : Nat) (t : Schema) (maxDepth : Option Nat) (data : Json) :
    Option (Except (List Problem) Json) × Engine :=
  let e := e.compiling t.home t.node
  match t.node.compile.apply e.bindings patience maxDepth data with
  | some v => (some v.outcome, e.compilingVisited v.visited)
  | none => (none, e)

/-- The limit on aliases followed within one another for a schema. -/
def maxDepth (e : Engine) (t : Schema) : Option Nat := (e.scopeOf t).declarations.config.maxDepth

end Engine

-- the libraries that programs run with
attribute [instance] Library.standard

end SchemaAlgebra

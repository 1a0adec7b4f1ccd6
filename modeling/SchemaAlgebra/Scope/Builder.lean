import SchemaAlgebra.Config
import SchemaAlgebra.Transform

/-!
# Declaring a scope

Aliases and morphs are declared one by one, each under a name of its own.
-/
namespace SchemaAlgebra

inductive ScopeError where
  | invalidAliasName (name : String)
  | duplicateAlias (name : String)
  | duplicateMorph (name : String)
  | notAnObject (v : Json)

namespace ScopeError

def code : ScopeError → String
  | invalidAliasName _ => "AERO_SCOPE_INVALID_ALIAS_NAME"
  | duplicateAlias _ => "AERO_SCOPE_DUPLICATE_ALIAS"
  | duplicateMorph _ => "AERO_SCOPE_DUPLICATE_MORPH"
  | notAnObject _ => "AERO_SCOPE_NOT_AN_OBJECT"

def message : ScopeError → String
  | invalidAliasName name => s!"Invalid alias name: '{name}'"
  | duplicateAlias name => s!"Alias already defined: '{name}'"
  | duplicateMorph name => s!"Morph already registered: '{name}'"
  | notAnObject v => s!"Scope definition must be an object of aliases (was {v.toText})"

end ScopeError

/-- The declarations of a scope. -/
structure Declarations where
  aliases : List (String × Json)
  morphs : List (String × Transform)
  config : Config

namespace Declarations

def empty : Declarations := ⟨[], [], .default⟩

/-- A letter, underscore or dollar sign, then any of them and digits. -/
def isAliasName (name : String) : Bool :=
  let isStart := fun (c : Char) => c.isAlpha || c = '_' || c = '$'
  match name.toList with
  | [] => false
  | c :: r => isStart c && r.all fun c => isStart c || c.isDigit

def addAlias (d : Declarations) (name : String) (definition : Json) :
    Except ScopeError Declarations :=
  if !isAliasName name then .error (.invalidAliasName name)
  else if Entries.contains name d.aliases then .error (.duplicateAlias name)
  else .ok { d with aliases := Entries.insert name definition d.aliases }

def addEntries (d : Declarations) : List (String × Json) → Except ScopeError Declarations
  | [] => .ok d
  | (name, definition) :: r => do addEntries (← d.addAlias name definition) r

/-- Declares every entry of an object as an alias. -/
def addAliases (d : Declarations) (definitions : Json) : Except ScopeError Declarations :=
  match definitions with
  | .object entries => d.addEntries entries
  | v => .error (.notAnObject v)

def addMorph (d : Declarations) (name : String) (f : Transform) :
    Except ScopeError Declarations :=
  if Entries.contains name d.morphs || (Builtin.ofName? name).isSome then
    .error (.duplicateMorph name)
  else .ok { d with morphs := Entries.insert name f d.morphs }

def setConfig (d : Declarations) (c : Config) : Declarations := { d with config := c }

end Declarations

end SchemaAlgebra

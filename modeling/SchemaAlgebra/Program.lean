import SchemaAlgebra.Decision

/-!
# Programs

A program is a list of checks to run on one value. Keys, items, branches and inputs of
morphs have programs of their own.
-/
namespace SchemaAlgebra

/-- What a bound measures. -/
inductive Dimension where
  | value
  | chars
  | items
  /-- Whatever the data can be measured by. -/
  | dynamic
  deriving DecidableEq

mutual

inductive Check where
  | domain (d : Domain)
  | literal (l : Literal)
  | basis (b : Basis)
  | range (r : Range) (dimension : Dimension)
  | divisor (n : Nat)
  | patterns (ps : List Pattern)
  | key (name : String) (required : Bool) (program : List Check)
  /-- Every key that is not named and that passes `key` has a value that passes `value`. -/
  | index (key value : List Check) (named : List String)
  | elements (items : List (List Check)) (rest : Option (List Check))
  /-- One branch passes. All of them are tested if routing finds no value to look at. -/
  | union (dispatch : Dispatch) (fallback : List (List Check)) (expected : String)
  | deferred (name : String) (home : Home)
  | morph (input : List Check) (steps : List Step)
  | never

/-- How the branches that are left to test are found. -/
inductive Dispatch where
  | sequential (programs : List (List Check))
  | switch (probe : Probe) (cases : List (String × Dispatch)) (expected : String)

end

abbrev Program := List Check

mutual

def Check.count : Check → Nat
  | .key _ _ program => 1 + countProgram program
  | .index key value _ => 1 + countProgram key + countProgram value
  | .elements items rest => 1 + countPrograms items + countRest rest
  | .union dispatch _ _ => 1 + dispatch.count
  | .morph input _ => 1 + countProgram input
  | _ => 1

def countProgram : List Check → Nat
  | [] => 0
  | c :: r => c.count + countProgram r

def countPrograms : List (List Check) → Nat
  | [] => 0
  | p :: r => countProgram p + countPrograms r

def countRest : Option (List Check) → Nat
  | none => 0
  | some p => countProgram p

def Dispatch.count : Dispatch → Nat
  | .sequential programs => countPrograms programs
  | .switch _ cases _ => countCases cases

def countCases : List (String × Dispatch) → Nat
  | [] => 0
  | (_, d) :: r => d.count + countCases r

end

/-- The number of checks in a program and all programs in it, fallbacks apart. -/
def Program.count (p : Program) : Nat := countProgram p

/-- A union that is told apart at its root. -/
structure Switch where
  branches : Nat
  probe : Probe
  cases : Nat

def Dispatch.switch? (branches : Nat) : Dispatch → Option Switch
  | .sequential _ => none
  | .switch probe cases _ => some ⟨branches, probe, cases.length⟩

mutual

/-- The unions told apart, each before those within its branches. -/
def Check.switches : Check → List Switch
  | .key _ _ program => switchesOf program
  | .index key value _ => switchesOf key ++ switchesOf value
  | .elements items rest => switchesOfAll items ++ switchesOfRest rest
  | .union dispatch fallback _ =>
    (dispatch.switch? fallback.length).toList ++ dispatch.switches ++ switchesOfAll fallback
  | .morph input _ => switchesOf input
  | _ => []

def switchesOf : List Check → List Switch
  | [] => []
  | c :: r => c.switches ++ switchesOf r

def switchesOfAll : List (List Check) → List Switch
  | [] => []
  | p :: r => switchesOf p ++ switchesOfAll r

def switchesOfRest : Option (List Check) → List Switch
  | none => []
  | some p => switchesOf p

def Dispatch.switches : Dispatch → List Switch
  | .sequential programs => switchesOfAll programs
  | .switch _ cases _ => switchesOfCases cases

def switchesOfCases : List (String × Dispatch) → List Switch
  | [] => []
  | (_, d) :: r => d.switches ++ switchesOfCases r

end

def Program.switches (p : Program) : List Switch := switchesOf p

end SchemaAlgebra

import SchemaAlgebra.Basis
import SchemaAlgebra.Props
import SchemaAlgebra.Range
import SchemaAlgebra.Transform

/-!
# Nodes

A node is a tree of constraints. One constraint is given with its children left open,
and a node is a constraint over nodes. References to aliases and to registered
transforms are names, together with the scope they belong to.
-/
namespace SchemaAlgebra

/-- The number of a scope; a name without scope refers to nothing. -/
abbrev Home := Option Nat

/-- One step of a morph. -/
inductive Step where
  | builtin (b : Builtin)
  | registered (name : String) (home : Home)
  deriving DecidableEq

namespace Step

def name : Step → String
  | builtin b => b.name
  | registered name _ => name

/-- The step as far as it is known by its name. -/
def nominal (s : Step) : Step := registered s.name none

end Step

/-- A constraint over children in `α`. -/
inductive Constraint (α : Type u) where
  | domain (d : Domain)
  | literal (l : Literal)
  | basis (b : Basis)
  | bound (r : Range)
  /-- A multiple of the number. -/
  | divisor (n : Nat)
  | patterns (ps : List Pattern)
  | props (p : Props α)
  /-- A nominal mark that every value satisfies. -/
  | brand (name : String)
  /-- A reference to an alias, looked up when a value is validated. -/
  | deferred (name : String) (home : Home)
  /-- What satisfies the input is changed by the steps. -/
  | morph (input : α) (steps : List Step)
  /-- Alternatives in order; no value satisfies the empty union. -/
  | union (branches : List α)
  /-- Every value satisfies the empty intersection. -/
  | intersection (children : List α)
  deriving DecidableEq

namespace Constraint

variable {α : Type u}

def children : Constraint α → List α
  | props p => p.values
  | morph input _ => [input]
  | union branches => branches
  | intersection children => children
  | _ => []

def map {β : Type v} (f : α → β) : Constraint α → Constraint β
  | domain d => domain d
  | literal l => literal l
  | basis b => basis b
  | bound r => bound r
  | divisor n => divisor n
  | patterns ps => patterns ps
  | props p => props (p.map f)
  | brand name => brand name
  | deferred name home => deferred name home
  | morph input steps => morph (f input) steps
  | union branches => union (branches.map f)
  | intersection children => intersection (children.map f)

/-- The same constraint with names that refer to nothing and limits in canonical form. -/
def erased : Constraint α → Constraint α
  | bound r => bound r.canonical
  | deferred name _ => deferred name none
  | morph input steps => morph input (steps.map (·.nominal))
  | c => c

def rank : Constraint α → Nat
  | domain _ => 0
  | literal _ => 0
  | basis _ => 0
  | bound _ => 1
  | divisor _ => 2
  | patterns _ => 3
  | props _ => 4
  | brand _ => 5
  | deferred _ _ => 6
  | morph _ _ => 7
  | union _ => 7
  | intersection _ => 7

end Constraint

inductive Node where
  | of (constraint : Constraint Node)

namespace Node

def constraint : Node → Constraint Node
  | of c => c

def never : Node := of (.union [])
def unknown : Node := of (.intersection [])

instance : Inhabited Node := ⟨unknown⟩

mutual

def fold {β : Type u} (f : Constraint β → β) : Node → β
  | of (.domain d) => f (.domain d)
  | of (.literal l) => f (.literal l)
  | of (.basis b) => f (.basis b)
  | of (.bound r) => f (.bound r)
  | of (.divisor n) => f (.divisor n)
  | of (.patterns ps) => f (.patterns ps)
  | of (.props ⟨required, optional, index, sequence⟩) =>
    f (.props ⟨foldEntries f required, foldEntries f optional, foldIndex f index,
      foldSequence f sequence⟩)
  | of (.brand name) => f (.brand name)
  | of (.deferred name home) => f (.deferred name home)
  | of (.morph input steps) => f (.morph (fold f input) steps)
  | of (.union branches) => f (.union (foldList f branches))
  | of (.intersection children) => f (.intersection (foldList f children))

def foldList {β : Type u} (f : Constraint β → β) : List Node → List β
  | [] => []
  | n :: r => fold f n :: foldList f r

def foldEntries {β : Type u} (f : Constraint β → β) :
    List (String × Node) → List (String × β)
  | [] => []
  | (k, n) :: r => (k, fold f n) :: foldEntries f r

def foldIndex {β : Type u} (f : Constraint β → β) :
    List (Signature Node) → List (Signature β)
  | [] => []
  | ⟨k, v⟩ :: r => ⟨fold f k, fold f v⟩ :: foldIndex f r

def foldSequence {β : Type u} (f : Constraint β → β) :
    Option (Sequence Node) → Option (Sequence β)
  | none => none
  | some ⟨items, none⟩ => some ⟨foldList f items, none⟩
  | some ⟨items, some n⟩ => some ⟨foldList f items, some (fold f n)⟩

end

variable {β : Type u} (f : Constraint β → β)

theorem foldList_eq (ns : List Node) : foldList f ns = ns.map (fold f) := by
  induction ns with
  | nil => rfl
  | cons n r ih => simp [foldList, ih]

theorem foldEntries_eq (es : List (String × Node)) :
    foldEntries f es = es.map fun (k, n) => (k, fold f n) := by
  induction es with
  | nil => rfl
  | cons e r ih => simp [foldEntries, ih]

theorem foldIndex_eq (ss : List (Signature Node)) :
    foldIndex f ss = ss.map fun s => ⟨fold f s.key, fold f s.value⟩ := by
  induction ss with
  | nil => rfl
  | cons s r ih => simp [foldIndex, ih]

theorem foldSequence_eq (s : Option (Sequence Node)) :
    foldSequence f s = s.map (·.map (fold f)) := by
  match s with
  | none => rfl
  | some ⟨items, none⟩ => simp [foldSequence, Sequence.map, foldList_eq]
  | some ⟨items, some n⟩ => simp [foldSequence, Sequence.map, foldList_eq]

/-- A fold replaces every constraint by its value over the values of the children. -/
theorem fold_of (c : Constraint Node) : fold f (of c) = f (c.map (fold f)) := by
  cases c <;> simp [fold, Constraint.map, Props.map, foldList_eq, foldEntries_eq, foldIndex_eq,
    foldSequence_eq]

def size : Node → Nat := fold fun c => 1 + c.children.foldr (· + ·) 0

/-- Whether a reference to an alias can be reached. -/
def hasAlias : Node → Bool := fold fun c =>
  match c with
  | .deferred _ _ => true
  | c => c.children.any id

def isNever (n : Node) : Bool :=
  match n.constraint with
  | .union branches => branches.isEmpty
  | _ => false

def isUnknown (n : Node) : Bool :=
  match n.constraint with
  | .intersection children => children.isEmpty
  | _ => false

def isMorph (n : Node) : Bool :=
  match n.constraint with
  | .morph _ _ => true
  | _ => false

def domain? : Node → Option Domain := fold fun c =>
  match c with
  | .domain d => some d
  | .literal l => some l.domain
  | .basis b => some b.domain
  | .intersection children => children.findSome? id
  | .morph input _ => input
  | _ => none

/-- The first basis among the constraints that hold together. -/
def basis? : Node → Option Basis := fold fun c =>
  match c with
  | .basis b => some b
  | .intersection children => children.findSome? id
  | _ => none

/-- The alternatives of a union; any other node is its own only branch. -/
def branches (n : Node) : List Node :=
  match n.constraint with
  | .union branches => branches
  | _ => [n]

/-- The children of an intersection; any other node is its own only conjunct. -/
def conjuncts (n : Node) : List Node :=
  match n.constraint with
  | .intersection children => children
  | _ => [n]

/-- What a morph takes in; any other node itself. -/
def input (n : Node) : Node :=
  match n.constraint with
  | .morph input _ => input
  | _ => n

/-- The aliases referred to without entering a key or an item, each once. -/
def references : Node → List String := fold fun c =>
  match c with
  | .deferred name _ => [name]
  | .union branches => branches.flatten.eraseDups
  | .intersection children => children.flatten.eraseDups
  | .morph input _ => input
  | _ => []

end Node

end SchemaAlgebra

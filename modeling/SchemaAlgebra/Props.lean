import SchemaAlgebra.SortedList

/-!
# Property sets

What is required of the parts of a value: of named keys, of all other keys by index
signatures, and of the items of an array by a sequence.
-/
namespace SchemaAlgebra

/-- Every key that satisfies `key` has a value that satisfies `value`. -/
structure Signature (α : Type u) where
  key : α
  value : α
  deriving DecidableEq

/-- Items by position, then any number of further items. Without `rest` the length is
exactly the number of `items`. -/
structure Sequence (α : Type u) where
  items : List α
  rest : Option α
  deriving DecidableEq

namespace Sequence

variable {α : Type u}

/-- What is required of the item at an index. -/
def at? (s : Sequence α) (i : Nat) : Option α := s.items[i]? <|> s.rest

def fixedLength? (s : Sequence α) : Option Nat :=
  match s.rest with
  | some _ => none
  | none => some s.items.length

def admitsLength (s : Sequence α) (n : Nat) : Bool :=
  match s.rest with
  | some _ => s.items.length ≤ n
  | none => n == s.items.length

def map {β : Type v} (f : α → β) (s : Sequence α) : Sequence β :=
  ⟨s.items.map f, s.rest.map f⟩

def values (s : Sequence α) : List α := s.items ++ s.rest.toList

end Sequence

/-- The named keys are sorted. A key that is both required and optional must satisfy both
values. -/
structure Props (α : Type u) where
  required : List (String × α)
  optional : List (String × α)
  index : List (Signature α)
  sequence : Option (Sequence α)
  deriving DecidableEq

namespace Props

variable {α : Type u}

def empty : Props α := ⟨[], [], [], none⟩

/-- Adds a named key, or changes its value and whether it is required. -/
def insert (p : Props α) (key : String) (value : α) (required : Bool) : Props α :=
  if required then
    { p with
      required := Entries.insert key value p.required
      optional := Entries.erase key p.optional }
  else
    { p with
      required := Entries.erase key p.required
      optional := Entries.insert key value p.optional }

/-- The value of a named key and whether it is required. -/
def get? (p : Props α) (key : String) : Option (α × Bool) :=
  match Entries.get? key p.required with
  | some v => some (v, true)
  | none => (Entries.get? key p.optional).map (·, false)

/-- The named keys of a list of entries, the last of each key, required or not. -/
def ofNamed (entries : List (String × α × Bool)) : Props α :=
  entries.foldl (fun p (key, value, required) => p.insert key value required) empty

def ofSequence (s : Sequence α) : Props α := { (empty : Props α) with sequence := some s }

def hasNamed (p : Props α) : Bool :=
  !p.required.isEmpty || !p.optional.isEmpty || !p.index.isEmpty

def namedKeys (p : Props α) : List String := Entries.keys p.required ++ Entries.keys p.optional

/-- The values in order: of required and of optional keys, of each signature the key and
the value, and of the sequence. -/
def values (p : Props α) : List α :=
  Entries.values p.required ++ Entries.values p.optional ++
    p.index.flatMap (fun s => [s.key, s.value]) ++ (p.sequence.map (·.values)).getD []

def map {β : Type v} (f : α → β) (p : Props α) : Props β where
  required := p.required.map fun (k, v) => (k, f v)
  optional := p.optional.map fun (k, v) => (k, f v)
  index := p.index.map fun s => ⟨f s.key, f s.value⟩
  sequence := p.sequence.map (·.map f)

/-- What all items must satisfy if there is nothing else but a sequence of any length. -/
def element? (p : Props α) : Option α :=
  if p.hasNamed then none
  else match p.sequence with
    | some ⟨[], rest⟩ => rest
    | _ => none

end Props

end SchemaAlgebra

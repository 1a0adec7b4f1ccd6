import SchemaAlgebra.Algebra.Building
import SchemaAlgebra.Node.Admission
import SchemaAlgebra.SortedList

/-!
# Intersecting properties

Two property sets are intersected key by key, signature by signature and item by item.
Every part is visited, so all independent reasons for emptiness are found.
-/
namespace SchemaAlgebra.Properties

variable [Library]

/-- The properties found so far and the reasons why there are no values. -/
structure Draft where
  props : Props Node
  reasons : Disjoint

namespace Draft

def set (d : Draft) (key : String) (value : Node) (required : Bool) : Draft :=
  { d with props := d.props.insert key value required }

def refute (d : Draft) (reason : Disjoint) : Draft := { d with reasons := d.reasons ++ reason }

def presence (d : Draft) (path : List String) (left right : Node) : Draft :=
  d.refute (.single .presence path left right)

def finish (d : Draft) : Attempt (Props Node) :=
  if d.reasons.isEmpty then pure d.props else throw d.reasons

end Draft

/-- The intersection, or the node without values. -/
def meetOrNever (meet : Meet) (a b : Node) : Traced Node := do
  match ← (meet a b).run with
  | .ok n => pure n
  | .error _ => Traced.never

/-- Intersects the values of a key that both sides name. An optional key without values
stays as one that must be absent. -/
def meetNamed (meet : Meet) (d : Draft) (key : String) (a b : Node) (inLeft inRight : Bool) :
    Traced Draft := do
  match ← (meet a b).run with
  | .ok value =>
    return if value.isNever && (inLeft || inRight) then d.presence [key] a b
      else d.set key value (inLeft || inRight)
  | .error inner =>
    if !inLeft && !inRight then return d.set key (← Traced.never) false
    return if inLeft && inRight then d.refute (inner.inside key) else d.presence [key] a b

def meetKey (meet : Meet) (p q : Props Node) (d : Draft) (key : String) : Traced Draft :=
  match p.get? key, q.get? key with
  | some (a, inLeft), some (b, inRight) => meetNamed meet d key a b inLeft inRight
  | some (value, required), none => pure (d.set key value required)
  | none, some (value, required) => pure (d.set key value required)
  | none, none => pure d

def meetKeys (meet : Meet) (p q : Props Node) (d : Draft) : List String → Traced Draft
  | [] => pure d
  | key :: r => do meetKeys meet p q (← meetKey meet p q d key) r

def allKeys (p q : Props Node) : List String :=
  Entries.keys (Entries.ofList ((p.namedKeys ++ q.namedKeys).map (·, ())))

/-- Adds a signature, or narrows the one with the same key. -/
def addSignature (meet : Meet) (s : Signature Node) :
    List (Signature Node) → Traced (List (Signature Node))
  | [] => pure [s]
  | t :: r => do
    if t.key.same s.key then return ⟨t.key, ← meetOrNever meet t.value s.value⟩ :: r
    return t :: (← addSignature meet s r)

def meetIndex (meet : Meet) (index : List (Signature Node)) :
    List (Signature Node) → Traced (List (Signature Node))
  | [] => pure index
  | s :: r => do meetIndex meet (← addSignature meet s index) r

/-- Whether the lengths that two sequences admit have nothing in common. -/
def lengthsClash (s t : Sequence Node) : Bool :=
  match s.fixedLength?, t.fixedLength? with
  | some m, some n => m != n
  | some m, none => decide (m < t.items.length)
  | none, some n => decide (n < s.items.length)
  | none, none => false

/-- The number of items that the intersection lists by position. -/
def listedLength (s t : Sequence Node) : Nat :=
  match s.fixedLength?, t.fixedLength? with
  | some m, _ => m
  | none, some n => n
  | none, none => max s.items.length t.items.length

/-- The items with the given positions; the reasons are gathered from all of them. -/
def meetItems (meet : Meet) (s t : Sequence Node) (items : List Node) (reasons : Disjoint) :
    List Nat → Traced (List Node × Disjoint)
  | [] => pure (items, reasons)
  | i :: r => do
    match s.at? i, t.at? i with
    | some a, some b =>
      match ← (meet a b).run with
      | .ok n =>
        if n.isNever then
          meetItems meet s t items (reasons ++ .single .presence [toString i] a b) r
        else meetItems meet s t (items ++ [n]) reasons r
      | .error inner => meetItems meet s t items (reasons ++ inner.inside (toString i)) r
    | _, _ => meetItems meet s t items reasons r

def meetRest (meet : Meet) : Option Node → Option Node → Traced (Option Node)
  | some a, some b => some <$> meetOrNever meet a b
  | _, _ => pure none

def meetSequences (meet : Meet) (s t : Sequence Node) : Attempt (Sequence Node) := do
  if lengthsClash s t then
    let l ← Traced.props (.ofSequence s)
    let r ← Traced.props (.ofSequence t)
    throw (.single .length [] l r)
  let (items, reasons) ← meetItems meet s t [] .none (List.range (listedLength s t))
  if !reasons.isEmpty then throw reasons
  return ⟨items, ← meetRest meet s.rest t.rest⟩

/-- Intersects the sequences if there are two. -/
def meetSequence (meet : Meet) (p q : Props Node) (d : Draft) : Traced Draft := do
  match p.sequence, q.sequence with
  | some s, some t =>
    match ← (meetSequences meet s t).run with
    | .ok both => return { d with props := { d.props with sequence := some both } }
    | .error inner => return d.refute inner
  | s, t => return { d with props := { d.props with sequence := s <|> t } }

/-- Narrows one named key by a signature that matches it. -/
def narrowKey (meet : Meet) (s : Signature Node) (d : Draft) (key : String) : Traced Draft := do
  Traced.emit (.consulted s.key)
  if !s.key.admits (.string key) then return d
  match d.props.get? key with
  | none => return d
  | some (value, required) =>
    match ← (meet value s.value).run with
    | .ok narrowed =>
      return if narrowed.isNever && required then d.presence [key] value s.value
        else d.set key narrowed required
    | .error inner =>
      if required then return d.refute (inner.inside key)
      return d.set key (← Traced.never) false

def narrowKeys (meet : Meet) (s : Signature Node) (d : Draft) : List String → Traced Draft
  | [] => pure d
  | key :: r => do narrowKeys meet s (← narrowKey meet s d key) r

/-- A signature whose key depends on an alias is left to validation. -/
def narrowAll (meet : Meet) (d : Draft) : List (Signature Node) → Traced Draft
  | [] => pure d
  | s :: r => do
    let next ← if s.key.hasAlias then pure d else narrowKeys meet s d d.props.namedKeys
    narrowAll meet next r

def refuteRequired (d : Draft) : Traced Draft := do
  if d.props.sequence.isNone then return d
  let never ← Traced.never
  return d.props.required.foldl (fun d (key, value) => d.presence [key] value never) d

def sortedIndex (index : List (Signature Node)) : List (Signature Node) :=
  Sorting.sort (fun s t => decide (s.key.key < t.key.key)) index

def normalize (meet : Meet) (p : Props Node) : Attempt (Props Node) := do
  let index := sortedIndex p.index
  let narrowed ← narrowAll meet ⟨{ p with index := index }, .none⟩ index
  let d ← refuteRequired narrowed
  d.finish

def meetProps (meet : Meet) (p q : Props Node) : Attempt (Props Node) := do
  let named ← meetKeys meet p q ⟨.empty, .none⟩ (allKeys p q)
  let index ← meetIndex meet p.index q.index
  let d ← meetSequence meet p q { named with props := { named.props with index := index } }
  normalize meet (← d.finish)

end SchemaAlgebra.Properties

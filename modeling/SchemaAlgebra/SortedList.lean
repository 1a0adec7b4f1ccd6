/-!
# Sorted lists

Insertion sort moves elements only past those that come strictly before them, so equal elements
keep their order. A finite map from texts is a list of entries in increasing order of their keys;
texts are compared character by character, which is also the order of their bytes.
-/
namespace SchemaAlgebra.Sorting

variable {α : Type u}

/-- Places an element before the first that does not come before it. -/
def place (before : α → α → Bool) (a : α) : List α → List α
  | [] => [a]
  | b :: r => if before b a then b :: place before a r else a :: b :: r

def sort (before : α → α → Bool) (as : List α) : List α := as.foldr (place before) []

def dropRepeatsAfter (same : α → α → Bool) (a : α) : List α → List α
  | [] => []
  | b :: r => if same a b then dropRepeatsAfter same a r else b :: dropRepeatsAfter same b r

/-- Drops every element that is the same as the one kept before it. -/
def dropRepeats (same : α → α → Bool) : List α → List α
  | [] => []
  | a :: r => a :: dropRepeatsAfter same a r

end SchemaAlgebra.Sorting

namespace SchemaAlgebra.Entries

variable {α : Type u}

def get? (key : String) : List (String × α) → Option α
  | [] => none
  | (k, v) :: r => if key = k then some v else get? key r

def insert (key : String) (value : α) : List (String × α) → List (String × α)
  | [] => [(key, value)]
  | (k, v) :: r =>
    if key < k then (key, value) :: (k, v) :: r
    else if key = k then (key, value) :: r
    else (k, v) :: insert key value r

def erase (key : String) : List (String × α) → List (String × α)
  | [] => []
  | (k, v) :: r => if key = k then r else (k, v) :: erase key r

def keys (entries : List (String × α)) : List String := entries.map (·.1)
def values (entries : List (String × α)) : List α := entries.map (·.2)

def contains (key : String) (entries : List (String × α)) : Bool := (get? key entries).isSome

/-- The entries in order of their keys; of two with one key the later counts. -/
def ofList (entries : List (String × α)) : List (String × α) :=
  entries.foldl (fun acc (k, v) => insert k v acc) []

end SchemaAlgebra.Entries

import SchemaAlgebra.Algebra.Traced
import SchemaAlgebra.SortedList

/-!
# Building nodes

The few shapes that are built in more than one place.
-/
namespace SchemaAlgebra.Traced

def never : Traced Node := build .never
def unknown : Traced Node := build .unknown
def domain (d : Domain) : Traced Node := build (.of (.domain d))
def literal (l : Literal) : Traced Node := build (.of (.literal l))
def basis (b : Basis) : Traced Node := build (.of (.basis b))
def bound (r : Range) : Traced Node := build (.of (.bound r.canonical))
def divisor (n : Nat) : Traced Node := build (.of (.divisor n))
def patterns (ps : List Pattern) : Traced Node := build (.of (.patterns ps))
def props (p : Props Node) : Traced Node := build (.of (.props p))

/-- The children in canonical order, each once. An only child stands for itself. -/
def intersection : List Node → Traced Node
  | [n] => pure n
  | children =>
    build (.of (.intersection
      (Sorting.dropRepeats Node.same (Sorting.sort Node.precedes children))))

def object (p : Props Node) : Traced Node := do
  let domain ← domain .object
  let props ← props p
  intersection [domain, props]

/-- The arrays whose items all satisfy the element. -/
def arrayOf (element : Node) : Traced Node := do
  let basis ← basis .array
  if element.isUnknown then return basis
  let props ← props (.ofSequence ⟨[], some element⟩)
  intersection [basis, props]

/-- A morph of the input; nothing is left of a morph that takes no value. -/
def morph (input : Node) (steps : List Step) : Traced Node :=
  if input.isNever then pure input else build (.of (.morph input steps))

end SchemaAlgebra.Traced

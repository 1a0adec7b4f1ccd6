import SchemaAlgebra.Disjoint

/-!
# Traced computations

The algebra builds nodes through a representative, which gives equal nodes one shared form, and
leaves a trace of the nodes it builds, of those whose values it asks for, and of the unions it
reduces. The trace never changes a value. A store holds one node of each structure, the first one
that was built. Computations of the algebra run against a store and leave there what they build.
-/
namespace SchemaAlgebra

inductive Event where
  | built (n : Node)
  /-- It was asked whether the node admits a value. -/
  | consulted (n : Node)
  /-- The branches of a union and what is kept of them. -/
  | reduced (branches kept : List Node)
  /-- The budget of a recursion ran out. -/
  | exhausted

/-- A computation goes on with the node that it is given for each node that it asks for. -/
inductive Traced (α : Type u) where
  | done (a : α)
  | noted (e : Event) (next : Traced α)
  | asks (n : Node) (next : Node → Traced α)

namespace Traced

variable {α β : Type u}

protected def bind (f : α → Traced β) : Traced α → Traced β
  | done a => f a
  | noted e next => noted e (next.bind f)
  | asks n next => asks n fun m => (next m).bind f

instance : Monad Traced where
  pure := done
  bind x f := x.bind f

/-- The value for one choice of representatives. -/
def value : Traced α → (Node → Node) → α
  | done a, _ => a
  | noted _ next, rep => next.value rep
  | asks n next, rep => (next (rep n)).value rep

def trace : Traced α → (Node → Node) → List Event
  | done _, _ => []
  | noted e next, rep => e :: next.trace rep
  | asks n next, rep => .built (rep n) :: (next (rep n)).trace rep

variable (rep : Node → Node)

@[simp] theorem value_pure (a : α) : (pure a : Traced α).value rep = a := rfl

@[simp] theorem trace_pure (a : α) : (pure a : Traced α).trace rep = [] := rfl

@[simp] theorem value_bind (x : Traced α) (f : α → Traced β) :
    (x >>= f).value rep = (f (x.value rep)).value rep := by
  change (x.bind f).value rep = _
  induction x with
  | done a => rfl
  | noted e next ih => exact ih
  | asks n next ih => exact ih (rep n)

@[simp] theorem trace_bind (x : Traced α) (f : α → Traced β) :
    (x >>= f).trace rep = x.trace rep ++ (f (x.value rep)).trace rep := by
  change (x.bind f).trace rep = _
  induction x with
  | done a => rfl
  | noted e next ih => exact congrArg (e :: ·) ih
  | asks n next ih => exact congrArg (.built (rep n) :: ·) (ih (rep n))

@[simp] theorem value_map (f : α → β) (x : Traced α) : (f <$> x).value rep = f (x.value rep) :=
  value_bind rep x _

def emit (e : Event) : Traced PUnit := noted e (done ⟨⟩)

@[simp] theorem value_emit (e : Event) : (emit e).value rep = ⟨⟩ := rfl

@[simp] theorem trace_emit (e : Event) : (emit e).trace rep = [e] := rfl

def build (n : Node) : Traced Node := asks n done

@[simp] theorem value_build (n : Node) : (build n).value rep = rep n := rfl

@[simp] theorem trace_build (n : Node) : (build n).trace rep = [.built (rep n)] := rfl

/-- The value and the state after the computation. Every step sees what the steps before it left. -/
def thread {σ : Type v} (represent : σ → Node → Node) (record : σ → Event → σ) :
    Traced α → σ → α × σ
  | done a, s => (a, s)
  | noted e next, s => next.thread represent record (record s e)
  | asks n next, s =>
    (next (represent s n)).thread represent record (record s (.built (represent s n)))

end Traced

/-- A computation that may instead prove that there are no values. -/
abbrev Attempt := ExceptT Disjoint Traced

abbrev Meet := Node → Node → Attempt Node

structure Store where
  nodes : List Node

namespace Store

def empty : Store := ⟨[]⟩

def size (s : Store) : Nat := s.nodes.length

/-- The node held in place of `n`, or `n` itself. -/
def representative (s : Store) (n : Node) : Node := (s.nodes.find? n.same).getD n

def insert (s : Store) (n : Node) : Store :=
  if s.nodes.any n.same then s else ⟨s.nodes ++ [n]⟩

def record (s : Store) : Event → Store
  | .built n => s.insert n
  | .consulted _ => s
  | .reduced _ _ => s
  | .exhausted => s

/-- The value of a computation and the store with all nodes that it built. -/
def run {α : Type u} (s : Store) (x : Traced α) : α × Store :=
  x.thread representative record s

end Store

end SchemaAlgebra

import SchemaAlgebra.Proofs.Sameness
import SchemaAlgebra.Algebra.Meet

/-!
# What computations of the algebra ensure

A computation is judged for one choice of representatives, under an assumption about the
events on its trace: its value is as stated, all nodes that it builds have a property, and
its budget does not run out.
-/
namespace SchemaAlgebra

/-- The choice of representatives, the assumption about events and the property of nodes. -/
structure Judging where
  rep : Node → Node
  assumed : Event → Prop
  holds : Node → Prop
  /-- The representative of a node with the property has it too. -/
  keeps : ∀ n, holds n → holds (rep n)
  faithful : ∀ n : Node, n.same (rep n) = true

/-- What is promised of the events on a trace. -/
def Judging.Promised (j : Judging) : Event → Prop
  | .built n => j.holds n
  | .exhausted => False
  | _ => True

/-- If the events are as assumed, the value satisfies `Q` and the events are as promised. -/
def Traced.Ensures {α : Type} (j : Judging) (x : Traced α) (Q : α → Prop) : Prop :=
  (∀ e ∈ x.trace j.rep, j.assumed e) →
    Q (x.value j.rep) ∧ ∀ e ∈ x.trace j.rep, j.Promised e

namespace Traced.Ensures

variable {α β : Type} {j : Judging} {Q R : α → Prop} {S : β → Prop}

theorem pure {a : α} (h : Q a) : Ensures j (Pure.pure a) Q :=
  fun _ => ⟨h, fun _ hn => nomatch hn⟩

theorem bind {x : Traced α} {f : α → Traced β} (first : Ensures j x Q)
    (next : ∀ a, Q a → Ensures j (f a) S) : Ensures j (x >>= f) S := by
  intro events
  simp only [trace_bind, List.mem_append, or_imp, forall_and] at events
  obtain ⟨value, promised⟩ := first events.1
  obtain ⟨value', promised'⟩ := next _ value events.2
  refine ⟨(value_bind j.rep x f).symm ▸ value', fun e he => ?_⟩
  rw [trace_bind, List.mem_append] at he
  exact he.elim (promised e) (promised' e)

theorem mono {x : Traced α} (h : Ensures j x Q) (weaker : ∀ a, Q a → R a) : Ensures j x R :=
  fun events => ⟨weaker _ (h events).1, (h events).2⟩

theorem map {x : Traced α} {f : α → β} (h : Ensures j x fun a => S (f a)) :
    Ensures j (f <$> x) S :=
  h.bind fun _ ha => pure ha

theorem build {n : Node} (h : j.holds n) {Q : Node → Prop}
    (value : j.holds (j.rep n) → Q (j.rep n)) : Ensures j (Traced.build n) Q := by
  intro _
  have kept := j.keeps n h
  refine ⟨value kept, fun e he => ?_⟩
  rw [trace_build, List.mem_singleton] at he
  exact he ▸ kept

theorem emit {e : Event} (h : j.Promised e) {Q : PUnit → Prop}
    (value : j.assumed e → Q ⟨⟩) : Ensures j (Traced.emit e) Q := by
  intro events
  refine ⟨value (events e (by simp)), fun f hf => ?_⟩
  rw [trace_emit, List.mem_singleton] at hf
  exact hf ▸ h

theorem ite {c : Prop} [Decidable c] {x y : Traced α} (yes : c → Ensures j x Q)
    (no : ¬c → Ensures j y Q) : Ensures j (if c then x else y) Q := by
  by_cases h : c
  · rw [if_pos h]; exact yes h
  · rw [if_neg h]; exact no h

end Traced.Ensures

/-- What is stated of the value of an attempt, and of its reasons if there is none. -/
def Attempt.Ensures {α : Type} (j : Judging) (x : Attempt α) (Q : α → Prop)
    (E : Disjoint → Prop) : Prop :=
  x.run.Ensures j fun
    | .ok a => Q a
    | .error d => E d

namespace Attempt.Ensures

variable {α β : Type} {j : Judging} {Q R : α → Prop} {S : β → Prop}
  {E F : Disjoint → Prop}

theorem pure {a : α} (h : Q a) : Ensures j (Pure.pure a) Q E := Traced.Ensures.pure h

theorem throw {d : Disjoint} (h : E d) : Ensures j (throw d : Attempt α) Q E :=
  Traced.Ensures.pure h

theorem lift {x : Traced α} (h : x.Ensures j Q) : Ensures j (ExceptT.lift x) Q E :=
  h.bind fun _ ha => Traced.Ensures.pure ha

theorem bind {x : Attempt α} {f : α → Attempt β} (first : Ensures j x Q E)
    (next : ∀ a, Q a → Ensures j (f a) S E) : Ensures j (x >>= f) S E := by
  refine Traced.Ensures.bind first fun o ho => ?_
  cases o with
  | ok a => exact next a ho
  | error d => exact Traced.Ensures.pure ho

theorem throw_bind {d : Disjoint} {f : α → Attempt β} (h : E d) :
    Ensures j (MonadExcept.throw d >>= f) S E :=
  throw h

theorem ite {c : Prop} [Decidable c] {x y : Attempt α} (yes : c → Ensures j x Q E)
    (no : ¬c → Ensures j y Q E) : Ensures j (if c then x else y) Q E := by
  by_cases h : c
  · rw [if_pos h]; exact yes h
  · rw [if_neg h]; exact no h

theorem mono {x : Attempt α} (h : Ensures j x Q E) (value : ∀ a, Q a → R a)
    (reasons : ∀ d, E d → F d) : Ensures j x R F := by
  refine Traced.Ensures.mono h fun o ho => ?_
  cases o with
  | ok a => exact value a ho
  | error d => exact reasons d ho

theorem run_bind {x : Attempt α} {f : Except Disjoint α → Traced β} (h : Ensures j x Q E)
    (value : ∀ a, Q a → (f (.ok a)).Ensures j S)
    (reasons : ∀ d, E d → (f (.error d)).Ensures j S) : (x.run >>= f).Ensures j S := by
  refine Traced.Ensures.bind h fun o ho => ?_
  cases o with
  | ok a => exact value a ho
  | error d => exact reasons d ho

end Attempt.Ensures

/-- Nodes as they are, judged unless a budget runs out. -/
def Judging.lasting : Judging :=
  ⟨id, (· ≠ .exhausted), fun _ => True, fun _ _ => trivial, Node.same_refl⟩

/-- Nothing is asked of the nodes that are built, so the value is all there is to ensure. -/
theorem Traced.ensures_lasting {α : Type} {x : Traced α} {Q : α → Prop} (h : Q (x.value id)) :
    x.Ensures .lasting Q := by
  refine fun lasts => ⟨h, fun e he => ?_⟩
  cases e with
  | exhausted => exact lasts _ he rfl
  | _ => exact trivial

theorem Traced.build_lasting {n : Node} {Q : Node → Prop} (h : Q n) :
    (build n).Ensures .lasting Q := ensures_lasting h

end SchemaAlgebra

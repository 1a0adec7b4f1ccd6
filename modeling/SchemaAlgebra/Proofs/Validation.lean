import SchemaAlgebra.Proofs.Lowering
import SchemaAlgebra.Proofs.Runs
import SchemaAlgebra.Standard

/-!
# Validation

Compiling a node without aliases and running the program comes to the verdict that the
structure of the node gives, whatever is left out, routed around or kept on a stack.
-/
namespace SchemaAlgebra

section

open Traversal

variable [Library]

namespace Traversal

/-- The state in which a run ends that follows no alias. -/
def ended (maxDepth : Option Nat) (v : Bool) : Traversal :=
  ⟨.allow, maxDepth, 0, [], [], [], [], some (.value (verdictOf v))⟩

omit [Library] in
theorem ended_isPassed (maxDepth : Option Nat) (v : Bool) :
    isPassed (ended maxDepth v).verdict = v := by
  cases v <;> rfl

theorem Decides.reaches_ended {b : Bindings} {test : Program → String → Option KeyTest}
    {p : Program} {d : Json} {v : Bool} (h : Decides b test p d v) (maxDepth : Option Nat) :
    Reaches (step b test) (start .allow maxDepth p d) (ended maxDepth v) :=
  h (start .allow maxDepth p d) false [] rfl rfl

/-- Names are tested against the keys of signatures as the keys read. -/
theorem limitTest_answersKeys (b : Bindings) (maxDepth : Option Nat) :
    AnswersKeys (limitTest b maxDepth) := by
  intro key hasAlias name
  have lowered : Node.Lowers b (fun _ _ => none) key := Node.lowers hasAlias
  have decides := lowered.lower (Or.inr ⟨name, rfl⟩) (Known.nothing_holds (.string name))
  obtain ⟨k, steps⟩ := decides.reaches_ended maxDepth
  have run_ends : runText b k maxDepth key.compile name =
      some (ended maxDepth (key.admits (.string name))) := by
    rw [runText, finished_eq_some]
    exact ⟨iterate_of_steps (fun _ => step_of_isFinished) steps rfl Nat.lt_two_pow_self.le, rfl⟩
  have answered : testKey b k maxDepth key.compile name =
      some ⟨key.admits (.string name), []⟩ := by
    simp only [testKey, run_ends, Option.map_some, ended_isPassed]
    rfl
  exact limitTest_eq_some answered

end Traversal

namespace Node

/-- The run of a compiled node ends with the verdict of the node's own reading. -/
theorem reaches_compile {n : Node} (hasAlias : n.hasAlias = false) (b : Bindings)
    (maxDepth : Option Nat) (d : Json) :
    Reaches (step b (limitTest b maxDepth)) (start .allow maxDepth n.compile d)
      (ended maxDepth (n.admits d)) := by
  have lowered : Lowers b (limitTest b maxDepth) n := lowers hasAlias
  have decides := lowered.lower (Or.inl (limitTest_answersKeys b maxDepth)) (Known.nothing_holds d)
  exact decides.reaches_ended maxDepth

/-- A compiled node without aliases allows exactly the values that it admits: no run ends
with another verdict, and with enough patience every run ends. -/
theorem compile_allows_eq_admits {n : Node} (hasAlias : n.hasAlias = false) (b : Bindings)
    (maxDepth : Option Nat) (d : Json) :
    (∀ patience v, n.compile.allows b patience maxDepth d = some v → v.outcome = n.admits d) ∧
      ∃ least, ∀ patience, least ≤ patience →
        n.compile.allows b patience maxDepth d = some ⟨n.admits d, []⟩ := by
  obtain ⟨least, runs⟩ := run_of_reaches rfl (reaches_compile hasAlias b maxDepth d)
  have allowed (patience : Nat) (enough : least ≤ patience) :
      n.compile.allows b patience maxDepth d = some ⟨n.admits d, []⟩ := by
    rw [Program.allows, runs patience enough, Option.map_some, ended_isPassed]
    rfl
  refine ⟨fun patience v h => ?_, least, allowed⟩
  rw [Program.allows, Option.map_eq_some_iff] at h
  obtain ⟨u, ran, rfl⟩ := h
  have later := run_mono (le_max_left patience least) ran
  rw [runs _ (le_max_right patience least), Option.some.injEq] at later
  rw [← later]
  exact ended_isPassed maxDepth (n.admits d)

end Node

end

namespace Node

attribute [local instance] Library.standard

def tagged (tag : String) (value : Domain) : Node :=
  of (.intersection [of (.domain .object), of (.props
    ⟨[("tag", of (.literal (.string tag))), ("value", of (.domain value))], [], [], none⟩)])

/-- A value led to its branch by a tag is allowed if the branch admits it. -/
theorem compile_allows_tagged :
    (of (.union [tagged "text" .string, tagged "count" .number])).hasAlias = false ∧
      ∃ least, ∀ patience, least ≤ patience →
        (of (.union [tagged "text" .string, tagged "count" .number])).compile.allows
          ⟨fun _ _ => none, fun _ _ => .ok⟩ patience none
          (.object [("tag", .string "count"), ("value", .number (.int 3))]) = some ⟨true, []⟩ :=
  ⟨by decide, (compile_allows_eq_admits (by decide) _ none _).2⟩

end Node

end SchemaAlgebra

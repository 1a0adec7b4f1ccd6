import Mathlib.Algebra.Group.Nat.Defs
import Mathlib.Order.Basic
import Mathlib.Tactic.SplitIfs
import Mathlib.Tactic.Set
import SchemaAlgebra.Proofs.Machine

/-!
# Runs with more patience

A finished run stays as it is, so more patience never changes a result, neither that of a
run itself nor through the tests of keys that it asks for.
-/
namespace SchemaAlgebra.Traversal

theorem step_of_isFinished [Library] {b : Bindings} {test : Program → String → Option KeyTest}
    {t : Traversal} (h : t.isFinished = true) : step b test t = t := by
  obtain ⟨mode, maxDepth, depth, path, problems, visited, stack, done⟩ := t
  cases stack with
  | nil => rfl
  | cons frame rest => cases h

theorem iterate_of_isFinished {next : Traversal → Traversal}
    (fixed : ∀ t : Traversal, t.isFinished = true → next t = t) {t : Traversal}
    (h : t.isFinished = true) (k : Nat) : next^[k] t = t :=
  Function.iterate_fixed (fixed t h) k

theorem iterate_eq {next : Traversal → Traversal}
    (fixed : ∀ t : Traversal, t.isFinished = true → next t = t) (patience : Nat)
    (t : Traversal) : iterate next patience t = next^[2 ^ patience] t := by
  induction patience generalizing t with
  | zero => rfl
  | succ patience ih =>
    rw [Nat.pow_succ, Nat.mul_two, Function.iterate_add_apply, ← ih t]
    simp only [iterate]
    split_ifs with h
    · rw [iterate_of_isFinished fixed h]
    · exact ih _

/-- A run that finishes after some steps ends there if it is given at least as many. -/
theorem iterate_of_steps {next : Traversal → Traversal}
    (fixed : ∀ t : Traversal, t.isFinished = true → next t = t) {k patience : Nat}
    {t u : Traversal} (h : next^[k] t = u) (hu : u.isFinished = true) (hk : k ≤ 2 ^ patience) :
    iterate next patience t = u := by
  obtain ⟨more, hmore⟩ := Nat.exists_eq_add_of_le hk
  rw [iterate_eq fixed, hmore, Nat.add_comm, Function.iterate_add_apply, h,
    iterate_of_isFinished fixed hu]

/-- The second test answers whatever the first one does. -/
def Refines (test better : Program → String → Option KeyTest) : Prop :=
  ∀ p name answer, test p name = some answer → better p name = some answer

theorem indexJobs_refines {test better : Program → String → Option KeyTest}
    (refines : Refines test better) {key value : Program} {named : List String}
    {entries : List (String × Json)} {jobs : List Job × List (Home × String)}
    (h : indexJobs test key value named entries = some jobs) :
    indexJobs better key value named entries = some jobs := by
  induction entries generalizing jobs with
  | nil => exact h
  | cons e entries ih =>
    obtain ⟨name, child⟩ := e
    rw [indexJobs] at h ⊢
    split_ifs at h ⊢ with named
    · exact ih h
    · simp only [Option.bind_eq_bind, Option.bind_eq_some_iff] at h ⊢
      obtain ⟨answer, answered, others, found, h⟩ := h
      exact ⟨answer, refines _ _ _ answered, others, ih found, h⟩

variable [Library]

/-- With a better test a check begins in the same way, unless it waited for an answer. -/
theorem begin_refines {b : Bindings} {test better : Program → String → Option KeyTest}
    (refines : Refines test better) (t : Traversal) (c : Check) (d : Json) :
    begin? b better t c d = begin? b test t c d ∨ begin? b test t c d = (t, .waiting) := by
  cases c with
  | index key value named =>
    cases d with
    | object entries =>
      simp only [begin?, beginIndex]
      cases h : indexJobs test key value named entries with
      | none => exact Or.inr rfl
      | some jobs => rw [indexJobs_refines refines h]; exact Or.inl rfl
    | _ => exact Or.inl rfl
  | _ => exact Or.inl rfl

/-- With a better test a step is the same, unless it waited for an answer. -/
theorem step_refines {b : Bindings} {test better : Program → String → Option KeyTest}
    (refines : Refines test better) (t : Traversal) :
    step b better t = step b test t ∨ step b test t = t := by
  obtain ⟨mode, maxDepth, depth, path, problems, visited, stack, done⟩ := t
  cases stack with
  | nil => exact Or.inl rfl
  | cons frame rest =>
    cases done with
    | some d => exact Or.inl rfl
    | none =>
      cases frame with
      | program f =>
        simp only [step, advance, advanceProgram]
        cases hrest : f.rest with
        | nil => exact Or.inl rfl
        | cons c r =>
          set t : Traversal :=
            ⟨mode, maxDepth, depth, path, problems, visited, .program f :: rest, none⟩
          rcases begin_refines (b := b) refines t c f.data with same | waits
          · exact Or.inl (by simp only [same])
          · exact Or.inr (by simp only [waits])
      | _ => exact Or.inl rfl

theorem steps_refines {b : Bindings} {test better : Program → String → Option KeyTest}
    (refines : Refines test better) {k : Nat} {t u : Traversal} (h : (step b test)^[k] t = u)
    (hu : u.isFinished = true) : (step b better)^[k] t = u := by
  induction k generalizing t with
  | zero => exact h
  | succ k ih =>
    rw [Function.iterate_succ_apply] at h
    rcases step_refines (b := b) refines t with same | stuck
    · rw [Function.iterate_succ_apply, same]
      exact ih h
    · rw [stuck] at h
      rw [Function.iterate_succ_apply', ih h, step_of_isFinished hu]

omit [Library] in
theorem finished_eq_some {t u : Traversal} :
    t.finished? = some u ↔ t = u ∧ u.isFinished = true := by
  unfold finished?
  split_ifs with h
  · rw [Option.some.injEq]
    exact ⟨fun same => ⟨same, same ▸ h⟩, fun same => same.1⟩
  · simp only [false_iff, not_and]
    rintro rfl
    exact h

theorem testKey_refines (b : Bindings) (maxDepth : Option Nat) {p q : Nat} (h : p ≤ q) :
    Refines (testKey b p maxDepth) (testKey b q maxDepth) := by
  intro program name answer answered
  simp only [testKey, runText, Option.map_eq_some_iff, finished_eq_some] at answered ⊢
  obtain ⟨u, ⟨ended, finished⟩, rfl⟩ := answered
  rw [iterate_eq fun _ => step_of_isFinished] at ended
  exact ⟨u, ⟨iterate_of_steps (fun _ => step_of_isFinished) ended finished
    (Nat.pow_le_pow_right Nat.two_pos h), finished⟩, rfl⟩

theorem run_mono {b : Bindings} {mode : Mode} {maxDepth : Option Nat} {program : Program}
    {d : Json} {p q : Nat} {u : Traversal} (hpq : p ≤ q)
    (h : run b p mode maxDepth program d = some u) : run b q mode maxDepth program d = some u := by
  simp only [run, finished_eq_some] at h ⊢
  obtain ⟨ended, finished⟩ := h
  rw [iterate_eq fun _ => step_of_isFinished] at ended
  exact ⟨iterate_of_steps (fun _ => step_of_isFinished)
    (steps_refines (testKey_refines b maxDepth hpq) ended finished) finished
    (Nat.pow_le_pow_right Nat.two_pos hpq), finished⟩

open Classical in
/-- What the runs of a key program on a name answer with enough patience, if any of them does. -/
noncomputable def limitTest (b : Bindings) (maxDepth : Option Nat) (p : Program) (name : String) :
    Option KeyTest :=
  if h : ∃ answer patience, testKey b patience maxDepth p name = some answer then some h.choose
  else none

theorem limitTest_eq_some {b : Bindings} {maxDepth : Option Nat} {p : Program} {name : String}
    {patience : Nat} {answer : KeyTest} (h : testKey b patience maxDepth p name = some answer) :
    limitTest b maxDepth p name = some answer := by
  have answered : ∃ answer patience, testKey b patience maxDepth p name = some answer :=
    ⟨answer, patience, h⟩
  rw [limitTest, dif_pos answered]
  obtain ⟨other, hother⟩ := answered.choose_spec
  rcases Nat.le_total patience other with later | later
  · rw [← hother, testKey_refines b maxDepth later _ _ _ h]
  · rw [← h, testKey_refines b maxDepth later _ _ _ hother]

theorem testKey_eq_limitTest (b : Bindings) (maxDepth : Option Nat) (p : Program) (name : String) :
    ∃ least, ∀ q, least ≤ q →
      testKey b q maxDepth p name = limitTest b maxDepth p name := by
  by_cases h : ∃ answer patience, testKey b patience maxDepth p name = some answer
  · obtain ⟨answer, patience, answered⟩ := h
    refine ⟨patience, fun q hq => ?_⟩
    rw [limitTest_eq_some answered, testKey_refines b maxDepth hq _ _ _ answered]
  · refine ⟨0, fun q _ => ?_⟩
    rw [limitTest, dif_neg h, Option.eq_none_iff_forall_ne_some]
    exact fun answer answered => h ⟨answer, q, answered⟩

theorem indexJobs_eq_limit (b : Bindings) (maxDepth : Option Nat) (key value : Program)
    (named : List String) (entries : List (String × Json)) :
    ∃ least, ∀ q, least ≤ q → indexJobs (testKey b q maxDepth) key value named entries =
      indexJobs (limitTest b maxDepth) key value named entries := by
  induction entries with
  | nil => exact ⟨0, fun _ _ => rfl⟩
  | cons e entries ih =>
    obtain ⟨name, child⟩ := e
    obtain ⟨first, hfirst⟩ := testKey_eq_limitTest b maxDepth key name
    obtain ⟨others, hothers⟩ := ih
    refine ⟨max first others, fun q hq => ?_⟩
    obtain ⟨h, h'⟩ := Nat.max_le.mp hq
    rw [indexJobs, indexJobs, hfirst q h, hothers q h']

theorem begin_eq_limit (b : Bindings) (maxDepth : Option Nat) (t : Traversal) (c : Check)
    (d : Json) : ∃ least, ∀ q, least ≤ q →
      begin? b (testKey b q maxDepth) t c d = begin? b (limitTest b maxDepth) t c d := by
  cases c with
  | index key value named =>
    cases d with
    | object entries =>
      obtain ⟨least, same⟩ := indexJobs_eq_limit b maxDepth key value named entries
      exact ⟨least, fun q hq => by simp only [begin?, beginIndex, same q hq]⟩
    | _ => exact ⟨0, fun _ _ => rfl⟩
  | _ => exact ⟨0, fun _ _ => rfl⟩

theorem step_eq_limit (b : Bindings) (maxDepth : Option Nat) (t : Traversal) :
    ∃ least, ∀ q, least ≤ q →
      step b (testKey b q maxDepth) t = step b (limitTest b maxDepth) t := by
  obtain ⟨mode, deepest, depth, path, problems, visited, stack, done⟩ := t
  cases stack with
  | nil => exact ⟨0, fun _ _ => rfl⟩
  | cons frame rest =>
    cases done with
    | some d => exact ⟨0, fun _ _ => rfl⟩
    | none =>
      cases frame with
      | program f =>
        cases hrest : f.rest with
        | nil => exact ⟨0, fun _ _ => by simp only [step, advance, advanceProgram, hrest]⟩
        | cons c r =>
          obtain ⟨least, same⟩ := begin_eq_limit b maxDepth
            ⟨mode, deepest, depth, path, problems, visited, .program f :: rest, none⟩ c f.data
          exact ⟨least, fun q hq => by
            simp only [step, advance, advanceProgram, hrest, same q hq]⟩
      | _ => exact ⟨0, fun _ _ => rfl⟩

/-- Finitely many steps ask finitely many names, so some patience answers them all. -/
theorem steps_eq_limit (b : Bindings) (maxDepth : Option Nat) (k : Nat) (t : Traversal) :
    ∃ least, ∀ q, least ≤ q →
      (step b (testKey b q maxDepth))^[k] t = (step b (limitTest b maxDepth))^[k] t := by
  induction k generalizing t with
  | zero => exact ⟨0, fun _ _ => rfl⟩
  | succ k ih =>
    obtain ⟨first, hfirst⟩ := step_eq_limit b maxDepth t
    obtain ⟨others, hothers⟩ := ih (step b (limitTest b maxDepth) t)
    refine ⟨max first others, fun q hq => ?_⟩
    obtain ⟨h, h'⟩ := Nat.max_le.mp hq
    rw [Function.iterate_succ_apply, Function.iterate_succ_apply, hfirst q h, hothers q h']

/-- A run ends where enough steps lead with all the answers there are. -/
theorem run_of_reaches {b : Bindings} {mode : Mode} {maxDepth : Option Nat} {program : Program}
    {d : Json} {u : Traversal} (hu : u.isFinished = true)
    (h : Reaches (step b (limitTest b maxDepth)) (start mode maxDepth program d) u) :
    ∃ least, ∀ q, least ≤ q → run b q mode maxDepth program d = some u := by
  obtain ⟨k, steps⟩ := h
  obtain ⟨least, same⟩ := steps_eq_limit b maxDepth k (start mode maxDepth program d)
  refine ⟨max least k, fun q hq => ?_⟩
  obtain ⟨patient, long⟩ := Nat.max_le.mp hq
  have enough : k ≤ 2 ^ q := Nat.le_trans long (Nat.le_of_lt Nat.lt_two_pow_self)
  rw [run, finished_eq_some]
  exact ⟨iterate_of_steps (fun _ => step_of_isFinished) ((same q patient).trans steps) hu enough,
    hu⟩

end SchemaAlgebra.Traversal

import SchemaAlgebra.Proofs.Agreement
import SchemaAlgebra.Standard

/-!
# Aliases within one another

A run counts the aliases that it is following, and a cap on them keeps it from following more.
The count is right between any two steps: it is the number of frames on the stack that wait for
the target of an alias. So no more of them than the cap are ever on the stack, and the count is
lowered only where it is not zero.
-/
namespace SchemaAlgebra

def Frame.isTarget : Frame → Bool
  | .target _ _ => true
  | _ => false

/-- The number of aliases that the frames follow. -/
def hops (stack : List Frame) : Nat := stack.countP Frame.isTarget

@[simp] theorem hops_nil : hops [] = 0 := rfl

theorem hops_cons (frame : Frame) (rest : List Frame) :
    hops (frame :: rest) = hops rest + if frame.isTarget then 1 else 0 :=
  List.countP_cons

theorem hops_cons_plain {frame : Frame} (plain : frame.isTarget = false) (rest : List Frame) :
    hops (frame :: rest) = hops rest := by
  simp [hops_cons, plain]

/-- The number of aliases that a check enters as it begins. -/
def Begin.hops : Begin → Nat
  | .descend child _ => SchemaAlgebra.hops [child]
  | _ => 0

namespace Traversal

/-- A run under a cap that counts so many aliases. -/
structure Counts (max k : Nat) (t : Traversal) : Prop where
  maxDepth : t.maxDepth = some max
  depth : t.depth = k
  within : k ≤ max

/-- The aliases counted are those on the stack. An alias whose target has been started is not on
top before there is a result to take in. -/
structure Counted (max : Nat) (t : Traversal) : Prop where
  counts : t.Counts max (hops t.stack)
  ready : ∀ d rest, t.stack = .target none d :: rest → t.done.isSome

section

variable {max k : Nat} {t u : Traversal} {rest : List Frame} {b : Bindings}
  {test : Program → String → Option KeyTest}

theorem Counts.of_site (h : t.Counts max k) (same : u.site = t.site) : u.Counts max k :=
  ⟨(congrArg Site.maxDepth same).trans h.maxDepth, (congrArg Site.depth same).trans h.depth,
    h.within⟩

theorem Counts.withPath (h : t.Counts max k) (path : List Segment) :
    { t with path := path }.Counts max k :=
  ⟨h.maxDepth, h.depth, h.within⟩

theorem Counts.withProblems (h : t.Counts max k) (problems : List Problem) :
    { t with problems := problems }.Counts max k :=
  ⟨h.maxDepth, h.depth, h.within⟩

theorem Counts.plain {frame : Frame} (h : t.Counts max (hops (frame :: rest)))
    (plain : frame.isTarget = false) : t.Counts max (hops rest) :=
  hops_cons_plain plain rest ▸ h

theorem Counts.finish (h : t.Counts max (hops rest)) (result : Done) :
    Counted max (t.finish rest result) :=
  ⟨⟨h.maxDepth, h.depth, h.within⟩, fun _ _ _ => rfl⟩

theorem Counts.resumeWith (h : t.Counts max (hops rest)) {frame : Frame}
    (plain : frame.isTarget = false) : Counted max (t.resumeWith frame rest) := by
  have stack : hops (frame :: rest) = hops rest := hops_cons_plain plain rest
  refine ⟨⟨h.maxDepth, h.depth.trans stack.symm, stack ▸ h.within⟩,
    fun d others same => ?_⟩
  cases same
  cases plain

/-- A frame that is pushed is counted, and the one below it stays counted. -/
theorem Counts.push {child below : Frame} (h : t.Counts max (hops (child :: below :: rest)))
    (ready : ∀ d, child ≠ .target none d) : Counted max (t.push child below rest) := by
  refine ⟨⟨h.maxDepth, h.depth, h.within⟩, fun d others same => ?_⟩
  cases same
  exact absurd rfl (ready d)

theorem begin_hops [Library] (b : Bindings) (test : Program → String → Option KeyTest)
    (t : Traversal) (c : Check) (d : Json) :
    (∃ name home, c = .deferred name home) ∨ (begin? b test t c d).2.hops = 0 := by
  have children (u : Traversal) (jobs : List Job) : (u.beginChildren jobs).2.hops = 0 := by
    rw [beginChildren]
    split <;> rfl
  cases c with
  | deferred name home => exact .inl ⟨name, home, rfl⟩
  | key name required program =>
    refine .inr ?_
    rw [begin?, beginKey]
    cases d.get? name <;> rfl
  | index key value named =>
    refine .inr ?_
    cases d with
    | object entries =>
      rw [begin?, beginIndex]
      cases indexJobs test key value named entries with
      | none => rfl
      | some jobs => exact children { t with visited := jobs.2 ++ t.visited } jobs.1
    | _ => rfl
  | elements programs others =>
    refine .inr ?_
    cases d with
    | array items =>
      rw [begin?, beginElements]
      obtain ⟨u, j⟩ := t.judgeLength programs.length others.isSome items
      cases j with
      | pass => exact children u _
      | _ => rfl
    | _ => rfl
  | union dispatch fallback expected =>
    refine .inr ?_
    rw [begin?, beginUnion]
    obtain ⟨u, _ | _ | ⟨p, _ | ⟨q, ps⟩⟩⟩ := t.route fallback d dispatch <;> rfl
  | _ => exact .inr rfl

/-- What a check begins: the alias it enters is counted, within the cap, and has a target. -/
structure BeginsCounted (max k : Nat) (begun : Traversal × Begin) : Prop where
  counts : begun.1.Counts max (k + begun.2.hops)
  ready : ∀ pending d, begun.2 ≠ .descend (.target none d) pending

theorem Counts.report (h : t.Counts max k) (code : Problem.Code) (message : String)
    (j : Judgement) : BeginsCounted max k (t.report code message, .settled j) :=
  ⟨h.of_site (reportAt_site t [] code message), nofun⟩

theorem Counts.follow (h : t.Counts max k) (below : k < max) (name : String) (home : Home)
    (d : Json) : BeginsCounted max k (follow b t name home d) := by
  rw [Traversal.follow]
  cases b.node? home name with
  | none => exact h.report _ _ .fail
  | some n => exact ⟨⟨h.maxDepth, congrArg (· + 1) h.depth, below⟩, by simp⟩

theorem exit_plain {child : Frame} (plain : child.isTarget = false) (s : Site) :
    (child.exit s).maxDepth = s.maxDepth ∧ (child.exit s).depth = s.depth := by
  cases child with
  | program f =>
    rw [Frame.exit]
    split <;> exact ⟨rfl, rfl⟩
  | target p d => cases plain
  | _ => exact ⟨rfl, rfl⟩

theorem Counts.begin? [Library] (h : t.Counts max k) (c : Check) (d : Json) :
    BeginsCounted max k (begin? b test t c d) := by
  rcases begin_hops b test t c d with ⟨name, home, rfl⟩ | none
  · rw [Traversal.begin?, beginDeferred]
    simp only [h.maxDepth, h.depth]
    split
    · exact h.report _ _ .fail
    · exact h.follow (by omega) name home d
  · have back := begin_exit b test t c d
    generalize Traversal.begin? b test t c d = begun at none back
    obtain ⟨u, settled | ⟨child, pending⟩ | waiting⟩ := begun
    · exact ⟨h.of_site back, by simp⟩
    · cases plain : child.isTarget with
      | true => simp [Begin.hops, hops_cons, plain] at none
      | false =>
        obtain ⟨maxDepth, depth⟩ := exit_plain plain u.site
        have counts : u.Counts max k :=
          ⟨(maxDepth.symm.trans (congrArg Site.maxDepth back)).trans h.maxDepth,
          (depth.symm.trans (congrArg Site.depth back)).trans h.depth, h.within⟩
        refine ⟨none ▸ counts, fun _ _ same => ?_⟩
        cases same
        cases plain
    · exact ⟨h.of_site back, by simp⟩

theorem Counts.foldJudgement (h : t.Counts max (hops rest)) (f : ProgramFrame) (j : Judgement) :
    Counted max (t.foldJudgement f rest j) := by
  unfold Traversal.foldJudgement
  split
  · exact h.resumeWith rfl
  · exact h.resumeWith rfl
  · exact (h.withPath _).finish _
  · exact (h.withPath _).finish _

theorem Counts.advanceProgram [Library] (h : t.Counts max (hops rest)) (f : ProgramFrame)
    (whole : Counted max t) : Counted max (advanceProgram b test t f rest) := by
  rw [Traversal.advanceProgram]
  cases f.rest with
  | nil => exact (h.withPath _).finish _
  | cons c checks =>
    dsimp only
    have begins : BeginsCounted max (hops rest) (Traversal.begin? b test t c f.data) :=
      h.begin? c f.data
    generalize Traversal.begin? b test t c f.data = begun at begins
    obtain ⟨counts, ready⟩ := begins
    obtain ⟨u, j | ⟨child, pending⟩ | waiting⟩ := begun
    · exact Counts.foldJudgement counts _ j
    · refine Counts.push ?_ fun d same => ready pending d (same ▸ rfl)
      rw [hops_cons, hops_cons_plain rfl]
      simpa [Begin.hops, hops_cons] using counts
    · exact whole

theorem Counts.advanceChildren (h : t.Counts max (hops rest)) (f : ChildrenFrame) :
    Counted max (t.advanceChildren f rest) := by
  rw [Traversal.advanceChildren]
  cases f.jobs with
  | nil => exact h.finish _
  | cons job jobs => exact (h.withPath _).push (by simp [Frame.start])

theorem Counts.advanceBranches (h : t.Counts max (hops rest)) (f : BranchesFrame) :
    Counted max (t.advanceBranches f rest) := by
  rw [Traversal.advanceBranches]
  cases f.programs with
  | nil => exact (h.of_site (reportAt_site t [] _ _)).finish _
  | cons p ps => exact (h.withProblems _).push (by simp [Frame.start])

/-- The frame that waits for the program of an alias or of a morph counts as before. -/
theorem Counts.advanceOnce {frame : Frame} (h : t.Counts max (hops (frame :: rest)))
    (waiting : Frame) (same : waiting.isTarget = frame.isTarget) (program : Program) (d : Json) :
    Counted max (t.advanceOnce (some program) d waiting rest) := by
  refine Counts.push ?_ nofun
  rwa [hops_cons_plain rfl, hops_cons, same, ← hops_cons]

theorem Counts.resumeChildren (h : t.Counts max (hops rest)) (f : ChildrenFrame) (v : Verdict) :
    Counted max (t.resumeChildren f rest v) := by
  unfold Traversal.resumeChildren
  split
  · exact h.resumeWith rfl
  · exact h.resumeWith rfl
  · exact h.finish _
  · exact h.resumeWith rfl

theorem Counts.resumeBranches (h : t.Counts max (hops rest)) (f : BranchesFrame) (v : Verdict) :
    Counted max (t.resumeBranches f rest v) := by
  cases v with
  | failed => exact (h.withProblems _).resumeWith rfl
  | _ => exact (h.withProblems _).finish _

variable [Library]

theorem Counts.resumeMorph (h : t.Counts max (hops rest)) (steps : List Step) (d : Json)
    (v : Verdict) : Counted max (resumeMorph b t steps d rest v) := by
  have added (w : Json) : (runSteps b t w steps).1.Counts max (hops rest) := by
    rw [runSteps_fresh]
    exact h.withProblems _
  unfold Traversal.resumeMorph
  split
  · exact (added _).finish _
  · exact (added _).finish _
  · exact h.finish _

/-- Taking in a result leaves the count right; the frame of an alias ends with it. -/
theorem Counts.resume {frame : Frame} (h : t.Counts max (hops (frame :: rest))) (result : Done) :
    Counted max (resume b t rest result frame) := by
  cases frame with
  | program f => exact (h.plain rfl).foldJudgement _ _
  | children f => exact (h.plain rfl).resumeChildren f _
  | branches f => exact (h.plain rfl).resumeBranches f _
  | morph input steps d => exact (h.plain rfl).resumeMorph steps d _
  | target p d =>
    obtain ⟨maxDepth, depth, within⟩ := h
    have one : hops (.target p d :: rest) = hops rest + 1 := hops_cons _ _
    rw [one] at depth within
    have left : { t with depth := t.depth - 1 }.Counts max (hops rest) :=
      ⟨maxDepth, congrArg (· - 1) depth, Nat.le_of_succ_le within⟩
    exact left.finish _

theorem Counts.advance {frame : Frame} (h : t.Counts max (hops (frame :: rest)))
    (whole : Counted max t) (ready : ∀ d, frame ≠ .target none d) :
    Counted max (advance b test t rest frame) := by
  cases frame with
  | program f => exact (h.plain rfl).advanceProgram f whole
  | children f => exact (h.plain rfl).advanceChildren f
  | branches f => exact (h.plain rfl).advanceBranches f
  | target p d =>
    cases p with
    | some p => exact h.advanceOnce (.target none d) rfl p d
    | none => exact absurd rfl (ready d)
  | morph input steps d =>
    cases input with
    | some p => exact h.advanceOnce (.morph none steps d) rfl p d
    | none => exact (h.plain rfl).finish _

theorem step_counted (h : Counted max t) : Counted max (step b test t) := by
  obtain ⟨counts, ready⟩ := h
  rw [step]
  cases stack : t.stack with
  | nil => exact ⟨counts, ready⟩
  | cons frame rest =>
    rw [stack] at counts
    cases done : t.done with
    | some result =>
      have taken : { t with stack := frame :: rest, done := none }.Counts max
          (hops (frame :: rest)) :=
        ⟨counts.maxDepth, counts.depth, counts.within⟩
      exact taken.resume result
    | none =>
      refine counts.advance ⟨stack ▸ counts, ready⟩ fun d same => ?_
      have late := ready d rest (same ▸ stack)
      rw [done] at late
      cases late

theorem runText_of_evaluate {maxDepth : Option Nat} {p : Program} {n : Nat} {name : String}
    {r : Report Verdict}
    (h : evaluate b (fun _ _ => none) n (.root .allow maxDepth)
      (frameOf p (.string name) false) = some r) : ∃ least, ∀ patience, least ≤ patience →
      runText b patience maxDepth p name = some (concluded (.root .allow maxDepth) r) := by
  have follows := follows_run b (fun _ _ => none) n .allow maxDepth p (.string name)
  rw [h] at follows
  obtain ⟨k, steps⟩ := follows
  refine ⟨k, fun patience long => ?_⟩
  rw [runText, finished_eq_some]
  have enough : k ≤ 2 ^ patience := long.trans (Nat.le_of_lt Nat.lt_two_pow_self)
  exact ⟨iterate_of_steps (fun _ => step_of_isFinished) steps rfl enough, rfl⟩

omit [Library] in
theorem start_counted (mode : Mode) (max : Nat) (p : Program) (d : Json) :
    Counted max (start mode (some max) p d) :=
  ⟨⟨rfl, rfl, Nat.zero_le max⟩, nofun⟩

theorem steps_counted (h : Counted max t) (k : Nat) : Counted max ((step b test)^[k] t) := by
  induction k with
  | zero => exact h
  | succ k ih =>
    rw [Function.iterate_succ_apply']
    exact step_counted ih

end

end Traversal

namespace Node

open Traversal

/-- Under a cap a run ends, in both modes and on every value, whatever the aliases refer to. After
any number of steps it counts the aliases on its stack, which are not more than the cap, so the
count is not zero where it is lowered. All this is so for the runs that test names as well, which
start from zero. -/
theorem compile_capped [Library] (n : Node) (b : Bindings) (max : Nat) :
    (∀ mode d, ∃ t least, ∀ patience, least ≤ patience →
      run b patience mode (some max) n.compile d = some t) ∧
    (∀ name, ∃ t least, ∀ patience, least ≤ patience →
      runText b patience (some max) n.compile name = some t) ∧
    ∀ test mode d k t, (step b test)^[k] (start mode (some max) n.compile d) = t →
      t.depth = hops t.stack ∧ hops t.stack ≤ max ∧
      ∀ p x rest, t.stack = .target p x :: rest → 0 < t.depth := by
  refine ⟨fun mode d => ?_, fun name => ?_, fun test mode d k t reached => ?_⟩
  · obtain ⟨fuel, r, evaluated⟩ := evaluate_ends_of_cap b mode max n.compile d
    exact ⟨_, run_of_evaluate evaluated⟩
  · obtain ⟨fuel, ends⟩ :=
      terminates_of_cap b (fun _ _ => none) .allow max 0 n.compile [] (.string name)
      (Or.inr ⟨name, rfl⟩)
    obtain ⟨r, evaluated⟩ := Option.isSome_iff_exists.mp (ends false)
    exact ⟨_, runText_of_evaluate evaluated⟩
  · have counted : Counted max ((step b test)^[k] _) :=
      steps_counted (start_counted mode max n.compile d) k
    rw [reached] at counted
    refine ⟨counted.counts.depth, counted.counts.within, fun p x rest stack => ?_⟩
    rw [counted.counts.depth, stack, hops_cons]
    exact Nat.succ_pos _

end Node

namespace Node

attribute [local instance] Library.standard

/-- An alias of itself is followed up to the cap and then refused. -/
example : ((of (.deferred "a" none)).compile.apply
      ⟨fun _ name => some (of (.deferred name none)), fun _ _ => .ok⟩ 5 (some 2) .null).map
        (·.outcome) =
    some (.error [⟨[], .depth, "exceeded the maximum validation depth of 2 at a"⟩]) := rfl

end Node

end SchemaAlgebra

import SchemaAlgebra.Proofs.Evaluation

/-!
# Evaluations further down

Nothing that a program does depends on the path to the value it runs on. Further down it comes
to the same, with problems whose paths start with the way down.
-/
namespace SchemaAlgebra

/-- The problem of a value that is reached by the segments. -/
def Problem.beneath (base : List Segment) (p : Problem) : Problem :=
  { p with path := base ++ p.path }

namespace Site

/-- The place further down, reached by the segments first. -/
def beneath (base : List Segment) (s : Site) : Site := { s with path := s.path ++ base.reverse }

theorem inside_beneath (base : List Segment) (s : Site) (segment : Segment) :
    (s.beneath base).inside segment = (s.inside segment).beneath base := rfl

theorem inside_root (mode : Mode) (maxDepth : Option Nat) (segment : Segment) :
    (root mode maxDepth).inside segment = (root mode maxDepth).beneath [segment] := rfl

end Site

namespace Report

variable {α β : Type} (base : List Segment)

def beneath (r : Report α) : Report α :=
  { r with problems := r.problems.map (Problem.beneath base) }

theorem after_beneath (first : Report α) (r : Report β) :
    (first.beneath base).after (r.beneath base) = (first.after r).beneath base := by
  rw [after, after, beneath, beneath, beneath, List.map_append]

theorem bind_beneath (x : Option (Report α)) (next : α → Option (Report β)) :
    bind (x.map (beneath base)) (fun a => (next a).map (beneath base)) = (bind x next).map
      (beneath base) := by
  cases x with
  | none => rfl
  | some first =>
    simp only [bind, Option.map_some, Option.bind_some, Option.map_map]
    congr 1
    funext r
    exact after_beneath base first r

end Report

namespace Traversal

/-- The traversal of a value that is reached by the segments. -/
def beneath (base : List Segment) (t : Traversal) : Traversal :=
  { t with path := t.path ++ base.reverse, problems := t.problems.map (Problem.beneath base) }

section

variable (base : List Segment)

theorem beneath_site (t : Traversal) : (t.beneath base).site = t.site.beneath base := rfl

theorem fresh_beneath (s : Site) : (s.beneath base).fresh = s.fresh.beneath base := rfl

theorem reportAt_beneath (t : Traversal) (keys : List String) (code : Problem.Code)
    (message : String) :
    (t.beneath base).reportAt keys code message = (t.reportAt keys code message).beneath base := by
  obtain ⟨mode, maxDepth, depth, path, problems, visited, stack, done⟩ := t
  cases mode with
  | allow => rfl
  | apply =>
    have path : (path ++ base.reverse).reverse ++ keys.map Segment.key =
        base ++ (path.reverse ++ keys.map Segment.key) := by
      rw [List.reverse_append, List.reverse_reverse, List.append_assoc]
    simp only [beneath, reportAt, List.map_cons, Problem.beneath, path]

theorem judge_beneath (t : Traversal) (passes : Bool) (otherwise : Judgement) (code : Problem.Code)
    (message : String) : (t.beneath base).judge passes otherwise code message =
      ((t.judge passes otherwise code message).1.beneath base,
        (t.judge passes otherwise code message).2) := by
  cases passes with
  | true => rfl
  | false => exact congrArg (·, otherwise) (reportAt_beneath base t [] code message)

theorem route_beneath (t : Traversal) (fallback : List Program) (data : Json)
    (dispatch : Dispatch) : (t.beneath base).route fallback data dispatch =
      ((t.route fallback data dispatch).1.beneath base, (t.route fallback data dispatch).2) := by
  obtain ⟨dest, -, routed⟩ := dispatch.exists_reached data
  rw [routed, routed]
  cases dest with
  | branches programs => rfl
  | fallback => rfl
  | refusal probe expected => exact congrArg (·, none) (reportAt_beneath base t _ _ _)

theorem beginChildren_beneath (t : Traversal) (jobs : List Job) :
    (t.beneath base).beginChildren jobs =
      ((t.beginChildren jobs).1.beneath base, (t.beginChildren jobs).2) := by
  simp only [beginChildren]
  split <;> rfl

variable (b : Bindings) (test : Program → String → Option KeyTest)

theorem follow_beneath (t : Traversal) (name : String) (home : Home) (d : Json) :
    follow b (t.beneath base) name home d =
      ((follow b t name home d).1.beneath base, (follow b t name home d).2) := by
  simp only [follow]
  cases b.node? home name with
  | none => exact congrArg (·, Begin.settled .fail) (reportAt_beneath base t [] _ _)
  | some n => rfl

variable [Library]

theorem begin_beneath (t : Traversal) (c : Check) (d : Json) :
    begin? b test (t.beneath base) c d =
      ((begin? b test t c d).1.beneath base, (begin? b test t c d).2) := by
  have judged (passes : Bool) (otherwise : Judgement) (code : Problem.Code) (message : String) :
      settle ((t.beneath base).judge passes otherwise code message) =
        ((settle (t.judge passes otherwise code message)).1.beneath base,
          (settle (t.judge passes otherwise code message)).2) := by
    rw [judge_beneath]
    rfl
  cases c with
  | key name required program =>
    simp only [begin?, beginKey]
    cases d.get? name with
    | some child => rfl
    | none =>
      cases required with
      | true => exact congrArg (·, Begin.settled .fail) (reportAt_beneath base t [name] _ _)
      | false => rfl
  | index key value named =>
    cases d with
    | object entries =>
      simp only [begin?, beginIndex]
      cases indexJobs test key value named entries with
      | none => rfl
      | some found =>
        exact beginChildren_beneath base { t with visited := found.2 ++ t.visited } found.1
    | _ => rfl
  | elements programs rest =>
    cases d with
    | array items =>
      simp only [begin?, beginElements, judgeLength, judge_beneath]
      cases t.judge (if rest.isSome then decide (programs.length ≤ items.length)
        else items.length == programs.length) .abort .range
          (Problem.must ("have length " ++ (if rest.isSome then "at least " else "exactly ") ++
            toString programs.length) (toString items.length)) with
      | mk u j =>
        cases j with
        | pass => exact beginChildren_beneath base u _
        | _ => rfl
    | _ => rfl
  | union dispatch fallback expected =>
    simp only [begin?, beginUnion, route_beneath]
    cases t.route fallback d dispatch with
    | mk u o => rcases o with _ | _ | ⟨p, _ | ⟨q, ps⟩⟩ <;> rfl
  | deferred name home =>
    have limit : (t.beneath base).maxDepth = t.maxDepth := rfl
    have depth : (t.beneath base).depth = t.depth := rfl
    simp only [begin?, beginDeferred, limit, depth]
    cases t.maxDepth with
    | none => exact follow_beneath base b t name home d
    | some max =>
      dsimp only
      split
      · exact congrArg (·, Begin.settled .fail) (reportAt_beneath base t [] _ _)
      · exact follow_beneath base b t name home d
  | morph input steps => rfl
  | never => exact judged false .abort .union _
  | _ => exact judged _ _ _ _

theorem runSteps_beneath (t : Traversal) (v : Json) (steps : List Step) :
    runSteps b (t.beneath base) v steps =
      ((runSteps b t v steps).1.beneath base, (runSteps b t v steps).2) := by
  induction steps generalizing v with
  | nil => rfl
  | cons s steps ih =>
    simp only [runSteps]
    split
    · exact ih _
    · exact congrArg (·, Verdict.failed) (reportAt_beneath base t [] _ _)

/-- What runs frames or programs comes to the same further down. -/
def Relocates {α β : Type} (run : Site → α → Option (Report β)) : Prop :=
  ∀ s a, run (s.beneath base) a = (run s a).map (Report.beneath base)

variable {base} {frame : Site → Frame → Option (Report Done)}
  {program : Site → ProgramFrame → Option (Report Verdict)}

theorem evalCheck_beneath (frames : Relocates base frame) (s : Site) (c : Check)
    (f : ProgramFrame) :
    evalCheck b test frame (s.beneath base) c f = (evalCheck b test frame s c f).map
      (Report.beneath base) := by
  unfold evalCheck
  rw [fresh_beneath, begin_beneath]
  generalize begin? b test s.fresh c f.data = begun
  obtain ⟨t, o⟩ := begun
  cases o with
  | settled j => rfl
  | descend child pending =>
    dsimp only
    rw [beneath_site, frames t.site child, Option.map_map, Option.map_map]
    congr 1
    funext r
    simp only [Function.comp, Report.beneath, beneath, List.map_append]
  | waiting => rfl

theorem evalChecks_beneath (frames : Relocates base frame) (s : Site) (p : Program)
    (f : ProgramFrame) :
    evalChecks b test frame (s.beneath base) p f = (evalChecks b test frame s p f).map
      (Report.beneath base) := by
  induction p generalizing f with
  | nil => rfl
  | cons c p ih =>
    rw [evalChecks, evalChecks, evalCheck_beneath b test frames, ← Report.bind_beneath]
    congr 1
    funext ⟨g, j⟩
    have mode : (s.beneath base).mode = s.mode := rfl
    simp only [mode]
    cases goOn s.mode g j with
    | some g => exact ih g
    | none => rfl

omit [Library] in
theorem evalJobs_beneath (programs : Relocates base program) (s : Site) (jobs : List Job)
    (j : Judgement) (patches : List (Segment × Json)) :
    evalJobs program (s.beneath base) jobs j patches =
      (evalJobs program s jobs j patches).map (Report.beneath base) := by
  induction jobs generalizing j patches with
  | nil => rfl
  | cons job jobs ih =>
    rw [evalJobs, evalJobs, Site.inside_beneath, programs, ← Report.bind_beneath]
    congr 1
    funext v
    have mode : (s.beneath base).mode = s.mode := rfl
    rw [mode]
    cases v with
    | failed =>
      cases s.mode with
      | allow => rfl
      | apply => exact ih _ _
    | unchanged => exact ih _ _
    | changed v => exact ih _ _

omit [Library] in
theorem evalBranches_beneath (programs : Relocates base program) (s : Site) (data : Json)
    (expected : String) (ps : List Program) :
    evalBranches program (s.beneath base) data expected ps =
      (evalBranches program s data expected ps).map (Report.beneath base) := by
  induction ps with
  | nil =>
    simp only [evalBranches, fresh_beneath, report, reportAt_beneath]
    rfl
  | cons p ps ih =>
    have forgets : ((program s (frameOf p data false)).map (Report.beneath base)).map
        (fun r => { r with problems := [] }) =
          ((program s (frameOf p data false)).map fun r => { r with problems := [] }).map
            (Report.beneath base) := by
      rw [Option.map_map, Option.map_map]
      rfl
    rw [evalBranches, evalBranches, programs, forgets, ← Report.bind_beneath]
    congr 1
    funext v
    cases v with
    | failed => exact ih
    | _ => rfl

theorem evalSteps_beneath (base : List Segment) (s : Site) (steps : List Step) (data : Json)
    (v : Verdict) :
    evalSteps b (s.beneath base) steps data v = (evalSteps b s steps data v).beneath base := by
  have mode : (s.beneath base).mode = s.mode := rfl
  simp only [evalSteps, mode, fresh_beneath, runSteps_beneath]
  cases s.mode <;> cases v <;> rfl

theorem evalFrame_beneath (programs : Relocates base program) :
    Relocates base (evalFrame b program) := by
  intro s child
  have concludes (p : Program) (data : Json) :
      ((program s (frameOf p data false)).map (Report.beneath base)).map (Report.map Done.value) =
        ((program s (frameOf p data false)).map (Report.map Done.value)).map
          (Report.beneath base) := by
    rw [Option.map_map, Option.map_map]
    rfl
  match child with
  | .program f =>
    rw [evalFrame, evalFrame, programs, Option.map_map, Option.map_map]
    rfl
  | .children f => exact evalJobs_beneath programs s f.jobs f.judgement f.patches
  | .branches f => exact evalBranches_beneath programs s f.data f.expected f.programs
  | .target (some p) data =>
    rw [evalFrame, evalFrame, programs]
    exact concludes p data
  | .target none data => rfl
  | .morph (some p) steps data =>
    rw [evalFrame, evalFrame, programs, ← Report.bind_beneath]
    congr 1
    funext v
    exact congrArg some (evalSteps_beneath b base s steps data v)
  | .morph none steps data => rfl

end

/-- Further down, a program comes to the same, with problems further down. -/
theorem evaluate_beneath [Library] (base : List Segment) (b : Bindings)
    (test : Program → String → Option KeyTest) (n : Nat) :
    Relocates base (evaluate b test n) := by
  induction n with
  | zero => exact fun _ _ => rfl
  | succ n ih =>
    intro s f
    rw [evaluate, evaluate, evalChecks_beneath b test (evalFrame_beneath b ih), Option.map_map,
      Option.map_map]
    rfl

/-- The frame with another note on whether the path is longer inside. -/
def nest (x : Bool) (f : ProgramFrame) : ProgramFrame := { f with nested := x }

section

variable (b : Bindings) (test : Program → String → Option KeyTest)
  (frame : Site → Frame → Option (Report Done)) (s : Site) (x : Bool)

theorem patchAll_nest (patches : List (Segment × Json)) (f : ProgramFrame) :
    patches.foldr (fun e f => ProgramFrame.patch f e.1 e.2) (nest x f) =
      nest x (patches.foldr (fun e f => ProgramFrame.patch f e.1 e.2) f) := by
  induction patches with
  | nil => rfl
  | cons e patches ih =>
    rw [List.foldr_cons, ih]
    rfl

theorem absorb_nest (f : ProgramFrame) (pending : Pending) (result : Done) :
    absorb (nest x f) pending result =
      (nest x (absorb f pending result).1, (absorb f pending result).2) := by
  cases result with
  | value v => cases pending <;> cases v <;> rfl
  | children j patches =>
    cases pending with
    | children => exact congrArg (·, j) (patchAll_nest x patches f)
    | _ => rfl

theorem evalCheck_nest [Library] (c : Check) (f : ProgramFrame) :
    evalCheck b test frame s c (nest x f) =
      (evalCheck b test frame s c f).map (Report.map fun r => (nest x r.1, r.2)) := by
  have data : (nest x f).data = f.data := rfl
  unfold evalCheck
  rw [data]
  generalize begin? b test s.fresh c f.data = begun
  obtain ⟨t, o⟩ := begun
  cases o with
  | settled j => rfl
  | descend child pending =>
    dsimp only
    rw [Option.map_map]
    congr 1
    funext r
    simp only [Function.comp, Report.map, absorb_nest]
  | waiting => rfl

theorem goOn_nest (f : ProgramFrame) (j : Judgement) :
    goOn s.mode (nest x f) j = (goOn s.mode f j).map (nest x) := by
  cases j with
  | pass => rfl
  | fail =>
    simp only [goOn]
    split <;> rfl
  | abort => rfl

theorem evalChecks_nest [Library] (p : Program) (f : ProgramFrame) :
    evalChecks b test frame s p (nest x f) =
      (evalChecks b test frame s p f).map (Report.map (Option.map (nest x))) := by
  induction p generalizing f with
  | nil => rfl
  | cons c p ih =>
    rw [evalChecks, evalChecks, evalCheck_nest]
    cases evalCheck b test frame s c f with
    | none => rfl
    | some first =>
      simp only [Report.bind, Option.map_some, Option.bind_some, Report.map, goOn_nest]
      cases goOn s.mode first.value.1 first.value.2 with
      | none => rfl
      | some g =>
        simp only [Option.map_some, ih, Option.map_map]
        rfl

end

variable [Library]

/-- A program comes to the same whether the path is longer inside or not. -/
theorem evaluate_nest (b : Bindings) (test : Program → String → Option KeyTest) (n : Nat)
    (s : Site) (x : Bool) (f : ProgramFrame) :
    evaluate b test n s (nest x f) = evaluate b test n s f := by
  cases n with
  | zero => rfl
  | succ n =>
    have rest : (nest x f).rest = f.rest := rfl
    have concludes : (conclude ∘ Option.map (nest x)) = conclude := by
      funext o
      cases o <;> rfl
    rw [evaluate, evaluate, rest, evalChecks_nest, Option.map_map]
    congr 1
    funext r
    exact congrArg (fun v => (⟨v, r.problems, r.visited⟩ : Report Verdict))
      (congrFun concludes r.value)

/-- A child is evaluated as a value by itself, with problems below its segment. -/
theorem evaluate_inside (b : Bindings) (test : Program → String → Option KeyTest) (n : Nat)
    (mode : Mode) (maxDepth : Option Nat) (segment : Segment) (p : Program) (d : Json) :
    evaluate b test n ((Site.root mode maxDepth).inside segment) (frameOf p d true) =
      (evaluate b test n (.root mode maxDepth) (frameOf p d false)).map
        (Report.beneath [segment]) := by
  rw [Site.inside_root, evaluate_beneath]
  exact congrArg (Option.map _) (evaluate_nest b test n _ true (frameOf p d false))

end Traversal

end SchemaAlgebra

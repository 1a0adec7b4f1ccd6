import SchemaAlgebra.Proofs.Destinations
import SchemaAlgebra.Proofs.Runs

/-!
# Evaluating programs

A program can be evaluated by recursion instead of on a stack: every frame that a check
descends into has a result of its own, together with the problems and the aliases that it
adds. Nothing bounds how deep aliases lead, so the recursion is counted, and it comes to an
end exactly where the run on the stack does.
-/
namespace SchemaAlgebra

/-- Where a frame runs. -/
structure Site where
  mode : Mode
  maxDepth : Option Nat
  depth : Nat
  path : List Segment

namespace Site

def root (mode : Mode) (maxDepth : Option Nat) : Site := ⟨mode, maxDepth, 0, []⟩

def inside (s : Site) (segment : Segment) : Site := { s with path := segment :: s.path }

/-- A traversal at the place that has not found anything. -/
def fresh (s : Site) : Traversal := ⟨s.mode, s.maxDepth, s.depth, s.path, [], [], [], none⟩

end Site

/-- What an evaluation comes to, with the problems and the aliases added, the latest first. -/
structure Report (α : Type) where
  value : α
  problems : List Problem
  visited : List (Home × String)

namespace Report

variable {α β : Type}

def silent (a : α) : Report α := ⟨a, [], []⟩

def map (f : α → β) (r : Report α) : Report β := ⟨f r.value, r.problems, r.visited⟩

/-- The report of what comes after another one. -/
def after (first : Report α) (r : Report β) : Report β :=
  ⟨r.value, r.problems ++ first.problems, r.visited ++ first.visited⟩

/-- One evaluation after another, if both end. -/
def bind (x : Option (Report α)) (next : α → Option (Report β)) : Option (Report β) :=
  x.bind fun first => (next first.value).map first.after

theorem bind_eq_some {x : Option (Report α)} {next : α → Option (Report β)} {r : Report β} :
    bind x next = some r ↔ ∃ a u, x = some a ∧ next a.value = some u ∧ a.after u = r := by
  simp only [bind, Option.bind_eq_some_iff, Option.map_eq_some_iff]
  exact ⟨fun ⟨a, ha, u, hu, h⟩ => ⟨a, u, ha, hu, h⟩,
    fun ⟨a, u, ha, hu, h⟩ => ⟨a, ha, u, hu, h⟩⟩

theorem after_silent (first : Report α) (b : β) :
    first.after (silent b) = ⟨b, first.problems, first.visited⟩ := rfl

/-- There are problems exactly if the first or what comes after it found some. -/
theorem after_told (first : Report α) (r : Report β) :
    (first.after r).problems ≠ [] ↔ first.problems ≠ [] ∨ r.problems ≠ [] := by
  rw [after, ne_eq, List.append_eq_nil_iff, not_and_or, or_comm]

theorem bind_silent (a : α) (next : α → Option (Report β)) :
    bind (some (silent a)) next = next a := by
  have same : (silent a : Report α).after = (id : Report β → Report β) := by
    funext r
    simp [after, silent]
  simp only [bind, Option.bind_some, same, Option.map_id]
  rfl

theorem bind_assoc {γ : Type} (x : Option (Report α)) (next : α → Option (Report β))
    (last : β → Option (Report γ)) :
    bind (bind x next) last = bind x fun a => bind (next a) last := by
  cases x with
  | none => rfl
  | some first =>
    simp only [bind, Option.bind_some]
    cases next first.value with
    | none => rfl
    | some second =>
      simp only [Option.map_some, Option.bind_some, Option.map_map]
      congr 1
      funext r
      simp [after]

end Report

def Frame.exit : Frame → Site → Site
  | .program f, s => if f.nested then { s with path := s.path.tail } else s
  | .target (some _) _, s => { s with depth := s.depth - 1 }
  | _, s => s

/-- The place after a check has begun and what it descended into has ended. -/
def Begin.exit : Begin → Site → Site
  | .descend child _, s => child.exit s
  | _, s => s

namespace Traversal

def site (t : Traversal) : Site := ⟨t.mode, t.maxDepth, t.depth, t.path⟩

/-- The program after a check; none if the check ends it. -/
def goOn (mode : Mode) (f : ProgramFrame) : Judgement → Option ProgramFrame
  | .pass => some f
  | .fail => if mode = .apply then some { f with failed := true } else none
  | .abort => none

/-- The result of a program whose checks are done, or that was ended by one. -/
def conclude : Option ProgramFrame → Verdict
  | some f => if f.failed then .failed else f.output
  | none => .failed

section

variable (b : Bindings) (test : Program → String → Option KeyTest)
  (frame : Site → Frame → Option (Report Done))

variable [Library]

def evalCheck (s : Site) (c : Check) (f : ProgramFrame) :
    Option (Report (ProgramFrame × Judgement)) :=
  match begin? b test s.fresh c f.data with
  | (t, .settled j) => some ⟨(f, j), t.problems, t.visited⟩
  | (t, .descend child pending) =>
    (frame t.site child).map fun r =>
      ⟨absorb f pending r.value, r.problems ++ t.problems, r.visited ++ t.visited⟩
  | (_, .waiting) => none

/-- Checks in order, up to one that ends the program. -/
def evalChecks (s : Site) : Program → ProgramFrame → Option (Report (Option ProgramFrame))
  | [], f => some (.silent (some f))
  | c :: p, f => Report.bind (evalCheck b test frame s c f) fun (g, j) =>
    match goOn s.mode g j with
    | some g => evalChecks s p g
    | none => some (.silent none)

end

section

variable (b : Bindings) (program : Site → ProgramFrame → Option (Report Verdict))

def evalJobs (s : Site) : List Job → Judgement → List (Segment × Json) → Option (Report Done)
  | [], j, patches => some (.silent (.children j patches))
  | job :: jobs, j, patches =>
    Report.bind (program (s.inside job.segment) (frameOf job.program job.data true)) fun v =>
      match v, s.mode with
      | .changed v, _ => evalJobs s jobs j ((job.segment, v) :: patches)
      | .unchanged, _ => evalJobs s jobs j patches
      | .failed, .allow => some (.silent (.children .fail []))
      | .failed, .apply => evalJobs s jobs .fail patches

def evalBranches (s : Site) (data : Json) (expected : String) :
    List Program → Option (Report Done)
  | [] =>
    let t := s.fresh.report .union (Problem.mustBe expected (Problem.describeData data))
    some ⟨.value .failed, t.problems, []⟩
  | p :: ps =>
    Report.bind ((program s (frameOf p data false)).map fun r => { r with problems := [] })
      fun v =>
        match v with
        | .failed => evalBranches s data expected ps
        | v => some (.silent (.value v))

variable [Library]

def evalSteps (s : Site) (steps : List Step) (data : Json) (v : Verdict) : Report Done :=
  match s.mode, v with
  | .apply, .unchanged =>
    let (t, v) := runSteps b s.fresh data steps
    ⟨.value v, t.problems, []⟩
  | .apply, .changed w =>
    let (t, v) := runSteps b s.fresh w steps
    ⟨.value v, t.problems, []⟩
  | _, v => .silent (.value v)

def evalFrame (s : Site) : Frame → Option (Report Done)
  | .program f => (program s f).map (·.map .value)
  | .children f => evalJobs program s f.jobs f.judgement f.patches
  | .branches f => evalBranches program s f.data f.expected f.programs
  | .target (some p) data => (program s (frameOf p data false)).map (·.map .value)
  | .target none _ => some (.silent (.value .failed))
  | .morph (some p) steps data =>
    Report.bind (program s (frameOf p data false)) fun v => some (evalSteps b s steps data v)
  | .morph none _ _ => some (.silent (.value .failed))

end

/-- The result of a program, if at most the given number of programs are within one another. -/
def evaluate [Library] (b : Bindings) (test : Program → String → Option KeyTest) :
    Nat → Site → ProgramFrame → Option (Report Verdict)
  | 0, _, _ => none
  | n + 1, s, f =>
    (evalChecks b test (evalFrame b (evaluate b test n)) s f.rest f).map (·.map conclude)

/-- The traversal after what a fresh one at the same place has come to. -/
def carry (t u : Traversal) : Traversal :=
  { t with path := u.path, depth := u.depth, problems := u.problems ++ t.problems,
           visited := u.visited ++ t.visited }

theorem reportAt_fresh (t : Traversal) (keys : List String) (code : Problem.Code)
    (message : String) :
    t.reportAt keys code message = t.carry (t.site.fresh.reportAt keys code message) := by
  obtain ⟨mode, maxDepth, depth, path, problems, visited, stack, done⟩ := t
  cases mode <;> rfl

theorem judge_fresh (t : Traversal) (passes : Bool) (otherwise : Judgement) (code : Problem.Code)
    (message : String) : t.judge passes otherwise code message =
      (t.carry (t.site.fresh.judge passes otherwise code message).1,
        (t.site.fresh.judge passes otherwise code message).2) := by
  cases passes with
  | true => rfl
  | false => exact congrArg (·, otherwise) (reportAt_fresh t [] code message)

theorem route_fresh (t : Traversal) (fallback : List Program) (data : Json) (dispatch : Dispatch) :
    t.route fallback data dispatch =
      (t.carry (t.site.fresh.route fallback data dispatch).1,
        (t.site.fresh.route fallback data dispatch).2) := by
  obtain ⟨dest, -, routed⟩ := dispatch.exists_reached data
  rw [routed, routed]
  cases dest with
  | branches programs => rfl
  | fallback => rfl
  | refusal probe expected => exact congrArg (·, none) (reportAt_fresh t _ _ _)

theorem beginChildren_fresh (t u : Traversal) (jobs : List Job) :
    (t.carry u).beginChildren jobs =
      (t.carry (u.beginChildren jobs).1, (u.beginChildren jobs).2) := by
  simp only [beginChildren]
  split <;> rfl

theorem follow_fresh (b : Bindings) (t : Traversal) (name : String) (home : Home) (d : Json) :
    follow b t name home d =
      (t.carry (follow b t.site.fresh name home d).1, (follow b t.site.fresh name home d).2) := by
  simp only [follow]
  cases b.node? home name with
  | none => exact congrArg (·, Begin.settled .fail) (reportAt_fresh t [] _ _)
  | some n => rfl

/-- A check begins at a place in the same way, whatever was found before. -/
theorem begin_fresh [Library] (b : Bindings) (test : Program → String → Option KeyTest)
    (t : Traversal) (c : Check) (d : Json) : begin? b test t c d =
      (t.carry (begin? b test t.site.fresh c d).1, (begin? b test t.site.fresh c d).2) := by
  have judged (passes : Bool) (otherwise : Judgement) (code : Problem.Code) (message : String) :
      settle (t.judge passes otherwise code message) =
        (t.carry (settle (t.site.fresh.judge passes otherwise code message)).1,
          (settle (t.site.fresh.judge passes otherwise code message)).2) := by
    rw [judge_fresh]
    rfl
  cases c with
  | key name required program =>
    simp only [begin?, beginKey]
    cases d.get? name with
    | some child => rfl
    | none =>
      cases required with
      | true => exact congrArg (·, Begin.settled .fail) (reportAt_fresh t [name] _ _)
      | false => rfl
  | index key value named =>
    cases d with
    | object entries =>
      simp only [begin?, beginIndex]
      cases indexJobs test key value named entries with
      | none => rfl
      | some found =>
        obtain ⟨jobs, visited⟩ := found
        have both : ({ t with visited := visited ++ t.visited } : Traversal) =
            t.carry { t.site.fresh with visited := visited ++ t.site.fresh.visited } := by
          simp [carry, site, Site.fresh]
        simp only [both]
        exact beginChildren_fresh t _ jobs
    | _ => rfl
  | elements programs rest =>
    cases d with
    | array items =>
      simp only [begin?, beginElements, judgeLength, judge_fresh t]
      cases h : t.site.fresh.judge (if rest.isSome then decide (programs.length ≤ items.length)
        else items.length == programs.length) .abort .range
          (Problem.must ("have length " ++ (if rest.isSome then "at least " else "exactly ") ++
            toString programs.length) (toString items.length)) with
      | mk u j =>
        cases j with
        | pass => exact beginChildren_fresh t u _
        | _ => rfl
    | _ => rfl
  | union dispatch fallback expected =>
    simp only [begin?, beginUnion, route_fresh t]
    cases t.site.fresh.route fallback d dispatch with
    | mk u o => rcases o with _ | _ | ⟨p, _ | ⟨q, ps⟩⟩ <;> rfl
  | deferred name home =>
    have limit : t.site.fresh.maxDepth = t.maxDepth := rfl
    simp only [begin?, beginDeferred, limit]
    cases t.maxDepth with
    | none => exact follow_fresh b t name home d
    | some max =>
      by_cases deep : max ≤ t.depth
      · simp only [if_pos (show max ≤ t.site.fresh.depth from deep), if_pos deep]
        exact congrArg (·, Begin.settled .fail) (reportAt_fresh t [] _ _)
      · simp only [if_neg (show ¬ max ≤ t.site.fresh.depth from deep), if_neg deep]
        exact follow_fresh b t name home d
  | morph input steps => rfl
  | never => exact judged false .abort .union _
  | _ => exact judged _ _ _ _

theorem reportAt_site (t : Traversal) (keys : List String) (code : Problem.Code)
    (message : String) : (t.reportAt keys code message).site = t.site := by
  obtain ⟨mode, maxDepth, depth, path, problems, visited, stack, done⟩ := t
  cases mode <;> rfl

theorem judge_site (t : Traversal) (passes : Bool) (otherwise : Judgement) (code : Problem.Code)
    (message : String) : (t.judge passes otherwise code message).1.site = t.site := by
  cases passes with
  | true => rfl
  | false => exact reportAt_site t [] code message

theorem route_site (t : Traversal) (fallback : List Program) (data : Json) (dispatch : Dispatch) :
    (t.route fallback data dispatch).1.site = t.site := by
  obtain ⟨dest, -, routed⟩ := dispatch.exists_reached data
  rw [routed]
  cases dest with
  | branches programs => rfl
  | fallback => rfl
  | refusal probe expected => exact reportAt_site t _ _ _

theorem beginChildren_exit (t : Traversal) (jobs : List Job) :
    (t.beginChildren jobs).2.exit (t.beginChildren jobs).1.site = t.site := by
  simp only [beginChildren]
  split <;> rfl

theorem follow_exit (b : Bindings) (t : Traversal) (name : String) (home : Home) (d : Json) :
    (follow b t name home d).2.exit (follow b t name home d).1.site = t.site := by
  simp only [follow]
  cases b.node? home name with
  | none => exact reportAt_site t [] _ _
  | some n => rfl

variable [Library]

theorem begin_exit (b : Bindings) (test : Program → String → Option KeyTest) (t : Traversal)
    (c : Check) (d : Json) :
    (begin? b test t c d).2.exit (begin? b test t c d).1.site = t.site := by
  cases c with
  | key name required program =>
    simp only [begin?, beginKey]
    cases d.get? name with
    | some child => rfl
    | none =>
      cases required with
      | true => exact reportAt_site t [name] _ _
      | false => rfl
  | index key value named =>
    cases d with
    | object entries =>
      simp only [begin?, beginIndex]
      cases indexJobs test key value named entries with
      | none => rfl
      | some found => exact beginChildren_exit { t with visited := found.2 ++ t.visited } found.1
    | _ => rfl
  | elements programs rest =>
    cases d with
    | array items =>
      have same : (t.judgeLength programs.length rest.isSome items).1.site = t.site :=
        judge_site t _ _ _ _
      simp only [begin?, beginElements]
      cases judged : t.judgeLength programs.length rest.isSome items with
      | mk u j =>
        rw [judged] at same
        cases j with
        | pass => exact (beginChildren_exit u _).trans same
        | _ => exact same
    | _ => rfl
  | union dispatch fallback expected =>
    have same := route_site t fallback d dispatch
    simp only [begin?, beginUnion]
    cases routed : t.route fallback d dispatch with
    | mk u o =>
      rw [routed] at same
      rcases o with _ | _ | ⟨p, _ | ⟨q, ps⟩⟩ <;> exact same
  | deferred name home =>
    simp only [begin?, beginDeferred]
    cases t.maxDepth with
    | none => exact follow_exit b t name home d
    | some max =>
      dsimp only
      split
      · exact reportAt_site t [] _ _
      · exact follow_exit b t name home d
  | morph input steps => rfl
  | never => exact judge_site t false .abort .union _
  | _ => exact judge_site t _ _ _ _

theorem runSteps_fresh (b : Bindings) (t : Traversal) (v : Json) (steps : List Step) :
    runSteps b t v steps =
      ({ t with problems := (runSteps b t.site.fresh v steps).1.problems ++ t.problems },
        (runSteps b t.site.fresh v steps).2) := by
  induction steps generalizing v with
  | nil => rfl
  | cons s steps ih =>
    simp only [runSteps]
    split
    · exact ih _
    · obtain ⟨mode, maxDepth, depth, path, problems, visited, stack, done⟩ := t
      cases mode <;> rfl

end Traversal

end SchemaAlgebra

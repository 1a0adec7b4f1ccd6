import SchemaAlgebra.Proofs.Evaluation

/-!
# Evaluation and runs

Evaluating a frame comes to what running it on the stack leaves behind. If the evaluation
does not end within a number of nested programs, the run does not end within as many steps.
-/
namespace SchemaAlgebra
namespace Traversal

/-- Steps lead to the state; without one they do not end soon. -/
def Follows (next : Traversal → Traversal) (n : Nat) (t : Traversal) : Option Traversal → Prop
  | some u => Reaches next t u
  | none => (next^[n] t).isFinished = false

namespace Follows

variable {b : Bindings} {test : Program → String → Option KeyTest} {n : Nat} {t u : Traversal}
  {o : Option Traversal}

variable [Library]

theorem isFinished_of_le {k m : Nat} (h : ((step b test)^[k] t).isFinished = true) (hkm : k ≤ m) :
    ((step b test)^[m] t).isFinished = true := by
  obtain ⟨more, rfl⟩ := Nat.exists_eq_add_of_le hkm
  rw [Nat.add_comm, Function.iterate_add_apply,
    iterate_of_isFinished (fun _ => step_of_isFinished) h]
  exact h

theorem after (reached : Reaches (step b test) t u) (h : Follows (step b test) n u o) :
    Follows (step b test) n t o := by
  cases o with
  | some v => exact reached.trans h
  | none =>
    obtain ⟨k, rfl⟩ := reached
    rw [Follows, ← Function.iterate_add_apply] at h
    refine Bool.eq_false_iff.mpr fun finished => ?_
    rw [isFinished_of_le finished (Nat.le_add_right n k)] at h
    cases h

theorem step (next : step b test t = u) (h : Follows (step b test) n u o) :
    Follows (Traversal.step b test) (n + 1) t o := by
  cases o with
  | some v => exact .step next h
  | none =>
    rw [Follows, Function.iterate_succ_apply, next]
    exact h

theorem map {α : Type} {x : Option α} {middle final : α → Traversal}
    (first : Follows (Traversal.step b test) n t (x.map middle))
    (others : ∀ r, Reaches (Traversal.step b test) (middle r) (final r)) :
    Follows (Traversal.step b test) n t (x.map final) := by
  cases x with
  | none => exact first
  | some r => exact first.trans (others r)

theorem bind {α β : Type} {x : Option (Report α)} {next : α → Option (Report β)}
    {final : Report β → Traversal} (middle : Report α → Traversal)
    (first : Follows (Traversal.step b test) n t (x.map middle))
    (others : ∀ r, x = some r → Follows (Traversal.step b test) n (middle r)
      ((next r.value).map fun u => final (r.after u))) :
    Follows (Traversal.step b test) n t ((Report.bind x next).map final) := by
  cases x with
  | none => exact first
  | some r =>
    have rest := others r rfl
    rw [Report.bind, Option.bind_some, Option.map_map]
    exact after first rest

end Follows

def leave (t : Traversal) (s : Site) (rest : List Frame) (r : Report Done) : Traversal :=
  ⟨s.mode, s.maxDepth, s.depth, s.path, r.problems ++ t.problems, r.visited ++ t.visited, rest,
    some r.value⟩

/-- The traversal with what a report adds, before the next step. -/
def hear {α : Type} (t : Traversal) (r : Report α) : Traversal :=
  { t with problems := r.problems ++ t.problems, visited := r.visited ++ t.visited, done := none }

theorem leave_hear {α : Type} (t : Traversal) (r : Report α) (s : Site) (rest : List Frame) :
    (t.hear r).leave s rest = fun u => t.leave s rest (r.after u) := by
  funext u
  simp [leave, hear, Report.after]

theorem resumeMorph_eq [Library] (b : Bindings) (t : Traversal) (steps : List Step) (d : Json)
    (rest : List Frame) (v : Verdict) :
    resumeMorph b t steps d rest v = t.leave t.site rest (evalSteps b t.site steps d v) := by
  have ran (w : Json) : (runSteps b t w steps).1.finish rest (.value (runSteps b t w steps).2) =
      t.leave t.site rest ⟨.value (runSteps b t.site.fresh w steps).2,
        (runSteps b t.site.fresh w steps).1.problems, []⟩ := by
    rw [runSteps_fresh]
    rfl
  cases mode : t.mode with
  | allow => cases v <;> simp [resumeMorph, evalSteps, site, mode, finish, leave, Report.silent]
  | apply =>
    have same : t.site.mode = .apply := mode
    cases v with
    | failed => simp [resumeMorph, evalSteps, site, mode, finish, leave, Report.silent]
    | unchanged =>
      simp only [resumeMorph, evalSteps, mode, same]
      exact ran d
    | changed w =>
      simp only [resumeMorph, evalSteps, mode, same]
      exact ran w

section

variable [Library]

variable {b : Bindings} {test : Program → String → Option KeyTest} {n : Nat}
  {program : Site → ProgramFrame → Option (Report Verdict)}
  (follows : ∀ (t : Traversal) (f : ProgramFrame) (rest : List Frame), t.done = none →
    Follows (step b test) n { t with stack := .program f :: rest }
      ((program t.site f).map fun r =>
        t.leave (Frame.exit (.program f) t.site) rest (r.map .value)))
include follows

theorem follows_start {t u : Traversal} (f : ProgramFrame) (rest : List Frame)
    (next : step b test t = { u with stack := .program f :: rest }) (done : u.done = none) :
    Follows (step b test) n t ((program u.site f).map fun r =>
      u.leave (Frame.exit (.program f) u.site) rest (r.map .value)) :=
  (follows u f rest done).after (.one next)

theorem follows_jobs {f : ChildrenFrame} {t : Traversal} {rest : List Frame}
    (done : t.done = none) : Follows (step b test) n { t with stack := .children f :: rest }
      ((evalJobs program t.site f.jobs f.judgement f.patches).map (t.leave t.site rest)) := by
  obtain ⟨jobs, current, judgement, patches⟩ := f
  induction jobs generalizing t current judgement patches with
  | nil =>
    refine Reaches.one ?_
    simp only [step, done, advance, advanceChildren]
    rfl
  | cons job jobs ih =>
    have first := follows_start follows
      (t := { t with stack := .children ⟨job :: jobs, current, judgement, patches⟩ :: rest })
      (u := { t with path := job.segment :: t.path }) (frameOf job.program job.data true)
      (.children ⟨jobs, some job.segment, judgement, patches⟩ :: rest)
      (by simp only [step, done, advance, advanceChildren]; rfl) done
    refine Follows.bind _ first fun r _ => ?_
    have others (judgement : Judgement) (patches : List (Segment × Json)) :=
      ih (t := t.hear r) rfl none judgement patches
    simp only [leave_hear] at others
    obtain ⟨v, problems, visited⟩ := r
    cases v with
    | changed v => exact (others judgement ((job.segment, v) :: patches)).after (.one rfl)
    | unchanged => exact (others judgement patches).after (.one rfl)
    | failed =>
      obtain ⟨mode, maxDepth, depth, path, problems', visited', stack, done⟩ := t
      cases mode with
      | allow => exact Reaches.one rfl
      | apply => exact (others .fail patches).after (.one rfl)

theorem follows_branches {f : BranchesFrame} {t : Traversal} {rest : List Frame}
    (done : t.done = none) : Follows (step b test) n { t with stack := .branches f :: rest }
      ((evalBranches program t.site f.data f.expected f.programs).map (t.leave t.site rest)) := by
  obtain ⟨programs, d, saved, expected⟩ := f
  induction programs generalizing t saved with
  | nil =>
    obtain ⟨mode, maxDepth, depth, path, problems, visited, stack, done'⟩ := t
    cases done
    cases mode <;> exact Reaches.one rfl
  | cons p programs ih =>
    have first := follows_start follows
      (t := { t with stack := .branches ⟨p :: programs, d, saved, expected⟩ :: rest })
      (u := { t with problems := [] }) (frameOf p d false)
      (.branches ⟨programs, d, some t.problems, expected⟩ :: rest)
      (by simp only [step, done, advance, advanceBranches]; rfl) done
    have site : ({ t with problems := [] } : Traversal).site = t.site := rfl
    rw [site] at first
    cases found : program t.site (frameOf p d false) with
    | none =>
      rw [found] at first
      simp only [evalBranches, found, Report.bind]
      exact first
    | some r =>
      rw [found] at first
      simp only [evalBranches, found, Report.bind, Option.map_some, Option.bind_some,
        Option.map_map]
      have others := ih (t := t.hear { r with problems := [] }) rfl none
      rw [leave_hear] at others
      obtain ⟨v, problems, visited⟩ := r
      refine Follows.after first ?_
      cases v with
      | failed => exact others.after (.one rfl)
      | unchanged => exact Reaches.one rfl
      | changed v => exact Reaches.one rfl

theorem follows_frame {t : Traversal} (child : Frame) (rest : List Frame) (done : t.done = none) :
    Follows (step b test) n { t with stack := child :: rest }
      ((evalFrame b program t.site child).map (t.leave (child.exit t.site) rest)) := by
  cases child with
  | program f =>
    rw [evalFrame, Option.map_map]
    exact follows t f rest done
  | children f => exact follows_jobs follows done
  | branches f => exact follows_branches follows done
  | target p d =>
    cases p with
    | none =>
      refine Reaches.one ?_
      simp only [step, done, advance, advanceOnce]
      rfl
    | some p =>
      have first := follows_start follows (t := { t with stack := .target (some p) d :: rest })
        (u := t) (frameOf p d false) (.target none d :: rest)
        (by simp only [step, done, advance, advanceOnce]; rfl) done
      rw [evalFrame, Option.map_map]
      exact first.map fun r => .one rfl
  | morph p steps d =>
    cases p with
    | none =>
      refine Reaches.one ?_
      simp only [step, done, advance, advanceOnce]
      rfl
    | some p =>
      have first := follows_start follows (t := { t with stack := .morph (some p) steps d :: rest })
        (u := t) (frameOf p d false) (.morph none steps d :: rest)
        (by simp only [step, done, advance, advanceOnce]; rfl) done
      rw [evalFrame]
      refine Follows.bind _ first fun r _ => Reaches.one ?_
      have resumed := resumeMorph_eq b { t.hear r with stack := .morph none steps d :: rest }
        steps d rest r.value
      exact resumed.trans (congrFun (leave_hear t r t.site rest) _)

end

/-- What a program has left to check has no part in taking in a result. -/
theorem absorb_with (f : ProgramFrame) (p : Program) (waiting pending : Pending) (result : Done) :
    absorb { f with rest := p, pending := waiting } pending result =
      ({ (absorb f pending result).1 with rest := p, pending := waiting },
        (absorb f pending result).2) := by
  have patched (patches : List (Segment × Json)) :
      patches.foldr (fun e f => ProgramFrame.patch f e.1 e.2) { f with rest := p, pending :=
        waiting } = { patches.foldr (fun e f => ProgramFrame.patch f e.1 e.2) f with
          rest := p, pending := waiting } := by
    induction patches with
    | nil => rfl
    | cons e patches ih =>
      rw [List.foldr_cons, ih]
      rfl
  cases result with
  | value v => cases pending <;> cases v <;> rfl
  | children j patches =>
    cases pending with
    | children => exact congrArg (·, j) (patched patches)
    | _ => rfl

theorem absorb_nested (f : ProgramFrame) (pending : Pending) (result : Done) :
    (absorb f pending result).1.nested = f.nested := by
  have patched (patches : List (Segment × Json)) :
      (patches.foldr (fun e f => ProgramFrame.patch f e.1 e.2) f).nested = f.nested := by
    induction patches with
    | nil => rfl
    | cons e patches ih => exact ih
  cases result with
  | value v => cases pending <;> cases v <;> rfl
  | children j patches =>
    cases pending with
    | children => exact patched patches
    | _ => rfl

theorem finishProgram_eq (t : Traversal) (f : ProgramFrame) (rest : List Frame) (v : Verdict) :
    t.finishProgram f rest v = t.leave (Frame.exit (.program f) t.site) rest
      (.silent (.value v)) := by
  simp only [finishProgram, Frame.exit]
  split <;> rfl

theorem foldJudgement_eq (t : Traversal) (f : ProgramFrame) (rest : List Frame) (j : Judgement) :
    t.foldJudgement f rest j =
      match goOn t.mode f j with
      | some g => t.resumeWith (.program g) rest
      | none => t.leave (Frame.exit (.program f) t.site) rest (.silent (.value .failed)) := by
  cases j with
  | pass => rfl
  | fail =>
    simp only [foldJudgement, goOn]
    cases t.mode with
    | allow => exact finishProgram_eq t f rest .failed
    | apply => rfl
  | abort => exact finishProgram_eq t f rest .failed

theorem goOn_with (mode : Mode) (f : ProgramFrame) (p : Program) (waiting : Pending)
    (j : Judgement) : goOn mode { f with rest := p, pending := waiting } j =
      (goOn mode f j).map fun g => { g with rest := p, pending := waiting } := by
  cases j with
  | pass => rfl
  | fail =>
    simp only [goOn]
    split <;> rfl
  | abort => rfl

theorem goOn_nested {mode : Mode} {f g : ProgramFrame} {j : Judgement}
    (h : goOn mode f j = some g) : g.nested = f.nested := by
  cases j with
  | pass =>
    cases h
    rfl
  | fail =>
    simp only [goOn] at h
    split at h <;> cases h
    rfl
  | abort => cases h

theorem exit_nested {f g : ProgramFrame} (h : g.nested = f.nested) (s : Site) :
    Frame.exit (.program g) s = Frame.exit (.program f) s := by
  simp only [Frame.exit, h]

theorem exit_mode (child : Frame) (s : Site) :
    (child.exit s).mode = s.mode ∧ (child.exit s).maxDepth = s.maxDepth := by
  rcases child with f | f | f | ⟨p, d⟩ | f
  · simp only [Frame.exit]
    split <;> exact ⟨rfl, rfl⟩
  · exact ⟨rfl, rfl⟩
  · exact ⟨rfl, rfl⟩
  · cases p <;> exact ⟨rfl, rfl⟩
  · exact ⟨rfl, rfl⟩

theorem foldJudgement_stack (t : Traversal) (stack : List Frame) (f : ProgramFrame)
    (rest : List Frame) (j : Judgement) :
    ({ t with stack := stack } : Traversal).foldJudgement f rest j =
      t.foldJudgement f rest j := by
  obtain ⟨mode, maxDepth, depth, path, problems, visited, stack, done⟩ := t
  cases j <;> cases mode <;> rfl

variable [Library]

theorem step_program (b : Bindings) (test : Program → String → Option KeyTest) {t : Traversal}
    {f : ProgramFrame} {rest : List Frame} {c : Check} {p : Program}
    (stack : t.stack = .program f :: rest) (done : t.done = none) (checks : f.rest = c :: p) :
    step b test t =
      match begin? b test t c f.data with
      | (u, .settled j) => u.foldJudgement { f with rest := p } rest j
      | (u, .descend child pending) =>
        u.push child (.program { f with rest := p, pending := pending }) rest
      | (_, .waiting) => t := by
  obtain ⟨mode, maxDepth, depth, path, problems, visited, frames, result⟩ := t
  obtain ⟨others, data, output, failed, pending, nested⟩ := f
  obtain rfl : others = c :: p := checks
  obtain rfl : frames = _ := stack
  obtain rfl : result = none := done
  rfl

section

variable {b : Bindings} {test : Program → String → Option KeyTest} {n : Nat}
  {frame : Site → Frame → Option (Report Done)}

theorem follows_checks
    (follows : ∀ (t : Traversal) (child : Frame) (rest : List Frame), t.done = none →
      Follows (step b test) n { t with stack := child :: rest }
        ((frame t.site child).map (t.leave (child.exit t.site) rest)))
    (p : Program) (f : ProgramFrame) (waiting : Pending) {t : Traversal} (rest : List Frame)
    (done : t.done = none) :
    Follows (step b test) (n + 1)
      { t with stack := .program { f with rest := p, pending := waiting } :: rest }
      ((evalChecks b test frame t.site p f).map fun r =>
        t.leave (Frame.exit (.program f) t.site) rest (r.map fun g => .value (conclude g))) := by
  induction p generalizing f t waiting with
  | nil =>
    refine Reaches.one ?_
    simp only [step, done, advance, advanceProgram]
    exact finishProgram_eq _ _ _ _
  | cons c p ih =>
    have judged (r : Report (ProgramFrame × Judgement)) (waiting : Pending)
        (nested : r.value.1.nested = f.nested) :
        Follows (step b test) (n + 1)
          ((t.hear r).foldJudgement { r.value.1 with rest := p, pending := waiting } rest r.value.2)
          ((match goOn t.site.mode r.value.1 r.value.2 with
            | some g => evalChecks b test frame t.site p g
            | none => some (.silent none)).map fun u =>
              t.leave (Frame.exit (.program f) t.site) rest
                ((r.after u).map fun g => .value (conclude g))) := by
      have mode : (t.hear r).mode = t.site.mode := rfl
      rw [foldJudgement_eq, goOn_with, mode]
      cases went : goOn t.site.mode r.value.1 r.value.2 with
      | none =>
        have exits : Frame.exit (.program { r.value.1 with rest := p, pending := waiting }) t.site =
            Frame.exit (.program f) t.site := exit_nested nested t.site
        simp only [Option.map_none, Option.map_some, leave_hear]
        rw [show (t.hear r).site = t.site from rfl, exits]
        exact Reaches.refl _ _
      | some g =>
        have others := ih g waiting (t := t.hear r) rfl
        rw [exit_nested ((goOn_nested went).trans nested), leave_hear] at others
        exact others
    set u : Traversal :=
      { t with stack := .program { f with rest := c :: p, pending := waiting } :: rest } with hu
    have next := step_program b test (t := u) rfl done rfl
    have same : u.site = t.site := rfl
    have back := begin_exit b test t.site.fresh c f.data
    rw [begin_fresh, same] at next
    rw [evalChecks, evalCheck]
    cases begun : begin? b test t.site.fresh c f.data with
    | mk v o =>
      rw [begun] at back
      simp only [begun] at next
      obtain ⟨mode, maxDepth, depth, path, problems, visited, stack, done'⟩ := v
      cases o with
      | settled j =>
        cases back
        rw [Report.bind, Option.bind_some, Option.map_map]
        refine Follows.after (.one (next.trans ?_))
          (judged ⟨(f, j), problems, visited⟩ waiting rfl)
        have heard : u.carry ⟨t.mode, t.maxDepth, t.depth, t.path, problems, visited, stack,
            done'⟩ =
            { t.hear (⟨(f, j), problems, visited⟩ : Report (ProgramFrame × Judgement)) with
              stack := u.stack } := by
          simp [carry, hear, u, done]
        exact (congrArg (·.foldJudgement { f with rest := p, pending := waiting } rest j)
          heard).trans (foldJudgement_stack _ _ _ _ _)
      | descend child pending =>
        have descended := follows
          (u.carry ⟨mode, maxDepth, depth, path, problems, visited, stack, done'⟩) child
          (.program { f with rest := p, pending := pending } :: rest) done
        obtain ⟨rfl, rfl⟩ : mode = t.mode ∧ maxDepth = t.maxDepth := by
          have modes := exit_mode child ⟨mode, maxDepth, depth, path⟩
          have back : child.exit ⟨mode, maxDepth, depth, path⟩ = t.site := back
          rw [back] at modes
          exact ⟨modes.1.symm, modes.2.symm⟩
        have back : child.exit ⟨t.mode, t.maxDepth, depth, path⟩ = t.site := back
        have resumed (r : Report Done) : Reaches (step b test)
            ((u.carry ⟨t.mode, t.maxDepth, depth, path, problems, visited, stack, done'⟩).leave
              t.site (.program { f with rest := p, pending := pending } :: rest) r)
            ((t.hear (⟨absorb f pending r.value, r.problems ++ problems, r.visited ++ visited⟩ :
              Report (ProgramFrame × Judgement))).foldJudgement
                { (absorb f pending r.value).1 with rest := p, pending := .nothing } rest
                (absorb f pending r.value).2) := by
          refine .one ?_
          simp only [step, leave, resume, resumeProgram]
          rw [absorb_with, ← foldJudgement_stack (t.hear _)
            (.program { f with rest := p, pending := pending } :: rest)]
          simp [carry, hear, site, u]
        have first := ((follows
          (u.carry ⟨t.mode, t.maxDepth, depth, path, problems, visited, stack, done'⟩) child
          (.program { f with rest := p, pending := pending } :: rest) done).step next)
        rw [show (u.carry ⟨t.mode, t.maxDepth, depth, path, problems, visited, stack,
          done'⟩).site = ⟨t.mode, t.maxDepth, depth, path⟩ from rfl, back] at first
        have absorbed := Follows.map first resumed
        refine Follows.bind (fun r => (t.hear r).foldJudgement
          { r.value.1 with rest := p, pending := .nothing } rest r.value.2) ?_ fun r hr => ?_
        · rw [Option.map_map]
          exact absorbed
        · refine judged r .nothing ?_
          obtain ⟨result, -, rfl⟩ := Option.map_eq_some_iff.mp hr
          exact absorb_nested f pending result.value
      | waiting =>
        simp only [Report.bind, Option.bind_none, Option.map_none]
        rw [Follows, Function.iterate_fixed next]
        rfl

theorem follows_program (b : Bindings) (test : Program → String → Option KeyTest) (n : Nat)
    (t : Traversal) (f : ProgramFrame) (rest : List Frame) (done : t.done = none) :
    Follows (step b test) n { t with stack := .program f :: rest }
      ((evaluate b test n t.site f).map fun r =>
        t.leave (Frame.exit (.program f) t.site) rest (r.map .value)) := by
  induction n generalizing t f rest with
  | zero => rfl
  | succ n ih =>
    have frames (t : Traversal) (child : Frame) (rest : List Frame) (done : t.done = none) :=
      follows_frame ih child rest done
    have ends := follows_checks frames f.rest f f.pending rest done
    rw [evaluate, Option.map_map]
    exact ends

end

def concluded (s : Site) (r : Report Verdict) : Traversal :=
  ⟨s.mode, s.maxDepth, s.depth, s.path, r.problems, r.visited, [], some (.value r.value)⟩

section

variable {b : Bindings} {mode : Mode} {maxDepth : Option Nat} {p : Program} {d : Json}

theorem follows_run (b : Bindings) (test : Program → String → Option KeyTest) (n : Nat)
    (mode : Mode) (maxDepth : Option Nat) (p : Program) (d : Json) :
    Follows (step b test) n (start mode maxDepth p d)
      ((evaluate b test n (.root mode maxDepth) (frameOf p d false)).map
        (concluded (.root mode maxDepth))) := by
  have ends := follows_program b test n ⟨mode, maxDepth, 0, [], [], [], [], none⟩
      (frameOf p d false) [] rfl
  have same : (fun r : Report Verdict =>
      (⟨mode, maxDepth, 0, [], [], [], [], none⟩ : Traversal).leave
      (Site.root mode maxDepth) [] (r.map .value)) = concluded (.root mode maxDepth) := by
    funext r
    simp [leave, concluded, Report.map]
  exact same ▸ ends

omit [Library] in
theorem reaches_unique {next : Traversal → Traversal}
    (fixed : ∀ t : Traversal, t.isFinished = true → next t = t) {t u v : Traversal}
    (hu : u.isFinished = true) (hv : v.isFinished = true) (h : Reaches next t u)
    (h' : Reaches next t v) : u = v := by
  obtain ⟨k, hk⟩ := h
  obtain ⟨l, hl⟩ := h'
  calc u = next^[l] (next^[k] t) := by rw [hk, iterate_of_isFinished fixed hu]
    _ = next^[k]
      (next^[l]
        t) := by rw [← Function.iterate_add_apply, Nat.add_comm, Function.iterate_add_apply]
    _ = v := by rw [hl, iterate_of_isFinished fixed hv]

theorem run_of_evaluate {n : Nat} {r : Report Verdict}
    (h : evaluate b (limitTest b maxDepth) n (.root mode maxDepth) (frameOf p d false) = some r) :
    ∃ least, ∀ patience, least ≤ patience →
      run b patience mode maxDepth p d = some (concluded (.root mode maxDepth) r) := by
  have follows := follows_run b (limitTest b maxDepth) n mode maxDepth p d
  rw [h] at follows
  exact run_of_reaches rfl follows

theorem evaluate_of_run {patience : Nat} {u : Traversal}
    (h : run b patience mode maxDepth p d = some u) :
    ∃ n r, evaluate b (limitTest b maxDepth) n (.root mode maxDepth) (frameOf p d false) =
      some r ∧ u = concluded (.root mode maxDepth) r := by
  have refines : Refines (testKey b patience maxDepth) (limitTest b maxDepth) :=
    fun _ _ _ answered => limitTest_eq_some answered
  rw [run, finished_eq_some, iterate_eq fun _ => step_of_isFinished] at h
  obtain ⟨ended, finished⟩ := h
  have ended := steps_refines refines ended finished
  have follows := follows_run b (limitTest b maxDepth) (2 ^ patience) mode maxDepth p d
  cases evaluated : evaluate b (limitTest b maxDepth) (2 ^ patience) (.root mode maxDepth)
      (frameOf p d false) with
  | none =>
    rw [evaluated] at follows
    rw [← ended, follows] at finished
    cases finished
  | some r =>
    rw [evaluated] at follows
    exact ⟨_, r, evaluated,
      reaches_unique (fun _ => step_of_isFinished) finished rfl ⟨_, ended⟩ follows⟩

/-- A name that a key program is evaluated on without tests is answered. -/
theorem limitTest_of_evaluate {n : Nat} {name : String} {r : Report Verdict}
    (h : evaluate b (fun _ _ => none) n (.root .allow maxDepth)
      (frameOf p (.string name) false) = some r) :
    limitTest b maxDepth p name = some ⟨isPassed r.value, r.visited⟩ := by
  have follows := follows_run b (fun _ _ => none) n .allow maxDepth p (.string name)
  rw [h] at follows
  obtain ⟨k, steps⟩ := follows
  have ran : runText b k maxDepth p name = some (concluded (.root .allow maxDepth) r) := by
    rw [runText, finished_eq_some]
    have long : k ≤ 2 ^ k := Nat.le_of_lt Nat.lt_two_pow_self
    exact ⟨iterate_of_steps (fun _ => step_of_isFinished) steps rfl long, rfl⟩
  have answered : testKey b k maxDepth p name = some ⟨isPassed r.value, r.visited⟩ := by
    rw [testKey, ran]
    rfl
  exact limitTest_eq_some answered

end

section

variable {b : Bindings} {test : Program → String → Option KeyTest}

/-- The second evaluation has a result wherever the first one does. -/
def Within {α β γ : Type} (x y : α → β → Option γ) : Prop :=
  ∀ a b r, x a b = some r → y a b = some r

theorem evalCheck_within {x y : Site → Frame → Option (Report Done)} (h : Within x y) {s : Site}
    {c : Check} {f : ProgramFrame} {r : Report (ProgramFrame × Judgement)}
    (found : evalCheck b test x s c f = some r) : evalCheck b test y s c f = some r := by
  rw [evalCheck] at found ⊢
  cases begun : begin? b test s.fresh c f.data with
  | mk t o =>
    rw [begun] at found
    cases o with
    | settled j => exact found
    | descend child pending =>
      obtain ⟨u, hu, rfl⟩ := Option.map_eq_some_iff.mp found
      exact Option.map_eq_some_iff.mpr ⟨u, h _ _ _ hu, rfl⟩
    | waiting => cases found

theorem evalChecks_within {x y : Site → Frame → Option (Report Done)} (h : Within x y)
    {s : Site} {p : Program} {f : ProgramFrame} {r : Report (Option ProgramFrame)}
    (found : evalChecks b test x s p f = some r) : evalChecks b test y s p f = some r := by
  induction p generalizing f r with
  | nil => exact found
  | cons c p ih =>
    rw [evalChecks, Report.bind_eq_some] at found ⊢
    obtain ⟨a, u, checked, others, after⟩ := found
    refine ⟨a, u, evalCheck_within h checked, ?_, after⟩
    dsimp only at others ⊢
    cases went : goOn s.mode a.value.1 a.value.2 with
    | none =>
      rw [went] at others
      exact others
    | some g =>
      rw [went] at others
      exact ih others

variable {x y : Site → ProgramFrame → Option (Report Verdict)}

omit [Library] in
theorem evalJobs_within (h : Within x y) {s : Site} {jobs : List Job} {j : Judgement}
    {patches : List (Segment × Json)} {r : Report Done}
    (found : evalJobs x s jobs j patches = some r) : evalJobs y s jobs j patches = some r := by
  induction jobs generalizing j patches r with
  | nil => exact found
  | cons job jobs ih =>
    rw [evalJobs, Report.bind_eq_some] at found ⊢
    obtain ⟨a, u, first, others, after⟩ := found
    refine ⟨a, u, h _ _ _ first, ?_, after⟩
    cases hv : a.value with
    | changed v =>
      rw [hv] at others
      exact ih others
    | unchanged =>
      rw [hv] at others
      exact ih others
    | failed =>
      rw [hv] at others
      cases hm : s.mode with
      | allow =>
        rw [hm] at others
        exact others
      | apply =>
        rw [hm] at others
        exact ih others

omit [Library] in
theorem evalBranches_within (h : Within x y) {s : Site} {d : Json} {expected : String}
    {ps : List Program} {r : Report Done} (found : evalBranches x s d expected ps = some r) :
    evalBranches y s d expected ps = some r := by
  induction ps generalizing r with
  | nil => exact found
  | cons p ps ih =>
    rw [evalBranches, Report.bind_eq_some] at found ⊢
    obtain ⟨a, u, first, others, after⟩ := found
    obtain ⟨q, hq, rfl⟩ := Option.map_eq_some_iff.mp first
    refine ⟨_, u, Option.map_eq_some_iff.mpr ⟨q, h _ _ _ hq, rfl⟩, ?_, after⟩
    dsimp only at others ⊢
    cases hv : q.value with
    | failed =>
      rw [hv] at others
      exact ih others
    | unchanged =>
      rw [hv] at others
      exact others
    | changed v =>
      rw [hv] at others
      exact others

theorem evalFrame_within (h : Within x y) : Within (evalFrame b x) (evalFrame b y) := by
  intro s child r found
  cases child with
  | program f =>
    obtain ⟨u, hu, rfl⟩ := Option.map_eq_some_iff.mp found
    exact Option.map_eq_some_iff.mpr ⟨u, h _ _ _ hu, rfl⟩
  | children f => exact evalJobs_within h found
  | branches f => exact evalBranches_within h found
  | target p d =>
    cases p with
    | none => exact found
    | some p =>
      obtain ⟨u, hu, rfl⟩ := Option.map_eq_some_iff.mp found
      exact Option.map_eq_some_iff.mpr ⟨u, h _ _ _ hu, rfl⟩
  | morph p steps d =>
    cases p with
    | none => exact found
    | some p =>
      rw [evalFrame, Report.bind_eq_some] at found ⊢
      obtain ⟨a, u, first, rest⟩ := found
      exact ⟨a, u, h _ _ _ first, rest⟩

/-- A result stays the same with more programs within one another. -/
theorem evaluate_mono {n m : Nat} (hnm : n ≤ m) :
    Within (evaluate b test n) (evaluate b test m) := by
  induction n generalizing m with
  | zero => exact fun _ _ _ found => nomatch found
  | succ n ih =>
    obtain ⟨m, rfl⟩ : ∃ k, m = k + 1 := ⟨m - 1, by omega⟩
    intro s f r found
    rw [evaluate] at found ⊢
    obtain ⟨u, hu, rfl⟩ := Option.map_eq_some_iff.mp found
    have more := evalFrame_within (b := b) (ih (Nat.le_of_succ_le_succ hnm))
    exact Option.map_eq_some_iff.mpr ⟨u, evalChecks_within more hu, rfl⟩

theorem evaluate_unique {n m : Nat} {s : Site} {f : ProgramFrame} {r u : Report Verdict}
    (h : evaluate b test n s f = some r) (h' : evaluate b test m s f = some u) : r = u := by
  have later := evaluate_mono (Nat.le_max_left n m) _ _ _ h
  rw [evaluate_mono (Nat.le_max_right n m) _ _ _ h', Option.some.injEq] at later
  exact later.symm

end

end Traversal

end SchemaAlgebra

import SchemaAlgebra.Proofs.Halting

/-!
# Confined runs

A run looks up an alias only where a check of it stands in the program or in the target of an
alias looked up before. If a set of aliases is closed in this way and all of them have
targets, a run that starts within the set reports no alias as dangling, and nothing that is
outside of the set makes a difference.
-/
namespace SchemaAlgebra

/-- The aliases that a frame may still look up. -/
def Frame.aliases : Frame → List (Home × String)
  | .program f => aliasesOf f.rest
  | .children f => f.jobs.flatMap fun job => aliasesOf job.program
  | .branches f => aliasesOfAll f.programs
  | .target p _ => aliasesOfRest p
  | .morph input _ _ => aliasesOfRest input

def Frame.aside : Frame → List Problem
  | .branches f => f.saved.getD []
  | _ => []

namespace Traversal

def Bound (ps : List Problem) : Prop := ∀ p ∈ ps, p.code ≠ .dangling

theorem bound_nil : Bound [] := List.forall_mem_nil _

/-- A frame looks up certain aliases only, and found none dangling. -/
def FrameConfined (A : Home × String → Prop) (f : Frame) : Prop :=
  (∀ x ∈ f.aliases, A x) ∧ Bound f.aside

/-- A run looks up certain aliases only from here on, and found none dangling. -/
structure Confined (A : Home × String → Prop) (t : Traversal) : Prop where
  problems : Bound t.problems
  stack : ∀ f ∈ t.stack, FrameConfined A f

/-- The aliases all have targets, which lead to no others, and the other bindings agree. -/
structure Closed (A : Home × String → Prop) (b b' : Bindings) : Prop where
  target : ∀ x, A x → ∃ n, b.node? x.1 x.2 = some n ∧ b'.node? x.1 x.2 = some n ∧
    ∀ y ∈ aliasesOf n.compile, A y
  transform : b.transform = b'.transform

section

variable {A : Home × String → Prop} {b b' : Bindings}
  {test test' : Program → String → Option KeyTest} {t : Traversal}

/-- Both tests answer alike for the keys that look up only certain aliases. -/
def TestsAlike (A : Home × String → Prop)
    (test test' : Program → String → Option KeyTest) : Prop :=
  ∀ key, (∀ x ∈ aliasesOf key, A x) → ∀ name, test key name = test' key name

theorem reportAt_bound (ht : Bound t.problems) (keys : List String) {code : Problem.Code}
    (other : code ≠ .dangling) (message : String) :
    Bound (t.reportAt keys code message).problems := by
  obtain ⟨mode, maxDepth, depth, path, problems, visited, stack, done⟩ := t
  cases mode with
  | allow => exact ht
  | apply => exact List.forall_mem_cons.mpr ⟨other, ht⟩

theorem judge_bound (ht : Bound t.problems) (passes : Bool) (otherwise : Judgement)
    {code : Problem.Code} (other : code ≠ .dangling) (message : String) :
    Bound (t.judge passes otherwise code message).1.problems := by
  cases passes with
  | true => exact ht
  | false => exact reportAt_bound ht [] other message

theorem route_confined (ht : Bound t.problems) {fallback : List Program}
    (hf : ∀ x ∈ aliasesOfAll fallback, A x) (d : Json) (dispatch : Dispatch)
    (ha : ∀ x ∈ dispatch.aliases, A x) :
    Bound (t.route fallback d dispatch).1.problems ∧
      ∀ ps, (t.route fallback d dispatch).2 = some ps → ∀ x ∈ aliasesOfAll ps, A x := by
  obtain ⟨dest, leads, routed⟩ := dispatch.exists_reached d
  rw [routed]
  cases dest with
  | branches programs =>
    refine ⟨ht, fun ps hps x hx => ha x (leads.aliases ?_)⟩
    cases hps
    exact hx
  | fallback =>
    refine ⟨ht, fun ps hps => ?_⟩
    obtain ⟨-, same⟩ := Option.ite_none_right_eq_some.mp hps
    cases same
    exact hf
  | refusal probe expected =>
    have other := Probe.problem_code_ne (show Problem.Code.dangling ≠ _ by decide)
        (by decide) probe expected d
    refine ⟨reportAt_bound ht _ other _, fun ps hps => ?_⟩
    cases hps

theorem indexJobs_alike (tests : TestsAlike A test test') {key : Program}
    (hk : ∀ x ∈ aliasesOf key, A x) (value : Program) (named : List String)
    (entries : List (String × Json)) :
    indexJobs test key value named entries = indexJobs test' key value named entries := by
  induction entries with
  | nil => rfl
  | cons e entries ih =>
    obtain ⟨name, child⟩ := e
    rw [indexJobs, indexJobs, ih, tests key hk name]

/-- What a check begins: nothing is found dangling, and it descends within the aliases. -/
def BeginsConfined (A : Home × String → Prop) (begun : Traversal × Begin) : Prop :=
  Bound begun.1.problems ∧ ∀ child pending, begun.2 = .descend child pending →
    FrameConfined A child

theorem beginsConfined_settled (ht : Bound t.problems) (j : Judgement) :
    BeginsConfined A (t, .settled j) :=
  ⟨ht, nofun⟩

theorem beginsConfined_judge (ht : Bound t.problems) (passes : Bool) (otherwise : Judgement)
    {code : Problem.Code} (other : code ≠ .dangling) (message : String) :
    BeginsConfined A (settle (t.judge passes otherwise code message)) :=
  ⟨judge_bound ht passes otherwise other message, nofun⟩

theorem beginsConfined_descend (ht : Bound t.problems) (child : Frame) (hc : FrameConfined A child)
    (pending : Pending) : BeginsConfined A (t, .descend child pending) := by
  refine ⟨ht, fun other pending' same => ?_⟩
  cases same
  exact hc

theorem beginsConfined_start (ht : Bound t.problems) {p : Program} (hp : ∀ x ∈ aliasesOf p, A x)
    (d : Json) (nested : Bool) (pending : Pending) :
    BeginsConfined A (t, .descend (.start p d nested) pending) :=
  beginsConfined_descend ht (.start p d nested) ⟨hp, bound_nil⟩ pending

theorem beginsConfined_children (ht : Bound t.problems) {jobs : List Job}
    (ha : ∀ job ∈ jobs, ∀ x ∈ aliasesOf job.program, A x) :
    BeginsConfined A (t.beginChildren jobs) := by
  rw [beginChildren]
  split
  · exact beginsConfined_settled ht .pass
  · exact beginsConfined_descend ht (.children ⟨jobs, none, .pass, []⟩)
      ⟨List.forall_mem_flatMap.mpr ha, bound_nil⟩ .children

theorem beginsConfined_follow (closed : Closed A b b') (ht : Bound t.problems) {name : String}
    {home : Home} (ha : A (home, name)) (d : Json) :
    BeginsConfined A (follow b t name home d) ∧
      follow b t name home d = follow b' t name home d := by
  obtain ⟨n, found, found', within⟩ := closed.target _ ha
  rw [follow, follow]
  simp only [found, found']
  exact ⟨beginsConfined_descend ht (.target (some n.compile) d) ⟨within, bound_nil⟩ .whole,
    trivial⟩

theorem beginsConfined_deferred (closed : Closed A b b') (ht : Bound t.problems) {name : String}
    {home : Home} (ha : A (home, name)) (d : Json) :
    BeginsConfined A (beginDeferred b t name home d) ∧
      beginDeferred b t name home d = beginDeferred b' t name home d := by
  obtain ⟨confined, same⟩ := beginsConfined_follow closed ht ha d
  rw [beginDeferred, beginDeferred]
  split
  · split
    · exact ⟨beginsConfined_settled (reportAt_bound ht [] (by decide) _) .fail, rfl⟩
    · exact ⟨confined, same⟩
  · exact ⟨confined, same⟩

theorem beginsConfined_elements (ht : Bound t.problems) {items : List Program}
    {rest : Option Program} (ha : ∀ x ∈ aliasesOfAll items ++ aliasesOfRest rest, A x)
    (d : Json) : BeginsConfined A (t.beginElements items rest d) := by
  obtain ⟨hi, hr⟩ := List.forall_mem_append.mp ha
  cases d with
  | array xs =>
    have jobs : ∀ job ∈ elementJobs items rest xs, ∀ x ∈ aliasesOf job.program, A x := by
      intro job hj
      rcases program_of_mem_elementJobs hj with fixed | others
      · exact forall_aliasesOfAll.mp hi _ fixed
      · rwa [others] at hr
    rw [beginElements]
    cases judged : t.judgeLength items.length rest.isSome xs with
    | mk u j =>
      have hu : Bound u.problems := by
        have bound : Bound (t.judgeLength items.length rest.isSome xs).1.problems :=
          judge_bound ht _ _ (by decide) _
        rwa [judged] at bound
      cases j with
      | pass => exact beginsConfined_children hu jobs
      | _ => exact beginsConfined_settled hu _
  | _ => exact beginsConfined_settled ht .pass

theorem beginsConfined_union (ht : Bound t.problems) {dispatch : Dispatch} {fallback : List Program}
    (ha : ∀ x ∈ dispatch.aliases ++ aliasesOfAll fallback, A x) (expected : String) (d : Json) :
    BeginsConfined A (t.beginUnion dispatch fallback expected d) := by
  obtain ⟨hd, hf⟩ := List.forall_mem_append.mp ha
  obtain ⟨bound, programs⟩ := route_confined ht hf d dispatch hd
  rw [beginUnion]
  generalize t.route fallback d dispatch = routed at bound programs
  rcases routed with ⟨u, _ | _ | ⟨p, _ | ⟨q, ps⟩⟩⟩
  · exact beginsConfined_settled bound .fail
  · exact beginsConfined_descend bound (.branches ⟨[], d, none, expected⟩)
      ⟨programs _ rfl, bound_nil⟩ .whole
  · have only := forall_aliasesOfAll.mp (programs _ rfl) p List.mem_cons_self
    exact beginsConfined_start bound only d false .whole
  · exact beginsConfined_descend bound (.branches ⟨p :: q :: ps, d, none, expected⟩)
      ⟨programs _ rfl, bound_nil⟩ .whole

/-- A check within the aliases begins in the same way, whatever others refer to. -/
theorem begin_confined [Library] (closed : Closed A b b') (tests : TestsAlike A test test')
    (ht : Bound t.problems) {c : Check} (ha : ∀ x ∈ c.aliases, A x) (d : Json) :
    BeginsConfined A (begin? b test t c d) ∧ begin? b test t c d = begin? b' test' t c d := by
  cases c with
  | key name required program =>
    refine ⟨?_, rfl⟩
    rw [begin?, beginKey]
    cases d.get? name with
    | some child => exact beginsConfined_start ht ha child true _
    | none =>
      cases required with
      | true => exact beginsConfined_settled (reportAt_bound ht _ (by decide) _) .fail
      | false => exact beginsConfined_settled ht .pass
  | index key value named =>
    obtain ⟨hk, hv⟩ := List.forall_mem_append.mp ha
    cases d with
    | object entries =>
      rw [begin?, begin?, beginIndex, beginIndex, indexJobs_alike tests hk value named entries]
      refine ⟨?_, rfl⟩
      cases found : indexJobs test' key value named entries with
      | none => exact ⟨ht, nofun⟩
      | some jobs =>
        obtain ⟨jobs, visited⟩ := jobs
        have visiting : Bound { t with visited := visited ++ t.visited }.problems := ht
        refine beginsConfined_children visiting fun job hj => ?_
        rwa [program_of_mem_indexJobs found hj]
    | _ => exact ⟨beginsConfined_settled ht .pass, rfl⟩
  | elements items rest => exact ⟨beginsConfined_elements ht ha d, rfl⟩
  | union dispatch fallback expected => exact ⟨beginsConfined_union ht ha expected d, rfl⟩
  | deferred name home =>
    exact beginsConfined_deferred closed ht (ha _ (List.mem_singleton.mpr rfl)) d
  | morph input steps =>
    exact ⟨beginsConfined_descend ht (.morph (some input) steps d) ⟨ha, bound_nil⟩ .whole,
      rfl⟩
  | never => exact ⟨beginsConfined_judge ht false .abort (by decide) _, rfl⟩
  | _ => exact ⟨beginsConfined_judge ht _ _ (by decide) _, rfl⟩

theorem Confined.push (ht : Bound t.problems) {child below : Frame} {rest : List Frame}
    (hc : FrameConfined A child) (hb : FrameConfined A below)
    (hr : ∀ f ∈ rest, FrameConfined A f) : Confined A (t.push child below rest) :=
  ⟨ht, List.forall_mem_cons.mpr ⟨hc, List.forall_mem_cons.mpr ⟨hb, hr⟩⟩⟩

theorem Confined.resumeWith (ht : Bound t.problems) {frame : Frame} {rest : List Frame}
    (hf : FrameConfined A frame) (hr : ∀ f ∈ rest, FrameConfined A f) :
    Confined A (t.resumeWith frame rest) :=
  ⟨ht, List.forall_mem_cons.mpr ⟨hf, hr⟩⟩

theorem Confined.finish (ht : Bound t.problems) {rest : List Frame}
    (hr : ∀ f ∈ rest, FrameConfined A f) (d : Done) : Confined A (t.finish rest d) :=
  ⟨ht, hr⟩

theorem Confined.foldJudgement (ht : Bound t.problems) {f : ProgramFrame}
    (hf : ∀ x ∈ aliasesOf f.rest, A x) {rest : List Frame}
    (hr : ∀ f ∈ rest, FrameConfined A f) (j : Judgement) :
    Confined A (t.foldJudgement f rest j) := by
  unfold Traversal.foldJudgement
  split
  · exact .resumeWith ht ⟨hf, bound_nil⟩ hr
  · exact .resumeWith ht ⟨hf, bound_nil⟩ hr
  · exact ⟨ht, hr⟩
  · exact ⟨ht, hr⟩

theorem advanceProgram_confined [Library] (closed : Closed A b b') (tests : TestsAlike A test test')
    (ht : Confined A t) {f : ProgramFrame} (hf : ∀ x ∈ aliasesOf f.rest, A x)
    {rest : List Frame} (hr : ∀ f ∈ rest, FrameConfined A f) :
    Confined A (advanceProgram b test t f rest) ∧
      advanceProgram b test t f rest = advanceProgram b' test' t f rest := by
  rw [advanceProgram, advanceProgram]
  cases checks : f.rest with
  | nil => exact ⟨⟨ht.problems, hr⟩, rfl⟩
  | cons c checks =>
    rw [checks] at hf
    obtain ⟨here, later⟩ := List.forall_mem_append.mp hf
    obtain ⟨⟨bound, child⟩, same⟩ := begin_confined closed tests ht.problems here f.data
    dsimp only
    rw [← same]
    refine ⟨?_, rfl⟩
    generalize begin? b test t c f.data = begun at bound child
    obtain ⟨u, settled | ⟨frame, pending⟩ | waiting⟩ := begun
    · exact .foldJudgement bound later hr _
    · exact .push bound (child _ _ rfl) ⟨later, bound_nil⟩ hr
    · exact ht

theorem advanceChildren_confined (ht : Bound t.problems) {f : ChildrenFrame}
    (hf : ∀ job ∈ f.jobs, ∀ x ∈ aliasesOf job.program, A x) {rest : List Frame}
    (hr : ∀ f ∈ rest, FrameConfined A f) : Confined A (t.advanceChildren f rest) := by
  rw [advanceChildren]
  cases jobs : f.jobs with
  | nil => exact .finish ht hr _
  | cons job jobs =>
    rw [jobs] at hf
    obtain ⟨here, later⟩ := List.forall_mem_cons.mp hf
    exact ⟨ht, List.forall_mem_cons.mpr ⟨⟨here, bound_nil⟩,
      List.forall_mem_cons.mpr ⟨⟨List.forall_mem_flatMap.mpr later, bound_nil⟩, hr⟩⟩⟩

theorem advanceBranches_confined (ht : Bound t.problems) {f : BranchesFrame}
    (hf : ∀ x ∈ aliasesOfAll f.programs, A x) {rest : List Frame}
    (hr : ∀ f ∈ rest, FrameConfined A f) : Confined A (t.advanceBranches f rest) := by
  rw [advanceBranches]
  cases programs : f.programs with
  | nil => exact .finish (reportAt_bound ht [] (by decide) _) hr _
  | cons p programs =>
    rw [programs] at hf
    obtain ⟨here, later⟩ := List.forall_mem_append.mp hf
    exact ⟨bound_nil, List.forall_mem_cons.mpr ⟨⟨here, bound_nil⟩,
      List.forall_mem_cons.mpr ⟨⟨later, ht⟩, hr⟩⟩⟩

theorem advanceOnce_confined (ht : Bound t.problems) {program : Option Program}
    (hp : ∀ x ∈ aliasesOfRest program, A x) (d : Json) (waiting : Frame)
    (hw : FrameConfined A waiting) {rest : List Frame} (hr : ∀ f ∈ rest, FrameConfined A f) :
    Confined A (t.advanceOnce program d waiting rest) := by
  cases program with
  | none => exact .finish ht hr _
  | some p => exact .push ht ⟨hp, bound_nil⟩ hw hr

theorem runSteps_bound [Library] (ht : Bound t.problems) (v : Json) (steps : List Step) :
    Bound (runSteps b t v steps).1.problems := by
  induction steps generalizing v with
  | nil => exact ht
  | cons s steps ih =>
    rw [runSteps]
    split
    · exact ih _
    · exact reportAt_bound ht [] (by decide) _

theorem runSteps_alike [Library] (transform : b.transform = b'.transform) (v : Json)
    (steps : List Step) : runSteps b t v steps = runSteps b' t v steps := by
  induction steps generalizing v with
  | nil => rfl
  | cons s steps ih =>
    have same : runStep b s = runStep b' s := by
      cases s with
      | builtin s => rfl
      | registered name home => rw [runStep, runStep, transform]
    simp only [runSteps, same, ih]

theorem absorb_rest (f : ProgramFrame) (pending : Pending) (result : Done) :
    (absorb f pending result).1.rest = f.rest :=
  congrArg (·.1.rest) (absorb_with f f.rest f.pending pending result)

theorem resumeProgram_confined (ht : Bound t.problems) {f : ProgramFrame}
    (hf : ∀ x ∈ aliasesOf f.rest, A x) {rest : List Frame}
    (hr : ∀ f ∈ rest, FrameConfined A f) (result : Done) :
    Confined A (t.resumeProgram f rest result) := by
  have left : ∀ x ∈ aliasesOf (absorb { f with pending := .nothing } f.pending result).1.rest,
      A x := by
    rwa [absorb_rest]
  exact .foldJudgement ht left hr _

theorem resumeMorph_confined [Library] (transform : b.transform = b'.transform)
    (ht : Bound t.problems) {rest : List Frame} (hr : ∀ f ∈ rest, FrameConfined A f)
    (steps : List Step) (d : Json) (v : Verdict) :
    Confined A (resumeMorph b t steps d rest v) ∧
      resumeMorph b t steps d rest v = resumeMorph b' t steps d rest v := by
  unfold resumeMorph
  split
  · rw [← runSteps_alike transform]
    exact ⟨.finish (runSteps_bound ht _ _) hr _, rfl⟩
  · rw [← runSteps_alike transform]
    exact ⟨.finish (runSteps_bound ht _ _) hr _, rfl⟩
  · exact ⟨.finish ht hr _, rfl⟩

theorem resumeChildren_confined (ht : Bound t.problems) {f : ChildrenFrame}
    (hf : FrameConfined A (.children f)) {rest : List Frame}
    (hr : ∀ f ∈ rest, FrameConfined A f) (v : Verdict) :
    Confined A (t.resumeChildren f rest v) := by
  unfold resumeChildren
  split
  · exact .resumeWith ht hf hr
  · exact .resumeWith ht hf hr
  · exact .finish ht hr _
  · exact .resumeWith ht hf hr

theorem resumeBranches_confined (ht : Bound t.problems) {f : BranchesFrame}
    (hf : FrameConfined A (.branches f)) {rest : List Frame}
    (hr : ∀ f ∈ rest, FrameConfined A f) (v : Verdict) :
    Confined A (t.resumeBranches f rest v) := by
  have restored : Bound (f.saved.getD t.problems) := by
    obtain ⟨programs, d, _ | saved, expected⟩ := f
    · exact ht
    · exact hf.2
  cases v with
  | failed => exact ⟨restored, List.forall_mem_cons.mpr ⟨⟨hf.1, bound_nil⟩, hr⟩⟩
  | _ => exact ⟨restored, hr⟩

/-- A step of a confined run leaves it confined, whatever other aliases refer to. -/
theorem step_confined [Library] (closed : Closed A b b') (tests : TestsAlike A test test')
    (ht : Confined A t) :
    Confined A (step b test t) ∧ step b test t = step b' test' t := by
  rw [step, step]
  cases stack : t.stack with
  | nil => exact ⟨ht, rfl⟩
  | cons frame rest =>
    have frames := ht.stack
    rw [stack] at frames
    obtain ⟨hf, hr⟩ := List.forall_mem_cons.mp frames
    cases t.done with
    | some result =>
      dsimp only
      have ht' : Bound { t with stack := frame :: rest, done := none }.problems := ht.problems
      cases frame with
      | program f => exact ⟨resumeProgram_confined ht' hf.1 hr _, rfl⟩
      | children f => exact ⟨resumeChildren_confined ht' hf hr _, rfl⟩
      | branches f => exact ⟨resumeBranches_confined ht' hf hr _, rfl⟩
      | target p d => exact ⟨⟨ht.problems, hr⟩, rfl⟩
      | morph input steps d => exact resumeMorph_confined closed.transform ht' hr steps d _
    | none =>
      dsimp only
      cases frame with
      | program f => exact advanceProgram_confined closed tests ht hf.1 hr
      | children f =>
        exact ⟨advanceChildren_confined ht.problems (List.forall_mem_flatMap.mp hf.1) hr, rfl⟩
      | branches f => exact ⟨advanceBranches_confined ht.problems hf.1 hr, rfl⟩
      | target p d =>
        have waiting : FrameConfined A (.target none d) := ⟨List.forall_mem_nil _, bound_nil⟩
        exact ⟨advanceOnce_confined ht.problems hf.1 d _ waiting hr, rfl⟩
      | morph input steps d =>
        have waiting : FrameConfined A (.morph none steps d) :=
          ⟨List.forall_mem_nil _, bound_nil⟩
        exact ⟨advanceOnce_confined ht.problems hf.1 d _ waiting hr, rfl⟩

theorem start_confined {p : Program} (hp : ∀ x ∈ aliasesOf p, A x) (mode : Mode)
    (cap : Option Nat) (d : Json) : Confined A (start mode cap p d) :=
  ⟨bound_nil, List.forall_mem_singleton.mpr ⟨hp, bound_nil⟩⟩

variable [Library]

theorem iterate_confined (closed : Closed A b b') (tests : TestsAlike A test test') (patience : Nat)
    (ht : Confined A t) :
    Confined A (iterate (step b test) patience t) ∧
      iterate (step b test) patience t = iterate (step b' test') patience t := by
  induction patience generalizing t with
  | zero => exact step_confined closed tests ht
  | succ patience ih =>
    obtain ⟨half, same⟩ := ih ht
    simp only [iterate, ← same]
    split
    · exact ⟨half, rfl⟩
    · exact ih half

theorem testKey_alike (closed : Closed A b b') (patience : Nat) (cap : Option Nat) :
    TestsAlike A (testKey b patience cap) (testKey b' patience cap) := by
  intro key hk name
  have untested : TestsAlike A (fun _ _ => none) (fun _ _ => none) := fun _ _ _ => rfl
  rw [testKey, testKey, runText, runText,
    (iterate_confined closed untested patience (start_confined hk .allow cap (.string name))).2]

/-- A run of a program with certain aliases depends on nothing but their targets, and reports
none as dangling. -/
theorem run_confined (closed : Closed A b b') {p : Program} (hp : ∀ x ∈ aliasesOf p, A x)
    (patience : Nat) (mode : Mode) (cap : Option Nat) (d : Json) :
    (∀ u, run b patience mode cap p d = some u → Bound u.problems) ∧
      run b patience mode cap p d = run b' patience mode cap p d := by
  obtain ⟨confined, same⟩ :=
    iterate_confined closed (testKey_alike closed patience cap) patience
    (start_confined hp mode cap d)
  rw [run, run, ← same]
  refine ⟨fun u ended => ?_, rfl⟩
  rw [finished_eq_some] at ended
  exact ended.1 ▸ confined.problems

end

end Traversal

end SchemaAlgebra

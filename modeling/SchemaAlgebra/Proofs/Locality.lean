import SchemaAlgebra.Proofs.Caps

/-!
# What it depends on whether a value is allowed

To allow a value reports no problem, so the path to it makes no difference. A text has no keys
and no items, so the test of names makes none either: a name that satisfies the key of a
signature is a text that the key allows.
-/
namespace SchemaAlgebra

/-- Two places where values are allowed with the same cap and below as many aliases. -/
structure Site.Level (s s' : Site) : Prop where
  left : s.mode = .allow
  right : s'.mode = .allow
  maxDepth : s.maxDepth = s'.maxDepth
  depth : s.depth = s'.depth

theorem Site.Level.inside {s s' : Site} (h : s.Level s') (segment segment' : Segment) :
    (s.inside segment).Level (s'.inside segment') := ⟨h.left, h.right, h.maxDepth, h.depth⟩

def Json.IsText (d : Json) : Prop := ∃ text, d = .string text

namespace Traversal

/-- Two traversals that differ in nothing but the path. -/
structure Level (t t' : Traversal) : Prop where
  site : t.site.Level t'.site
  problems : t.problems = t'.problems
  visited : t.visited = t'.visited

section

variable {b : Bindings} {test test' : Program → String → Option KeyTest} {t t' : Traversal}
  {d : Json}

theorem reportAt_allow (allows : t.mode = .allow) (keys : List String) (code : Problem.Code)
    (message : String) : t.reportAt keys code message = t := by
  simp only [reportAt, allows]

/-- A check begins alike in both traversals. -/
structure BeginsAlike (x x' : Traversal × Begin) : Prop where
  level : x.1.Level x'.1
  same : x.2 = x'.2

theorem beginsAlike_settled (h : t.Level t') (j : Judgement) :
    BeginsAlike (t, .settled j) (t', .settled j) := ⟨h, rfl⟩

theorem beginsAlike_judge (h : t.Level t') (passes : Bool) (otherwise : Judgement)
    (code : Problem.Code) (message : String) :
    BeginsAlike (settle (t.judge passes otherwise code message))
      (settle (t'.judge passes otherwise code message)) := by
  rw [judge_allow h.site.left, judge_allow h.site.right]
  exact beginsAlike_settled h _

theorem beginsAlike_children (h : t.Level t') (jobs : List Job) :
    BeginsAlike (t.beginChildren jobs) (t'.beginChildren jobs) := by
  unfold beginChildren
  split
  · exact ⟨h, rfl⟩
  · exact ⟨h, rfl⟩

theorem beginsAlike_follow (h : t.Level t') (name : String) (home : Home) (d : Json) :
    BeginsAlike (follow b t name home d) (follow b t' name home d) := by
  have depth : t.depth = t'.depth := h.site.depth
  unfold follow
  cases b.node? home name with
  | none =>
    dsimp only
    rw [report, report, reportAt_allow h.site.left, reportAt_allow h.site.right]
    exact beginsAlike_settled h .fail
  | some n =>
    constructor
    · constructor
      · exact ⟨h.site.left, h.site.right, h.site.maxDepth, congrArg (· + 1) depth⟩
      · exact h.problems
      · exact congrArg ((home, name) :: ·) h.visited
    · rfl

theorem beginsAlike_deferred (h : t.Level t') (name : String) (home : Home) (d : Json) :
    BeginsAlike (beginDeferred b t name home d) (beginDeferred b t' name home d) := by
  have maxDepth : t.maxDepth = t'.maxDepth := h.site.maxDepth
  have depth : t.depth = t'.depth := h.site.depth
  unfold beginDeferred
  rw [← maxDepth, ← depth]
  cases t.maxDepth with
  | none => exact beginsAlike_follow h name home d
  | some max =>
    dsimp only
    split
    · rw [report, report, reportAt_allow h.site.left, reportAt_allow h.site.right]
      exact beginsAlike_settled h .fail
    · exact beginsAlike_follow h name home d

theorem route_allow (allows : t.mode = .allow) (fallback : List Program) (dispatch : Dispatch) :
    (t.route fallback d dispatch).1 = t := by
  obtain ⟨dest, -, routed⟩ := dispatch.exists_reached d
  rw [routed, dest.reached_allow allows]

theorem beginsAlike_union (h : t.Level t') (dispatch : Dispatch) (fallback : List Program)
    (expected : String) (d : Json) : BeginsAlike (t.beginUnion dispatch fallback expected d)
      (t'.beginUnion dispatch fallback expected d) := by
  have modes : t.mode = t'.mode := h.site.left.trans h.site.right.symm
  have left : t.route fallback d dispatch = (t, (t.route fallback d dispatch).2) :=
    Prod.ext (route_allow h.site.left fallback dispatch) rfl
  have right : t'.route fallback d dispatch = (t', (t.route fallback d dispatch).2) :=
    Prod.ext (route_allow h.site.right fallback dispatch)
      (route_programs fallback t t' modes dispatch).symm
  unfold beginUnion
  rw [left, right]
  rcases (t.route fallback d dispatch).2 with _ | _ | ⟨p, _ | ⟨q, ps⟩⟩ <;>
    exact ⟨h, rfl⟩

/-- What is looked at is a text, or names are tested alike. -/
def Alike (test test' : Program → String → Option KeyTest) (d : Json) : Prop :=
  test = test' ∨ d.IsText

variable [Library]

theorem beginsAlike_begin (alike : Alike test test' d) (h : t.Level t') (c : Check) :
    BeginsAlike (begin? b test t c d) (begin? b test' t' c d) := by
  cases c with
  | key name required program =>
    simp only [begin?, beginKey]
    cases d.get? name with
    | some child =>
      exact ⟨⟨⟨h.site.left, h.site.right, h.site.maxDepth, h.site.depth⟩, h.problems,
        h.visited⟩, rfl⟩
    | none =>
      unfold judgeMissing
      rw [reportAt_allow h.site.left, reportAt_allow h.site.right]
      cases required with
      | true => exact beginsAlike_settled h .fail
      | false => exact beginsAlike_settled h .pass
  | index key value named =>
    rcases alike with rfl | ⟨text, rfl⟩
    · cases d with
      | object entries =>
        simp only [begin?, beginIndex]
        cases indexJobs test key value named entries with
        | none => exact ⟨h, rfl⟩
        | some found =>
          apply beginsAlike_children
          exact ⟨h.site, h.problems, congrArg (found.2 ++ ·) h.visited⟩
      | _ => exact beginsAlike_settled h .pass
    · exact beginsAlike_settled h .pass
  | elements items rest =>
    cases d with
    | array xs =>
      simp only [begin?, beginElements, judgeLength, judge_allow h.site.left,
        judge_allow h.site.right]
      generalize (if (if rest.isSome = true then decide
        (items.length ≤ xs.length) else xs.length == items.length) = true
        then Judgement.pass else Judgement.abort) = j
      cases j with
      | pass => exact beginsAlike_children h _
      | fail => exact beginsAlike_settled h .fail
      | abort => exact beginsAlike_settled h .abort
    | _ => exact beginsAlike_settled h .pass
  | union dispatch fallback expected => exact beginsAlike_union h dispatch fallback expected d
  | deferred name home => exact beginsAlike_deferred h name home d
  | morph input steps => exact ⟨h, rfl⟩
  | never => exact beginsAlike_judge h false .abort .union _
  | _ => exact beginsAlike_judge h _ _ _ _

def OnText : Frame → Prop
  | .program f => f.data.IsText
  | .children f => f.jobs = []
  | .branches f => f.data.IsText
  | .target _ d => d.IsText
  | .morph _ _ d => d.IsText

/-- A frame looks at nothing but a text, or names are tested alike. -/
def FrameAlike (test test' : Program → String → Option KeyTest) (child : Frame) : Prop :=
  test = test' ∨ OnText child

/-- On a text, a check descends only into what looks at the text. -/
theorem begin_onText (hd : d.IsText) {c : Check} {child : Frame} {pending : Pending}
    (h : (begin? b test t c d).2 = .descend child pending) : OnText child := by
  obtain ⟨text, rfl⟩ := hd
  have here : (Json.string text).IsText := ⟨text, rfl⟩
  cases c with
  | key name required program =>
    simp only [begin?, beginKey, Json.get?] at h
    cases required <;> cases h
  | index key value named => cases h
  | elements items rest => cases h
  | union dispatch fallback expected =>
    simp only [begin?, beginUnion] at h
    generalize t.route fallback (.string text) dispatch = routed at h
    rcases routed with ⟨u, _ | _ | ⟨p, _ | ⟨q, ps⟩⟩⟩ <;> cases h <;> exact here
  | deferred name home =>
    simp only [begin?, beginDeferred, follow] at h
    split at h
    · split at h
      · cases h
      · split at h <;> cases h
        exact here
    · split at h <;> cases h
      exact here
  | morph input steps =>
    cases h
    exact here
  | _ => cases h

theorem frameAlike_begin (alike : Alike test test' d) {c : Check} {child : Frame}
    {pending : Pending} (h : (begin? b test t c d).2 = .descend child pending) :
    FrameAlike test test' child :=
  alike.imp id fun hd => begin_onText hd h

variable {s s' : Site} {program program' : Site → ProgramFrame → Option (Report Verdict)}

/-- Two evaluations of frames come to the same at places on one level. -/
def FramesAlike (test test' : Program → String → Option KeyTest)
    (frame frame' : Site → Frame → Option (Report Done)) : Prop :=
  ∀ (s s' : Site) (child : Frame), s.Level s' → FrameAlike test test' child →
    frame s child = frame' s' child

/-- Two evaluations of programs come to the same at places on one level. -/
def ProgramsAlike (test test' : Program → String → Option KeyTest)
    (program program' : Site → ProgramFrame → Option (Report Verdict)) : Prop :=
  ∀ (s s' : Site) (f : ProgramFrame), s.Level s' → Alike test test' f.data →
    program s f = program' s' f

omit [Library] in
theorem level_fresh (h : s.Level s') : s.fresh.Level s'.fresh := ⟨h, rfl, rfl⟩

theorem evalCheck_alike {frame frame' : Site → Frame → Option (Report Done)}
    (frames : FramesAlike test test' frame frame') (h : s.Level s') {f : ProgramFrame}
    (alike : Alike test test' f.data) (c : Check) :
    evalCheck b test frame s c f = evalCheck b test' frame' s' c f := by
  have begins : BeginsAlike (begin? b test s.fresh c f.data) (begin? b test' s'.fresh c f.data) :=
    beginsAlike_begin alike (level_fresh h) c
  have descends {child : Frame} {pending : Pending}
      (begun : (begin? b test s.fresh c f.data).2 = .descend child pending) :
      FrameAlike test test' child :=
    frameAlike_begin alike begun
  unfold evalCheck
  generalize begin? b test s.fresh c f.data = x at begins descends ⊢
  generalize begin? b test' s'.fresh c f.data = x' at begins ⊢
  obtain ⟨t, o⟩ := x
  obtain ⟨t', o'⟩ := x'
  obtain ⟨level, same⟩ := begins
  dsimp only at level same
  subst same
  cases o with
  | settled j =>
    dsimp only
    rw [level.problems, level.visited]
  | descend child pending =>
    dsimp only
    rw [frames _ _ child level.site (descends rfl), level.problems, level.visited]
  | waiting => rfl

theorem evalChecks_alike {frame frame' : Site → Frame → Option (Report Done)}
    (frames : FramesAlike test test' frame frame') (h : s.Level s') (p : Program) {f : ProgramFrame}
    (alike : Alike test test' f.data) :
    evalChecks b test frame s p f = evalChecks b test' frame' s' p f := by
  induction p generalizing f with
  | nil => rfl
  | cons c p ih =>
    rw [evalChecks, evalChecks, ← evalCheck_alike frames h alike c]
    cases checked : evalCheck b test frame s c f with
    | none => rfl
    | some r =>
      simp only [Report.bind, Option.bind_some, h.left, h.right]
      cases went : goOn .allow r.value.1 r.value.2 with
      | none => rfl
      | some g =>
        have data : g.data = f.data := (goOn_keeps went).data.trans (evalCheck_keeps checked).data
        dsimp only
        rw [ih (data ▸ alike)]

omit [Library] in
theorem evalJobs_alike (programs : ProgramsAlike test test' program program') (h : s.Level s')
    (jobs : List Job) (alike : test = test' ∨ jobs = []) (j : Judgement)
    (patches : List (Segment × Json)) :
    evalJobs program s jobs j patches = evalJobs program' s' jobs j patches := by
  rcases alike with alike | rfl
  · induction jobs generalizing j patches with
    | nil => rfl
    | cons job jobs ih =>
      rw [evalJobs, evalJobs, programs _ (s'.inside job.segment) _ (h.inside _ _) (.inl alike)]
      simp only [h.left, h.right, ih]
  · rfl

omit [Library] in
theorem evalBranches_alike (programs : ProgramsAlike test test' program program') (h : s.Level s')
    (alike : Alike test test' d) (expected : String) (ps : List Program) :
    evalBranches program s d expected ps = evalBranches program' s' d expected ps := by
  induction ps with
  | nil =>
    simp only [evalBranches, report]
    rw [reportAt_allow h.left, reportAt_allow h.right]
    rfl
  | cons p ps ih =>
    rw [evalBranches, evalBranches, programs s s' (frameOf p d false) h alike, ih]

theorem evalFrame_alike (programs : ProgramsAlike test test' program program') :
    FramesAlike test test' (evalFrame b program) (evalFrame b program') := by
  intro s s' child h alike
  have steps (steps : List Step) (d : Json) (v : Verdict) :
      evalSteps b s steps d v = evalSteps b s' steps d v := by
    simp only [evalSteps, h.left, h.right]
  cases child with
  | program f => rw [evalFrame, evalFrame, programs s s' f h alike]
  | children f => exact evalJobs_alike programs h f.jobs alike f.judgement f.patches
  | branches f => exact evalBranches_alike programs h alike f.expected f.programs
  | target p d =>
    cases p with
    | none => rfl
    | some p => rw [evalFrame, evalFrame, programs s s' (frameOf p d false) h alike]
  | morph p taken d =>
    cases p with
    | none => rfl
    | some p =>
      rw [evalFrame, evalFrame, programs s s' (frameOf p d false) h alike]
      simp only [steps]

/-- To allow a value comes to the same whatever the path to it is, and to allow a text also
whatever the test of names is. -/
theorem evaluate_alike (b : Bindings) (test test' : Program → String → Option KeyTest)
    (n : Nat) : ProgramsAlike test test' (evaluate b test n) (evaluate b test' n) := by
  induction n with
  | zero => exact fun _ _ _ _ _ => rfl
  | succ n ih =>
    intro s s' f h alike
    rw [evaluate, evaluate, evalChecks_alike (evalFrame_alike ih) h f.rest alike]

end

variable {b : Bindings} {cap : Option Nat} {p : Program} {name : String}

variable [Library]

/-- Whether a name satisfies a key is found out by evaluating the key on it without tests. -/
theorem evaluate_of_limitTest {answer : KeyTest}
    (h : limitTest b cap p name = some answer) : ∃ n r,
    evaluate b (fun _ _ => none) n (.root .allow cap) (frameOf p (.string name) false) = some r ∧
      answer.passes = isPassed r.value := by
  obtain ⟨patience, tested⟩ := exists_testKey h
  obtain ⟨u, ran, rfl⟩ := Option.map_eq_some_iff.mp tested
  rw [runText, finished_eq_some, iterate_eq fun _ => step_of_isFinished] at ran
  obtain ⟨ended, finished⟩ := ran
  have follows := follows_run b (fun _ _ => none) (2 ^ patience) .allow cap p (.string name)
  cases evaluated : evaluate b (fun _ _ => none) (2 ^ patience) (.root .allow cap)
    (frameOf p (.string name) false) with
  | none =>
    rw [evaluated] at follows
    rw [← ended, follows] at finished
    cases finished
  | some r =>
    rw [evaluated] at follows
    have same := reaches_unique (fun _ => step_of_isFinished) finished rfl ⟨_, ended⟩ follows
    refine ⟨_, r, evaluated, ?_⟩
    rw [same]
    rfl

theorem evaluate_text_of_limitTest {answer : KeyTest}
    (h : limitTest b cap p name = some answer) : ∃ n r,
    evaluate b (limitTest b cap) n (.root .allow cap) (frameOf p (.string name) false) = some r ∧
      answer.passes = isPassed r.value := by
  obtain ⟨n, r, evaluated, passes⟩ := evaluate_of_limitTest h
  refine ⟨n, r, ?_, passes⟩
  rw [← evaluated]
  exact evaluate_alike b _ _ n _ _ _ ⟨rfl, rfl, rfl, rfl⟩ (.inr ⟨name, rfl⟩)

end Traversal

end SchemaAlgebra

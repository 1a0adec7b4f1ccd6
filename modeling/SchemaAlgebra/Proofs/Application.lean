import SchemaAlgebra.Proofs.Modes

/-!
# Applying checks

What applying a check to a value comes to is either a failure or some edits of the output:
the value itself or a child of it is replaced. Checks in order edit one after another.
-/
namespace SchemaAlgebra

/-- One change of the output of a program. -/
inductive Edit where
  | replace (v : Json)
  | child (s : Segment) (v : Json)

namespace Edit

def run (data : Json) : Edit → Json
  | replace v => v
  | child s v => data.replaceChild s v

def runAll (data : Json) (es : List Edit) : Json := es.foldl run data

/-- Edits of a value, seen as one of the value around it. -/
def within (s : Segment) (data : Json) : List Edit → List Edit
  | [] => []
  | e :: es => [child s (runAll data (e :: es))]

/-- Edits made by a program of its own, seen as one. -/
def whole (data : Json) : List Edit → List Edit
  | [] => []
  | e :: es => [replace (runAll data (e :: es))]

/-- The result of a program that edits the value; none if it fails. -/
def verdict (data : Json) : Option (List Edit) → Verdict
  | none => .failed
  | some [] => .unchanged
  | some (e :: es) => .changed (runAll data (e :: es))

/-- Edits one after another, unless one of them fails. -/
def both (o o' : Option (List Edit)) : Option (List Edit) := o.bind fun es => o'.map (es ++ ·)

def together (os : List (Option (List Edit))) : Option (List Edit) := os.foldr both (some [])

def given (passes : Bool) : Option (List Edit) := if passes then some [] else none

theorem given_isSome {passes : Bool} : (given passes).isSome ↔ passes = true := by
  cases passes <;> simp [given]

def underKey (name : String) (required : Bool) (o : Json → Option (List Edit)) (data : Json) :
    Option (List Edit) :=
  match data.get? name with
  | none => if required then none else some []
  | some v => (o v).map (within (.key name) v)

theorem together_cons (o : Option (List Edit)) (os : List (Option (List Edit))) :
    together (o :: os) = both o (together os) := rfl

theorem both_isSome {o o' : Option (List Edit)} : (both o o').isSome ↔
    o.isSome ∧ o'.isSome := by
  cases o <;> cases o' <;> simp [both]

theorem together_isSome {os : List (Option (List Edit))} :
    (together os).isSome ↔ ∀ o ∈ os, o.isSome := by
  induction os with
  | nil => simp [together]
  | cons o os ih =>
    rw [List.forall_mem_cons, ← ih]
    exact both_isSome

end Edit

namespace Traversal

/-- The frame of a program with an edit of the output. -/
def edit (f : ProgramFrame) (e : Edit) : ProgramFrame :=
  { f with output := .changed (e.run (ProgramFrame.current f)) }

def editAll (f : ProgramFrame) (es : List Edit) : ProgramFrame := es.foldl edit f

theorem editAll_append (f : ProgramFrame) (es es' : List Edit) :
    editAll f (es ++ es') = editAll (editAll f es) es' :=
  List.foldl_append

theorem editAll_current (f : ProgramFrame) (es : List Edit) :
    ProgramFrame.current (editAll f es) = Edit.runAll (ProgramFrame.current f) es := by
  induction es generalizing f with
  | nil => rfl
  | cons e es ih => exact ih (edit f e)

theorem editAll_changed (f : ProgramFrame) (v : Json) (h : f.output = .changed v) (es : List Edit) :
    (editAll f es).output = .changed (ProgramFrame.current (editAll f es)) := by
  induction es generalizing f v with
  | nil => simp [editAll, ProgramFrame.current, h]
  | cons e es ih => exact ih (edit f e) _ rfl

theorem editAll_keeps (f : ProgramFrame) (es : List Edit) :
    (editAll f es).data = f.data ∧ (editAll f es).failed = f.failed := by
  induction es generalizing f with
  | nil => exact ⟨rfl, rfl⟩
  | cons e es ih => exact ih (edit f e)

/-- A program whose checks edit the value comes to the edited value. -/
theorem conclude_editAll (p : Program) (d : Json) (nested : Bool) (es : List Edit) :
    conclude (some (editAll (frameOf p d nested) es)) = Edit.verdict d (some es) := by
  have unfailed : (editAll (frameOf p d nested) es).failed = false := (editAll_keeps _ es).2
  rw [conclude, unfailed]
  cases es with
  | nil => rfl
  | cons e es =>
    rw [if_neg Bool.false_ne_true]
    refine (editAll_changed (edit (frameOf p d nested) e) _ rfl es).trans ?_
    rw [editAll_current]
    rfl

/-- To apply the program to the value, where that ends, comes to the edits. -/
def Applies (program : Site → ProgramFrame → Option (Report Verdict)) (p : Program) (d : Json)
    (o : Option (List Edit)) : Prop :=
  ∀ (s : Site) (nested : Bool) (r : Report Verdict),
    program s.applying (frameOf p d nested) = some r → r.value = Edit.verdict d o

variable [Library]

section

variable (b : Bindings) (test : Program → String → Option KeyTest)
  (program : Site → ProgramFrame → Option (Report Verdict))

def CheckApplies (c : Check) (d : Json) (o : Option (List Edit)) : Prop :=
  ∀ (s : Site) (f : ProgramFrame) (r : Report (ProgramFrame × Judgement)), f.data = d →
    evalCheck b test (evalFrame b program) s.applying c f = some r →
      match o with
      | none => r.value.2 ≠ .pass
      | some es => r.value = (editAll f es, .pass)

def ChecksApply (p : Program) (d : Json) (o : Option (List Edit)) : Prop :=
  ∀ (s : Site) (f : ProgramFrame) (r : Report (Option ProgramFrame)), f.data = d →
    evalChecks b test (evalFrame b program) s.applying p f = some r →
      match o with
      | none => ∀ g, r.value = some g → g.failed = true
      | some es => r.value = some (editAll f es)

end

section

variable {b : Bindings} {test : Program → String → Option KeyTest}
  {program : Site → ProgramFrame → Option (Report Verdict)} {d : Json}

omit [Library] in
theorem goOn_failed {f g : ProgramFrame} {j : Judgement} (h : goOn .apply f j = some g)
    (failed : f.failed = true) : g.failed = true := by
  cases j with
  | pass =>
    cases h
    exact failed
  | fail =>
    cases h
    rfl
  | abort => cases h

theorem evalChecks_failed {frame : Site → Frame → Option (Report Done)} {s : Site} {p : Program}
    {f g : ProgramFrame} {r : Report (Option ProgramFrame)}
    (h : evalChecks b test frame s.applying p f = some r) (failed : f.failed = true)
    (hg : r.value = some g) : g.failed = true := by
  induction p generalizing f r with
  | nil =>
    cases h
    cases hg
    exact failed
  | cons c p ih =>
    rw [evalChecks, Report.bind_eq_some] at h
    obtain ⟨a, u, checked, others, rfl⟩ := h
    have lasts : a.value.1.failed = true := (evalCheck_keeps checked).failed.trans failed
    dsimp only at others
    cases went : goOn s.applying.mode a.value.1 a.value.2 with
    | none =>
      rw [went] at others
      cases others
      cases hg
    | some f' =>
      rw [went] at others
      exact ih others (goOn_failed went lasts) hg

theorem checksApply_nil : ChecksApply b test program [] d (some []) := by
  intro s f r hf applied
  cases applied
  rfl

theorem checksApply_one {c : Check} {o : Option (List Edit)}
    (h : CheckApplies b test program c d o) : ChecksApply b test program [c] d o := by
  intro s f r hf applied
  rw [evalChecks_one] at applied
  obtain ⟨a, checked, rfl⟩ := Option.map_eq_some_iff.mp applied
  have here := h s f a hf checked
  cases o with
  | none =>
    intro g hg
    have went : goOn .apply a.value.1 a.value.2 = some g := hg
    cases hj : a.value.2 with
    | pass => exact absurd hj here
    | fail =>
      rw [hj] at went
      cases went
      rfl
    | abort =>
      rw [hj] at went
      cases went
  | some es =>
    have here : a.value = (editAll f es, .pass) := here
    simp only [Report.map, here]
    rfl

theorem checksApply_append {p q : Program} {o o' : Option (List Edit)}
    (first : ChecksApply b test program p d o)
    (others : o.isSome → ChecksApply b test program q d o') :
    ChecksApply b test program (p ++ q) d (Edit.both o o') := by
  intro s f r hf applied
  rw [evalChecks_append, Report.bind_eq_some] at applied
  obtain ⟨a, v, here, there, rfl⟩ := applied
  have started := first s f a hf here
  cases o with
  | none =>
    intro g hg
    cases ha : a.value with
    | none =>
      rw [ha] at there
      cases there
      cases hg
    | some f' =>
      rw [ha] at there
      exact evalChecks_failed there (started f' ha) hg
  | some es =>
    have started : a.value = some (editAll f es) := started
    rw [started] at there
    have ended := others rfl s (editAll f es) v ((editAll_keeps f es).1.trans hf) there
    cases o' with
    | none => exact ended
    | some es' =>
      have ended : v.value = some (editAll (editAll f es) es') := ended
      rw [← editAll_append] at ended
      exact ended

theorem ChecksApply.applies {n : Nat} {p : Program} {o : Option (List Edit)}
    (h : ChecksApply b test (evaluate b test n) p d o) :
    Applies (evaluate b test (n + 1)) p d o := by
  intro s nested r applied
  rw [evaluate] at applied
  obtain ⟨a, checked, rfl⟩ := Option.map_eq_some_iff.mp applied
  have ended := h s _ a rfl checked
  cases o with
  | none =>
    simp only [Report.map]
    cases ha : a.value with
    | none => rfl
    | some g =>
      rw [conclude, ended g ha]
      rfl
  | some es =>
    have ended : a.value = some (editAll (frameOf p d nested) es) := ended
    simp only [Report.map, ended]
    exact conclude_editAll p d nested es

theorem checksApply_map {α : Type} {c : α → Check} {o : α → Option (List Edit)} {l : List α}
    (h : ∀ a ∈ l, CheckApplies b test program (c a) d (o a)) :
    ChecksApply b test program (l.map c) d (Edit.together (l.map o)) := by
  induction l with
  | nil => exact checksApply_nil
  | cons a l ih =>
    exact checksApply_append (checksApply_one (h a List.mem_cons_self)) fun _ =>
      ih fun a' ha => h a' (List.mem_cons_of_mem _ ha)

theorem checkApplies_settled {c : Check} {passes : Bool} {otherwise : Judgement}
    (h : ∀ t : Traversal, ∃ u,
      begin? b test t c d = (u, .settled (if passes then .pass else otherwise)))
    (hne : otherwise ≠ .pass) :
    CheckApplies b test program c d (Edit.given passes) := by
  intro s f r hf applied
  obtain ⟨u, begun⟩ := h s.applying.fresh
  rw [evalCheck, hf, begun] at applied
  cases applied
  cases passes with
  | true => rfl
  | false => exact hne

theorem checkApplies_judged {c : Check} {passes : Bool} {otherwise : Judgement}
    (h : ∀ t : Traversal, ∃ code message,
      begin? b test t c d = settle (t.judge passes otherwise code message))
      (hne : otherwise ≠ .pass) :
    CheckApplies b test program c d (Edit.given passes) := by
  refine checkApplies_settled (fun t => ?_) hne
  obtain ⟨code, message, begun⟩ := h t
  exact ⟨(t.judge passes otherwise code message).1, begun.trans (by cases passes <;> rfl)⟩

/-- To run a frame, where that ends, comes to the verdict. -/
def FrameApplies (b : Bindings) (program : Site → ProgramFrame → Option (Report Verdict))
    (child : Frame) (v : Verdict) : Prop :=
  ∀ (s : Site) (r : Report Done), evalFrame b program s.applying child = some r →
    r.value = .value v

theorem Applies.frameApplies {p : Program} {o : Option (List Edit)} (h : Applies program p d o)
    (nested : Bool) : FrameApplies b program (.start p d nested) (Edit.verdict d o) := by
  intro s r applied
  obtain ⟨a, ran, rfl⟩ := Option.map_eq_some_iff.mp applied
  exact congrArg Done.value (h s nested a ran)

theorem checkApplies_whole {c : Check} {child : Frame} {o : Option (List Edit)}
    (h : ∀ s : Site, ∃ t, begin? b test s.applying.fresh c d = (t, .descend child .whole) ∧
      ∃ there : Site, t.site = there.applying)
    (applies : FrameApplies b program child (Edit.verdict d o)) :
    CheckApplies b test program c d (o.map (Edit.whole d)) := by
  intro s f r hf applied
  obtain ⟨t, begun, there, site⟩ := h s
  rw [evalCheck, hf, begun] at applied
  simp only [site] at applied
  obtain ⟨a, ran, rfl⟩ := Option.map_eq_some_iff.mp applied
  have ended := applies there a ran
  simp only [ended]
  cases o with
  | none => simp [Edit.verdict, absorb]
  | some es =>
    cases es with
    | nil => rfl
    | cons e es => rfl

theorem checkApplies_key {name : String} {required : Bool} {p : Program}
    {o : Json → Option (List Edit)}
    (h : ∀ child, d.get? name = some child → Applies program p child (o child)) :
    CheckApplies b test program (.key name required p) d
      (Edit.underKey name required o d) := by
  rw [Edit.underKey]
  cases hc : d.get? name with
  | none =>
    have settles : CheckApplies b test program (.key name required p) d
        (Edit.given !required) :=
      checkApplies_settled (fun t => ⟨(t.judgeMissing name required).1, by
        simp only [begin?, beginKey, hc, judgeMissing]
        cases required <;> rfl⟩) (show Judgement.fail ≠ .pass by simp)
    cases required <;> exact settles
  | some child =>
    intro s f r hf applied
    have begun : begin? b test s.applying.fresh (.key name required p) d =
        ((s.applying.inside (.key name)).fresh, .descend (.start p child true) (.key name)) := by
      simp only [begin?, beginKey, hc]
      rfl
    rw [evalCheck, hf, begun] at applied
    obtain ⟨a, ran, rfl⟩ := Option.map_eq_some_iff.mp applied
    have ended : a.value = .value (Edit.verdict child (o child)) :=
      (h child hc).frameApplies true (s.inside (.key name)) a ran
    simp only [ended]
    cases o child with
    | none => simp [Edit.verdict, absorb]
    | some es =>
      cases es with
      | nil => rfl
      | cons e es => rfl

def patchAll (f : ProgramFrame) (patches : List (Segment × Json)) : ProgramFrame :=
  patches.foldr (fun e f => ProgramFrame.patch f e.1 e.2) f

omit [Library] in
/-- Children that are applied in order edit the value in order, the latest patch first. -/
theorem evalJobs_applies {o : Job → Option (List Edit)} {jobs : List Job}
    (h : ∀ job ∈ jobs, Applies program job.program job.data (o job)) {s : Site} {j : Judgement}
    {patches : List (Segment × Json)} {r : Report Done}
    (applied : evalJobs program s.applying jobs j patches = some r) :
    ∃ j' ps, r.value = .children j' ps ∧
      match Edit.together (jobs.map fun job => (o job).map (Edit.within job.segment job.data)) with
      | none => j' ≠ .pass
      | some es => j' = j ∧ ∀ f, patchAll f ps = editAll (patchAll f patches) es := by
  induction jobs generalizing j patches r with
  | nil =>
    cases applied
    exact ⟨j, patches, rfl, rfl, fun f => rfl⟩
  | cons job jobs ih =>
    rw [evalJobs, Report.bind_eq_some] at applied
    obtain ⟨a, v, first, others, rfl⟩ := applied
    have ended := h job List.mem_cons_self (s.inside job.segment) true a first
    have later {j : Judgement} {patches : List (Segment × Json)} {v : Report Done}
        (others : evalJobs program s.applying jobs j patches = some v) :=
      ih (fun job' hj => h job' (List.mem_cons_of_mem _ hj)) others
    rw [List.map_cons, Edit.together_cons]
    simp only [ended] at others
    cases ho : o job with
    | none =>
      rw [ho] at others
      obtain ⟨j', ps, hv, rest⟩ := later others
      refine ⟨j', ps, hv, ?_⟩
      show j' ≠ .pass
      generalize Edit.together _ = os at rest
      cases os with
      | none => exact rest
      | some es =>
        rw [rest.1]
        simp
    | some es =>
      rw [ho] at others
      cases es with
      | nil =>
        obtain ⟨j', ps, hv, rest⟩ := later others
        refine ⟨j', ps, hv, ?_⟩
        generalize Edit.together _ = os at rest ⊢
        cases os <;> exact rest
      | cons e es =>
        obtain ⟨j', ps, hv, rest⟩ := later others
        refine ⟨j', ps, hv, ?_⟩
        generalize Edit.together _ = os at rest ⊢
        cases os <;> exact rest

theorem checkApplies_jobs {c : Check} {jobs : List Job} {o : Job → Option (List Edit)}
    (h : ∀ s : Site, ∃ t, begin? b test s.applying.fresh c d = beginChildren t jobs ∧
      ∃ there : Site, t.site = there.applying)
    (applies : ∀ job ∈ jobs, Applies program job.program job.data (o job)) :
    CheckApplies b test program c d
      (Edit.together (jobs.map fun job => (o job).map (Edit.within job.segment job.data))) := by
  intro s f r hf applied
  obtain ⟨t, begun, there, site⟩ := h s
  rw [evalCheck, hf, begun] at applied
  rcases jobs with _ | ⟨job, jobs⟩
  · cases applied
    rfl
  · simp only [beginChildren, List.isEmpty_cons, Bool.false_eq_true, if_false, site] at applied
    obtain ⟨a, ran, rfl⟩ := Option.map_eq_some_iff.mp applied
    obtain ⟨j', ps, hv, ended⟩ := evalJobs_applies applies ran
    generalize Edit.together _ = os at ended ⊢
    simp only [hv]
    cases os with
    | none => exact ended
    | some es =>
      obtain ⟨rfl, patched⟩ := ended
      exact congrArg (·, Judgement.pass) (patched f)

theorem checkApplies_passes {c : Check}
    (h : ∀ t : Traversal, begin? b test t c d = (t, .settled .pass)) :
    CheckApplies b test program c d (some []) := by
  intro s f r hf applied
  rw [evalCheck, hf, h] at applied
  cases applied
  rfl

theorem checkApplies_index {key value : Program} {named : List String}
    {entries : List (String × Json)} {jobs : List Job} {asked : List (Home × String)}
    {o : Json → Option (List Edit)}
    (found : indexJobs test key value named entries = some (jobs, asked))
    (h : ∀ child, Applies program value child (o child)) :
    CheckApplies b test program (.index key value named) (.object entries)
      (Edit.together (jobs.map fun job =>
        (o job.data).map (Edit.within job.segment job.data))) := by
  refine checkApplies_jobs (o := fun job => o job.data)
    (fun s => ⟨{ s.applying.fresh with visited := asked ++ [] }, ?_, s, rfl⟩) fun job hj => ?_
  · simp only [begin?, beginIndex, found]
    rfl
  · rw [program_of_mem_indexJobs found hj]
    exact h job.data

theorem checkApplies_elements {items : List Program} {rest : Option Program} {xs : List Json}
    {o : Job → Option (List Edit)}
    (h : ∀ job ∈ elementJobs items rest xs, Applies program job.program job.data (o job)) :
    CheckApplies b test program (.elements items rest) (.array xs)
      (if fitsLength items rest xs then
        Edit.together ((elementJobs items rest xs).map fun job =>
          (o job).map (Edit.within job.segment job.data))
      else none) := by
  cases fits : fitsLength items rest xs with
  | true => exact checkApplies_jobs (fun s => ⟨_, begin_elements fits _, s, rfl⟩) h
  | false => exact checkApplies_judged (begin_elements_abort fits) nofun

omit [Library] in
/-- Branches in order come to the edits of the first one that passes. -/
theorem evalBranches_applies {α : Type} {p : α → Program} {o : α → Option (List Edit)}
    {ms : List α} (h : ∀ a ∈ ms, Applies program (p a) d (o a)) {s : Site} {expected : String}
    {r : Report Done} (applied : evalBranches program s.applying d expected (ms.map p) = some r) :
    r.value = .value (Edit.verdict d (ms.findSome? o)) := by
  induction ms generalizing r with
  | nil =>
    cases applied
    rfl
  | cons a ms ih =>
    rw [List.map_cons, evalBranches, Report.bind_eq_some] at applied
    obtain ⟨x, v, first, others, rfl⟩ := applied
    obtain ⟨x, ran, rfl⟩ := Option.map_eq_some_iff.mp first
    have ended := h a List.mem_cons_self s false x ran
    simp only [ended] at others
    rw [List.findSome?_cons]
    cases ho : o a with
    | none =>
      rw [ho] at others
      exact ih (fun a' ha => h a' (List.mem_cons_of_mem _ ha)) (r := v) others
    | some es =>
      rw [ho] at others
      cases es with
      | nil =>
        cases others
        rfl
      | cons e es =>
        cases others
        rfl

theorem branchesFrame_applies {α : Type} {p : α → Program} {o : α → Option (List Edit)}
    {ms : List α} (h : ∀ a ∈ ms, Applies program (p a) d (o a)) (expected : String) :
    FrameApplies b program (branchesFrame d expected (ms.map p))
      (Edit.verdict d (ms.findSome? o)) := by
  match ms with
  | [] =>
    intro s r applied
    cases applied
    rfl
  | [a] =>
    have only := (h a List.mem_cons_self).frameApplies (b := b) false
    have same : [a].findSome? o = o a := by
      rw [List.findSome?_cons]
      cases o a <;> rfl
    rw [same]
    exact only
  | a :: a' :: ms => exact fun s r applied => evalBranches_applies h applied

/-- A union comes to what the branches come to that a value is led to. -/
theorem checkApplies_union {dispatch : Dispatch} {fallback : List Program} {expected : String}
    {found : Option (List Program)} {o : Option (List Edit)}
    {dest : Destination} (leads : dispatch.Leads d dest) (led : dest.branches? = found)
    (h : ∀ ps, found = some ps →
      FrameApplies b program (branchesFrame d expected ps) (Edit.verdict d o))
    (missing : found = none → o = none ∧
      FrameApplies b program (branchesFrame d expected fallback) .failed) :
    CheckApplies b test program (.union dispatch fallback expected) d (o.map (Edit.whole d)) := by
  have routed := leads.route_eq
  subst led
  cases dest with
  | branches ps =>
    exact checkApplies_whole (fun s => ⟨_, begin_union (routed _ _), s, rfl⟩) (h ps rfl)
  | fallback =>
    obtain ⟨rfl, fails⟩ := missing rfl
    exact checkApplies_whole (o := none) (fun s => ⟨_, begin_union (routed _ _), s, rfl⟩) fails
  | refusal probe expected' =>
    obtain ⟨rfl, -⟩ := missing rfl
    have settles : CheckApplies b test program (.union dispatch fallback expected) d
        (Edit.given false) :=
      checkApplies_settled (fun t => ⟨_, by simp only [begin?, beginUnion, routed]; rfl⟩)
        (show Judgement.fail ≠ .pass from nofun)
    exact settles

/-- The steps of a morph one after another, unless one of them fails. -/
def transformed? (b : Bindings) : List Step → Json → Option Json
  | [], v => some v
  | s :: r, v =>
    match runStep b s v with
    | .ok next => transformed? b r next
    | .error _ => none

theorem runSteps_eq (b : Bindings) (t : Traversal) (v : Json) (steps : List Step) :
    (runSteps b t v steps).2 =
      match transformed? b steps v with
      | some w => .changed w
      | none => .failed := by
  induction steps generalizing t v with
  | nil => rfl
  | cons step steps ih =>
    simp only [runSteps, transformed?]
    cases runStep b step v with
    | ok next => exact ih t next
    | error message => rfl

theorem checkApplies_morph {p : Program} {o : Option (List Edit)} (h : Applies program p d o)
    (steps : List Step) : CheckApplies b test program (.morph p steps) d
      ((o.bind fun es => transformed? b steps (Edit.runAll d es)).map fun w => [.replace w]) := by
  have morphed : FrameApplies b program (.morph (some p) steps d) (Edit.verdict d
      ((o.bind fun es => transformed? b steps (Edit.runAll d es)).map fun w => [.replace w])) := by
    intro s r applied
    rw [evalFrame, Report.bind_eq_some] at applied
    obtain ⟨a, v, first, ended, rfl⟩ := applied
    cases ended
    have input := h s false a first
    simp only [Report.after, input]
    cases o with
    | none => rfl
    | some es =>
      have ran (w : Json) : (evalSteps b s.applying steps d (.changed w)).value =
          .value (Edit.verdict d ((transformed? b steps w).map fun w => [.replace w])) := by
        simp only [evalSteps, Site.applying, Site.inMode]
        rw [runSteps_eq]
        cases transformed? b steps w <;> rfl
      cases es with
      | nil => exact ran d
      | cons e es => exact ran _
  have whole : CheckApplies b test program (.morph p steps) d _ :=
    checkApplies_whole (fun s => ⟨_, rfl, s, rfl⟩) morphed
  rw [Option.map_map] at whole
  exact whole

end

end Traversal

end SchemaAlgebra

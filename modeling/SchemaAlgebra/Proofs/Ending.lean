import Mathlib.Tactic.SplitIfs
import SchemaAlgebra.Proofs.Machine

/-!
# Frames that end

Whether a run ends is a question about its frames. A frame ends if, whatever is below it
and in either mode, it comes off the stack after finitely many steps with some result. A
program ends if the frames that its checks descend into do.
-/
namespace SchemaAlgebra.Traversal

/-- The next step lets the top frame of the stack go on; nothing limits following aliases. -/
def Ready (t : Traversal) (stack : List Frame) : Prop :=
  t.stack = stack ∧ t.done = none ∧ t.maxDepth = none

/-- The frame that was above the stack has finished. -/
def Over (t : Traversal) (stack : List Frame) : Prop :=
  t.stack = stack ∧ t.done.isSome ∧ t.maxDepth = none

variable [Library]

section

variable (b : Bindings) (test : Program → String → Option KeyTest)

/-- A frame on top of the stack ends with some result. -/
def Ends (frame : Frame) : Prop :=
  ∀ (t : Traversal) (rest : List Frame), t.Ready (frame :: rest) →
    ∃ u, Reaches (step b test) t u ∧ u.Over rest

/-- Checks at the front of a program let it go on behind them, or end it. -/
def Passes (p : Program) (d : Json) : Prop :=
  ∀ (t : Traversal) (f : ProgramFrame) (r : Program) (rest : List Frame),
    f.rest = p ++ r → f.data = d → t.Ready (.program f :: rest) →
      ∃ u, Reaches (step b test) t u ∧
        (u.Over rest ∨ ∃ g : ProgramFrame, g.rest = r ∧ g.data = d ∧
          u.Ready (.program g :: rest))

end

variable {b : Bindings} {test : Program → String → Option KeyTest}

theorem Ends.after {frame : Frame} (h : Ends b test frame) {t u : Traversal} {rest : List Frame}
    (reached : Reaches (step b test) t u) (ready : u.Ready (frame :: rest)) :
    ∃ v, Reaches (step b test) t v ∧ v.Over rest := by
  obtain ⟨v, reached', ended⟩ := h u rest ready
  exact ⟨v, reached.trans reached', ended⟩

theorem passes_nil (d : Json) : Passes b test [] d :=
  fun t f _ _ hr hd ready => ⟨t, .refl _ _, Or.inr ⟨f, hr, hd, ready⟩⟩

theorem passes_append {p q : Program} {d : Json} (first : Passes b test p d)
    (others : Passes b test q d) : Passes b test (p ++ q) d := by
  intro t f r rest hr hd ready
  rw [List.append_assoc] at hr
  obtain ⟨u, reached, ended | ⟨g, hg, hgd, ready'⟩⟩ := first t f (q ++ r) rest hr hd ready
  · exact ⟨u, reached, Or.inl ended⟩
  · obtain ⟨v, reached', outcome⟩ := others u g r rest hg hgd ready'
    exact ⟨v, reached.trans reached', outcome⟩

theorem passes_cons {c : Check} {q : Program} {d : Json} (first : Passes b test [c] d)
    (others : Passes b test q d) : Passes b test (c :: q) d :=
  passes_append first others

theorem Passes.ends {p : Program} {d : Json} (h : Passes b test p d) {f : ProgramFrame}
    (hr : f.rest = p) (hd : f.data = d) : Ends b test (.program f) := by
  intro t rest ready
  obtain ⟨u, reached, ended | ⟨g, hg, -, stack, done, unlimited⟩⟩ :=
    h t f [] rest (hr.trans (List.append_nil p).symm) hd ready
  · exact ⟨u, reached, ended⟩
  · refine ⟨step b test u, reached.trans (.one rfl), ?_⟩
    simp only [step, stack, done, advance, advanceProgram, hg]
    exact ⟨rfl, rfl, unlimited⟩

theorem Passes.ends_start {p : Program} {d : Json} (h : Passes b test p d) (nested : Bool) :
    Ends b test (.start p d nested) :=
  h.ends rfl rfl

omit [Library] in
theorem foldJudgement_outcome {t : Traversal} (f : ProgramFrame) (rest : List Frame) (j : Judgement)
    (done : t.done = none) (unlimited : t.maxDepth = none) :
    (t.foldJudgement f rest j).Over rest ∨ ∃ g : ProgramFrame, g.rest = f.rest ∧
      g.data = f.data ∧ (t.foldJudgement f rest j).Ready (.program g :: rest) := by
  cases j with
  | pass => exact Or.inr ⟨f, rfl, rfl, rfl, done, unlimited⟩
  | fail =>
    cases hm : t.mode with
    | allow =>
      simp only [foldJudgement, hm]
      exact Or.inl ⟨rfl, rfl, unlimited⟩
    | apply =>
      simp only [foldJudgement, hm]
      exact Or.inr ⟨{ f with failed := true }, rfl, rfl, rfl, done, unlimited⟩
  | abort => exact Or.inl ⟨rfl, rfl, unlimited⟩

def Quiet (t u : Traversal) : Prop := u.done = t.done ∧ u.maxDepth = t.maxDepth

omit [Library] in
theorem Quiet.refl (t : Traversal) : Quiet t t := ⟨rfl, rfl⟩

/-- A check settles, or descends into a frame that ends. -/
def Begins (b : Bindings) (test : Program → String → Option KeyTest) (t : Traversal) :
    Traversal × Begin → Prop
  | (u, .settled _) => Quiet t u
  | (u, .descend child _) => Quiet t u ∧ Ends b test child
  | (_, .waiting) => False

omit [Library] in
theorem absorb_frame (f : ProgramFrame) (pending : Pending) (result : Done) :
    (absorb f pending result).1.rest = f.rest ∧ (absorb f pending result).1.data = f.data := by
  have patched (patches : List (Segment × Json)) :
      (patches.foldr (fun e f => ProgramFrame.patch f e.1 e.2) f).rest = f.rest ∧
        (patches.foldr (fun e f => ProgramFrame.patch f e.1 e.2) f).data = f.data := by
    induction patches with
    | nil => exact ⟨rfl, rfl⟩
    | cons e patches ih => exact ih
  unfold absorb
  split <;> first | exact ⟨rfl, rfl⟩ | exact patched _

theorem passes_of_begins {c : Check} {d : Json}
    (h : ∀ t : Traversal, t.maxDepth = none → Begins b test t (begin? b test t c d)) :
    Passes b test [c] d := by
  intro t f r rest hr hd ready
  obtain ⟨stack, done, unlimited⟩ := ready
  have begins := h t unlimited
  cases begun : begin? b test t c d with
  | mk u o =>
  rw [begun] at begins
  cases o with
  | settled j =>
    have next : step b test t = u.foldJudgement { f with rest := r } rest j := by
      simp only [step, stack, done, advance, advanceProgram, hr, hd, List.cons_append,
        List.nil_append, begun]
    refine ⟨_, .one next, ?_⟩
    have outcome := foldJudgement_outcome { f with rest := r } rest j (begins.1.trans done)
      (begins.2.trans unlimited)
    exact outcome.imp id (Exists.imp fun g => And.imp_right (And.imp_left (·.trans hd)))
  | descend child pending =>
    have next : step b test t =
        u.push child (.program { f with rest := r, pending := pending }) rest := by
      simp only [step, stack, done, advance, advanceProgram, hr, hd, List.cons_append,
        List.nil_append, begun]
    obtain ⟨⟨quiet, quiet'⟩, ends⟩ := begins
    obtain ⟨v, reached, stack', some_done, unlimited'⟩ :=
      ends (u.push child (.program { f with rest := r, pending := pending }) rest) _
        ⟨rfl, quiet.trans done, quiet'.trans unlimited⟩
    obtain ⟨result, hresult⟩ := Option.isSome_iff_exists.mp some_done
    refine ⟨step b test v, (Reaches.step next reached).trans (.one rfl), ?_⟩
    simp only [step, stack', hresult, resume, resumeProgram]
    obtain ⟨same_rest, same_data⟩ :=
      absorb_frame { f with rest := r, pending := .nothing } pending result
    have outcome := foldJudgement_outcome (t := { v with done := none })
      (absorb { f with rest := r, pending := .nothing } pending result).1 rest
      (absorb { f with rest := r, pending := .nothing } pending result).2 rfl unlimited'
    exact outcome.imp id (Exists.imp fun g =>
      And.imp (·.trans same_rest) (And.imp_left (·.trans (same_data.trans hd))))
  | waiting => exact absurd begins id

omit [Library] in
theorem reportAt_quiet (t : Traversal) (keys : List String) (code : Problem.Code)
    (message : String) : Quiet t (t.reportAt keys code message) := by
  unfold reportAt
  cases t.mode <;> exact ⟨rfl, rfl⟩

omit [Library] in
theorem judge_quiet (t : Traversal) (passes : Bool) (otherwise : Judgement) (code : Problem.Code)
    (message : String) : Quiet t (t.judge passes otherwise code message).1 := by
  cases passes with
  | true => exact .refl t
  | false => exact reportAt_quiet t [] code message

theorem passes_of_judge {c : Check} {d : Json}
    (h : ∀ t : Traversal, ∃ passes otherwise code message,
      begin? b test t c d = settle (t.judge passes otherwise code message)) :
    Passes b test [c] d := by
  refine passes_of_begins fun t _ => ?_
  obtain ⟨passes, otherwise, code, message, begun⟩ := h t
  rw [begun]
  exact judge_quiet t passes otherwise code message

theorem reaches_waiting {p : Program} {d : Json} (h : Passes b test p d) {t u : Traversal}
    {nested : Bool} {waiting : Frame} {rest : List Frame} (next : step b test t = u)
    (ready : u.Ready (.start p d nested :: waiting :: rest)) :
    ∃ (v : Traversal) (result : Done), Reaches (step b test) t
      (resume b { v with done := none } rest result waiting) ∧ v.maxDepth = none := by
  obtain ⟨v, reached, stack, some_done, unlimited⟩ := h.ends_start nested u _ ready
  obtain ⟨result, hresult⟩ := Option.isSome_iff_exists.mp some_done
  refine ⟨v, result, (Reaches.step next reached).trans (.one ?_), unlimited⟩
  simp only [step, stack, hresult]

theorem ends_branches {f : BranchesFrame} (h : ∀ p ∈ f.programs, Passes b test p f.data) :
    Ends b test (.branches f) := by
  obtain ⟨programs, d, saved, expected⟩ := f
  induction programs generalizing saved with
  | nil =>
    rintro t rest ⟨stack, done, unlimited⟩
    refine ⟨step b test t, .one rfl, ?_⟩
    simp only [step, stack, done, advance, advanceBranches]
    exact ⟨rfl, rfl, (reportAt_quiet t [] _ _).2.trans unlimited⟩
  | cons p programs ih =>
    rintro t rest ⟨stack, done, unlimited⟩
    rw [List.forall_mem_cons] at h
    have next : step b test t = { t with problems := [] }.push (.start p d false)
        (.branches ⟨programs, d, some t.problems, expected⟩) rest := by
      simp only [step, stack, done, advance, advanceBranches]
    obtain ⟨v, result, reached, unlimited'⟩ :=
      reaches_waiting h.1 next ⟨rfl, done, unlimited⟩
    cases hv : result.verdict with
    | failed =>
      simp only [resume, resumeBranches, hv] at reached
      exact (ih none h.2).after reached ⟨rfl, rfl, unlimited'⟩
    | unchanged =>
      simp only [resume, resumeBranches, hv] at reached
      exact ⟨_, reached, rfl, rfl, unlimited'⟩
    | changed w =>
      simp only [resume, resumeBranches, hv] at reached
      exact ⟨_, reached, rfl, rfl, unlimited'⟩

theorem ends_children {f : ChildrenFrame}
    (h : ∀ job ∈ f.jobs, Passes b test job.program job.data) : Ends b test (.children f) := by
  obtain ⟨jobs, current, judgement, patches⟩ := f
  induction jobs generalizing current judgement patches with
  | nil =>
    rintro t rest ⟨stack, done, unlimited⟩
    refine ⟨step b test t, .one rfl, ?_⟩
    simp only [step, stack, done, advance, advanceChildren]
    exact ⟨rfl, rfl, unlimited⟩
  | cons job jobs ih =>
    rintro t rest ⟨stack, done, unlimited⟩
    rw [List.forall_mem_cons] at h
    have next : step b test t = { t with path := job.segment :: t.path }.push
        (.start job.program job.data true)
        (.children ⟨jobs, some job.segment, judgement, patches⟩) rest := by
      simp only [step, stack, done, advance, advanceChildren]
    obtain ⟨v, result, reached, unlimited'⟩ :=
      reaches_waiting h.1 next ⟨rfl, done, unlimited⟩
    cases hv : result.verdict with
    | failed =>
      cases hm : v.mode with
      | allow =>
        simp only [resume, resumeChildren, hv, hm] at reached
        exact ⟨_, reached, rfl, rfl, unlimited'⟩
      | apply =>
        simp only [resume, resumeChildren, hv, hm] at reached
        exact (ih none .fail patches h.2).after reached ⟨rfl, rfl, unlimited'⟩
    | unchanged =>
      simp only [resume, resumeChildren, hv] at reached
      exact (ih none judgement patches h.2).after reached ⟨rfl, rfl, unlimited'⟩
    | changed w =>
      simp only [resume, resumeChildren, hv] at reached
      exact (ih none judgement _ h.2).after reached ⟨rfl, rfl, unlimited'⟩

theorem ends_target {p : Program} {d : Json} (h : Passes b test p d) :
    Ends b test (.target (some p) d) := by
  rintro t rest ⟨stack, done, unlimited⟩
  have next : step b test t = t.push (.start p d false) (.target none d) rest := by
    simp only [step, stack, done, advance, advanceOnce]
  obtain ⟨v, result, reached, unlimited'⟩ := reaches_waiting h next ⟨rfl, done, unlimited⟩
  exact ⟨_, reached, rfl, rfl, unlimited'⟩

theorem runSteps_unlimited (t : Traversal) (v : Json) (steps : List Step) :
    (runSteps b t v steps).1.maxDepth = t.maxDepth := by
  induction steps generalizing v with
  | nil => rfl
  | cons s r ih =>
    rw [runSteps]
    split
    · exact ih _
    · exact (reportAt_quiet t [] _ _).2

theorem ends_morph {p : Program} {d : Json} (steps : List Step) (h : Passes b test p d) :
    Ends b test (.morph (some p) steps d) := by
  rintro t rest ⟨stack, done, unlimited⟩
  have next : step b test t = t.push (.start p d false) (.morph none steps d) rest := by
    simp only [step, stack, done, advance, advanceOnce]
  obtain ⟨v, result, reached, unlimited'⟩ := reaches_waiting h next ⟨rfl, done, unlimited⟩
  refine ⟨_, reached, ?_⟩
  simp only [resume, resumeMorph]
  split
  · exact ⟨rfl, rfl, (runSteps_unlimited _ _ _).trans unlimited'⟩
  · exact ⟨rfl, rfl, (runSteps_unlimited _ _ _).trans unlimited'⟩
  · exact ⟨rfl, rfl, unlimited'⟩

theorem begins_children {t u : Traversal} (quiet : Quiet t u) {jobs : List Job}
    (h : ∀ job ∈ jobs, Passes b test job.program job.data) :
    Begins b test t (u.beginChildren jobs) := by
  unfold beginChildren
  split_ifs
  · exact quiet
  · exact ⟨quiet, ends_children h⟩

theorem passes_key {name : String} {required : Bool} {p : Program} {d : Json}
    (h : ∀ child, d.get? name = some child → Passes b test p child) :
    Passes b test [.key name required p] d := by
  refine passes_of_begins fun t _ => ?_
  simp only [begin?, beginKey]
  cases hc : d.get? name with
  | some child => exact ⟨.refl _, (h child hc).ends_start true⟩
  | none =>
    cases required with
    | true => exact reportAt_quiet t [name] _ _
    | false => exact .refl t

theorem passes_elements {items : List Program} {rest : Option Program} {d : Json}
    (h : ∀ xs, d = .array xs → ∀ job ∈ elementJobs items rest xs,
      Passes b test job.program job.data) : Passes b test [.elements items rest] d := by
  refine passes_of_begins fun t _ => ?_
  cases d with
  | array xs =>
    simp only [begin?, beginElements]
    have quiet : Quiet t (t.judgeLength items.length rest.isSome xs).1 := judge_quiet t _ _ _ _
    cases hj : t.judgeLength items.length rest.isSome xs with
    | mk u j =>
      rw [hj] at quiet
      cases j with
      | pass => exact begins_children quiet (h xs rfl)
      | fail => exact quiet
      | abort => exact quiet
  | _ => exact .refl t

theorem passes_index {key value : Program} {named : List String} {d : Json}
    (h : ∀ entries, d = .object entries →
      ∃ found, indexJobs test key value named entries = some found ∧
      ∀ job ∈ found.1, Passes b test job.program job.data) :
    Passes b test [.index key value named] d := by
  refine passes_of_begins fun t _ => ?_
  cases d with
  | object entries =>
    obtain ⟨⟨jobs, visited⟩, found, hjobs⟩ := h entries rfl
    simp only [begin?, beginIndex, found]
    exact begins_children ⟨rfl, rfl⟩ hjobs
  | _ => exact .refl t

theorem passes_morph {p : Program} {d : Json} (steps : List Step) (h : Passes b test p d) :
    Passes b test [.morph p steps] d :=
  passes_of_begins fun t _ => ⟨.refl t, ends_morph steps h⟩

theorem passes_union {dispatch : Dispatch} {fallback : List Program} {expected : String} {d : Json}
    (h : ∀ t : Traversal, Quiet t (t.route fallback d dispatch).1 ∧
      ∀ ps, (t.route fallback d dispatch).2 = some ps → ∀ p ∈ ps, Passes b test p d) :
    Passes b test [.union dispatch fallback expected] d := by
  refine passes_of_begins fun t _ => ?_
  obtain ⟨quiet, routed⟩ := h t
  simp only [begin?, beginUnion]
  cases hr : t.route fallback d dispatch with
  | mk u o =>
    rw [hr] at quiet routed
    rcases o with _ | _ | ⟨p, _ | ⟨q, ps⟩⟩
    · exact quiet
    · exact ⟨quiet, ends_branches (routed _ rfl)⟩
    · exact ⟨quiet, (routed _ rfl p List.mem_cons_self).ends_start false⟩
    · exact ⟨quiet, ends_branches (routed _ rfl)⟩

theorem passes_deferred {name : String} {home : Home} {d : Json}
    (h : ∀ n, b.node? home name = some n → Passes b test n.compile d) :
    Passes b test [.deferred name home] d := by
  refine passes_of_begins fun t unlimited => ?_
  simp only [begin?, beginDeferred, unlimited, follow]
  cases hn : b.node? home name with
  | none => exact reportAt_quiet t [] _ _
  | some n => exact ⟨⟨rfl, unlimited.symm⟩, ends_target (h n hn)⟩

end SchemaAlgebra.Traversal

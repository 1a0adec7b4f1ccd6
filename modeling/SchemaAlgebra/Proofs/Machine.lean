import Mathlib.Logic.Function.Iterate
import SchemaAlgebra.Traversal.Run

/-!
# Whole runs of programs

A run only to allow a value leaves no trace: a program takes its frame off the stack and
leaves a verdict, and everything else is as it was. The verdicts of single checks and of
frames are put together to the verdict of a program.
-/
namespace SchemaAlgebra.Traversal

/-- Some number of steps leads from one state to the other. -/
def Reaches (next : Traversal → Traversal) (t u : Traversal) : Prop := ∃ k, next^[k] t = u

namespace Reaches

variable {next : Traversal → Traversal} {t u v : Traversal}

theorem refl (next : Traversal → Traversal) (t : Traversal) : Reaches next t t := ⟨0, rfl⟩

theorem trans (h : Reaches next t u) (h' : Reaches next u v) : Reaches next t v := by
  obtain ⟨k, rfl⟩ := h
  obtain ⟨l, rfl⟩ := h'
  exact ⟨l + k, Function.iterate_add_apply next l k t⟩

theorem one (h : next t = u) : Reaches next t u := ⟨1, h⟩

theorem step (h : next t = u) (h' : Reaches next u v) : Reaches next t v := (one h).trans h'

end Reaches

def verdictOf (passes : Bool) : Verdict := if passes then .unchanged else .failed

/-- The frame of a program that has not changed its data. -/
def frameOf (p : Program) (d : Json) (nested : Bool) : ProgramFrame :=
  ⟨p, d, .unchanged, false, .nothing, nested⟩

variable [Library]

section

variable (b : Bindings) (test : Program → String → Option KeyTest)

/-- A program on top of the stack ends with the verdict. -/
def Decides (p : Program) (d : Json) (v : Bool) : Prop :=
  ∀ (t : Traversal) (nested : Bool) (rest : List Frame), t.mode = .allow → t.done = none →
    Reaches (step b test) { t with stack := .program (frameOf p d nested) :: rest }
      (t.finishProgram (frameOf p d nested) rest (verdictOf v))

/-- Checks at the front of a program let it go on behind them, or end it with a failure. -/
def Judges (p : Program) (d : Json) (v : Bool) : Prop :=
  ∀ (t : Traversal) (nested : Bool) (r : Program) (rest : List Frame), t.mode = .allow →
    t.done = none →
    Reaches (step b test) { t with stack := .program (frameOf (p ++ r) d nested) :: rest }
      (if v then { t with stack := .program (frameOf r d nested) :: rest }
        else t.finishProgram (frameOf r d nested) rest .failed)

/-- A frame on top of the stack ends with the result. -/
def Returns (frame : Frame) (result : Done) : Prop :=
  ∀ (t : Traversal) (rest : List Frame), t.mode = .allow → t.done = none →
    Reaches (step b test) { t with stack := frame :: rest }
      { t with stack := rest, done := some result }

end

variable {b : Bindings} {test : Program → String → Option KeyTest}

theorem judges_nil (d : Json) : Judges b test [] d true :=
  fun _ _ _ _ _ _ => Reaches.refl _ _

theorem judges_append {p q : Program} {d : Json} {v w : Bool} (first : Judges b test p d v)
    (others : v = true → Judges b test q d w) : Judges b test (p ++ q) d (v && w) := by
  intro t nested r rest ha hd
  have here := first t nested (q ++ r) rest ha hd
  rw [← List.append_assoc] at here
  cases v with
  | false => exact here
  | true => exact here.trans (others rfl t nested r rest ha hd)

theorem judges_cons {c : Check} {q : Program} {d : Json} {v w : Bool}
    (first : Judges b test [c] d v) (others : v = true → Judges b test q d w) :
    Judges b test (c :: q) d (v && w) :=
  judges_append first others

/-- A program that is nothing but checks ends with their verdict. -/
theorem Judges.decides {p : Program} {d : Json} {v : Bool} (h : Judges b test p d v) :
    Decides b test p d v := by
  intro t nested rest ha hd
  have here := h t nested [] rest ha hd
  rw [List.append_nil] at here
  cases v with
  | false => exact here
  | true =>
    refine here.trans (Reaches.one ?_)
    simp only [step, hd]
    rfl

theorem Decides.returns {p : Program} {d : Json} {v : Bool} (h : Decides b test p d v) :
    Returns b test (.start p d false) (.value (verdictOf v)) :=
  fun t rest ha hd => h t false rest ha hd

theorem judges_of_settled {c : Check} {d : Json} {v : Bool}
    (h : ∀ t : Traversal, t.mode = .allow →
      ∃ j, begin? b test t c d = (t, .settled j) ∧ (j = .pass ↔ v = true)) :
    Judges b test [c] d v := by
  intro t nested r rest ha hd
  obtain ⟨j, begun, passes⟩ :=
    h { t with stack := .program (frameOf ([c] ++ r) d nested) :: rest } ha
  apply Reaches.one
  simp only [step, hd, advance, advanceProgram, frameOf, List.cons_append,
    List.nil_append] at begun ⊢
  simp only [begun]
  cases v with
  | true =>
    rw [passes.mpr rfl]
    simp [foldJudgement, resumeWith]
  | false =>
    cases j with
    | pass => exact absurd (passes.mp rfl) (by simp)
    | fail => simp [foldJudgement, ha, finishProgram, finish]
    | abort => simp [foldJudgement, finishProgram, finish]

omit [Library] in
theorem judge_allow {t : Traversal} (ha : t.mode = .allow) (passes : Bool) (otherwise : Judgement)
    (code : Problem.Code) (message : String) :
    t.judge passes otherwise code message = (t, if passes then .pass else otherwise) := by
  cases passes <;> simp [judge, report, reportAt, ha]

theorem judges_of_judge {c : Check} {d : Json} {v : Bool} (otherwise : Judgement)
    (hne : otherwise ≠ .pass)
    (h : ∀ t : Traversal, ∃ code message,
      begin? b test t c d = settle (t.judge v otherwise code message)) :
    Judges b test [c] d v := by
  apply judges_of_settled
  intro t ha
  obtain ⟨code, message, begun⟩ := h t
  refine ⟨if v then .pass else otherwise, ?_, ?_⟩
  · rw [begun, judge_allow ha]
    rfl
  · cases v <;> simp [hne]

theorem judges_domain (dm : Domain) (d : Json) : Judges b test [.domain dm] d (Domain.of d == dm) :=
  judges_of_judge .abort (by simp) fun _ => ⟨_, _, rfl⟩

theorem judges_literal (l : Literal) (d : Json) : Judges b test [.literal l] d (l.isMatch d) :=
  judges_of_judge .abort (by simp) fun _ => ⟨_, _, rfl⟩

theorem judges_basis (c : Basis) (d : Json) : Judges b test [.basis c] d (c.allows d) :=
  judges_of_judge .abort (by simp) fun _ => ⟨_, _, rfl⟩

theorem judges_range (r : Range) (dimension : Dimension) (d : Json) :
    Judges b test [.range r dimension] d (((measure? dimension d).map r.allows).getD false) :=
  judges_of_judge .fail (by simp) fun _ => ⟨_, _, rfl⟩

theorem judges_divisor (n : Nat) (d : Json) : Judges b test [.divisor n] d (d.isMultipleOf n) :=
  judges_of_judge .fail (by simp) fun _ => ⟨_, _, rfl⟩

theorem judges_patterns (ps : List Pattern) (d : Json) :
    Judges b test [.patterns ps] d (d.matchesAll ps) :=
  judges_of_judge .fail (by simp) fun _ => ⟨_, _, rfl⟩

theorem judges_never (d : Json) : Judges b test [.never] d false :=
  judges_of_judge .abort (by simp) fun _ => ⟨_, _, rfl⟩

theorem judges_missing {name : String} {d : Json} (hmissing : d.get? name = none) (required : Bool)
    (p : Program) : Judges b test [.key name required p] d (!required) := by
  apply judges_of_settled
  intro t ha
  cases required with
  | true =>
    exact ⟨.fail, by simp [begin?, beginKey, hmissing, judgeMissing, reportAt, ha], by simp⟩
  | false => exact ⟨.pass, by simp [begin?, beginKey, hmissing, judgeMissing], by simp⟩

/-- A program whose check descended goes on if nothing came back changed. -/
theorem resume_pass {t : Traversal} {f : ProgramFrame} {rest : List Frame} {result : Done}
    (hd : t.done = none)
    (absorbed : absorb { f with pending := .nothing } f.pending result =
      ({ f with pending := .nothing }, .pass)) :
    step b test { t with stack := .program f :: rest, done := some result } =
      { t with stack := .program { f with pending := .nothing } :: rest } := by
  simp only [step, resume, resumeProgram, absorbed]
  simp [foldJudgement, resumeWith, hd]

theorem resume_fail {t : Traversal} {f : ProgramFrame} {rest : List Frame} {result : Done}
    (ha : t.mode = .allow)
    (absorbed : absorb { f with pending := .nothing } f.pending result =
      ({ f with pending := .nothing }, .fail)) :
    step b test { t with stack := .program f :: rest, done := some result } =
      t.finishProgram { f with pending := .nothing } rest .failed := by
  simp only [step, resume, resumeProgram, absorbed]
  simp [foldJudgement, finishProgram, finish, ha]

/-- A check of the whole value by another frame takes over its verdict. -/
theorem judges_of_descend {c : Check} {d : Json} {v : Bool} {child : Frame}
    (h : ∀ t : Traversal, t.mode = .allow → begin? b test t c d = (t, .descend child .whole))
    (returns : Returns b test child (.value (verdictOf v))) : Judges b test [c] d v := by
  intro t nested r rest ha hd
  have begun := h { t with stack := .program (frameOf ([c] ++ r) d nested) :: rest } ha
  refine Reaches.step ?_ ((returns t
    (.program { frameOf r d nested with pending := .whole } :: rest) ha hd).trans (Reaches.one ?_))
  · simp only [step, hd, advance, advanceProgram, frameOf, List.cons_append,
      List.nil_append] at begun ⊢
    simp only [begun, push]
  · cases v with
    | true => exact resume_pass hd rfl
    | false => exact resume_fail ha rfl

theorem judges_key {name : String} {d child : Json} (hchild : d.get? name = some child)
    (required : Bool) {p : Program} {v : Bool} (decides : Decides b test p child v) :
    Judges b test [.key name required p] d v := by
  intro t nested r rest ha hd
  refine Reaches.step ?_ ((decides { t with path := .key name :: t.path } true
    (.program { frameOf r d nested with pending := .key name } :: rest) ha hd).trans
      (Reaches.one ?_))
  · simp [step, hd, advance, advanceProgram, frameOf, begin?, beginKey, hchild, push, Frame.start]
  · cases v with
    | true => exact resume_pass hd rfl
    | false => exact resume_fail ha rfl

theorem judges_morph {p : Program} {d : Json} {v : Bool} (decides : Decides b test p d v)
    (steps : List Step) : Judges b test [.morph p steps] d v := by
  refine judges_of_descend (fun _ _ => rfl) fun t rest ha hd => ?_
  refine Reaches.step ?_ ((decides.returns t (.morph none steps d :: rest) ha hd).trans
    (Reaches.one ?_))
  · simp only [step, hd]
    rfl
  · simp [step, resume, resumeMorph, ha, finish, Done.verdict]

theorem returns_branches {d : Json} (expected : String) {ps : List (Program × Bool)}
    (decides : ∀ p ∈ ps, Decides b test p.1 d p.2) :
    Returns b test (.branches ⟨ps.map (·.1), d, none, expected⟩)
      (.value (verdictOf (ps.any (·.2)))) := by
  induction ps with
  | nil =>
    intro t rest ha hd
    apply Reaches.one
    simp [step, hd, advance, advanceBranches, report, reportAt, ha, finish, verdictOf]
  | cons p ps ih =>
    intro t rest ha hd
    obtain ⟨p, v⟩ := p
    have first := (decides (p, v) List.mem_cons_self).returns { t with problems := [] }
      (.branches ⟨ps.map (·.1), d, some t.problems, expected⟩ :: rest) ha hd
    refine Reaches.step ?_ (first.trans ?_)
    · simp only [step, hd]
      rfl
    · cases v with
      | true =>
        apply Reaches.one
        simp [step, resume, resumeBranches, verdictOf, Done.verdict, finish]
      | false =>
        have others := ih (fun q hq => decides q (List.mem_cons_of_mem _ hq)) t rest ha hd
        refine Reaches.step ?_ others
        simp [step, resume, resumeBranches, verdictOf, Done.verdict, resumeWith, hd]

/-- A union passes if one of the branches that the value is led to does. -/
theorem judges_union {dispatch : Dispatch} {fallback : List Program} {expected : String} {d : Json}
    {ps : List (Program × Bool)}
    (routed : ∀ t : Traversal, t.mode = .allow →
      t.route fallback d dispatch = (t, some (ps.map (·.1))))
    (decides : ∀ p ∈ ps, Decides b test p.1 d p.2) :
    Judges b test [.union dispatch fallback expected] d (ps.any (·.2)) := by
  rcases ps with _ | ⟨p, _ | ⟨q, ps⟩⟩
  · exact judges_of_descend (fun t ha => by simp [begin?, beginUnion, routed t ha])
      (returns_branches expected decides)
  · have only : Returns b test (.start p.1 d false) (.value (verdictOf ([p].any (·.2)))) := by
      simpa using (decides p List.mem_cons_self).returns
    exact judges_of_descend (fun t ha => by simp [begin?, beginUnion, routed t ha]) only
  · exact judges_of_descend (fun t ha => by simp [begin?, beginUnion, routed t ha])
      (returns_branches expected decides)

theorem judges_union_none {dispatch : Dispatch} {fallback : List Program} {expected : String}
    {d : Json} (routed : ∀ t : Traversal, t.mode = .allow →
      t.route fallback d dispatch = (t, none)) :
    Judges b test [.union dispatch fallback expected] d false :=
  judges_of_settled fun t ha => ⟨.fail, by simp [begin?, beginUnion, routed t ha], by simp⟩

theorem returns_children {jobs : List (Job × Bool)}
    (decides : ∀ j ∈ jobs, Decides b test j.1.program j.1.data j.2) :
    Returns b test (.children ⟨jobs.map (·.1), none, .pass, []⟩)
      (.children (if jobs.all (·.2) then .pass else .fail) []) := by
  induction jobs with
  | nil =>
    intro t rest ha hd
    apply Reaches.one
    simp [step, hd, advance, advanceChildren, finish]
  | cons j jobs ih =>
    intro t rest ha hd
    obtain ⟨j, v⟩ := j
    have first := decides (j, v) List.mem_cons_self { t with path := j.segment :: t.path } true
      (.children ⟨jobs.map (·.1), some j.segment, .pass, []⟩ :: rest) ha hd
    refine Reaches.step ?_ (first.trans ?_)
    · simp only [step, hd]
      rfl
    · cases v with
      | true =>
        have others := ih (fun k hk => decides k (List.mem_cons_of_mem _ hk)) t rest ha hd
        refine Reaches.step ?_ others
        simp [step, resume, resumeChildren, finishProgram, finish, frameOf, verdictOf, Done.verdict,
          resumeWith, hd]
      | false =>
        apply Reaches.one
        simp [step, resume, resumeChildren, finishProgram, finish, frameOf, verdictOf,
          Done.verdict, ha]

theorem judges_of_jobs {c : Check} {d : Json} {jobs : List (Job × Bool)}
    (h : ∀ t : Traversal, t.mode = .allow →
      begin? b test t c d = t.beginChildren (jobs.map (·.1)))
    (decides : ∀ j ∈ jobs, Decides b test j.1.program j.1.data j.2) :
    Judges b test [c] d (jobs.all (·.2)) := by
  rcases jobs with _ | ⟨j, jobs⟩
  · exact judges_of_settled fun t ha => ⟨.pass, by simp [h t ha, beginChildren], by simp⟩
  · intro t nested r rest ha hd
    have begun := h { t with stack := .program (frameOf ([c] ++ r) d nested) :: rest } ha
    have below := returns_children decides t
      (.program { frameOf r d nested with pending := .children } :: rest) ha hd
    refine Reaches.step ?_ (below.trans (Reaches.one ?_))
    · simp only [step, hd, advance, advanceProgram, frameOf, List.cons_append, List.nil_append]
        at begun ⊢
      simp [begun, beginChildren, push]
    · cases (j :: jobs).all (·.2) with
      | true => exact resume_pass hd rfl
      | false => exact resume_fail ha rfl

theorem judges_elements_length {items : List Program} {rest : Option Program} {xs : List Json}
    (h : (if rest.isSome then decide (items.length ≤ xs.length) else xs.length == items.length) =
      false) : Judges b test [.elements items rest] (.array xs) false := by
  apply judges_of_settled
  intro t ha
  refine ⟨.abort, ?_, by simp⟩
  simp only [begin?, beginElements, judgeLength, judge_allow ha, h]
  rfl

/-- The items of an array are decided by the programs in their places. -/
theorem judges_elements {items : List Program} {rest : Option Program} {xs : List Json}
    {jobs : List (Job × Bool)}
    (h : (if rest.isSome then decide (items.length ≤ xs.length) else xs.length == items.length) =
      true)
    (hjobs : elementJobs items rest xs = jobs.map (·.1))
    (decides : ∀ j ∈ jobs, Decides b test j.1.program j.1.data j.2) :
    Judges b test [.elements items rest] (.array xs) (jobs.all (·.2)) := by
  refine judges_of_jobs (fun t ha => ?_) decides
  simp only [begin?, beginElements, judgeLength, judge_allow ha, h, ← hjobs]
  rfl

theorem judges_elements_other {items : List Program} {rest : Option Program} {d : Json}
    (h : ∀ xs, d ≠ .array xs) : Judges b test [.elements items rest] d true := by
  apply judges_of_settled
  intro t ha
  refine ⟨.pass, ?_, by simp⟩
  cases d with
  | array xs => exact absurd rfl (h xs)
  | _ => rfl

/-- The values of the keys that pass are decided by the program for values. -/
theorem judges_index {key value : Program} {named : List String} {entries : List (String × Json)}
    {jobs : List (Job × Bool)}
    (hjobs : indexJobs test key value named entries = some (jobs.map (·.1), []))
    (decides : ∀ j ∈ jobs, Decides b test j.1.program j.1.data j.2) :
    Judges b test [.index key value named] (.object entries) (jobs.all (·.2)) := by
  refine judges_of_jobs (fun t ha => ?_) decides
  simp [begin?, beginIndex, hjobs]

theorem judges_index_other {key value : Program} {named : List String} {d : Json}
    (h : ∀ entries, d ≠ .object entries) : Judges b test [.index key value named] d true := by
  apply judges_of_settled
  intro t ha
  refine ⟨.pass, ?_, by simp⟩
  cases d with
  | object entries => exact absurd rfl (h entries)
  | _ => rfl

end SchemaAlgebra.Traversal

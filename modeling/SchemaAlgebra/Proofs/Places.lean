import SchemaAlgebra.Proofs.Agreement
import SchemaAlgebra.Proofs.Entries
import SchemaAlgebra.Standard

/-!
# Where problems are found

A problem names the place in the data that it is about. Every frame of an evaluation looks at
the value that the path of its site leads to, and whatever it reports lies there or further
down by keys that it has looked up, so every path that is reported can be followed.
-/
namespace SchemaAlgebra

section

open Traversal

namespace Json

/-- The value has another one as its child, under a key or at an index. -/
inductive HasChild : Json → Segment → Json → Prop
  | key {entries : List (String × Json)} {name : String} {child : Json}
      (h : (name, child) ∈ entries) : HasChild (.object entries) (.key name) child
  | index {items : List Json} {i : Nat} {child : Json} (h : items[i]? = some child) :
      HasChild (.array items) (.index i) child

/-- The path leads from the value to another one, through objects by keys and through arrays by
indices. -/
inductive HasAt : Json → List Segment → Json → Prop
  | here (v : Json) : HasAt v [] v
  | inside {v child w : Json} {s : Segment} {path : List Segment} (first : v.HasChild s child)
      (others : HasAt child path w) : HasAt v (s :: path) w

variable {d v w : Json} {path : List Segment}

theorem HasAt.append {rest : List Segment} (h : d.HasAt path v) (h' : v.HasAt rest w) :
    d.HasAt (path ++ rest) w := by
  induction h with
  | here v => exact h'
  | inside first _ ih => exact .inside first (ih h')

theorem HasAt.child {s : Segment} (h : d.HasAt path v) (hw : v.HasChild s w) :
    d.HasAt (path ++ [s]) w :=
  h.append (.inside hw (.here w))

theorem hasChild_of_get? {name : String} (h : d.get? name = some v) : d.HasChild (.key name) v := by
  cases d with
  | object entries => exact .key (Entries.mem_of_get? h)
  | _ => cases h

theorem hasAt_of_at? {keys : List String} (h : d.at? keys = some v) :
    d.HasAt (keys.map .key) v := by
  induction keys generalizing d with
  | nil =>
    cases h
    exact .here _
  | cons name keys ih =>
    obtain ⟨child, found, others⟩ := Option.bind_eq_some_iff.mp h
    exact .inside (hasChild_of_get? found) (ih others)

end Json

/-- The path of the problem leads to a value, or, if something is missing, all of it but the last
key does, and there is nothing under that key. -/
def Problem.IsReal (d : Json) (p : Problem) : Prop :=
  if p.code = .missing then
    ∃ path name v, p.path = path ++ [.key name] ∧ d.HasAt path v ∧ v.get? name = none
  else ∃ v, d.HasAt p.path v

/-- The data of the frame are where the path leads; those of children are one segment further. -/
def Frame.StandsAt (d : Json) (path : List Segment) : Frame → Prop
  | .program f => d.HasAt path.reverse f.data
  | .children f => ∀ job ∈ f.jobs, d.HasAt (path.reverse ++ [job.segment]) job.data
  | .branches f => d.HasAt path.reverse f.data
  | .target _ data => d.HasAt path.reverse data
  | .morph _ _ data => d.HasAt path.reverse data

namespace Traversal

def AreReal (d : Json) (ps : List Problem) : Prop := ∀ p ∈ ps, p.IsReal d

variable {d v : Json} {t : Traversal}

theorem areReal_nil (d : Json) : AreReal d [] := List.forall_mem_nil _

theorem AreReal.append {ps qs : List Problem} (h : AreReal d ps) (h' : AreReal d qs) :
    AreReal d (ps ++ qs) :=
  List.forall_mem_append.mpr ⟨h, h'⟩

theorem reportAt_real (ht : AreReal d t.problems) (keys : List String) {code : Problem.Code}
    {message : String} (real : Problem.IsReal d
      ⟨t.path.reverse ++ keys.map .key, code, message⟩) :
    AreReal d (t.reportAt keys code message).problems := by
  obtain ⟨mode, maxDepth, depth, path, problems, visited, stack, done⟩ := t
  cases mode with
  | allow => exact ht
  | apply => exact List.forall_mem_cons.mpr ⟨real, ht⟩

/-- A problem of the value that some keys lead to from the current place is real. -/
theorem reportAt_found_real (ht : AreReal d t.problems) (here : d.HasAt t.path.reverse v)
    (keys : List String) (found : (v.at? keys).isSome) {code : Problem.Code}
    (other : code ≠ .missing) (message : String) :
    AreReal d (t.reportAt keys code message).problems := by
  obtain ⟨w, hw⟩ := Option.isSome_iff_exists.mp found
  refine reportAt_real ht keys ?_
  rw [Problem.IsReal, if_neg other]
  exact ⟨w, here.append (Json.hasAt_of_at? hw)⟩

theorem report_real (ht : AreReal d t.problems) (here : d.HasAt t.path.reverse v)
    {code : Problem.Code} (other : code ≠ .missing) (message : String) :
    AreReal d (t.report code message).problems :=
  reportAt_found_real ht here [] rfl other message

theorem judge_real (ht : AreReal d t.problems) (here : d.HasAt t.path.reverse v) (passes : Bool)
    (otherwise : Judgement) {code : Problem.Code} (other : code ≠ .missing) (message : String) :
    AreReal d (t.judge passes otherwise code message).1.problems := by
  cases passes with
  | true => exact ht
  | false => exact report_real ht here other message

/-- What a check begins: its problems are real, and it descends to a frame that stands at the
path. -/
def BeginsReal (d : Json) (begun : Traversal × Begin) : Prop :=
  AreReal d begun.1.problems ∧
    ∀ child pending, begun.2 = .descend child pending → child.StandsAt d begun.1.path

theorem beginsReal_settled (ht : AreReal d t.problems) (j : Judgement) :
    BeginsReal d (t, .settled j) :=
  ⟨ht, nofun⟩

theorem beginsReal_judge (ht : AreReal d t.problems) (here : d.HasAt t.path.reverse v)
    (passes : Bool) (otherwise : Judgement) {code : Problem.Code} (other : code ≠ .missing)
    (message : String) : BeginsReal d (settle (t.judge passes otherwise code message)) :=
  ⟨judge_real ht here passes otherwise other message, nofun⟩

theorem beginsReal_descend (ht : AreReal d t.problems) (child : Frame)
    (hc : child.StandsAt d t.path) (pending : Pending) :
    BeginsReal d (t, .descend child pending) := by
  refine ⟨ht, fun other pending' same => ?_⟩
  cases same
  exact hc

theorem beginsReal_children (ht : AreReal d t.problems) {jobs : List Job}
    (hj : ∀ job ∈ jobs, d.HasAt (t.path.reverse ++ [job.segment]) job.data) :
    BeginsReal d (t.beginChildren jobs) := by
  rw [beginChildren]
  split
  · exact beginsReal_settled ht .pass
  · exact beginsReal_descend ht (.children ⟨jobs, none, .pass, []⟩) hj .children

theorem hasChild_of_mem_elementJobs {programs : List Program} {rest : Option Program}
    {items : List Json} {job : Job} (hj : job ∈ elementJobs programs rest items) :
    (Json.array items).HasChild job.segment job.data := by
  obtain ⟨⟨item, i⟩, hi, hx⟩ := List.mem_filterMap.mp hj
  obtain ⟨p, -, rfl⟩ := Option.map_eq_some_iff.mp hx
  exact .index (List.mk_mem_zipIdx_iff_getElem?.mp hi)

theorem hasChild_of_mem_indexJobs {test : Program → String → Option KeyTest}
    {key value : Program} {named : List String} {entries : List (String × Json)} {jobs : List Job}
    {asked : List (Home × String)}
    (h : indexJobs test key value named entries = some (jobs, asked)) {job : Job}
    (hj : job ∈ jobs) : ∃ name, job.segment = .key name ∧ (name, job.data) ∈ entries := by
  induction entries generalizing jobs asked with
  | nil =>
    cases h
    cases hj
  | cons e entries ih =>
    obtain ⟨name, child⟩ := e
    have later {jobs : List Job} {asked : List (Home × String)}
        (found : indexJobs test key value named entries = some (jobs, asked)) (hj : job ∈ jobs) :
        ∃ other, job.segment = .key other ∧ (other, job.data) ∈ (name, child) :: entries :=
      (ih found hj).imp fun _ entry => entry.imp_right (List.mem_cons_of_mem _)
    rw [indexJobs] at h
    split at h
    · exact later h hj
    · simp only [Option.bind_eq_bind, Option.bind_eq_some_iff] at h
      obtain ⟨answer, -, ⟨others, asked'⟩, found, h⟩ := h
      split at h
      · cases h
        rcases List.mem_cons.mp hj with rfl | hj
        · exact ⟨name, rfl, List.mem_cons_self⟩
        · exact later found hj
      · cases h
        exact later found hj

/-- A route reports a problem only where a key leads it to a value. -/
theorem route_real (ht : AreReal d t.problems) (here : d.HasAt t.path.reverse v)
    (fallback : List Program) (dispatch : Dispatch) :
    AreReal d (t.route fallback v dispatch).1.problems := by
  obtain ⟨dest, leads, routed⟩ := dispatch.exists_reached v
  rw [routed]
  cases dest with
  | branches programs => exact ht
  | fallback => exact ht
  | refusal probe expected =>
    have other := Probe.problem_code_ne (show Problem.Code.missing ≠ _ by decide)
        (by decide) probe expected v
    exact reportAt_found_real ht here probe.path leads.isSome_at other _

theorem beginsReal_union (ht : AreReal d t.problems) (here : d.HasAt t.path.reverse v)
    (dispatch : Dispatch) (fallback : List Program) (expected : String) :
    BeginsReal d (t.beginUnion dispatch fallback expected v) := by
  have real := route_real ht here fallback dispatch
  have stays : (t.route fallback v dispatch).1.path = t.path :=
    congrArg Site.path (route_site t fallback v dispatch)
  rw [beginUnion]
  generalize t.route fallback v dispatch = routed at real stays
  obtain ⟨u, programs⟩ := routed
  replace here : d.HasAt u.path.reverse v := stays ▸ here
  rcases programs with _ | _ | ⟨p, _ | ⟨q, ps⟩⟩
  · exact beginsReal_settled real .fail
  · exact beginsReal_descend real (.branches ⟨[], v, none, expected⟩) here .whole
  · exact beginsReal_descend real (.start p v false) here .whole
  · exact beginsReal_descend real (.branches ⟨p :: q :: ps, v, none, expected⟩) here .whole

theorem beginsReal_key (ht : AreReal d t.problems) (here : d.HasAt t.path.reverse v) (name : String)
    (required : Bool) (program : Program) : BeginsReal d (t.beginKey name required program v) := by
  rw [beginKey]
  cases found : v.get? name with
  | some child =>
    have inside : d.HasAt (Segment.key name :: t.path).reverse child := by
      rw [List.reverse_cons]
      exact here.child (Json.hasChild_of_get? found)
    exact ⟨ht, fun other pending same => by cases same; exact inside⟩
  | none =>
    cases required with
    | true =>
      have real : Problem.IsReal d
          ⟨t.path.reverse ++ [.key name], .missing, "must be defined"⟩ :=
        ⟨t.path.reverse, name, v, rfl, here, found⟩
      exact beginsReal_settled (reportAt_real ht [name] real) .fail
    | false => exact beginsReal_settled ht .pass

theorem beginsReal_elements (ht : AreReal d t.problems) (here : d.HasAt t.path.reverse v)
    (programs : List Program) (rest : Option Program) :
    BeginsReal d (t.beginElements programs rest v) := by
  cases v with
  | array items =>
    have real : AreReal d (t.judgeLength programs.length rest.isSome items).1.problems :=
      judge_real ht here _ .abort (by decide) _
    have stays : (t.judgeLength programs.length rest.isSome items).1.path = t.path :=
      congrArg Site.path (judge_site t _ _ _ _)
    rw [beginElements]
    generalize t.judgeLength programs.length rest.isSome items = judged at real stays
    obtain ⟨u, j⟩ := judged
    cases j with
    | pass =>
      refine beginsReal_children real fun job hj => ?_
      rw [stays]
      exact here.child (hasChild_of_mem_elementJobs hj)
    | _ => exact beginsReal_settled real _
  | _ => exact beginsReal_settled ht .pass

theorem beginsReal_index (test : Program → String → Option KeyTest) (ht : AreReal d t.problems)
    (here : d.HasAt t.path.reverse v) (key value : Program) (named : List String) :
    BeginsReal d (t.beginIndex test key value named v) := by
  cases v with
  | object entries =>
    rw [beginIndex]
    cases found : indexJobs test key value named entries with
    | none => exact ⟨ht, nofun⟩
    | some jobs =>
      refine beginsReal_children (t := { t with visited := jobs.2 ++ t.visited }) ht
        fun job hj => ?_
      obtain ⟨name, segment, entry⟩ := hasChild_of_mem_indexJobs found hj
      rw [segment]
      exact here.child (.key entry)
  | _ => exact beginsReal_settled ht .pass

theorem beginsReal_deferred (b : Bindings) (ht : AreReal d t.problems)
    (here : d.HasAt t.path.reverse v) (name : String) (home : Home) :
    BeginsReal d (beginDeferred b t name home v) := by
  have followed : BeginsReal d (follow b t name home v) := by
    rw [follow]
    cases b.node? home name with
    | none => exact beginsReal_settled (report_real ht here (by decide) _) .fail
    | some n => exact beginsReal_descend ht (.target (some n.compile) v) here .whole
  rw [beginDeferred]
  split
  · split
    · exact beginsReal_settled (report_real ht here (by decide) _) .fail
    · exact followed
  · exact followed

variable [Library]

/-- Whatever a check begins to do at a place, it says the truth about it. -/
theorem begin_real (b : Bindings) (test : Program → String → Option KeyTest)
    (ht : AreReal d t.problems) (here : d.HasAt t.path.reverse v) (c : Check) :
    BeginsReal d (begin? b test t c v) := by
  cases c with
  | key name required program => exact beginsReal_key ht here name required program
  | index key value named => exact beginsReal_index test ht here key value named
  | elements programs rest => exact beginsReal_elements ht here programs rest
  | union dispatch fallback expected => exact beginsReal_union ht here dispatch fallback expected
  | deferred name home => exact beginsReal_deferred b ht here name home
  | morph input steps => exact beginsReal_descend ht (.morph (some input) steps v) here .whole
  | never => exact beginsReal_judge ht here false .abort (by decide) _
  | domain _ => exact beginsReal_judge ht here _ .abort (by decide) _
  | literal _ => exact beginsReal_judge ht here _ .abort (by decide) _
  | basis _ => exact beginsReal_judge ht here _ .abort (by decide) _
  | range _ _ => exact beginsReal_judge ht here _ .fail (by decide) _
  | divisor _ => exact beginsReal_judge ht here _ .fail (by decide) _
  | patterns _ => exact beginsReal_judge ht here _ .fail (by decide) _

theorem runSteps_real (b : Bindings) (ht : AreReal d t.problems) (here : d.HasAt t.path.reverse v)
    (w : Json) (steps : List Step) : AreReal d (runSteps b t w steps).1.problems := by
  induction steps generalizing w with
  | nil => exact ht
  | cons s steps ih =>
    rw [runSteps]
    split
    · exact ih _
    · exact report_real ht here (by decide) _

section

variable {b : Bindings} {test : Program → String → Option KeyTest} {s : Site}

/-- The evaluation reports real problems only, of frames that stand at their path. -/
def FramesReal (d : Json) (frame : Site → Frame → Option (Report Done)) : Prop :=
  ∀ s child r, child.StandsAt d s.path → frame s child = some r → AreReal d r.problems

/-- The evaluation reports real problems only, of programs that run where their path leads. -/
def ProgramsReal (d : Json) (program : Site → ProgramFrame → Option (Report Verdict)) : Prop :=
  ∀ s f r, d.HasAt s.path.reverse f.data → program s f = some r → AreReal d r.problems

variable {frame : Site → Frame → Option (Report Done)}
  {program : Site → ProgramFrame → Option (Report Verdict)}

theorem evalCheck_real (h : FramesReal d frame) {c : Check} {f : ProgramFrame}
    {r : Report (ProgramFrame × Judgement)} (here : d.HasAt s.path.reverse f.data)
    (found : evalCheck b test frame s c f = some r) : AreReal d r.problems := by
  obtain ⟨real, child⟩ := begin_real (t := s.fresh) b test (areReal_nil d) here c
  rw [evalCheck] at found
  generalize begin? b test s.fresh c f.data = begun at found real child
  obtain ⟨u, settled | ⟨frame, pending⟩ | waiting⟩ := begun
  · cases found
    exact real
  · obtain ⟨a, ran, rfl⟩ := Option.map_eq_some_iff.mp found
    exact (h u.site frame a (child frame pending rfl) ran).append real
  · cases found

theorem evalChecks_real (h : FramesReal d frame) {p : Program} {f : ProgramFrame}
    {r : Report (Option ProgramFrame)} (here : d.HasAt s.path.reverse f.data)
    (found : evalChecks b test frame s p f = some r) : AreReal d r.problems := by
  induction p generalizing f r with
  | nil =>
    cases found
    exact areReal_nil d
  | cons c p ih =>
    obtain ⟨a, u, checked, others, rfl⟩ := Report.bind_eq_some.mp found
    refine .append ?_ (evalCheck_real h here checked)
    dsimp only at others
    cases went : goOn s.mode a.value.1 a.value.2 with
    | none =>
      rw [went] at others
      cases others
      exact areReal_nil d
    | some g =>
      rw [went] at others
      refine ih ?_ others
      rwa [goOn_data went, (evalCheck_keeps checked).data]

omit [Library] in
theorem evalJobs_real (h : ProgramsReal d program) {jobs : List Job}
    (hj : ∀ job ∈ jobs, d.HasAt (s.path.reverse ++ [job.segment]) job.data) {j : Judgement}
    {patches : List (Segment × Json)} {r : Report Done}
    (found : evalJobs program s jobs j patches = some r) : AreReal d r.problems := by
  induction jobs generalizing j patches r with
  | nil =>
    cases found
    exact areReal_nil d
  | cons job jobs ih =>
    obtain ⟨first, later⟩ := List.forall_mem_cons.mp hj
    obtain ⟨a, u, ran, others, rfl⟩ := Report.bind_eq_some.mp found
    have inside : d.HasAt (s.inside job.segment).path.reverse
        (frameOf job.program job.data true).data := by
      rw [Site.inside, List.reverse_cons]
      exact first
    refine .append ?_ (h _ _ _ inside ran)
    split at others
    · exact ih later others
    · exact ih later others
    · cases others
      exact areReal_nil d
    · exact ih later others

omit [Library] in
theorem evalBranches_real (here : d.HasAt s.path.reverse v)
    {expected : String} {ps : List Program} {r : Report Done}
    (found : evalBranches program s v expected ps = some r) : AreReal d r.problems := by
  induction ps generalizing r with
  | nil =>
    cases found
    exact report_real (t := s.fresh) (areReal_nil d) here (by decide) _
  | cons p ps ih =>
    obtain ⟨a, u, ran, others, rfl⟩ := Report.bind_eq_some.mp found
    obtain ⟨q, -, rfl⟩ := Option.map_eq_some_iff.mp ran
    refine .append ?_ (areReal_nil d)
    dsimp only at others
    split at others
    · exact ih others
    · cases others
      exact areReal_nil d

theorem evalSteps_real (here : d.HasAt s.path.reverse v) (steps : List Step) (verdict : Verdict) :
    AreReal d (evalSteps b s steps v verdict).problems := by
  unfold evalSteps
  split
  · exact runSteps_real (t := s.fresh) b (areReal_nil d) here _ steps
  · exact runSteps_real (t := s.fresh) b (areReal_nil d) here _ steps
  · exact areReal_nil d

theorem evalFrame_real (h : ProgramsReal d program) : FramesReal d (evalFrame b program) := by
  intro s child r stands found
  cases child with
  | program f =>
    obtain ⟨a, ran, rfl⟩ := Option.map_eq_some_iff.mp found
    exact h s f a stands ran
  | children f => exact evalJobs_real h stands found
  | branches f => exact evalBranches_real stands found
  | target p data =>
    cases p with
    | none =>
      cases found
      exact areReal_nil d
    | some p =>
      obtain ⟨a, ran, rfl⟩ := Option.map_eq_some_iff.mp found
      exact h s (frameOf p data false) a stands ran
  | morph p steps data =>
    cases p with
    | none =>
      cases found
      exact areReal_nil d
    | some p =>
      rw [evalFrame, Report.bind_eq_some] at found
      obtain ⟨a, u, ran, rest, rfl⟩ := found
      cases rest
      exact (evalSteps_real stands steps a.value).append (h s (frameOf p data false) a stands ran)

theorem evaluate_real (b : Bindings) (test : Program → String → Option KeyTest) (d : Json)
    (n : Nat) : ProgramsReal d (evaluate b test n) := by
  induction n with
  | zero => exact fun _ _ _ _ found => nomatch found
  | succ n ih =>
    intro s f r here found
    obtain ⟨a, ran, rfl⟩ := Option.map_eq_some_iff.mp found
    exact evalChecks_real (evalFrame_real ih) here ran

end

end Traversal

namespace Node

/-- Every problem of a validation is reported at a path that leads to a value of the data, or to
one that lacks the key at the end of it. Where a run ends, it is at the root again, inside of no
alias. -/
theorem compile_apply_real [Library] (n : Node) (b : Bindings) (maxDepth : Option Nat) (d : Json)
    (patience : Nat) :
    (∀ ps visited, n.compile.apply b patience maxDepth d = some ⟨.error ps, visited⟩ →
      ∀ p ∈ ps, p.IsReal d) ∧
    ∀ mode t, run b patience mode maxDepth n.compile d = some t →
      t.path = [] ∧ t.depth = 0 := by
  refine ⟨fun ps visited applied => ?_, fun mode t ran => ?_⟩
  · obtain ⟨fuel, r, evaluated, outcome⟩ := Program.evaluate_of_apply applied
    have real := evaluate_real b (limitTest b maxDepth) d fuel (.root .apply maxDepth)
      (frameOf n.compile d false) r (.here d) evaluated
    have same : ps = r.problems.reverse := by
      unfold Program.outcomeOf at outcome
      split at outcome <;> cases outcome
      rfl
    rw [same]
    exact fun p hp => real p (List.mem_reverse.mp hp)
  · obtain ⟨fuel, r, -, rfl⟩ := evaluate_of_run ran
    exact ⟨rfl, rfl⟩

end Node

end

namespace Node

attribute [local instance] Library.standard

/-- Objects with an identifier and a list of amounts. -/
def order : Node :=
  of (.intersection [of (.domain .object), of (.props
    ⟨[("amounts", of (.intersection
      [of (.basis .array), of (.props
        ⟨[], [], [], some ⟨[], some (of (.domain .number))⟩⟩)])),
      ("id", of (.domain .string))], [], [], none⟩)])

/-- An amount that is no number is reported by its index, and the identifier by its key. -/
theorem compile_apply_real_order :
    ∃ ps, order.compile.apply ⟨fun _ _ => none, fun _ _ => .ok⟩ 5 none
        (.object [("amounts", .array [.number (.int 3), .null])]) = some ⟨.error ps, []⟩ ∧
      ps.map (·.path) = [[.key "amounts", .index 1], [.key "id"]] ∧
      ∀ p ∈ ps, p.IsReal (.object [("amounts", .array [.number (.int 3), .null])]) := by
  have failed : order.compile.apply ⟨fun _ _ => none, fun _ _ => .ok⟩ 5 none
      (.object [("amounts", .array [.number (.int 3), .null])]) = some ⟨.error _, []⟩ := rfl
  exact ⟨_, failed, rfl, (compile_apply_real order _ none _ 5).1 _ _ failed⟩

end Node

end SchemaAlgebra

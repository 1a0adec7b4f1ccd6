import SchemaAlgebra.Proofs.Agreement
import SchemaAlgebra.Proofs.Application
import SchemaAlgebra.Proofs.Entries
import SchemaAlgebra.Standard

/-!
# Rewrites of conjuncts

All conjuncts of an intersection look at the original value and write into one output. What an
object part writes stays under the keys that it declares. An alias comes behind it and hands
over a whole value: if that has changed, it is the output, and what the object part has
written is gone.
-/
namespace SchemaAlgebra

section

open Traversal

theorem Json.get?_replaceChild_of_ne {d v : Json} {name key : String} (h : name ≠ key) :
    (d.replaceChild (.key name) v).get? key = d.get? key := by
  cases d with
  | object entries =>
    show Entries.get? key (Entries.insert name v entries) = Entries.get? key entries
    rw [Entries.get?_insert, if_neg (Ne.symm h)]
  | _ => rfl

theorem Json.get?_replaceChild_index (d v : Json) (i : Nat) (key : String) :
    (d.replaceChild (.index i) v).get? key = d.get? key := by
  cases d <;> rfl

/-- The value under the key is not the child at the segment. -/
def Segment.Misses (key : String) : Segment → Prop
  | .key name => name ≠ key
  | .index _ => True

theorem Json.get?_replaceChild {s : Segment} {key : String} (h : s.Misses key) (d v : Json) :
    (d.replaceChild s v).get? key = d.get? key := by
  cases s with
  | key name => exact Json.get?_replaceChild_of_ne h
  | index i => exact Json.get?_replaceChild_index d v i key

variable [Library]

/-- Whether the properties are about the value under a key: the key is named, or a signature
takes it. -/
def Props.Declares (p : Props Node) (b : Bindings) (maxDepth : Option Nat) (key : String) : Prop :=
  key ∈ p.namedKeys ∨ ∃ s ∈ p.index, ∃ answer, limitTest b maxDepth s.key.compile key =
    some answer ∧ answer.passes = true

namespace Traversal

section

variable {b : Bindings} {maxDepth : Option Nat} {key : String}

/-- A check that does not write under the key. -/
def Spares (b : Bindings) (maxDepth : Option Nat) (key : String) : Check → Prop
  | .key name _ _ => name ≠ key
  | .index k _ named => key ∈ named ∨
      ∀ answer, limitTest b maxDepth k key = some answer → answer.passes = false
  | .union _ _ _ => False
  | .deferred _ _ => False
  | .morph _ _ => False
  | _ => True

omit [Library] in
theorem current_patchAll {f : ProgramFrame} {patches : List (Segment × Json)}
    (h : ∀ e ∈ patches, e.1.Misses key) :
    (ProgramFrame.current (patchAll f patches)).get? key = (ProgramFrame.current f).get? key := by
  induction patches with
  | nil => rfl
  | cons e patches ih =>
    rw [List.forall_mem_cons] at h
    rw [← ih h.2]
    exact Json.get?_replaceChild h.1 _ _

omit [Library] in
/-- The children that are changed are among those that there were jobs for. -/
theorem evalJobs_patches {program : Site → ProgramFrame → Option (Report Verdict)} {s : Site}
    {jobs : List Job} {j : Judgement} {patches : List (Segment × Json)} {r : Report Done}
    (hj : ∀ job ∈ jobs, job.segment.Misses key) (hp : ∀ e ∈ patches, e.1.Misses key)
    (h : evalJobs program s jobs j patches = some r) :
    ∃ j' ps, r.value = .children j' ps ∧ ∀ e ∈ ps, e.1.Misses key := by
  induction jobs generalizing j patches r with
  | nil =>
    cases h
    exact ⟨j, patches, rfl, hp⟩
  | cons job jobs ih =>
    rw [List.forall_mem_cons] at hj
    rw [evalJobs, Report.bind_eq_some] at h
    obtain ⟨a, u, -, others, rfl⟩ := h
    cases hv : a.value with
    | changed v =>
      rw [hv] at others
      exact ih (r := u) hj.2 (List.forall_mem_cons.mpr ⟨hj.1, hp⟩) others
    | unchanged =>
      rw [hv] at others
      exact ih (r := u) hj.2 hp others
    | failed =>
      rw [hv] at others
      cases hm : s.mode with
      | allow =>
        rw [hm] at others
        cases others
        exact ⟨.fail, [], rfl, List.forall_mem_nil _⟩
      | apply =>
        rw [hm] at others
        exact ih (r := u) hj.2 hp others

omit [Library] in
/-- Only names that are not listed and that pass the test have a job. -/
theorem segment_of_mem_indexJobs {test : Program → String → Option KeyTest} {k value : Program}
    {named : List String} {entries : List (String × Json)} {jobs : List Job}
    {asked : List (Home × String)} (h : indexJobs test k value named entries = some (jobs, asked))
    {job : Job} (hj : job ∈ jobs) :
    ∃ name answer, job.segment = .key name ∧ name ∉ named ∧
      test k name = some answer ∧ answer.passes = true := by
  induction entries generalizing jobs asked with
  | nil =>
    cases h
    cases hj
  | cons e entries ih =>
    obtain ⟨name, child⟩ := e
    rw [indexJobs] at h
    split at h
    · exact ih h hj
    · rename_i unlisted
      simp only [Option.bind_eq_bind, Option.bind_eq_some_iff] at h
      obtain ⟨answer, tested, ⟨others, asked'⟩, found, h⟩ := h
      split at h
      · rename_i passes
        cases h
        rcases List.mem_cons.mp hj with rfl | hj
        · exact ⟨name, answer, rfl, by simpa using unlisted, tested, passes⟩
        · exact ih found hj
      · cases h
        exact ih found hj

/-- What a frame of children comes to leaves a key alone that none of them is under. -/
theorem absorb_children {s : Site} {program : Site → ProgramFrame → Option (Report Verdict)}
    {jobs : List Job} (hj : ∀ job ∈ jobs, job.segment.Misses key) {f : ProgramFrame}
    {r : Report Done} (h : evalFrame b program s (.children ⟨jobs, none, .pass, []⟩) = some r) :
    (ProgramFrame.current (absorb f .children r.value).1).get? key =
      (ProgramFrame.current f).get? key := by
  obtain ⟨j, ps, hv, missed⟩ := evalJobs_patches hj (List.forall_mem_nil _) h
  rw [hv]
  exact current_patchAll missed

theorem misses_of_mem_indexJobs {k value : Program} {named : List String}
    {entries : List (String × Json)} {jobs : List Job} {asked : List (Home × String)}
    (hc : Spares b maxDepth key (.index k value named))
    (found : indexJobs (limitTest b maxDepth) k value named entries = some (jobs, asked)) :
    ∀ job ∈ jobs, job.segment.Misses key := by
  intro job hj
  obtain ⟨name, answer, segment, unlisted, tested, passes⟩ := segment_of_mem_indexJobs found hj
  rw [segment]
  rintro rfl
  rcases hc with listed | refused
  · exact unlisted listed
  · rw [refused answer tested] at passes
    cases passes

omit [Library] in
theorem misses_of_mem_elementJobs {items : List Program} {rest : Option Program} {xs : List Json} :
    ∀ job ∈ elementJobs items rest xs, job.segment.Misses key := by
  intro job hj
  obtain ⟨⟨x, i⟩, -, hx⟩ := List.mem_filterMap.mp hj
  obtain ⟨p, -, rfl⟩ := Option.map_eq_some_iff.mp hx
  trivial

theorem evalCheck_spares {program : Site → ProgramFrame → Option (Report Verdict)} {s : Site}
    {c : Check} {f : ProgramFrame} {r : Report (ProgramFrame × Judgement)}
    (hc : Spares b maxDepth key c)
    (h : evalCheck b (limitTest b maxDepth) (evalFrame b program) s c f = some r) :
    (ProgramFrame.current r.value.1).get? key = (ProgramFrame.current f).get? key := by
  have children {t : Traversal} {jobs : List Job} (hj : ∀ job ∈ jobs, job.segment.Misses key)
      (begun : begin? b (limitTest b maxDepth) s.fresh c f.data = t.beginChildren jobs) :
      (ProgramFrame.current r.value.1).get? key = (ProgramFrame.current f).get? key := by
    rw [evalCheck, begun, beginChildren] at h
    split_ifs at h
    · cases h
      rfl
    · obtain ⟨u, ran, rfl⟩ := Option.map_eq_some_iff.mp h
      exact absorb_children hj ran
  have settled {t : Traversal} {j : Judgement}
      (begun : begin? b (limitTest b maxDepth) s.fresh c f.data = (t, .settled j)) :
      (ProgramFrame.current r.value.1).get? key = (ProgramFrame.current f).get? key := by
    rw [evalCheck, begun] at h
    cases h
    rfl
  cases c with
  | key name required p =>
    cases found : f.data.get? name with
    | none => exact settled (by simp only [begin?, beginKey, found]; rfl)
    | some child =>
      rw [evalCheck] at h
      simp only [begin?, beginKey, found] at h
      obtain ⟨u, ran, rfl⟩ := Option.map_eq_some_iff.mp h
      obtain ⟨v, -, rfl⟩ := Option.map_eq_some_iff.mp ran
      cases hv : v.value with
      | changed w =>
        simp only [Report.map, hv]
        exact Json.get?_replaceChild_of_ne hc
      | unchanged =>
        simp only [Report.map, hv]
        rfl
      | failed =>
        simp only [Report.map, hv]
        rfl
  | index k value named =>
    cases data : f.data with
    | object entries =>
      cases found : indexJobs (limitTest b maxDepth) k value named entries with
      | none =>
        simp only [evalCheck, data, begin?, beginIndex, found] at h
        cases h
      | some jobs =>
        obtain ⟨jobs, asked⟩ := jobs
        have begun : begin? b (limitTest b maxDepth) s.fresh (.index k value named) f.data =
            beginChildren { s.fresh with visited := asked ++ s.fresh.visited } jobs := by
          simp only [data, begin?, beginIndex, found]
        exact children (misses_of_mem_indexJobs hc found) begun
    | _ => exact settled (by simp only [data, begin?, beginIndex]; rfl)
  | elements items rest =>
    cases data : f.data with
    | array xs =>
      cases judged : s.fresh.judgeLength items.length rest.isSome xs with
      | mk t j =>
        cases j with
        | pass =>
          exact children misses_of_mem_elementJobs
            (by simp only [data, begin?, beginElements, judged]; rfl)
        | _ => exact settled (by simp only [data, begin?, beginElements, judged]; rfl)
    | _ => exact settled (by simp only [data, begin?, beginElements]; rfl)
  | union dispatch fallback expected => exact hc.elim
  | deferred name home => exact hc.elim
  | morph p steps => exact hc.elim
  | _ => exact settled rfl

omit [Library] in
theorem goOn_current {mode : Mode} {f g : ProgramFrame} {j : Judgement}
    (h : goOn mode f j = some g) : ProgramFrame.current g = ProgramFrame.current f := by
  cases j with
  | pass =>
    cases h
    rfl
  | fail =>
    simp only [goOn] at h
    split at h <;> cases h
    rfl
  | abort => cases h

/-- Checks in order leave the value under a key that each of them spares, and the data. -/
theorem evalChecks_spares {program : Site → ProgramFrame → Option (Report Verdict)} {s : Site}
    {p : Program} {f g : ProgramFrame} {r : Report (Option ProgramFrame)}
    (hp : ∀ c ∈ p, Spares b maxDepth key c)
    (h : evalChecks b (limitTest b maxDepth) (evalFrame b program) s p f = some r)
    (hg : r.value = some g) :
    (ProgramFrame.current g).get? key = (ProgramFrame.current f).get? key := by
  induction p generalizing f r with
  | nil =>
    cases h
    cases hg
    rfl
  | cons c p ih =>
    rw [List.forall_mem_cons] at hp
    rw [evalChecks, Report.bind_eq_some] at h
    obtain ⟨a, u, checked, others, rfl⟩ := h
    have here := evalCheck_spares hp.1 checked
    dsimp only at others
    cases went : goOn s.mode a.value.1 a.value.2 with
    | none =>
      rw [went] at others
      cases others
      cases hg
    | some f' =>
      rw [went] at others
      rw [ih hp.2 others hg, goOn_current went, here]

end

section

variable {b : Bindings} {test : Program → String → Option KeyTest} {s : Site} {d : Json}

omit [Library] in
theorem goOn_output {mode : Mode} {f g : ProgramFrame} {j : Judgement}
    (h : goOn mode f j = some g) : g.output = f.output := by
  cases j with
  | pass =>
    cases h
    rfl
  | fail =>
    simp only [goOn] at h
    split at h <;> cases h
    rfl
  | abort => cases h

theorem evalChecks_retains {frame : Site → Frame → Option (Report Done)} {p : Program}
    {f g : ProgramFrame} {r : Report (Option ProgramFrame)}
    (h : evalChecks b test frame s p f = some r) (hg : r.value = some g) :
    g.data = f.data ∧ (f.output ≠ .failed → g.output ≠ .failed) := by
  induction p generalizing f r with
  | nil =>
    cases h
    cases hg
    exact ⟨rfl, id⟩
  | cons c p ih =>
    rw [evalChecks, Report.bind_eq_some] at h
    obtain ⟨a, u, checked, others, rfl⟩ := h
    have first := evalCheck_keeps checked
    dsimp only at others
    cases went : goOn s.mode a.value.1 a.value.2 with
    | none =>
      rw [went] at others
      cases others
      cases hg
    | some f' =>
      rw [went] at others
      obtain ⟨data, output⟩ := ih others hg
      constructor
      · rw [data, goOn_data went, first.data]
      · intro started
        apply output
        rw [goOn_output went]
        exact first.output started

/-- An alias leaves the output to what its target has changed, or it fails. -/
theorem evalCheck_deferred {program : Site → ProgramFrame → Option (Report Verdict)}
    {name : String} {home : Home} {f : ProgramFrame} {r : Report (ProgramFrame × Judgement)}
    (hf : f.data = d) (h : evalCheck b test (evalFrame b program) s
      (.deferred name home) f = some r) : (∀ g : ProgramFrame, g.data = d →
      ∃ u, evalCheck b test (evalFrame b program) s (.deferred name home) g = some u ∧
        u.value = (g, .fail)) ∨
    ∃ v : Verdict, v ≠ .failed ∧
      (∃ n there u, b.node? home name = some n ∧ program there (frameOf n.compile d false) =
        some u ∧ u.value = v) ∧
      ∀ g : ProgramFrame, g.data = d →
        evalCheck b test (evalFrame b program) s (.deferred name home) g =
        some (r.map fun _ => absorb g .whole (.value v)) := by
  have same (g : ProgramFrame) (hg : g.data = d) :
      begin? b test s.fresh (.deferred name home) g.data = begin? b test s.fresh
        (.deferred name home) f.data := by
    rw [hf, hg]
  rw [evalCheck] at h
  rcases begin_deferred b test name home s f.data with ⟨code, message, refused⟩ | ⟨n, target,
    -, followed⟩
  · left
    intro g hg
    have begun := refused s.mode
    rw [evalCheck, same g hg, show s.fresh = (s.inMode s.mode).fresh from rfl, begun]
    exact ⟨_, rfl, rfl⟩
  · have begun : begin? b test s.fresh (.deferred name home) f.data = _ := followed s.mode
    rw [begun] at h
    obtain ⟨u, ran, rfl⟩ := Option.map_eq_some_iff.mp h
    obtain ⟨v, ran', rfl⟩ := Option.map_eq_some_iff.mp ran
    cases hv : v.value with
    | failed =>
      left
      intro g hg
      rw [evalCheck, same g hg, begun]
      dsimp only
      rw [ran]
      refine ⟨_, rfl, ?_⟩
      simp only [Report.map, hv]
      rfl
    | _ =>
      right
      refine ⟨v.value, by simp [hv], ⟨n, _, v, target, hf ▸ ran', rfl⟩, ?_⟩
      intro g hg
      rw [evalCheck, same g hg, begun]
      dsimp only
      rw [ran]
      rfl

theorem evalChecks_with {frame : Site → Frame → Option (Report Done)} (p : Program)
    (f : ProgramFrame) (q : Program) (waiting : Pending) :
    evalChecks b test frame s p { f with rest := q, pending := waiting } =
      (evalChecks b test frame s p f).map
        (·.map (Option.map fun g => { g with rest := q, pending := waiting })) := by
  induction p generalizing f with
  | nil => rfl
  | cons c p ih =>
    have first : evalCheck b test frame s c { f with rest := q, pending := waiting } =
        (evalCheck b test frame s c f).map
          (·.map fun x => ({ x.1 with rest := q, pending := waiting }, x.2)) := by
      rw [evalCheck, evalCheck]
      cases begin? b test s.fresh c f.data with
      | mk t o =>
        cases o with
        | settled j => rfl
        | waiting => rfl
        | descend child pending =>
          simp only [Option.map_map]
          congr 1
          funext r
          simp only [Function.comp_def, Report.map, absorb_with]
    rw [evalChecks, evalChecks, first]
    cases evalCheck b test frame s c f with
    | none => rfl
    | some a =>
      simp only [Option.map_some, Report.bind, Option.bind_some, Report.map]
      rw [goOn_with]
      cases goOn s.mode a.value.1 a.value.2 with
      | none => rfl
      | some g =>
        simp only [Option.map_some, ih, Option.map_map]
        rfl

omit [Library] in
theorem conclude_with (o : Option ProgramFrame) (q : Program) (waiting : Pending) :
    conclude (o.map fun g => { g with rest := q, pending := waiting }) = conclude o := by
  cases o <;> rfl

/-- The checks of a program, evaluated in the frame of a longer one. -/
theorem evaluate_frameOf (n : Nat) (p q : Program) (nested : Bool) :
    evaluate b test (n + 1) s (frameOf p d nested) =
      (evalChecks b test (evalFrame b (evaluate b test n)) s p (frameOf q d nested)).map
        (·.map conclude) := by
  have same : frameOf p d nested = { frameOf q d nested with rest := p, pending := .nothing } := rfl
  have rest : (frameOf p d nested).rest = p := rfl
  rw [evaluate, rest, same, evalChecks_with, Option.map_map]
  congr 1
  funext r
  simp only [Function.comp_def, Report.map, conclude_with]

/-- The value handed over by a program behind another one. -/
def handedOver (first last : Verdict) : Verdict :=
  match last with
  | .changed v => .changed v
  | _ => first

/-- Checks behind a frame that has failed do not make up for it. -/
theorem unfailed_of_conclude {frame : Site → Frame → Option (Report Done)} {p : Program}
    {g : ProgramFrame} {r : Report (Option ProgramFrame)}
    (h : evalChecks b test frame s.applying p g = some r) (passed : conclude r.value ≠ .failed) :
    g.failed = false := by
  by_contra failed
  rw [Bool.not_eq_false] at failed
  apply passed
  cases hr : r.value with
  | none => rfl
  | some g' => rw [conclude, if_pos (evalChecks_failed h failed hr)]

/-- An alias behind other checks comes to what these come to by themselves, unless its target
has changed the value by itself. -/
theorem evaluate_beside {n : Nat} {p : Program} {name : String} {home : Home} {nested : Bool}
    {r : Report Verdict}
    (h : evaluate b test n s.applying (frameOf (p ++ [.deferred name home]) d nested) = some r)
    (passed : r.value ≠ .failed) : ∃ u w,
      evaluate b test n s.applying (frameOf p d nested) = some u ∧
      evaluate b test n s.applying (frameOf [.deferred name home] d nested) = some w ∧
      u.value ≠ .failed ∧ w.value ≠ .failed ∧ r.problems = w.problems ++ u.problems ∧
      r.value = handedOver u.value w.value := by
  cases n with
  | zero => cases h
  | succ n =>
    rw [evaluate_frameOf n _ p] at h
    obtain ⟨a, checked, rfl⟩ := Option.map_eq_some_iff.mp h
    rw [evalChecks_append, Report.bind_eq_some] at checked
    obtain ⟨u, x, before, behind, rfl⟩ := checked
    have own : evaluate b test (n + 1) s.applying (frameOf p d nested) = _ :=
      evaluate_frameOf n p p nested
    rw [before] at own
    cases hu : u.value with
    | none =>
      rw [hu] at behind
      cases behind
      exact absurd rfl passed
    | some g =>
      rw [hu] at behind
      have unfailed : g.failed = false := unfailed_of_conclude behind passed
      obtain ⟨data, started⟩ := evalChecks_retains before hu
      have data : g.data = d := data
      have output : g.output ≠ .failed := started (by simp [frameOf])
      have first : conclude u.value = g.output := by
        rw [hu, conclude, unfailed]
        rfl
      dsimp only at behind
      rw [evalChecks_one] at behind
      obtain ⟨y, last, rfl⟩ := Option.map_eq_some_iff.mp behind
      rcases evalCheck_deferred data last with refused | ⟨v, hv, -, followed⟩
      · obtain ⟨y', last', value⟩ := refused g data
        rw [last, Option.some.injEq] at last'
        subst last'
        apply absurd _ passed
        simp only [Report.map, Report.after, value]
        rfl
      · have alone : evaluate b test (n + 1) s.applying
            (frameOf [.deferred name home] d nested) = _ :=
          evaluate_frameOf n [.deferred name home] [.deferred name home] nested
        rw [evalChecks_one, followed (frameOf [.deferred name home] d nested) rfl] at alone
        have value : y.value = absorb g .whole (.value v) := by
          rw [followed g data, Option.some.injEq] at last
          rw [← last]
          rfl
        refine ⟨_, _, own, alone, ?_, ?_, rfl, ?_⟩
        · show conclude u.value ≠ .failed
          rw [first]
          exact output
        · cases v with
          | failed => exact absurd rfl hv
          | _ =>
            intro same
            cases same
        · simp only [Report.map, Report.after, value, first]
          cases v with
          | failed => exact absurd rfl hv
          | unchanged =>
            show conclude (some g) = _
            rw [← hu, first]
            rfl
          | changed w =>
            show conclude (some { g with output := .changed w }) = _
            rw [conclude, unfailed]
            rfl

end

end Traversal

namespace Node

variable {b : Bindings} {maxDepth : Option Nat} {d : Json}

/-- However long one waits for it, the node is applied to the value without problems and comes
to the other one. -/
def AppliesTo (n : Node) (b : Bindings) (maxDepth : Option Nat) (d w : Json) : Prop :=
  ∃ least, ∀ patience, least ≤ patience →
    ∃ v, n.compile.apply b patience maxDepth d = some v ∧ v.outcome = .ok w

def leftBy (d : Json) : Verdict → Json
  | .changed v => v
  | _ => d

theorem appliesTo_of_evaluate {n : Node} {fuel : Nat} {r : Report Verdict}
    (h : evaluate b (limitTest b maxDepth) fuel (.root .apply maxDepth)
      (frameOf n.compile d false) = some r)
    (problems : r.problems = []) (passed : r.value ≠ .failed) :
    n.AppliesTo b maxDepth d (leftBy d r.value) := by
  obtain ⟨least, runs⟩ := Program.isSome_apply_of_evaluate h
  refine ⟨least, ?_⟩
  intro patience enough
  obtain ⟨v, ran⟩ := Option.isSome_iff_exists.mp (runs patience enough)
  obtain ⟨fuel', r', evaluated, outcome⟩ := Program.evaluate_of_apply ran
  obtain rfl : r' = r := evaluate_unique evaluated h
  refine ⟨v, ran, ?_⟩
  rw [outcome, problems]
  cases hv : r'.value with
  | failed => exact absurd hv passed
  | _ => rfl

/-- What is applied without problems comes from an evaluation without problems. -/
theorem evaluate_of_ok {n : Node} {patience : Nat} {v : Visiting (Except (List Problem) Json)}
    {out : Json} (h : n.compile.apply b patience maxDepth d = some v) (ok : v.outcome = .ok out) :
    ∃ fuel r,
      evaluate b (limitTest b maxDepth) fuel (.root .apply maxDepth) (frameOf n.compile d false) =
        some r ∧ r.problems = [] ∧ r.value ≠ .failed ∧ leftBy d r.value = out := by
  obtain ⟨fuel, r, evaluated, outcome⟩ := Program.evaluate_of_apply h
  refine ⟨fuel, r, evaluated, ?_⟩
  rw [ok] at outcome
  unfold Program.outcomeOf at outcome
  split at outcome
  · rename_i problems value
    cases outcome
    exact ⟨problems, by rw [value]; exact nofun, by rw [value]; rfl⟩
  · rename_i problems value
    cases outcome
    exact ⟨problems, by rw [value]; exact nofun, by rw [value]; rfl⟩
  · cases outcome

omit [Library] in
theorem lowerAll_deferred (front : List Node) (name : String) (home : Home) (dimension : Dimension)
    (k : Known) : lowerAll (front ++ [of (.deferred name home)]) dimension k =
      lowerAll front dimension k ++ [.deferred name home] := by
  induction front generalizing k with
  | nil => rfl
  | cons n front ih =>
    rw [List.cons_append, lowerAll, lowerAll]
    dsimp only
    rw [ih, List.append_assoc]

omit [Library] in
theorem dimensionOf_deferred (front : List Node) (name : String) (home : Home) (k : Known) :
    dimensionOf (of (.intersection (front ++ [of (.deferred name home)]))) k =
      dimensionOf (of (.intersection front)) k := by
  have basis : (of (.intersection (front ++ [of (.deferred name home)]))).basis? =
      (of (.intersection front)).basis? := by
    rw [basis?, fold_of, fold_of]
    simp [Constraint.map, fold]
  have domain : (of (.intersection (front ++ [of (.deferred name home)]))).domain? =
      (of (.intersection front)).domain? := by
    rw [domain?, fold_of, fold_of]
    simp [Constraint.map, fold]
  rw [dimensionOf, dimensionOf, basis, domain]

omit [Library] in
theorem compile_deferred (front : List Node) (name : String) (home : Home) :
    (of (.intersection (front ++ [of (.deferred name home)]))).compile =
      (of (.intersection front)).compile ++ [.deferred name home] := by
  unfold compile lower
  rw [lowerAs, lowerAs, dimensionOf_deferred, lowerAll_deferred]

/-- An object part with an alias is applied exactly where both are, and comes to what the alias
makes of the value, or to what the object part makes of it if the alias leaves it as it is. -/
theorem appliesTo_beside {front : List Node} {name : String} {home : Home} {patience : Nat}
    {v : Visiting (Except (List Problem) Json)} {out : Json}
    (h : (of (.intersection (front ++ [of (.deferred name home)]))).compile.apply b patience
      maxDepth d = some v) (ok : v.outcome = .ok out) : ∃ fuel r s,
      evaluate b (limitTest b maxDepth) fuel (.root .apply maxDepth)
        (frameOf (of (.intersection front)).compile d false) = some r ∧
      evaluate b (limitTest b maxDepth) fuel (.root .apply maxDepth)
        (frameOf (of (.deferred name home)).compile d false) = some s ∧
      r.problems = [] ∧ s.problems = [] ∧ r.value ≠ .failed ∧ s.value ≠ .failed ∧
      out = leftBy d (handedOver r.value s.value) := by
  obtain ⟨fuel, x, evaluated, problems, passed, left⟩ := evaluate_of_ok h ok
  rw [compile_deferred] at evaluated
  obtain ⟨r, s, first, last, passed', passed'', all, value⟩ :=
    evaluate_beside (s := .root .apply maxDepth) evaluated passed
  rw [problems] at all
  obtain ⟨behind, before⟩ := List.append_eq_nil_iff.mp all.symm
  exact ⟨fuel, r, s, first, last, before, behind, passed', passed'', by rw [← left, value]⟩

def objectWith (p : Props Node) : Node := of (.intersection [of (.domain .object), of (.props p)])

theorem lowerProps_spares {p : Props Node} {key : String} (h : ¬ p.Declares b maxDepth key)
    (dimension : Dimension) (k : Known) :
    ∀ c ∈ ((of (.props p)).lowerAs dimension k).1, Spares b maxDepth key c := by
  obtain ⟨required, optional, index, sequence⟩ := p
  have unnamed (e : String × Node) (he : e ∈ required ∨ e ∈ optional) : e.1 ≠ key := by
    rintro rfl
    apply h
    left
    rcases he with he | he
    · exact List.mem_append_left _ (List.mem_map_of_mem he)
    · exact List.mem_append_right _ (List.mem_map_of_mem he)
  rw [lowerAs]
  simp only [List.forall_mem_append]
  refine ⟨⟨⟨?_, ?_⟩, ?_⟩, ?_⟩
  · rw [lowerEntries_eq]
    intro c hc
    obtain ⟨e, he, rfl⟩ := List.mem_map.mp hc
    exact unnamed e (.inl he)
  · rw [lowerEntries_eq]
    intro c hc
    obtain ⟨e, he, rfl⟩ := List.mem_map.mp hc
    exact unnamed e (.inr he)
  · rw [lowerIndex_eq]
    intro c hc
    obtain ⟨s, hs, rfl⟩ := List.mem_map.mp hc
    right
    intro answer tested
    by_contra passes
    rw [Bool.not_eq_false] at passes
    exact h (.inr ⟨s, hs, answer, tested, passes⟩)
  · cases sequence with
    | none => exact List.forall_mem_nil _
    | some s =>
      rw [lowerSequence_eq]
      exact List.forall_mem_singleton.mpr trivial

omit [Library] in
theorem compile_objectWith (p : Props Node) :
    (objectWith p).compile = .domain .object ::
      ((of (.props p)).lowerAs (dimensionOf (objectWith p) .nothing)
        (Known.nothing.learnDomain .object)).1 := by
  have first : (of (.domain .object)).lowerAs (dimensionOf (objectWith p) .nothing) .nothing =
      ([.domain .object], Known.nothing.learnDomain .object) := rfl
  have all : (objectWith p).compile =
      lowerAll [of (.domain .object), of (.props p)] (dimensionOf (objectWith p) .nothing)
        .nothing := rfl
  rw [all, lowerAll, first]
  dsimp only
  rw [lowerAll]
  dsimp only
  rw [lowerAll, List.append_nil, List.singleton_append]

theorem compile_spares {p : Props Node} {key : String} (h : ¬ p.Declares b maxDepth key) :
    ∀ c ∈ (objectWith p).compile, Spares b maxDepth key c := by
  rw [compile_objectWith]
  exact List.forall_mem_cons.mpr ⟨trivial, lowerProps_spares h _ _⟩

/-- A program leaves the value under a key that all its checks spare. -/
theorem evaluate_spares {p : Program} {key : String} (hp : ∀ c ∈ p, Spares b maxDepth key c)
    {fuel : Nat} {s : Site} {nested : Bool} {r : Report Verdict}
    (h : evaluate b (limitTest b maxDepth) fuel s (frameOf p d nested) = some r) :
    (leftBy d r.value).get? key = d.get? key := by
  cases fuel with
  | zero => cases h
  | succ fuel =>
    rw [evaluate_frameOf fuel p p] at h
    obtain ⟨a, checked, rfl⟩ := Option.map_eq_some_iff.mp h
    simp only [Report.map]
    cases ha : a.value with
    | none => rfl
    | some g =>
      have spared := evalChecks_spares hp checked ha
      have data : g.data = d := (evalChecks_retains checked ha).1
      rw [conclude]
      split_ifs
      · rfl
      · rw [ProgramFrame.current, data] at spared
        cases output : g.output with
        | changed v =>
          rw [output] at spared
          exact spared
        | _ => rfl

/-- What an alias makes of a value leaves the keys that its target does not declare. -/
theorem evaluate_alias_spares {q : Props Node} {key : String} (h : ¬ q.Declares b maxDepth key)
    {name : String} {home : Home} (target : b.node? home name = some (objectWith q)) {fuel : Nat}
    {s : Site} {r : Report Verdict}
    (ran : evaluate b (limitTest b maxDepth) fuel s
      (frameOf (of (.deferred name home)).compile d false) = some r) :
    (leftBy d r.value).get? key = d.get? key := by
  cases fuel with
  | zero => cases ran
  | succ fuel =>
    obtain ⟨a, checked, rfl⟩ := Option.map_eq_some_iff.mp ran
    have one : evalChecks b (limitTest b maxDepth)
        (evalFrame b (evaluate b (limitTest b maxDepth) fuel)) s
        [.deferred name home] (frameOf [.deferred name home] d false) = some a := checked
    rw [evalChecks_one] at one
    obtain ⟨y, last, rfl⟩ := Option.map_eq_some_iff.mp one
    rcases evalCheck_deferred rfl last with refused | ⟨v, hv, ⟨n, there, u, found, ran', rfl⟩,
      followed⟩
    · obtain ⟨y', last', value⟩ := refused (frameOf [.deferred name home] d false) rfl
      rw [last, Option.some.injEq] at last'
      subst last'
      simp only [Report.map, value]
      cases s.mode <;> rfl
    · rw [target, Option.some.injEq] at found
      subst found
      rw [followed (frameOf [.deferred name home] d false) rfl, Option.some.injEq] at last
      have spared := evaluate_spares (compile_spares h) ran'
      rw [← last]
      simp only [Report.map]
      cases hu : u.value with
      | failed => exact absurd hu hv
      | unchanged => rfl
      | changed w =>
        rw [hu] at spared
        exact spared

theorem evaluate_morphFree {n : Node} (free : b.MorphFree n) {fuel : Nat} {r : Report Verdict}
    (h : evaluate b (limitTest b maxDepth) fuel (.root .apply maxDepth)
      (frameOf n.compile d false) = some r)
    (passed : r.value ≠ .failed) : r.value = .unchanged := by
  obtain ⟨u, -, concord⟩ :=
    modesAgree b (limitTest b maxDepth) fuel n .nothing d (Known.nothing_holds d)
    (.root .allow maxDepth) false r h
  exact concord.plain free (concord.passed passed).1

/-- Applying the objects with certain properties together with an alias. The keys that the
properties do not declare have the values that the alias by itself comes to. The others have the
values that the properties by themselves come to, unless the alias has changed the value: then the
result is the alias's alone, and where its target does not declare a key, the value under it is the
original one. Without morphs that the alias leads to, nothing of what the properties come to is
lost. -/
theorem compile_apply_beside_alias {p : Props Node} {name : String} {home : Home} {patience : Nat}
    {v : Visiting (Except (List Problem) Json)} {out : Json}
    (h : (of (.intersection [of (.domain .object), of (.props p),
      of (.deferred name home)])).compile.apply b
      patience maxDepth d = some v) (ok : v.outcome = .ok out) :
    ∃ u w, (objectWith p).AppliesTo b maxDepth d u ∧
      (of (.deferred name home)).AppliesTo b maxDepth d w ∧
      (∀ key, ¬ p.Declares b maxDepth key → out.get? key = w.get? key) ∧
      (out = u ∨ out = w ∧ ∀ q, b.node? home name = some (objectWith q) →
        ∀ key, ¬ q.Declares b maxDepth key → out.get? key = d.get? key) ∧
      (b.MorphFree (of (.deferred name home)) → out = u) := by
  have split :
      (of (.intersection ([of (.domain .object), of (.props p)] ++
        [of (.deferred name home)]))).compile.apply b patience maxDepth d = some v := h
  obtain ⟨fuel, r, s, first, last, before, behind, passed, passed', rfl⟩ :=
    appliesTo_beside split ok
  refine ⟨leftBy d r.value, leftBy d s.value, appliesTo_of_evaluate first before passed,
    appliesTo_of_evaluate last behind passed', ?_, ?_, ?_⟩
  · intro key undeclared
    have spared := evaluate_spares (compile_spares undeclared) first
    cases hs : s.value with
    | failed => exact absurd hs passed'
    | unchanged => exact spared
    | changed w => rfl
  · cases hs : s.value with
    | failed => exact absurd hs passed'
    | unchanged => exact .inl rfl
    | changed w =>
      right
      constructor
      · rfl
      · intro q target key undeclared
        have spared := evaluate_alias_spares undeclared target last
        rw [hs] at spared
        exact spared
  · intro free
    rw [evaluate_morphFree free last passed']
    rfl

end Node

end

namespace Node

attribute [local instance] Library.standard

/-- The objects with a text under the key, trimmed. -/
def trimming (key : String) : Props Node :=
  ⟨[(key, of (.morph (of (.domain .string)) [.builtin .trim]))], [], [], none⟩

def trimmingBindings : Bindings where
  node? _ name := if name = "other" then some (objectWith (trimming "a")) else none
  transform _ _ := .ok

theorem trimming_declares {key key' : String} :
    (trimming key).Declares trimmingBindings none key' ↔ key' = key := by
  constructor
  · rintro (named | ⟨s, hs, -⟩)
    · exact List.mem_singleton.mp named
    · cases hs
  · rintro rfl
    exact .inl (List.mem_singleton_self key')

/-- Beside the alias the key `b` keeps its blanks, though it is trimmed without it. -/
theorem compile_apply_beside_alias_trimming :
    (of (.intersection [of (.domain .object), of (.props (trimming "b")),
      of (.deferred "other" none)])).compile.apply
        trimmingBindings 5 none (.object [("a", .string " y "), ("b", .string " z ")]) =
      some ⟨.ok (.object [("a", .string "y"), ("b", .string " z ")]), [(none, "other")]⟩ ∧
    ∃ u w, (objectWith (trimming "b")).AppliesTo trimmingBindings none
        (.object [("a", .string " y "), ("b", .string " z ")]) u ∧
      (of (.deferred "other" none)).AppliesTo trimmingBindings none
        (.object [("a", .string " y "), ("b", .string " z ")]) w ∧
      w.get? "a" = some (.string "y") := by
  have applied : (of (.intersection [of (.domain .object), of (.props (trimming "b")),
        of (.deferred "other" none)])).compile.apply trimmingBindings 5 none
        (.object [("a", .string " y "), ("b", .string " z ")]) =
      some ⟨.ok (.object [("a", .string "y"), ("b", .string " z ")]), [(none, "other")]⟩ := rfl
  obtain ⟨u, w, first, last, kept, -⟩ := compile_apply_beside_alias applied rfl
  have undeclared : ¬ (trimming "b").Declares trimmingBindings none "a" := by
    rw [trimming_declares]
    decide
  exact ⟨applied, u, w, first, last, (kept "a" undeclared).symm⟩

end Node

end SchemaAlgebra

import SchemaAlgebra.Proofs.Agreement
import SchemaAlgebra.Proofs.Validation
import SchemaAlgebra.Standard

/-!
# Caps on aliases

A cap on the aliases within one another turns an alias that is too deep into a failure. A check
that fails rejects the value, so a lower cap rejects more. There is one exception: where the
name of a property is tested against the key of a signature, a failure means that the value
under the name is not looked at. A lower cap rejects more as long as it hides no name from a key.
-/
namespace SchemaAlgebra

section

open Traversal

variable [Library]

namespace Traversal

/-- What decides a value that is to be allowed: the cap, the test of names and the evaluation
of programs. -/
structure Regime where
  cap : Option Nat
  test : Program → String → Option KeyTest
  program : Site → ProgramFrame → Option (Report Verdict)

namespace Regime

def site (x : Regime) (depth : Nat) (path : List Segment) : Site := ⟨.allow, x.cap, depth, path⟩

/-- The regime of whole validations under a cap, up to so many programs within one another. -/
noncomputable def under (b : Bindings) (cap : Option Nat) (fuel : Nat) : Regime :=
  ⟨cap, limitTest b cap, evaluate b (limitTest b cap) fuel⟩

/-- Where the first regime follows an alias, so does the second one. -/
def Within (x y : Regime) : Prop :=
  ∀ max, y.cap = some max → ∃ least, x.cap = some least ∧ least ≤ max

end Regime

section

variable (b : Bindings) (x y : Regime)

/-- Where both evaluations end, what passes in the first regime passes in the second. -/
def Loosens (p : Program) (d : Json) : Prop :=
  ∀ (depth : Nat) (path : List Segment) (nested : Bool) (r r' : Report Verdict),
    x.program (x.site depth path) (frameOf p d nested) = some r →
      y.program (y.site depth path) (frameOf p d nested) = some r' → r.value ≠ .failed →
        r'.value ≠ .failed

def FrameLoosens (child : Frame) : Prop :=
  ∀ (depth : Nat) (path : List Segment) (r r' : Report Done),
    evalFrame b x.program (x.site depth path) child = some r →
      evalFrame b y.program (y.site depth path) child = some r' →
        ∃ v w, r.value = .value v ∧ r'.value = .value w ∧ (v ≠ .failed → w ≠ .failed)

def CheckLoosens (c : Check) (d : Json) : Prop :=
  ∀ (depth : Nat) (path : List Segment) (f f' : ProgramFrame)
    (r r' : Report (ProgramFrame × Judgement)),
    f.data = d → f'.data = d →
      evalCheck b x.test (evalFrame b x.program) (x.site depth path) c f = some r →
        evalCheck b y.test (evalFrame b y.program) (y.site depth path) c f' = some r' →
          r.value.2 = .pass → r'.value.2 = .pass

/-- The first test takes every name for the key that the second one does. -/
def KeepsNames (key : Program) : Prop :=
  ∀ (name : String) (answer answer' : KeyTest), x.test key name = some answer →
    y.test key name = some answer' → answer'.passes = true → answer.passes = true

end

section

variable {b : Bindings} {x y : Regime} {d : Json}

omit [Library] in
/-- To allow a value goes on after a check exactly if it passes. -/
theorem goOn_allow {f g : ProgramFrame} {j : Judgement} (h : goOn .allow f j = some g) :
    j = .pass ∧ g = f := by
  cases j with
  | pass => exact ⟨rfl, (Option.some.inj h).symm⟩
  | fail => cases h
  | abort => cases h

theorem evalChecks_keeps {test : Program → String → Option KeyTest}
    {frame : Site → Frame → Option (Report Done)} {s : Site} (allows : s.mode = .allow)
    {p : Program} {f g : ProgramFrame} {r : Report (Option ProgramFrame)}
    (h : evalChecks b test frame s p f = some r) (hg : r.value = some g) : Keeps f g := by
  induction p generalizing f r with
  | nil =>
    cases h
    cases hg
    exact .refl _
  | cons c p ih =>
    rw [evalChecks, Report.bind_eq_some] at h
    obtain ⟨a, v, checked, others, rfl⟩ := h
    rw [allows] at others
    dsimp only at others
    cases went : goOn .allow a.value.1 a.value.2 with
    | none =>
      rw [went] at others
      cases others
      cases hg
    | some f' =>
      rw [went] at others
      exact ((evalCheck_keeps checked).trans (goOn_keeps went)).trans (ih others hg)

/-- Checks in order pass in the second regime if each of them does. -/
theorem evalChecks_loosens {p : Program} (h : ∀ c ∈ p, CheckLoosens b x y c d) {depth : Nat}
    {path : List Segment} {f f' : ProgramFrame} {r r' : Report (Option ProgramFrame)}
    (hf : f.data = d) (hf' : f'.data = d)
    (ran : evalChecks b x.test (evalFrame b x.program) (x.site depth path) p f = some r)
    (ran' : evalChecks b y.test (evalFrame b y.program) (y.site depth path) p f' = some r')
    (passed : r.value.isSome) : r'.value.isSome := by
  induction p generalizing f f' r r' with
  | nil =>
    cases ran'
    rfl
  | cons c p ih =>
    rw [evalChecks, Report.bind_eq_some] at ran ran'
    obtain ⟨a, v, checked, others, rfl⟩ := ran
    obtain ⟨a', v', checked', others', rfl⟩ := ran'
    have kept := evalCheck_keeps checked
    have kept' := evalCheck_keeps checked'
    cases went : goOn .allow a.value.1 a.value.2 with
    | none =>
      have ended : some (Report.silent none) = some v := by
        rw [← others]
        simp only [Regime.site, went]
      cases ended
      cases passed
    | some g =>
      obtain ⟨pass, rfl⟩ := goOn_allow went
      have pass' : a'.value.2 = .pass :=
        h c List.mem_cons_self depth path f f' a a' hf hf' checked checked' pass
      dsimp only at others others'
      rw [pass] at others
      rw [pass'] at others'
      have passed : v.value.isSome := passed
      have passed' : v'.value.isSome := ih (fun c' hc => h c' (List.mem_cons_of_mem _ hc))
        (kept.data.trans hf) (kept'.data.trans hf') others others' passed
      exact passed'

theorem conclude_allow {test : Program → String → Option KeyTest}
    {frame : Site → Frame → Option (Report Done)} {s : Site} (allows : s.mode = .allow)
    {p : Program} {nested : Bool} {r : Report (Option ProgramFrame)}
    (h : evalChecks b test frame s p (frameOf p d nested) = some r) :
    conclude r.value ≠ .failed ↔ r.value.isSome := by
  cases hr : r.value with
  | none => simp [conclude]
  | some g =>
    obtain ⟨unfailed, going⟩ := (evalChecks_keeps allows h hr).unfailed
    simp [conclude, unfailed, going]

theorem loosens_of_checks {cap limit : Option Nat} {fuel : Nat} {p : Program}
    (h : ∀ c ∈ p, CheckLoosens b (.under b cap fuel) (.under b limit fuel) c d) :
    Loosens (.under b cap (fuel + 1)) (.under b limit (fuel + 1)) p d := by
  intro depth path nested r r' ran ran' passed
  obtain ⟨a, checked, rfl⟩ := Option.map_eq_some_iff.mp ran
  obtain ⟨a', checked', rfl⟩ := Option.map_eq_some_iff.mp ran'
  have some_a : a.value.isSome := (conclude_allow rfl checked).mp passed
  exact (conclude_allow rfl checked').mpr (evalChecks_loosens h rfl rfl checked checked' some_a)

theorem checkLoosens_settled {c : Check} {j : Judgement}
    (h : ∀ (test : Program → String → Option KeyTest) (t : Traversal), t.mode = .allow →
      ∃ u, begin? b test t c d = (u, .settled j)) : CheckLoosens b x y c d := by
  intro depth path f f' r r' hf hf' ran ran' passed
  obtain ⟨t, begun⟩ := h x.test (x.site depth path).fresh rfl
  obtain ⟨t', begun'⟩ := h y.test (y.site depth path).fresh rfl
  rw [evalCheck, hf, begun] at ran
  rw [evalCheck, hf', begun'] at ran'
  cases ran
  cases ran'
  exact passed

theorem checkLoosens_judged {c : Check} {passes : Bool} {otherwise : Judgement}
    (h : ∀ (test : Program → String → Option KeyTest) (t : Traversal), ∃ code message,
      begin? b test t c d = settle (t.judge passes otherwise code message)) :
      CheckLoosens b x y c d := by
  refine checkLoosens_settled (j := if passes then .pass else otherwise) fun test t _ => ?_
  obtain ⟨code, message, begun⟩ := h test t
  rw [begun]
  cases passes with
  | true => exact ⟨_, rfl⟩
  | false => exact ⟨_, rfl⟩

/-- A check of the value, or of one under a key, by another frame that is started in both regimes
unless the first one fails at once. -/
theorem checkLoosens_descend {c : Check} {child : Frame} {pending : Pending}
    (waits : pending = .whole ∨ ∃ name, pending = .key name)
    (loosens : FrameLoosens b x y child) (h : ∀ (depth : Nat) (path : List Segment),
      (∃ t, begin? b x.test (x.site depth path).fresh c d = (t, .settled .fail)) ∨
        ∃ depth' path',
        (∃ t, begin? b x.test (x.site depth path).fresh c d = (t, .descend child pending) ∧
          t.site = x.site depth' path') ∧
        ∃ t, begin? b y.test (y.site depth path).fresh c d = (t, .descend child pending) ∧
          t.site = y.site depth' path') : CheckLoosens b x y c d := by
  have absorbed (f : ProgramFrame) (v : Verdict) : (absorb f pending (.value v)).2 = .pass ↔
      v ≠ .failed := by
    rcases waits with rfl | ⟨name, rfl⟩ <;> cases v <;> simp [absorb]
  intro depth path f f' r r' hf hf' ran ran' passed
  obtain ⟨t, refused⟩ | ⟨depth', path', ⟨t, begun, site⟩, t', begun', site'⟩ :=
    h depth path
  · rw [evalCheck, hf, refused] at ran
    cases ran
    cases passed
  rw [evalCheck, hf, begun] at ran
  rw [evalCheck, hf', begun'] at ran'
  obtain ⟨a, first, rfl⟩ := Option.map_eq_some_iff.mp ran
  obtain ⟨a', first', rfl⟩ := Option.map_eq_some_iff.mp ran'
  rw [site] at first
  rw [site'] at first'
  obtain ⟨v, w, hv, hw, loose⟩ := loosens depth' path' a a' first first'
  rw [hv, absorbed] at passed
  rw [hw, absorbed]
  exact loose passed

theorem Loosens.frame {p : Program} (h : Loosens x y p d) (nested : Bool) :
    FrameLoosens b x y (.start p d nested) := by
  intro depth path r r' ran ran'
  obtain ⟨a, first, rfl⟩ := Option.map_eq_some_iff.mp ran
  obtain ⟨a', first', rfl⟩ := Option.map_eq_some_iff.mp ran'
  exact ⟨a.value, a'.value, rfl, rfl, h depth path nested a a' first first'⟩

theorem checkLoosens_key {name : String} {required : Bool} {p : Program}
    (h : ∀ child, Loosens x y p child) : CheckLoosens b x y (.key name required p) d := by
  cases hc : d.get? name with
  | some child =>
    have begun (test : Program → String → Option KeyTest) (s : Site) :
        begin? b test s.fresh (.key name required p) d =
          ((s.inside (.key name)).fresh, .descend (.start p child true) (.key name)) := by
      simp only [begin?, beginKey, hc]
      rfl
    exact checkLoosens_descend (Or.inr ⟨name, rfl⟩) ((h child).frame true) fun depth path =>
      Or.inr ⟨depth, .key name :: path, ⟨_, begun _ _, rfl⟩, _, begun _ _, rfl⟩
  | none =>
    refine checkLoosens_settled (j := if required then .fail else .pass) fun test t _ => ?_
    simp only [begin?, beginKey, hc, judgeMissing]
    cases required with
    | true => exact ⟨_, rfl⟩
    | false => exact ⟨_, rfl⟩

omit [Library] in
theorem evalJobs_passed {z : Regime} (depth : Nat) (path : List Segment) {jobs : List Job}
    {patches : List (Segment × Json)} {r : Report Done}
    (ran : evalJobs z.program (z.site depth path) jobs .pass patches = some r) :
    ∃ j ps, r.value = .children j ps ∧ (j = .pass → ∀ job ∈ jobs, ∃ a : Report Verdict,
      z.program (z.site depth (job.segment :: path)) (frameOf job.program job.data true) =
        some a ∧ a.value ≠ .failed) ∧
      (j ≠ .pass → ∃ job ∈ jobs, ∃ a : Report Verdict,
        z.program (z.site depth (job.segment :: path)) (frameOf job.program job.data true) =
          some a ∧ a.value = .failed) := by
  induction jobs generalizing patches r with
  | nil =>
    cases ran
    exact ⟨.pass, patches, rfl, fun _ => List.forall_mem_nil _, fun h => absurd rfl h⟩
  | cons job jobs ih =>
    rw [evalJobs, Report.bind_eq_some] at ran
    obtain ⟨a, v, first, others, rfl⟩ := ran
    have goes (patches' : List (Segment × Json)) (passes : a.value ≠ .failed)
        (others : evalJobs z.program (z.site depth path) jobs .pass patches' = some v) :
        ∃ j ps, (a.after v).value = .children j ps ∧
          (j = .pass → ∀ job' ∈ job :: jobs, ∃ a : Report Verdict,
          z.program (z.site depth (job'.segment :: path)) (frameOf job'.program job'.data true) =
            some a ∧ a.value ≠ .failed) ∧
          (j ≠ .pass → ∃ job' ∈ job :: jobs, ∃ a : Report Verdict,
            z.program (z.site depth (job'.segment :: path)) (frameOf job'.program job'.data true) =
              some a ∧ a.value = .failed) := by
      obtain ⟨j, ps, hv, all, fails⟩ := ih others
      refine ⟨j, ps, hv, fun pass =>
        List.forall_mem_cons.mpr ⟨⟨a, first, passes⟩, all pass⟩, fun refused => ?_⟩
      obtain ⟨job', hj, failed⟩ := fails refused
      exact ⟨job', List.mem_cons_of_mem _ hj, failed⟩
    cases ha : a.value with
    | failed =>
      have ended : some (Report.silent (.children .fail [])) = some v := by
        rw [← others]
        simp only [Regime.site, ha]
      cases ended
      exact ⟨.fail, [], rfl, (by simp), fun _ => ⟨job, List.mem_cons_self, a, first, ha⟩⟩
    | unchanged =>
      rw [ha] at others
      exact goes patches (by simp [ha]) others
    | changed w =>
      rw [ha] at others
      exact goes _ (by simp [ha]) others

/-- The second regime may leave out children that the first one looks at. -/
theorem checkLoosens_jobs {c : Check} {jobs jobs' : List Job} (asked asked' : List (Home × String))
    (begun : ∀ depth path, begin? b x.test (x.site depth path).fresh c d =
      ({ (x.site depth path).fresh with visited := asked } : Traversal).beginChildren jobs)
    (begun' : ∀ depth path, begin? b y.test (y.site depth path).fresh c d =
      ({ (y.site depth path).fresh with visited := asked' } : Traversal).beginChildren jobs')
    (fewer : ∀ job ∈ jobs', job ∈ jobs)
    (h : ∀ job ∈ jobs', Loosens x y job.program job.data) : CheckLoosens b x y c d := by
  intro depth path f f' r r' hf hf' ran ran' passed
  rw [evalCheck, hf, begun] at ran
  rw [evalCheck, hf', begun'] at ran'
  rcases jobs' with _ | ⟨job', jobs'⟩
  · cases ran'
    rfl
  obtain ⟨a', first', rfl⟩ := Option.map_eq_some_iff.mp ran'
  obtain ⟨j', ps', hv', -, fails⟩ := evalJobs_passed (z := y) depth path first'
  simp only [hv', absorb]
  by_contra refused
  obtain ⟨job, hj, v', ran', failed⟩ := fails refused
  rcases jobs with _ | ⟨first, others⟩
  · cases fewer job hj
  obtain ⟨a, first, rfl⟩ := Option.map_eq_some_iff.mp ran
  obtain ⟨j, ps, hv, all, -⟩ := evalJobs_passed (z := x) depth path first
  simp only [hv, absorb] at passed
  obtain ⟨v, ran, passes⟩ := all passed job (fewer job hj)
  exact h job hj depth _ true v v' ran ran' passes failed

theorem checkLoosens_elements {items : List Program} {rest : Option Program}
    (h : ∀ p, p ∈ items ∨ rest = some p → ∀ child, Loosens x y p child) :
    CheckLoosens b x y (.elements items rest) d := by
  cases d with
  | array xs =>
    cases fits : fitsLength items rest xs with
    | true =>
      refine checkLoosens_jobs [] [] (fun depth path => begin_elements fits _)
        (fun depth path => begin_elements fits _) (fun job hj => hj) fun job hj => ?_
      exact h job.program (program_of_mem_elementJobs hj) job.data
    | false => exact checkLoosens_judged fun test t => begin_elements_abort fits t
  | _ => exact checkLoosens_settled (j := .pass) fun test t _ => ⟨t, rfl⟩

omit [Library] in
/-- The jobs of a signature that are left, and those left out, are told by the test of their names.
-/
theorem indexJobs_fewer {key value : Program} (keys : KeepsNames x y key) {named : List String}
    {entries : List (String × Json)} {jobs jobs' : List Job} {asked asked' : List (Home × String)}
    (h : indexJobs x.test key value named entries = some (jobs, asked))
    (h' : indexJobs y.test key value named entries = some (jobs', asked')) :
    ∀ job ∈ jobs', job ∈ jobs := by
  induction entries generalizing jobs jobs' asked asked' with
  | nil =>
    cases h'
    nofun
  | cons e entries ih =>
    obtain ⟨name, child⟩ := e
    rw [indexJobs] at h h'
    split at h
    · rename_i mentioned
      rw [if_pos mentioned] at h'
      exact ih h h'
    · rename_i free
      rw [if_neg free] at h'
      simp only [Option.bind_eq_bind, Option.bind_eq_some_iff] at h h'
      obtain ⟨answer, answered, ⟨others, asked₁⟩, found, h⟩ := h
      obtain ⟨answer', answered', ⟨others', asked₂⟩, found', h'⟩ := h'
      have later := ih found found'
      dsimp only at h h'
      split at h'
      · rename_i passes
        rw [if_pos (keys name answer answer' answered answered' passes)] at h
        cases h
        cases h'
        intro job hj
        rcases List.mem_cons.mp hj with rfl | hj
        · exact List.mem_cons_self
        · exact List.mem_cons_of_mem _ (later job hj)
      · cases h'
        split at h <;> cases h
        · exact fun job hj => List.mem_cons_of_mem _ (later job hj)
        · exact later

theorem checkLoosens_index {key value : Program} {named : List String} (keys : KeepsNames x y key)
    (h : ∀ child, Loosens x y value child) : CheckLoosens b x y (.index key value named) d := by
  cases d with
  | object entries =>
    cases found : indexJobs x.test key value named entries with
    | none =>
      intro depth path f f' r r' hf hf' ran ran' passed
      simp only [evalCheck, hf, begin?, beginIndex, found] at ran
      cases ran
    | some jobs =>
      obtain ⟨jobs, asked⟩ := jobs
      cases found' : indexJobs y.test key value named entries with
      | none =>
        intro depth path f f' r r' hf hf' ran ran' passed
        simp only [evalCheck, hf', begin?, beginIndex, found'] at ran'
        cases ran'
      | some jobs' =>
        obtain ⟨jobs', asked'⟩ := jobs'
        refine checkLoosens_jobs asked asked' (fun depth path => ?_) (fun depth path => ?_)
          (indexJobs_fewer keys found found') fun job hj => ?_
        · simp [begin?, beginIndex, found, Site.fresh]
        · simp [begin?, beginIndex, found', Site.fresh]
        · rw [program_of_mem_indexJobs found' hj]
          exact h job.data
  | _ => exact checkLoosens_settled (j := .pass) fun test t _ => ⟨t, rfl⟩

omit [Library] in
theorem evalBranches_passed {z : Regime} {depth : Nat} {path : List Segment} {expected : String}
    {ps : List Program} {r : Report Done}
    (ran : evalBranches z.program (z.site depth path) d expected ps = some r) :
    ∃ v, r.value = .value v ∧
      (v = .failed → ∀ p ∈ ps, ∃ a : Report Verdict,
        z.program (z.site depth path) (frameOf p d false) = some a ∧ a.value = .failed) ∧
      (v ≠ .failed → ∃ p ∈ ps, ∃ a : Report Verdict,
        z.program (z.site depth path) (frameOf p d false) = some a ∧ a.value ≠ .failed) := by
  induction ps generalizing r with
  | nil =>
    cases ran
    exact ⟨.failed, rfl, fun _ => nofun, fun h => absurd rfl h⟩
  | cons p ps ih =>
    rw [evalBranches, Report.bind_eq_some] at ran
    obtain ⟨_, v, silenced, others, rfl⟩ := ran
    obtain ⟨a, first, rfl⟩ := Option.map_eq_some_iff.mp silenced
    dsimp only at others
    by_cases failed : a.value = .failed
    · rw [failed] at others
      obtain ⟨w, hw, all, passes⟩ := ih others
      refine ⟨w, hw, fun h => List.forall_mem_cons.mpr ⟨⟨a, first, failed⟩, all h⟩,
        fun h => ?_⟩
      obtain ⟨q, hq, passed⟩ := passes h
      exact ⟨q, List.mem_cons_of_mem _ hq, passed⟩
    · have stops : v = .silent (.value a.value) := by
        cases ha : a.value with
        | failed => exact absurd ha failed
        | unchanged =>
          rw [ha] at others
          exact (Option.some.inj others).symm
        | changed w =>
          rw [ha] at others
          exact (Option.some.inj others).symm
      rw [stops]
      exact ⟨a.value, rfl, fun h => absurd h failed,
        fun _ => ⟨p, List.mem_cons_self, a, first, failed⟩⟩

theorem branchesFrame_loosens {expected : String} {ps : List Program}
    (h : ∀ p ∈ ps, Loosens x y p d) : FrameLoosens b x y (branchesFrame d expected ps) := by
  have several : FrameLoosens b x y (.branches ⟨ps, d, none, expected⟩) := by
    intro depth path r r' ran ran'
    obtain ⟨v, hv, -, passes⟩ := evalBranches_passed (z := x) ran
    obtain ⟨w, hw, all, -⟩ := evalBranches_passed (z := y) ran'
    refine ⟨v, w, hv, hw, fun passed refused => ?_⟩
    obtain ⟨p, hp, a, first, passed⟩ := passes passed
    obtain ⟨a', first', refused⟩ := all refused p hp
    exact h p hp depth path false a a' first first' passed refused
  match ps with
  | [] => exact several
  | [p] => exact (h p List.mem_cons_self).frame false
  | p :: q :: ps => exact several

omit [Library] in
/-- The branches that a value is led to do not depend on what was found before. -/
theorem route_programs (fallback : List Program) (t u : Traversal) (same : t.mode = u.mode)
    (dispatch : Dispatch) :
    (t.route fallback d dispatch).2 = (u.route fallback d dispatch).2 := by
  obtain ⟨dest, -, routed⟩ := dispatch.exists_reached d
  rw [routed, routed]
  cases dest with
  | branches programs => rfl
  | fallback => simp only [Destination.reached, same]
  | refusal probe expected => rfl

omit [Library] in
/-- To allow a value takes it to branches lowered with some facts. -/
theorem lowered_of_route {lowered : List (Known → Program)} {fallback : List Program}
    {t : Traversal} (allows : t.mode = .allow) (tree : DecisionTree) (k : Known) {ps : List Program}
    (h : (t.route fallback d (lowerTree lowered tree k)).2 = some ps) :
    ∀ p ∈ ps, ∃ lower ∈ lowered, ∃ k', lower k' = p := by
  obtain ⟨dest, leads, routed⟩ := (lowerTree lowered tree k).exists_reached d
  rw [routed, dest.reached_allow allows] at h
  cases dest with
  | branches programs =>
    cases h
    exact tree.lowered_of_leads leads
  | _ => cases h

theorem checkLoosens_union {lowered : List (Known → Program)} {tree : DecisionTree} {k : Known}
    {fallback : List Program} {expected : String}
    (h : ∀ lower ∈ lowered, ∀ k', Loosens x y (lower k') d) :
    CheckLoosens b x y (.union (lowerTree lowered tree k) fallback expected) d := by
  generalize hd : lowerTree lowered tree k = dispatch
  cases routed : (Traversal.route (x.site 0 []).fresh fallback d dispatch).2 with
  | none =>
    refine checkLoosens_settled (j := .fail) fun test t allows => ?_
    have nowhere : (t.route fallback d dispatch).2 = none :=
      (route_programs fallback t (x.site 0 []).fresh allows dispatch).trans routed
    refine ⟨(t.route fallback d dispatch).1, ?_⟩
    cases hr : t.route fallback d dispatch with
    | mk u o =>
      rw [hr] at nowhere
      cases nowhere
      simp only [begin?, beginUnion, hr]
  | some ps =>
    have loose : FrameLoosens b x y (branchesFrame d expected ps) := by
      refine branchesFrame_loosens fun p hp => ?_
      subst hd
      obtain ⟨lower, hl, k', rfl⟩ := lowered_of_route rfl tree k routed p hp
      exact h lower hl k'
    have begun (test : Program → String → Option KeyTest) (s : Site)
        (allows : s.mode = .allow) :
        ∃ t, begin? b test s.fresh (.union dispatch fallback expected) d =
          (t, .descend (branchesFrame d expected ps) .whole) ∧ t.site = s := by
      have found : (s.fresh.route fallback d dispatch).2 = some ps :=
        (route_programs fallback s.fresh (x.site 0 []).fresh allows dispatch).trans routed
      exact ⟨_, begin_union (Prod.ext rfl found), route_site s.fresh fallback d dispatch⟩
    exact checkLoosens_descend (Or.inl rfl) loose fun depth path =>
      Or.inr ⟨depth, path, begun _ _ rfl, begun _ _ rfl⟩

theorem begin_shallow {test : Program → String → Option KeyTest} {t : Traversal} {name : String}
    {home : Home} (shallow : ∀ max, t.maxDepth = some max → t.depth < max) :
    begin? b test t (.deferred name home) d = follow b t name home d := by
  simp only [begin?, beginDeferred]
  cases capped : t.maxDepth with
  | none => rfl
  | some max => exact if_neg (Nat.not_le_of_lt (shallow max capped))

/-- An alias that the first regime follows is followed by the second. -/
theorem checkLoosens_deferred (within : x.Within y) {name : String} {home : Home}
    (h : ∀ n, b.node? home name = some n → Loosens x y n.compile d) :
    CheckLoosens b x y (.deferred name home) d := by
  have loose : FrameLoosens b x y (.target ((b.node? home name).map (·.compile)) d) := by
    intro depth path r r' ran ran'
    cases found : b.node? home name with
    | none =>
      rw [found] at ran ran'
      cases ran
      cases ran'
      exact ⟨.failed, .failed, rfl, rfl, id⟩
    | some n =>
      rw [found] at ran ran'
      obtain ⟨a, first, rfl⟩ := Option.map_eq_some_iff.mp ran
      obtain ⟨a', first', rfl⟩ := Option.map_eq_some_iff.mp ran'
      exact ⟨a.value, a'.value, rfl, rfl, h n found depth path false a a' first first'⟩
  refine checkLoosens_descend (Or.inl rfl) loose fun depth path => ?_
  rcases begin_deferred b x.test name home (x.site depth path) d with
    ⟨code, message, refused⟩ | ⟨n, found, shallow, followed⟩
  · exact Or.inl ⟨_, refused .allow⟩
  · have shallow' (max : Nat) (capped : y.cap = some max) : depth < max := by
      obtain ⟨least, capped', le⟩ := within max capped
      exact Nat.lt_of_lt_of_le (shallow least capped') le
    rw [found]
    refine Or.inr ⟨depth + 1, path, ⟨_, followed .allow, rfl⟩, ?_⟩
    refine ⟨{ (y.site depth path).fresh with depth := depth + 1, visited := [(home, name)] },
      ?_, rfl⟩
    rw [begin_shallow shallow', follow, found]
    rfl

theorem checkLoosens_morph {p : Program} {steps : List Step} (h : Loosens x y p d) :
    CheckLoosens b x y (.morph p steps) d := by
  refine checkLoosens_descend (Or.inl rfl) (fun depth path r r' ran ran' => ?_) fun depth path =>
    Or.inr ⟨depth, path, ⟨_, rfl, rfl⟩, _, rfl, rfl⟩
  rw [evalFrame, Report.bind_eq_some] at ran ran'
  obtain ⟨a, v, first, ended, rfl⟩ := ran
  obtain ⟨a', v', first', ended', rfl⟩ := ran'
  cases ended
  cases ended'
  exact ⟨a.value, a'.value, by cases a.value <;> rfl, by cases a'.value <;> rfl,
    h depth path false a a' first first'⟩

end

end Traversal

theorem Traversal.exists_testKey {b : Bindings} {cap : Option Nat} {p : Program} {name : String}
    {answer : KeyTest} (h : limitTest b cap p name = some answer) :
    ∃ patience, testKey b patience cap p name = some answer := by
  rw [limitTest] at h
  split at h
  · rename_i answered
    rw [← h]
    exact answered.choose_spec
  · cases h

namespace Bindings

variable (b : Bindings)

/-- A key keeps its names under a cap if the limit takes no name for it that the cap does not. -/
def KeepsNames (max : Nat) (limit : Option Nat) (key : Node) : Prop :=
  ∀ (name : String) (patience patience' : Nat) (answer answer' : KeyTest),
    testKey b patience (some max) key.compile name = some answer →
      testKey b patience' limit key.compile name = some answer' →
        answer'.passes = true → answer.passes = true

/-- All keys of signatures that are reached from the node keep their names. -/
def HidesNoName (max : Nat) (limit : Option Nat) (n : Node) : Prop :=
  ∀ p : Props Node, Relation.ReflTransGen b.Leads n (.of (.props p)) →
    ∀ s ∈ p.index, b.KeepsNames max limit s.key

variable {b : Bindings} {max : Nat} {limit : Option Nat}

theorem HidesNoName.of_leads {n m : Node} (h : b.HidesNoName max limit n) (leads : b.Leads n m) :
    b.HidesNoName max limit m :=
  fun p reached => h p (.head leads reached)

theorem KeepsNames.regimes {key : Node} (h : b.KeepsNames max limit key) (fuel : Nat) :
    Traversal.KeepsNames (.under b (some max) fuel) (.under b limit fuel) key.compile := by
  intro name answer answer' answered answered' passes
  obtain ⟨patience, tested⟩ := exists_testKey answered
  obtain ⟨patience', tested'⟩ := exists_testKey answered'
  exact h name patience patience' answer answer' tested tested' passes

theorem keepsNames_of_hasAlias {key : Node} (hasAlias : key.hasAlias = false) :
    b.KeepsNames max limit key := by
  intro name patience patience' answer answer' tested tested' passes
  have admits (cap : Option Nat) (q : Nat) (a : KeyTest)
      (h : testKey b q cap key.compile name = some a) : a.passes = key.admits (.string name) := by
    have answered := limitTest_answersKeys b cap key hasAlias name
    rw [limitTest_eq_some h] at answered
    rw [Option.some.inj answered]
  rw [admits _ _ _ tested, ← admits _ _ _ tested', passes]

/-- No name is hidden where the keys that can be reached have no aliases. -/
theorem hidesNoName_of_closed {n : Node} (reached : Node → Prop) (start : reached n)
    (closed : ∀ m m', reached m → b.Leads m m' → reached m')
    (keys : ∀ p : Props Node, reached (.of (.props p)) →
      ∀ s ∈ p.index, s.key.hasAlias = false) : b.HidesNoName max limit n := by
  have all (m : Node) (leads : Relation.ReflTransGen b.Leads n m) : reached m := by
    induction leads with
    | refl => exact start
    | tail _ last ih => exact closed _ _ ih last
  exact fun p leads s hs => keepsNames_of_hasAlias (keys p (all _ leads) s hs)

end Bindings

namespace Node

/-- What passes under the cap passes under the limit, whatever is known of the value. -/
def CapLoosens (b : Bindings) (max : Nat) (limit : Option Nat) (fuel : Nat) (n : Node) : Prop :=
  ∀ (k : Known) (d : Json), Loosens (.under b (some max) fuel) (.under b limit fuel) (n.lower k) d

section

variable {b : Bindings} {max : Nat} {limit : Option Nat} {fuel : Nat}
  (h : ∀ m, b.HidesNoName max limit m → CapLoosens b max limit fuel m)
  (within : ∀ m ∈ limit, max ≤ m)

include h within

theorem lowerAs_loosens (n : Node) (named : b.HidesNoName max limit n) (dimension : Dimension)
    (k : Known) (d : Json) : ∀ c ∈ (n.lowerAs dimension k).1,
      CheckLoosens b (.under b (some max) fuel) (.under b limit fuel) c d := by
  induction n using Node.inductionOn generalizing dimension k d with
  | step c ih =>
    have kept (m : Node) (hm : m ∈ c.children) : b.HidesNoName max limit m :=
      named.of_leads (.child hm)
    have below (m : Node) (hm : m ∈ c.children) : CapLoosens b max limit fuel m := h m (kept m hm)
    cases c with
    | domain dm =>
      simp only [lowerAs]
      split_ifs
      · exact List.forall_mem_nil _
      · exact List.forall_mem_singleton.mpr (checkLoosens_judged fun _ _ => ⟨_, _, rfl⟩)
    | literal l =>
      simp only [lowerAs]
      split_ifs
      · exact List.forall_mem_nil _
      · exact List.forall_mem_singleton.mpr (checkLoosens_judged fun _ _ => ⟨_, _, rfl⟩)
    | basis c =>
      simp only [lowerAs]
      split_ifs
      · exact List.forall_mem_nil _
      · exact List.forall_mem_singleton.mpr (checkLoosens_judged fun _ _ => ⟨_, _, rfl⟩)
    | bound r =>
      exact List.forall_mem_singleton.mpr (checkLoosens_judged fun _ _ => ⟨_, _, rfl⟩)
    | divisor n =>
      exact List.forall_mem_singleton.mpr (checkLoosens_judged fun _ _ => ⟨_, _, rfl⟩)
    | patterns ps =>
      exact List.forall_mem_singleton.mpr (checkLoosens_judged fun _ _ => ⟨_, _, rfl⟩)
    | brand name => exact List.forall_mem_nil _
    | deferred name home =>
      refine List.forall_mem_singleton.mpr (checkLoosens_deferred ?_ fun m hm => ?_)
      · exact fun m hm => ⟨max, rfl, within m hm⟩
      · exact h m (named.of_leads (.target hm)) .nothing d
    | morph input steps =>
      exact List.forall_mem_singleton.mpr
        (checkLoosens_morph (below input (by simp [Constraint.children]) k d))
    | union branches =>
      cases branches with
      | nil =>
        exact List.forall_mem_singleton.mpr
          (checkLoosens_settled (j := .abort) fun _ _ _ => ⟨_, rfl⟩)
      | cons n r =>
        refine List.forall_mem_singleton.mpr (checkLoosens_union fun lower hl k' => ?_)
        rw [lowerEach_eq] at hl
        obtain ⟨m, hm, rfl⟩ := List.mem_map.mp hl
        exact below m hm k' d
    | intersection children =>
      simp only [lowerAs]
      generalize dimensionOf (of (.intersection children)) k = dimension
      have all (ms : List Node) (hms : ∀ m ∈ ms, m ∈ children) (k : Known) :
          ∀ c ∈ lowerAll ms dimension k,
            CheckLoosens b (.under b (some max) fuel) (.under b limit fuel) c d := by
        induction ms generalizing k with
        | nil => exact List.forall_mem_nil _
        | cons m ms ihms =>
          have member := hms m List.mem_cons_self
          rw [lowerAll]
          refine List.forall_mem_append.mpr ⟨ih m member (kept m member) dimension k d, ?_⟩
          exact ihms (fun m' hm => hms m' (List.mem_cons_of_mem _ hm)) _
      exact all children (fun _ hm => hm) k
    | props p =>
      have entries (required : Bool) {es : List (String × Node)}
          (hes : ∀ e ∈ es, e.2 ∈ p.values) : ∀ c ∈ lowerEntries required es k,
            CheckLoosens b (.under b (some max) fuel) (.under b limit fuel) c d := by
        rw [lowerEntries_eq]
        refine List.forall_mem_map.mpr fun e he => checkLoosens_key fun child => ?_
        exact below e.2 (hes e he) _ child
      have index (names : List String) : ∀ c ∈ lowerIndex names p.index,
          CheckLoosens b (.under b (some max) fuel) (.under b limit fuel) c d := by
        rw [lowerIndex_eq]
        refine List.forall_mem_map.mpr fun s hs => checkLoosens_index ?_ fun child => ?_
        · exact (named p .refl s hs).regimes fuel
        · exact below s.value (Props.mem_values_of_index hs).2 .nothing child
      have sequence : ∀ c ∈ lowerSequence p.sequence,
          CheckLoosens b (.under b (some max) fuel) (.under b limit fuel) c d := by
        cases hs : p.sequence with
        | none => exact List.forall_mem_nil _
        | some s =>
          have values (m : Node) (hm : m ∈ s.values) :=
            below m (Props.mem_values_of_sequence hs hm)
          rw [lowerSequence_eq]
          refine List.forall_mem_singleton.mpr (checkLoosens_elements fun q hq child => ?_)
          rcases hq with hq | hq
          · obtain ⟨m, hm, rfl⟩ := List.mem_map.mp hq
            exact values m (List.mem_append_left _ hm) .nothing child
          · obtain ⟨m, hm, rfl⟩ := Option.map_eq_some_iff.mp hq
            exact values m (List.mem_append_right _ (by simp [hm])) .nothing child
      obtain ⟨required, optional, signatures, s⟩ := p
      simp only [lowerAs, List.forall_mem_append]
      exact ⟨⟨⟨entries true fun e he => Props.mem_values_of_required he,
        entries false fun e he => Props.mem_values_of_optional he⟩, index _⟩, sequence⟩

end

/-- A lower cap rejects more wherever it hides no name from a key. -/
theorem capLoosens {b : Bindings} {max : Nat} {limit : Option Nat}
    (within : ∀ m ∈ limit, max ≤ m) (fuel : Nat) {n : Node}
    (named : b.HidesNoName max limit n) : CapLoosens b max limit fuel n := by
  induction fuel generalizing n with
  | zero => exact fun k d depth path nested r r' ran => nomatch ran
  | succ fuel ih =>
    intro k d
    exact loosens_of_checks (lowerAs_loosens (fun m => ih) within n named _ k d)

/-- Where no morph is reached, a value is applied without problems exactly if it is allowed, and
stays as it is. -/
theorem apply_of_morphFree {n : Node} {b : Bindings} {cap : Option Nat} {d : Json}
    (free : b.MorphFree n) {patience : Nat} {v : Visiting (Except (List Problem) Json)}
    (h : n.compile.apply b patience cap d = some v) : ∃ fuel u,
      evaluate b (limitTest b cap) fuel (.root .allow cap) (frameOf n.compile d false) = some u ∧
        (∀ w, v.outcome = .ok w → w = d ∧ u.value ≠ .failed) ∧
          (u.value ≠ .failed → v.outcome = .ok d) := by
  obtain ⟨fuel, r, evaluated, outcome⟩ := Program.evaluate_of_apply h
  obtain ⟨u, allowed, concord⟩ :=
    modesAgree b (limitTest b cap) fuel n .nothing d (Known.nothing_holds d)
    (.root .allow cap) false r evaluated
  rw [Program.outcomeOf_eq concord.told] at outcome
  refine ⟨fuel, u, allowed, fun w ok => ?_, fun passed => ?_⟩
  · have unfailed : r.value ≠ .failed := by
      intro failed
      rw [outcome, failed] at ok
      cases ok
    have passed := (concord.passed unfailed).1
    rw [outcome, concord.plain free passed] at ok
    cases ok
    exact ⟨rfl, passed⟩
  · rw [outcome, concord.plain free passed]
    rfl

/-- Validation under a lower cap. A cap makes every validation end. If it hides no name from a key,
then what is allowed under it is allowed under every higher cap, and without a cap wherever that
ends; and without morphs to be reached, what is applied without problems still is. -/
theorem compile_allows_of_cap (n : Node) (b : Bindings) (max : Nat) (limit : Option Nat)
    (within : ∀ m ∈ limit, max ≤ m) (named : b.HidesNoName max limit n) (d : Json) :
    (limit.isSome → ∃ least, ∀ q, least ≤ q →
      (n.compile.allows b q limit d).isSome ∧ (n.compile.apply b q limit d).isSome) ∧
    (∀ patience q v x, n.compile.allows b patience (some max) d = some v →
      n.compile.allows b q limit d = some x → v.outcome = true → x.outcome = true) ∧
    (b.MorphFree n → ∀ patience q v x w, n.compile.apply b patience (some max) d = some v →
      n.compile.apply b q limit d = some x → v.outcome = .ok w → x.outcome = .ok w) := by
  have loose {fuel fuel' : Nat} {r r' : Report Verdict}
      (ran : evaluate b (limitTest b (some max)) fuel (.root .allow (some max))
        (frameOf n.compile d false) = some r)
      (ran' : evaluate b (limitTest b limit) fuel' (.root .allow limit)
        (frameOf n.compile d false) = some r')
      (passed : r.value ≠ .failed) : r'.value ≠ .failed :=
    capLoosens within (Nat.max fuel fuel') named .nothing d 0 [] false r r'
      (evaluate_mono (Nat.le_max_left fuel fuel') _ _ _ ran)
      (evaluate_mono (Nat.le_max_right fuel fuel') _ _ _ ran') passed
  refine ⟨fun capped => ?_, fun patience q v x allowed allowed' passed => ?_,
    fun free patience q v x w applied applied' ok => ?_⟩
  · obtain ⟨fuel, r, allowed⟩ := compile_terminates (Or.inr capped) b .allow d
    obtain ⟨fuel', r', applied⟩ := compile_terminates (Or.inr capped) b .apply d
    obtain ⟨least, allows⟩ := Program.isSome_allows_of_evaluate allowed
    obtain ⟨least', applies⟩ := Program.isSome_apply_of_evaluate applied
    refine ⟨Nat.max least least', fun q hq => ⟨allows q ?_, applies q ?_⟩⟩
    · exact (Nat.le_max_left _ _).trans hq
    · exact (Nat.le_max_right _ _).trans hq
  · obtain ⟨fuel, r, ran, outcome⟩ := Program.evaluate_of_allows allowed
    obtain ⟨fuel', r', ran', outcome'⟩ := Program.evaluate_of_allows allowed'
    rw [outcome, isPassed_iff] at passed
    rw [outcome', isPassed_iff]
    exact loose ran ran' passed
  · obtain ⟨fuel, r, ran, passes, -⟩ := apply_of_morphFree free applied
    obtain ⟨fuel', r', ran', -, applies⟩ := apply_of_morphFree free applied'
    obtain ⟨rfl, passed⟩ := passes w ok
    exact applies (loose ran ran' passed)

end Node

end

namespace Node

attribute [local instance] Library.standard

/-- The properties of an object with numbers and a further object of the kind. -/
def chainProps : Props Node :=
  ⟨[], [("next", of (.deferred "chain" none))],
    [⟨of (.domain .string), of (.domain .number)⟩], none⟩

def chainBindings : Bindings where
  node? _ name := if name = "chain" then some (of (.props chainProps)) else none
  transform _ _ := .ok

/-- An object within another one is allowed under a cap of one, so without a cap. -/
theorem compile_allows_chain : chainBindings.HidesNoName 1 none (of (.props chainProps)) ∧
    ((of (.props chainProps)).compile.allows chainBindings 6 none
      (.object [("a", .number (.int 1)), ("next", .object [])])).map (·.outcome) = some true := by
  have named : chainBindings.HidesNoName 1 none (of (.props chainProps)) := by
    refine Bindings.hidesNoName_of_closed
      (· ∈ [of (.props chainProps), of (.deferred "chain" none),
      of (.domain .string), of (.domain .number)]) List.mem_cons_self (fun m m' hm leads => ?_)
      fun p hp s hs => ?_
    · simp only [List.mem_cons, List.not_mem_nil, or_false] at hm
      rcases hm with rfl | rfl | rfl | rfl
      · obtain ⟨hm'⟩ := leads
        exact List.mem_cons_of_mem _ hm'
      · cases leads with
        | child hm' => exact nomatch hm'
        | target found =>
          cases found
          exact List.mem_cons_self
      · obtain ⟨hm'⟩ := leads
        exact nomatch hm'
      · obtain ⟨hm'⟩ := leads
        exact nomatch hm'
    · simp only [List.mem_cons, of.injEq, Constraint.props.injEq, reduceCtorEq, List.not_mem_nil,
        or_false] at hp
      subst hp
      obtain rfl := List.mem_singleton.mp hs
      rfl
  have capped : ((of (.props chainProps)).compile.allows chainBindings 6 (some 1)
      (.object [("a", .number (.int 1)), ("next", .object [])])).map (·.outcome) = some true := by
    decide +kernel
  have free : ((of (.props chainProps)).compile.allows chainBindings 6 none
      (.object [("a", .number (.int 1)), ("next", .object [])])).isSome := by
    decide +kernel
  obtain ⟨v, allowed, passed⟩ := Option.map_eq_some_iff.mp capped
  obtain ⟨x, allowed'⟩ := Option.isSome_iff_exists.mp free
  refine ⟨named, Option.map_eq_some_iff.mpr ⟨x, allowed', ?_⟩⟩
  exact (compile_allows_of_cap _ chainBindings 1 none nofun named _).2.1 6 6 v x allowed
    allowed' passed

end Node

end SchemaAlgebra

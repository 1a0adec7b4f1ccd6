import SchemaAlgebra.Proofs.Locality

/-!
# Validations read off the structure

An alias means what it allows by itself. With this meaning of aliases, a validation that ends
gives what the structure of a node says, whether aliases are in it or not, and whatever is left
out, routed around or kept on a stack.
-/
namespace SchemaAlgebra

open Traversal

variable [Library]

/-- Validating the value by the node ends, and the node allows it. -/
def Node.Allows (n : Node) (b : Bindings) (cap : Option Nat) (d : Json) : Prop :=
  ∃ patience v, n.compile.allows b patience cap d = some v ∧ v.outcome = true

/-- Validating the value by the node ends, and the node does not allow it. -/
def Node.Forbids (n : Node) (b : Bindings) (cap : Option Nat) (d : Json) : Prop :=
  ∃ patience v, n.compile.allows b patience cap d = some v ∧ v.outcome = false

/-- The node does not forbid the value, and without aliases or with a cap on them it allows it. -/
structure Node.Accepts (n : Node) (b : Bindings) (cap : Option Nat) (d : Json) : Prop where
  not_forbids : ¬ n.Forbids b cap d
  allows : n.hasAlias = false ∨ cap.isSome → n.Allows b cap d

namespace Bindings

open Classical in
/-- An alias admits what the reference to it allows. -/
noncomputable def meaning (b : Bindings) (cap : Option Nat) : Node.Meaning := fun home name d =>
  decide ((Node.of (.deferred name home)).Allows b cap d)

theorem meaning_iff {b : Bindings} {cap : Option Nat} {home : Home} {name : String} {d : Json} :
    b.meaning cap home name d = true ↔ (Node.of (.deferred name home)).Allows b cap d :=
  @decide_eq_true_iff _ (Classical.propDecidable _)

end Bindings

/-- What an evaluation comes to is what is allowed with enough patience. -/
theorem Program.exists_allows_iff {b : Bindings} {cap : Option Nat} {p : Program} {d : Json}
    {fuel : Nat} {r : Report Verdict}
    (h : evaluate b (limitTest b cap) fuel (.root .allow cap) (frameOf p d false) = some r) :
    (∃ patience v, p.allows b patience cap d = some v ∧ v.outcome = true) ↔
      r.value ≠ .failed := by
  have told {patience : Nat} {v : Visiting Bool} (allowed : p.allows b patience cap d = some v) :
      v.outcome = isPassed r.value := by
    obtain ⟨fuel', r', evaluated, outcome⟩ := evaluate_of_allows allowed
    rw [outcome, evaluate_unique evaluated h]
  constructor
  · rintro ⟨patience, v, allowed, passed⟩
    rw [told allowed] at passed
    exact isPassed_iff.mp passed
  · intro passed
    obtain ⟨least, allows⟩ := isSome_allows_of_evaluate h
    obtain ⟨v, allowed⟩ := Option.isSome_iff_exists.mp (allows least (Nat.le_refl least))
    refine ⟨least, v, allowed, ?_⟩
    rw [told allowed]
    exact isPassed_iff.mpr passed

namespace Sequence

omit [Library] in
/-- The items of an array are as many as there may be, and each is taken in its place. -/
theorem admits_iff (s : Sequence Node) (f : Node → Json → Bool) (xs : List Json) :
    (s.map f).admits xs = true ↔ s.admitsLength xs.length = true ∧
      ∀ i x m, xs[i]? = some x → s.at? i = some m → f m x = true := by
  have item (x : Json) (i : Nat) : ((((s.map f).at? i).map (· x)).getD true = true) ↔
      ∀ m, s.at? i = some m → f m x = true := by
    rw [Sequence.at?_map]
    cases s.at? i <;> simp
  rw [Sequence.admits, Sequence.admitsLength_map, Bool.and_eq_true, List.all_eq_true]
  apply and_congr_right
  intro _
  constructor
  · intro all i x m hx hm
    exact (item x i).mp (all (x, i) (List.mk_mem_zipIdx_iff_getElem?.mpr hx)) m hm
  · rintro all ⟨x, i⟩ hx
    exact (item x i).mpr fun m hm => all i x m (List.mk_mem_zipIdx_iff_getElem?.mp hx) hm

end Sequence

namespace Props

section

variable (f : Node → Json → Bool) (d : Json)

/-- The value under a named key is taken, and it is there if the key is required. -/
def TakesEntry (required : Bool) (e : String × Node) : Prop :=
  (required = true → ∃ x, d.get? e.1 = some x) ∧ ∀ x, d.get? e.1 = some x → f e.2 x = true

/-- The values of other keys that the signature is about are taken. -/
def TakesOthers (named : List String) (s : Signature Node) : Prop :=
  ∀ entries, d = .object entries → ∀ e ∈ entries, e.1 ∉ named →
    f s.key (.string e.1) = true → f s.value e.2 = true

def TakesItems (s : Option (Sequence Node)) : Prop :=
  ∀ q, s = some q → ∀ xs, d = .array xs → (q.map f).admits xs = true

structure Takes (p : Props Node) : Prop where
  required : ∀ e ∈ p.required, TakesEntry f d true e
  optional : ∀ e ∈ p.optional, TakesEntry f d false e
  index : ∀ s ∈ p.index, TakesOthers f d p.namedKeys s
  sequence : TakesItems f d p.sequence

end

variable {f : Node → Json → Bool} {d : Json}

omit [Library]

theorem takesEntry_required {e : String × Node} :
    TakesEntry f d true e ↔ ((d.get? e.1).map (f e.2)).getD false = true := by
  unfold TakesEntry
  cases d.get? e.1 <;> simp

theorem takesEntry_optional {e : String × Node} :
    TakesEntry f d false e ↔ ((d.get? e.1).map (f e.2)).getD true = true := by
  unfold TakesEntry
  cases d.get? e.1 <;> simp

theorem takesOthers_iff {named : List String} {s : Signature Node} : TakesOthers f d named s ↔
    ((d.asEntries?).getD []).all
      (fun e => named.contains e.1 || !f s.key (.string e.1) || f s.value e.2) = true := by
  unfold TakesOthers
  cases d with
  | object entries =>
    simp only [Json.asEntries?, Option.getD_some, Json.object.injEq, forall_eq', List.all_eq_true]
    refine forall₂_congr fun e _ => ?_
    simp only [Bool.or_eq_true, List.contains_iff_mem, Bool.not_eq_true']
    cases f s.key (.string e.1) <;> simp [or_iff_not_imp_left]
  | _ => simp [Json.asEntries?]

theorem required_iff (p : Props Node) :
    ((p.map f).required.all fun (k, v) => ((d.get? k).map v).getD false) = true ↔
      ∀ e ∈ p.required, TakesEntry f d true e := by
  simp only [takesEntry_required, Props.map, List.all_map, List.all_eq_true, Function.comp_def]

theorem optional_iff (p : Props Node) :
    ((p.map f).optional.all fun (k, v) => ((d.get? k).map v).getD true) = true ↔
      ∀ e ∈ p.optional, TakesEntry f d false e := by
  simp only [takesEntry_optional, Props.map, List.all_map, List.all_eq_true, Function.comp_def]

theorem index_iff (p : Props Node) :
    ((p.map f).index.all fun s => ((d.asEntries?).getD []).all fun (k, x) =>
      (p.map f).namedKeys.contains k || !s.key (.string k) || s.value x) = true ↔
        ∀ s ∈ p.index, TakesOthers f d p.namedKeys s := by
  simp only [takesOthers_iff, Props.namedKeys_map]
  simp only [Props.map, List.all_map, List.all_eq_true, Function.comp_def]

theorem admits_iff (p : Props Node) : (p.map f).admits d = true ↔ p.Takes f d := by
  have parts : p.Takes f d ↔ ((_ ∧ _) ∧ _) ∧ _ :=
    ⟨fun h => ⟨⟨⟨h.required, h.optional⟩, h.index⟩, h.sequence⟩,
      fun h => ⟨h.1.1.1, h.1.1.2, h.1.2, h.2⟩⟩
  unfold Props.admits
  rw [Bool.and_eq_true, Bool.and_eq_true, Bool.and_eq_true, required_iff, optional_iff,
    index_iff, parts]
  apply and_congr_right
  intro _
  simp only [TakesItems, Props.map]
  cases p.sequence <;> cases d <;> simp

end Props

namespace Traversal

section

variable (b : Bindings) (x : Regime)

/-- Outside of all aliases the program takes the value exactly if the statement holds, where it
ends. -/
def Tells (p : Program) (d : Json) (statement : Prop) : Prop :=
  ∀ (path : List Segment) (nested : Bool) (r : Report Verdict),
    x.program (x.site 0 path) (frameOf p d nested) = some r → (r.value ≠ .failed ↔ statement)

def FrameTells (child : Frame) (statement : Prop) : Prop :=
  ∀ (path : List Segment) (r : Report Done), evalFrame b x.program (x.site 0 path) child =
    some r → ∃ v, r.value = .value v ∧ (v ≠ .failed ↔ statement)

/-- A check passes exactly if the statement holds. -/
def CheckTells (c : Check) (d : Json) (statement : Prop) : Prop :=
  ∀ (path : List Segment) (f : ProgramFrame) (r : Report (ProgramFrame × Judgement)),
    f.data = d →
    evalCheck b x.test (evalFrame b x.program) (x.site 0 path) c f = some r →
      (r.value.2 = .pass ↔ statement)

/-- Checks that all pass show something, and they do if there is enough for them. -/
def ChecksTell (enough shown : Prop) (p : Program) (d : Json) : Prop :=
  ∀ (path : List Segment) (f : ProgramFrame) (r : Report (Option ProgramFrame)), f.data = d →
    evalChecks b x.test (evalFrame b x.program) (x.site 0 path) p f = some r →
      (r.value.isSome → shown) ∧ (enough → r.value.isSome)

end

section

variable {b : Bindings} {x : Regime} {d : Json} {enough shown : Prop}

theorem ChecksTell.mono {enough' shown' : Prop} {p : Program} (h : ChecksTell b x enough shown p d)
    (he : enough' → enough) (hs : shown → shown') : ChecksTell b x enough' shown' p d := by
  intro path f r hf ran
  obtain ⟨passed, passes⟩ := h path f r hf ran
  exact ⟨fun some_r => hs (passed some_r), fun he' => passes (he he')⟩

theorem checksTell_nil (h : shown) : ChecksTell b x enough shown [] d := by
  intro path f r hf ran
  cases ran
  exact ⟨fun _ => h, fun _ => rfl⟩

theorem checksTell_one {c : Check} {statement : Prop} (h : CheckTells b x c d statement) :
    ChecksTell b x statement statement [c] d := by
  intro path f r hf ran
  rw [evalChecks_one] at ran
  obtain ⟨a, checked, rfl⟩ := Option.map_eq_some_iff.mp ran
  have going : (goOn .allow a.value.1 a.value.2).isSome ↔ a.value.2 = .pass := by
    cases a.value.2 <;> simp [goOn]
  have told := going.trans (h path f a hf checked)
  exact ⟨told.mp, told.mpr⟩

theorem checksTell_append {enough' shown' : Prop} {p q : Program}
    (first : ChecksTell b x enough shown p d)
    (others : shown → ChecksTell b x enough' shown' q d) :
    ChecksTell b x (enough ∧ enough') (shown ∧ shown') (p ++ q) d := by
  intro path f r hf ran
  rw [evalChecks_append, Report.bind_eq_some] at ran
  obtain ⟨a, u, checked, rest, rfl⟩ := ran
  obtain ⟨passed, passes⟩ := first path f a hf checked
  cases ha : a.value with
  | none =>
    rw [ha] at rest passes
    cases rest
    exact ⟨nofun, fun he => passes he.1⟩
  | some g =>
    rw [ha] at rest passed
    have holds : shown := passed rfl
    have data : g.data = d := (evalChecks_keeps rfl checked ha).data.trans hf
    obtain ⟨passed', passes'⟩ := others holds path g u data rest
    exact ⟨fun some_u => ⟨holds, passed' some_u⟩, fun he => passes' he.2⟩

theorem tells_of_checks {cap : Option Nat} {fuel : Nat} {p : Program} {statement : Prop}
    (h : ChecksTell b (.under b cap fuel) statement statement p d) :
    Tells (.under b cap (fuel + 1)) p d statement := by
  intro path nested r ran
  obtain ⟨a, checked, rfl⟩ := Option.map_eq_some_iff.mp ran
  obtain ⟨passed, passes⟩ := h path _ a rfl checked
  have some_a : conclude a.value ≠ .failed ↔ a.value.isSome := conclude_allow rfl checked
  exact some_a.trans ⟨passed, passes⟩

theorem CheckTells.congr {c : Check} {statement statement' : Prop}
    (h : CheckTells b x c d statement) (same : statement ↔ statement') :
    CheckTells b x c d statement' := by
  rwa [← same]

theorem checkTells_settled {c : Check} {j : Judgement}
    (h : ∀ t : Traversal, t.mode = .allow → ∃ u, begin? b x.test t c d = (u, .settled j)) :
    CheckTells b x c d (j = .pass) := by
  intro path f r hf ran
  obtain ⟨u, begun⟩ := h (x.site 0 path).fresh rfl
  rw [evalCheck, hf, begun] at ran
  cases ran
  exact Iff.rfl

theorem checkTells_judged {c : Check} {passes : Bool} {otherwise : Judgement}
    (refuses : otherwise ≠ .pass)
    (h : ∀ t : Traversal, ∃ code message,
      begin? b x.test t c d = settle (t.judge passes otherwise code message)) :
    CheckTells b x c d (passes = true) := by
  have settles : CheckTells b x c d ((if passes then Judgement.pass else otherwise) = .pass) := by
    apply checkTells_settled
    intro t allows
    obtain ⟨code, message, begun⟩ := h t
    rw [begun, judge_allow allows]
    exact ⟨t, rfl⟩
  apply settles.congr
  cases passes with
  | true => exact ⟨fun _ => rfl, fun _ => rfl⟩
  | false => exact ⟨fun pass => absurd pass refuses, nofun⟩

theorem checkTells_descend {c : Check} {child : Frame} {pending : Pending} {statement : Prop}
    (waits : pending = .whole ∨ ∃ name, pending = .key name)
    (tells : FrameTells b x child statement)
    (h : ∀ path, ∃ t path',
      begin? b x.test (x.site 0 path).fresh c d = (t, .descend child pending) ∧
      t.site = x.site 0 path') : CheckTells b x c d statement := by
  have absorbed (f : ProgramFrame) (v : Verdict) : (absorb f pending (.value v)).2 = .pass ↔
      v ≠ .failed := by
    rcases waits with rfl | ⟨name, rfl⟩ <;> cases v <;> simp [absorb]
  intro path f r hf ran
  obtain ⟨t, path', begun, site⟩ := h path
  rw [evalCheck, hf, begun] at ran
  obtain ⟨a, first, rfl⟩ := Option.map_eq_some_iff.mp ran
  rw [site] at first
  obtain ⟨v, hv, told⟩ := tells path' a first
  rw [← told, hv, absorbed]

theorem Tells.frame {p : Program} {statement : Prop} (h : Tells x p d statement) (nested : Bool) :
    FrameTells b x (.start p d nested) statement := by
  intro path r ran
  obtain ⟨a, first, rfl⟩ := Option.map_eq_some_iff.mp ran
  exact ⟨a.value, rfl, h path nested a first⟩

theorem checkTells_key {name : String} {required : Bool} {p : Program} {F : Json → Prop}
    (h : ∀ child, d.get? name = some child → Tells x p child (F child)) :
    CheckTells b x (.key name required p) d
      ((required = true → ∃ child, d.get? name = some child) ∧
        ∀ child, d.get? name = some child → F child) := by
  cases hc : d.get? name with
  | some child =>
    have descends : CheckTells b x (.key name required p) d (F child) := by
      refine checkTells_descend (Or.inr ⟨name, rfl⟩) ((h child hc).frame true) fun path => ?_
      refine ⟨((x.site 0 path).inside (.key name)).fresh, .key name :: path, ?_, rfl⟩
      simp only [begin?, beginKey, hc]
      rfl
    apply descends.congr
    simp
  | none =>
    have settles : CheckTells b x (.key name required p) d
        ((if required then Judgement.fail else .pass) = .pass) := by
      apply checkTells_settled
      intro t _
      simp only [begin?, beginKey, hc, judgeMissing]
      cases required with
      | true => exact ⟨_, rfl⟩
      | false => exact ⟨_, rfl⟩
    apply settles.congr
    cases required <;> simp

theorem checkTells_jobs {c : Check} {jobs : List Job} (asked : List (Home × String))
    {F : Job → Prop} (begun : ∀ path, begin? b x.test (x.site 0 path).fresh c d =
      ({ (x.site 0 path).fresh with visited := asked } : Traversal).beginChildren jobs)
    (h : ∀ job ∈ jobs, Tells x job.program job.data (F job)) :
    CheckTells b x c d (∀ job ∈ jobs, F job) := by
  intro path f r hf ran
  rw [evalCheck, hf, begun] at ran
  rcases jobs with _ | ⟨job, jobs⟩
  · cases ran
    exact ⟨fun _ => List.forall_mem_nil _, fun _ => rfl⟩
  · obtain ⟨a, first, rfl⟩ := Option.map_eq_some_iff.mp ran
    obtain ⟨j, ps, hv, all, fails⟩ := evalJobs_passed (z := x) 0 path first
    simp only [hv, absorb]
    constructor
    · intro pass job' hj
      obtain ⟨v, ran', passed⟩ := all pass job' hj
      exact (h job' hj _ true v ran').mp passed
    · intro holds
      by_contra refused
      obtain ⟨job', hj, v, ran', failed⟩ := fails refused
      exact (h job' hj _ true v ran').mpr (holds job' hj) failed

omit [Library] in
/-- The jobs of a signature are the values of other keys that the signature takes. -/
theorem forall_indexJobs {test : Program → String → Option KeyTest} {key value : Program}
    {named : List String} {entries : List (String × Json)} {jobs : List Job}
    {asked : List (Home × String)} {K : String → Prop}
    (h : indexJobs test key value named entries = some (jobs, asked))
    (answers : ∀ name answer, test key name = some answer → (answer.passes = true ↔ K name))
    (F : Json → Prop) :
    (∀ job ∈ jobs, F job.data) ↔ ∀ e ∈ entries, e.1 ∉ named → K e.1 → F e.2 := by
  induction entries generalizing jobs asked with
  | nil =>
    cases h
    exact ⟨fun _ => nofun, fun _ => nofun⟩
  | cons e entries ih =>
    obtain ⟨name, child⟩ := e
    rw [indexJobs] at h
    rw [List.forall_mem_cons]
    split at h
    · rename_i mentioned
      have mentioned : name ∈ named := List.contains_iff_mem.mp mentioned
      rw [ih h]
      exact ⟨fun later => ⟨fun free => absurd mentioned free, later⟩, And.right⟩
    · rename_i free
      have free : name ∉ named := fun mentioned => free (List.contains_iff_mem.mpr mentioned)
      simp only [Option.bind_eq_bind, Option.bind_eq_some_iff] at h
      obtain ⟨answer, answered, ⟨others, asked'⟩, found, h⟩ := h
      split at h
      · rename_i passes
        cases h
        rw [List.forall_mem_cons, ih found]
        have takes : K name := (answers name answer answered).mp passes
        exact and_congr_left fun _ => ⟨fun holds _ _ => holds, fun holds => holds free takes⟩
      · rename_i refused
        cases h
        rw [ih found]
        have spares : ¬ K name := fun takes => refused ((answers name answer answered).mpr takes)
        exact ⟨fun later => ⟨fun _ takes => absurd takes spares, later⟩, And.right⟩

theorem checkTells_index {key value : Program} {named : List String} {K : String → Prop}
    {F : Json → Prop} (answers : ∀ name answer, x.test key name = some answer →
      (answer.passes = true ↔ K name)) (h : ∀ child, Tells x value child (F child)) :
    CheckTells b x (.index key value named) d
      (∀ entries, d = .object entries → ∀ e ∈ entries, e.1 ∉ named → K e.1 →
        F e.2) := by
  cases d with
  | object entries =>
    cases found : indexJobs x.test key value named entries with
    | none =>
      intro path f r hf ran
      simp only [evalCheck, hf, begin?, beginIndex, found] at ran
      cases ran
    | some jobs =>
      obtain ⟨jobs, asked⟩ := jobs
      have children : CheckTells b x (.index key value named) (.object entries)
          (∀ job ∈ jobs, F job.data) := by
        refine checkTells_jobs asked (fun path => ?_) fun job hj => ?_
        · simp [begin?, beginIndex, found, Site.fresh]
        · rw [program_of_mem_indexJobs found hj]
          exact h job.data
      apply children.congr
      rw [forall_indexJobs found answers F]
      simp
  | _ => exact (checkTells_settled fun t _ => ⟨t, rfl⟩).congr ⟨by simp, fun _ => rfl⟩

theorem branchesFrame_tells {expected : String} {ps : List Program} {F : Program → Prop}
    (h : ∀ p ∈ ps, Tells x p d (F p)) :
    FrameTells b x (branchesFrame d expected ps) (∃ p ∈ ps, F p) := by
  have several : FrameTells b x (.branches ⟨ps, d, none, expected⟩) (∃ p ∈ ps, F p) := by
    intro path r ran
    obtain ⟨v, hv, all, passes⟩ := evalBranches_passed (z := x) ran
    refine ⟨v, hv, ?_⟩
    constructor
    · intro passed
      obtain ⟨p, hp, a, first, passed⟩ := passes passed
      exact ⟨p, hp, (h p hp path false a first).mp passed⟩
    · rintro ⟨p, hp, holds⟩ failed
      obtain ⟨a, first, refused⟩ := all failed p hp
      exact (h p hp path false a first).mpr holds refused
  match ps with
  | [] => exact several
  | [p] =>
    have only : (∃ q ∈ [p], F q) ↔ F p := by simp
    rw [only]
    exact (h p List.mem_cons_self).frame false
  | p :: q :: ps => exact several

theorem checkTells_morph {p : Program} {steps : List Step} {statement : Prop}
    (h : Tells x p d statement) : CheckTells b x (.morph p steps) d statement := by
  refine checkTells_descend (Or.inl rfl) (fun path r ran => ?_) fun path => ⟨_, path, rfl, rfl⟩
  rw [evalFrame, Report.bind_eq_some] at ran
  obtain ⟨a, v, first, ended, rfl⟩ := ran
  cases ended
  refine ⟨a.value, ?_, h path false a first⟩
  cases a.value <;> rfl

theorem evalCheck_judgement {test : Program → String → Option KeyTest}
    {frame : Site → Frame → Option (Report Done)} {s : Site} {c : Check} {f g : ProgramFrame}
    (same : f.data = g.data) {r : Report (ProgramFrame × Judgement)}
    (h : evalCheck b test frame s c f = some r) :
    ∃ u, evalCheck b test frame s c g = some u ∧ u.value.2 = r.value.2 := by
  have patched (g : ProgramFrame) (pending : Pending) (result : Done) :
      (absorb g pending result).2 = (absorb f pending result).2 := by
    cases result with
    | value v => cases pending <;> cases v <;> rfl
    | children j patches => cases pending <;> rfl
  rw [evalCheck, same] at h
  rw [evalCheck]
  split at h
  · cases h
    exact ⟨_, rfl, rfl⟩
  · obtain ⟨a, ran, rfl⟩ := Option.map_eq_some_iff.mp h
    rw [ran]
    exact ⟨_, rfl, patched g _ _⟩
  · cases h

theorem checkTells_deferred (cap : Option Nat) (fuel : Nat) (name : String) (home : Home)
    (d : Json) :
    CheckTells b (.under b cap fuel) (.deferred name home) d
      (b.meaning cap home name d = true) := by
  intro path f r hf ran
  have compiled : (Node.of (.deferred name home)).compile = [.deferred name home] := rfl
  obtain ⟨u, checked, same⟩ :=
    evalCheck_judgement (g := frameOf [.deferred name home] d false) hf ran
  have alone : evaluate b (limitTest b cap) (fuel + 1) ⟨.allow, cap, 0, path⟩
      (frameOf [.deferred name home] d false) =
      some ((u.map fun y => goOn .allow y.1 y.2).map conclude) := by
    have rest : (frameOf [.deferred name home] d false).rest = [.deferred name home] := rfl
    rw [evaluate, rest, evalChecks_one]
    exact congrArg (Option.map (Report.map conclude)) (congrArg (Option.map _) checked)
  have passed : conclude (goOn .allow u.value.1 u.value.2) ≠ .failed ↔ u.value.2 = .pass := by
    obtain ⟨unfailed, going⟩ := (evalCheck_keeps checked).unfailed
    cases u.value.2 <;> simp [goOn, conclude, unfailed, going]
  have level : Site.Level ⟨.allow, cap, 0, path⟩ (.root .allow cap) := ⟨rfl, rfl, rfl, rfl⟩
  rw [evaluate_alike b _ _ (fuel + 1) _ _ _ level (.inl rfl)] at alone
  have means : b.meaning cap home name d = true ↔ u.value.2 = .pass := by
    rw [Bindings.meaning_iff, Node.Allows, compiled, Program.exists_allows_iff alone]
    exact passed
  rw [means, same]

end

end Traversal

namespace Node

section

variable {b : Bindings} {cap : Option Nat}

/-- The checks of a node tell whether it admits the value, and what is known after them holds. A
bound only tells it for values that it measures in the right dimension. -/
def ChecksTell (b : Bindings) (cap : Option Nat) (n : Node) : Prop :=
  ∀ (fuel : Nat) (dimension : Dimension) (k : Known) (d : Json), k.Holds d →
    Traversal.ChecksTell b (.under b cap fuel)
      (n.admitsWith (b.meaning cap) d = true ∧ dimension.Fits d)
        (n.admitsWith (b.meaning cap) d = true ∧ (n.lowerAs dimension k).2.Holds d)
          (n.lowerAs dimension k).1 d

theorem ChecksTell.tells {n : Node} (h : n.ChecksTell b cap) (fuel : Nat) {k : Known} {d : Json}
    (holds : k.Holds d) :
    Tells (.under b cap fuel) (n.lower k) d (n.admitsWith (b.meaning cap) d = true) := by
  cases fuel with
  | zero => exact fun path nested r ran => nomatch ran
  | succ fuel =>
    apply tells_of_checks
    apply (h fuel (dimensionOf n k) k d holds).mono
    · intro admitted
      exact ⟨admitted, fits_dimensionOf holds (fun _ found => domain_of_admits found admitted)
        fun _ found => basis_of_admits found admitted⟩
    · exact And.left

theorem ChecksTell.compile {n : Node} (h : n.ChecksTell b cap) (fuel : Nat) (d : Json) :
    Tells (.under b cap fuel) n.compile d (n.admitsWith (b.meaning cap) d = true) :=
  h.tells fuel (Known.nothing_holds d)

theorem ChecksTell.answers {key : Node} (h : key.ChecksTell b cap) {name : String}
    {answer : KeyTest} (answered : limitTest b cap key.compile name = some answer) :
    answer.passes = true ↔ key.admitsWith (b.meaning cap) (.string name) = true := by
  obtain ⟨fuel, r, evaluated, passes⟩ := evaluate_text_of_limitTest answered
  rw [passes, isPassed_iff]
  exact h.compile fuel (.string name) [] false r evaluated

theorem lowerAll_tell {children : List Node} (h : ∀ m ∈ children, m.ChecksTell b cap)
    (fuel : Nat) (dimension : Dimension) {k : Known} {d : Json} (holds : k.Holds d) :
    Traversal.ChecksTell b (.under b cap fuel)
      ((∀ m ∈ children, m.admitsWith (b.meaning cap) d = true) ∧ dimension.Fits d)
      (∀ m ∈ children, m.admitsWith (b.meaning cap) d = true)
        (lowerAll children dimension k) d := by
  induction children generalizing k with
  | nil => exact checksTell_nil fun _ => nofun
  | cons n r ih =>
    have first := h n List.mem_cons_self fuel dimension k d holds
    have others (told : n.admitsWith (b.meaning cap) d = true ∧
        (n.lowerAs dimension k).2.Holds d) :=
      ih (fun m hm => h m (List.mem_cons_of_mem _ hm)) told.2
    apply (checksTell_append first others).mono
    · rintro ⟨all, fits⟩
      obtain ⟨here, later⟩ := List.forall_mem_cons.mp all
      exact ⟨⟨here, fits⟩, later, fits⟩
    · rintro ⟨⟨here, -⟩, later⟩
      exact List.forall_mem_cons.mpr ⟨here, later⟩

theorem lowerUnion_tells {branches : List Node} (h : ∀ m ∈ branches, m.ChecksTell b cap)
    (fuel : Nat) {k : Known} {d : Json} (holds : k.Holds d) (fallback : List Program)
    (expected : String) : CheckTells b (.under b cap fuel)
      (.union (lowerTree (lowerEach branches) (DecisionTree.ofBranches branches) k) fallback
        expected) d (∃ m ∈ branches, m.admitsWith (b.meaning cap) d = true) := by
  obtain ⟨k', holds', dest, leads, routed⟩ :=
    (DecisionTree.ofBranches branches).leads_of_holds (lowerEach branches) d holds
  have led {m : Node} (hm : m ∈ branches) (admitted : m.admitsWith (b.meaning cap) d = true) :
      ∃ i chosen,
      branches[i]? = some m ∧ (DecisionTree.ofBranches branches).select d = some chosen ∧
        i ∈ chosen := by
    obtain ⟨i, hi⟩ := List.mem_iff_getElem?.mp hm
    obtain ⟨chosen, found, member⟩ := DecisionTree.select_ofBranches hi admitted
    exact ⟨i, chosen, hi, found, member⟩
  cases hchosen : (DecisionTree.ofBranches branches).select d with
  | none =>
    rw [hchosen] at routed
    have settles : CheckTells b (.under b cap fuel)
        (.union (lowerTree (lowerEach branches) (DecisionTree.ofBranches branches) k) fallback
          expected) d (Judgement.fail = .pass) := by
      apply checkTells_settled
      intro t allows
      simp only [begin?, beginUnion, leads.route_allow allows, routed, Option.map_none]
      exact ⟨t, rfl⟩
    apply settles.congr
    constructor
    · nofun
    · rintro ⟨m, hm, admitted⟩
      obtain ⟨i, chosen, -, found, -⟩ := led hm admitted
      rw [hchosen] at found
      cases found
  | some chosen =>
    rw [hchosen] at routed
    have tells : ∀ p ∈ (chosen.filterMap fun i => (lowerEach branches)[i]?.map fun f => f k'),
        Tells (.under b cap fuel) p d
          (∃ m ∈ branches, m.lower k' = p ∧ m.admitsWith (b.meaning cap) d = true) := by
      intro p hp
      obtain ⟨i, -, hi⟩ := List.mem_filterMap.mp hp
      rw [lowerEach_eq, List.getElem?_map, Option.map_map] at hi
      obtain ⟨m, hm, rfl⟩ := Option.map_eq_some_iff.mp hi
      have member := List.mem_of_getElem? hm
      intro path nested r ran
      constructor
      · intro passed
        exact ⟨m, member, rfl, ((h m member).tells fuel holds' path nested r ran).mp passed⟩
      · rintro ⟨m', hm', same, admitted⟩
        exact ((h m' hm').tells fuel holds' path nested r (same ▸ ran)).mpr admitted
    have frames : FrameTells b (.under b cap fuel) (branchesFrame d expected _) _ :=
      branchesFrame_tells tells
    have statement :
        (∃ p ∈ (chosen.filterMap fun i => (lowerEach branches)[i]?.map fun f => f k'),
        ∃ m ∈ branches, m.lower k' = p ∧ m.admitsWith (b.meaning cap) d = true) ↔
          ∃ m ∈ branches, m.admitsWith (b.meaning cap) d = true := by
      constructor
      · rintro ⟨p, -, m, hm, -, admitted⟩
        exact ⟨m, hm, admitted⟩
      · rintro ⟨m, hm, admitted⟩
        obtain ⟨i, chosen', hi, found, member⟩ := led hm admitted
        rw [hchosen, Option.some.injEq] at found
        subst found
        refine ⟨m.lower k', List.mem_filterMap.mpr ⟨i, member, ?_⟩, m, hm, rfl, admitted⟩
        rw [lowerEach_eq, List.getElem?_map, Option.map_map, hi]
        rfl
    rw [statement] at frames
    refine checkTells_descend (Or.inl rfl) frames fun path => ?_
    exact ⟨_, path, begin_union ((leads.route_allow rfl fallback).trans (congrArg _ routed)),
      rfl⟩

section

variable (fuel : Nat) {d : Json}

theorem lowerEntries_tell (required : Bool) {es : List (String × Node)}
    (h : ∀ e ∈ es, e.2.ChecksTell b cap) {k : Known} (holds : k.Holds d) :
    Traversal.ChecksTell b (.under b cap fuel)
      (∀ e ∈ es, Props.TakesEntry (admitsWith (b.meaning cap)) d required e)
      (∀ e ∈ es, Props.TakesEntry (admitsWith (b.meaning cap)) d required e)
        (lowerEntries required es k) d := by
  induction es with
  | nil => exact checksTell_nil fun _ => nofun
  | cons e es ih =>
    have others := ih fun e' he' => h e' (List.mem_cons_of_mem _ he')
    have first : CheckTells b (.under b cap fuel) (.key e.1 required (e.2.lower (k.under e.1))) d
        (Props.TakesEntry (admitsWith (b.meaning cap)) d required e) :=
      checkTells_key fun child hc => (h e List.mem_cons_self).tells fuel (holds.under hc)
    rw [lowerEntries_eq] at others ⊢
    apply (checksTell_append (checksTell_one first) fun _ => others).mono
    · exact List.forall_mem_cons.mp
    · exact List.forall_mem_cons.mpr

theorem lowerIndex_tell (named : List String) {ss : List (Signature Node)}
    (h : ∀ s ∈ ss, s.key.ChecksTell b cap ∧ s.value.ChecksTell b cap) (d : Json) :
    Traversal.ChecksTell b (.under b cap fuel)
      (∀ s ∈ ss, Props.TakesOthers (admitsWith (b.meaning cap)) d named s)
      (∀ s ∈ ss, Props.TakesOthers (admitsWith (b.meaning cap)) d named s)
        (lowerIndex named ss) d := by
  induction ss with
  | nil => exact checksTell_nil fun _ => nofun
  | cons s ss ih =>
    have others := ih fun s' hs' => h s' (List.mem_cons_of_mem _ hs')
    obtain ⟨key, value⟩ := h s List.mem_cons_self
    have first : CheckTells b (.under b cap fuel) (.index s.key.compile s.value.compile named) d
        (Props.TakesOthers (admitsWith (b.meaning cap)) d named s) :=
      checkTells_index (fun name answer answered => key.answers answered) fun child =>
        value.compile fuel child
    rw [lowerIndex_eq] at others ⊢
    apply (checksTell_append (checksTell_one first) fun _ => others).mono
    · exact List.forall_mem_cons.mp
    · exact List.forall_mem_cons.mpr

omit [Library] in
theorem forall_elementJobs (q : Sequence Node) (xs : List Json) (F : Job → Prop) :
    (∀ job ∈ elementJobs (q.items.map compile) (q.rest.map compile) xs, F job) ↔
      ∀ i x m, xs[i]? = some x → q.at? i = some m → F ⟨.index i, m.compile, x⟩ := by
  have at_place (i : Nat) :
      ((q.items.map compile)[i]? <|> q.rest.map compile) = (q.at? i).map compile :=
    Sequence.at?_map compile q i
  constructor
  · intro all i x m hx hm
    apply all
    refine List.mem_filterMap.mpr ⟨(x, i), List.mk_mem_zipIdx_iff_getElem?.mpr hx, ?_⟩
    dsimp only
    rw [at_place, hm]
    rfl
  · intro all job hj
    obtain ⟨⟨x, i⟩, hx, found⟩ := List.mem_filterMap.mp hj
    dsimp only at found
    rw [at_place, Option.map_map] at found
    obtain ⟨m, hm, rfl⟩ := Option.map_eq_some_iff.mp found
    exact all i x m (List.mk_mem_zipIdx_iff_getElem?.mp hx) hm

theorem lowerSequence_tells {s : Option (Sequence Node)}
    (h : ∀ q, s = some q → ∀ m ∈ q.values, m.ChecksTell b cap) (d : Json) :
    Traversal.ChecksTell b (.under b cap fuel) (Props.TakesItems (admitsWith (b.meaning cap)) d s)
      (Props.TakesItems (admitsWith (b.meaning cap)) d s) (lowerSequence s) d := by
  cases s with
  | none => exact checksTell_nil (by simp [Props.TakesItems])
  | some q =>
    rw [lowerSequence_eq]
    apply checksTell_one
    cases d with
    | array xs =>
      have reading : Props.TakesItems (admitsWith (b.meaning cap)) (.array xs) (some q) ↔
          (q.map (admitsWith (b.meaning cap))).admits xs = true := by
        simp [Props.TakesItems]
      have lengths : q.admitsLength xs.length = fitsLength (q.items.map compile)
          (q.rest.map compile) xs := by
        obtain ⟨items, rest⟩ := q
        cases rest <;> simp [Sequence.admitsLength, fitsLength]
      rw [reading, Sequence.admits_iff, lengths]
      cases fits : fitsLength (q.items.map compile) (q.rest.map compile) xs with
      | true =>
        have children : CheckTells b (.under b cap fuel)
            (.elements (q.items.map compile) (q.rest.map compile)) (.array xs)
              (∀ job ∈ elementJobs (q.items.map compile) (q.rest.map compile) xs, ∀ i m,
              job.segment = .index i → q.at? i = some m →
                m.admitsWith (b.meaning cap) job.data = true) := by
          apply checkTells_jobs [] fun path => begin_elements fits _
          rw [forall_elementJobs]
          intro i x m hx hm path nested r ran
          rw [((h q rfl m (Sequence.mem_values_of_at? hm)).compile fuel x) path nested r ran]
          constructor
          · intro admitted i' m' same hm'
            cases same
            rw [hm, Option.some.injEq] at hm'
            exact hm' ▸ admitted
          · intro all
            exact all i m rfl hm
        apply children.congr
        rw [forall_elementJobs]
        constructor
        · exact fun all => ⟨rfl, fun i x m hx hm => all i x m hx hm i m rfl hm⟩
        · rintro ⟨-, all⟩ i x m hx hm i' m' same hm'
          cases same
          exact all i x m' hx hm'
      | false =>
        have refuses : Judgement.abort ≠ .pass := by simp
        have judged : CheckTells b (.under b cap fuel)
            (.elements (q.items.map compile) (q.rest.map compile)) (.array xs) (false = true) :=
          checkTells_judged refuses (begin_elements_abort fits)
        apply judged.congr
        simp
    | _ =>
      exact (checkTells_settled fun t _ => ⟨t, rfl⟩).congr
        ⟨by simp [Props.TakesItems], fun _ => rfl⟩

theorem lowerProps_tell {p : Props Node} (h : ∀ m ∈ p.values, m.ChecksTell b cap) {k : Known}
    (holds : k.Holds d) :
    Traversal.ChecksTell b (.under b cap fuel) ((of (.props p)).admitsWith (b.meaning cap) d = true)
      ((of (.props p)).admitsWith (b.meaning cap) d = true)
      (lowerEntries true p.required k ++ lowerEntries false p.optional k ++
        lowerIndex (Entries.keys p.required ++ Entries.keys p.optional) p.index ++ lowerSequence
          p.sequence) d := by
  have takes : (of (.props p)).admitsWith (b.meaning cap) d = true ↔
      p.Takes (admitsWith (b.meaning cap)) d := by
    rw [admitsWith_of]
    exact Props.admits_iff p
  have required := lowerEntries_tell fuel true
      (fun e he => h e.2 (Props.mem_values_of_required he)) holds
  have optional := lowerEntries_tell fuel false
      (fun e he => h e.2 (Props.mem_values_of_optional he)) holds
  have index := lowerIndex_tell fuel p.namedKeys (fun s hs =>
    ⟨h s.key (Props.mem_values_of_index hs).1, h s.value (Props.mem_values_of_index hs).2⟩) d
  have sequence := lowerSequence_tells fuel
      (fun q hq m hm => h m (Props.mem_values_of_sequence hq hm)) d
  have all := checksTell_append
      (checksTell_append (checksTell_append required fun _ => optional) fun _ => index)
    fun _ => sequence
  rw [takes]
  apply all.mono
  · intro taken
    exact ⟨⟨⟨taken.required, taken.optional⟩, taken.index⟩, taken.sequence⟩
  · rintro ⟨⟨⟨required, optional⟩, index⟩, sequence⟩
    exact ⟨required, optional, index, sequence⟩

end

/-- A check that tells whether the node admits the value, after which no more is known. -/
theorem ChecksTell.of_check {n : Node} {c : Check}
    (lowered : ∀ dimension k, n.lowerAs dimension k = ([c], k))
    (tells : ∀ (fuel : Nat) (d : Json),
      CheckTells b (.under b cap fuel) c d (n.admitsWith (b.meaning cap) d = true)) :
    n.ChecksTell b cap := by
  intro fuel dimension k d holds
  rw [lowered]
  apply (checksTell_one (tells fuel d)).mono
  · exact And.left
  · exact fun admitted => ⟨admitted, holds⟩

/-- A check that is left out where its outcome is known already. -/
theorem ChecksTell.of_known {n : Node} {c : Check} (known : Known → Prop) [DecidablePred known]
    (learn : Known → Known)
    (lowered : ∀ dimension k, n.lowerAs dimension k = if known k then ([], k) else ([c], learn k))
    (knows : ∀ {k : Known} {d : Json}, k.Holds d → known k →
      n.admitsWith (b.meaning cap) d = true)
    (learns : ∀ {k : Known} {d : Json}, k.Holds d → n.admitsWith (b.meaning cap) d = true →
      (learn k).Holds d)
    (tells : ∀ (fuel : Nat) (d : Json),
      CheckTells b (.under b cap fuel) c d (n.admitsWith (b.meaning cap) d = true)) :
    n.ChecksTell b cap := by
  intro fuel dimension k d holds
  rw [lowered]
  split_ifs with out
  · exact checksTell_nil ⟨knows holds out, holds⟩
  · apply (checksTell_one (tells fuel d)).mono
    · exact And.left
    · exact fun admitted => ⟨admitted, learns holds admitted⟩

theorem checksTell (n : Node) : n.ChecksTell b cap := by
  have fails : Judgement.fail ≠ .pass := nofun
  have aborts : Judgement.abort ≠ .pass := nofun
  induction n using Node.inductionOn with
  | step c ih =>
    cases c with
    | domain dm =>
      apply ChecksTell.of_known (fun k => k.impliesDomain dm = true) (fun k => k.learnDomain dm)
        fun _ _ => rfl
      all_goals simp only [admitsWith_of, Constraint.map, constraintAdmits]
      · exact fun holds known => beq_iff_eq.mpr (holds.impliesDomain known)
      · exact fun holds admitted => holds.learnDomain (beq_iff_eq.mp admitted)
      · exact fun fuel d => checkTells_judged aborts fun _ => ⟨_, _, rfl⟩
    | literal l =>
      apply ChecksTell.of_known (fun k => k.literal? = some l) (fun k => k.learnLiteral l)
        fun _ _ => rfl
      all_goals simp only [admitsWith_of, Constraint.map, constraintAdmits]
      · exact fun holds known => holds.literal_isMatch known
      · exact fun holds admitted => holds.learnLiteral admitted
      · exact fun fuel d => checkTells_judged aborts fun _ => ⟨_, _, rfl⟩
    | basis c =>
      apply ChecksTell.of_known (fun k => k.basis = some c) (fun k => k.learnBasis c) fun _ _ => rfl
      all_goals simp only [admitsWith_of, Constraint.map, constraintAdmits]
      · exact fun holds known => holds.2 c known
      · exact fun holds admitted => holds.learnBasis admitted
      · exact fun fuel d => checkTells_judged aborts fun _ => ⟨_, _, rfl⟩
    | bound r =>
      intro fuel dimension k d holds
      have judged : CheckTells b (.under b cap fuel) (.range r dimension) d
          (((measure? dimension d).map r.allows).getD false = true) :=
        checkTells_judged fails fun _ => ⟨_, _, rfl⟩
      rw [admitsWith_of]
      simp only [Constraint.map, constraintAdmits]
      apply (checksTell_one judged).mono
      · rintro ⟨admitted, fits⟩
        rwa [fits]
      · intro passed
        have sized (size : Binary64) (h : measure? dimension d = some size) :
            d.size? = some size := by
          cases dimension <;> cases d <;> first | exact h | cases h
        cases hm : measure? dimension d with
        | none => rw [hm] at passed; cases passed
        | some size =>
          rw [hm] at passed
          rw [sized size hm]
          exact ⟨passed, holds⟩
    | divisor n =>
      apply ChecksTell.of_check fun _ _ => rfl
      simp only [admitsWith_of, Constraint.map, constraintAdmits]
      exact fun fuel d => checkTells_judged fails fun _ => ⟨_, _, rfl⟩
    | patterns ps =>
      apply ChecksTell.of_check fun _ _ => rfl
      simp only [admitsWith_of, Constraint.map, constraintAdmits]
      exact fun fuel d => checkTells_judged fails fun _ => ⟨_, _, rfl⟩
    | brand name =>
      intro fuel dimension k d holds
      exact checksTell_nil ⟨by simp [admitsWith_of, Constraint.map, constraintAdmits], holds⟩
    | deferred name home =>
      apply ChecksTell.of_check fun _ _ => rfl
      simp only [admitsWith_of, Constraint.map, constraintAdmits]
      exact fun fuel d => checkTells_deferred cap fuel name home d
    | props p =>
      intro fuel dimension k d holds
      apply (lowerProps_tell fuel ih holds).mono
      · exact And.left
      · exact fun admitted => ⟨admitted, holds⟩
    | morph input steps =>
      intro fuel dimension k d holds
      have inner := (ih input (by simp [Constraint.children])).tells fuel holds
      rw [admitsWith_of]
      simp only [Constraint.map, constraintAdmits]
      apply (checksTell_one (checkTells_morph inner)).mono
      · exact And.left
      · exact fun admitted => ⟨admitted, holds⟩
    | union branches =>
      intro fuel dimension k d holds
      have reading : (of (.union branches)).admitsWith (b.meaning cap) d = true ↔
          ∃ m ∈ branches, m.admitsWith (b.meaning cap) d = true := by
        rw [admitsWith_of]
        simp [Constraint.map, constraintAdmits]
      rw [reading]
      cases branches with
      | nil =>
        have never : CheckTells b (.under b cap fuel) .never d (Judgement.abort = .pass) :=
          checkTells_settled fun t _ => ⟨_, rfl⟩
        apply (checksTell_one never).mono
        · rintro ⟨⟨m, hm, -⟩, -⟩
          cases hm
        · nofun
      | cons m ms =>
        apply (checksTell_one (lowerUnion_tells ih fuel holds _ _)).mono
        · exact And.left
        · exact fun admitted => ⟨admitted, holds⟩
    | intersection children =>
      intro fuel dimension k d holds
      have reading : (of (.intersection children)).admitsWith (b.meaning cap) d = true ↔
          ∀ m ∈ children, m.admitsWith (b.meaning cap) d = true := by
        rw [admitsWith_of]
        simp [Constraint.map, constraintAdmits]
      apply (lowerAll_tell ih fuel (dimensionOf (of (.intersection children)) k) holds).mono
      · rintro ⟨admitted, -⟩
        have fits := fits_dimensionOf holds (fun _ found => domain_of_admits found admitted)
          fun _ found => basis_of_admits found admitted
        exact ⟨reading.mp admitted, fits⟩
      · exact fun all => ⟨reading.mpr all, holds⟩

/-- A validation that ends gives what the structure of the node says, with aliases taken to admit
what they allow by themselves. -/
theorem compile_allows_eq_admitsWith (n : Node) {patience : Nat} {d : Json} {v : Visiting Bool}
    (h : n.compile.allows b patience cap d = some v) :
    v.outcome = n.admitsWith (b.meaning cap) d := by
  obtain ⟨fuel, r, evaluated, outcome⟩ := Program.evaluate_of_allows h
  have told := n.checksTell.compile fuel d [] false r evaluated
  rw [outcome, Bool.eq_iff_iff, isPassed_iff, told]

theorem Allows.admits {n : Node} {d : Json} (h : n.Allows b cap d) :
    n.admitsWith (b.meaning cap) d = true := by
  obtain ⟨patience, v, allowed, passed⟩ := h
  exact compile_allows_eq_admitsWith n allowed ▸ passed

theorem accepts_of_admits {n : Node} {d : Json} (admitted : n.admitsWith (b.meaning cap) d = true) :
    n.Accepts b cap d := by
  constructor
  · rintro ⟨patience, v, ended, failed⟩
    rw [compile_allows_eq_admitsWith n ended, admitted] at failed
    cases failed
  · intro bounded
    obtain ⟨fuel, r, evaluated⟩ := compile_terminates bounded b .allow d
    obtain ⟨least, allows⟩ := Program.isSome_allows_of_evaluate evaluated
    obtain ⟨v, ended⟩ := Option.isSome_iff_exists.mp (allows least (Nat.le_refl least))
    exact ⟨least, v, ended, (compile_allows_eq_admitsWith n ended).trans admitted⟩

end

end Node

end SchemaAlgebra

import SchemaAlgebra.Proofs.Modes

/-!
# Programs that end

A program is a finite tree, so its evaluation ends unless it goes on through the targets of
aliases without end. Every program ends if there is a cap on aliases within one another, and
one of a node without aliases ends in any case.
-/
namespace SchemaAlgebra

mutual

/-- The aliases that a check or a program within it may follow. -/
def Check.aliases : Check → List (Home × String)
  | .key _ _ program => aliasesOf program
  | .index key value _ => aliasesOf key ++ aliasesOf value
  | .elements items rest => aliasesOfAll items ++ aliasesOfRest rest
  | .union dispatch fallback _ => dispatch.aliases ++ aliasesOfAll fallback
  | .deferred name home => [(home, name)]
  | .morph input _ => aliasesOf input
  | _ => []

def aliasesOf : List Check → List (Home × String)
  | [] => []
  | c :: r => c.aliases ++ aliasesOf r

def aliasesOfAll : List (List Check) → List (Home × String)
  | [] => []
  | p :: r => aliasesOf p ++ aliasesOfAll r

def aliasesOfRest : Option (List Check) → List (Home × String)
  | none => []
  | some p => aliasesOf p

def Dispatch.aliases : Dispatch → List (Home × String)
  | .sequential programs => aliasesOfAll programs
  | .switch _ cases _ => aliasesOfCases cases

def aliasesOfCases : List (String × Dispatch) → List (Home × String)
  | [] => []
  | (_, d) :: r => d.aliases ++ aliasesOfCases r

end

theorem aliases_of_lookup {cases : List (String × Dispatch)} {key : String} {next : Dispatch}
    (known : cases.lookup key = some next) : next.aliases ⊆ aliasesOfCases cases := by
  induction cases with
  | nil => cases known
  | cons c cases ih =>
    rw [List.lookup_cons] at known
    split at known
    · cases known
      exact List.subset_append_left _ _
    · exact List.Subset.trans (ih known) (List.subset_append_right _ _)

/-- The branches that a union leads to refer to no other aliases. -/
theorem Dispatch.Leads.aliases {d : Json} {dispatch : Dispatch} {programs : List Program}
    (leads : dispatch.Leads d (.branches programs)) :
    aliasesOfAll programs ⊆ dispatch.aliases := by
  generalize found : Destination.branches programs = dest at leads
  induction leads with
  | sequential programs' =>
    cases found
    exact List.Subset.refl _
  | absent unseen => cases found
  | refused seen unknown => cases found
  | case seen known leads ih => exact List.Subset.trans (ih found) (aliases_of_lookup known)

theorem aliasesOf_eq (p : Program) : aliasesOf p = p.flatMap Check.aliases := by
  induction p with
  | nil => rfl
  | cons c p ih => rw [aliasesOf, ih, List.flatMap_cons]

theorem aliasesOf_append (p q : Program) : aliasesOf (p ++ q) = aliasesOf p ++ aliasesOf q := by
  rw [aliasesOf_eq, aliasesOf_eq, aliasesOf_eq, List.flatMap_append]

theorem aliasesOfAll_eq (ps : List Program) : aliasesOfAll ps = ps.flatMap aliasesOf := by
  induction ps with
  | nil => rfl
  | cons p ps ih => rw [aliasesOfAll, ih, List.flatMap_cons]

section

variable {A : Home × String → Prop}

theorem forall_aliasesOf {p : Program} :
    (∀ x ∈ aliasesOf p, A x) ↔ ∀ c ∈ p, ∀ x ∈ c.aliases, A x := by
  rw [aliasesOf_eq, List.forall_mem_flatMap]

theorem forall_aliasesOfAll {ps : List Program} :
    (∀ x ∈ aliasesOfAll ps, A x) ↔ ∀ p ∈ ps, ∀ x ∈ aliasesOf p, A x := by
  rw [aliasesOfAll_eq, List.forall_mem_flatMap]

mutual

theorem aliases_lowerTree {branches : List (Known → Program)}
    (h : ∀ lower ∈ branches, ∀ k, ∀ x ∈ aliasesOf (lower k), A x) :
    ∀ (tree : DecisionTree) (k : Known), ∀ x ∈ (lowerTree branches tree k).aliases, A x
  | .sequential indices, k => by
    rw [lowerTree, Dispatch.aliases, forall_aliasesOfAll]
    intro p hp
    obtain ⟨i, -, hi⟩ := List.mem_filterMap.mp hp
    obtain ⟨lower, found, rfl⟩ := Option.map_eq_some_iff.mp hi
    exact h lower (List.mem_of_getElem? found) k
  | .switch probe cases, k => by
    rw [lowerTree, Dispatch.aliases]
    exact aliases_lowerCases h cases probe k

theorem aliases_lowerCases {branches : List (Known → Program)}
    (h : ∀ lower ∈ branches, ∀ k, ∀ x ∈ aliasesOf (lower k), A x) :
    ∀ (cases : List (Outcome × DecisionTree)) (probe : Probe) (k : Known),
      ∀ x ∈ aliasesOfCases (lowerCases branches probe cases k), A x
  | [], _, _ => List.forall_mem_nil _
  | (o, tree) :: cases, probe, k =>
    List.forall_mem_append.mpr
      ⟨aliases_lowerTree h tree (k.learn probe o), aliases_lowerCases h cases probe k⟩

end

namespace Node

variable {P : Node → Prop}

theorem aliases_lowerEntries (required : Bool) {es : List (String × Node)} (k : Known)
    (h : ∀ e ∈ es, ∀ dimension k, ∀ x ∈ aliasesOf (e.2.lowerAs dimension k).1, A x) :
    ∀ x ∈ aliasesOf (lowerEntries required es k), A x := by
  rw [lowerEntries_eq, forall_aliasesOf, List.forall_mem_map]
  exact fun e he => h e he _ _

theorem aliases_lowerIndex (named : List String) {ss : List (Signature Node)}
    (h : ∀ s ∈ ss, (∀ x ∈ aliasesOf s.key.compile, A x) ∧
      ∀ x ∈ aliasesOf s.value.compile, A x) :
    ∀ x ∈ aliasesOf (lowerIndex named ss), A x := by
  rw [lowerIndex_eq, forall_aliasesOf, List.forall_mem_map]
  exact fun s hs => List.forall_mem_append.mpr (h s hs)

theorem aliases_lowerSequence {s : Sequence Node}
    (h : ∀ m ∈ s.values, ∀ x ∈ aliasesOf m.compile, A x) :
    ∀ x ∈ aliasesOf (lowerSequence (some s)), A x := by
  have items : ∀ x ∈ aliasesOfAll (s.items.map compile), A x := by
    rw [forall_aliasesOfAll, List.forall_mem_map]
    exact fun m hm => h m (List.mem_append_left _ hm)
  have rest : ∀ x ∈ aliasesOfRest (s.rest.map compile), A x := by
    cases hr : s.rest with
    | none => exact List.forall_mem_nil _
    | some m => exact h m (List.mem_append_right _ (by simp [hr]))
  rw [lowerSequence_eq, forall_aliasesOf, List.forall_mem_singleton]
  exact List.forall_mem_append.mpr ⟨items, rest⟩

/-- A program follows no other aliases than those that its node refers to: if a property
passes from nodes to their children, what it says of references is true of the program. -/
theorem aliases_lowerAs (children : ∀ c, P (of c) → ∀ m ∈ c.children, P m)
    (refers : ∀ name home, P (of (.deferred name home)) → A (home, name)) {n : Node} (hn : P n)
    (dimension : Dimension) (k : Known) : ∀ x ∈ aliasesOf (n.lowerAs dimension k).1, A x := by
  induction n using Node.inductionOn generalizing dimension k with
  | step c ih =>
    have below (m : Node) (hm : m ∈ c.children) (dimension : Dimension) (k : Known) :=
      ih m hm (children c hn m hm) dimension k
    have nothing {p : Program} (h : aliasesOf p = []) : ∀ x ∈ aliasesOf p, A x := by
      rw [h]
      exact List.forall_mem_nil _
    cases c with
    | domain dm => simp only [lowerAs]; split_ifs <;> exact nothing rfl
    | literal l => simp only [lowerAs]; split_ifs <;> exact nothing rfl
    | basis c => simp only [lowerAs]; split_ifs <;> exact nothing rfl
    | bound r => exact nothing rfl
    | divisor n => exact nothing rfl
    | patterns ps => exact nothing rfl
    | brand name => exact nothing rfl
    | deferred name home => exact List.forall_mem_singleton.mpr (refers name home hn)
    | morph input steps =>
      rw [lowerAs, forall_aliasesOf, List.forall_mem_singleton]
      exact below input List.mem_cons_self _ k
    | intersection children =>
      rw [lowerAs]
      generalize dimensionOf (of (.intersection children)) k = dimension
      have all (ms : List Node) (hms : ∀ m ∈ ms, m ∈ children) (k : Known) :
          ∀ x ∈ aliasesOf (lowerAll ms dimension k), A x := by
        induction ms generalizing k with
        | nil => exact List.forall_mem_nil _
        | cons m ms ihms =>
          rw [lowerAll, aliasesOf_append, List.forall_mem_append]
          exact ⟨below m (hms m List.mem_cons_self) _ _,
            ihms (fun m' hm => hms m' (List.mem_cons_of_mem _ hm)) _⟩
      exact all children (fun _ hm => hm) k
    | union branches =>
      have lowered : ∀ lower ∈ lowerEach branches, ∀ k,
          ∀ x ∈ aliasesOf (lower k), A x := by
        rw [lowerEach_eq, List.forall_mem_map]
        exact fun m hm k => below m hm _ k
      rw [lowerAs]
      split_ifs
      · exact nothing rfl
      · rw [forall_aliasesOf, List.forall_mem_singleton]
        refine List.forall_mem_append.mpr ⟨aliases_lowerTree lowered _ k, ?_⟩
        rw [forall_aliasesOfAll, List.forall_mem_map]
        exact fun lower hl => lowered lower hl k
    | props p =>
      have sequence : ∀ x ∈ aliasesOf (lowerSequence p.sequence), A x := by
        cases hs : p.sequence with
        | none => exact List.forall_mem_nil _
        | some s =>
          exact aliases_lowerSequence fun m hm => below m (Props.mem_values_of_sequence hs hm) _ _
      have index := aliases_lowerIndex (Entries.keys p.required ++ Entries.keys p.optional)
        fun s hs => ⟨below s.key (Props.mem_values_of_index hs).1 _ .nothing,
          below s.value (Props.mem_values_of_index hs).2 _ .nothing⟩
      have required := aliases_lowerEntries true k
        fun e he => below e.2 (Props.mem_values_of_required he)
      have optional := aliases_lowerEntries false k
        fun e he => below e.2 (Props.mem_values_of_optional he)
      obtain ⟨_, _, _, _⟩ := p
      simp only [lowerAs, aliasesOf_append, List.forall_mem_append]
      exact ⟨⟨⟨required, optional⟩, index⟩, sequence⟩

theorem aliasesOf_lowerAs {n : Node} (hasAlias : n.hasAlias = false) (dimension : Dimension)
    (k : Known) : aliasesOf (n.lowerAs dimension k).1 = [] := by
  refine List.eq_nil_iff_forall_not_mem.mpr ?_
  refine aliases_lowerAs (P := fun m => m.hasAlias = false) (fun c hc m => hasAlias_child hc) ?_
    hasAlias dimension k
  intro name home reference
  exact absurd reference (by simp [Node.hasAlias, fold])

end Node

end

variable [Library]

namespace Traversal

/-- The evaluation of the program ends, wherever it is nested. -/
def Halts (b : Bindings) (test : Program → String → Option KeyTest) (n : Nat) (s : Site)
    (p : Program) (d : Json) : Prop :=
  ∀ nested, (evaluate b test n s (frameOf p d nested)).isSome

/-- The evaluation of the check ends, whatever came before. -/
def CheckHalts (b : Bindings) (test : Program → String → Option KeyTest) (n : Nat) (s : Site)
    (c : Check) (d : Json) : Prop :=
  ∀ f : ProgramFrame, f.data = d →
    (evalCheck b test (evalFrame b (evaluate b test n)) s c f).isSome

section

variable {b : Bindings} {test : Program → String → Option KeyTest} {n m : Nat} {s : Site}
  {d : Json}

theorem Halts.mono {p : Program} (h : Halts b test n s p d) (hnm : n ≤ m) :
    Halts b test m s p d := by
  intro nested
  obtain ⟨r, found⟩ := Option.isSome_iff_exists.mp (h nested)
  exact Option.isSome_iff_exists.mpr ⟨r, evaluate_mono hnm _ _ _ found⟩

theorem CheckHalts.mono {c : Check} (h : CheckHalts b test n s c d) (hnm : n ≤ m) :
    CheckHalts b test m s c d := by
  intro f hf
  obtain ⟨r, found⟩ := Option.isSome_iff_exists.mp (h f hf)
  exact Option.isSome_iff_exists.mpr
    ⟨r, evalCheck_within (evalFrame_within (evaluate_mono hnm)) found⟩

omit [Library] in
/-- What ends for each of finitely many ends for all of them at once. -/
theorem exists_common {α : Type} {P : Nat → α → Prop}
    (mono : ∀ {n m a}, P n a → n ≤ m → P m a) {l : List α}
    (h : ∀ a ∈ l, ∃ n, P n a) : ∃ n, ∀ a ∈ l, P n a := by
  induction l with
  | nil => exact ⟨0, nofun⟩
  | cons a l ih =>
    obtain ⟨n, here⟩ := h a List.mem_cons_self
    obtain ⟨m, there⟩ := ih fun a' ha => h a' (List.mem_cons_of_mem _ ha)
    refine ⟨max n m, List.forall_mem_cons.mpr
      ⟨mono here (le_max_left n m), fun a' ha => ?_⟩⟩
    exact mono (there a' ha) (le_max_right n m)

omit [Library] in
theorem goOn_data {mode : Mode} {f g : ProgramFrame} {j : Judgement} (h : goOn mode f j = some g) :
    g.data = f.data := by
  cases j with
  | pass =>
    cases h
    rfl
  | fail =>
    simp only [goOn] at h
    split at h <;> cases h
    rfl
  | abort => cases h

theorem evalChecks_isSome {p : Program} (h : ∀ c ∈ p, CheckHalts b test n s c d)
    {f : ProgramFrame} (hf : f.data = d) :
    (evalChecks b test (evalFrame b (evaluate b test n)) s p f).isSome := by
  induction p generalizing f with
  | nil => rfl
  | cons c p ih =>
    obtain ⟨a, checked⟩ := Option.isSome_iff_exists.mp (h c List.mem_cons_self f hf)
    have data : a.value.1.data = d := (evalCheck_keeps checked).data.trans hf
    rw [evalChecks, checked, Report.bind, Option.bind_some, Option.isSome_map]
    dsimp only
    cases went : goOn s.mode a.value.1 a.value.2 with
    | none => rfl
    | some g =>
      exact ih (fun c' hc => h c' (List.mem_cons_of_mem _ hc)) ((goOn_data went).trans data)

theorem halts_of_checks {p : Program} (h : ∀ c ∈ p, CheckHalts b test n s c d) :
    Halts b test (n + 1) s p d := by
  intro nested
  rw [evaluate, Option.isSome_map]
  exact evalChecks_isSome h rfl

theorem checkHalts_settled {c : Check} (h : ∃ t j, begin? b test s.fresh c d = (t, .settled j)) :
    CheckHalts b test n s c d := by
  rintro f rfl
  obtain ⟨t, j, begun⟩ := h
  rw [evalCheck, begun]
  rfl

theorem checkHalts_descend {c : Check} {t : Traversal} {child : Frame} {pending : Pending}
    (begun : begin? b test s.fresh c d = (t, .descend child pending))
    (h : (evalFrame b (evaluate b test n) t.site child).isSome) : CheckHalts b test n s c d := by
  rintro f rfl
  rw [evalCheck, begun]
  simpa using h

theorem evalJobs_isSome {jobs : List Job}
    (h : ∀ job ∈ jobs, Halts b test n (s.inside job.segment) job.program job.data)
    (j : Judgement) (patches : List (Segment × Json)) :
    (evalJobs (evaluate b test n) s jobs j patches).isSome := by
  induction jobs generalizing j patches with
  | nil => rfl
  | cons job jobs ih =>
    have others := ih fun job' hj => h job' (List.mem_cons_of_mem _ hj)
    obtain ⟨a, ran⟩ := Option.isSome_iff_exists.mp (h job List.mem_cons_self true)
    rw [evalJobs, ran, Report.bind, Option.bind_some, Option.isSome_map]
    cases a.value with
    | failed =>
      cases s.mode with
      | allow => rfl
      | apply => exact others _ _
    | unchanged => exact others _ _
    | changed v => exact others _ _

theorem evalBranches_isSome {ps : List Program} (h : ∀ p ∈ ps, Halts b test n s p d)
    (expected : String) : (evalBranches (evaluate b test n) s d expected ps).isSome := by
  induction ps with
  | nil => rfl
  | cons p ps ih =>
    obtain ⟨a, ran⟩ := Option.isSome_iff_exists.mp (h p List.mem_cons_self false)
    rw [evalBranches, ran, Report.bind, Option.map_some, Option.bind_some, Option.isSome_map]
    dsimp only
    cases a.value with
    | failed => exact ih fun q hq => h q (List.mem_cons_of_mem _ hq)
    | unchanged => rfl
    | changed v => rfl

theorem start_isSome {p : Program} (h : Halts b test n s p d) (nested : Bool) :
    (evalFrame b (evaluate b test n) s (.start p d nested)).isSome := by
  rw [Frame.start, evalFrame, Option.isSome_map]
  exact h nested

theorem branchesFrame_isSome {ps : List Program} (h : ∀ p ∈ ps, Halts b test n s p d)
    (expected : String) :
    (evalFrame b (evaluate b test n) s (branchesFrame d expected ps)).isSome := by
  match ps with
  | [] => rfl
  | [p] => exact start_isSome (h p List.mem_cons_self) false
  | p :: q :: ps => exact evalBranches_isSome h expected

theorem checkHalts_jobs {c : Check} {jobs : List Job} {t : Traversal} (site : t.site = s)
    (begun : begin? b test s.fresh c d = t.beginChildren jobs)
    (h : ∀ job ∈ jobs, ∃ n, Halts b test n (s.inside job.segment) job.program job.data) :
    ∃ n, CheckHalts b test n s c d := by
  obtain ⟨n, ends⟩ := exists_common (P := fun n (job : Job) =>
    Halts b test n (s.inside job.segment) job.program job.data) Halts.mono h
  refine ⟨n, ?_⟩
  rcases jobs with _ | ⟨job, jobs⟩
  · exact checkHalts_settled ⟨t, .pass, begun⟩
  · refine checkHalts_descend begun ?_
    rw [site]
    exact evalJobs_isSome ends .pass []

end

section

variable (b : Bindings) (test : Program → String → Option KeyTest) (mode : Mode)
  (maxDepth : Option Nat) (depth : Nat) (A : Home × String → Prop)

/-- The test answers for all keys that follow certain aliases only. -/
def Answers : Prop := ∀ key, (∀ x ∈ aliasesOf key, A x) → ∀ name, (test key name).isSome

/-- The program ends on every value, and on texts even if no key is answered for. -/
def Terminates (p : Program) : Prop :=
  ∀ (path : List Segment) (d : Json), (Answers test A ∨ ∃ x, d = .string x) →
    ∃ n, Halts b test n ⟨mode, maxDepth, depth, path⟩ p d

/-- The alias is refused, or its target ends one level deeper. -/
def Grounded (x : Home × String) : Prop :=
  (∃ max, maxDepth = some max ∧ max ≤ depth) ∨
    ∀ m, b.node? x.1 x.2 = some m → Terminates b test mode maxDepth (depth + 1) A m.compile

variable {b test mode maxDepth depth A}

theorem Terminates.under {p : Program} (h : Terminates b test mode maxDepth depth A p)
    {name : String} {path : List Segment} {d child : Json} (hc : d.get? name = some child)
    (keys : Answers test A ∨ ∃ x, d = .string x) :
    ∃ n, Halts b test n ⟨mode, maxDepth, depth, path⟩ p child := by
  refine h path child (keys.imp id ?_)
  rintro ⟨x, rfl⟩
  cases hc

theorem terminates_of_checks {p : Program}
    (h : ∀ (path : List Segment) (d : Json), (Answers test A ∨ ∃ x, d = .string x) →
      ∀ c ∈ p, ∃ n, CheckHalts b test n ⟨mode, maxDepth, depth, path⟩ c d) :
    Terminates b test mode maxDepth depth A p := by
  intro path d keys
  obtain ⟨n, ends⟩ := exists_common
      (P := fun n c => CheckHalts b test n ⟨mode, maxDepth, depth, path⟩ c d)
    CheckHalts.mono (h path d keys)
  exact ⟨n + 1, halts_of_checks ends⟩

omit [Library] in
theorem indexJobs_isSome (answers : Answers test A) {key : Program}
    (ha : ∀ x ∈ aliasesOf key, A x) (value : Program) (named : List String)
    (entries : List (String × Json)) : (indexJobs test key value named entries).isSome := by
  induction entries with
  | nil => rfl
  | cons e entries ih =>
    obtain ⟨name, child⟩ := e
    obtain ⟨answer, answered⟩ := Option.isSome_iff_exists.mp (answers key ha name)
    obtain ⟨⟨jobs, asked⟩, found⟩ := Option.isSome_iff_exists.mp ih
    rw [indexJobs]
    split
    · exact ih
    · simp only [answered, found, Option.bind_eq_bind, Option.bind_some]
      split <;> rfl

theorem deferred_ends (grounded : ∀ x, A x → Grounded b test mode maxDepth depth A x)
    {name : String} {home : Home} (ha : A (home, name)) (path : List Segment) {d : Json}
    (keys : Answers test A ∨ ∃ x, d = .string x) :
    ∃ n, CheckHalts b test n ⟨mode, maxDepth, depth, path⟩ (.deferred name home) d := by
  rcases begin_deferred b test name home ⟨mode, maxDepth, depth, path⟩ d with
    ⟨code, message, refused⟩ | ⟨m, found, shallow, followed⟩
  · exact ⟨0, checkHalts_settled ⟨_, _, refused mode⟩⟩
  · rcases grounded _ ha with ⟨max, capped, deep⟩ | ends
    · exact absurd (shallow max capped) (Nat.not_lt_of_le deep)
    · obtain ⟨n, ends⟩ := ends m found path d keys
      refine ⟨n, checkHalts_descend (followed mode) ?_⟩
      rw [evalFrame, Option.isSome_map]
      exact ends false

mutual

theorem check_ends (grounded : ∀ x, A x → Grounded b test mode maxDepth depth A x) :
    ∀ c : Check, (∀ x ∈ c.aliases, A x) → ∀ (path : List Segment) (d : Json),
    (Answers test A ∨ ∃ x, d = .string x) →
      ∃ n, CheckHalts b test n ⟨mode, maxDepth, depth, path⟩ c d
  | .domain dm, _, _, _, _ => ⟨0, checkHalts_settled ⟨_, _, rfl⟩⟩
  | .literal l, _, _, _, _ => ⟨0, checkHalts_settled ⟨_, _, rfl⟩⟩
  | .basis c, _, _, _, _ => ⟨0, checkHalts_settled ⟨_, _, rfl⟩⟩
  | .range r dimension, _, _, _, _ => ⟨0, checkHalts_settled ⟨_, _, rfl⟩⟩
  | .divisor n, _, _, _, _ => ⟨0, checkHalts_settled ⟨_, _, rfl⟩⟩
  | .patterns ps, _, _, _, _ => ⟨0, checkHalts_settled ⟨_, _, rfl⟩⟩
  | .never, _, _, _, _ => ⟨0, checkHalts_settled ⟨_, _, rfl⟩⟩
  | .deferred name home, ha, path, d, keys =>
    deferred_ends grounded (ha _ (List.mem_singleton.mpr rfl)) path keys
  | .key name required p, ha, path, d, keys => by
    cases hc : d.get? name with
    | none => exact ⟨0, checkHalts_settled ⟨_, _, by simp only [begin?, beginKey, hc]; rfl⟩⟩
    | some child =>
      obtain ⟨n, ends⟩ := (terminates_of_checks (checks_end grounded p ha)).under hc keys
      have begun : begin? b test (Site.fresh ⟨mode, maxDepth, depth, path⟩)
          (.key name required p) d = (Site.fresh ⟨mode, maxDepth, depth, .key name :: path⟩,
            .descend (.start p child true) (.key name)) := by
        simp only [begin?, beginKey, hc]
        rfl
      exact ⟨n, checkHalts_descend begun (start_isSome ends true)⟩
  | .index key value named, ha, path, d, keys => by
    have values := terminates_of_checks (checks_end grounded value fun x hx =>
      ha x (List.mem_append_right _ hx))
    cases d with
    | object entries =>
      have answers : Answers test A := keys.resolve_right (by simp)
      obtain ⟨⟨jobs, asked⟩, found⟩ := Option.isSome_iff_exists.mp (indexJobs_isSome answers
        (fun x hx => ha x (List.mem_append_left _ hx)) value named entries)
      have begun : begin? b test (Site.fresh ⟨mode, maxDepth, depth, path⟩)
          (.index key value named) (.object entries) = beginChildren
            { (Site.fresh ⟨mode, maxDepth, depth, path⟩) with visited := asked ++ [] }
              jobs := by
        simp only [begin?, beginIndex, found]
        rfl
      refine checkHalts_jobs rfl begun fun job hj => ?_
      rw [program_of_mem_indexJobs found hj]
      exact values _ job.data (Or.inl answers)
    | _ => exact ⟨0, checkHalts_settled ⟨_, _, rfl⟩⟩
  | .elements items rest, ha, path, d, keys => by
    have all (p : Program) (hp : p ∈ items ∨ rest = some p) :
        Terminates b test mode maxDepth depth A p :=
      hp.elim (programs_end grounded items (fun x hx => ha x (List.mem_append_left _ hx)) p)
        (rest_ends grounded rest (fun x hx => ha x (List.mem_append_right _ hx)) p)
    cases d with
    | array xs =>
      have answers : Answers test A := keys.resolve_right (by simp)
      cases fits : fitsLength items rest xs with
      | true =>
        exact checkHalts_jobs rfl (begin_elements fits _) fun job hj =>
          all job.program (program_of_mem_elementJobs hj) _ job.data (Or.inl answers)
      | false =>
        refine ⟨0, checkHalts_settled ?_⟩
        obtain ⟨code, message, begun⟩ := begin_elements_abort fits
          (Site.fresh ⟨mode, maxDepth, depth, path⟩)
        exact ⟨_, _, begun⟩
    | _ => exact ⟨0, checkHalts_settled ⟨_, _, rfl⟩⟩
  | .union dispatch fallback expected, ha, path, d, keys => by
    obtain ⟨dest, leads, routed⟩ := dispatch.exists_reached d
    have halts {ps : List Program} (all : ∀ p ∈ ps, Terminates b test mode maxDepth depth A p)
        (begun : (Site.fresh ⟨mode, maxDepth, depth, path⟩).route fallback d dispatch =
          (Site.fresh ⟨mode, maxDepth, depth, path⟩, some ps)) :
        ∃ n, CheckHalts b test n ⟨mode, maxDepth, depth, path⟩
          (.union dispatch fallback expected) d := by
      obtain ⟨n, ends⟩ := exists_common
          (P := fun n p => Halts b test n ⟨mode, maxDepth, depth, path⟩ p d)
        Halts.mono fun p hp => all p hp path d keys
      exact ⟨n, checkHalts_descend (begin_union begun) (branchesFrame_isSome ends expected)⟩
    have settles {t : Traversal}
        (begun : (Site.fresh ⟨mode, maxDepth, depth, path⟩).route fallback d
        dispatch = (t, none)) :
        ∃ n, CheckHalts b test n ⟨mode, maxDepth, depth, path⟩
          (.union dispatch fallback expected) d :=
      ⟨0, checkHalts_settled ⟨t, .fail, by simp only [begin?, beginUnion, begun]⟩⟩
    cases dest with
    | branches programs =>
      exact halts (dispatch_ends grounded dispatch (fun x hx => ha x (List.mem_append_left _ hx)) d
        programs leads) (routed _ _)
    | fallback =>
      have others := programs_end grounded fallback fun x hx => ha x (List.mem_append_right _ hx)
      by_cases applies : mode = .apply
      · exact halts others ((routed _ _).trans (congrArg (Prod.mk _) (if_pos applies)))
      · exact settles ((routed _ _).trans (congrArg (Prod.mk _) (if_neg applies)))
    | refusal probe expected' => exact settles (routed _ _)
  | .morph input steps, ha, path, d, keys => by
    obtain ⟨n, ends⟩ := terminates_of_checks (checks_end grounded input ha) path d keys
    obtain ⟨r, ran⟩ := Option.isSome_iff_exists.mp (ends false)
    refine ⟨n, checkHalts_descend rfl ?_⟩
    have site : (Site.fresh ⟨mode, maxDepth, depth, path⟩).site =
        ⟨mode, maxDepth, depth, path⟩ := rfl
    rw [evalFrame, site, ran]
    rfl

theorem checks_end (grounded : ∀ x, A x → Grounded b test mode maxDepth depth A x) :
    ∀ p : List Check, (∀ x ∈ aliasesOf p, A x) → ∀ (path : List Segment) (d : Json),
    (Answers test A ∨ ∃ x, d = .string x) →
      ∀ c ∈ p, ∃ n, CheckHalts b test n ⟨mode, maxDepth, depth, path⟩ c d
  | [], _, _, _, _ => nofun
  | c :: p, ha, path, d, keys => by
    have here := check_ends grounded c (fun x hx => ha x (List.mem_append_left _ hx)) path d keys
    have others := checks_end grounded p (fun x hx => ha x (List.mem_append_right _ hx)) path d keys
    exact List.forall_mem_cons.mpr ⟨here, others⟩

theorem programs_end (grounded : ∀ x, A x → Grounded b test mode maxDepth depth A x) :
    ∀ ps : List (List Check), (∀ x ∈ aliasesOfAll ps, A x) →
    ∀ p ∈ ps, Terminates b test mode maxDepth depth A p
  | [], _ => nofun
  | p :: ps, ha => by
    have here := terminates_of_checks
        (checks_end grounded p fun x hx => ha x (List.mem_append_left _ hx))
    have others := programs_end grounded ps fun x hx => ha x (List.mem_append_right _ hx)
    exact List.forall_mem_cons.mpr ⟨here, others⟩

theorem rest_ends (grounded : ∀ x, A x → Grounded b test mode maxDepth depth A x) :
    ∀ rest : Option (List Check), (∀ x ∈ aliasesOfRest rest, A x) →
    ∀ p, rest = some p → Terminates b test mode maxDepth depth A p
  | none, _ => nofun
  | some p, ha => fun q hq => by
    cases hq
    exact terminates_of_checks (checks_end grounded p ha)

theorem dispatch_ends (grounded : ∀ x, A x → Grounded b test mode maxDepth depth A x) :
    ∀ dispatch : Dispatch, (∀ x ∈ dispatch.aliases, A x) →
      ∀ (d : Json) (ps : List Program),
      dispatch.Leads d (.branches ps) → ∀ p ∈ ps, Terminates b test mode maxDepth depth A p
  | .sequential programs, ha, d, ps, leads => by
    cases leads
    exact programs_end grounded programs ha
  | .switch probe cases expected, ha, d, ps, leads => by
    cases leads with
    | case seen known leads => exact cases_end grounded cases ha _ _ known d ps leads

theorem cases_end (grounded : ∀ x, A x → Grounded b test mode maxDepth depth A x) :
    ∀ cases : List (String × Dispatch), (∀ x ∈ aliasesOfCases cases, A x) →
    ∀ (key : String) (next : Dispatch), cases.lookup key = some next →
      ∀ (d : Json) (ps : List Program), next.Leads d (.branches ps) →
        ∀ p ∈ ps, Terminates b test mode maxDepth depth A p
  | (k, dispatch) :: cases, ha, key, next, known => by
    rw [List.lookup_cons] at known
    split at known
    · cases known
      exact dispatch_ends grounded dispatch fun x hx => ha x (List.mem_append_left _ hx)
    · exact cases_end grounded cases (fun x hx => ha x (List.mem_append_right _ hx)) key next known

end

end

section

variable {b : Bindings} {maxDepth : Option Nat} {A : Home × String → Prop}

theorem limitTest_answers
    (grounded : ∀ x, A x → Grounded b (fun _ _ => none) .allow maxDepth 0 A x) :
    Answers (limitTest b maxDepth) A := by
  intro key ha name
  obtain ⟨n, ends⟩ := terminates_of_checks (checks_end grounded key ha) [] (.string name)
    (Or.inr ⟨name, rfl⟩)
  obtain ⟨r, found⟩ := Option.isSome_iff_exists.mp (ends false)
  rw [limitTest_of_evaluate found]
  rfl

/-- With a cap every program ends: each alias that is followed leaves less of it. -/
theorem terminates_of_cap (b : Bindings) (test : Program → String → Option KeyTest)
    (mode : Mode) (max depth : Nat) (p : Program) :
    Terminates b test mode (some max) depth (fun _ => True) p := by
  generalize left : max - depth = l
  induction l generalizing depth p with
  | zero =>
    exact terminates_of_checks
      (checks_end (fun x _ => Or.inl ⟨max, rfl, by omega⟩) p fun _ _ => trivial)
  | succ l ih =>
    exact terminates_of_checks
      (checks_end (fun x _ => Or.inr fun m _ => ih (depth + 1) m.compile (by omega))
      p fun _ _ => trivial)

/-- With a cap on aliases within one another, every program ends on every value. -/
theorem evaluate_ends_of_cap (b : Bindings) (mode : Mode) (max : Nat) (p : Program) (d : Json) :
    ∃ n r, evaluate b (limitTest b (some max)) n (.root mode (some max)) (frameOf p d false) =
      some r := by
  have answers : Answers (limitTest b (some max)) (fun _ => True) := limitTest_answers fun x _ => by
    cases max with
    | zero => exact Or.inl ⟨0, rfl, Nat.le_refl 0⟩
    | succ max => exact Or.inr fun m _ => terminates_of_cap b _ .allow (max + 1) 1 m.compile
  obtain ⟨n, ends⟩ := terminates_of_cap b (limitTest b (some max)) mode max 0 p [] d
      (Or.inl answers)
  obtain ⟨r, found⟩ := Option.isSome_iff_exists.mp (ends false)
  exact ⟨n, r, found⟩

theorem evaluate_ends_of_aliases (b : Bindings) (mode : Mode) (maxDepth : Option Nat) {p : Program}
    (hp : aliasesOf p = []) (d : Json) :
    ∃ n r, evaluate b (limitTest b maxDepth) n (.root mode maxDepth) (frameOf p d false) =
      some r := by
  have answers : Answers (limitTest b maxDepth) (fun _ => False) := limitTest_answers nofun
  have terminates : Terminates b (limitTest b maxDepth) mode maxDepth 0 (fun _ => False) p :=
    terminates_of_checks (checks_end nofun p (by simp [hp]))
  obtain ⟨n, ends⟩ := terminates [] d (Or.inl answers)
  obtain ⟨r, found⟩ := Option.isSome_iff_exists.mp (ends false)
  exact ⟨n, r, found⟩

end

end Traversal

end SchemaAlgebra

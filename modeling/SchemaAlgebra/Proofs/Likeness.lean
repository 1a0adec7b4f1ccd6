import SchemaAlgebra.Proofs.Meanings

/-!
# Programs that allow the same values

Whether a value is allowed depends neither on the texts of problems nor on the steps of morphs, nor
on the homes of aliases. So nodes that are the same allow the same values if the names in them
refer to nodes that are the same.
-/
namespace SchemaAlgebra

mutual

/-- A check without what makes no difference to the values that are allowed. -/
def Check.bare : Check → Check
  | .range r dimension => .range r.canonical dimension
  | .key name required program => .key name required (bareProgram program)
  | .index key value named => .index (bareProgram key) (bareProgram value) named
  | .elements items rest => .elements (barePrograms items) (bareRest rest)
  | .union dispatch _ _ => .union dispatch.bare [] ""
  | .deferred name _ => .deferred name none
  | .morph input _ => .morph (bareProgram input) []
  | c => c

def bareProgram : List Check → List Check
  | [] => []
  | c :: r => c.bare :: bareProgram r

def barePrograms : List (List Check) → List (List Check)
  | [] => []
  | p :: r => bareProgram p :: barePrograms r

def bareRest : Option (List Check) → Option (List Check)
  | none => none
  | some p => some (bareProgram p)

def Dispatch.bare : Dispatch → Dispatch
  | .sequential programs => .sequential (barePrograms programs)
  | .switch probe cases _ => .switch probe (bareCases cases) ""

def bareCases : List (String × Dispatch) → List (String × Dispatch)
  | [] => []
  | (key, d) :: r => (key, d.bare) :: bareCases r

end

theorem bareProgram_eq (p : Program) : bareProgram p = p.map Check.bare := by
  induction p with
  | nil => rfl
  | cons c p ih => rw [bareProgram, ih, List.map_cons]

theorem barePrograms_eq (ps : List Program) : barePrograms ps = ps.map bareProgram := by
  induction ps with
  | nil => rfl
  | cons p ps ih => rw [barePrograms, ih, List.map_cons]

theorem bareRest_eq (rest : Option Program) : bareRest rest = rest.map bareProgram := by
  cases rest <;> rfl

theorem bareProgram_append (p q : Program) :
    bareProgram (p ++ q) = bareProgram p ++ bareProgram q := by
  rw [bareProgram_eq, bareProgram_eq, bareProgram_eq, List.map_append]

mutual

theorem bare_lowerTree {branches branches' : List (Known → Program)}
    (h : branches.map (fun lower k => bareProgram (lower k)) = branches'.map fun lower k =>
      bareProgram (lower k)) :
    ∀ (tree : DecisionTree) (k : Known), (lowerTree branches tree k).bare =
      (lowerTree branches' tree k).bare
  | .sequential indices, k => by
    have branch (i : Nat) : (branches[i]?.map fun lower => lower k).map bareProgram =
        (branches'[i]?.map fun lower => lower k).map bareProgram := by
      have here := congrArg (fun bs => (bs[i]?.map fun lower => lower k)) h
      simpa only [List.getElem?_map, Option.map_map, Function.comp_def] using here
    simp only [lowerTree, Dispatch.bare, barePrograms_eq, List.map_filterMap, branch]
  | .switch probe cases, k => by
    simp only [lowerTree, Dispatch.bare, bare_lowerCases h cases probe k]

theorem bare_lowerCases {branches branches' : List (Known → Program)}
    (h : branches.map (fun lower k => bareProgram (lower k)) = branches'.map fun lower k =>
      bareProgram (lower k)) :
    ∀ (cases : List (Outcome × DecisionTree)) (probe : Probe) (k : Known),
      bareCases (lowerCases branches probe cases k) = bareCases (lowerCases branches' probe cases k)
  | [], _, _ => rfl
  | (o, tree) :: cases, probe, k => by
    simp only [lowerCases, bareCases, bare_lowerTree h tree (k.learn probe o),
      bare_lowerCases h cases probe k]

end

namespace Node

theorem dimensionOf_erase (n : Node) (k : Known) : dimensionOf n.erase k = dimensionOf n k := by
  have domain : n.erase.domain? = n.domain? := fold_erase (fun c => by cases c <;> rfl) n
  have basis : n.erase.basis? = n.basis? := fold_erase (fun c => by cases c <;> rfl) n
  rw [dimensionOf, dimensionOf, domain, basis]

theorem ofNode_erase (n : Node) : Facts.ofNode n.erase = Facts.ofNode n := by
  rw [Facts.ofNode, Facts.ofNode, fold_erase fun c => by cases c <;> rfl]

/-- What is erased of a node makes no difference to its bare program. -/
def LowersAlike (n : Node) : Prop := ∀ (dimension : Dimension) (k : Known),
  bareProgram (n.erase.lowerAs dimension k).1 = bareProgram (n.lowerAs dimension k).1 ∧
    (n.erase.lowerAs dimension k).2 = (n.lowerAs dimension k).2

namespace LowersAlike

variable {n : Node}

theorem lower (h : n.LowersAlike) (k : Known) :
    bareProgram (n.erase.lower k) = bareProgram (n.lower k) := by
  rw [Node.lower, Node.lower, dimensionOf_erase]
  exact (h _ k).1

theorem compile (h : n.LowersAlike) : bareProgram n.erase.compile = bareProgram n.compile :=
  h.lower .nothing

theorem lowerAll {ns : List Node} (h : ∀ m ∈ ns, m.LowersAlike) (dimension : Dimension)
    (k : Known) :
    bareProgram (Node.lowerAll (ns.map erase) dimension k) =
      bareProgram (Node.lowerAll ns dimension k) := by
  induction ns generalizing k with
  | nil => rfl
  | cons n ns ih =>
    obtain ⟨first, others⟩ := List.forall_mem_cons.mp h
    obtain ⟨checks, after⟩ := first dimension k
    simp only [List.map_cons, Node.lowerAll, bareProgram_append, checks, after, ih others]

theorem lowerProps {p : Props Node} (h : ∀ m ∈ p.values, m.LowersAlike) :
    LowersAlike (.of (.props p)) := by
  have entries (required : Bool) {es : List (String × Node)} (he : ∀ e ∈ es, e.2.LowersAlike)
      (k : Known) : bareProgram (lowerEntries required (es.map fun e => (e.1, e.2.erase)) k) =
        bareProgram (lowerEntries required es k) := by
    rw [lowerEntries_eq, lowerEntries_eq, bareProgram_eq, bareProgram_eq, List.map_map,
      List.map_map, List.map_map]
    exact List.map_congr_left fun e hm => congrArg (Check.key e.1 required) ((he e hm).lower _)
  have index (named : List String) :
      bareProgram (lowerIndex named (p.index.map fun s => ⟨s.key.erase, s.value.erase⟩)) =
      bareProgram (lowerIndex named p.index) := by
    rw [lowerIndex_eq, lowerIndex_eq, bareProgram_eq, bareProgram_eq, List.map_map, List.map_map,
      List.map_map]
    refine List.map_congr_left fun s hs => ?_
    obtain ⟨key, value⟩ := Props.mem_values_of_index hs
    exact congrArg₂ (Check.index · · named) (h _ key).compile (h _ value).compile
  have sequence : bareProgram (lowerSequence (p.sequence.map (·.map erase))) =
      bareProgram (lowerSequence p.sequence) := by
    cases hq : p.sequence with
    | none => rfl
    | some q =>
      have programs {ms : List Node} (hm : ms ⊆ q.values) :
          barePrograms ((ms.map erase).map Node.compile) = barePrograms (ms.map Node.compile) := by
        rw [barePrograms_eq, barePrograms_eq, List.map_map, List.map_map, List.map_map]
        exact List.map_congr_left fun m hm' =>
          (h m (Props.mem_values_of_sequence hq (hm hm'))).compile
      have rest : bareRest ((q.rest.map erase).map Node.compile) =
          bareRest (q.rest.map Node.compile) := by
        cases hr : q.rest with
        | none => rfl
        | some m =>
          have member : m ∈ q.values := List.mem_append_right _ (Option.mem_toList.mpr hr)
          exact congrArg some (h m (Props.mem_values_of_sequence hq member)).compile
      change bareProgram (lowerSequence (some ⟨q.items.map erase, q.rest.map erase⟩)) = _
      rw [lowerSequence_eq, lowerSequence_eq]
      exact congrArg₂ (fun items rest => [Check.elements items rest])
        (programs (List.subset_append_left _ _)) rest
  intro dimension k
  rw [erase_of]
  have keys (es : List (String × Node)) :
      Entries.keys (es.map fun e => (e.1, e.2.erase)) = Entries.keys es := by
    simp [Entries.keys]
  refine ⟨?_, rfl⟩
  simp only [Constraint.erased, Constraint.map, Props.map, Node.lowerAs, bareProgram_append, keys]
  rw [entries true fun e he => h _ (Props.mem_values_of_required he),
    entries false fun e he => h _ (Props.mem_values_of_optional he), index, sequence]

end LowersAlike

theorem lowersAlike (n : Node) : n.LowersAlike := by
  induction n using inductionOn with
  | step c ih =>
    cases c with
    | props p => exact LowersAlike.lowerProps ih
    | domain d => exact fun _ _ => ⟨rfl, rfl⟩
    | literal l => exact fun _ _ => ⟨rfl, rfl⟩
    | basis b => exact fun _ _ => ⟨rfl, rfl⟩
    | bound r =>
      intro dimension k
      rw [erase_of]
      refine ⟨?_, rfl⟩
      simp [Constraint.erased, Constraint.map, lowerAs, bareProgram, Check.bare,
        Range.canonical_canonical]
    | divisor n => exact fun _ _ => ⟨rfl, rfl⟩
    | patterns ps => exact fun _ _ => ⟨rfl, rfl⟩
    | brand name => exact fun _ _ => ⟨rfl, rfl⟩
    | deferred name home => exact fun _ _ => ⟨rfl, rfl⟩
    | morph input steps =>
      intro dimension k
      rw [erase_of]
      refine ⟨?_, rfl⟩
      have inner : bareProgram (input.erase.lower k) = bareProgram (input.lower k) :=
        (ih input (List.mem_singleton_self input)).lower k
      exact congrArg (fun p => [Check.morph p []]) inner
    | union branches =>
      intro dimension k
      have empty : (branches.map erase).isEmpty = branches.isEmpty := by cases branches <;> rfl
      have lowered : (lowerEach (branches.map erase)).map (fun lower k => bareProgram (lower k)) =
          (lowerEach branches).map fun lower k => bareProgram (lower k) := by
        rw [lowerEach_eq, lowerEach_eq, List.map_map, List.map_map, List.map_map]
        exact List.map_congr_left fun m hm => funext fun k => (ih m hm).lower k
      have tree : DecisionTree.ofBranches (branches.map erase) =
          DecisionTree.ofBranches branches := by
        have facts : (branches.map erase).map Facts.ofNode = branches.map Facts.ofNode := by
          rw [List.map_map]
          exact List.map_congr_left fun m _ => ofNode_erase m
        rw [DecisionTree.ofBranches, DecisionTree.ofBranches, facts, List.length_map]
      rw [erase_of]
      simp only [Constraint.erased, Constraint.map, lowerAs, empty]
      split_ifs
      · exact ⟨rfl, rfl⟩
      · refine ⟨?_, rfl⟩
        simp only [bareProgram, Check.bare, tree, bare_lowerTree lowered]
    | intersection children =>
      intro dimension k
      rw [erase_of]
      refine ⟨?_, rfl⟩
      have dimensions := dimensionOf_erase (.of (.intersection children)) k
      rw [erase_of] at dimensions
      simp only [Constraint.erased, Constraint.map] at dimensions ⊢
      simp only [lowerAs, dimensions]
      exact LowersAlike.lowerAll ih _ k

theorem bareProgram_compile {n m : Node} (same : n.erase = m.erase) :
    bareProgram n.compile = bareProgram m.compile := by
  rw [← n.lowersAlike.compile, same, m.lowersAlike.compile]

end Node

/-- Names refer to nodes that are the same, whatever their homes are. -/
def Bindings.Resemble (b b' : Bindings) : Prop :=
  ∀ home home' name, (b.node? home name).map Node.erase = (b'.node? home' name).map Node.erase

def Job.bare (job : Job) : Segment × Program × Json :=
  (job.segment, bareProgram job.program, job.data)

def ProgramFrame.core (f : ProgramFrame) : Json × Verdict × Bool := (f.data, f.output, f.failed)

/-- Frames that a check descends into, with programs that are alike. -/
inductive Frame.Resembles : Frame → Frame → Prop
  | start {p q : Program} (same : bareProgram p = bareProgram q) (d : Json) (nested : Bool) :
    Resembles (.start p d nested) (.start q d nested)
  | children {jobs jobs' : List Job} (same : jobs.map Job.bare = jobs'.map Job.bare) :
    Resembles (.children ⟨jobs, none, .pass, []⟩) (.children ⟨jobs', none, .pass, []⟩)
  | branches {ps qs : List Program} (same : barePrograms ps = barePrograms qs) (d : Json)
    (expected expected' : String) :
    Resembles (.branches ⟨ps, d, none, expected⟩) (.branches ⟨qs, d, none, expected'⟩)
  | target {p q : Program} (same : bareProgram p = bareProgram q) (d : Json) :
    Resembles (.target (some p) d) (.target (some q) d)
  | morph {p q : Program} (same : bareProgram p = bareProgram q) (steps steps' : List Step)
    (d : Json) : Resembles (.morph (some p) steps d) (.morph (some q) steps' d)

inductive Begin.Resembles : Begin → Begin → Prop
  | settled (j : Judgement) : Resembles (.settled j) (.settled j)
  | descend {child child' : Frame} (frames : child.Resembles child') (pending : Pending) :
    Resembles (.descend child pending) (.descend child' pending)
  | waiting : Resembles .waiting .waiting

namespace Traversal

def TestsResemble (test test' : Program → String → Option KeyTest) : Prop :=
  ∀ p q, bareProgram p = bareProgram q →
    ∀ name, (test p name).map (·.passes) = (test' q name).map (·.passes)

/-- A check begins alike, at the same place, where a value is allowed. -/
structure BeginsResembling (x x' : Traversal × Begin) : Prop where
  allows : x.1.mode = .allow
  site : x.1.site = x'.1.site
  resembles : x.2.Resembles x'.2

section

variable {b b' : Bindings} {test test' : Program → String → Option KeyTest} {t t' : Traversal}
  {d : Json}

theorem beginsResembling_judge (allows : t.mode = .allow) (passes : Bool) (otherwise : Judgement)
    (code code' : Problem.Code) (message message' : String) :
    BeginsResembling (settle (t.judge passes otherwise code message))
      (settle (t.judge passes otherwise code' message')) := by
  rw [judge_allow allows, judge_allow allows]
  exact ⟨allows, rfl, .settled _⟩

theorem beginsResembling_report (allows : t.mode = .allow) (j : Judgement)
    (code code' : Problem.Code) (message message' : String) :
    BeginsResembling (t.report code message, .settled j) (t.report code' message', .settled j) := by
  rw [report, report, reportAt_allow allows, reportAt_allow allows]
  exact ⟨allows, rfl, .settled j⟩

theorem beginsResembling_children (allows : t.mode = .allow) (site : t.site = t'.site)
    {jobs jobs' : List Job} (same : jobs.map Job.bare = jobs'.map Job.bare) :
    BeginsResembling (t.beginChildren jobs) (t'.beginChildren jobs') := by
  cases jobs with
  | nil =>
    obtain rfl : jobs' = [] := List.map_eq_nil_iff.mp same.symm
    exact ⟨allows, site, .settled .pass⟩
  | cons job jobs =>
    cases jobs' with
    | nil => cases same
    | cons job' jobs' => exact ⟨allows, site, .descend (.children same) .children⟩

theorem bare_indexJobs (tests : TestsResemble test test') {key key' value value' : Program}
    (keys : bareProgram key = bareProgram key') (values : bareProgram value = bareProgram value')
    (named : List String) (entries : List (String × Json)) :
    (indexJobs test key value named entries).map (·.1.map Job.bare) =
      (indexJobs test' key' value' named entries).map (·.1.map Job.bare) := by
  induction entries with
  | nil => rfl
  | cons e entries ih =>
    obtain ⟨name, child⟩ := e
    rw [indexJobs, indexJobs]
    split_ifs
    · exact ih
    · have answers := tests key key' keys name
      generalize test key name = answer at answers ⊢
      generalize test' key' name = answer' at answers ⊢
      generalize indexJobs test key value named entries = found at ih ⊢
      generalize indexJobs test' key' value' named entries = found' at ih ⊢
      cases answer <;> cases answer' <;> try cases answers
      · rfl
      · rename_i answer answer'
        have passes : answer.passes = answer'.passes := Option.some.inj answers
        cases found <;> cases found' <;> try cases ih
        · rfl
        · rename_i found found'
          have jobs : found.1.map Job.bare = found'.1.map Job.bare := Option.some.inj ih
          simp only [Option.bind_eq_bind, Option.bind_some, passes]
          split_ifs
          · simp [Job.bare, values, jobs]
          · simp [jobs]

theorem bare_elementJobs {items items' : List Program} {rest rest' : Option Program}
    (same : barePrograms items = barePrograms items') (others : bareRest rest = bareRest rest')
    (xs : List Json) :
    (elementJobs items rest xs).map Job.bare = (elementJobs items' rest' xs).map Job.bare := by
  rw [barePrograms_eq, barePrograms_eq] at same
  rw [bareRest_eq, bareRest_eq] at others
  rw [elementJobs, elementJobs, List.map_filterMap, List.map_filterMap]
  refine List.filterMap_congr fun e _ => ?_
  have place := congrArg (·[e.2]?) same
  simp only [List.getElem?_map] at place
  have program : (items[e.2]? <|> rest).map bareProgram =
      (items'[e.2]? <|> rest').map bareProgram := by
    simp only [Option.orElse_eq_orElse, Option.orElse_eq_or, Option.map_or, place, others]
  simpa [Job.bare, Option.map_map, Function.comp_def] using
    congrArg (Option.map fun p => (Segment.index e.2, p, e.1)) program

theorem lookup_bareCases (cases : List (String × Dispatch)) (key : String) :
    (bareCases cases).lookup key = (cases.lookup key).map Dispatch.bare := by
  induction cases with
  | nil => rfl
  | cons c cases ih =>
    rw [bareCases, List.lookup_cons, List.lookup_cons, ih]
    split <;> rfl

theorem leads_bare {dispatch : Dispatch} {dest : Destination} (leads : dispatch.Leads d dest) :
    ∃ bared : Destination, dispatch.bare.Leads d bared ∧
      bared.branches? = dest.branches?.map barePrograms := by
  induction leads with
  | sequential programs => exact ⟨_, .sequential _, rfl⟩
  | absent unseen => exact ⟨_, .absent unseen, rfl⟩
  | refused seen unknown =>
    exact ⟨_, .refused seen (by rw [lookup_bareCases, unknown]; rfl), rfl⟩
  | case seen known leads ih =>
    obtain ⟨bared, leads, same⟩ := ih
    exact ⟨bared, .case seen (by rw [lookup_bareCases, known]; rfl) leads, same⟩

theorem route_bare (allows : t.mode = .allow) (fallback : List Program) (d : Json)
    (dispatch : Dispatch) :
    (t.route [] d dispatch.bare).2 = (t.route fallback d dispatch).2.map barePrograms := by
  obtain ⟨dest, leads⟩ := dispatch.exists_leads d
  obtain ⟨bared, leads', same⟩ := leads_bare leads
  rw [leads.route_allow allows, leads'.route_allow allows]
  exact same

theorem beginsResembling_union (allows : t.mode = .allow) {dispatch dispatch' : Dispatch}
    (same : dispatch.bare = dispatch'.bare) (fallback fallback' : List Program)
    (expected expected' : String) (d : Json) :
    BeginsResembling (t.beginUnion dispatch fallback expected d)
      (t.beginUnion dispatch' fallback' expected' d) := by
  have left : t.route fallback d dispatch = (t, (t.route fallback d dispatch).2) :=
    Prod.ext (route_allow allows fallback dispatch) rfl
  have right : t.route fallback' d dispatch' = (t, (t.route fallback' d dispatch').2) :=
    Prod.ext (route_allow allows fallback' dispatch') rfl
  have programs := route_bare allows fallback d dispatch
  rw [same, route_bare allows fallback' d dispatch'] at programs
  unfold beginUnion
  rw [left, right]
  generalize (t.route fallback d dispatch).2 = o at programs ⊢
  generalize (t.route fallback' d dispatch').2 = o' at programs ⊢
  cases o with
  | none =>
    obtain rfl : o' = none := by simpa using programs
    exact ⟨allows, rfl, .settled .fail⟩
  | some ps =>
    cases o' with
    | none => cases programs
    | some qs =>
      have branches : barePrograms ps = barePrograms qs := (Option.some.inj programs).symm
      have several : BeginsResembling (t, .descend (.branches ⟨ps, d, none, expected⟩) .whole)
          (t, .descend (.branches ⟨qs, d, none, expected'⟩) .whole) :=
        ⟨allows, rfl, .descend (.branches branches d expected expected') .whole⟩
      match ps, qs with
      | [], [] => exact several
      | [p], [q] =>
        exact ⟨allows, rfl, .descend (.start (List.cons.inj branches).1 d false) .whole⟩
      | _ :: _ :: _, _ :: _ :: _ => exact several
      | [], _ :: _ => cases branches
      | _ :: _, [] => cases branches
      | [_], _ :: _ :: _ => simp [barePrograms] at branches
      | _ :: _ :: _, [_] => simp [barePrograms] at branches

theorem beginsResembling_deferred (allows : t.mode = .allow) (resemble : b.Resemble b')
    (name : String) (home home' : Home) (d : Json) :
    BeginsResembling (beginDeferred b t name home d) (beginDeferred b' t name home' d) := by
  have follows : BeginsResembling (follow b t name home d) (follow b' t name home' d) := by
    have target := resemble home home' name
    unfold follow
    generalize b.node? home name = o at target ⊢
    generalize b'.node? home' name = o' at target ⊢
    cases o <;> cases o' <;> try cases target
    · exact beginsResembling_report allows .fail _ _ _ _
    · rename_i n m
      have programs : bareProgram n.compile = bareProgram m.compile :=
        Node.bareProgram_compile (Option.some.inj target)
      exact ⟨allows, rfl, .descend (.target programs d) .whole⟩
  unfold beginDeferred
  cases t.maxDepth with
  | none => exact follows
  | some max =>
    dsimp only
    split_ifs
    · exact beginsResembling_report allows .fail _ _ _ _
    · exact follows

theorem beginsResembling_begin [Library] (allows : t.mode = .allow) (resemble : b.Resemble b')
    (tests : TestsResemble test test') {c c' : Check} (same : c.bare = c'.bare) :
    BeginsResembling (begin? b test t c d) (begin? b' test' t c' d) := by
  cases c with
  | domain a =>
    cases c' <;> cases same
    exact beginsResembling_judge allows _ _ _ _ _ _
  | literal a =>
    cases c' <;> cases same
    exact beginsResembling_judge allows _ _ _ _ _ _
  | basis a =>
    cases c' <;> cases same
    exact beginsResembling_judge allows _ _ _ _ _ _
  | divisor a =>
    cases c' <;> cases same
    exact beginsResembling_judge allows _ _ _ _ _ _
  | patterns a =>
    cases c' <;> cases same
    exact beginsResembling_judge allows _ _ _ _ _ _
  | never =>
    cases c' <;> cases same
    exact beginsResembling_judge allows false .abort .union .union _ _
  | range r dimension =>
    cases c' <;> try cases same
    rename_i r' dimension'
    obtain ⟨ranges, rfl⟩ : r.canonical = r'.canonical ∧ dimension = dimension' := by
      simpa [Check.bare] using same
    have passes : ((measure? dimension d).map r.allows).getD false =
        ((measure? dimension d).map r'.allows).getD false := by
      cases measure? dimension d with
      | none => rfl
      | some x =>
        change r.allows x = r'.allows x
        rw [← Range.allows_canonical r, ranges, Range.allows_canonical]
    simp only [begin?, judgeRange]
    rw [passes]
    exact beginsResembling_judge allows _ _ _ _ _ _
  | key name required program =>
    cases c' <;> try cases same
    rename_i name' required' program'
    obtain ⟨rfl, rfl, programs⟩ :
        name = name' ∧ required = required' ∧ bareProgram program = bareProgram program' := by
      simpa [Check.bare] using same
    simp only [begin?, beginKey]
    cases d.get? name with
    | some child => exact ⟨allows, rfl, .descend (.start programs child true) (.key name)⟩
    | none =>
      have same : t.judgeMissing name required = (t, if required then .fail else .pass) := by
        unfold judgeMissing
        rw [reportAt_allow allows]
        split_ifs <;> rfl
      rw [same]
      exact ⟨allows, rfl, .settled _⟩
  | index key value named =>
    cases c' <;> try cases same
    rename_i key' value' named'
    obtain ⟨keys, values, rfl⟩ :
        bareProgram key = bareProgram key' ∧ bareProgram value = bareProgram value' ∧
        named = named' := by simpa [Check.bare] using same
    cases d with
    | object entries =>
      have jobs := bare_indexJobs tests keys values named entries
      simp only [begin?, beginIndex]
      generalize indexJobs test key value named entries = found at jobs ⊢
      generalize indexJobs test' key' value' named entries = found' at jobs ⊢
      cases found <;> cases found' <;> try cases jobs
      · exact ⟨allows, rfl, .waiting⟩
      · rename_i found found'
        obtain ⟨js, asked⟩ := found
        obtain ⟨js', asked'⟩ := found'
        have children : js.map Job.bare = js'.map Job.bare := Option.some.inj jobs
        have mode : ({ t with visited := asked ++ t.visited } : Traversal).mode = .allow := allows
        have site : ({ t with visited := asked ++ t.visited } : Traversal).site =
            ({ t with visited := asked' ++ t.visited } : Traversal).site := rfl
        exact beginsResembling_children mode site children
    | _ => exact ⟨allows, rfl, .settled .pass⟩
  | elements items rest =>
    cases c' <;> try cases same
    rename_i items' rest'
    obtain ⟨programs, others⟩ :
        barePrograms items = barePrograms items' ∧ bareRest rest = bareRest rest' := by
      simpa [Check.bare] using same
    cases d with
    | array xs =>
      have length : items.length = items'.length := by
        have lengths := congrArg List.length programs
        rwa [barePrograms_eq, barePrograms_eq, List.length_map, List.length_map] at lengths
      have open_end : rest.isSome = rest'.isSome := by
        cases rest <;> cases rest' <;> first | rfl | cases others
      simp only [begin?, beginElements, judgeLength, judge_allow allows, length, open_end]
      generalize (if (if rest'.isSome = true then decide
        (items'.length ≤ xs.length) else xs.length == items'.length) = true
        then Judgement.pass else Judgement.abort) = j
      cases j with
      | pass => exact beginsResembling_children allows rfl (bare_elementJobs programs others xs)
      | fail => exact ⟨allows, rfl, .settled .fail⟩
      | abort => exact ⟨allows, rfl, .settled .abort⟩
    | _ => exact ⟨allows, rfl, .settled .pass⟩
  | union dispatch fallback expected =>
    cases c' <;> try cases same
    rename_i dispatch' fallback' expected'
    exact beginsResembling_union allows (by simpa [Check.bare] using same) fallback fallback'
      expected expected' d
  | deferred name home =>
    cases c' <;> cases same
    exact beginsResembling_deferred allows resemble name home _ d
  | morph input steps =>
    cases c' <;> try cases same
    rename_i input' steps'
    exact ⟨allows, rfl, .descend
      (.morph (by simpa [Check.bare] using same) steps steps' d) .whole⟩

variable {program program' : Site → ProgramFrame → Option (Report Verdict)}
  {frame frame' : Site → Frame → Option (Report Done)} {s : Site}

/-- Frames that resemble each other come to the same where values are allowed. -/
def FramesResemble (frame frame' : Site → Frame → Option (Report Done)) : Prop :=
  ∀ (s : Site) (child child' : Frame), s.mode = .allow → child.Resembles child' →
    (frame s child).map (·.value) = (frame' s child').map (·.value)

/-- Programs that are alike come to the same where values are allowed. -/
def ProgramsResemble (program program' : Site → ProgramFrame → Option (Report Verdict)) :
    Prop :=
  ∀ (s : Site) (f g : ProgramFrame), s.mode = .allow → f.core = g.core →
    bareProgram f.rest = bareProgram g.rest →
    (program s f).map (·.value) = (program' s g).map (·.value)

theorem core_patch {f g : ProgramFrame} (same : f.core = g.core) (segment : Segment) (v : Json) :
    (ProgramFrame.patch f segment v).core = (ProgramFrame.patch g segment v).core := by
  obtain ⟨data, output, failed⟩ :
      f.data = g.data ∧ f.output = g.output ∧ f.failed = g.failed := by
    simpa [ProgramFrame.core] using same
  have current : ProgramFrame.current f = ProgramFrame.current g := by
    simp only [ProgramFrame.current, data, output]
  simp [ProgramFrame.core, ProgramFrame.patch, current, data, failed]

theorem core_absorb {f g : ProgramFrame} (same : f.core = g.core) (pending : Pending)
    (result : Done) : ((absorb f pending result).1.core, (absorb f pending result).2) =
      ((absorb g pending result).1.core, (absorb g pending result).2) := by
  have patches (ps : List (Segment × Json)) :
      (ps.foldr (fun e f => ProgramFrame.patch f e.1 e.2) f).core =
        (ps.foldr (fun e f => ProgramFrame.patch f e.1 e.2) g).core := by
    induction ps with
    | nil => exact same
    | cons p ps ih => exact core_patch ih _ _
  obtain ⟨data, output, failed⟩ :
      f.data = g.data ∧ f.output = g.output ∧ f.failed = g.failed := by
    simpa [ProgramFrame.core] using same
  cases result with
  | value v =>
    cases v with
    | changed w =>
      have patched (segment : Segment) := core_patch same segment w
      simp only [ProgramFrame.core] at patched
      cases pending <;> simp [absorb, patched, ProgramFrame.core, data, output, failed]
    | _ => cases pending <;> simp [absorb, ProgramFrame.core, data, output, failed]
  | children j ps =>
    cases pending with
    | children => exact congrArg (·, j) (patches ps)
    | _ => exact congrArg (·, Judgement.fail) same

theorem evalCheck_resembles [Library] (resemble : b.Resemble b') (tests : TestsResemble test test')
    (frames : FramesResemble frame frame') (allows : s.mode = .allow) {c c' : Check}
    (same : c.bare = c'.bare) {f g : ProgramFrame} (core : f.core = g.core) :
    (evalCheck b test frame s c f).map (fun r => (r.value.1.core, r.value.2)) =
      (evalCheck b' test' frame' s c' g).map fun r => (r.value.1.core, r.value.2) := by
  have data : f.data = g.data := congrArg Prod.fst core
  have begins : BeginsResembling (begin? b test s.fresh c f.data)
      (begin? b' test' s.fresh c' g.data) :=
    data ▸ beginsResembling_begin allows resemble tests same
  unfold evalCheck
  generalize begin? b test s.fresh c f.data = x at begins ⊢
  generalize begin? b' test' s.fresh c' g.data = x' at begins ⊢
  obtain ⟨t, o⟩ := x
  obtain ⟨t', o'⟩ := x'
  obtain ⟨allows', site, resembles⟩ := begins
  dsimp only at allows' site resembles
  cases resembles with
  | settled j => simp [core]
  | descend children pending =>
    rename_i child child'
    have values := frames t.site child child' allows' children
    dsimp only
    rw [← site]
    generalize frame t.site child = r at values ⊢
    generalize frame' t.site child' = r' at values ⊢
    cases r <;> cases r' <;> try cases values
    · rfl
    · rename_i r r'
      have value : r.value = r'.value := Option.some.inj values
      simp only [Option.map_some, value]
      exact congrArg some (core_absorb core pending r'.value)
  | waiting => rfl

theorem bind_resembles {α β γ δ : Type} (f : α → β) {x x' : Option (Report α)}
    (first : x.map (fun r => f r.value) = x'.map fun r => f r.value) (g : γ → δ)
    {next next' : α → Option (Report γ)}
    (others : ∀ a a', f a = f a' →
      (next a).map (fun r => g r.value) = (next' a').map fun r => g r.value) :
    (Report.bind x next).map (fun r => g r.value) = (Report.bind x' next').map fun r =>
      g r.value := by
  cases x <;> cases x' <;> try cases first
  · rfl
  · rename_i r r'
    have rest := others r.value r'.value (Option.some.inj first)
    simpa [Report.bind, Option.map_map, Function.comp_def, Report.after] using rest

theorem evalChecks_resembles [Library] (resemble : b.Resemble b') (tests : TestsResemble test test')
    (frames : FramesResemble frame frame') (allows : s.mode = .allow) {p q : Program}
    (same : bareProgram p = bareProgram q) {f g : ProgramFrame} (core : f.core = g.core) :
    (evalChecks b test frame s p f).map (fun r => r.value.map ProgramFrame.core) =
      (evalChecks b' test' frame' s q g).map fun r => r.value.map ProgramFrame.core := by
  induction p generalizing q f g with
  | nil =>
    cases q with
    | nil => simp [evalChecks, Report.silent, core]
    | cons c q => cases same
  | cons c p ih =>
    cases q with
    | nil => cases same
    | cons c' q =>
      obtain ⟨first, others⟩ := List.cons.inj same
      have checked := evalCheck_resembles resemble tests frames allows first core
      refine bind_resembles (fun a => (a.1.core, a.2)) checked (Option.map ProgramFrame.core)
        fun a a' checked => ?_
      obtain ⟨f', j⟩ := a
      obtain ⟨g', j'⟩ := a'
      obtain ⟨core', rfl⟩ := Prod.mk.inj checked
      cases j with
      | pass => exact ih others core'
      | fail => simp [goOn, allows, Report.silent]
      | abort => simp [goOn, Report.silent]

theorem evalJobs_resembles (programs : ProgramsResemble program program') (allows : s.mode = .allow)
    {jobs jobs' : List Job} (same : jobs.map Job.bare = jobs'.map Job.bare) (j : Judgement)
    (patches : List (Segment × Json)) :
    (evalJobs program s jobs j patches).map (·.value) = (evalJobs program' s jobs' j patches).map
      (·.value) := by
  induction jobs generalizing jobs' patches with
  | nil =>
    obtain rfl : jobs' = [] := List.map_eq_nil_iff.mp same.symm
    rfl
  | cons job jobs ih =>
    cases jobs' with
    | nil => cases same
    | cons job' jobs' =>
      obtain ⟨first, others⟩ := List.cons.inj same
      obtain ⟨segment, bare, data⟩ :
          job.segment = job'.segment ∧ bareProgram job.program = bareProgram job'.program ∧
          job.data = job'.data := by simpa [Job.bare] using first
      rw [evalJobs, evalJobs, segment, data]
      have ran := programs (s.inside job'.segment) (frameOf job.program job'.data true)
        (frameOf job'.program job'.data true) allows rfl bare
      refine bind_resembles id ran id fun v v' value => ?_
      obtain rfl : v = v' := value
      cases v with
      | changed w => exact ih others _
      | unchanged => exact ih others _
      | failed => simp [allows]

theorem evalBranches_resembles (programs : ProgramsResemble program program')
    (allows : s.mode = .allow) {ps qs : List Program} (same : barePrograms ps = barePrograms qs)
    (d : Json) (expected expected' : String) :
    (evalBranches program s d expected ps).map (·.value) =
      (evalBranches program' s d expected' qs).map (·.value) := by
  induction ps generalizing qs with
  | nil =>
    cases qs with
    | nil => rfl
    | cons q qs => cases same
  | cons p ps ih =>
    cases qs with
    | nil => cases same
    | cons q qs =>
      obtain ⟨first, others⟩ := List.cons.inj same
      have ran := programs s (frameOf p d false) (frameOf q d false) allows rfl first
      have values : ((program s (frameOf p d false)).map fun r => { r with problems := [] }).map
          (fun r => id r.value) =
          ((program' s (frameOf q d false)).map fun r => { r with problems := [] }).map fun r =>
            id r.value := by
        simpa [Option.map_map, Function.comp_def] using ran
      refine bind_resembles id values id fun v v' value => ?_
      obtain rfl : v = v' := value
      cases v with
      | failed => exact ih others
      | unchanged => rfl
      | changed w => rfl

variable [Library]

theorem evalFrame_resembles (programs : ProgramsResemble program program') :
    FramesResemble (evalFrame b program) (evalFrame b' program') := by
  intro s child child' allows resembles
  have ran {p q : Program} (same : bareProgram p = bareProgram q) (d : Json) (nested : Bool) :=
    programs s (frameOf p d nested) (frameOf q d nested) allows rfl same
  have done {x x' : Option (Report Verdict)} (same : x.map (·.value) = x'.map (·.value)) :
      (x.map (·.map Done.value)).map (·.value) = (x'.map (·.map Done.value)).map (·.value) := by
    simpa [Option.map_map, Function.comp_def, Report.map] using congrArg
      (Option.map Done.value) same
  cases resembles with
  | start same d nested => exact done (ran same d nested)
  | children same => exact evalJobs_resembles programs allows same .pass []
  | branches same d expected expected' =>
    exact evalBranches_resembles programs allows same d expected expected'
  | target same d => exact done (ran same d false)
  | morph same steps steps' d =>
    rw [evalFrame, evalFrame]
    refine bind_resembles id (ran same d false) id fun v v' value => ?_
    obtain rfl : v = v' := value
    simp [evalSteps, allows, Report.silent]

theorem evaluate_resembles (resemble : b.Resemble b') (tests : TestsResemble test test') (n : Nat) :
    ProgramsResemble (evaluate b test n) (evaluate b' test' n) := by
  induction n with
  | zero => exact fun _ _ _ _ _ _ => rfl
  | succ n ih =>
    intro s f g allows core same
    have frames : FramesResemble (evalFrame b (evaluate b test n))
        (evalFrame b' (evaluate b' test' n)) :=
      evalFrame_resembles ih
    have checked := evalChecks_resembles resemble tests frames allows same core
    have concluded (o : Option ProgramFrame) : conclude o =
        (o.map ProgramFrame.core).elim .failed fun c => if c.2.2 then .failed else c.2.1 := by
      cases o <;> rfl
    simpa [evaluate, Option.map_map, Function.comp_def, Report.map, concluded] using
      congrArg (Option.map fun o => o.elim Verdict.failed fun c => if c.2.2 then .failed else c.2.1)
        checked

end

section

variable {b b' : Bindings} {cap : Option Nat}

theorem limitTest_resembles [Library] (resemble : b.Resemble b') :
    TestsResemble (limitTest b cap) (limitTest b' cap) := by
  have none_resembles : TestsResemble (fun _ _ => none) (fun _ _ => none) := fun _ _ _ _ => rfl
  intro p q same name
  have evaluations (n : Nat) := evaluate_resembles resemble none_resembles n (.root .allow cap)
    (frameOf p (.string name) false) (frameOf q (.string name) false) rfl rfl same
  cases left : limitTest b cap p name with
  | some answer =>
    obtain ⟨n, r, evaluated, passes⟩ := evaluate_of_limitTest left
    have found := evaluations n
    rw [evaluated, Option.map_some, eq_comm, Option.map_eq_some_iff] at found
    obtain ⟨r', evaluated', value⟩ := found
    rw [limitTest_of_evaluate evaluated']
    simp [passes, value]
  | none =>
    cases right : limitTest b' cap q name with
    | none => rfl
    | some answer =>
      obtain ⟨n, r, evaluated, -⟩ := evaluate_of_limitTest right
      have found := evaluations n
      rw [evaluated, Option.map_some, Option.map_eq_some_iff] at found
      obtain ⟨r', evaluated', -⟩ := found
      rw [limitTest_of_evaluate evaluated'] at left
      cases left

end

end Traversal

open Traversal

/-- Where names refer to nodes that are the same, nodes that are the same allow the same values. -/
theorem Node.allows_congr [Library] {b b' : Bindings} (resemble : b.Resemble b') {n m : Node}
    (same : n.erase = m.erase) (cap : Option Nat) (d : Json) (allowed : n.Allows b cap d) :
    m.Allows b' cap d := by
  obtain ⟨patience, v, ran, passed⟩ := allowed
  obtain ⟨fuel, r, evaluated, outcome⟩ := Program.evaluate_of_allows ran
  have tests : TestsResemble (limitTest b cap) (limitTest b' cap) := limitTest_resembles resemble
  have found := evaluate_resembles resemble tests fuel (.root .allow cap)
    (frameOf n.compile d false) (frameOf m.compile d false) rfl rfl (bareProgram_compile same)
  rw [evaluated, Option.map_some, eq_comm, Option.map_eq_some_iff] at found
  obtain ⟨r', evaluated', value⟩ := found
  rw [Allows, Program.exists_allows_iff evaluated', value]
  exact isPassed_iff.mp (outcome ▸ passed)

end SchemaAlgebra

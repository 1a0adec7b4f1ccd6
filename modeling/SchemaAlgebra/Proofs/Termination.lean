import SchemaAlgebra.Proofs.Chains
import SchemaAlgebra.Proofs.Ending
import SchemaAlgebra.Proofs.Lowering
import SchemaAlgebra.Proofs.Runs
import SchemaAlgebra.Standard

/-!
# Validation ends

Checks descend into parts of a value, or follow an alias on the value itself. Parts get
smaller, so a run can only go on forever along a chain of aliases that comes back.
-/
namespace SchemaAlgebra

open Traversal

section

namespace Json

def parts : Json → List Json
  | array items => items
  | object entries => entries.map (·.2)
  | _ => []

theorem sizeOf_part {d part : Json} (h : part ∈ d.parts) : sizeOf part < sizeOf d := by
  cases d with
  | array items =>
    have smaller : sizeOf part < sizeOf items := List.sizeOf_lt_of_mem h
    simp only [array.sizeOf_spec]
    omega
  | object entries =>
    obtain ⟨e, he, rfl⟩ := List.mem_map.mp h
    have smaller := List.sizeOf_lt_of_mem he
    obtain ⟨key, v⟩ := e
    simp only [object.sizeOf_spec, Prod.mk.sizeOf_spec] at smaller ⊢
    omega
  | _ => cases h

theorem mem_parts_of_get? {d part : Json} {key : String} (h : d.get? key = some part) :
    part ∈ d.parts := by
  cases d with
  | object entries => exact List.mem_map_of_mem (f := (·.2)) (Entries.mem_of_get? h)
  | _ => cases h

end Json

namespace Node

theorem mem_references_branch {branches : List Node} {n : Node} (hn : n ∈ branches)
    {name : String} (h : name ∈ n.references) : name ∈ (of (.union branches)).references := by
  rw [references, fold_of]
  simp only [Constraint.map, List.mem_eraseDups, List.mem_flatten, List.mem_map]
  exact ⟨_, ⟨n, hn, rfl⟩, h⟩

theorem mem_references_conjunct {children : List Node} {n : Node} (hn : n ∈ children)
    {name : String} (h : name ∈ n.references) :
    name ∈ (of (.intersection children)).references := by
  rw [references, fold_of]
  simp only [Constraint.map, List.mem_eraseDups, List.mem_flatten, List.mem_map]
  exact ⟨_, ⟨n, hn, rfl⟩, h⟩

/-- All references, those under keys and in items as well, are to certain aliases of one
scope. -/
def IsWithin (home : Home) (R : String → Prop) : Node → Prop := fold fun c =>
  match c with
  | .deferred name h => h = home ∧ R name
  | c => ∀ q ∈ c.children, q

/-- The alias is referred to anywhere in the node. -/
def Mentions (n : Node) (name : String) : Prop := n.fold fun c =>
  match c with
  | .deferred other _ => other = name
  | c => ∃ q ∈ c.children, q

variable {home : Home} {R : String → Prop}

theorem isWithin_hereditary (home : Home) (R : String → Prop) : Hereditary (IsWithin home R) where
  children c h m hm := by
    rw [IsWithin, fold_of] at h
    have all : ∀ q ∈ (c.map (IsWithin home R)).children, q := by
      cases c <;> first | exact h | exact fun _ hq => absurd hq List.not_mem_nil
    rw [Constraint.children_map] at all
    exact all _ (List.mem_map_of_mem hm)
  built c reference h := by
    rw [IsWithin, fold_of]
    have all : ∀ q ∈ (c.map (IsWithin home R)).children, q := by
      rw [Constraint.children_map]
      intro q hq
      obtain ⟨m, hm, rfl⟩ := List.mem_map.mp hq
      exact h m hm
    cases c <;> first | exact all | exact absurd rfl (reference _ _)

theorem isWithin_deferred {name : String} {h : Home} :
    IsWithin home R (of (.deferred name h)) ↔ h = home ∧ R name := by
  rw [IsWithin, fold_of]
  rfl

theorem mentions_child {c : Constraint Node} {m : Node} (hm : m ∈ c.children) {name : String}
    (h : m.Mentions name) : (of c).Mentions name := by
  rw [Mentions, fold_of]
  have some_child : ∃ q ∈ (c.map (Mentions · name)).children, q := by
    rw [Constraint.children_map]
    exact ⟨_, List.mem_map_of_mem hm, h⟩
  cases c <;> first | exact some_child | exact absurd hm List.not_mem_nil

/-- The references of a node are within any set with all that it mentions. -/
theorem isWithin_of_mentions {R' : String → Prop} {n : Node} (h : IsWithin home R' n)
    (mentioned : ∀ name, n.Mentions name → R name) : IsWithin home R n := by
  induction n using Node.inductionOn with
  | step c ih =>
    have below (m : Node) (hm : m ∈ c.children) : IsWithin home R m :=
      ih m hm ((isWithin_hereditary home _).children c h m hm) fun name hname =>
        mentioned name (mentions_child hm hname)
    by_cases reference : ∃ name h, c = .deferred name h
    · obtain ⟨name, h', rfl⟩ := reference
      refine isWithin_deferred.mpr ⟨(isWithin_deferred.mp h).1, mentioned name ?_⟩
      rw [Mentions, fold_of]
      rfl
    · exact (isWithin_hereditary home R).built c
        (fun name h same => reference ⟨name, h, same⟩) below

end Node

namespace DecisionTree

variable {P : Program → Prop} {branches : List (Known → Program)} {fallback : List Program}

/-- Whatever the mode, the programs that a value is led to are those of branches. -/
theorem route_programs (hb : ∀ lower ∈ branches, ∀ k, P (lower k))
    (hf : ∀ p ∈ fallback, P p) (d : Json) (tree : DecisionTree) (k : Known) (t : Traversal) :
    Quiet t (t.route fallback d (lowerTree branches tree k)).1 ∧
      ∀ ps, (t.route fallback d (lowerTree branches tree k)).2 = some ps →
        ∀ p ∈ ps, P p := by
  obtain ⟨dest, leads, routed⟩ := (lowerTree branches tree k).exists_reached d
  rw [routed]
  cases dest with
  | branches programs =>
    refine ⟨.refl t, fun ps hps p hp => ?_⟩
    cases hps
    obtain ⟨lower, hl, k', rfl⟩ := tree.lowered_of_leads leads p hp
    exact hb lower hl k'
  | fallback =>
    refine ⟨.refl t, fun ps hps => ?_⟩
    obtain ⟨-, same⟩ := Option.ite_none_right_eq_some.mp hps
    cases same
    exact hf
  | refusal probe expected => exact ⟨reportAt_quiet t _ _ _, nofun⟩

end DecisionTree

variable [Library]

namespace Node

section

variable (b : Bindings) (test : Program → String → Option KeyTest)

/-- However it is lowered, the program of the node does not hold up a run. -/
def Finishes (n : Node) (d : Json) : Prop :=
  ∀ (dimension : Dimension) (k : Known), Passes b test (n.lowerAs dimension k).1 d

end

variable {b : Bindings} {test : Program → String → Option KeyTest}

theorem lowerAll_passes {children : List Node} {d : Json}
    (h : ∀ m ∈ children, Finishes b test m d) (dimension : Dimension) (k : Known) :
    Passes b test (lowerAll children dimension k) d := by
  induction children generalizing k with
  | nil => exact passes_nil d
  | cons m r ih =>
    rw [List.forall_mem_cons] at h
    rw [lowerAll]
    exact passes_append (h.1 dimension k) (ih h.2 _)

theorem lowerEntries_passes (required : Bool) {es : List (String × Node)} {d : Json} (k : Known)
    (h : ∀ e ∈ es, ∀ child ∈ d.parts, Finishes b test e.2 child) :
    Passes b test (lowerEntries required es k) d := by
  rw [lowerEntries_eq]
  induction es with
  | nil => exact passes_nil d
  | cons e es ih =>
    rw [List.forall_mem_cons] at h
    refine passes_cons (passes_key fun child hc => ?_) (ih h.2)
    exact h.1 child (Json.mem_parts_of_get? hc) _ _

omit [Library] in
theorem indexJobs_answered {key : Program} (answered : ∀ name, (test key name).isSome)
    (value : Program) (named : List String) (entries : List (String × Json)) :
    ∃ found, indexJobs test key value named entries = some found ∧
      ∀ job ∈ found.1, job.program = value ∧ ∃ e ∈ entries, e.2 = job.data := by
  induction entries with
  | nil => exact ⟨_, rfl, fun _ h => nomatch h⟩
  | cons e entries ih =>
    obtain ⟨name, child⟩ := e
    obtain ⟨⟨jobs, visited⟩, found, hjobs⟩ := ih
    have later : ∀ job ∈ jobs, job.program = value ∧ ∃ e ∈ (name, child) :: entries,
        e.2 = job.data := by
      intro job hj
      obtain ⟨same, e, he, hd⟩ := hjobs job hj
      exact ⟨same, e, List.mem_cons_of_mem _ he, hd⟩
    obtain ⟨⟨passes, asked⟩, answer⟩ := Option.isSome_iff_exists.mp (answered name)
    rw [indexJobs]
    split_ifs
    · exact ⟨_, found, later⟩
    · simp only [answer, found, Option.bind_eq_bind, Option.bind_some]
      cases passes with
      | true =>
        refine ⟨_, rfl, List.forall_mem_cons.mpr
          ⟨⟨rfl, _, List.mem_cons_self, rfl⟩, later⟩⟩
      | false => exact ⟨_, rfl, later⟩

theorem lowerIndex_passes (named : List String) {ss : List (Signature Node)} {d : Json}
    (keys : (∃ s, d = .string s) ∨ ∀ s ∈ ss, ∀ name, (test s.key.compile name).isSome)
    (h : ∀ s ∈ ss, ∀ child ∈ d.parts, Finishes b test s.value child) :
    Passes b test (lowerIndex named ss) d := by
  rw [lowerIndex_eq]
  induction ss with
  | nil => exact passes_nil d
  | cons s ss ih =>
    rw [List.forall_mem_cons] at h
    have others := keys.imp id fun all s' hs => all s' (List.mem_cons_of_mem s hs)
    refine passes_cons (passes_index ?_) (ih others h.2)
    rintro entries rfl
    have answered := keys.resolve_left (by simp) s List.mem_cons_self
    obtain ⟨found, hfound, jobs⟩ := indexJobs_answered answered s.value.compile named entries
    refine ⟨found, hfound, fun job hj => ?_⟩
    obtain ⟨same, e, he, hd⟩ := jobs job hj
    rw [same, ← hd]
    exact h.1 e.2 (List.mem_map_of_mem (f := (·.2)) he) _ _

theorem lowerSequence_passes {s : Sequence Node} {d : Json}
    (h : ∀ m ∈ s.values, ∀ child ∈ d.parts, Finishes b test m child) :
    Passes b test (lowerSequence (some s)) d := by
  rw [lowerSequence_eq]
  refine passes_elements ?_
  rintro xs rfl job hj
  rw [elementJobs_eq] at hj
  obtain ⟨⟨job, v⟩, hv, rfl⟩ := List.mem_map.mp hj
  obtain ⟨⟨x, i⟩, hx, hi⟩ := List.mem_filterMap.mp hv
  obtain ⟨n, hn, same⟩ := Option.map_eq_some_iff.mp hi
  cases same
  exact h n (Sequence.mem_values_of_at? hn) x (List.fst_mem_of_mem_zipIdx hx) _ _

omit [Library] in
/-- The references of a node are among those within which it is. -/
theorem within_references {n : Node} (within : IsWithin home R n) {name : String}
    (h : name ∈ n.references) : R name := by
  induction n using Node.inductionOn with
  | step c ih =>
    have below := (isWithin_hereditary home R).children c within
    rw [references, fold_of] at h
    cases c with
    | deferred other h' =>
      cases List.mem_singleton.mp h
      exact (isWithin_deferred.mp within).2
    | morph input steps => exact ih input List.mem_cons_self (below input List.mem_cons_self) h
    | union branches =>
      simp only [Constraint.map, List.mem_eraseDups, List.mem_flatten, List.mem_map] at h
      obtain ⟨_, ⟨m, hm, rfl⟩, h⟩ := h
      exact ih m hm (below m hm) h
    | intersection children =>
      simp only [Constraint.map, List.mem_eraseDups, List.mem_flatten, List.mem_map] at h
      obtain ⟨_, ⟨m, hm, rfl⟩, h⟩ := h
      exact ih m hm (below m hm) h
    | _ => exact absurd h List.not_mem_nil

/-- A node finishes on a value if its aliases do on the value itself and everything does on
the parts of the value. -/
theorem finishes_of_parts {d : Json}
    (keys : (∃ s, d = .string s) ∨
      ∀ key, IsWithin home R key → ∀ name, (test key.compile name).isSome)
    (parts : ∀ child ∈ d.parts, ∀ m, IsWithin home R m → Finishes b test m child) {n : Node}
    (within : IsWithin home R n)
    (aliases : ∀ name ∈ n.references, ∀ m, b.node? home name = some m →
      Finishes b test m d) : Finishes b test n d := by
  induction n using Node.inductionOn with
  | step c ih =>
    have below := (isWithin_hereditary home R).children c within
    intro dimension k
    cases c with
    | domain dm =>
      rw [lowerAs]
      split_ifs
      · exact passes_nil d
      · exact passes_of_judge fun _ => ⟨_, _, _, _, rfl⟩
    | literal l =>
      rw [lowerAs]
      split_ifs
      · exact passes_nil d
      · exact passes_of_judge fun _ => ⟨_, _, _, _, rfl⟩
    | basis c =>
      rw [lowerAs]
      split_ifs
      · exact passes_nil d
      · exact passes_of_judge fun _ => ⟨_, _, _, _, rfl⟩
    | bound r => exact passes_of_judge fun _ => ⟨_, _, _, _, rfl⟩
    | divisor m => exact passes_of_judge fun _ => ⟨_, _, _, _, rfl⟩
    | patterns ps => exact passes_of_judge fun _ => ⟨_, _, _, _, rfl⟩
    | brand name => exact passes_nil d
    | deferred name h =>
      obtain ⟨rfl, -⟩ := isWithin_deferred.mp within
      refine passes_deferred fun m hm => ?_
      exact aliases name (by rw [references, fold_of]; exact List.mem_singleton_self name) m hm _ _
    | props p =>
      have values : ∀ m ∈ p.values, ∀ child ∈ d.parts, Finishes b test m child :=
        fun m hm child hc => parts child hc m (below m hm)
      have sequence : Passes b test (lowerSequence p.sequence) d := by
        cases hs : p.sequence with
        | none => exact passes_nil d
        | some s =>
          exact lowerSequence_passes fun m hm => values m (Props.mem_values_of_sequence hs hm)
      have index : Passes b test
          (lowerIndex (Entries.keys p.required ++ Entries.keys p.optional) p.index) d := by
        refine lowerIndex_passes _ (keys.imp id fun all s hs => ?_) fun s hs => ?_
        · exact all s.key (below s.key (Props.mem_values_of_index hs).1)
        · exact values s.value (Props.mem_values_of_index hs).2
      obtain ⟨required, optional, signatures, items⟩ := p
      rw [lowerAs]
      refine passes_append (passes_append (passes_append ?_ ?_) index) sequence
      · exact lowerEntries_passes true k fun e he => values e.2 (Props.mem_values_of_required he)
      · exact lowerEntries_passes false k fun e he => values e.2 (Props.mem_values_of_optional he)
    | morph input steps =>
      rw [lowerAs]
      refine passes_morph steps
        (ih input List.mem_cons_self (below input List.mem_cons_self) ?_ _ _)
      intro name hname
      exact aliases name (by rw [references, fold_of]; exact hname)
    | union branches =>
      have each : ∀ m ∈ branches, Finishes b test m d := fun m hm =>
        ih m hm (below m hm) fun name hname => aliases name (mem_references_branch hm hname)
      have lowered : ∀ lower ∈ lowerEach branches, ∀ k, Passes b test (lower k) d := by
        rw [lowerEach_eq]
        intro lower hl k
        obtain ⟨m, hm, rfl⟩ := List.mem_map.mp hl
        exact each m hm _ k
      rw [lowerAs]
      split_ifs
      · exact passes_of_judge fun _ => ⟨false, .abort, _, _, rfl⟩
      · refine passes_union fun t =>
          DecisionTree.route_programs (P := (Passes b test · d)) lowered ?_ d _ k t
        intro p hp
        obtain ⟨lower, hl, rfl⟩ := List.mem_map.mp hp
        exact lowered lower hl k
    | intersection children =>
      rw [lowerAs]
      refine lowerAll_passes (fun m hm => ?_) _ k
      exact ih m hm (below m hm) fun name hname => aliases name (mem_references_conjunct hm hname)

end Node

section

variable {b : Bindings} {mode : Mode} {d : Json} {n : Node}

theorem Node.Finishes.reaches {test : Program → String → Option KeyTest}
    (h : n.Finishes b test d) (mode : Mode) :
    ∃ u, Reaches (step b test) (start mode none n.compile d) u ∧ u.isFinished = true := by
  have ends : Ends b test (.start n.compile d false) := (h _ _).ends_start false
  obtain ⟨u, reached, stack, -, -⟩ := ends (start mode none n.compile d) [] ⟨rfl, rfl, rfl⟩
  refine ⟨u, reached, ?_⟩
  rw [isFinished, stack]
  rfl

/-- A name is answered if the key finishes on it without any tests. -/
theorem Node.Finishes.answers {name : String} (h : n.Finishes b (fun _ _ => none) (.string name)) :
    (limitTest b none n.compile name).isSome := by
  obtain ⟨u, ⟨k, steps⟩, finished⟩ := h.reaches .allow
  have ran : runText b k none n.compile name = some u := by
    rw [runText, finished_eq_some]
    exact ⟨iterate_of_steps (fun _ => step_of_isFinished) steps finished Nat.lt_two_pow_self.le,
      finished⟩
  have answered : testKey b k none n.compile name = some ⟨isPassed u.verdict, u.visited⟩ := by
    rw [testKey, ran]
    rfl
  rw [limitTest_eq_some answered]
  rfl

end

namespace Scope

/-- The alias `a` is resolved to a node that mentions `b`. -/
def Mentions (s : Scope) (a b : String) : Prop := ∃ n, s.resolved? a = some n ∧ n.Mentions b

variable {s : Scope} {b : Bindings} {test : Program → String → Option KeyTest} {home : Home}
  {R : String → Prop}

section

variable (bound : ∀ name, b.node? home name = s.resolved? name)
  (closed : ∀ name n, R name → s.resolved? name = some n → Node.IsWithin home R n)
  (ends : ∀ name, R name → ¬ s.Returns name)
include bound closed ends

/-- Where chains do not come back, every node finishes on a value on whose parts all do. -/
theorem finishes_of_ends {d : Json}
    (keys : (∃ text, d = .string text) ∨
      ∀ key, Node.IsWithin home R key → ∀ name, (test key.compile name).isSome)
    (parts : ∀ child ∈ d.parts, ∀ m, Node.IsWithin home R m → Node.Finishes b test m child)
    (n : Node) (within : Node.IsWithin home R n) : n.Finishes b test d := by
  have aliases (name : String) (hR : R name) (m : Node) (hm : b.node? home name = some m) :
      m.Finishes b test d := by
    rw [bound] at hm
    induction acc_of_not_returns (ends name hR) generalizing m with
    | intro name _ ih =>
      have below := closed name m hR hm
      refine Node.finishes_of_parts keys parts below fun other refers k hk => ?_
      exact ih other ⟨m, hm, refers⟩ (Node.within_references below refers) k
        (bound other ▸ hk)
  refine Node.finishes_of_parts keys parts within fun name refers m hm => ?_
  exact aliases name (Node.within_references within refers) m hm

theorem finishes_all (d : Json) (n : Node) (within : Node.IsWithin home R n) :
    n.Finishes b (limitTest b none) d := by
  have answered (key : Node) (hk : Node.IsWithin home R key) (name : String) :
      (limitTest b none key.compile name).isSome :=
    (finishes_of_ends bound closed ends (Or.inl ⟨name, rfl⟩) (fun _ h => nomatch h) key
      hk).answers
  induction hs : sizeOf d using Nat.strongRecOn generalizing d n with
  | ind size ih =>
    refine finishes_of_ends bound closed ends (Or.inr answered) (fun child hc m hm => ?_) n within
    exact ih (sizeOf child) (hs ▸ Json.sizeOf_part hc) child m hm rfl

theorem run_ends (mode : Mode) (d : Json) {n : Node} (within : Node.IsWithin home R n) :
    ∃ least, ∀ patience, least ≤ patience →
      (run b patience mode none n.compile d).isSome := by
  obtain ⟨u, reached, finished⟩ := (finishes_all bound closed ends d n within).reaches mode
  obtain ⟨least, runs⟩ := run_of_reaches finished reached
  refine ⟨least, fun patience enough => ?_⟩
  rw [runs patience enough]
  rfl

end

/-- Resolving an alias catches a cycle only if an alias refers to itself: a chain that starts
with a resolved alias comes back exactly if two different aliases on its way lead to each
other. Where no alias that can be reached starts such a chain, every validation ends. -/
theorem resolve_returns_iff (home : Nat) (d : Declarations) (requests : List Request) {a : String}
    {n : Node} (h : ((Session.run home d requests).scope.resolve a).1 = .ok n) :
    let s := ((Session.run home d requests).scope.resolve a).2
    (s.Returns a ↔ ∃ x y, x ≠ y ∧ Relation.ReflTransGen s.Follows a x ∧
      Relation.TransGen s.Follows x y ∧ Relation.TransGen s.Follows y x) ∧
    ((∀ x, Relation.ReflTransGen s.Mentions a x → ¬ s.Returns x) →
      ∀ b : Bindings, (∀ name, b.node? (some home) name = s.resolved? name) →
        ∀ (mode : Mode) (v : Json), ∃ least, ∀ patience, least ≤ patience →
          (run b patience mode none n.compile v).isSome) := by
  have can : Buildable home fun n => n.Reduced ∧ n.IsWithin (some home) fun _ => True :=
    (Node.isWithin_hereditary _ _).buildable fun _ => Node.isWithin_deferred.mpr ⟨rfl, trivial⟩
  have session := Session.run_sound can d requests
  obtain ⟨sound, -, -, hn⟩ := resolve_sound (session.same_home.symm ▸ can) session.scope a
  have found := resolve_resolved session.scope h
  refine ⟨sound.returns_iff a, fun ends b bound mode v => ?_⟩
  refine run_ends bound (fun name m reached hm => ?_) ends mode v ?_
  · exact Node.isWithin_of_mentions (sound.resolved hm).1.2 fun other mentioned =>
      reached.tail ⟨m, hm, mentioned⟩
  · exact Node.isWithin_of_mentions (hn n h).2 fun other mentioned =>
      .single ⟨n, found, mentioned⟩

end Scope

end

namespace Scope

attribute [local instance] Library.standard

/-- Two aliases that lead to each other. While `p` is parsed for `q`, the alias `r` is
resolved to a node that refers to `p`, and then `q` takes that node in. -/
def looped : Declarations where
  aliases :=
    [("p", .array [.string "q", .string "|", .object [("m", .string "r")]]),
      ("q", .array [.object [("k", .string "p")], .string "|", .string "r"]),
      ("r", .string "p|5")]
  morphs := []
  config := .default

/-- Lists in which every link holds the next one under a key. -/
def linked : Declarations := ⟨[("list", .object [("next?", .string "list")])], [], .default⟩

theorem resolve_returns_looped :
    (∃ n, ((Session.run 0 looped []).scope.resolve "q").1 = .ok n ∧
      ((Session.run 0 looped []).scope.resolve "q").2.Returns "q") ∧
    ∃ n, ((Session.run 0 linked []).scope.resolve "list").1 = .ok n ∧
      ∀ b : Bindings, (∀ name, b.node? (some 0) name =
        ((Session.run 0 linked []).scope.resolve "list").2.resolved? name) →
          ∀ (mode : Mode) (v : Json), ∃ least, ∀ patience, least ≤ patience →
            (run b patience mode none n.compile v).isSome := by
  constructor
  · have follows (a b : String)
        (h : (((Session.run 0 looped []).scope.resolve "q").2.resolved? a).any
          (·.references.contains b) = true) :
        ((Session.run 0 looped []).scope.resolve "q").2.Follows a b := by
      rw [Follows]
      generalize ((Session.run 0 looped []).scope.resolve "q").2.resolved? a = found at h
      cases found with
      | none => cases h
      | some n => exact ⟨n, rfl, by simpa using h⟩
    have there := follows "q" "p" (by decide +kernel)
    have back := follows "p" "q" (by decide +kernel)
    cases h : ((Session.run 0 looped []).scope.resolve "q").1 with
    | error e =>
      have resolves : ((Session.run 0 looped []).scope.resolve "q").1.isOk = true := by
        decide +kernel
      rw [h] at resolves
      cases resolves
    | ok n =>
      refine ⟨n, rfl, (resolve_returns_iff 0 looped [] h).1.mpr ?_⟩
      exact ⟨"q", "p", by decide, .refl, .single there, .single back⟩
  · refine ⟨_, rfl, (resolve_returns_iff 0 linked [] rfl).2 fun x _ returns => ?_⟩
    obtain ⟨names, chain, repeats⟩ := returns
    cases names with
    | nil => exact repeats (List.nodup_singleton x)
    | cons y names =>
      obtain ⟨⟨n, found, refers⟩, -⟩ := List.isChain_cons_cons.mp chain
      have known := mem_keys_of_resolved found
      obtain rfl : x = "list" := List.mem_singleton.mp known
      cases found
      exact absurd refers List.not_mem_nil

end Scope

end SchemaAlgebra

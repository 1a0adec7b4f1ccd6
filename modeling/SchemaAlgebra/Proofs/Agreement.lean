import Mathlib.Logic.Relation
import SchemaAlgebra.Proofs.Halting

/-!
# The modes agree on nodes

The program of a node, lowered with facts that hold of a value, takes it in both modes, or
in none. A value that is applied without problems has the facts that the node is told apart
by, so the branches of a union that are left out would fail as well.
-/
namespace SchemaAlgebra

open Traversal

namespace Bindings

/-- A node leads to the children of its constraint, and an alias to its target. -/
inductive Leads (b : Bindings) : Node → Node → Prop
  | child {c : Constraint Node} {m : Node} (h : m ∈ c.children) : Leads b (.of c) m
  | target {name : String} {home : Home} {m : Node} (h : b.node? home name = some m) :
      Leads b (.of (.deferred name home)) m

def MorphFree (b : Bindings) (n : Node) : Prop :=
  ∀ m, Relation.ReflTransGen b.Leads n m → m.isMorph = false

theorem MorphFree.of_leads {b : Bindings} {n m : Node} (h : b.MorphFree n) (leads : b.Leads n m) :
    b.MorphFree m :=
  fun m' reached => h m' (.head leads reached)

end Bindings

namespace Node

/-- The facts that a node is told apart by hold of the value, wherever it is found. -/
def FactsHold (n : Node) (d : Json) : Prop :=
  ∀ (root : Json) (path : List String), root.at? path = some d →
    Facts.Hold (n.fold Facts.ofConstraint path) root

variable {n : Node} {d : Json}

theorem factsHold_of_admits [Library] (h : n.admits d = true) : n.FactsHold d :=
  fun root path found => Facts.fold_hold n path root d found h

theorem FactsHold.ofNode (h : n.FactsHold d) : (Facts.ofNode n).Hold d :=
  fun f hf => h d [] rfl f (Facts.mem_of_mem_firsts hf)

theorem factsHold_intersection {children : List Node} (h : ∀ m ∈ children, m.FactsHold d) :
    (of (.intersection children)).FactsHold d := by
  intro root path found f hf
  rw [fold_of] at hf
  simp only [Constraint.map, Facts.ofConstraint, List.flatMap_map, List.mem_flatMap] at hf
  obtain ⟨m, hm, hf⟩ := hf
  exact h m hm root path found f hf

theorem factsHold_morph {input : Node} {steps : List Step} (h : input.FactsHold d) :
    (of (.morph input steps)).FactsHold d := by
  intro root path found
  rw [fold_of]
  exact h root path found

theorem factsHold_props {p : Props Node}
    (h : ∀ e ∈ p.required, ∃ child, d.get? e.1 = some child ∧ e.2.FactsHold child) :
    (of (.props p)).FactsHold d := by
  intro root path found f hf
  rw [fold_of] at hf
  simp only [Constraint.map, Facts.ofConstraint, Props.map, List.flatMap_map,
    List.mem_flatMap] at hf
  obtain ⟨e, he, hf⟩ := hf
  obtain ⟨child, hc, holds⟩ := h e he
  refine holds root (path ++ [e.1]) ?_ f hf
  rw [Json.at?_append, found]
  simp [Json.at?, hc]

end Node

variable [Library]

namespace Node

section

variable (b : Bindings) (test : Program → String → Option KeyTest)
  (program : Site → ProgramFrame → Option (Report Verdict))

/-- The two modes agree on the programs of the node. -/
def ModesAgree (n : Node) : Prop :=
  ∀ (k : Known) (d : Json), k.Holds d →
    Agrees program (b.MorphFree n) (n.FactsHold d) (n.lower k) d

/-- The two modes agree on the checks of the node, and what is known after them holds. -/
def ChecksModesAgree (n : Node) : Prop :=
  ∀ (dimension : Dimension) (k : Known) (d : Json), k.Holds d →
    ChecksAgree b test program (b.MorphFree n) (n.FactsHold d) ((n.lowerAs dimension k).2.Holds d)
      (n.lowerAs dimension k).1 d

end

variable {b : Bindings} {test : Program → String → Option KeyTest}
  {program : Site → ProgramFrame → Option (Report Verdict)}

theorem ModesAgree.compile {n : Node} (h : ModesAgree b program n) (d : Json) :
    Agrees program (b.MorphFree n) True n.compile d :=
  (h .nothing d (Known.nothing_holds d)).mono id fun _ => trivial

theorem lowerAll_agree {plain : Prop} {children : List Node}
    (h : ∀ m ∈ children, ChecksModesAgree b test program m)
    (free : ∀ m ∈ children, plain → b.MorphFree m) (dimension : Dimension) {k : Known}
    {d : Json} (holds : k.Holds d) :
    ChecksAgree b test program plain (∀ m ∈ children, m.FactsHold d) True
      (lowerAll children dimension k) d := by
  induction children generalizing k with
  | nil => exact (checksAgree_nil trivial).mono id (fun _ => nofun) id
  | cons n r ih =>
    have first := (h n List.mem_cons_self dimension k d holds).mono
        (free n List.mem_cons_self) id id
    have others (after : (n.lowerAs dimension k).2.Holds d) :=
      ih (fun m hm => h m (List.mem_cons_of_mem _ hm))
        (fun m hm => free m (List.mem_cons_of_mem _ hm)) after
    exact (checksAgree_append first others).mono id (List.forall_mem_cons.mpr ·) id

section

variable (h : ∀ m, ModesAgree b program m)
include h

theorem lowerEntries_agree {plain : Prop} (required : Bool) {es : List (String × Node)}
    (free : ∀ e ∈ es, plain → b.MorphFree e.2) {k : Known} {d : Json} (holds : k.Holds d) :
    ChecksAgree b test program plain
      (∀ e ∈ es, required = true →
        ∃ child, d.get? e.1 = some child ∧ e.2.FactsHold child) True
      (lowerEntries required es k) d := by
  induction es with
  | nil => exact (checksAgree_nil trivial).mono id (fun _ => nofun) id
  | cons e es ih =>
    have here (child : Json) (hc : d.get? e.1 = some child) :=
      (h e.2 (k.under e.1) child (holds.under hc)).mono (free e List.mem_cons_self) id
    have first : ChecksAgree b test program plain _ True
        [.key e.1 required (e.2.lower (k.under e.1))] d :=
      checksAgree_one fun s => checkAgrees_key here
    have others := ih fun e' he' => free e' (List.mem_cons_of_mem _ he')
    rw [lowerEntries_eq] at others ⊢
    exact (checksAgree_append first fun _ => others).mono id (List.forall_mem_cons.mpr ·) id

theorem lowerIndex_agree {plain : Prop} (named : List String) {ss : List (Signature Node)}
    (free : ∀ s ∈ ss, plain → b.MorphFree s.value) (d : Json) :
    ChecksAgree b test program plain True True (lowerIndex named ss) d := by
  induction ss with
  | nil => exact checksAgree_nil trivial
  | cons s ss ih =>
    have here (child : Json) := ((h s.value).compile child).mono (free s List.mem_cons_self) id
    have first : ChecksAgree b test program plain True True
        [.index s.key.compile s.value.compile named] d :=
      checksAgree_one fun _ => checkAgrees_index here
    have others := ih fun s' hs' => free s' (List.mem_cons_of_mem _ hs')
    rw [lowerIndex_eq] at others ⊢
    exact (checksAgree_append first fun _ => others).mono id (fun _ => trivial) id

theorem lowerSequence_agree {plain : Prop} {s : Option (Sequence Node)}
    (free : ∀ q, s = some q → ∀ m ∈ q.values, plain → b.MorphFree m) (d : Json) :
    ChecksAgree b test program plain True True (lowerSequence s) d := by
  cases s with
  | none => exact checksAgree_nil trivial
  | some q =>
    rw [lowerSequence_eq]
    refine checksAgree_one fun _ => checkAgrees_elements fun p hp child => ?_
    obtain ⟨m, hm, rfl⟩ : ∃ m ∈ q.values, m.compile = p := by
      rcases hp with hp | hp
      · obtain ⟨m, hm, rfl⟩ := List.mem_map.mp hp
        exact ⟨m, List.mem_append_left _ hm, rfl⟩
      · obtain ⟨m, hm, rfl⟩ := Option.map_eq_some_iff.mp hp
        exact ⟨m, List.mem_append_right _ (by simp [hm]), rfl⟩
    exact ((h m).compile child).mono (free q rfl m hm) id

theorem lowerUnion_agree {plain : Prop} {branches : List Node}
    (free : ∀ m ∈ branches, plain → b.MorphFree m) {k : Known} {d : Json} (holds : k.Holds d)
    (expected : String) : ChecksAgree b test program plain True True
      [.union (lowerTree (lowerEach branches) (DecisionTree.ofBranches branches) k)
        ((lowerEach branches).map fun lower => lower k) expected] d := by
  obtain ⟨k', holds', dest, leads, led⟩ :=
    (DecisionTree.ofBranches branches).leads_of_holds (lowerEach branches) d holds
  refine checksAgree_one fun s => checkAgrees_union leads led ?_ ?_
  · intro ps found p hp
    obtain ⟨chosen, -, rfl⟩ := Option.map_eq_some_iff.mp found
    obtain ⟨i, -, hi⟩ := List.mem_filterMap.mp hp
    rw [lowerEach_eq, List.getElem?_map, Option.map_map] at hi
    obtain ⟨m, hm, rfl⟩ := Option.map_eq_some_iff.mp hi
    have member := List.mem_of_getElem? hm
    exact (h m k' d holds').mono (free m member) fun _ => trivial
  · intro unrouted p hp
    rw [lowerEach_eq, List.map_map] at hp
    obtain ⟨m, hm, rfl⟩ := List.mem_map.mp hp
    refine (h m k d holds).mono (free m hm) fun facts => ?_
    obtain ⟨i, hi⟩ := List.mem_iff_getElem?.mp hm
    obtain ⟨chosen, found, -⟩ := DecisionTree.select_of_hold hi facts.ofNode
    rw [found] at unrouted
    cases unrouted

theorem lowerProps_agree {plain : Prop} {p : Props Node}
    (free : ∀ m ∈ p.values, plain → b.MorphFree m) {k : Known} {d : Json} (holds : k.Holds d)
    (named : List String) : ChecksAgree b test program plain ((of (.props p)).FactsHold d) True
      (lowerEntries true p.required k ++ lowerEntries false p.optional k ++
        lowerIndex named p.index ++ lowerSequence p.sequence) d := by
  have required : ChecksAgree b test program plain _ True (lowerEntries true p.required k) d :=
    lowerEntries_agree h true (fun e he => free e.2 (Props.mem_values_of_required he)) holds
  have optional : ChecksAgree b test program plain _ True (lowerEntries false p.optional k) d :=
    lowerEntries_agree h false (fun e he => free e.2 (Props.mem_values_of_optional he)) holds
  have index : ChecksAgree b test program plain True True (lowerIndex named p.index) d :=
    lowerIndex_agree h named (fun s hs => free s.value (Props.mem_values_of_index hs).2) d
  have sequence : ChecksAgree b test program plain True True (lowerSequence p.sequence) d :=
    lowerSequence_agree h (fun q hq m hm => free m (Props.mem_values_of_sequence hq hm)) d
  have all := checksAgree_append (checksAgree_append (checksAgree_append required fun _ => optional)
    fun _ => index) fun _ => sequence
  exact all.mono id (fun facts => factsHold_props fun e he => facts.1.1.1 e he rfl) id

theorem checksModesAgree (n : Node) : ChecksModesAgree b test program n := by
  induction n using Node.inductionOn with
  | step c ih =>
    intro dimension k d holds
    have free (m : Node) (hm : m ∈ c.children) (whole : b.MorphFree (of c)) : b.MorphFree m :=
      whole.of_leads (.child hm)
    have featureless (plain : Prop) {p : Program}
        (hc : ∀ path, (of c).fold Facts.ofConstraint path = [])
        (checks : ChecksAgree b test program plain True True p d) :
        ChecksAgree b test program plain ((of c).FactsHold d) (k.Holds d) p d :=
      checks.mono id (fun _ root path _ f hf => by rw [hc] at hf; cases hf) fun _ => holds
    cases c with
    | domain dm =>
      have facts (h : Domain.of d = dm) : (of (.domain dm)).FactsHold d :=
        factsHold_of_admits (by simpa [admits_of, Constraint.map, constraintAdmits] using h)
      simp only [lowerAs]
      split_ifs with known
      · exact (checksAgree_nil holds).mono id (fun _ => facts (holds.impliesDomain known)) id
      · exact (checksAgree_abort fun t => ⟨_, _, rfl⟩).mono id
          (fun passes => facts (beq_iff_eq.mp passes))
          fun passes => holds.learnDomain (beq_iff_eq.mp passes)
    | literal l =>
      have facts (h : l.isMatch d = true) : (of (.literal l)).FactsHold d :=
        factsHold_of_admits (by simpa [admits_of, Constraint.map, constraintAdmits] using h)
      simp only [lowerAs]
      split_ifs with known
      · exact (checksAgree_nil holds).mono id (fun _ => facts (holds.literal_isMatch known)) id
      · exact (checksAgree_abort fun t => ⟨_, _, rfl⟩).mono id facts holds.learnLiteral
    | basis c =>
      have facts (h : c.allows d = true) : (of (.basis c)).FactsHold d :=
        factsHold_of_admits (by simpa [admits_of, Constraint.map, constraintAdmits] using h)
      simp only [lowerAs]
      split_ifs with known
      · exact (checksAgree_nil holds).mono id (fun _ => facts (holds.2 c known)) id
      · exact (checksAgree_abort fun t => ⟨_, _, rfl⟩).mono id facts holds.learnBasis
    | bound r =>
      exact featureless _ (fun path => by simp [fold, Facts.ofConstraint])
        (checksAgree_fail fun t => ⟨_, _, rfl⟩)
    | divisor n =>
      exact featureless _ (fun path => by simp [fold, Facts.ofConstraint])
        (checksAgree_fail fun t => ⟨_, _, rfl⟩)
    | patterns ps =>
      exact featureless _ (fun path => by simp [fold, Facts.ofConstraint])
        (checksAgree_fail fun t => ⟨_, _, rfl⟩)
    | brand name =>
      exact featureless _ (fun path => by simp [fold, Facts.ofConstraint]) (checksAgree_nil trivial)
    | deferred name home =>
      refine featureless _ (fun path => by simp [fold, Facts.ofConstraint]) ?_
      refine checksAgree_one fun s => checkAgrees_deferred fun m hm => ?_
      exact ((h m).compile d).mono (·.of_leads (.target hm)) id
    | props p => exact (lowerProps_agree h free holds _).mono id id fun _ => holds
    | morph input steps =>
      have morphs : ¬ b.MorphFree (of (.morph input steps)) := fun free => by cases free _ .refl
      have inner := (h input k d holds).mono (free input (by simp [Constraint.children])) id
      exact (checksAgree_one fun s => checkAgrees_morph inner morphs).mono id factsHold_morph
        fun _ => holds
    | union branches =>
      have hc (path : List String) : (of (.union branches)).fold Facts.ofConstraint path = [] := by
        simp [fold, Facts.ofConstraint]
      cases branches with
      | nil =>
        have never : ChecksAgree b test program (b.MorphFree (of (.union []))) (false = true)
          (false = true) [.never] d := checksAgree_abort fun t => ⟨_, _, rfl⟩
        exact featureless _ hc (never.mono id (by simp) (by simp))
      | cons n r => exact featureless _ hc (lowerUnion_agree h free holds _)
    | intersection children =>
      exact (lowerAll_agree ih free _ holds).mono id factsHold_intersection fun _ => holds

end

/-- Where applying the program of a node ends, allowing the value ends and agrees with it. -/
theorem modesAgree (b : Bindings) (test : Program → String → Option KeyTest) (fuel : Nat)
    (n : Node) : ModesAgree b (evaluate b test fuel) n := by
  induction fuel generalizing n with
  | zero => exact fun k d holds s nested r applied => nomatch applied
  | succ fuel ih =>
    intro k d holds
    have checks : ChecksModesAgree b test (evaluate b test fuel) n := checksModesAgree ih n
    exact (checks (dimensionOf n k) k d holds).agrees

end Node

namespace Program

/-- What applying a program to a value comes to. -/
def outcomeOf (d : Json) : List Problem → Verdict → Except (List Problem) Json
  | [], .unchanged => .ok d
  | [], .changed v => .ok v
  | problems, _ => .error problems.reverse

/-- What applying a program to a value comes to by the verdict alone. -/
def outcomeBy (d : Json) (problems : List Problem) : Verdict → Except (List Problem) Json
  | .failed => .error problems.reverse
  | .unchanged => .ok d
  | .changed v => .ok v

omit [Library] in
theorem outcomeOf_eq {d : Json} {problems : List Problem} {v : Verdict}
    (told : v = .failed ↔ problems ≠ []) : outcomeOf d problems v = outcomeBy d problems v := by
  cases problems <;> cases v <;> simp [outcomeOf, outcomeBy] at told ⊢

variable {p : Program} {b : Bindings} {maxDepth : Option Nat} {d : Json}

/-- A validation that ends in either mode comes from an evaluation. -/
theorem evaluate_of_apply {patience : Nat} {v : Visiting (Except (List Problem) Json)}
    (h : p.apply b patience maxDepth d = some v) :
    ∃ fuel r, evaluate b (limitTest b maxDepth) fuel (.root .apply maxDepth) (frameOf p d false) =
      some r ∧ v.outcome = outcomeOf d r.problems r.value := by
  obtain ⟨u, ran, rfl⟩ := Option.map_eq_some_iff.mp h
  obtain ⟨fuel, r, evaluated, rfl⟩ := evaluate_of_run ran
  exact ⟨fuel, r, evaluated, rfl⟩

theorem evaluate_of_allows {patience : Nat} {v : Visiting Bool}
    (h : p.allows b patience maxDepth d = some v) :
    ∃ fuel r, evaluate b (limitTest b maxDepth) fuel (.root .allow maxDepth) (frameOf p d false) =
      some r ∧ v.outcome = isPassed r.value := by
  obtain ⟨u, ran, rfl⟩ := Option.map_eq_some_iff.mp h
  obtain ⟨fuel, r, evaluated, rfl⟩ := evaluate_of_run ran
  exact ⟨fuel, r, evaluated, rfl⟩

theorem isSome_apply_of_evaluate {fuel : Nat} {r : Report Verdict}
    (h : evaluate b (limitTest b maxDepth) fuel (.root .apply maxDepth)
      (frameOf p d false) = some r) :
    ∃ least, ∀ q, least ≤ q → (p.apply b q maxDepth d).isSome := by
  obtain ⟨least, runs⟩ := run_of_evaluate h
  exact ⟨least, fun q hq => by rw [apply, runs q hq]; rfl⟩

theorem isSome_allows_of_evaluate {fuel : Nat} {r : Report Verdict}
    (h : evaluate b (limitTest b maxDepth) fuel (.root .allow maxDepth)
      (frameOf p d false) = some r) :
    ∃ least, ∀ q, least ≤ q → (p.allows b q maxDepth d).isSome := by
  obtain ⟨least, runs⟩ := run_of_evaluate h
  exact ⟨least, fun q hq => by rw [allows, runs q hq]; rfl⟩

end Program

namespace Node

/-- A node without aliases or with a cap on them is validated in the end, in both modes. -/
theorem compile_terminates {n : Node} {maxDepth : Option Nat}
    (h : n.hasAlias = false ∨ maxDepth.isSome) (b : Bindings) (mode : Mode) (d : Json) :
    ∃ fuel r,
      evaluate b (limitTest b maxDepth) fuel (.root mode maxDepth) (frameOf n.compile d false) =
        some r := by
  rcases h with hasAlias | capped
  · exact evaluate_ends_of_aliases b mode maxDepth (aliasesOf_lowerAs hasAlias _ _) d
  · obtain ⟨max, rfl⟩ := Option.isSome_iff_exists.mp capped
    exact evaluate_ends_of_cap b mode max n.compile d

/-- The two ways to validate a value agree. Where applying a node ends, it fails only with
problems, and allowing the value ends too; what is applied without problems is allowed, and
without morphs to be reached it stays as it is, exactly if it is allowed. -/
theorem compile_modes_agree (n : Node) (b : Bindings) (maxDepth : Option Nat) (d : Json) :
    (∀ patience v, n.compile.apply b patience maxDepth d = some v →
      (∀ ps, v.outcome = .error ps → ps ≠ []) ∧
      (∃ least, ∀ q, least ≤ q → (n.compile.allows b q maxDepth d).isSome) ∧
      ∀ q x, n.compile.allows b q maxDepth d = some x →
        (∀ w, v.outcome = .ok w → x.outcome = true) ∧
        (b.MorphFree n → (v.outcome = .ok d ↔ x.outcome = true) ∧ ∀ w, v.outcome = .ok w →
          w = d)) ∧
    (n.hasAlias = false ∨ maxDepth.isSome → ∃ least, ∀ q, least ≤ q →
      (n.compile.apply b q maxDepth d).isSome ∧ (n.compile.allows b q maxDepth d).isSome) := by
  refine ⟨fun patience v applied => ?_, fun ends => ?_⟩
  · obtain ⟨fuel, r, evaluated, outcome⟩ := Program.evaluate_of_apply applied
    obtain ⟨u, allowed, concord⟩ := modesAgree b (limitTest b maxDepth) fuel n .nothing d
      (Known.nothing_holds d) (.root .allow maxDepth) false r evaluated
    obtain ⟨told, passed, unchanged⟩ := concord
    rw [Program.outcomeOf_eq told] at outcome
    refine ⟨fun ps failed => ?_, Program.isSome_allows_of_evaluate allowed,
      fun q x allows => ?_⟩
    · cases hv : r.value with
      | failed =>
        rw [outcome, hv] at failed
        cases failed
        rw [ne_eq, List.reverse_eq_nil_iff]
        exact told.mp hv
      | unchanged =>
        rw [outcome, hv] at failed
        cases failed
      | changed w =>
        rw [outcome, hv] at failed
        cases failed
    · obtain ⟨fuel', u', evaluated', passes⟩ := Program.evaluate_of_allows allows
      obtain rfl : u' = u := evaluate_unique evaluated' allowed
      have unfailed (w : Json) (ok : v.outcome = .ok w) : r.value ≠ .failed := by
        intro hv
        rw [outcome, hv] at ok
        cases ok
      have stays (same : r.value = .unchanged) : v.outcome = .ok d := by
        rw [outcome, same]
        rfl
      rw [passes, isPassed_iff]
      refine ⟨fun w ok => (passed (unfailed w ok)).1,
        fun free => ⟨⟨fun ok => (passed (unfailed d ok)).1,
        fun allowed => stays (unchanged free allowed)⟩, fun w ok => ?_⟩⟩
      rw [stays (unchanged free (passed (unfailed w ok)).1), Except.ok.injEq] at ok
      exact ok.symm
  · obtain ⟨fuel, r, applied⟩ := compile_terminates ends b .apply d
    obtain ⟨fuel', r', allowed⟩ := compile_terminates ends b .allow d
    obtain ⟨least, applies⟩ := Program.isSome_apply_of_evaluate applied
    obtain ⟨least', allows⟩ := Program.isSome_allows_of_evaluate allowed
    exact ⟨max least least', fun q hq =>
      ⟨applies q ((le_max_left _ _).trans hq), allows q ((le_max_right _ _).trans hq)⟩⟩

end Node

end SchemaAlgebra

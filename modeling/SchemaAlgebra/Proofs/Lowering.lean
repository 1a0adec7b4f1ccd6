import SchemaAlgebra.Proofs.Destinations
import SchemaAlgebra.Proofs.KnownFacts
import SchemaAlgebra.Proofs.Machine

/-!
# Lowered programs

The program of a node gives the verdict of the node's own reading for every value of which
the facts hold that it was lowered with. Names are tested against the keys of signatures by
runs of their own, which are taken to come to the right answers here.
-/
namespace SchemaAlgebra

open Traversal

namespace Node

theorem lowerEach_eq (ns : List Node) : lowerEach ns = ns.map fun n k => n.lower k := by
  induction ns with
  | nil => rfl
  | cons n ns ih => rw [lowerEach, ih]; rfl

theorem lowerItems_eq (ns : List Node) : lowerItems ns = ns.map compile := by
  induction ns with
  | nil => rfl
  | cons n ns ih => rw [lowerItems, ih]; rfl

theorem lowerEntries_eq (required : Bool) (es : List (String × Node)) (k : Known) :
    lowerEntries required es k =
      es.map fun e => .key e.1 required (e.2.lower (k.under e.1)) := by
  induction es with
  | nil => rfl
  | cons e es ih => rw [lowerEntries, ih]; rfl

theorem lowerIndex_eq (named : List String) (ss : List (Signature Node)) :
    lowerIndex named ss = ss.map fun s => .index s.key.compile s.value.compile named := by
  induction ss with
  | nil => rfl
  | cons s ss ih => rw [lowerIndex, ih]; rfl

theorem lowerSequence_eq (s : Sequence Node) :
    lowerSequence (some s) = [.elements (s.items.map compile) (s.rest.map compile)] := by
  obtain ⟨items, rest⟩ := s
  cases rest <;> simp [lowerSequence, lowerItems_eq, compile, lower]

end Node

namespace DecisionTree

variable {branches : List (Known → Program)} {d : Json}

theorem lookup_lowerCases (branches : List (Known → Program)) (probe : Probe) (k : Known)
    (key : String) (cases : List (Outcome × DecisionTree)) :
    (lowerCases branches probe cases k).lookup key =
      (cases.find? (·.1.key = key)).map fun c => lowerTree branches c.2 (k.learn probe c.1) := by
  induction cases with
  | nil => rfl
  | cons c cases ih =>
    rw [lowerCases, List.lookup_cons, List.find?_cons, ih]
    by_cases same : c.1.key = key
    · simp [same]
    · have unlike : (key == c.1.key) = false := beq_eq_false_iff_ne.mpr (Ne.symm same)
      simp [same, unlike]

/-- A value is led to branches that are lowered with some facts. -/
theorem lowered_of_leads (tree : DecisionTree) {k : Known} {programs : List Program}
    (leads : (lowerTree branches tree k).Leads d (.branches programs)) :
    ∀ p ∈ programs, ∃ lower ∈ branches, ∃ k', lower k' = p := by
  generalize lowered : lowerTree branches tree k = dispatch at leads
  generalize found : Destination.branches programs = dest at leads
  induction leads generalizing tree k with
  | sequential programs' =>
    cases found
    cases tree with
    | switch probe cases => cases lowered
    | sequential indices =>
      cases lowered
      intro p hp
      obtain ⟨i, -, hi⟩ := List.mem_filterMap.mp hp
      obtain ⟨lower, hl, rfl⟩ := Option.map_eq_some_iff.mp hi
      exact ⟨lower, List.mem_of_getElem? hl, k, rfl⟩
  | absent unseen => cases found
  | refused seen unknown => cases found
  | case seen known leads ih =>
    cases tree with
    | sequential indices => cases lowered
    | switch probe cases =>
      cases lowered
      rw [lookup_lowerCases] at known
      obtain ⟨c, -, rfl⟩ := Option.map_eq_some_iff.mp known
      exact ih c.2 rfl found

variable [Library]

/-- A value is led through a lowered tree as through the tree itself, and what the branches
it comes to were lowered with holds of it. -/
def Leads (branches : List (Known → Program)) (d : Json) (tree : DecisionTree)
    (k : Known) : Prop :=
  ∃ k' : Known, k'.Holds d ∧ ∃ dest, (lowerTree branches tree k).Leads d dest ∧
    dest.branches? = (tree.select d).map fun is => is.filterMap fun i =>
      branches[i]?.map fun f => f k'

mutual

theorem leads_of_holds (branches : List (Known → Program)) (d : Json) :
    ∀ (tree : DecisionTree) {k : Known}, k.Holds d → tree.Leads branches d k
  | .sequential indices, k, holds => ⟨k, holds, _, .sequential _, rfl⟩
  | .switch probe cases, k, holds => by
    have select (key : String) : selectCase d key cases =
        (cases.find? (·.1.key = key)).bind fun c => c.2.select d := by
      simpa using selectCase_map d key id cases
    cases seen : probe.keyIn? d with
    | none => exact ⟨k, holds, _, .absent seen, by rw [DecisionTree.select, seen]; rfl⟩
    | some key =>
      have lookup := lookup_lowerCases branches probe k key cases
      cases found : cases.find? (·.1.key = key) with
      | none =>
        rw [found] at lookup
        refine ⟨k, holds, _, .refused seen lookup, ?_⟩
        rw [DecisionTree.select, seen, Option.bind_some, select, found]
        rfl
      | some c =>
        rw [found] at lookup
        have same : c.1.key = key := by simpa using List.find?_some found
        obtain ⟨k', holds', dest, leads, led⟩ := leads_of_holds_case branches d cases c
          (List.mem_of_find?_eq_some found) (holds.learn (seen.trans (by rw [same])))
        refine ⟨k', holds', dest, .case seen lookup leads, led.trans ?_⟩
        rw [DecisionTree.select, seen, Option.bind_some, select, found]
        rfl

theorem leads_of_holds_case (branches : List (Known → Program)) (d : Json) :
    ∀ (cases : List (Outcome × DecisionTree)), ∀ c ∈ cases, ∀ {k : Known}, k.Holds d →
      c.2.Leads branches d k
  | (o, tree) :: cases, c, hc, k, holds => by
    rcases List.mem_cons.mp hc with rfl | hc
    · exact leads_of_holds branches d tree holds
    · exact leads_of_holds_case branches d cases c hc holds

end

end DecisionTree

variable [Library]

/-- The test of names against keys comes to the right answer. -/
def AnswersKeys (test : Program → String → Option KeyTest) : Prop :=
  ∀ key : Node, key.hasAlias = false → ∀ name : String,
    test key.compile name = some ⟨key.admits (.string name), []⟩

namespace Node

section

variable (b : Bindings) (test : Program → String → Option KeyTest)

/-- The program of the node gives the node's verdict, and what is known after it holds. A
text has no keys to test. -/
def Lowers (n : Node) : Prop :=
  ∀ (dimension : Dimension) (k : Known) (d : Json),
    (AnswersKeys test ∨ ∃ s, d = .string s) → k.Holds d →
      Judges b test (n.lowerAs dimension k).1 d (n.admitsIn dimension d) ∧
        (n.admitsIn dimension d = true → (n.lowerAs dimension k).2.Holds d)

end

variable {b : Bindings} {test : Program → String → Option KeyTest}

theorem Lowers.lower {n : Node} (h : Lowers b test n) {k : Known} {d : Json}
    (keys : AnswersKeys test ∨ ∃ s, d = .string s) (holds : k.Holds d) :
    Decides b test (n.lower k) d (n.admits d) := by
  have judges := (h (dimensionOf n k) k d keys holds).1
  rw [admitsIn_dimensionOf n holds] at judges
  exact judges.decides

theorem lowerAll_judges {children : List Node} (ih : ∀ m ∈ children, Lowers b test m)
    (dimension : Dimension) {k : Known} {d : Json}
    (keys : AnswersKeys test ∨ ∃ s, d = .string s) (holds : k.Holds d) :
    Judges b test (lowerAll children dimension k) d (children.all (·.admitsIn dimension d)) := by
  induction children generalizing k with
  | nil => exact judges_nil d
  | cons n r ihr =>
    obtain ⟨first, after⟩ := ih n List.mem_cons_self dimension k d keys holds
    rw [lowerAll, List.all_cons]
    exact judges_append first fun passed =>
      ihr (fun m hm => ih m (List.mem_cons_of_mem _ hm)) (after passed)

/-- A value is led to every branch that admits it, by its place. -/
theorem exists_selected {branches : List Node} {n : Node} (hn : n ∈ branches) {d : Json}
    (admitted : n.admits d = true) : ∃ i chosen, branches[i]? = some n ∧
      (DecisionTree.ofBranches branches).select d = some chosen ∧ i ∈ chosen := by
  obtain ⟨i, hi⟩ := List.mem_iff_getElem?.mp hn
  obtain ⟨chosen, found, member⟩ := DecisionTree.select_ofBranches hi admitted
  exact ⟨i, chosen, hi, found, member⟩

/-- A union is decided by the branches that the value is led to. -/
theorem lowerUnion_judges {branches : List Node} (ih : ∀ m ∈ branches, Lowers b test m)
    {k : Known} {d : Json} (keys : AnswersKeys test ∨ ∃ s, d = .string s) (holds : k.Holds d)
    (fallback : List Program) (expected : String) :
    Judges b test
      [.union (lowerTree (lowerEach branches) (DecisionTree.ofBranches branches) k)
        fallback expected] d (branches.any (·.admits d)) := by
  obtain ⟨k', holds', dest, leads, led⟩ :=
    (DecisionTree.ofBranches branches).leads_of_holds (lowerEach branches) d holds
  cases hchosen : (DecisionTree.ofBranches branches).select d with
  | none =>
    have refused : branches.any (·.admits d) = false := by
      rw [List.any_eq_false]
      intro n hn admitted
      obtain ⟨i, chosen, -, found, -⟩ := exists_selected hn admitted
      rw [hchosen] at found
      cases found
    rw [refused]
    refine judges_union_none fun t ha => ?_
    rw [leads.route_allow ha, led, hchosen]
    rfl
  | some chosen =>
    set tested := chosen.filterMap fun i => branches[i]?.map fun n => (n.lower k', n.admits d)
    have verdict : tested.any (·.2) = branches.any (·.admits d) := by
      rw [Bool.eq_iff_iff, List.any_eq_true, List.any_eq_true]
      constructor
      · rintro ⟨⟨q, v⟩, hmem, hv⟩
        obtain ⟨i, -, hi⟩ := List.mem_filterMap.mp hmem
        obtain ⟨n, hn, heq⟩ := Option.map_eq_some_iff.mp hi
        cases heq
        exact ⟨n, List.mem_of_getElem? hn, hv⟩
      · rintro ⟨n, hn, admitted⟩
        obtain ⟨i, chosen', hi, found, member⟩ := exists_selected hn admitted
        rw [hchosen] at found
        cases found
        exact ⟨(n.lower k', n.admits d), List.mem_filterMap.mpr ⟨i, member, by simp [hi]⟩,
          admitted⟩
    have decides : ∀ q ∈ tested, Decides b test q.1 d q.2 := by
      intro q hq
      obtain ⟨i, -, hi⟩ := List.mem_filterMap.mp hq
      obtain ⟨n, hn, rfl⟩ := Option.map_eq_some_iff.mp hi
      exact (ih n (List.mem_of_getElem? hn)).lower keys holds'
    rw [← verdict]
    refine judges_union (fun t ha => ?_) decides
    rw [leads.route_allow ha, led, hchosen, lowerEach_eq]
    simp [tested, List.map_filterMap, Function.comp_def]

theorem lowerEntries_judges (required : Bool) {es : List (String × Node)}
    (ih : ∀ e ∈ es, Lowers b test e.2) {k : Known} {d : Json}
    (keys : AnswersKeys test ∨ ∃ s, d = .string s) (holds : k.Holds d) :
    Judges b test (lowerEntries required es k) d
      (es.all fun e => ((d.get? e.1).map e.2.admits).getD (!required)) := by
  induction es with
  | nil => exact judges_nil d
  | cons e es ihes =>
    have others := ihes fun e' he' => ih e' (List.mem_cons_of_mem _ he')
    rw [lowerEntries_eq] at others ⊢
    rw [List.map_cons, List.all_cons]
    refine judges_cons ?_ fun _ => others
    cases hc : d.get? e.1 with
    | none => exact judges_missing hc required _
    | some child =>
      have keys' : AnswersKeys test ∨ ∃ s, child = .string s := by
        refine keys.imp id ?_
        rintro ⟨s, rfl⟩
        cases hc
      exact judges_key hc required ((ih e List.mem_cons_self).lower keys' (holds.under hc))

/-- The jobs of a signature for the entries of an object, each with its verdict. -/
def indexVerdicts (s : Signature Node) (named : List String) (entries : List (String × Json)) :
    List (Job × Bool) :=
  entries.filterMap fun e =>
    if named.contains e.1 || !s.key.admits (.string e.1) then none
    else some (⟨.key e.1, s.value.compile, e.2⟩, s.value.admits e.2)

theorem all_indexVerdicts (s : Signature Node) (named : List String)
    (entries : List (String × Json)) :
    (indexVerdicts s named entries).all (·.2) =
      entries.all fun e => named.contains e.1 || !s.key.admits (.string e.1) ||
        s.value.admits e.2 := by
  induction entries with
  | nil => rfl
  | cons e entries ih =>
    rw [indexVerdicts, List.filterMap_cons]
    cases h : named.contains e.1 || !s.key.admits (.string e.1) with
    | true =>
      simp only [if_true, List.all_cons, h, Bool.true_or, Bool.true_and]
      exact ih
    | false =>
      simp only [Bool.false_eq_true, if_false, List.all_cons, h, Bool.false_or]
      rw [← ih]
      rfl

theorem indexJobs_eq {s : Signature Node} {named : List String} {entries : List (String × Json)}
    (answers : ∀ name, test s.key.compile name = some ⟨s.key.admits (.string name), []⟩) :
    indexJobs test s.key.compile s.value.compile named entries =
      some ((indexVerdicts s named entries).map (·.1), []) := by
  induction entries with
  | nil => rfl
  | cons e entries ih =>
    obtain ⟨name, child⟩ := e
    rw [indexJobs, indexVerdicts, List.filterMap_cons]
    rw [indexVerdicts] at ih
    by_cases h : named.contains name = true
    · simp only [h, if_true, Bool.true_or, ih]
    · simp only [h, Bool.false_or, answers, ih]
      cases s.key.admits (.string name) <;> simp

theorem lowerIndex_judges {ss : List (Signature Node)} (named : List String)
    (hasAlias : ∀ s ∈ ss, s.key.hasAlias = false) (ih : ∀ s ∈ ss, Lowers b test s.value)
    {d : Json} (keys : AnswersKeys test ∨ ∃ s, d = .string s) :
    Judges b test (lowerIndex named ss) d
      (ss.all fun s => ((d.asEntries?).getD []).all fun e =>
        named.contains e.1 || !s.key.admits (.string e.1) || s.value.admits e.2) := by
  induction ss with
  | nil => exact judges_nil d
  | cons s ss ihss =>
    have others := ihss (fun s' h => hasAlias s' (List.mem_cons_of_mem _ h))
      fun s' h => ih s' (List.mem_cons_of_mem _ h)
    rw [lowerIndex_eq] at others ⊢
    rw [List.map_cons, List.all_cons]
    refine judges_cons ?_ fun _ => others
    by_cases object : ∃ entries, d = .object entries
    · obtain ⟨entries, rfl⟩ := object
      have keys' : AnswersKeys test := keys.resolve_right (by simp)
      have decides : ∀ j ∈ indexVerdicts s named entries,
          Decides b test j.1.program j.1.data j.2 := by
        intro j hj
        obtain ⟨e, -, he⟩ := List.mem_filterMap.mp hj
        split_ifs at he
        cases he
        exact (ih s List.mem_cons_self).lower (Or.inl keys') (Known.nothing_holds _)
      have first := judges_index
          (indexJobs_eq (keys' s.key (hasAlias s List.mem_cons_self))) decides
      rwa [all_indexVerdicts] at first
    · have none_entries : d.asEntries?.getD [] = [] := by
        cases d with
        | object entries => exact absurd ⟨entries, rfl⟩ object
        | _ => rfl
      rw [none_entries]
      exact judges_index_other fun entries h => object ⟨entries, h⟩

/-- The jobs of a sequence for the items of an array, each with its verdict. -/
def elementVerdicts (s : Sequence Node) (xs : List Json) : List (Job × Bool) :=
  xs.zipIdx.filterMap fun (x, i) => (s.at? i).map fun n =>
    (⟨.index i, n.compile, x⟩, n.admits x)

theorem elementJobs_eq (s : Sequence Node) (xs : List Json) :
    elementJobs (s.items.map compile) (s.rest.map compile) xs =
      (elementVerdicts s xs).map (·.1) := by
  rw [elementJobs, elementVerdicts, List.map_filterMap]
  refine List.filterMap_congr fun e _ => ?_
  obtain ⟨x, i⟩ := e
  simp only [Sequence.at?, List.getElem?_map]
  cases s.items[i]? <;> cases s.rest <;> rfl

theorem admits_sequence (s : Sequence Node) (xs : List Json) :
    (s.map admits).admits xs =
      ((if s.rest.isSome then decide (s.items.length ≤ xs.length)
        else xs.length == s.items.length) && (elementVerdicts s xs).all (·.2)) := by
  have lengths : (s.map admits).admitsLength xs.length =
      if s.rest.isSome then decide (s.items.length ≤ xs.length)
        else xs.length == s.items.length := by
    obtain ⟨items, rest⟩ := s
    cases rest <;> simp [Sequence.map, Sequence.admitsLength]
  rw [Sequence.admits, lengths, elementVerdicts, List.all_filterMap]
  congr 1
  refine List.all_congr rfl fun e => ?_
  obtain ⟨x, i⟩ := e
  simp only [Sequence.at?, Sequence.map, List.getElem?_map]
  cases s.items[i]? <;> cases s.rest <;> rfl

theorem lowerSequence_judges {s : Sequence Node} (ih : ∀ m ∈ s.values, Lowers b test m)
    {d : Json} (keys : AnswersKeys test ∨ ∃ s, d = .string s) :
    Judges b test (lowerSequence (some s)) d
      ((d.asItems?.map (s.map admits).admits).getD true) := by
  rw [lowerSequence_eq]
  by_cases array : ∃ xs, d = .array xs
  · obtain ⟨xs, rfl⟩ := array
    have keys' : AnswersKeys test := keys.resolve_right (by simp)
    have decides : ∀ j ∈ elementVerdicts s xs, Decides b test j.1.program j.1.data j.2 := by
      intro j hj
      obtain ⟨⟨x, i⟩, -, hx⟩ := List.mem_filterMap.mp hj
      obtain ⟨n, hn, rfl⟩ := Option.map_eq_some_iff.mp hx
      exact (ih n (Sequence.mem_values_of_at? hn)).lower (Or.inl keys') (Known.nothing_holds _)
    rw [Json.asItems?, Option.map_some, Option.getD_some, admits_sequence]
    cases hlength : (if s.rest.isSome then decide (s.items.length ≤ xs.length)
        else xs.length == s.items.length) with
    | false => exact judges_elements_length (by simpa using hlength)
    | true =>
      rw [Bool.true_and]
      exact judges_elements (by simpa using hlength) (elementJobs_eq s xs) decides
  · have no_items : d.asItems? = none := by
      cases d with
      | array xs => exact absurd ⟨xs, rfl⟩ array
      | _ => rfl
    rw [no_items]
    exact judges_elements_other fun xs h => array ⟨xs, h⟩

theorem admits_props (p : Props Node) (d : Json) :
    (of (.props p)).admits d =
      (p.required.all (fun e => ((d.get? e.1).map e.2.admits).getD false) &&
        p.optional.all (fun e => ((d.get? e.1).map e.2.admits).getD true) &&
        p.index.all (fun s => ((d.asEntries?).getD []).all fun e =>
          (Entries.keys p.required ++ Entries.keys p.optional).contains e.1 ||
            !s.key.admits (.string e.1) || s.value.admits e.2) &&
        (p.sequence.map fun s => (d.asItems?.map (s.map admits).admits).getD true).getD true) := by
  rw [admits_of]
  obtain ⟨required, optional, index, sequence⟩ := p
  simp only [Constraint.map, constraintAdmits, Props.admits, Props.map, List.all_map,
    Function.comp_def, Props.namedKeys, Entries.keys, List.map_map]
  cases sequence <;> cases d <;> rfl

theorem lowerProps_judges {p : Props Node} (hasAlias : ∀ m ∈ p.values, m.hasAlias = false)
    (ih : ∀ m ∈ p.values, Lowers b test m) {k : Known} {d : Json}
    (keys : AnswersKeys test ∨ ∃ s, d = .string s) (holds : k.Holds d) :
    Judges b test
      (lowerEntries true p.required k ++ lowerEntries false p.optional k ++
        lowerIndex (Entries.keys p.required ++ Entries.keys p.optional) p.index ++
        lowerSequence p.sequence) d ((of (.props p)).admits d) := by
  have required := lowerEntries_judges true
    (fun e he => ih e.2 (Props.mem_values_of_required he)) keys holds
  have optional := lowerEntries_judges false
    (fun e he => ih e.2 (Props.mem_values_of_optional he)) keys holds
  have index := lowerIndex_judges (Entries.keys p.required ++ Entries.keys p.optional)
    (fun s hs => hasAlias s.key (Props.mem_values_of_index hs).1)
    (fun s hs => ih s.value (Props.mem_values_of_index hs).2) keys
  have sequence : Judges b test (lowerSequence p.sequence) d
      ((p.sequence.map fun s => (d.asItems?.map (s.map admits).admits).getD true).getD true) := by
    cases hs : p.sequence with
    | none => exact judges_nil d
    | some s =>
      exact lowerSequence_judges (fun m hm => ih m (Props.mem_values_of_sequence hs hm)) keys
  rw [admits_props]
  exact judges_append (judges_append (judges_append required fun _ => optional) fun _ => index)
    fun _ => sequence

theorem lowers {n : Node} (hasAlias : n.hasAlias = false) : Lowers b test n := by
  induction n using Node.inductionOn with
  | step c ih =>
    have ih' : ∀ m ∈ c.children, Lowers b test m :=
      fun m hm => ih m hm (hasAlias_child hasAlias hm)
    intro dimension k d keys holds
    cases c with
    | domain dm =>
      simp only [lowerAs, admitsIn, constraint, admits_of, Constraint.map, constraintAdmits]
      split_ifs with known
      · rw [beq_iff_eq.mpr (holds.impliesDomain known)]
        exact ⟨judges_nil d, fun _ => holds⟩
      · exact ⟨judges_domain dm d, fun h => holds.learnDomain (beq_iff_eq.mp h)⟩
    | literal l =>
      simp only [lowerAs, admitsIn, constraint, admits_of, Constraint.map, constraintAdmits]
      split_ifs with known
      · rw [holds.literal_isMatch known]
        exact ⟨judges_nil d, fun _ => holds⟩
      · exact ⟨judges_literal l d, fun h => holds.learnLiteral h⟩
    | basis c =>
      simp only [lowerAs, admitsIn, constraint, admits_of, Constraint.map, constraintAdmits]
      split_ifs with known
      · rw [holds.2 c known]
        exact ⟨judges_nil d, fun _ => holds⟩
      · exact ⟨judges_basis c d, fun h => holds.learnBasis h⟩
    | bound r => exact ⟨judges_range r dimension d, fun _ => holds⟩
    | divisor n =>
      simp only [lowerAs, admitsIn, constraint, admits_of, Constraint.map, constraintAdmits]
      exact ⟨judges_divisor n d, fun _ => holds⟩
    | patterns ps =>
      simp only [lowerAs, admitsIn, constraint, admits_of, Constraint.map, constraintAdmits]
      exact ⟨judges_patterns ps d, fun _ => holds⟩
    | brand name =>
      simp only [lowerAs, admitsIn, constraint, admits_of, Constraint.map, constraintAdmits]
      exact ⟨judges_nil d, fun _ => holds⟩
    | deferred name home => exact absurd hasAlias (by simp [Node.hasAlias, fold])
    | props p =>
      exact ⟨lowerProps_judges (fun m hm => hasAlias_child hasAlias hm) ih' keys holds,
        fun _ => holds⟩
    | morph input steps =>
      have inner := (ih' input (by simp [Constraint.children])).lower keys holds
      simp only [lowerAs, admitsIn, constraint, admits_of, Constraint.map, constraintAdmits]
      exact ⟨judges_morph inner steps, fun _ => holds⟩
    | union branches =>
      simp only [lowerAs, admitsIn, constraint, admits_of, Constraint.map, constraintAdmits,
        List.any_map]
      cases branches with
      | nil => exact ⟨judges_never d, fun h => absurd h (by simp)⟩
      | cons n r => exact ⟨lowerUnion_judges ih' keys holds _ _, fun _ => holds⟩
    | intersection children =>
      have right : ∀ m ∈ children, Lowers b test m := ih'
      have all := lowerAll_judges right (dimensionOf (of (.intersection children)) k) keys holds
      rw [all_admitsIn_dimensionOf children holds] at all
      exact ⟨all, fun _ => holds⟩

end Node

end SchemaAlgebra

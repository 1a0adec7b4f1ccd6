import SchemaAlgebra.Proofs.Agreement
import SchemaAlgebra.Proofs.Application
import SchemaAlgebra.Proofs.Validation
import SchemaAlgebra.Standard

/-!
# What applying a node comes to

A node without aliases is read as the edits that it makes to a value, with a union read as
the first of its branches, in order, that does not fail. Its program comes to those edits,
whatever was known when it was lowered and however values are led to branches.
-/
namespace SchemaAlgebra

section

open Traversal

/-- The values that a node admits, and the edits it makes to those that it applies to. -/
structure Reading where
  admits : Json → Bool
  edits : Json → Option (List Edit)

namespace Edit

/-- The edits of the values of the keys that a signature matches. -/
def ofSignature (named : List String) (s : Signature Reading) (data : Json) : Option (List Edit) :=
  together ((data.asEntries?.getD []).filterMap fun e =>
    if named.contains e.1 || !s.key.admits (.string e.1) then none
    else some ((s.value.edits e.2).map (within (.key e.1) e.2)))

def ofSequence (s : Sequence Reading) (items : List Json) : Option (List Edit) :=
  if s.admitsLength items.length then
    together (items.zipIdx.filterMap fun e =>
      (s.at? e.2).map fun r => (r.edits e.1).map (within (.index e.2) e.1))
  else none

/-- The edits of the items, of an array only. -/
def ofItems (s : Option (Sequence Reading)) (data : Json) : Option (List Edit) :=
  match s, data with
  | some s, .array items => ofSequence s items
  | _, _ => some []

def ofProps (p : Props Reading) (data : Json) : Option (List Edit) :=
  both (both (both
    (together (p.required.map fun e => underKey e.1 true e.2.edits data))
    (together (p.optional.map fun e => underKey e.1 false e.2.edits data)))
    (together (p.index.map fun s => ofSignature p.namedKeys s data)))
    (ofItems p.sequence data)

theorem underKey_isSome {name : String} {required : Bool} {o : Json → Option (List Edit)}
    {data : Json} : (underKey name required o data).isSome ↔
      ((data.get? name).map fun v => (o v).isSome).getD (!required) = true := by
  rw [underKey]
  cases data.get? name with
  | none => cases required <;> simp
  | some v => simp

theorem ofSignature_isSome {named : List String} {s : Signature Reading} {data : Json} :
    (ofSignature named s data).isSome ↔ ∀ e ∈ data.asEntries?.getD [],
      (named.contains e.1 || !s.key.admits (.string e.1) || (s.value.edits e.2).isSome) = true := by
  rw [ofSignature, together_isSome]
  constructor
  · intro h e he
    cases skipped : named.contains e.1 || !s.key.admits (.string e.1) with
    | true => rfl
    | false =>
      have here := h _ (List.mem_filterMap.mpr ⟨e, he, by rw [skipped]; rfl⟩)
      simpa using here
  · intro h o ho
    obtain ⟨e, he, found⟩ := List.mem_filterMap.mp ho
    have here := h e he
    split at found
    · cases found
    · rename_i matched
      cases found
      rw [Bool.eq_false_iff.mpr matched, Bool.false_or] at here
      simpa using here

theorem ofSequence_isSome {s : Sequence Reading} {items : List Json} :
    (ofSequence s items).isSome ↔ s.admitsLength items.length = true ∧
      ∀ e ∈ items.zipIdx, ((s.at? e.2).map fun r => (r.edits e.1).isSome).getD true = true := by
  rw [ofSequence]
  split
  · rename_i fits
    rw [together_isSome]
    refine ⟨fun h => ⟨fits, fun e he => ?_⟩, fun h o ho => ?_⟩
    · cases found : s.at? e.2 with
      | none => rfl
      | some r =>
        have here := h _ (List.mem_filterMap.mpr ⟨e, he, by rw [found]; rfl⟩)
        simpa using here
    · obtain ⟨e, he, found⟩ := List.mem_filterMap.mp ho
      obtain ⟨r, hr, rfl⟩ := Option.map_eq_some_iff.mp found
      have here := h.2 e he
      rw [hr] at here
      simpa using here
  · rename_i fits
    simp [fits]

end Edit

variable [Library]

namespace Node

variable (b : Bindings)

def constraintEdits (c : Constraint Reading) (d : Json) : Option (List Edit) :=
  match c with
  | .props p => Edit.ofProps p d
  | .morph input steps =>
    ((input.edits d).bind fun es => transformed? b steps (Edit.runAll d es)).map fun w =>
      [.replace w]
  | .union branches => (branches.findSome? (·.edits d)).map (Edit.whole d)
  | .intersection children => Edit.together (children.map (·.edits d))
  | c => Edit.given (constraintAdmits (fun _ _ _ => false) (c.map (·.admits)) d)

def reading : Node → Reading := fold fun c =>
  ⟨constraintAdmits (fun _ _ _ => false) (c.map (·.admits)), constraintEdits b c⟩

/-- The edits that applying the node makes to a value; none if it fails. -/
def edits (n : Node) : Json → Option (List Edit) := (n.reading b).edits

theorem reading_admits (n : Node) : (n.reading b).admits = n.admits :=
  fold_fusion Reading.admits (fun _ => rfl) n

theorem edits_of (c : Constraint Node) (d : Json) :
    (of c).edits b d = constraintEdits b (c.map (reading b)) d := by
  rw [edits, reading, fold_of]

theorem edits_props (p : Props Node) (d : Json) :
    (of (.props p)).edits b d = Edit.both (Edit.both (Edit.both
      (Edit.together (p.required.map fun e => Edit.underKey e.1 true (e.2.edits b) d))
      (Edit.together (p.optional.map fun e => Edit.underKey e.1 false (e.2.edits b) d)))
      (Edit.together (p.index.map fun s => Edit.ofSignature p.namedKeys
        ⟨s.key.reading b, s.value.reading b⟩ d)))
      (Edit.ofItems (p.sequence.map (·.map (reading b))) d) := by
  rw [edits_of]
  simp [Constraint.map, constraintEdits, Edit.ofProps, Props.map, Props.namedKeys, Entries.keys,
    List.map_map, Function.comp_def, edits]

variable {b}

theorem edits_intersection (children : List Node) (d : Json) :
    (of (.intersection children)).edits b d = Edit.together (children.map (·.edits b d)) := by
  rw [edits_of]
  simp [Constraint.map, constraintEdits, List.map_map, Function.comp_def, edits]

theorem edits_union (branches : List Node) (d : Json) :
    (of (.union branches)).edits b d = (branches.findSome? (·.edits b d)).map (Edit.whole d) := by
  rw [edits_of]
  simp [Constraint.map, constraintEdits, List.findSome?_map, Function.comp_def, edits]

theorem edits_morph (input : Node) (steps : List Step) (d : Json) :
    (of (.morph input steps)).edits b d = ((input.edits b d).bind fun es =>
      transformed? b steps (Edit.runAll d es)).map fun w => [.replace w] := by
  rw [edits_of]
  rfl

theorem admits_of_edits {n : Node} {d : Json} (h : (n.edits b d).isSome) : n.admits d = true := by
  induction n using Node.inductionOn generalizing d with
  | step c ih =>
    cases c with
    | props p =>
      rw [edits_props, Edit.both_isSome, Edit.both_isSome, Edit.both_isSome, Edit.together_isSome,
        Edit.together_isSome, Edit.together_isSome] at h
      obtain ⟨⟨⟨required, optional⟩, index⟩, sequence⟩ := h
      have under {required : Bool} {e : String × Node} (member : e.2 ∈ p.values)
          (found : (Edit.underKey e.1 required (e.2.edits b) d).isSome) :
          ((d.get? e.1).map e.2.admits).getD (!required) = true := by
        rw [Edit.underKey_isSome] at found
        cases hc : d.get? e.1 with
        | none => simpa [hc] using found
        | some child =>
          rw [hc] at found
          exact ih e.2 member found
      rw [admits_props]
      simp only [Bool.and_eq_true, List.all_eq_true]
      refine ⟨⟨⟨fun e he => ?_, fun e he => ?_⟩, fun s hs e he => ?_⟩, ?_⟩
      · exact under (Props.mem_values_of_required he)
          (required _ (List.mem_map.mpr ⟨e, he, rfl⟩))
      · exact under (Props.mem_values_of_optional he)
          (optional _ (List.mem_map.mpr ⟨e, he, rfl⟩))
      · have all := Edit.ofSignature_isSome.mp (index _ (List.mem_map.mpr ⟨s, hs, rfl⟩)) e he
        simp only [reading_admits, Bool.or_eq_true] at all ⊢
        exact all.imp id (ih s.value (Props.mem_values_of_index hs).2)
      · cases hs : p.sequence with
        | none => rfl
        | some s =>
          cases d with
          | array xs =>
            rw [hs] at sequence
            obtain ⟨length, all⟩ := Edit.ofSequence_isSome.mp sequence
            rw [Sequence.admitsLength_map] at length
            simp only [Option.map_some, Option.getD_some, Json.asItems?, Sequence.admits,
              Sequence.admitsLength_map, Bool.and_eq_true, List.all_eq_true]
            refine ⟨length, fun e he => ?_⟩
            have here := all e he
            rw [Sequence.at?_map] at here ⊢
            cases found : s.at? e.2 with
            | none => rfl
            | some m =>
              rw [found] at here
              exact ih m (Props.mem_values_of_sequence hs (Sequence.mem_values_of_at? found)) here
          | _ => rfl
    | morph input steps =>
      rw [edits_morph, Option.isSome_map] at h
      rw [admits_of]
      obtain ⟨w, hw⟩ := Option.isSome_iff_exists.mp h
      obtain ⟨es, hes, -⟩ := Option.bind_eq_some_iff.mp hw
      exact ih input (by simp [Constraint.children]) (by simp [hes])
    | union branches =>
      rw [edits_union, Option.isSome_map, List.findSome?_isSome_iff] at h
      rw [admits_of]
      obtain ⟨m, hm, some_m⟩ := h
      simp only [Constraint.map, constraintAdmits, List.any_map, List.any_eq_true]
      exact ⟨m, hm, ih m hm some_m⟩
    | intersection children =>
      rw [edits_intersection, Edit.together_isSome] at h
      rw [admits_of]
      simp only [Constraint.map, constraintAdmits, List.all_map, List.all_eq_true]
      exact fun m hm => ih m hm (h _ (List.mem_map.mpr ⟨m, hm, rfl⟩))
    | _ =>
      rw [edits_of] at h
      rw [admits_of]
      simp only [Constraint.map, constraintEdits, Edit.given_isSome] at h ⊢
      exact h

/-- The edits of a node when its bound, if it is one, measures a certain dimension. -/
def editsIn (b : Bindings) (dimension : Dimension) (n : Node) (d : Json) : Option (List Edit) :=
  match n.constraint with
  | .bound _ => Edit.given (n.admitsIn dimension d)
  | _ => n.edits b d

theorem admitsIn_of_editsIn {dimension : Dimension} {n : Node} {d : Json}
    (h : (n.editsIn b dimension d).isSome) : n.admitsIn dimension d = true := by
  obtain ⟨c⟩ := n
  cases c with
  | bound r => exact Edit.given_isSome.mp h
  | _ => exact admits_of_edits h

theorem editsIn_of_admitsIn {dimension : Dimension} {n : Node} {d : Json}
    (h : n.admitsIn dimension d = n.admits d) : n.editsIn b dimension d = n.edits b d := by
  obtain ⟨c⟩ := n
  cases c with
  | bound r =>
    have given : (of (.bound r)).edits b d = Edit.given ((of (.bound r)).admits d) := by
      rw [edits_of, admits_of]
      rfl
    rw [given, ← h]
    rfl
  | _ => rfl

/-- An intersection edits a value in the dimension chosen for it: where a bound does not
measure the value, another child refuses it. -/
theorem together_editsIn_dimensionOf (children : List Node) {k : Known} {d : Json}
    (holds : k.Holds d) :
    Edit.together (children.map (·.editsIn b (dimensionOf (of (.intersection children)) k) d)) =
      (of (.intersection children)).edits b d := by
  have agree := all_admitsIn_dimensionOf children holds
  rw [edits_intersection]
  cases admitted : (of (.intersection children)).admits d with
  | true =>
    rw [admitted, List.all_eq_true] at agree
    rw [admits_of] at admitted
    simp only [Constraint.map, constraintAdmits, List.all_map, List.all_eq_true] at admitted
    congr 1
    exact List.map_congr_left fun m hm =>
      editsIn_of_admitsIn ((agree m hm).trans (admitted m hm).symm)
  | false =>
    have refused : Edit.together (children.map (·.edits b d)) = none := by
      rw [← edits_intersection, ← Option.not_isSome_iff_eq_none]
      exact fun some => by rw [admits_of_edits some] at admitted; cases admitted
    rw [refused, ← Option.not_isSome_iff_eq_none, Edit.together_isSome]
    intro all
    rw [admitted, Bool.eq_false_iff, ne_eq, List.all_eq_true] at agree
    exact agree fun m hm => admitsIn_of_editsIn (all _ (List.mem_map.mpr ⟨m, hm, rfl⟩))

omit [Library] in
theorem findSome?_of_sublist {α β : Type} {f : α → Option β} {l l' : List α}
    (sub : l'.Sublist l) (nodup : l.Nodup) (kept : ∀ a ∈ l, (f a).isSome → a ∈ l') :
    l'.findSome? f = l.findSome? f := by
  induction sub with
  | slnil => rfl
  | @cons l' l a sub ih =>
    obtain ⟨fresh, nodup⟩ := List.nodup_cons.mp nodup
    have fails : f a = none := by
      rw [← Option.not_isSome_iff_eq_none]
      exact fun some => fresh (sub.subset (kept a List.mem_cons_self some))
    rw [List.findSome?_cons, fails]
    exact ih nodup fun a' ha => kept a' (List.mem_cons_of_mem _ ha)
  | @cons_cons l' l a sub ih =>
    obtain ⟨fresh, nodup⟩ := List.nodup_cons.mp nodup
    rw [List.findSome?_cons, List.findSome?_cons]
    cases f a with
    | some v => rfl
    | none =>
      refine ih nodup fun a' ha some => ?_
      rcases List.mem_cons.mp (kept a' (List.mem_cons_of_mem _ ha) some) with rfl | ha'
      · exact absurd ha fresh
      · exact ha'

omit [Library] in
theorem findSome?_of_first {α β : Type} {f : α → Option β} {l : List α} {i : Nat}
    {a : α} {v : β} (hi : l[i]? = some a) (ha : f a = some v)
    (first : ∀ (j : Nat) (a' : α), j < i → l[j]? = some a' → f a' = none) :
    l.findSome? f = some v := by
  rw [List.findSome?_eq_some_iff]
  obtain ⟨hlt, rfl⟩ := List.getElem?_eq_some_iff.mp hi
  refine ⟨l.take i, l[i], l.drop (i + 1), ?_, ha, fun a' ha' => ?_⟩
  · rw [← List.drop_eq_getElem_cons hlt, List.take_append_drop]
  · obtain ⟨j, hj⟩ := List.mem_iff_getElem?.mp ha'
    rw [List.getElem?_take] at hj
    split at hj
    · rename_i earlier
      exact first j a' earlier hj
    · cases hj

omit [Library] in
theorem findSome?_filterMap {α β γ : Type} (f : α → Option β) (g : β → Option γ)
    (l : List α) : (l.filterMap f).findSome? g = l.findSome? fun a => (f a).bind g := by
  rw [← List.head?_filterMap, ← List.head?_filterMap, List.filterMap_filterMap]

omit [Library] in
theorem filterMap_range_getElem? {α : Type} (l : List α) :
    (List.range l.length).filterMap (l[·]?) = l := by
  induction l with
  | nil => rfl
  | cons a l ih =>
    rw [List.length_cons, List.range_succ_eq_map, List.filterMap_cons, List.filterMap_map]
    exact congrArg (a :: ·) ih

/-- The branches that a value is led to come to what all branches in order come to. -/
theorem findSome?_selected {branches : List Node} {d : Json} {chosen : List Nat}
    (found : (DecisionTree.ofBranches branches).select d = some chosen) :
    (chosen.filterMap (branches[·]?)).findSome? (·.edits b d) = branches.findSome?
      (·.edits b d) := by
  have sub : chosen.Sublist (List.range branches.length) :=
    DecisionTree.sublist_of_select_build _ _ found
  conv_rhs => rw [← filterMap_range_getElem? branches]
  rw [findSome?_filterMap, findSome?_filterMap]
  refine findSome?_of_sublist sub List.nodup_range fun i _ some => ?_
  obtain ⟨es, hes⟩ := Option.isSome_iff_exists.mp some
  obtain ⟨m, hm, passes⟩ := Option.bind_eq_some_iff.mp hes
  obtain ⟨chosen', routed, member⟩ :=
    DecisionTree.select_ofBranches hm
      (admits_of_edits (Option.isSome_iff_exists.mpr ⟨es, passes⟩))
  rw [found] at routed
  cases routed
  exact member

theorem findSome?_unrouted {branches : List Node} {d : Json}
    (found : (DecisionTree.ofBranches branches).select d = none) :
    branches.findSome? (·.edits b d) = none := by
  rw [List.findSome?_eq_none_iff]
  intro m hm
  rw [← Option.not_isSome_iff_eq_none]
  intro some
  obtain ⟨i, chosen, -, routed, -⟩ := exists_selected hm (admits_of_edits some)
  rw [found] at routed
  cases routed

section

variable (b : Bindings) (test : Program → String → Option KeyTest)
  (program : Site → ProgramFrame → Option (Report Verdict))

/-- The programs of nodes without aliases come to the edits of the nodes. -/
def AllApply : Prop :=
  ∀ (m : Node) (k : Known) (d : Json), m.hasAlias = false → k.Holds d →
    Applies program (m.lower k) d (m.edits b d)

end

/-- The edits that the node in its place makes to an item. -/
def itemEdits (b : Bindings) (s : Sequence Node) (job : Job) : Option (List Edit) :=
  match job.segment with
  | .index i => (s.at? i).bind fun m => m.edits b job.data
  | .key _ => none

section

variable {test : Program → String → Option KeyTest}
  {program : Site → ProgramFrame → Option (Report Verdict)} (h : AllApply b program)
include h

theorem lowerEntries_apply (required : Bool) {es : List (String × Node)}
    (hasAlias : ∀ e ∈ es, e.2.hasAlias = false) {k : Known} {d : Json} (holds : k.Holds d) :
    ChecksApply b test program (lowerEntries required es k) d
      (Edit.together (es.map fun e => Edit.underKey e.1 required (e.2.edits b) d)) := by
  rw [lowerEntries_eq]
  exact checksApply_map fun e he => checkApplies_key fun child hc =>
    h e.2 _ child (hasAlias e he) (holds.under hc)

theorem lowerIndex_apply (keys : AnswersKeys test) (named : List String)
    {ss : List (Signature Node)}
    (hasAlias : ∀ s ∈ ss, s.key.hasAlias = false ∧ s.value.hasAlias = false) (d : Json) :
    ChecksApply b test program (lowerIndex named ss) d
      (Edit.together (ss.map fun s =>
        Edit.ofSignature named ⟨s.key.reading b, s.value.reading b⟩ d)) := by
  rw [lowerIndex_eq]
  refine checksApply_map fun s hs => ?_
  cases d with
  | object entries =>
    have applies (child : Json) : Applies program s.value.compile child (s.value.edits b child) :=
      h s.value .nothing child (hasAlias s hs).2 (Known.nothing_holds child)
    have jobs : indexJobs test s.key.compile s.value.compile named entries =
        some ((indexVerdicts s named entries).map (·.1), []) :=
      indexJobs_eq (keys s.key (hasAlias s hs).1)
    have checks : CheckApplies b test program _ _ _ := checkApplies_index jobs applies
    have same : ((indexVerdicts s named entries).map (·.1)).map (fun job =>
          (s.value.edits b job.data).map (Edit.within job.segment job.data)) =
        entries.filterMap fun e =>
          if named.contains e.1 || !(s.key.reading b).admits (.string e.1) then none
          else some ((s.value.edits b e.2).map (Edit.within (.key e.1) e.2)) := by
      rw [indexVerdicts, List.map_map, List.map_filterMap, reading_admits]
      refine List.filterMap_congr fun e _ => ?_
      split <;> rfl
    rw [same] at checks
    exact checks
  | _ => exact checkApplies_passes fun t => rfl

theorem lowerSequence_apply {s : Option (Sequence Node)}
    (hasAlias : ∀ q, s = some q → ∀ m ∈ q.values, m.hasAlias = false) (d : Json) :
    ChecksApply b test program (lowerSequence s) d
      (Edit.ofItems (s.map (·.map (reading b))) d) := by
  cases s with
  | none => exact checksApply_nil
  | some q =>
    rw [lowerSequence_eq]
    refine checksApply_one ?_
    cases d with
    | array xs =>
      have lengths : fitsLength (q.items.map compile) (q.rest.map compile) xs =
          (q.map (reading b)).admitsLength xs.length := by
        obtain ⟨items, rest⟩ := q
        cases rest <;> simp [fitsLength, Sequence.map, Sequence.admitsLength]
      have applied (job : Job)
          (hj : job ∈ elementJobs (q.items.map compile) (q.rest.map compile) xs) :
          Applies program job.program job.data (itemEdits b q job) := by
        rw [elementJobs_eq, List.mem_map] at hj
        obtain ⟨⟨job, v⟩, hj, rfl⟩ := hj
        obtain ⟨⟨x, i⟩, -, hx⟩ := List.mem_filterMap.mp hj
        obtain ⟨m, hm, hx⟩ := Option.map_eq_some_iff.mp hx
        cases hx
        have same : itemEdits b q ⟨.index i, m.compile, x⟩ = m.edits b x := by
          simp only [itemEdits, hm, Option.bind_some]
        rw [same]
        exact h m .nothing x (hasAlias q rfl m (Sequence.mem_values_of_at? hm))
          (Known.nothing_holds x)
      have checks : CheckApplies b test program _ _ _ := checkApplies_elements applied
      have same : (elementJobs (q.items.map compile) (q.rest.map compile) xs).map (fun job =>
            (itemEdits b q job).map (Edit.within job.segment job.data)) =
          xs.zipIdx.filterMap fun e => ((q.map (reading b)).at? e.2).map fun r =>
            (r.edits e.1).map (Edit.within (.index e.2) e.1) := by
        rw [elementJobs_eq, elementVerdicts, List.map_map, List.map_filterMap]
        refine List.filterMap_congr fun e _ => ?_
        rw [Sequence.at?_map]
        cases found : q.at? e.2 with
        | none => simp [found]
        | some m => simp [found, itemEdits, edits]
      rw [lengths, same] at checks
      exact checks
    | _ => exact checkApplies_passes fun t => rfl

theorem lowerProps_apply (keys : AnswersKeys test) {p : Props Node}
    (hasAlias : ∀ m ∈ p.values, m.hasAlias = false) {k : Known} {d : Json} (holds : k.Holds d) :
    ChecksApply b test program
      (lowerEntries true p.required k ++ lowerEntries false p.optional k ++
        lowerIndex p.namedKeys p.index ++ lowerSequence p.sequence) d
      ((of (.props p)).edits b d) := by
  have required : ChecksApply b test program (lowerEntries true p.required k) d _ :=
    lowerEntries_apply h true (fun e he => hasAlias e.2 (Props.mem_values_of_required he)) holds
  have optional : ChecksApply b test program (lowerEntries false p.optional k) d _ :=
    lowerEntries_apply h false (fun e he => hasAlias e.2 (Props.mem_values_of_optional he)) holds
  have index : ChecksApply b test program (lowerIndex p.namedKeys p.index) d _ :=
    lowerIndex_apply h keys p.namedKeys
      (fun s hs => ⟨hasAlias s.key (Props.mem_values_of_index hs).1,
      hasAlias s.value (Props.mem_values_of_index hs).2⟩) d
  have sequence : ChecksApply b test program (lowerSequence p.sequence) d _ :=
    lowerSequence_apply h (fun q hq m hm => hasAlias m (Props.mem_values_of_sequence hq hm)) d
  rw [edits_props]
  exact checksApply_append (checksApply_append (checksApply_append required fun _ => optional)
    fun _ => index) fun _ => sequence

theorem lowerUnion_applies {branches : List Node}
    (hasAlias : ∀ m ∈ branches, m.hasAlias = false) {k : Known} {d : Json} (holds : k.Holds d)
    (expected : String) : CheckApplies b test program
      (.union (lowerTree (lowerEach branches) (DecisionTree.ofBranches branches) k)
        ((lowerEach branches).map fun lower => lower k) expected) d
      ((of (.union branches)).edits b d) := by
  obtain ⟨k', holds', dest, leads, led⟩ :=
    (DecisionTree.ofBranches branches).leads_of_holds (lowerEach branches) d holds
  rw [edits_union]
  refine checkApplies_union leads led (fun ps led => ?_) fun unrouted => ?_
  · obtain ⟨chosen, found, rfl⟩ := Option.map_eq_some_iff.mp led
    have programs : (chosen.filterMap fun i => (lowerEach branches)[i]?.map fun f => f k') =
        (chosen.filterMap (branches[·]?)).map fun m => m.lower k' := by
      rw [List.map_filterMap, lowerEach_eq]
      refine List.filterMap_congr fun i _ => ?_
      rw [List.getElem?_map, Option.map_map]
      rfl
    rw [programs, ← findSome?_selected found]
    refine branchesFrame_applies (fun m hm => ?_) expected
    obtain ⟨i, -, hi⟩ := List.mem_filterMap.mp hm
    exact h m k' d (hasAlias m (List.mem_of_getElem? hi)) holds'
  · have none_passes := findSome?_unrouted (b := b) (Option.map_eq_none_iff.mp unrouted)
    refine ⟨none_passes, ?_⟩
    have all := branchesFrame_applies (b := b) (fun m hm => h m k d (hasAlias m hm) holds) expected
    rw [none_passes] at all
    rw [lowerEach_eq, List.map_map]
    exact all

theorem lowerAs_apply (keys : AnswersKeys test) {n : Node} (hasAlias : n.hasAlias = false)
    (dimension : Dimension) {k : Known} {d : Json} (holds : k.Holds d) :
    ChecksApply b test program (n.lowerAs dimension k).1 d (n.editsIn b dimension d) := by
  induction n using Node.inductionOn generalizing dimension k with
  | step c ih =>
    have plain (m : Node) (hm : m ∈ c.children) : m.hasAlias = false := hasAlias_child hasAlias hm
    cases c with
    | domain dm =>
      have given : (of (.domain dm)).editsIn b dimension d = Edit.given (Domain.of d == dm) := rfl
      simp only [lowerAs]
      split_ifs with known
      · rw [given, beq_iff_eq.mpr (holds.impliesDomain known)]
        exact checksApply_nil
      · exact checksApply_one (checkApplies_judged (fun t => ⟨_, _, rfl⟩) (by simp))
    | literal l =>
      have given : (of (.literal l)).editsIn b dimension d = Edit.given (l.isMatch d) := rfl
      simp only [lowerAs]
      split_ifs with known
      · rw [given, holds.literal_isMatch known]
        exact checksApply_nil
      · exact checksApply_one (checkApplies_judged (fun t => ⟨_, _, rfl⟩) (by simp))
    | basis c =>
      have given : (of (.basis c)).editsIn b dimension d = Edit.given (c.allows d) := rfl
      simp only [lowerAs]
      split_ifs with known
      · rw [given, holds.2 c known]
        exact checksApply_nil
      · exact checksApply_one (checkApplies_judged (fun t => ⟨_, _, rfl⟩) (by simp))
    | bound r => exact checksApply_one (checkApplies_judged (fun t => ⟨_, _, rfl⟩) (by simp))
    | divisor n => exact checksApply_one (checkApplies_judged (fun t => ⟨_, _, rfl⟩) (by simp))
    | patterns ps =>
      exact checksApply_one (checkApplies_judged (fun t => ⟨_, _, rfl⟩) (by simp))
    | brand name => exact checksApply_nil
    | deferred name home => exact absurd hasAlias (by simp [Node.hasAlias, fold])
    | props p => exact lowerProps_apply h keys plain holds
    | morph input steps =>
      have inner := h input k d (plain input (by simp [Constraint.children])) holds
      have edited : (of (.morph input steps)).editsIn b dimension d = _ := edits_morph input steps d
      rw [edited]
      exact checksApply_one (checkApplies_morph inner steps)
    | union branches =>
      simp only [lowerAs]
      split_ifs with none
      · obtain rfl : branches = [] := List.isEmpty_iff.mp none
        have never : CheckApplies b test program .never d (Edit.given false) :=
          checkApplies_judged (fun t => ⟨_, _, rfl⟩) (by simp)
        exact checksApply_one never
      · exact checksApply_one (lowerUnion_applies h plain holds _)
    | intersection children =>
      have all (dimension : Dimension) {ms : List Node} (hms : ∀ m ∈ ms, m ∈ children)
          {k : Known} (holds : k.Holds d) : ChecksApply b test program (lowerAll ms dimension k) d
            (Edit.together (ms.map (·.editsIn b dimension d))) := by
        induction ms generalizing k with
        | nil => exact checksApply_nil
        | cons m ms ihms =>
          have member := hms m List.mem_cons_self
          refine checksApply_append (ih m member (plain m member) dimension holds) fun passed => ?_
          have right : Lowers b test m := lowers (plain m member)
          exact ihms (fun m' hm => hms m' (List.mem_cons_of_mem _ hm))
            ((right dimension k d (Or.inl keys) holds).2 (admitsIn_of_editsIn passed))
      have edited : (of (.intersection children)).editsIn b dimension d =
        (of (.intersection children)).edits b d := rfl
      rw [edited, ← together_editsIn_dimensionOf children holds]
      exact all _ (fun _ hm => hm) holds

end

/-- Every node without aliases is applied right, whatever is known of the value. -/
theorem allApply (b : Bindings) {test : Program → String → Option KeyTest}
    (keys : AnswersKeys test) (fuel : Nat) : AllApply b (evaluate b test fuel) := by
  induction fuel with
  | zero => exact fun m k d _ _ s nested r applied => nomatch applied
  | succ fuel ih =>
    intro m k d hasAlias holds
    have checks := lowerAs_apply ih keys hasAlias (dimensionOf m k) holds
    rw [editsIn_of_admitsIn (admitsIn_dimensionOf m holds)] at checks
    exact checks.applies

/-- Applying a node without aliases ends, and comes to the edited value if the node does not
fail. -/
theorem compile_apply_eq_edits {n : Node} (hasAlias : n.hasAlias = false) (b : Bindings)
    (maxDepth : Option Nat) (d : Json) : ∃ result : Except (List Problem) Json,
      (∀ patience v, n.compile.apply b patience maxDepth d = some v → v.outcome = result) ∧
      (∃ least, ∀ patience, least ≤ patience →
        (n.compile.apply b patience maxDepth d).isSome) ∧
      ∀ w, result = .ok w ↔ (n.edits b d).map (Edit.runAll d) = some w := by
  have ends : n.hasAlias = false ∨ maxDepth.isSome := Or.inl hasAlias
  obtain ⟨fuel, r, evaluated⟩ := compile_terminates ends b .apply d
  have verdict : r.value = Edit.verdict d (n.edits b d) :=
    allApply b (limitTest_answersKeys b maxDepth) fuel n .nothing d hasAlias (Known.nothing_holds d)
      (.root .apply maxDepth) false r evaluated
  obtain ⟨u, -, told, -, -⟩ := modesAgree b (limitTest b maxDepth) fuel n .nothing d
    (Known.nothing_holds d) (.root .apply maxDepth) false r evaluated
  refine ⟨Program.outcomeBy d r.problems r.value, fun patience v applied => ?_,
    Program.isSome_apply_of_evaluate evaluated, fun w => ?_⟩
  · obtain ⟨fuel', r', evaluated', outcome⟩ := Program.evaluate_of_apply applied
    obtain rfl : r' = r := evaluate_unique evaluated' evaluated
    rw [outcome, Program.outcomeOf_eq told]
  · rw [verdict]
    match n.edits b d with
    | none => simp [Edit.verdict, Program.outcomeBy]
    | some [] => simp [Edit.verdict, Program.outcomeBy, Edit.runAll]
    | some (e :: es) => simp [Edit.verdict, Program.outcomeBy]

omit [Library] in
theorem runAll_whole (d : Json) (es : List Edit) :
    Edit.runAll d (Edit.whole d es) = Edit.runAll d es := by
  cases es <;> rfl

/-- Routing never changes what a union does to a value: applying it succeeds exactly if
applying one of its branches does, and comes to the value that the first such branch comes to. -/
theorem compile_apply_union {branches : List Node}
    (hasAlias : (of (.union branches)).hasAlias = false) (b : Bindings) (maxDepth : Option Nat)
    (d : Json) : ∃ result : Node → Except (List Problem) Json,
      (∀ m, m = of (.union branches) ∨ m ∈ branches →
        (∀ patience v, m.compile.apply b patience maxDepth d = some v →
          v.outcome = result m) ∧
        ∃ least, ∀ patience, least ≤ patience →
          (m.compile.apply b patience maxDepth d).isSome) ∧
      ((∃ w, result (of (.union branches)) = .ok w) ↔ ∃ m ∈ branches, ∃ w,
        result m = .ok w) ∧
      ∀ (i : Nat) (m : Node) (w : Json), branches[i]? = some m → result m = .ok w →
        (∀ (j : Nat) (m' : Node) (w' : Json), j < i → branches[j]? = some m' →
          result m' ≠ .ok w') → result (of (.union branches)) = .ok w := by
  have total (m : Node) : ∃ result : Except (List Problem) Json, m.hasAlias = false →
      (∀ patience v, m.compile.apply b patience maxDepth d = some v → v.outcome = result) ∧
      (∃ least, ∀ patience, least ≤ patience →
        (m.compile.apply b patience maxDepth d).isSome) ∧
      ∀ w, result = .ok w ↔ (m.edits b d).map (Edit.runAll d) = some w := by
    cases h : m.hasAlias with
    | true => exact ⟨.error [], nofun⟩
    | false =>
      obtain ⟨result, spec⟩ := compile_apply_eq_edits h b maxDepth d
      exact ⟨result, fun _ => spec⟩
  choose result spec using total
  have plain (m : Node) (hm : m ∈ branches) : m.hasAlias = false := hasAlias_child hasAlias hm
  have union (w : Json) : result (of (.union branches)) = .ok w ↔
      (branches.findSome? (·.edits b d)).map (Edit.runAll d) = some w := by
    rw [(spec _ hasAlias).2.2, edits_union, Option.map_map]
    simp only [Function.comp_def, runAll_whole]
  refine ⟨result, fun m hm => ?_, ⟨fun ⟨w, ok⟩ => ?_, fun ⟨m, hm, w, ok⟩ => ?_⟩,
    fun i m w hi ok first => ?_⟩
  · have free : m.hasAlias = false := by
      rcases hm with rfl | hm
      · exact hasAlias
      · exact plain m hm
    exact ⟨(spec m free).1, (spec m free).2.1⟩
  · obtain ⟨es, found, -⟩ := Option.map_eq_some_iff.mp ((union w).mp ok)
    obtain ⟨m, hm, edited⟩ := List.exists_of_findSome?_eq_some found
    exact ⟨m, hm, Edit.runAll d es, ((spec m (plain m hm)).2.2 _).mpr (by rw [edited]; rfl)⟩
  · obtain ⟨es, edited, -⟩ := Option.map_eq_some_iff.mp (((spec m (plain m hm)).2.2 w).mp ok)
    have some : (branches.findSome? (·.edits b d)).isSome :=
      List.findSome?_isSome_iff.mpr ⟨m, hm, by rw [edited]; rfl⟩
    obtain ⟨es', found⟩ := Option.isSome_iff_exists.mp some
    exact ⟨Edit.runAll d es', (union _).mpr (by rw [found]; rfl)⟩
  · have member := List.mem_of_getElem? hi
    obtain ⟨es, edited, rfl⟩ :=
      Option.map_eq_some_iff.mp (((spec m (plain m member)).2.2 w).mp ok)
    refine (union _).mpr ?_
    rw [findSome?_of_first hi edited fun j m' earlier hj => ?_]
    · rfl
    · cases fails : m'.edits b d with
      | none => rfl
      | some es' =>
        have passes := ((spec m' (plain m' (List.mem_of_getElem? hj))).2.2 (Edit.runAll d es')).mpr
          (by rw [fails]; rfl)
        exact absurd passes (first j m' _ earlier hj)

end Node

end

namespace Node

attribute [local instance] Library.standard

def trimmed : Node := of (.morph (of (.domain .string)) [.builtin .trim])

/-- A text that is not the first branch's literal is trimmed by the second branch. -/
theorem compile_apply_union_trimmed :
    (of (.union [of (.literal (.string "none")), trimmed])).hasAlias = false ∧
      ∃ patience v, (of (.union [of (.literal (.string "none")), trimmed])).compile.apply
          ⟨fun _ _ => none, fun _ _ => .ok⟩ patience none (.string " a ") = some v ∧
        v.outcome = .ok (.string "a") := by
  have hasAlias : (of (.union [of (.literal (.string "none")), trimmed])).hasAlias = false := by
    decide
  obtain ⟨result, spec, -, first⟩ :=
    compile_apply_union hasAlias ⟨fun _ _ => none, fun _ _ => .ok⟩ none (.string " a ")
  have refuses : ∃ ps, result (of (.literal (.string "none"))) = .error ps :=
    ⟨_, ((spec _ (Or.inr List.mem_cons_self)).1 3 _ rfl).symm⟩
  have trims : result trimmed = .ok (.string "a") :=
    ((spec trimmed (Or.inr (List.mem_cons_of_mem _ List.mem_cons_self))).1 3 _ rfl).symm
  have applied := first 1 trimmed (.string "a") rfl trims fun j m' w' hj hm ok => by
    obtain rfl : j = 0 := by omega
    cases hm
    obtain ⟨ps, refused⟩ := refuses
    rw [refused] at ok
    cases ok
  obtain ⟨outcomes, least, ends⟩ := spec _ (Or.inl rfl)
  obtain ⟨v, ran⟩ := Option.isSome_iff_exists.mp (ends least (Nat.le_refl least))
  exact ⟨hasAlias, least, v, ran, (outcomes least v ran).trans applied⟩

end Node

end SchemaAlgebra

import SchemaAlgebra.Decision
import SchemaAlgebra.Proofs.LiteralText
import SchemaAlgebra.Proofs.Sameness

/-!
# Routing of values

The facts of a branch hold of every value that the branch admits. A decision tree built
from the facts of the branches leads a value to all branches whose facts hold of it.
-/
namespace SchemaAlgebra

theorem Json.at?_append (d : Json) (path rest : List String) :
    d.at? (path ++ rest) = (d.at? path).bind (·.at? rest) := by
  induction path generalizing d with
  | nil => rfl
  | cons key path ih =>
    simp only [List.cons_append, Json.at?]
    cases d.get? key with
    | none => rfl
    | some v => exact ih v

namespace Domain

theorem name_injective {a b : Domain} (h : a.name = b.name) : a = b := by
  cases a <;> cases b <;> first | rfl | exact absurd h (by decide)

end Domain

namespace Literal

theorem domain_of_isMatch {l : Literal} {d : Json} (h : l.isMatch d = true) :
    Domain.of d = l.domain := by
  cases l <;> cases d <;> simp_all [isMatch, Domain.of, domain]

end Literal

namespace Binary64

theorem eq_refl {x : Binary64} (h : x.isFinite = true) : x.eq x = true := by
  simp [eq, isNaN_of_isFinite h]

theorem rank_of_eq {x y : Binary64} (h : x.eq y = true) : x.rank = y.rank := by
  simp only [eq, Bool.and_eq_true, beq_iff_eq] at h
  exact h.2

theorem magnitude_of_eq {x y : Binary64} (h : x.eq y = true) : x.magnitude = y.magnitude := by
  have ranks := rank_of_eq h
  unfold rank at ranks
  split_ifs at ranks <;> omega

/-- Numbers that compare as equal are the same up to the sign of zero. -/
theorem eq_of_eq_of_ne_zero {x y : Binary64} (h : x.eq y = true) (hz : y.isZero = false) :
    x = y := by
  have ranks := rank_of_eq h
  have magnitudes := magnitude_of_eq h
  have positive : y.magnitude ≠ 0 := by simpa [isZero] using hz
  have signs : x.negative = y.negative := by
    unfold rank at ranks
    cases hx : x.negative <;> cases hy : y.negative <;> simp [hx, hy] at ranks ⊢ <;> omega
  rw [← ofParts_parts x, ← ofParts_parts y, signs, magnitudes]

theorem zero_eq_of_isZero {x : Binary64} (h : x.isZero = true) : zero.eq x = true := by
  have magnitude : x.magnitude = 0 := by simpa [isZero] using h
  have no_nan : x.isNaN = false := by simp [isNaN, magnitude]
  have rank : x.rank = 0 := by simp [Binary64.rank, magnitude]
  rw [eq, no_nan, rank]
  rfl

end Binary64

theorem Numeral.ofBinary64_eq_iff (n : Numeral) (x : Binary64) :
    ofBinary64? x = some n ↔ (if x.isZero then .zero else x) = n.value := by
  unfold ofBinary64?
  generalize (if x.isZero then Binary64.zero else x) = y
  obtain ⟨value, isRegular⟩ := n
  dsimp only
  split
  · simp
  · rename_i irregular
    simp only [reduceCtorEq, false_iff]
    rintro rfl
    exact irregular isRegular

namespace Literal

theorem ofBinary64_eq_iff (n : Numeral) (x : Binary64) :
    ofBinary64? x = some (number n) ↔ n.value.eq x = true := by
  have regular := n.isRegular
  simp only [Bool.and_eq_true, Bool.not_eq_true'] at regular
  rw [ofBinary64?, Option.map_eq_some_iff]
  simp only [number.injEq, exists_eq_right, Numeral.ofBinary64_eq_iff]
  constructor
  · intro h
    rw [← h] at regular ⊢
    split_ifs with hz
    · exact Binary64.zero_eq_of_isZero hz
    · rw [if_neg hz] at regular
      exact Binary64.eq_refl regular.1
  · intro h
    have magnitudes := Binary64.magnitude_of_eq h
    split_ifs with hz
    · have magnitude : x.magnitude = 0 := by simpa [Binary64.isZero] using hz
      have positive : n.value.negative = false := by
        simpa [Binary64.isZero, magnitudes, magnitude] using regular.2
      rw [← Binary64.ofParts_parts n.value, positive, magnitudes, magnitude]
      rfl
    · exact (Binary64.eq_of_eq_of_ne_zero h (by simpa using hz)).symm

theorem isMatch_iff (l : Literal) (d : Json) : l.isMatch d = true ↔ ofJson? d = some l := by
  cases d with
  | number n =>
    cases l with
    | number m => exact (ofBinary64_eq_iff m n.toBinary64).symm
    | _ =>
      simp only [isMatch, ofJson?, ofBinary64?, Bool.false_eq_true, false_iff]
      cases Numeral.ofBinary64? n.toBinary64 <;> simp
  | bool b => cases l <;> simp [isMatch, ofJson?, eq_comm (a := b)]
  | string s => cases l <;> simp [isMatch, ofJson?, eq_comm (a := s)]
  | _ => cases l <;> simp [isMatch, ofJson?]

/-- A value matches a literal exactly if the expression of the literal is the key of the
value. -/
theorem isMatch_iff_keyOf (l : Literal) (d : Json) :
    l.isMatch d = true ↔ Aspect.unit.keyOf d = l.expression := by
  rw [isMatch_iff]
  simp only [Aspect.keyOf]
  cases h : ofJson? d with
  | none => simpa using (expression_ne_empty l).symm
  | some m =>
    simp only [Option.some.injEq, Option.map_some, Option.getD_some]
    exact ⟨fun h => by rw [h], expression_injective⟩

end Literal

/-- Following the keys through objects leads from one value to another. -/
inductive Json.Leads : Json → List String → Json → Prop
  | here (d : Json) : Leads d [] d
  | under {d child v : Json} {key : String} {path : List String} (found : d.get? key = some child)
    (rest : Leads child path v) : Leads d (key :: path) v

theorem Json.at?_eq_some_iff {d v : Json} {path : List String} : d.at? path = some v ↔
    d.Leads path v := by
  induction path generalizing d with
  | nil =>
    constructor
    · intro found
      cases found
      exact .here _
    · intro leads
      cases leads
      rfl
  | cons key path ih =>
    rw [Json.at?, Option.bind_eq_some_iff]
    constructor
    · rintro ⟨child, found, rest⟩
      exact .under found (ih.mp rest)
    · rintro (_ | ⟨found, rest⟩)
      exact ⟨_, found, ih.mpr rest⟩

namespace Probe

/-- The key of the literal at a path is that of a given literal just where the value there matches
the literal, and there is none just where the path leads nowhere. -/
theorem unit_key_iff_isMatch (l : Literal) (path : List String) (d : Json) :
    (∀ v, d.Leads path v →
      ((⟨path, .unit⟩ : Probe).keyIn? d = some (Outcome.unit l).key ↔ l.isMatch v = true)) ∧
      ((⟨path, .unit⟩ : Probe).keyIn? d = none ↔ ¬∃ v, d.Leads path v) := by
  constructor
  · intro v leads
    rw [keyIn?, Json.at?_eq_some_iff.mpr leads, Option.map_some, Option.some.injEq, Outcome.key,
      Literal.isMatch_iff_keyOf]
  · rw [keyIn?, Option.map_eq_none_iff, Option.eq_none_iff_forall_ne_some, not_exists]
    exact forall_congr' fun v => not_congr Json.at?_eq_some_iff

/-- Negative zero has the key of zero, and its text has another. -/
theorem unit_key_zero :
    (⟨["a", "b"], .unit⟩ : Probe).keyIn?
      (.object [("a", .object [("b", .number (.float (.ofParts true 0)))])]) =
      some (Outcome.unit (.number ⟨.zero, by decide⟩)).key ∧
    (⟨["a", "b"], .unit⟩ : Probe).keyIn? (.object [("a", .object [("b", .string "0")])]) ≠
      some (Outcome.unit (.number ⟨.zero, by decide⟩)).key ∧
    (⟨["a", "b"], .unit⟩ : Probe).keyIn? (.object [("a", .number (.int 0))]) = none := by
  refine ⟨?_, fun same => ?_, ?_⟩
  · exact ((unit_key_iff_isMatch _ _ _).1 _ (.under rfl (.under rfl (.here _)))).mpr (by decide)
  · have wrong := ((unit_key_iff_isMatch _ _ _).1 _ (.under rfl (.under rfl (.here _)))).mp same
    exact absurd wrong (by decide)
  · refine (unit_key_iff_isMatch (.null) _ _).2.mpr fun ⟨v, leads⟩ => ?_
    cases leads with
    | under found rest =>
      cases found
      cases rest with
      | under found _ => cases found

end Probe

namespace Facts

/-- Every fact tells the outcome of its probe. -/
def Hold (facts : Facts) (d : Json) : Prop :=
  ∀ f ∈ facts, f.1.keyIn? d = some f.2.key

theorem mem_of_get? {facts : Facts} {p : Probe} {o : Outcome} (h : facts.get? p = some o) :
    (p, o) ∈ facts := by
  induction facts with
  | nil => cases h
  | cons f facts ih =>
    obtain ⟨q, o'⟩ := f
    simp only [get?, List.lookup_cons] at h
    split at h
    · rename_i same
      rw [beq_iff_eq] at same
      cases h
      exact same ▸ List.mem_cons_self
    · exact List.mem_cons_of_mem _ (ih h)

theorem Hold.get? {facts : Facts} {d : Json} (h : facts.Hold d) {p : Probe} {o : Outcome}
    (hp : facts.get? p = some o) : p.keyIn? d = some o.key :=
  h _ (mem_of_get? hp)

theorem mem_of_mem_firsts {facts : Facts} {f : Probe × Outcome} (h : f ∈ facts.firsts) :
    f ∈ facts := by
  have grows : ∀ (fs acc : Facts), f ∈ fs.foldl
      (fun acc f => if (acc.get? f.1).isSome then acc else acc ++ [f]) acc →
        f ∈ acc ∨ f ∈ fs := by
    intro fs
    induction fs with
    | nil => intro acc h; exact Or.inl h
    | cons g fs ih =>
      intro acc h
      rcases ih _ h with h | h
      · dsimp only at h
        split_ifs at h
        · exact Or.inl h
        · rcases List.mem_append.mp h with h | h
          · exact Or.inl h
          · rw [List.mem_singleton.mp h]
            exact Or.inr List.mem_cons_self
      · exact Or.inr (List.mem_cons_of_mem _ h)
  rcases grows facts [] h with h | h
  · cases h
  · exact h

variable [Library]

/-- The facts of a node at a path hold of data with an admitted value there, whatever aliases mean.
-/
theorem fold_hold {ρ : Node.Meaning} (n : Node) (path : List String) (d v : Json)
    (hv : d.at? path = some v) (h : n.admitsWith ρ v = true) :
    Hold (n.fold ofConstraint path) d := by
  induction n using Node.inductionOn generalizing path v with
  | step c ih =>
    rw [Node.fold_of]
    rw [Node.admitsWith_of] at h
    cases c with
    | domain dm =>
      simp only [Constraint.map, Node.constraintAdmits, beq_iff_eq] at h
      intro f hf
      simp only [Constraint.map, ofConstraint, List.mem_singleton] at hf
      simp [hf, Probe.keyIn?, hv, Aspect.keyOf, Outcome.key, h]
    | literal l =>
      simp only [Constraint.map, Node.constraintAdmits] at h
      intro f hf
      simp only [Constraint.map, ofConstraint, List.mem_cons, List.not_mem_nil, or_false] at hf
      rcases hf with rfl | rfl
      · simp [Probe.keyIn?, hv, Aspect.keyOf, Outcome.key, Literal.domain_of_isMatch h]
      · simp [Probe.keyIn?, hv, Outcome.key, (Literal.isMatch_iff_keyOf l v).mp h]
    | basis b =>
      simp only [Constraint.map, Node.constraintAdmits] at h
      intro f hf
      simp only [Constraint.map, ofConstraint, List.mem_singleton] at hf
      have domain : Domain.of v = b.domain := by
        cases b <;> cases v <;> simp_all [Basis.allows, Domain.of, Basis.domain]
      simp [hf, Probe.keyIn?, hv, Aspect.keyOf, Outcome.key, domain]
    | intersection children =>
      simp only [Constraint.map, Node.constraintAdmits, List.all_map, List.all_eq_true] at h
      intro f hf
      simp only [Constraint.map, ofConstraint, List.flatMap_map, List.mem_flatMap] at hf
      obtain ⟨m, hm, hf⟩ := hf
      exact ih m hm path v hv (h m hm) f hf
    | morph input steps =>
      simp only [Constraint.map, Node.constraintAdmits] at h
      exact ih input (by simp [Constraint.children]) path v hv h
    | props p =>
      simp only [Constraint.map, Node.constraintAdmits, Props.admits, Bool.and_eq_true] at h
      have required := List.all_eq_true.mp h.1.1.1
      intro f hf
      simp only [Constraint.map, ofConstraint, Props.map, List.flatMap_map, List.mem_flatMap] at hf
      obtain ⟨⟨key, m⟩, hm, hf⟩ := hf
      have here := required (key, m.admitsWith ρ) (List.mem_map.mpr ⟨(key, m), hm, rfl⟩)
      cases hw : v.get? key with
      | none => simp [hw] at here
      | some w =>
        simp only [hw, Option.map_some, Option.getD_some] at here
        refine ih m (Props.mem_values_of_required hm) (path ++ [key]) w ?_ here f hf
        rw [Json.at?_append, hv]
        simp [Json.at?, hw]
    | _ => intro f hf; simp [Constraint.map, ofConstraint] at hf

theorem ofNode_hold {ρ : Node.Meaning} {n : Node} {d : Json} (h : n.admitsWith ρ d = true) :
    Hold (ofNode n) d := by
  intro f hf
  exact fold_hold n [] d d rfl h f (mem_of_mem_firsts hf)

end Facts

namespace DecisionTree

mutual

/-- The branches that a tree leads a value to; none if it meets an unknown outcome. -/
def select (d : Json) : DecisionTree → Option (List Nat)
  | .sequential indices => some indices
  | .switch probe cases => (probe.keyIn? d).bind fun key => selectCase d key cases

def selectCase (d : Json) (key : String) : List (Outcome × DecisionTree) → Option (List Nat)
  | [] => none
  | (o, tree) :: r => if o.key = key then select d tree else selectCase d key r

end

theorem selectCase_map {α : Type} (d : Json) (key : String) (tree : α → DecisionTree)
    (gs : List (Outcome × α)) :
    selectCase d key (gs.map fun (o, a) => (o, tree a)) =
      (gs.find? (·.1.key = key)).bind fun g => select d (tree g.2) := by
  induction gs with
  | nil => rfl
  | cons g gs ih =>
    obtain ⟨o, a⟩ := g
    simp only [List.map_cons, selectCase, List.find?_cons]
    by_cases h : o.key = key
    · simp [h]
    · simp [h, ih]

/-- The branches that are grouped under an outcome with the key. -/
def members (gs : List (Outcome × List Nat)) (key : String) : List Nat :=
  ((gs.find? (·.1.key = key)).map (·.2)).getD []

theorem members_addTo (gs : List (Outcome × List Nat)) (o : Outcome) (i : Nat) (key : String) :
    members (addTo gs o i) key = if o.key = key then members gs key ++ [i] else members gs key := by
  induction gs with
  | nil =>
    by_cases h : o.key = key
    · simp [addTo, members, h]
    · simp [addTo, members, h]
  | cons g gs ih =>
    obtain ⟨q, is⟩ := g
    simp only [members] at ih
    by_cases hq : q.key = o.key
    · by_cases h : o.key = key
      · simp [addTo, members, hq, h]
      · simp [addTo, members, hq, h]
    · by_cases h : q.key = key
      · have other : ¬o.key = key := fun ho => hq (h.trans ho.symm)
        simp [addTo, members, h, other, Ne.symm other]
      · simp [addTo, members, hq, h, ih]

theorem members_foldl (facts : List Facts) (p : Probe) (indices : List Nat)
    (gs : List (Outcome × List Nat)) (key : String) :
    members (indices.foldl (fun gs i =>
      match (factsAt facts i).get? p with
      | some o => addTo gs o i
      | none => gs) gs) key =
    members gs key ++ indices.filter fun i => ((factsAt facts i).get? p).map (·.key) =
      some key := by
  induction indices generalizing gs with
  | nil => simp
  | cons i indices ih =>
    rw [List.foldl_cons, ih]
    cases hi : (factsAt facts i).get? p with
    | none => simp [hi]
    | some o =>
      by_cases hk : o.key = key
      · simp [hi, members_addTo, hk]
      · simp [hi, members_addTo, hk]

/-- Exactly the branches with an outcome of the key are grouped under it, in order. -/
theorem members_groups (facts : List Facts) (p : Probe) (indices : List Nat) (key : String) :
    members (groups facts p indices) key =
      indices.filter fun i => ((factsAt facts i).get? p).map (·.key) = some key := by
  exact (members_foldl facts p indices [] key).trans (List.nil_append _)

theorem mem_members_groups (facts : List Facts) (p : Probe) (indices : List Nat) (key : String)
    (i : Nat) : i ∈ members (groups facts p indices) key ↔
      i ∈ indices ∧ ∃ o, (factsAt facts i).get? p = some o ∧ o.key = key := by
  simp [members_groups]

theorem outcomes_isSome {facts : List Facts} {p : Probe} {indices : List Nat}
    (h : (outcomes? facts p indices).isSome = true) {i : Nat} (hi : i ∈ indices) :
    ∃ o, (factsAt facts i).get? p = some o := by
  induction indices with
  | nil => cases hi
  | cons j r ih =>
    simp only [outcomes?] at h
    cases hj : (factsAt facts j).get? p with
    | none => simp [hj] at h
    | some o =>
      simp only [hj, Option.bind_some, Option.isSome_map] at h
      rcases List.mem_cons.mp hi with rfl | hi
      · exact ⟨o, hj⟩
      · exact ih h hi

/-- A probe that splits branches: it was not used yet, is known for all of them, and tells some of
them apart. -/
structure Splits (facts : List Facts) (used : List Probe) (indices : List Nat) (p : Probe) :
    Prop where
  fresh : p ∉ used
  apart : ∃ outcomes, outcomes? facts p indices = some outcomes ∧ 2 ≤ distinctKeys outcomes

theorem better_cases (best : Option (Probe × Nat)) (p : Probe) (distinct : Nat) :
    better best p distinct = best ∨ better best p distinct = some (p, distinct) := by
  unfold better
  split
  · exact .inr rfl
  · split_ifs
    · exact .inr rfl
    · exact .inl rfl

theorem consider_cases (facts : List Facts) (indices : List Nat) (used : List Probe)
    (best : Option (Probe × Nat)) (p : Probe) : consider facts indices used best p = best ∨
      Splits facts used indices p ∧ ∃ n, consider facts indices used best p = some (p, n) := by
  unfold consider
  split_ifs with old
  · exact .inl rfl
  · split
    · exact .inl rfl
    · rename_i outcomes known
      dsimp only
      split_ifs with few
      · exact .inl rfl
      · rcases better_cases best p (distinctKeys outcomes) with kept | taken
        · exact .inl kept
        · exact .inr ⟨⟨by simpa using old, outcomes, known, Nat.le_of_not_lt few⟩,
            _, taken⟩

theorem bestProbe_splits {facts : List Facts} {indices : List Nat} {used : List Probe} {p : Probe}
    (h : bestProbe? facts indices used = some p) : Splits facts used indices p := by
  have considered (probes : List Probe) (best : Option (Probe × Nat))
      (splits : ∀ b ∈ best, Splits facts used indices b.1) :
      ∀ b ∈ probes.foldl (consider facts indices used) best, Splits facts used indices b.1 := by
    induction probes generalizing best with
    | nil => exact splits
    | cons q probes ih =>
      apply ih
      rcases consider_cases facts indices used best q with kept | ⟨parts, n, taken⟩
      · rw [kept]
        exact splits
      · rw [taken]
        rintro _ ⟨⟩
        exact parts
  rw [bestProbe?, Option.map_eq_some_iff] at h
  obtain ⟨b, found, rfl⟩ := h
  exact considered _ none nofun b found

theorem bestProbe_known {facts : List Facts} {indices : List Nat} {used : List Probe} {p : Probe}
    (h : bestProbe? facts indices used = some p) : (outcomes? facts p indices).isSome = true := by
  obtain ⟨outcomes, known, -⟩ := (bestProbe_splits h).apart
  rw [known]
  rfl

/-- A tree leads a value to every branch whose facts hold of it. -/
theorem select_build {facts : List Facts} {d : Json} {i : Nat} (hold : (factsAt facts i).Hold d)
    (used : List Probe) (depth : Nat) {indices : List Nat} (hi : i ∈ indices) :
    ∃ chosen, (build facts used depth indices).select d = some chosen ∧ i ∈ chosen := by
  induction depth generalizing used indices with
  | zero => exact ⟨indices, rfl, hi⟩
  | succ depth ih =>
    rw [build]
    split_ifs
    · exact ⟨indices, rfl, hi⟩
    · split
      · exact ⟨indices, rfl, hi⟩
      · rename_i p best
        obtain ⟨o, ho⟩ := outcomes_isSome (bestProbe_known best) hi
        have grouped : i ∈ members (groups facts p indices) o.key :=
          (mem_members_groups facts p indices o.key i).mpr ⟨hi, o, ho, rfl⟩
        rw [select, hold.get? ho, Option.bind_some, selectCase_map]
        simp only [members] at grouped
        cases found : (groups facts p indices).find? (·.1.key = o.key) with
        | none => simp [found] at grouped
        | some g =>
          simp only [found, Option.map_some, Option.getD_some] at grouped
          exact ih _ grouped

/-- A tree leads to its own branches only, and keeps their order. -/
theorem sublist_of_select_build {facts : List Facts} {d : Json} (used : List Probe) (depth : Nat)
    {indices chosen : List Nat} (h : (build facts used depth indices).select d = some chosen) :
    chosen.Sublist indices := by
  induction depth generalizing used indices with
  | zero =>
    cases h
    exact .refl _
  | succ depth ih =>
    rw [build] at h
    split_ifs at h
    · cases h
      exact .refl _
    · split at h
      · cases h
        exact .refl _
      · rename_i p best
        rw [select, Option.bind_eq_some_iff] at h
        obtain ⟨key, -, h⟩ := h
        rw [selectCase_map, Option.bind_eq_some_iff] at h
        obtain ⟨g, found, h⟩ := h
        have group : g.2 = members (groups facts p indices) key := by
          simp only [members, found, Option.map_some, Option.getD_some]
        rw [group, members_groups] at h
        exact (ih _ h).trans List.filter_sublist

theorem factsAt_map (branches : List Node) {i : Nat} {n : Node} (h : branches[i]? = some n) :
    factsAt (branches.map Facts.ofNode) i = Facts.ofNode n := by
  simp [factsAt, h]

theorem select_of_hold {branches : List Node} {d : Json} {i : Nat} {n : Node}
    (h : branches[i]? = some n) (hold : (Facts.ofNode n).Hold d) :
    ∃ chosen, (ofBranches branches).select d = some chosen ∧ i ∈ chosen := by
  apply select_build
  · rw [factsAt_map branches h]
    exact hold
  · exact List.mem_range.mpr (List.getElem?_eq_some_iff.mp h).1

theorem select_ofBranches [Library] {ρ : Node.Meaning} {branches : List Node} {d : Json} {i : Nat}
    {n : Node} (h : branches[i]? = some n) (admitted : n.admitsWith ρ d = true) :
    ∃ chosen, (ofBranches branches).select d = some chosen ∧ i ∈ chosen :=
  select_of_hold h (Facts.ofNode_hold admitted)

end DecisionTree

end SchemaAlgebra

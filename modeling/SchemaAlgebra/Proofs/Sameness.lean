import SchemaAlgebra.Node.Identity
import SchemaAlgebra.Proofs.Nodes

/-!
# Sameness of nodes

Nodes are the same if nothing is left of a difference once limits are brought into
canonical form and names are freed from their scopes. A fold that does not look at what is
erased does not tell such nodes apart.
-/
namespace SchemaAlgebra
namespace Binary64

theorem rank_eq_zero {x : Binary64} (h : x.isZero = true) : x.rank = 0 := by
  have magnitude : x.magnitude = 0 := beq_iff_eq.mp h
  simp [rank, magnitude]

theorem isNaN_of_isFinite {x : Binary64} (h : x.isFinite = true) : x.isNaN = false := by
  simp only [isFinite, isNaN, decide_eq_true_eq, decide_eq_false_iff_not] at h ⊢
  omega

theorem isNaN_of_isZero {x : Binary64} (h : x.isZero = true) : x.isNaN = false := by
  have magnitude : x.magnitude = 0 := beq_iff_eq.mp h
  simp [isNaN, magnitude]

end Binary64

namespace Limit

theorem canonical_canonical (a : Limit) : a.canonical.canonical = a.canonical := by
  have zero_isZero : Binary64.zero.isZero = true := by decide
  have nan_isZero : Binary64.notANumber.isZero ≠ true := by decide
  have nan_isNaN : Binary64.notANumber.isNaN = true := by decide
  by_cases zero : a.value.isZero = true
  · rw [show a.canonical = ⟨.zero, a.exclusive⟩ from if_pos zero]
    exact if_pos zero_isZero
  · by_cases nan : a.value.isNaN = true
    · rw [show a.canonical = ⟨.notANumber, a.exclusive⟩ from (if_neg zero).trans (if_pos nan)]
      exact (if_neg nan_isZero).trans (if_pos nan_isNaN)
    · have same : a.canonical = a := (if_neg zero).trans (if_neg nan)
      rw [same, same]

/-- A limit in canonical form has the same value as a number, if it has one. -/
theorem canonical_value (a : Limit) : a.canonical.value.isNaN = a.value.isNaN ∧
    (a.value.isNaN = false → a.canonical.value.rank = a.value.rank) := by
  have zero_isNaN : Binary64.zero.isNaN = false := by decide
  have zero_rank : Binary64.zero.rank = 0 := by decide
  have nan_isNaN : Binary64.notANumber.isNaN = true := by decide
  rw [canonical]
  split_ifs with zero nan
  · exact ⟨by rw [zero_isNaN, Binary64.isNaN_of_isZero zero], fun _ => by
      rw [zero_rank, Binary64.rank_eq_zero zero]⟩
  · exact ⟨by rw [nan_isNaN, nan], fun number => by rw [nan] at number; cases number⟩
  · exact ⟨rfl, fun _ => rfl⟩

theorem canonical_exclusive (a : Limit) : a.canonical.exclusive = a.exclusive := by
  rw [canonical]
  split_ifs <;> rfl

theorem canonical_of_value {a b : Limit} (value : a.value = b.canonical.value)
    (exclusive : a.exclusive = b.exclusive) : a.canonical = b.canonical := by
  have same : a = b.canonical := calc
    a = ⟨a.value, a.exclusive⟩ := rfl
    _ = ⟨b.canonical.value,
      b.canonical.exclusive⟩ := by rw [value, exclusive, canonical_exclusive]
  rw [same, canonical_canonical]

theorem compare_canonical (a b : Limit) :
    a.canonical.value.compare? b.canonical.value = a.value.compare? b.value := by
  obtain ⟨nan, rank⟩ := a.canonical_value
  obtain ⟨nan', rank'⟩ := b.canonical_value
  unfold Binary64.compare?
  rw [nan, nan']
  split_ifs with either
  · rfl
  · simp only [Bool.or_eq_true, not_or, Bool.not_eq_true] at either
    rw [rank either.1, rank' either.2]

theorem stricter_canonical (o : Ordering) (a b : Limit) :
    (a.canonical.stricter o b.canonical).canonical = (a.stricter o b).canonical := by
  unfold stricter
  rw [compare_canonical]
  split
  · refine canonical_of_value ?_ (by rw [canonical_exclusive, canonical_exclusive])
    simp only [canonical]
    split_ifs <;> rfl
  · split_ifs <;> exact canonical_canonical _
  · exact canonical_canonical _

end Limit

namespace Range

theorem canonical_canonical (r : Range) : r.canonical.canonical = r.canonical := by
  simp only [canonical, Option.map_map, Function.comp_def, Limit.canonical_canonical]

theorem isEmpty_canonical (r : Range) : r.canonical.isEmpty = r.isEmpty := by
  obtain ⟨lower, upper⟩ := r
  cases lower <;> cases upper <;> try rfl
  simp only [isEmpty, canonical, Option.map_some, Limit.compare_canonical,
    Limit.canonical_exclusive]

theorem stricterOf_canonical (o : Ordering) (a b : Option Limit) :
    (stricterOf o (a.map (·.canonical)) (b.map (·.canonical))).map (·.canonical) =
      (stricterOf o a b).map (·.canonical) := by
  cases a <;> cases b <;>
    simp [stricterOf, Limit.canonical_canonical, Limit.stricter_canonical]

theorem intersect_canonical (r s : Range) :
    (r.canonical.intersect? s.canonical).map (·.canonical) = (r.intersect? s).map
      (·.canonical) := by
  have both : (⟨stricterOf .gt r.canonical.lower s.canonical.lower,
      stricterOf .lt r.canonical.upper s.canonical.upper⟩ : Range).canonical =
        (⟨stricterOf .gt r.lower s.lower, stricterOf .lt r.upper s.upper⟩ : Range).canonical :=
    congrArg₂ Range.mk (stricterOf_canonical _ _ _) (stricterOf_canonical _ _ _)
  unfold intersect?
  dsimp only
  rw [← isEmpty_canonical, both, isEmpty_canonical]
  split_ifs
  · rfl
  · exact congrArg some both

theorem allows_canonical (r : Range) (x : Binary64) : r.canonical.allows x = r.allows x := by
  have lt (a : Limit) : x.lt a.canonical.value = x.lt a.value := by
    obtain ⟨nan, rank⟩ := a.canonical_value
    unfold Binary64.lt
    rw [nan]
    cases h : a.value.isNaN with
    | true => simp
    | false => rw [rank h]
  have gt (a : Limit) : a.canonical.value.lt x = a.value.lt x := by
    obtain ⟨nan, rank⟩ := a.canonical_value
    unfold Binary64.lt
    rw [nan]
    cases h : a.value.isNaN with
    | true => simp
    | false => rw [rank h]
  have eq (a : Limit) : x.eq a.canonical.value = x.eq a.value := by
    obtain ⟨nan, rank⟩ := a.canonical_value
    unfold Binary64.eq
    rw [nan]
    cases h : a.value.isNaN with
    | true => simp
    | false => rw [rank h]
  obtain ⟨lower, upper⟩ := r
  cases lower <;> cases upper <;>
    simp [allows, canonical, aboveLower, belowUpper, lt, gt, eq, Limit.canonical_exclusive]

end Range

section

variable {α : Type u}

theorem Entries.eq_of_columns {es fs : List (String × α)}
    (heads : es.map (fun (k, _) => (k, ())) = fs.map fun (k, _) => (k, ()))
    (same : es.map (·.2) = fs.map (·.2)) : es = fs := by
  induction es generalizing fs with
  | nil => cases fs <;> simp_all
  | cons e es ih =>
    cases fs with
    | nil => simp at heads
    | cons f fs =>
      simp only [List.map_cons, List.cons.injEq, Prod.mk.injEq, and_true] at heads same
      rw [ih heads.2 same.2, Prod.ext heads.1 same.1]

theorem Signature.eq_of_columns {ss ts : List (Signature α)}
    (same : ss.flatMap (fun s => [s.key, s.value]) = ts.flatMap fun s => [s.key, s.value]) :
    ss = ts := by
  induction ss generalizing ts with
  | nil => cases ts <;> simp_all
  | cons s ss ih =>
    cases ts with
    | nil => simp at same
    | cons t ts =>
      obtain ⟨key, value⟩ := s
      obtain ⟨key', value'⟩ := t
      simp only [List.flatMap_cons, List.cons_append, List.nil_append, List.cons.injEq] at same
      rw [ih same.2.2, same.1, same.2.1]

end

namespace Constraint

variable {α : Type u} {β : Type v}

theorem erased_map (f : α → β) (c : Constraint α) : (c.map f).erased = c.erased.map f := by
  cases c <;> rfl

theorem erased_erased (c : Constraint α) : c.erased.erased = c.erased := by
  cases c with
  | bound r => simp only [erased, Range.canonical_canonical]
  | morph input steps => simp [erased, Step.nominal, Step.name]
  | _ => rfl

theorem children_erased (c : Constraint α) : c.erased.children = c.children := by
  cases c <;> rfl

theorem head_map (f : α → β) (c : Constraint α) : (c.map f).head = c.head := by
  rw [head, head, erased_map, map_map]

theorem head_erased (c : Constraint α) : c.erased.head = c.head := by
  rw [head, head, erased_erased]

/-- The lists that the values of a property set are put together from. -/
theorem eq_of_values {p q : Props α} (head : p.map (fun _ => ()) = q.map fun _ => ())
    (values : p.values = q.values) : p = q := by
  obtain ⟨required, optional, index, sequence⟩ := p
  obtain ⟨required', optional', index', sequence'⟩ := q
  simp only [Props.map, Props.mk.injEq] at head
  obtain ⟨keys, optionals, signatures, items⟩ := head
  have length_required : required.length = required'.length := by
    simpa using congrArg List.length keys
  have length_optional : optional.length = optional'.length := by
    simpa using congrArg List.length optionals
  have length_index : index.length = index'.length := by
    simpa using congrArg List.length signatures
  simp only [Props.values, Entries.values] at values
  obtain ⟨named, rest⟩ :=
    List.append_inj values (by simp [length_required, length_optional, length_index])
  obtain ⟨named, same_index⟩ :=
    List.append_inj named (by simp [length_required, length_optional])
  obtain ⟨same_required, same_optional⟩ := List.append_inj named (by simp [length_required])
  rw [Entries.eq_of_columns keys same_required, Entries.eq_of_columns optionals same_optional,
    Signature.eq_of_columns same_index]
  congr 1
  cases sequence with
  | none =>
    cases sequence' with
    | none => rfl
    | some t => cases items
  | some s =>
    cases sequence' with
    | none => cases items
    | some t =>
      obtain ⟨xs, x⟩ := s
      obtain ⟨ys, y⟩ := t
      simp only [Option.map_some, Sequence.map, Option.some.injEq, Sequence.mk.injEq] at items
      simp only [Option.map_some, Option.getD_some, Sequence.values] at rest
      obtain ⟨same_items, same_rest⟩ :=
        List.append_inj rest (by simpa using congrArg List.length items.1)
      have rests : x = y := by cases x <;> cases y <;> cases same_rest <;> rfl
      rw [same_items, rests]

/-- A constraint is known, up to what is erased, by its head and its children. -/
theorem erased_eq_of_head {c e : Constraint α} (head : c.head = e.head)
    (children : c.children = e.children) : c.erased = e.erased := by
  cases c <;> cases e <;>
    simp_all only [Constraint.head, erased, map, Constraint.children, reduceCtorEq, props.injEq,
      union.injEq, intersection.injEq, morph.injEq, List.cons.injEq, bound.injEq, domain.injEq,
      literal.injEq, basis.injEq, divisor.injEq, patterns.injEq, brand.injEq, deferred.injEq]
  exact eq_of_values head children

end Constraint

namespace Node

/-- The node with limits in canonical form and names that refer to nothing. -/
def erase : Node → Node := fold fun c => of c.erased

theorem erase_of (c : Constraint Node) : (of c).erase = of (c.erased.map erase) := by
  rw [erase, fold_of, ← erase, Constraint.erased_map]

theorem erase_constraint (n : Node) : n.erase.constraint = n.constraint.erased.map erase := by
  obtain ⟨c⟩ := n
  rw [erase_of]
  rfl

theorem fold_erase {β : Type u} {f : Constraint β → β} (blind : ∀ c, f c.erased = f c)
    (n : Node) : fold f n.erase = fold f n := by
  induction n using inductionOn with
  | step c ih =>
    rw [erase_of, fold_of, fold_of, Constraint.map_map, ← blind (c.map (fold f)),
      Constraint.erased_map]
    congr 1
    refine Constraint.map_congr fun m hm => ih m ?_
    rwa [Constraint.children_erased] at hm

theorem erase_erase (n : Node) : n.erase.erase = n.erase :=
  fold_erase (fun c => by rw [Constraint.erased_erased]) n

theorem zipAll_map {α : Type u} {β : Type v} (f : α → β → Bool) (as : List α)
    (bs : List β) :
    zipAll (as.map f) bs = true ↔ List.Forall₂ (fun a b => f a b = true) as bs := by
  induction as generalizing bs with
  | nil => cases bs <;> simp [zipAll]
  | cons a as ih => cases bs <;> simp [zipAll, ih]

theorem sameThroughout_of (c : Constraint Node) (n : Node) :
    (of c).sameThroughout n = true ↔ c.head = n.constraint.head ∧
      List.Forall₂ (fun a b => a.sameThroughout b = true) c.children n.constraint.children := by
  rw [sameThroughout, fold_of, Bool.and_eq_true, decide_eq_true_eq, Constraint.head_map,
    Constraint.children_map, zipAll_map]

theorem sameThroughout_iff (a b : Node) : a.sameThroughout b = true ↔ a.erase = b.erase := by
  induction a using inductionOn generalizing b with
  | step c ih =>
    obtain ⟨e⟩ := b
    rw [sameThroughout_of, erase_of, erase_of]
    constructor
    · rintro ⟨head, children⟩
      have erased : (c.map erase).erased = (e.map erase).erased := by
        refine Constraint.erased_eq_of_head
          (by rw [Constraint.head_map, Constraint.head_map, head]; rfl) ?_
        rw [Constraint.children_map, Constraint.children_map, ← List.forall₂_eq_eq_eq,
          List.forall₂_map_left_iff, List.forall₂_map_right_iff]
        refine (List.forall₂_and_left ..).mpr ⟨fun m hm => hm, children⟩ |>.imp
          fun m k h => ?_
        exact (ih m h.1 k).mp h.2
      rw [← Constraint.erased_map, ← Constraint.erased_map, erased]
    · intro same
      have constraints : c.erased.map erase = e.erased.map erase := by injection same
      refine ⟨?_, ?_⟩
      · have heads := congrArg Constraint.head constraints
        rwa [Constraint.head_map, Constraint.head_map, Constraint.head_erased,
          Constraint.head_erased] at heads
      · have children := congrArg Constraint.children constraints
        rw [Constraint.children_map, Constraint.children_map, Constraint.children_erased,
          Constraint.children_erased, ← List.forall₂_eq_eq_eq, List.forall₂_map_left_iff,
          List.forall₂_map_right_iff] at children
        refine (List.forall₂_and_left ..).mpr ⟨fun m hm => hm, children⟩ |>.imp
          fun m k h => ?_
        exact (ih m h.1 k).mpr h.2

theorem same_iff {a b : Node} : a.same b = true ↔ a.erase = b.erase := by
  rw [same, Bool.and_eq_true, decide_eq_true_eq, sameThroughout_iff]
  refine ⟨And.right, fun h => ⟨?_, h⟩⟩
  have heads := congrArg (fun n => n.constraint.head) h
  simpa only [erase_constraint, Constraint.head_map, Constraint.head_erased] using heads

theorem same_refl (a : Node) : a.same a = true := same_iff.mpr rfl

theorem same_symm {a b : Node} (h : a.same b = true) : b.same a = true :=
  same_iff.mpr (same_iff.mp h).symm

theorem same_trans {a b c : Node} (h : a.same b = true) (h' : b.same c = true) : a.same c = true :=
  same_iff.mpr ((same_iff.mp h).trans (same_iff.mp h'))

theorem same_comm (a b : Node) : a.same b = b.same a :=
  Bool.eq_iff_iff.mpr ⟨same_symm, same_symm⟩

theorem same_congr {a a' b b' : Node} (ha : a.same a' = true) (hb : b.same b' = true) :
    a.same b = a'.same b' := by
  rw [Bool.eq_iff_iff, same_iff, same_iff, same_iff.mp ha, same_iff.mp hb]

theorem fold_congr {β : Type u} {f : Constraint β → β} (blind : ∀ c, f c.erased = f c)
    {a b : Node} (h : a.same b = true) : fold f a = fold f b := by
  rw [← fold_erase blind a, same_iff.mp h, fold_erase blind b]

theorem size_congr {a b : Node} (h : a.same b = true) : a.size = b.size :=
  fold_congr (fun c => by rw [Constraint.children_erased]) h

theorem hasAlias_congr {a b : Node} (h : a.same b = true) : a.hasAlias = b.hasAlias :=
  fold_congr (fun c => by cases c <;> rfl) h

theorem key_congr {a b : Node} (h : a.same b = true) : a.key = b.key := by
  refine fold_congr (fun c => ?_) h
  cases c with
  | bound r =>
    simp only [Constraint.erased, Constraint.map, Constraint.key, Range.canonical_canonical]
  | morph input steps =>
    simp [Constraint.erased, Constraint.map, Constraint.key, Step.nominal, Step.name,
      Function.comp_def]
  | _ => rfl

theorem same_erase (a b : Node) : a.erase.same b.erase = a.same b := by
  rw [Bool.eq_iff_iff, same_iff, same_iff, erase_erase, erase_erase]

theorem erase_same (a : Node) : a.erase.same a = true := same_iff.mpr a.erase_erase

theorem key_erase (a : Node) : a.erase.key = a.key := key_congr a.erase_same

theorem constraint_head_erase (a : Node) : a.erase.constraint.head = a.constraint.head := by
  rw [erase_constraint, Constraint.head_map, Constraint.head_erased]

theorem rank_erase (a : Node) : a.erase.constraint.rank = a.constraint.rank := by
  obtain ⟨c⟩ := a
  cases c <;> rfl

theorem precedes_erase (a b : Node) : a.erase.precedes b.erase = a.precedes b := by
  simp only [precedes, rank_erase, key_erase]

theorem isNever_erase (a : Node) : a.erase.isNever = a.isNever := by
  obtain ⟨c⟩ := a
  cases c <;> simp [isNever, erase_of, constraint, Constraint.erased, Constraint.map]

theorem isMorph_erase (a : Node) : a.erase.isMorph = a.isMorph := by
  obtain ⟨c⟩ := a
  cases c <;> rfl

theorem branches_erase (a : Node) : a.erase.branches = a.branches.map erase := by
  obtain ⟨c⟩ := a
  rw [erase_of]
  cases c <;> simp [branches, constraint, Constraint.erased, Constraint.map, erase_of]

theorem conjuncts_erase (a : Node) : a.erase.conjuncts = a.conjuncts.map erase := by
  obtain ⟨c⟩ := a
  rw [erase_of]
  cases c <;> simp [conjuncts, constraint, Constraint.erased, Constraint.map, erase_of]

/-- What is erased makes no difference to the values admitted without aliases. -/
theorem admits_erase [Library] (n : Node) : n.erase.admits = n.admits := by
  refine fold_erase (fun c => funext fun data => ?_) n
  cases c with
  | bound r =>
    change (data.size?.map r.canonical.allows).getD false = (data.size?.map r.allows).getD false
    cases data.size? with
    | none => rfl
    | some size => exact Range.allows_canonical r size
  | _ => rfl

end Node

end SchemaAlgebra

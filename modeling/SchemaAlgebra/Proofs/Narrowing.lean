import SchemaAlgebra.Proofs.Discrimination
import SchemaAlgebra.Proofs.Meanings
import SchemaAlgebra.Proofs.Multiples

/-!
# Narrower nodes

A node is below another one if every value it admits is admitted by the other. What can be decided
of clear nodes makes intersecting them go down; the values of single constraints are the first case.
-/
namespace SchemaAlgebra

/-- Every object in the value has its entries in order. -/
inductive Json.Ordered : Json → Prop
  | of (d : Json) (sorted : ∀ entries, d = .object entries → Entries.Sorted entries)
    (entries : ∀ entries, d = .object entries → ∀ e ∈ entries, Ordered e.2)
    (items : ∀ items, d = .array items → ∀ x ∈ items, Ordered x) : Ordered d

namespace Json.Ordered

theorem sorted {entries : List (String × Json)} (h : Ordered (.object entries)) :
    Entries.Sorted entries := by
  cases h with
  | of _ sorted => exact sorted entries rfl

theorem entry {entries : List (String × Json)} (h : Ordered (.object entries)) :
    ∀ e ∈ entries, Ordered e.2 := by
  cases h with
  | of _ _ ordered => exact ordered entries rfl

theorem item {items : List Json} (h : Ordered (.array items)) : ∀ x ∈ items, Ordered x := by
  cases h with
  | of _ _ _ ordered => exact ordered items rfl

theorem text (s : String) : Ordered (.string s) := .of _ nofun nofun nofun

theorem single (key : String) {d : Json} (h : d.Ordered) : Ordered (.object [(key, d)]) := by
  refine .of _ (fun es same => ?_) (fun es same => ?_) nofun
  · cases same
    exact List.pairwise_singleton _ _
  · cases same
    exact List.forall_mem_singleton.mpr h

theorem get? {d child : Json} (h : d.Ordered) {key : String} (found : d.get? key = some child) :
    child.Ordered := by
  cases d with
  | object entries => exact h.entry (key, child) (Entries.mem_of_get? found)
  | _ => cases found

theorem get?_of_mem {entries : List (String × Json)} (h : Ordered (.object entries))
    {e : String × Json} (he : e ∈ entries) : Json.get? e.1 (.object entries) = some e.2 :=
  (Entries.get?_eq_some h.sorted).mpr he

end Json.Ordered

namespace Node

variable [Library]

section

variable (σ : String → Json → Bool)

/-- Every value that the first node admits is one of the second, with aliases read by their names.
-/
def Below (n m : Node) : Prop :=
  ∀ d : Json, d.Ordered → n.admitsWith (fun _ => σ) d = true →
    m.admitsWith (fun _ => σ) d = true

def AllAdmit (ns : List Node) (d : Json) : Prop := ∀ n ∈ ns, n.admitsWith (fun _ => σ) d = true

end

variable {σ : String → Json → Bool}

theorem Below.refl (n : Node) : n.Below σ n := fun _ _ => id

theorem Below.trans {n m k : Node} (h : n.Below σ m) (h' : m.Below σ k) : n.Below σ k :=
  fun d ordered admitted => h' d ordered (h d ordered admitted)

theorem admitsWith_congr {a b : Node} (same : a.same b = true) :
    a.admitsWith (fun _ => σ) = b.admitsWith (fun _ => σ) := by
  refine fold_congr (fun c => funext fun d => ?_) same
  cases c with
  | bound r =>
    change (d.size?.map r.canonical.allows).getD false = (d.size?.map r.allows).getD false
    cases d.size? with
    | none => rfl
    | some size => exact Range.allows_canonical r size
  | _ => rfl

theorem below_of_same {a b : Node} (same : a.same b = true) : a.Below σ b :=
  fun _ _ admitted => admitsWith_congr same ▸ admitted

theorem never_below (n : Node) : Node.never.Below σ n := by
  intro d _ admitted
  rw [never, admitsWith_of] at admitted
  cases admitted

theorem admitsWith_eq_admits {n : Node} (hasAlias : n.hasAlias = false) (ρ : Meaning) :
    n.admitsWith ρ = n.admits := by
  induction n using inductionOn with
  | step c ih =>
    have same : c.map (admitsWith ρ) = c.map admits :=
      Constraint.map_congr fun m hm => ih m hm (hasAlias_child hasAlias hm)
    funext d
    rw [admitsWith_of, admits_of, same]
    cases c with
    | deferred name home => cases hasAlias
    | _ => rfl

theorem admitsWith_union {branches : List Node} {d : Json} :
    (of (.union branches)).admitsWith (fun _ => σ) d = true ↔
      ∃ b ∈ branches, b.admitsWith (fun _ => σ) d = true := by
  rw [admitsWith_of]
  simp [Constraint.map, constraintAdmits]

theorem admitsWith_intersection {children : List Node} {d : Json} :
    (of (.intersection children)).admitsWith (fun _ => σ) d = true ↔ AllAdmit σ children d := by
  rw [admitsWith_of]
  simp [Constraint.map, constraintAdmits, AllAdmit]

theorem admitsWith_morph {input : Node} {steps : List Step} {d : Json} :
    (of (.morph input steps)).admitsWith (fun _ => σ) d = input.admitsWith (fun _ => σ) d := by
  rw [admitsWith_of]
  rfl

theorem admitsWith_props {p : Props Node} {d : Json} :
    (of (.props p)).admitsWith (fun _ => σ) d = true ↔ p.Takes (admitsWith fun _ => σ) d := by
  rw [admitsWith_of]
  exact Props.admits_iff p

theorem allAdmit_conjuncts {n : Node} {d : Json} :
    AllAdmit σ n.conjuncts d ↔ n.admitsWith (fun _ => σ) d = true := by
  obtain ⟨c⟩ := n
  cases c with
  | intersection children => exact admitsWith_intersection.symm
  | _ => exact List.forall_mem_singleton

theorem below_of_branch {n b : Node} (hb : b ∈ n.branches) : b.Below σ n := by
  obtain ⟨c⟩ := n
  cases c with
  | union branches => exact fun d _ admitted => admitsWith_union.mpr ⟨b, hb, admitted⟩
  | _ =>
    rw [List.mem_singleton.mp hb]
    exact .refl _

end Node

namespace Constraint

/-- Limits are finite, branches are not unions, and conjuncts are single constraints that agree. -/
def IsFlat : Constraint Node → Prop
  | bound r => r.IsFinite
  | union branches => ∀ b ∈ branches, b.constraint.isUnion = false
  | intersection children =>
    (∀ c ∈ children, c.constraint.isComposite = false) ∧ Node.Agree children
  | _ => True

/-- A divisor divides the given number, every key is named once, no key of a signature depends on an
alias, and the branches of what a morph takes in differ in what they fix. -/
def IsClear (N : Nat) : Constraint Node → Prop
  | divisor n => n ∣ N
  | props p => p.namedKeys.Nodup ∧ ∀ s ∈ p.index, s.key.hasAlias = false
  | morph input _ => input.Discriminated
  | _ => True

instance (N : Nat) : DecidablePred (IsClear N) := fun c =>
  match c with
  | .divisor n => inferInstanceAs (Decidable (n ∣ N))
  | .props p =>
    inferInstanceAs (Decidable (p.namedKeys.Nodup ∧ ∀ s ∈ p.index, s.key.hasAlias = false))
  | .morph input _ => inferInstanceAs (Decidable input.Discriminated)
  | .domain _ | .literal _ | .basis _ | .bound _ | .patterns _ | .brand _ | .deferred _ _
  | .union _ | .intersection _ => inferInstanceAs (Decidable True)

theorem Settled.isFlat {c : Constraint Node} (h : c.Settled) : c.IsFlat := by
  cases c with
  | bound r => exact h
  | union branches => exact h
  | intersection children => exact ⟨h.1, .of_apart h.1 h.2⟩
  | _ => trivial

end Constraint

namespace Node

/-- A node all of whose constraints are flat and clear. -/
inductive Clear (N : Nat) : Node → Prop
  | of (c : Constraint Node) (flat : c.IsFlat) (clear : c.IsClear N)
    (children : ∀ m ∈ c.children, Clear N m) : Clear N (.of c)

variable {N : Nat}

namespace Clear

theorem isFlat {n : Node} (h : n.Clear N) : n.constraint.IsFlat := by
  cases h with
  | of c flat => exact flat

theorem isClear {n : Node} (h : n.Clear N) : n.constraint.IsClear N := by
  cases h with
  | of c _ clear => exact clear

theorem children {c : Constraint Node} (h : Clear N (.of c)) : ∀ m ∈ c.children, m.Clear N := by
  cases h with
  | of c _ _ children => exact children

theorem leaf {c : Constraint Node} (flat : c.IsFlat) (clear : c.IsClear N)
    (leaf : c.children = []) : Clear N (.of c) :=
  .of c flat clear fun _ hm => absurd (leaf ▸ hm) List.not_mem_nil

theorem conjuncts {n : Node} (h : n.Clear N) : ∀ m ∈ n.conjuncts, m.Clear N := by
  obtain ⟨c⟩ := n
  cases c with
  | intersection children => exact h.children
  | _ => exact List.forall_mem_singleton.mpr h

theorem branches {n : Node} (h : n.Clear N) :
    ∀ m ∈ n.branches, m.Clear N ∧ m.constraint.isUnion = false := by
  obtain ⟨c⟩ := n
  cases c with
  | union branches => exact fun m hm => ⟨h.children m hm, h.isFlat m hm⟩
  | _ => exact List.forall_mem_singleton.mpr ⟨h, rfl⟩

theorem isComposite_of_conjunct {n : Node} (h : n.Clear N) (single : n.constraint.isUnion = false)
    (plain : n.isMorph = false) : ∀ m ∈ n.conjuncts, m.constraint.isComposite = false := by
  obtain ⟨c⟩ := n
  cases c with
  | intersection children => exact h.isFlat.1
  | union branches => cases single
  | morph input steps => cases plain
  | _ => exact List.forall_mem_singleton.mpr rfl

theorem agree_conjuncts {n : Node} (h : n.Clear N) (single : n.constraint.isUnion = false)
    (plain : n.isMorph = false) : Agree n.conjuncts := by
  obtain ⟨c⟩ := n
  cases c with
  | intersection children => exact h.isFlat.2
  | union branches => cases single
  | morph input steps => cases plain
  | _ => exact .singleton (not_differs_self rfl)

/-- What a clear node fixes does not exclude itself. -/
theorem not_differs {n : Node} (h : n.Clear N) : ¬n.Differs n := by
  induction h with
  | of c flat clear children ih =>
    rintro ⟨o, ho, p, hp, excludes⟩
    cases c with
    | union branches =>
      obtain ⟨some_branch, left⟩ := mem_marks_union.mp ho
      obtain ⟨b, hb⟩ := List.exists_mem_of_ne_nil branches some_branch
      exact ih b hb ⟨o, left b hb, p, (mem_marks_union.mp hp).2 b hb, excludes⟩
    | intersection nodes =>
      obtain ⟨a, ha, ho⟩ := mem_marks_intersection.mp ho
      obtain ⟨b, hb, hp⟩ := mem_marks_intersection.mp hp
      exact flat.2 a ha b hb ⟨o, ho, p, hp, excludes⟩
    | morph input steps =>
      rw [marks_morph] at ho hp
      exact ih input List.mem_cons_self ⟨o, ho, p, hp, excludes⟩
    | _ => exact not_differs_self rfl ⟨o, ho, p, hp, excludes⟩

theorem of_reduced {n : Node} (reduced : n.Reduced)
    (clear : ∀ m ∈ n.parts, m.constraint.IsClear N) : n.Clear N := by
  induction n using inductionOn with
  | step c ih =>
    rw [parts_of] at clear
    obtain ⟨here, below⟩ := List.forall_mem_cons.mp clear
    refine .of c reduced.settled.isFlat here fun m hm => ih m hm (reduced.children m hm)
      fun k hk => ?_
    exact below k (List.mem_flatMap.mpr ⟨m, hm, hk⟩)

end Clear

variable [Library]

/-- What is made of two nodes: it is clear and below both, and a union only if one of them is. If
anything is left, it fixes what they fix. -/
structure Meets (N : Nat) (σ : String → Json → Bool) (l r n : Node) : Prop where
  clear : n.Clear N
  left : n.Below σ l
  right : n.Below σ r
  single : l.constraint.isUnion = false → r.constraint.isUnion = false →
    n.constraint.isUnion = false
  marks : n.isNever = false → l.marks ⊆ n.marks ∧ r.marks ⊆ n.marks
  discriminated : l.Discriminated → r.Discriminated → n.Discriminated

namespace Meets

variable {σ : String → Json → Bool} {l r n : Node}

theorem symm (h : Meets N σ l r n) : Meets N σ r l n :=
  ⟨h.clear, h.right, h.left, fun right left => h.single left right,
    fun some_value => (h.marks some_value).symm, fun right left => h.discriminated left right⟩

theorem of_below (clear : l.Clear N) (below : l.Below σ r) (marks : r.marks ⊆ l.marks) :
    Meets N σ l r l :=
  ⟨clear, .refl l, below, fun single _ => single, fun _ => ⟨List.Subset.refl _, marks⟩,
    fun discriminated _ => discriminated⟩

theorem of_single (clear : n.Clear N) (left : n.Below σ l) (right : n.Below σ r)
    (single : n.constraint.isUnion = false) (marks : l.marks ⊆ n.marks ∧ r.marks ⊆ n.marks) :
    Meets N σ l r n :=
  ⟨clear, left, right, fun _ _ => single, fun _ => marks, fun _ _ => .of_single single⟩

end Meets

end Node

namespace Range

/-- Above a finite limit is every greater number, and the limit itself if it is not exclusive. -/
theorem aboveLower_iff {a : Limit} (finite : a.value.isFinite = true) (x : Binary64) :
    aboveLower x (some a) = true ↔
    x.isNaN = true ∨ a.value.rank < x.rank ∨
      (a.value.rank = x.rank ∧ a.exclusive = false) := by
  simp only [aboveLower, Binary64.lt, Binary64.eq, Binary64.isNaN_of_isFinite finite]
  cases x.isNaN <;> cases a.exclusive <;> simp <;> omega

theorem belowUpper_iff {a : Limit} (finite : a.value.isFinite = true) (x : Binary64) :
    belowUpper x (some a) = true ↔
    x.isNaN = true ∨ x.rank < a.value.rank ∨
      (a.value.rank = x.rank ∧ a.exclusive = false) := by
  simp only [belowUpper, Binary64.lt, Binary64.eq, Binary64.isNaN_of_isFinite finite]
  cases x.isNaN <;> cases a.exclusive <;> simp <;> omega

end Range

/-- The stricter of two finite limits is one of them, or has the value of both. -/
theorem Limit.stricter_eq {a b : Limit} (ha : a.value.isFinite = true)
    (hb : b.value.isFinite = true) (direction : Ordering) :
      (a.value.rank = b.value.rank ∧
        a.stricter direction b = ⟨a.value, a.exclusive || b.exclusive⟩) ∨
      (compare a.value.rank b.value.rank = direction ∧ a.stricter direction b = a) ∨
        (compare a.value.rank b.value.rank ≠ direction ∧ a.value.rank ≠ b.value.rank ∧
          a.stricter direction b = b) := by
  simp only [stricter, Binary64.compare?, Binary64.isNaN_of_isFinite ha,
    Binary64.isNaN_of_isFinite hb, Bool.or_self, Bool.false_eq_true, if_false]
  rcases lt_trichotomy a.value.rank b.value.rank with less | same | more
  · rw [compare_lt_iff_lt.mpr less]
    by_cases toward : Ordering.lt = direction
    · simp [toward]
    · simp [toward, less.ne]
  · rw [compare_eq_iff_eq.mpr same]
    exact .inl ⟨same, rfl⟩
  · rw [compare_gt_iff_gt.mpr more]
    by_cases toward : Ordering.gt = direction
    · simp [toward]
    · simp [toward, more.ne']

namespace Range

section

variable {a b : Option Limit} (ha : ∀ x ∈ a, x.value.isFinite = true)
  (hb : ∀ x ∈ b, x.value.isFinite = true) {x : Binary64}
include ha hb

theorem aboveLower_stricter (h : aboveLower x (stricterOf .gt a b) = true) :
    aboveLower x a = true ∧ aboveLower x b = true := by
  cases a with
  | none => exact ⟨rfl, h⟩
  | some a =>
    cases b with
    | none => exact ⟨h, rfl⟩
    | some b =>
      have fa := ha a rfl
      have fb := hb b rfl
      rw [aboveLower_iff fa, aboveLower_iff fb]
      rw [stricterOf] at h
      rcases Limit.stricter_eq fa fb .gt with ⟨same, stricter⟩ | ⟨more, stricter⟩ | ⟨less,
        different, stricter⟩
      · rw [stricter, aboveLower_iff (a := ⟨a.value, a.exclusive || b.exclusive⟩) fa,
          Bool.or_eq_false_iff] at h
        grind
      · rw [stricter, aboveLower_iff fa] at h
        rw [compare_gt_iff_gt] at more
        grind
      · rw [stricter, aboveLower_iff fb] at h
        rw [ne_eq, compare_gt_iff_gt] at less
        grind

theorem belowUpper_stricter (h : belowUpper x (stricterOf .lt a b) = true) :
    belowUpper x a = true ∧ belowUpper x b = true := by
  cases a with
  | none => exact ⟨rfl, h⟩
  | some a =>
    cases b with
    | none => exact ⟨h, rfl⟩
    | some b =>
      have fa := ha a rfl
      have fb := hb b rfl
      rw [belowUpper_iff fa, belowUpper_iff fb]
      rw [stricterOf] at h
      rcases Limit.stricter_eq fa fb .lt with ⟨same, stricter⟩ | ⟨less, stricter⟩ | ⟨more,
        different, stricter⟩
      · rw [stricter, belowUpper_iff (a := ⟨a.value, a.exclusive || b.exclusive⟩) fa,
          Bool.or_eq_false_iff] at h
        grind
      · rw [stricter, belowUpper_iff fa] at h
        rw [compare_lt_iff_lt] at less
        grind
      · rw [stricter, belowUpper_iff fb] at h
        rw [ne_eq, compare_lt_iff_lt] at more
        grind

end

/-- What lies in the intersection of finite ranges lies in both. -/
theorem allows_of_intersect {r s both : Range} (hr : r.IsFinite) (hs : s.IsFinite)
    (h : r.intersect? s = some both) {x : Binary64} (allowed : both.allows x = true) :
    r.allows x = true ∧ s.allows x = true := by
  rw [intersect?] at h
  split_ifs at h
  cases h
  simp only [allows, Bool.and_eq_true] at allowed ⊢
  have lower := aboveLower_stricter hr.1 hs.1 allowed.1
  have upper := belowUpper_stricter hr.2 hs.2 allowed.2
  exact ⟨⟨lower.1, upper.1⟩, lower.2, upper.2⟩

end Range

namespace Binary64

theorem allows_of_eq {x y : Binary64} (h : x.eq y = true) (r : Range) :
    r.allows x = r.allows y := by
  have ranks := rank_of_eq h
  have numbers : x.isNaN = y.isNaN := by
    simp only [eq, Bool.and_eq_true, Bool.not_eq_true'] at h
    rw [h.1.1, h.1.2]
  simp only [Range.allows]
  congr 1
  · cases r.lower <;> simp [Range.aboveLower, lt, eq, ranks, numbers]
  · cases r.upper <;> simp [Range.belowUpper, lt, eq, ranks, numbers]

theorem isMultipleOf_of_eq {x y : Binary64} (h : x.eq y = true) (k : Binary64) :
    x.isMultipleOf k = y.isMultipleOf k := by
  have magnitudes := magnitude_of_eq h
  have fractions : x.fraction = y.fraction := by
    simp only [fraction, exponent, significand, magnitudes]
  rw [isMultipleOf, isMultipleOf, fractions]

end Binary64

variable [Library]

theorem Basis.allows_of_isMatch {b : Basis} {x : Literal} (allows : b.allowsLiteral x = true)
    {d : Json} (h : x.isMatch d = true) : b.allows d = true := by
  cases b <;> cases x <;> first | cases allows | skip
  cases d <;> first | cases h | skip
  rw [Literal.isMatch, beq_iff_eq] at h
  subst h
  exact allows

namespace Node

variable {N : Nat} {σ : String → Json → Bool}

/-- What a literal satisfies is satisfied by every value that matches it. -/
theorem admits_of_refinementAdmits {c : Constraint Node} {x : Literal}
    (admits : c.refinementAdmits x = true) {d : Json} (h : x.isMatch d = true) :
    (of c).admitsWith (fun _ => σ) d = true := by
  rw [admitsWith_of]
  cases c with
  | bound r =>
    change (d.size?.map r.allows).getD false = true
    simp only [Constraint.refinementAdmits] at admits
    cases x <;> first | cases admits | skip
    · cases d <;> first | cases h | skip
      exact (Binary64.allows_of_eq h r).symm.trans admits
    · cases d <;> first | cases h | skip
      rw [Literal.isMatch, beq_iff_eq] at h
      subst h
      exact admits
  | divisor n =>
    change d.isMultipleOf n = true
    cases x <;> first | cases admits | skip
    cases d <;> first | cases h | skip
    exact (Binary64.isMultipleOf_of_eq h _).symm.trans admits
  | patterns ps =>
    change d.matchesAll ps = true
    cases x <;> first | cases admits | skip
    cases d <;> first | cases h | skip
    rw [Literal.isMatch, beq_iff_eq] at h
    subst h
    exact admits
  | _ => cases admits

end Node

end SchemaAlgebra

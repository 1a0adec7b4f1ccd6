import SchemaAlgebra.Decision
import SchemaAlgebra.Proofs.EitherOrder

/-!
# Unions with different branches

A conjunct fixes the domain of all values, and a literal the value itself. Intersecting takes
nothing away from what a node fixes, so branches that fix different outcomes stay different.
-/
namespace SchemaAlgebra

/-- Different domains, or different literals. -/
def Outcome.Excludes : Outcome → Outcome → Prop
  | .domain d, .domain e => d ≠ e
  | .unit l, .unit m => l ≠ m
  | .domain _, .unit _ => False
  | .unit _, .domain _ => False

instance : DecidableRel Outcome.Excludes := fun o p =>
  match o, p with
  | .domain d, .domain e => inferInstanceAs (Decidable (d ≠ e))
  | .unit l, .unit m => inferInstanceAs (Decidable (l ≠ m))
  | .domain _, .unit _ => inferInstanceAs (Decidable False)
  | .unit _, .domain _ => inferInstanceAs (Decidable False)

theorem Outcome.Excludes.symm {o p : Outcome} (h : o.Excludes p) : p.Excludes o := by
  cases o <;> cases p <;> first | exact Ne.symm h | exact h

/-- The outcomes that a constraint fixes for its values. -/
def Constraint.marks : Constraint (List Outcome) → List Outcome
  | domain d => [.domain d]
  | literal l => [.domain l.domain, .unit l]
  | basis b => [.domain b.domain]
  | morph input _ => input
  | union (b :: r) => b.filter fun o => r.all fun c => c.contains o
  | intersection children => children.flatten
  | _ => []

namespace Node

/-- The outcomes that a node fixes: those that all of its branches fix, and any of its conjuncts. -/
def marks : Node → List Outcome := fold Constraint.marks

theorem marks_of (c : Constraint Node) : (of c).marks = (c.map marks).marks := fold_of _ c

theorem marks_congr {a b : Node} (same : a.same b = true) : a.marks = b.marks :=
  fold_congr (fun c => by cases c <;> rfl) same

theorem mem_marks_union {branches : List Node} {o : Outcome} :
    o ∈ (of (.union branches)).marks ↔
      branches ≠ [] ∧ ∀ b ∈ branches, o ∈ b.marks := by
  rw [marks_of]
  cases branches with
  | nil => simp [Constraint.map, Constraint.marks]
  | cons b r => simp [Constraint.map, Constraint.marks]

theorem mem_marks_intersection {children : List Node} {o : Outcome} :
    o ∈ (of (.intersection children)).marks ↔ ∃ c ∈ children, o ∈ c.marks := by
  rw [marks_of]
  simp [Constraint.map, Constraint.marks]

theorem mem_marks_conjuncts {n : Node} {o : Outcome} :
    o ∈ n.marks ↔ ∃ c ∈ n.conjuncts, o ∈ c.marks := by
  obtain ⟨c⟩ := n
  cases c with
  | intersection children => exact mem_marks_intersection
  | _ => simp [conjuncts, constraint]

theorem marks_morph {input : Node} {steps : List Step} :
    (of (.morph input steps)).marks = input.marks := marks_of _

theorem mem_marks_of_branch {n b : Node} (hb : b ∈ n.branches) {o : Outcome}
    (ho : o ∈ n.marks) : o ∈ b.marks := by
  obtain ⟨c⟩ := n
  cases c with
  | union branches => exact (mem_marks_union.mp ho).2 b hb
  | _ =>
    rw [List.mem_singleton.mp hb]
    exact ho

theorem mem_marks_of_branches {n : Node} (some_branch : n.branches ≠ []) {o : Outcome}
    (ho : ∀ b ∈ n.branches, o ∈ b.marks) : o ∈ n.marks := by
  obtain ⟨c⟩ := n
  cases c with
  | union branches => exact mem_marks_union.mpr ⟨some_branch, ho⟩
  | _ => exact ho _ (List.mem_singleton_self _)

/-- The nodes fix outcomes that exclude each other. -/
def Differs (a b : Node) : Prop := ∃ o ∈ a.marks, ∃ p ∈ b.marks, o.Excludes p

instance : DecidableRel Differs := fun a b =>
  inferInstanceAs (Decidable (∃ o ∈ a.marks, ∃ p ∈ b.marks, o.Excludes p))

theorem Differs.symm {a b : Node} (h : a.Differs b) : b.Differs a := by
  obtain ⟨o, ho, p, hp, excludes⟩ := h
  exact ⟨p, hp, o, ho, excludes.symm⟩

theorem not_differs_of_marks_left {a b : Node} (free : a.marks = []) : ¬a.Differs b := by
  rintro ⟨o, ho, -⟩
  rw [free] at ho
  cases ho

theorem not_differs_of_marks_right {a b : Node} (free : b.marks = []) : ¬a.Differs b :=
  fun h => not_differs_of_marks_left free h.symm

theorem Differs.mono {a b a' b' : Node} (h : a.Differs b) (left : a.marks ⊆ a'.marks)
    (right : b.marks ⊆ b'.marks) : a'.Differs b' := by
  obtain ⟨o, ho, p, hp, excludes⟩ := h
  exact ⟨o, left ho, p, right hp, excludes⟩

theorem differs_congr {a b a' b' : Node} (left : a.same a' = true) (right : b.same b' = true) :
    a.Differs b ↔ a'.Differs b' := by
  rw [Differs, Differs, marks_congr left, marks_congr right]

/-- There are branches, and any two of them differ. -/
def Discriminated (n : Node) : Prop := n.isNever = false ∧ n.branches.Pairwise Differs

instance : DecidablePred Discriminated := fun n =>
  inferInstanceAs (Decidable (n.isNever = false ∧ n.branches.Pairwise Differs))

example : (of (.union [of (.domain .string), of (.domain .number)])).Discriminated := by
  decide +kernel

theorem isUnion_of_isComposite {n : Node} (single : n.constraint.isComposite = false) :
    n.constraint.isUnion = false := by
  obtain ⟨c⟩ := n
  cases c <;> first | rfl | cases single

theorem isNever_of_single {n : Node} (single : n.constraint.isUnion = false) :
    n.isNever = false := by
  obtain ⟨c⟩ := n
  cases c <;> first | rfl | cases single

theorem isNever_congr {a b : Node} (same : a.same b = true) : a.isNever = b.isNever := by
  rw [← isNever_erase, same_iff.mp same, isNever_erase]

theorem Discriminated.of_single {n : Node} (single : n.constraint.isUnion = false) :
    n.Discriminated := by
  refine ⟨isNever_of_single single, ?_⟩
  obtain ⟨c⟩ := n
  cases c with
  | union branches => cases single
  | _ => exact List.pairwise_singleton _ _

theorem discriminated_erase (n : Node) : n.erase.Discriminated ↔ n.Discriminated := by
  have differs (a b : Node) : a.erase.Differs b.erase ↔ a.Differs b :=
    differs_congr a.erase_same b.erase_same
  simp only [Discriminated, isNever_erase, branches_erase, List.pairwise_map, differs]

end Node

theorem Constraint.fixedDomain?_of_isNominal {c : Constraint Node} (nominal : c.isNominal = true) :
    c.fixedDomain? = none := by
  cases c <;> first | rfl | cases nominal

namespace Node

/-- Single constraints that fix no domain fix nothing. -/
theorem marks_of_fixedDomain?_eq_none {n : Node} (single : n.constraint.isComposite = false)
    (free : n.constraint.fixedDomain? = none) : n.marks = [] := by
  obtain ⟨c⟩ := n
  rw [marks_of]
  cases c with
  | domain d => cases free
  | literal l => cases free
  | basis b => cases free
  | morph input steps => cases single
  | union branches => cases single
  | intersection children => cases single
  | _ => rfl

theorem exists_fixedDomain {n : Node} (single : n.constraint.isComposite = false) {o : Outcome}
    (ho : o ∈ n.marks) : ∃ d, n.constraint.fixedDomain? = some d := by
  refine Option.ne_none_iff_exists'.mp fun free => ?_
  rw [marks_of_fixedDomain?_eq_none single free] at ho
  cases ho

theorem domain_of_mem_marks {n : Node} {d : Domain} (fixed : n.constraint.fixedDomain? = some d)
    {o : Outcome} (ho : o ∈ n.marks) :
    o = .domain d ∨ ∃ l, n.constraint = .literal l ∧ o = .unit l := by
  obtain ⟨c⟩ := n
  rw [marks_of] at ho
  cases c with
  | domain e =>
    cases fixed
    exact .inl (List.mem_singleton.mp ho)
  | basis b =>
    cases fixed
    exact .inl (List.mem_singleton.mp ho)
  | literal l =>
    cases fixed
    exact (List.mem_cons.mp ho).imp id fun ho => ⟨l, rfl, List.mem_singleton.mp ho⟩
  | _ => cases fixed

/-- Conjuncts that stay side by side do not differ in what they fix. -/
theorem Apart.not_differs {a b : Node} (h : a.Apart b) : ¬a.Differs b := by
  obtain ⟨-, single, single', h⟩ := h
  rintro ⟨o, ho, p, hp, excludes⟩
  obtain ⟨d, fixed⟩ := exists_fixedDomain single ho
  obtain ⟨e, fixed'⟩ := exists_fixedDomain single' hp
  rcases h with nominal | nominal | ⟨m, n, divisor, -⟩ | ⟨-, notLeft, notRight, x, hx, hy⟩
  · rw [Constraint.fixedDomain?_of_isNominal nominal] at fixed
    cases fixed
  · rw [Constraint.fixedDomain?_of_isNominal nominal] at fixed'
    cases fixed'
  · rw [divisor] at fixed
    cases fixed
  · rw [Constraint.domains, fixed, List.mem_singleton] at hx
    rw [Constraint.domains, fixed', List.mem_singleton] at hy
    rcases domain_of_mem_marks fixed ho with rfl | ⟨l, literal, -⟩
    · rcases domain_of_mem_marks fixed' hp with rfl | ⟨l, literal, -⟩
      · exact excludes (hx.symm.trans hy)
      · rw [literal] at notRight
        cases notRight
    · rw [literal] at notLeft
      cases notLeft

theorem not_differs_self {n : Node} (single : n.constraint.isComposite = false) :
    ¬n.Differs n := by
  rintro ⟨o, ho, p, hp, excludes⟩
  obtain ⟨d, fixed⟩ := exists_fixedDomain single ho
  rcases domain_of_mem_marks fixed ho with rfl | ⟨l, literal, rfl⟩ <;>
    rcases domain_of_mem_marks fixed hp with rfl | ⟨m, literal', rfl⟩
  · exact excludes rfl
  · exact excludes
  · exact excludes
  · cases literal.symm.trans literal'
    exact excludes rfl

/-- No two of the nodes differ in what they fix. -/
def Agree (ns : List Node) : Prop := ∀ a ∈ ns, ∀ b ∈ ns, ¬a.Differs b

theorem Agree.mono {ns ms : List Node} (h : Agree ns) (fewer : ms ⊆ ns) : Agree ms :=
  fun a ha b hb => h a (fewer ha) b (fewer hb)

theorem Agree.singleton {n : Node} (self : ¬n.Differs n) : Agree [n] :=
  List.forall_mem_singleton.mpr (List.forall_mem_singleton.mpr self)

theorem Agree.append_singleton {ns : List Node} (h : Agree ns) {n : Node} (self : ¬n.Differs n)
    (beside : ∀ a ∈ ns, ¬a.Differs n) : Agree (ns ++ [n]) := by
  intro a ha b hb
  rcases List.mem_append.mp ha with ha | ha <;> rcases List.mem_append.mp hb with hb | hb
  · exact h a ha b hb
  · exact List.mem_singleton.mp hb ▸ beside a ha
  · exact List.mem_singleton.mp ha ▸ fun differs => beside b hb differs.symm
  · exact List.mem_singleton.mp ha ▸ List.mem_singleton.mp hb ▸ self

instance : Std.Symm fun a b : Node => ¬a.Differs b := ⟨fun _ _ h differs => h differs.symm⟩

theorem Agree.of_apart {ns : List Node} (single : ∀ n ∈ ns, n.constraint.isComposite = false)
    (apart : ns.Pairwise Apart) : Agree ns := by
  have pairs : ns.Pairwise fun a b => ¬a.Differs b := apart.imp Apart.not_differs
  exact fun a ha b hb =>
    pairs.forall_of_forall (fun n hn => not_differs_self (single n hn)) ha hb

end Node

end SchemaAlgebra

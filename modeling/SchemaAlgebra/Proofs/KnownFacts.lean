import SchemaAlgebra.Compile
import SchemaAlgebra.Proofs.Routing
import SchemaAlgebra.Traversal.Run

/-!
# What is known while a node is lowered

The facts that lowering relies on hold of the value at hand: those learned from checks
that passed, from the outcome a union was routed by, and from around a key. What they imply
need not be checked again, and the dimension chosen for a bound measures the value.
-/
namespace SchemaAlgebra

variable [Library]

namespace Basis

theorem domain_of_allows {c : Basis} {d : Json} (h : c.allows d = true) :
    Domain.of d = c.domain := by
  cases c <;> cases d <;> first | rfl | cases h

end Basis

namespace Known

def Holds (k : Known) (d : Json) : Prop :=
  k.facts.Hold d ∧ ∀ c, k.basis = some c → c.allows d = true

theorem nothing_holds (d : Json) : nothing.Holds d :=
  ⟨fun _ h => (nomatch h), fun _ h => (nomatch h)⟩

variable {k : Known} {d : Json}

theorem Holds.learn (h : k.Holds d) {p : Probe} {o : Outcome} (hp : p.keyIn? d = some o.key) :
    (k.learn p o).Holds d := by
  refine ⟨fun f hf => ?_, h.2⟩
  rcases List.mem_cons.mp hf with rfl | hf
  · exact hp
  · exact h.1 f hf

theorem Holds.learnDomain (h : k.Holds d) {dm : Domain} (hd : Domain.of d = dm) :
    (k.learnDomain dm).Holds d :=
  h.learn (by simp [Probe.keyIn?, Json.at?, Aspect.keyOf, Outcome.key, hd])

theorem Holds.learnLiteral (h : k.Holds d) {l : Literal} (hl : l.isMatch d = true) :
    (k.learnLiteral l).Holds d :=
  h.learn (by simp [Probe.keyIn?, Json.at?, Outcome.key, (Literal.isMatch_iff_keyOf l d).mp hl])

theorem Holds.learnBasis (h : k.Holds d) {c : Basis} (hc : c.allows d = true) :
    (k.learnBasis c).Holds d := by
  refine ⟨h.1, fun c' h' => ?_⟩
  simp only [Known.learnBasis, Option.some.injEq] at h'
  exact h' ▸ hc

theorem Holds.under (h : k.Holds d) {key : String} {child : Json} (hc : d.get? key = some child) :
    (k.under key).Holds child := by
  refine ⟨fun f hf => ?_, fun _ h => (nomatch h)⟩
  simp only [Known.under, List.mem_filterMap] at hf
  obtain ⟨⟨⟨path, aspect⟩, o⟩, hmem, hf⟩ := hf
  cases path with
  | nil => cases hf
  | cons first path =>
    simp only at hf
    split_ifs at hf with same
    cases hf
    have outer := h.1 _ hmem
    subst same
    simpa [Probe.keyIn?, Json.at?, hc] using outer

theorem Holds.domain_eq (h : k.Holds d) {dm : Domain} (hk : k.domain? = some dm) :
    Domain.of d = dm := by
  unfold Known.domain? at hk
  split at hk
  · rename_i known
    cases hk
    have key := h.1.get? known
    simp only [Probe.keyIn?, Json.at?, Option.map_some, Aspect.keyOf, Outcome.key,
      Option.some.injEq] at key
    exact Domain.name_injective key
  · cases hk

theorem Holds.literal_isMatch (h : k.Holds d) {l : Literal} (hk : k.literal? = some l) :
    l.isMatch d = true := by
  unfold Known.literal? at hk
  split at hk
  · rename_i known
    cases hk
    have key := h.1.get? known
    simp only [Probe.keyIn?, Json.at?, Option.map_some, Outcome.key, Option.some.injEq] at key
    exact (Literal.isMatch_iff_keyOf _ _).mpr key
  · cases hk

theorem Holds.impliesDomain (h : k.Holds d) {dm : Domain} (hk : k.impliesDomain dm = true) :
    Domain.of d = dm := by
  simp only [Known.impliesDomain, Bool.or_eq_true, beq_iff_eq, Option.map_eq_some_iff] at hk
  rcases hk with (hk | ⟨l, hl, rfl⟩) | ⟨c, hc, rfl⟩
  · exact h.domain_eq hk
  · exact Literal.domain_of_isMatch (h.literal_isMatch hl)
  · exact Basis.domain_of_allows (h.2 c hc)

end Known

namespace Node

theorem domain_of_admits {ρ : Meaning} {n : Node} {d : Json} {dm : Domain}
    (hn : n.domain? = some dm) (h : n.admitsWith ρ d = true) : Domain.of d = dm := by
  induction n using Node.inductionOn with
  | step c ih =>
    rw [domain?, fold_of] at hn
    rw [admitsWith_of] at h
    cases c <;> simp only [Constraint.map, constraintAdmits, reduceCtorEq,
      Option.some.injEq] at hn h
    case domain dm' => simpa [hn] using h
    case literal l => rw [← hn]; exact Literal.domain_of_isMatch h
    case basis c => rw [← hn]; exact Basis.domain_of_allows h
    case morph input steps => exact ih input (by simp [Constraint.children]) hn h
    case intersection children =>
      obtain ⟨o, ho, found⟩ := List.exists_of_findSome?_eq_some hn
      obtain ⟨m, hm, rfl⟩ := List.mem_map.mp ho
      simp only [List.all_map, List.all_eq_true] at h
      exact ih m hm found (h m hm)

/-- Every admitted value satisfies the basis that a node implies. -/
theorem basis_of_admits {ρ : Meaning} {n : Node} {d : Json} {c : Basis} (hn : n.basis? = some c)
    (h : n.admitsWith ρ d = true) : c.allows d = true := by
  induction n using Node.inductionOn with
  | step c ih =>
    rw [basis?, fold_of] at hn
    rw [admitsWith_of] at h
    cases c <;> simp only [Constraint.map, constraintAdmits, reduceCtorEq,
      Option.some.injEq] at hn h
    case basis c' => rw [← hn]; exact h
    case intersection children =>
      obtain ⟨o, ho, found⟩ := List.exists_of_findSome?_eq_some hn
      obtain ⟨m, hm, rfl⟩ := List.mem_map.mp ho
      simp only [List.all_map, List.all_eq_true] at h
      exact ih m hm found (h m hm)

/-- The values of a node when its bound, if it is one, measures a certain dimension. -/
def admitsIn (dimension : Dimension) (n : Node) (d : Json) : Bool :=
  match n.constraint with
  | .bound r => ((Traversal.measure? dimension d).map r.allows).getD false
  | _ => n.admits d

end Node

/-- Measuring the value in the dimension finds its size. -/
def Dimension.Fits (dimension : Dimension) (d : Json) : Prop :=
  Traversal.measure? dimension d = d.size?

theorem Dimension.fits_items {d : Json} (h : Basis.array.allows d = true) : items.Fits d := by
  cases d <;> first | rfl | cases h

omit [Library] in
theorem Dimension.fits_chars {d : Json} (h : Domain.of d = .string) : chars.Fits d := by
  cases d <;> first | rfl | cases h

omit [Library] in
theorem Dimension.fits_value {d : Json} (h : Domain.of d = .number) : value.Fits d := by
  cases d <;> first | rfl | cases h

namespace Node

theorem admitsIn_of_fits {dimension : Dimension} {d : Json} (h : dimension.Fits d) (n : Node) :
    n.admitsIn dimension d = n.admits d := by
  obtain ⟨c⟩ := n
  cases c with
  | bound r =>
    rw [admits_of]
    simp only [admitsIn, constraint, Constraint.map, constraintAdmits]
    rw [h]
  | _ => rfl

theorem admitsIn_of_not_bound {n : Node} (h : ∀ r, n.constraint ≠ .bound r)
    (dimension : Dimension) (d : Json) : n.admitsIn dimension d = n.admits d := by
  unfold admitsIn
  split
  · rename_i r hr
    exact absurd hr (h r)
  · rfl

/-- The dimension chosen for a node measures every value that has the domain and the basis
that the node implies. -/
theorem fits_dimensionOf {n : Node} {k : Known} {d : Json} (holds : k.Holds d)
    (hdomain : ∀ dm, n.domain? = some dm → Domain.of d = dm)
    (hbasis : ∀ c, n.basis? = some c → c.allows d = true) : (dimensionOf n k).Fits d := by
  have basis_allows {c : Basis} (h : (n.basis? <|> k.basis) = some c) : c.allows d = true := by
    cases hn : n.basis? with
    | some c' =>
      rw [hn] at h
      cases h
      exact hbasis c hn
    | none =>
      rw [hn] at h
      exact holds.2 c h
  have domain_is {dm : Domain} (h : (n.domain? <|> k.domain?) = some dm) : Domain.of d = dm := by
    cases hn : n.domain? with
    | some dm' =>
      rw [hn] at h
      cases h
      exact hdomain dm hn
    | none =>
      rw [hn] at h
      exact holds.domain_eq h
  unfold dimensionOf
  split
  · rename_i hb
    exact Dimension.fits_items (basis_allows hb)
  · rename_i hb
    exact Dimension.fits_chars (Basis.domain_of_allows (basis_allows hb))
  · rename_i _ hd
    exact Dimension.fits_chars (domain_is hd)
  · rename_i _ hd
    exact Dimension.fits_value (domain_is hd)
  · rfl

/-- A node is right about a value in the dimension chosen for it. -/
theorem admitsIn_dimensionOf (n : Node) {k : Known} {d : Json} (holds : k.Holds d) :
    n.admitsIn (dimensionOf n k) d = n.admits d := by
  obtain ⟨c⟩ := n
  cases c with
  | bound r =>
    refine admitsIn_of_fits (fits_dimensionOf holds (fun _ h => ?_) fun _ h => ?_) _
    · rw [domain?, fold_of] at h
      cases h
    · rw [basis?, fold_of] at h
      cases h
  | _ => rfl

/-- An intersection is right about a value in the dimension chosen for it: where a bound
does not measure the value, another child refuses it. -/
theorem all_admitsIn_dimensionOf (children : List Node) {k : Known} {d : Json}
    (holds : k.Holds d) :
    children.all (·.admitsIn (dimensionOf (of (.intersection children)) k) d) =
      (of (.intersection children)).admits d := by
  set dimension := dimensionOf (of (.intersection children)) k
  have admits_eq : (of (.intersection children)).admits d = children.all (·.admits d) := by
    rw [admits_of]
    simp [Constraint.map, constraintAdmits, List.all_map, Function.comp_def]
  rw [admits_eq]
  by_cases fits : dimension.Fits d
  · exact List.all_congr rfl fun m => admitsIn_of_fits fits m
  · have refused (h : ∀ m ∈ children, (∀ r, m.constraint ≠ .bound r) →
        m.admits d = true) : False := by
      refine fits (fits_dimensionOf holds (fun dm hdm => ?_) (fun c hc => ?_))
      · rw [domain?, fold_of] at hdm
        obtain ⟨o, ho, found⟩ := List.exists_of_findSome?_eq_some hdm
        obtain ⟨m, hm, rfl⟩ := List.mem_map.mp ho
        refine domain_of_admits found (h m hm fun r hr => ?_)
        obtain ⟨c⟩ := m
        cases hr
        cases found
      · rw [basis?, fold_of] at hc
        obtain ⟨o, ho, found⟩ := List.exists_of_findSome?_eq_some hc
        obtain ⟨m, hm, rfl⟩ := List.mem_map.mp ho
        refine basis_of_admits found (h m hm fun r hr => ?_)
        obtain ⟨c⟩ := m
        cases hr
        cases found
    have none_in : children.all (·.admitsIn dimension d) = false := by
      by_contra h
      rw [Bool.not_eq_false, List.all_eq_true] at h
      exact refused fun m hm hb => admitsIn_of_not_bound hb dimension d ▸ h m hm
    have none_out : children.all (·.admits d) = false := by
      by_contra h
      rw [Bool.not_eq_false, List.all_eq_true] at h
      exact refused fun m hm _ => h m hm
    rw [none_in, none_out]

end Node

end SchemaAlgebra

import SchemaAlgebra.Proofs.Inheritance
import SchemaAlgebra.Proofs.Parsing

/-!
# What definitions stand for

Everything a grammar has is settled, so a property inherited by what the algebra makes of
reduced nodes is a property of every node that a definition stands for.
-/
namespace SchemaAlgebra

variable {P : Node → Prop} {j : Judging}

variable [Library]

theorem matching_inherits (h : Inherited j.holds) (p : Pattern) :
    (Word.matching p).Ensures j j.holds :=
  have ranks : (0 : Nat) ≠ 3 := by decide
  Traced.both_inherits h (Traced.domain_holds h .string)
    (h.atom nofun (List.pairwise_singleton _ p) rfl) ranks
    ⟨rfl, rfl, .inr (.inr (.inr ⟨ranks, rfl, rfl, .string, List.mem_singleton_self _,
      List.mem_singleton_self _⟩))⟩

theorem integer_inherits (h : Inherited j.holds) : Word.integer.Ensures j j.holds :=
  have ranks : (0 : Nat) ≠ 2 := by decide
  Traced.both_inherits h (Traced.domain_holds h .number)
    (h.atom nofun ⟨by decide, by decide⟩ rfl) ranks
    ⟨rfl, rfl, .inr (.inr (.inr ⟨ranks, rfl, rfl, .number, List.mem_singleton_self _,
      List.mem_singleton_self _⟩))⟩

theorem keyword_inherits (h : Inherited j.holds) {word : String} {x : Traced Node}
    (hx : Word.keyword? word = some x) : x.Ensures j j.holds := by
  simp only [Word.keyword?, Option.orElse_eq_orElse, Option.orElse_eq_or, Option.or_eq_some_iff,
    Option.map_eq_some_iff] at hx
  rcases hx with ⟨d, -, rfl⟩ | ⟨-, named | ⟨-, ⟨p, -, rfl⟩ | ⟨-, b, -, rfl⟩⟩⟩
  · exact Traced.build_inherits (Traced.domain_holds h d)
  · have known : (word, x) ∈ Word.named? := by
      obtain ⟨l, r, same, -⟩ := List.lookup_eq_some_iff.mp named
      rw [same]
      exact List.mem_append_right _ List.mem_cons_self
    have all : ∀ e ∈ Word.named?, e.2.Ensures j j.holds := by
      simp only [Word.named?, List.forall_mem_cons]
      have literal (l : Literal) : (Traced.literal l).Ensures j j.holds :=
        Traced.build_inherits (h.atom nofun trivial rfl)
      have basis (b : Basis) : (Traced.basis b).Ensures j j.holds :=
        Traced.build_inherits (Traced.basis_holds h b)
      exact ⟨literal _, literal _, literal _, Traced.unknown_inherits h,
        Traced.unknown_inherits h,
        Traced.build_inherits (Traced.never_holds h), integer_inherits h, basis _, basis _,
        List.forall_mem_nil _⟩
    exact all _ known
  · exact matching_inherits h p
  · refine (Traced.build_inherits (Traced.domain_holds h .string)).bind fun d hd =>
      Traced.build_inherits ?_
    exact h.built _ nofun trivial trivial (List.forall_mem_singleton.mpr hd)

theorem element_inherits (h : Inherited P) {isArray : Bool} {element : Option Node}
    (he : ∀ m ∈ element, P m) {children : List Node} (hc : ∀ m ∈ children, P m) {n : Node}
    (hn : Definition.elementOf isArray element children = some n) : P n := by
  induction children generalizing isArray element with
  | nil =>
    rw [Definition.elementOf] at hn
    split_ifs at hn
    exact he n hn
  | cons m r ih =>
    rw [List.forall_mem_cons] at hc
    unfold Definition.elementOf at hn
    split at hn
    · exact nomatch ‹m :: r = []›
    · rename_i same
      cases same
      exact ih he hc.2 hn
    · rename_i p _ same
      cases same
      split_ifs at hn
      exact ih (fun m hm => h.children _ hc.1 m (Props.mem_values_of_element? hm)) hc.2 hn
    · cases hn

/-- Everything settled that is parsed of nodes with an inherited property has it. -/
theorem Inherited.composable (h : Inherited P) : Composable P := by
  have preserved {α : Type} {x : Traced α} {Q : α → Prop}
      (hx : ∀ j : Judging, j.holds = P → Inherited j.holds → x.Ensures j Q) :
      x.Preserves P Q :=
    fun rep keeps faithful => hx ⟨rep, fun _ => True, P, keeps, faithful⟩ rfl h
  exact {
    literal := fun l => h.atom nofun trivial rfl
    unknown := h.atom nofun ⟨fun _ hc => absurd hc List.not_mem_nil, List.Pairwise.nil⟩ rfl
    keyword := fun word x hx => preserved fun j same h => same ▸ keyword_inherits h hx
    matching := fun p => preserved fun j same h => same ▸ matching_inherits h p
    divisor := fun n positive small => h.atom nofun ⟨positive, small⟩ rfl
    bound := fun r finite => h.atom nofun finite.canonical rfl
    brand := fun _ => h.atom nofun trivial rfl
    step := fun input _ hi => h.built _ nofun trivial trivial (List.forall_mem_singleton.mpr hi)
    steps := fun _ _ _ hi =>
      h.built _ nofun trivial trivial
        (List.forall_mem_singleton.mpr (h.children _ hi _ List.mem_cons_self))
    element := fun children n hc => element_inherits h (by simp) (h.children _ hc)
    tuple := fun items rest hi hr => preserved fun j same h => by
      subst same
      refine Traced.tuple_inherits h fun m hm => ?_
      have inside : m ∈ items ∨ m ∈ rest := by simpa [Sequence.values] using hm
      exact inside.elim (hi m) (hr m)
    arrayOf := fun n hn => preserved fun j same h => by
      subst same
      exact Traced.arrayOf_inherits h hn
    normal := fun p hp => preserved fun j same h => by
      subst same
      refine Traced.Ensures.mono (normalize_holds h hp) fun o ho q hq => ?_
      subst hq
      exact ho
    object := fun p hp => preserved fun j same h => by
      subst same
      exact Traced.object_inherits h hp
    meet := fun l r hl hr => preserved fun j same h => by
      subst same
      refine Traced.Ensures.mono (meet_inherits h hl hr) fun o ho n hn => ?_
      subst hn
      exact ho
    union := fun ns hns => preserved fun j same h => by
      subst same
      exact Union.determinate_inherits h hns }

/-- What a scope knows and returns has every inherited property that its references to aliases have.
-/
theorem Inherited.buildable (h : Inherited P) {home : Nat}
    (deferred : ∀ name, P (.of (.deferred name (some home)))) : Buildable home P where
  composable _ := h.composable
  deferred _ := deferred _

/-- What a scope knows and returns is reduced and has every hereditary property that its
references to aliases have. -/
theorem Hereditary.buildable (h : Hereditary P) {home : Nat}
    (deferred : ∀ name, P (.of (.deferred name (some home)))) :
    Buildable home fun n => n.Reduced ∧ P n :=
  h.inherited.buildable fun name => ⟨.leaf trivial rfl, deferred name⟩

end SchemaAlgebra

import Mathlib.Algebra.Order.BigOperators.Group.List
import Mathlib.Algebra.Order.Group.Nat
import Mathlib.Algebra.Ring.Nat
import SchemaAlgebra.Node.Admission

/-!
# Induction on nodes

A node is larger than the children of its constraint, so what holds of a constraint over
nodes with a property holds of all nodes.
-/
namespace SchemaAlgebra
namespace Entries

variable {α : Type u} {β : Type v} (f : α → β)

theorem get?_map (key : String) (es : List (String × α)) :
    get? key (es.map fun (k, v) => (k, f v)) = (get? key es).map f := by
  induction es with
  | nil => rfl
  | cons e es ih =>
    rw [List.map_cons, get?, get?, ih]
    split_ifs <;> rfl

theorem insert_map (key : String) (value : α) (es : List (String × α)) :
    insert key (f value) (es.map fun (k, v) => (k, f v)) = (insert key value es).map fun (k, v) =>
      (k, f v) := by
  induction es with
  | nil => rfl
  | cons e es ih =>
    rw [List.map_cons, insert, insert, ih]
    split_ifs <;> rfl

theorem erase_map (key : String) (es : List (String × α)) :
    erase key (es.map fun (k, v) => (k, f v)) = (erase key es).map fun (k, v) => (k, f v) := by
  induction es with
  | nil => rfl
  | cons e es ih =>
    rw [List.map_cons, erase, erase, ih]
    split_ifs <;> rfl

theorem keys_map (es : List (String × α)) : keys (es.map fun (k, v) => (k, f v)) = keys es := by
  simp [keys]

end Entries

namespace Sequence

theorem at?_map {α : Type u} {β : Type v} (f : α → β) (s : Sequence α) (i : Nat) :
    (s.map f).at? i = (s.at? i).map f := by
  simp only [Sequence.at?, Sequence.map, List.getElem?_map]
  cases s.items[i]? <;> cases s.rest <;> rfl

theorem admitsLength_map {α : Type u} {β : Type v} (f : α → β) (s : Sequence α) (n : Nat) :
    (s.map f).admitsLength n = s.admitsLength n := by
  obtain ⟨items, rest⟩ := s
  cases rest <;> simp [map, admitsLength]

theorem mem_values_of_at? {α : Type u} {s : Sequence α} {i : Nat} {n : α}
    (h : s.at? i = some n) : n ∈ s.values := by
  rw [Sequence.at?, Option.orElse_eq_orElse, Option.orElse_eq_or, Option.or_eq_some_iff] at h
  rw [Sequence.values, List.mem_append]
  rcases h with h | ⟨-, h⟩
  · exact Or.inl (List.mem_of_getElem? h)
  · exact Or.inr (by simpa using h)

theorem fixedLength?_map {α : Type u} {β : Type v} (f : α → β) (s : Sequence α) :
    (s.map f).fixedLength? = s.fixedLength? := by
  obtain ⟨items, rest⟩ := s
  cases rest <;> simp [fixedLength?, map]

theorem length_items_map {α : Type u} {β : Type v} (f : α → β) (s : Sequence α) :
    (s.map f).items.length = s.items.length := List.length_map f

end Sequence

namespace Props

variable {α : Type u} {β : Type v}

theorem mem_values_of_required {p : Props α} {key : String} {v : α}
    (h : (key, v) ∈ p.required) : v ∈ p.values := by
  simp only [values, Entries.values, List.mem_append, List.mem_map]
  exact Or.inl (Or.inl (Or.inl ⟨_, h, rfl⟩))

theorem mem_values_of_optional {p : Props α} {key : String} {v : α}
    (h : (key, v) ∈ p.optional) : v ∈ p.values := by
  simp only [values, Entries.values, List.mem_append, List.mem_map]
  exact Or.inl (Or.inl (Or.inr ⟨_, h, rfl⟩))

theorem mem_values_of_index {p : Props α} {s : Signature α} (h : s ∈ p.index) :
    s.key ∈ p.values ∧ s.value ∈ p.values := by
  simp only [values, List.mem_append, List.mem_flatMap]
  exact ⟨Or.inl (Or.inr ⟨s, h, by simp⟩), Or.inl (Or.inr ⟨s, h, by simp⟩)⟩

theorem mem_values_of_sequence {p : Props α} {s : Sequence α} (h : p.sequence = some s) {v : α}
    (hv : v ∈ s.values) : v ∈ p.values := by
  simp only [values, List.mem_append, h]
  exact Or.inr hv

theorem values_map (f : α → β) (p : Props α) : (p.map f).values = p.values.map f := by
  obtain ⟨required, optional, index, sequence⟩ := p
  cases sequence with
  | none =>
    simp [values, map, Entries.values, List.map_flatMap, List.flatMap_map, Function.comp_def]
  | some s =>
    obtain ⟨items, rest⟩ := s
    cases rest <;>
      simp [values, map, Sequence.map, Sequence.values, Entries.values, List.map_flatMap,
        List.flatMap_map, Function.comp_def]

section

variable (f : α → β) (p : Props α)

theorem insert_map (key : String) (value : α) (required : Bool) :
    (p.map f).insert key (f value) required = (p.insert key value required).map f := by
  cases required <;> simp [insert, map, Entries.insert_map, Entries.erase_map]

theorem get?_map (key : String) : (p.map f).get? key = (p.get? key).map fun (v, r) => (f v, r) := by
  simp only [get?, map, Entries.get?_map]
  cases Entries.get? key p.required with
  | some v => rfl
  | none => cases Entries.get? key p.optional <;> rfl

theorem namedKeys_map : (p.map f).namedKeys = p.namedKeys := by
  simp only [namedKeys, map, Entries.keys_map]

end

end Props

namespace Constraint

theorem map_map {α : Type u} {β : Type v} {γ : Type w} (f : α → β) (g : β → γ)
    (c : Constraint α) : (c.map f).map g = c.map (g ∘ f) := by
  cases c with
  | props p =>
    obtain ⟨required, optional, index, sequence⟩ := p
    cases sequence <;> simp [map, Props.map, Sequence.map, Function.comp_def]
  | _ => simp [map]

theorem map_congr {α : Type u} {β : Type v} {f g : α → β} {c : Constraint α}
    (h : ∀ a ∈ c.children, f a = g a) : c.map f = c.map g := by
  cases c with
  | props p =>
    simp only [map, Props.map, props.injEq, Props.mk.injEq]
    refine ⟨List.map_congr_left fun e he => ?_, List.map_congr_left fun e he => ?_,
      List.map_congr_left fun s hs => ?_, ?_⟩
    · rw [h e.2 (Props.mem_values_of_required he)]
    · rw [h e.2 (Props.mem_values_of_optional he)]
    · rw [h s.key (Props.mem_values_of_index hs).1, h s.value (Props.mem_values_of_index hs).2]
    · cases hs : p.sequence with
      | none => rfl
      | some s =>
        have same (a : α) (ha : a ∈ s.values) : f a = g a :=
          h a (Props.mem_values_of_sequence hs ha)
        simp only [Option.map_some, Sequence.map, Option.some.injEq, Sequence.mk.injEq]
        refine ⟨List.map_congr_left fun a ha => same a (List.mem_append_left _ ha), ?_⟩
        exact Option.map_congr fun a ha => same a (List.mem_append_right _ (by simp [ha]))
  | morph input steps => rw [map, map, h input (by simp [children])]
  | union branches => exact congrArg union (List.map_congr_left h)
  | intersection children => exact congrArg intersection (List.map_congr_left h)
  | _ => rfl

theorem map_id {α : Type u} (c : Constraint α) : c.map id = c := by
  cases c with
  | props p =>
    obtain ⟨required, optional, index, sequence⟩ := p
    cases sequence <;> simp [map, Props.map, Sequence.map]
  | _ => simp [map]

theorem children_map {α : Type u} {β : Type v} (f : α → β) (c : Constraint α) :
    (c.map f).children = c.children.map f := by
  cases c <;> simp [map, children, Props.values_map]

end Constraint

namespace Node

theorem size_of (c : Constraint Node) : (of c).size = 1 + (c.children.map size).sum := by
  rw [size, fold_of, Constraint.children_map]
  rfl

theorem size_pos (n : Node) : 0 < n.size := by
  obtain ⟨c⟩ := n
  rw [size_of]
  omega

theorem size_lt_of_mem {c : Constraint Node} {n : Node} (h : n ∈ c.children) :
    n.size < (of c).size := by
  have part := List.le_sum_of_mem (List.mem_map_of_mem h : n.size ∈ c.children.map size)
  rw [size_of]
  omega

/-- What holds of a constraint as soon as it holds of its children holds of every node. -/
@[elab_as_elim]
theorem inductionOn {P : Node → Prop} (n : Node)
    (step : ∀ c : Constraint Node, (∀ m ∈ c.children, P m) → P (of c)) : P n := by
  generalize hs : n.size = s
  induction s using Nat.strongRecOn generalizing n with
  | ind s ih =>
    obtain ⟨c⟩ := n
    apply step
    intro m hm
    exact ih m.size (hs ▸ size_lt_of_mem hm) m rfl

theorem fold_fusion {β : Type u} {γ : Type v} {f : Constraint β → β}
    {g : Constraint γ → γ} (h : β → γ) (reads : ∀ c, h (f c) = g (c.map h)) (n : Node) :
    h (n.fold f) = n.fold g := by
  induction n using Node.inductionOn with
  | step c ih =>
    rw [fold_of, fold_of, reads, Constraint.map_map]
    exact congrArg g (Constraint.map_congr ih)

theorem hasAlias_child {c : Constraint Node} (h : (of c).hasAlias = false) {n : Node}
    (hn : n ∈ c.children) : n.hasAlias = false := by
  rw [hasAlias, fold_of] at h
  have any_child : (c.map hasAlias).children.any id = false := by
    cases c <;> first | exact h | rfl
  rw [Constraint.children_map, List.any_map, List.any_eq_false] at any_child
  simpa using any_child n hn

variable [Library]

theorem admitsWith_of (ρ : Meaning) (c : Constraint Node) (d : Json) :
    (of c).admitsWith ρ d = constraintAdmits ρ (c.map (admitsWith ρ)) d := by
  rw [admitsWith, fold_of]

theorem admits_of (c : Constraint Node) (d : Json) :
    (of c).admits d = constraintAdmits (fun _ _ _ => false) (c.map admits) d := admitsWith_of _ c d

end Node

end SchemaAlgebra

import Mathlib.Data.List.Chain
import Mathlib.Data.List.Nodup
import SchemaAlgebra.Proofs.Production
import SchemaAlgebra.Proofs.Sessions

/-!
# Chains of references

An alias follows another one if its node refers to it without entering a key or an item.
The check made when an alias is resolved sees only whether the alias follows itself. So a
chain of references comes back to where it was exactly if two different aliases lead to
each other.
-/
namespace SchemaAlgebra

section

variable {α : Type} {r : α → α → Prop} {a b : α}

theorem transGen_of_isChain {l : List α} (h : List.IsChain r (a :: l)) (hb : b ∈ l) :
    Relation.TransGen r a b := by
  induction l generalizing a with
  | nil => cases hb
  | cons c l ih =>
    obtain ⟨first, rest⟩ := List.isChain_cons_cons.mp h
    rcases List.mem_cons.mp hb with rfl | hb
    · exact .single first
    · exact .head first (ih rest hb)

/-- A chain comes back to one of its elements if and only if an element that it can reach
leads back to itself. -/
theorem exists_return_iff : (∃ l, List.IsChain r (a :: l) ∧ ¬ (a :: l).Nodup) ↔
    ∃ x, Relation.ReflTransGen r a x ∧ Relation.TransGen r x x := by
  constructor
  · rintro ⟨l, chain, repeats⟩
    induction l generalizing a with
    | nil => exact absurd (List.nodup_singleton a) repeats
    | cons c l ih =>
      by_cases here : a ∈ c :: l
      · exact ⟨a, .refl, transGen_of_isChain chain here⟩
      · obtain ⟨first, rest⟩ := List.isChain_cons_cons.mp chain
        obtain ⟨x, reached, back⟩ :=
          ih rest fun nodup => repeats (List.nodup_cons.mpr ⟨here, nodup⟩)
        exact ⟨x, .head first reached, back⟩
  · rintro ⟨x, reached, back⟩
    obtain ⟨y, first, returned⟩ := Relation.TransGen.head'_iff.mp back
    obtain ⟨l, there, last⟩ := List.exists_isChain_cons_of_relationReflTransGen reached
    obtain ⟨m, home, last'⟩ := List.exists_isChain_cons_of_relationReflTransGen returned
    have before : x ∈ a :: l := last ▸ List.getLast_mem _
    have after : x ∈ y :: m := last' ▸ List.getLast_mem _
    refine ⟨l ++ y :: m, ?_, fun nodup => ?_⟩
    · rw [← List.cons_append, List.isChain_append]
      refine ⟨there, home, fun u hu v hv => ?_⟩
      rw [List.getLast?_eq_getLast_of_ne_nil (List.cons_ne_nil a l), last] at hu
      cases hu
      cases hv
      exact first
    · rw [← List.cons_append] at nodup
      exact List.disjoint_of_nodup_append nodup before after

theorem acc_of_isChain_length {n : Nat}
    (bounded : ∀ l, List.IsChain r (a :: l) → l.length ≤ n) : Acc (fun x y => r y x) a := by
  induction n generalizing a with
  | zero =>
    refine Acc.intro a fun b hb => ?_
    have short := bounded [b] (List.isChain_pair.mpr hb)
    exact absurd short (by simp)
  | succ n ih =>
    refine Acc.intro a fun b hb => ih fun l chain => ?_
    have short := bounded (b :: l) (List.isChain_cons_cons.mpr ⟨hb, chain⟩)
    simpa using short

end

namespace Scope

/-- The alias `a` is resolved to a node that refers to `b`. -/
def Follows (s : Scope) (a b : String) : Prop :=
  ∃ n, s.resolved? a = some n ∧ b ∈ n.references

/-- Some chain of references from the alias comes back to an alias on it. -/
def Returns (s : Scope) (a : String) : Prop :=
  ∃ names, List.IsChain s.Follows (a :: names) ∧ ¬ (a :: names).Nodup

variable {w : Standard} {s : Scope}

theorem Sound.not_follows_self (h : s.Sound w) (a : String) : ¬ s.Follows a a := by
  rintro ⟨n, found, refers⟩
  exact (h.resolved found).2 refers

/-- Only cycles of different aliases are missed when aliases are resolved. -/
theorem Sound.returns_iff (h : s.Sound w) (a : String) : s.Returns a ↔
    ∃ x y, x ≠ y ∧ Relation.ReflTransGen s.Follows a x ∧ Relation.TransGen s.Follows x y ∧
      Relation.TransGen s.Follows y x := by
  rw [Returns, exists_return_iff]
  constructor
  · rintro ⟨x, reached, back⟩
    obtain ⟨y, first, returned⟩ := Relation.TransGen.head'_iff.mp back
    have different : x ≠ y := by
      rintro rfl
      exact h.not_follows_self x first
    rcases Relation.reflTransGen_iff_eq_or_transGen.mp returned with same | returned
    · exact absurd same different
    · exact ⟨x, y, different, reached, .single first, returned⟩
  · rintro ⟨x, y, -, reached, there, back⟩
    exact ⟨x, reached, there.trans back⟩

theorem mem_keys_of_resolved {a : String} {n : Node} (h : s.resolved? a = some n) :
    a ∈ Entries.keys s.state.resolutions := by
  rw [Entries.mem_keys]
  rw [resolved?] at h
  cases hr : Entries.get? a s.state.resolutions with
  | none =>
    rw [hr] at h
    cases h
  | some r => rfl

/-- Chains that never come back end, since there are only finitely many aliases. -/
theorem acc_of_not_returns {a : String} (h : ¬ s.Returns a) :
    Acc (fun x y => s.Follows y x) a := by
  refine acc_of_isChain_length (n := (Entries.keys s.state.resolutions).length) fun l chain => ?_
  have nodup : (a :: l).Nodup := by
    by_contra repeats
    exact h ⟨l, chain, repeats⟩
  have known : ∀ x ∈ (a :: l).dropLast, x ∈ Entries.keys s.state.resolutions := by
    clear nodup h
    induction l generalizing a with
    | nil => simp
    | cons b l ih =>
      obtain ⟨⟨n, found, -⟩, rest⟩ := List.isChain_cons_cons.mp chain
      rw [List.dropLast_cons_cons, List.forall_mem_cons]
      exact ⟨mem_keys_of_resolved found, ih rest⟩
  have short := (List.subperm_of_subset (nodup.sublist (List.dropLast_sublist _)) known).length_le
  simpa using short

end Scope

end SchemaAlgebra

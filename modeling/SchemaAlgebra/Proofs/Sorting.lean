import Mathlib.Data.List.Basic
import Mathlib.Order.Lattice
import SchemaAlgebra.SortedList

/-!
# Sorted lists

Sorting rearranges a list, and a list without repeats loses nothing when they are dropped.
-/
namespace SchemaAlgebra.Sorting

variable {α : Type u} {before : α → α → Bool}

theorem place_perm (a : α) (as : List α) : (place before a as).Perm (a :: as) := by
  induction as with
  | nil => exact List.Perm.refl _
  | cons b as ih =>
    rw [place]
    split_ifs
    · exact (ih.cons b).trans (List.Perm.swap a b as)
    · exact List.Perm.refl _

theorem sort_perm (as : List α) : (sort before as).Perm as := by
  induction as with
  | nil => exact List.Perm.refl _
  | cons a as ih => exact (place_perm a _).trans (ih.cons a)

theorem mem_sort {a : α} {as : List α} : a ∈ sort before as ↔ a ∈ as :=
  (sort_perm as).mem_iff

theorem dropRepeats_eq_self {same : α → α → Bool} {as : List α}
    (apart : as.Pairwise (same · · = false)) : dropRepeats same as = as := by
  have after (a : α) (as : List α) (apart : (a :: as).Pairwise (same · · = false)) :
      dropRepeatsAfter same a as = as := by
    induction as generalizing a with
    | nil => rfl
    | cons b as ih =>
      obtain ⟨first, rest⟩ := List.pairwise_cons.mp apart
      rw [dropRepeatsAfter, first b List.mem_cons_self, if_neg Bool.false_ne_true, ih b rest]
  cases as with
  | nil => rfl
  | cons a as => exact congrArg (a :: ·) (after a as apart)

section

variable {β : Type v} {before' : β → β → Bool} {f : α → β}

theorem place_map (h : ∀ a b, before' (f a) (f b) = before a b) (a : α) (as : List α) :
    place before' (f a) (as.map f) = (place before a as).map f := by
  induction as with
  | nil => rfl
  | cons b as ih =>
    rw [List.map_cons, place, place, h, ih]
    split_ifs <;> rfl

theorem sort_map (h : ∀ a b, before' (f a) (f b) = before a b) (as : List α) :
    sort before' (as.map f) = (sort before as).map f := by
  induction as with
  | nil => rfl
  | cons a as ih =>
    change place before' (f a) (sort before' (as.map f)) = _
    rw [ih, place_map h]
    rfl

theorem dropRepeatsAfter_map (h : ∀ a b, before' (f a) (f b) = before a b) (a : α)
    (as : List α) :
    dropRepeatsAfter before' (f a) (as.map f) = (dropRepeatsAfter before a as).map f := by
  induction as generalizing a with
  | nil => rfl
  | cons b as ih =>
    rw [List.map_cons, dropRepeatsAfter, dropRepeatsAfter, h, ih, ih]
    split_ifs <;> rfl

theorem dropRepeats_map (h : ∀ a b, before' (f a) (f b) = before a b) (as : List α) :
    dropRepeats before' (as.map f) = (dropRepeats before as).map f := by
  cases as with
  | nil => rfl
  | cons a as => exact congrArg (f a :: ·) (dropRepeatsAfter_map h a as)

end

section

variable {β : Type v} [LinearOrder β] {f : α → β}
  (h : ∀ a b, before a b = decide (f a < f b))
include h

theorem place_pairwise {a : α} {as : List α} (sorted : as.Pairwise (f · ≤ f ·)) :
    (place before a as).Pairwise (f · ≤ f ·) := by
  induction as with
  | nil => exact List.pairwise_singleton _ _
  | cons b as ih =>
    obtain ⟨first, rest⟩ := List.pairwise_cons.mp sorted
    rw [place, h]
    by_cases later : f b < f a
    · rw [if_pos (decide_eq_true later)]
      refine List.pairwise_cons.mpr ⟨fun c hc => ?_, ih rest⟩
      rcases List.mem_cons.mp ((place_perm a as).mem_iff.mp hc) with rfl | hc
      · exact le_of_lt later
      · exact first c hc
    · rw [if_neg (by simpa using later)]
      refine List.pairwise_cons.mpr ⟨fun c hc => ?_, sorted⟩
      rcases List.mem_cons.mp hc with rfl | hc
      · exact not_lt.mp later
      · exact le_trans (not_lt.mp later) (first c hc)

theorem sort_pairwise (as : List α) : (sort before as).Pairwise (f · ≤ f ·) := by
  induction as with
  | nil => exact List.Pairwise.nil
  | cons a as ih => exact place_pairwise h ih

/-- The order of elements that differ in what they are sorted by makes no difference. -/
theorem sort_congr {as bs : List α} (perm : as.Perm bs)
    (apart : ∀ a ∈ as, ∀ b ∈ as, f a = f b → a = b) :
    sort before as = sort before bs := by
  have sorted : (sort before as).Perm (sort before bs) :=
    (sort_perm as).trans (perm.trans (sort_perm bs).symm)
  refine sorted.eq_of_pairwise (fun a b ha hb le le' => ?_) (sort_pairwise h as)
    (sort_pairwise h bs)
  exact apart a (mem_sort.mp ha) b (perm.mem_iff.mpr (mem_sort.mp hb)) (le_antisymm le le')

end

end SchemaAlgebra.Sorting

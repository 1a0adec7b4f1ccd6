import Mathlib.Data.String.Basic
import SchemaAlgebra.SortedList

/-!
# Maps from texts

A list of entries in order of their keys is a finite map: it is determined by the values
under the keys, and inserting and erasing change it at one key only.
-/
namespace SchemaAlgebra.Entries

variable {α : Type u}

/-- The keys increase, so every key is there once. -/
def Sorted (es : List (String × α)) : Prop := es.Pairwise fun e f => e.1 < f.1

theorem sorted_nil : Sorted ([] : List (String × α)) := List.Pairwise.nil

theorem sorted_cons {e : String × α} {es : List (String × α)} :
    Sorted (e :: es) ↔ (∀ f ∈ es, e.1 < f.1) ∧ Sorted es :=
  List.pairwise_cons

@[simp] theorem get?_nil (name : String) : get? name ([] : List (String × α)) = none := rfl

theorem get?_cons (name key : String) (v : α) (es : List (String × α)) :
    get? name ((key, v) :: es) = if name = key then some v else get? name es := rfl

theorem mem_of_get? {name : String} {v : α} {es : List (String × α)}
    (h : get? name es = some v) : (name, v) ∈ es := by
  induction es with
  | nil => cases h
  | cons e es ih =>
    rw [get?_cons] at h
    split_ifs at h with same
    · cases h
      rw [same]
      exact List.mem_cons_self
    · exact List.mem_cons_of_mem _ (ih h)

theorem get?_eq_none {name : String} {es : List (String × α)} :
    get? name es = none ↔ ∀ e ∈ es, e.1 ≠ name := by
  induction es with
  | nil => simp
  | cons e es ih =>
    obtain ⟨key, v⟩ := e
    rw [get?_cons, List.forall_mem_cons, ← ih]
    split_ifs with same
    · simp [same]
    · simp [Ne.symm same]

theorem get?_eq_some {name : String} {v : α} {es : List (String × α)} (sorted : Sorted es) :
    get? name es = some v ↔ (name, v) ∈ es := by
  refine ⟨mem_of_get?, fun h => ?_⟩
  induction es with
  | nil => cases h
  | cons e es ih =>
    obtain ⟨key, w⟩ := e
    obtain ⟨before, rest⟩ := sorted_cons.mp sorted
    rw [get?_cons]
    rcases List.mem_cons.mp h with same | later
    · cases same
      rw [if_pos rfl]
    · rw [if_neg (before _ later).ne', ih rest later]

theorem mem_keys {name : String} {es : List (String × α)} :
    name ∈ keys es ↔ (get? name es).isSome := by
  rw [← Option.ne_none_iff_isSome, ne_eq, get?_eq_none, keys, List.mem_map]
  simp

/-- Sorted entries with the same values under all keys are the same. -/
theorem ext {es fs : List (String × α)} (hes : Sorted es) (hfs : Sorted fs)
    (same : ∀ name, get? name es = get? name fs) : es = fs := by
  have members (e : String × α) : e ∈ es ↔ e ∈ fs := by
    rw [← get?_eq_some hes, same, get?_eq_some hfs]
  have distinct {gs : List (String × α)} (h : Sorted gs) : gs.Nodup :=
    h.imp fun lt eq => absurd (congrArg Prod.fst eq) lt.ne
  have perm : es.Perm fs := (List.perm_ext_iff_of_nodup (distinct hes) (distinct hfs)).mpr members
  exact perm.eq_of_pairwise (fun _ _ _ _ h h' => absurd h' h.asymm) hes hfs

theorem get?_insert (key name : String) (v : α) (es : List (String × α)) :
    get? name (insert key v es) = if name = key then some v else get? name es := by
  induction es with
  | nil => rfl
  | cons e es ih =>
    obtain ⟨k, w⟩ := e
    rw [insert]
    by_cases before : key < k
    · rw [if_pos before, get?_cons]
    · rw [if_neg before]
      by_cases same : key = k
      · rw [if_pos same, get?_cons, get?_cons, ← same]
        by_cases here : name = key
        · rw [if_pos here, if_pos here]
        · rw [if_neg here, if_neg here, if_neg here]
      · rw [if_neg same, get?_cons, get?_cons, ih]
        by_cases here : name = k
        · rw [if_pos here, if_pos here, if_neg fun h => same (h.symm.trans here)]
        · rw [if_neg here, if_neg here]

theorem mem_insert {key : String} {v : α} {es : List (String × α)} {e : String × α}
    (h : e ∈ insert key v es) : e = (key, v) ∨ e ∈ es := by
  induction es with
  | nil => exact Or.inl (List.mem_singleton.mp h)
  | cons f es ih =>
    obtain ⟨k, w⟩ := f
    rw [insert] at h
    split_ifs at h
    · exact List.mem_cons.mp h
    · exact (List.mem_cons.mp h).imp id (List.mem_cons_of_mem _)
    · rcases List.mem_cons.mp h with h | h
      · exact Or.inr (h ▸ List.mem_cons_self)
      · exact (ih h).imp id (List.mem_cons_of_mem _)

/-- What holds of a value and of all values holds of them after inserting it. -/
theorem forall_values_insert {P : α → Prop} {es : List (String × α)}
    (hes : ∀ v ∈ values es, P v) (key : String) {v : α} (hv : P v) :
    ∀ w ∈ values (insert key v es), P w := by
  intro w hw
  obtain ⟨e, he, rfl⟩ := List.mem_map.mp hw
  rcases mem_insert he with rfl | he
  · exact hv
  · exact hes _ (List.mem_map_of_mem he)

theorem sorted_insert (key : String) (v : α) {es : List (String × α)} (sorted : Sorted es) :
    Sorted (insert key v es) := by
  induction es with
  | nil => exact List.pairwise_singleton _ _
  | cons e es ih =>
    obtain ⟨k, w⟩ := e
    obtain ⟨before, rest⟩ := sorted_cons.mp sorted
    rw [insert]
    split_ifs with lt same
    · refine sorted_cons.mpr ⟨fun f hf => ?_, sorted⟩
      rcases List.mem_cons.mp hf with rfl | hf
      · exact lt
      · exact lt.trans (before f hf)
    · exact sorted_cons.mpr ⟨fun f hf => same ▸ before f hf, rest⟩
    · refine sorted_cons.mpr ⟨fun f hf => ?_, ih rest⟩
      rcases mem_insert hf with rfl | hf
      · exact lt_of_le_of_ne (not_lt.mp lt) (Ne.symm same)
      · exact before f hf

theorem mem_erase {key : String} {es : List (String × α)} {e : String × α}
    (h : e ∈ erase key es) : e ∈ es := by
  induction es with
  | nil => exact h
  | cons f es ih =>
    obtain ⟨k, w⟩ := f
    rw [erase] at h
    split_ifs at h
    · exact List.mem_cons_of_mem _ h
    · rcases List.mem_cons.mp h with h | h
      · exact h ▸ List.mem_cons_self
      · exact List.mem_cons_of_mem _ (ih h)

theorem forall_values_erase {P : α → Prop} {es : List (String × α)}
    (hes : ∀ v ∈ values es, P v) (key : String) : ∀ w ∈ values (erase key es), P w := by
  intro w hw
  obtain ⟨e, he, rfl⟩ := List.mem_map.mp hw
  exact hes _ (List.mem_map_of_mem (mem_erase he))

theorem sorted_erase (key : String) {es : List (String × α)} (sorted : Sorted es) :
    Sorted (erase key es) := by
  induction es with
  | nil => exact sorted
  | cons e es ih =>
    obtain ⟨k, w⟩ := e
    obtain ⟨before, rest⟩ := sorted_cons.mp sorted
    rw [erase]
    split_ifs
    · exact rest
    · exact sorted_cons.mpr ⟨fun f hf => before f (mem_erase hf), ih rest⟩

theorem get?_erase (key name : String) {es : List (String × α)} (sorted : Sorted es) :
    get? name (erase key es) = if name = key then none else get? name es := by
  induction es with
  | nil => simp [erase]
  | cons e es ih =>
    obtain ⟨k, w⟩ := e
    obtain ⟨before, rest⟩ := sorted_cons.mp sorted
    rw [erase]
    split_ifs with same here here
    · rw [get?_eq_none]
      exact fun f hf => (here.trans same) ▸ (before f hf).ne'
    · rw [get?_cons, if_neg (same ▸ here)]
    · rw [get?_cons, if_neg (here ▸ same), ih rest, if_pos here]
    · rw [get?_cons, get?_cons, ih rest, if_neg here]

end SchemaAlgebra.Entries

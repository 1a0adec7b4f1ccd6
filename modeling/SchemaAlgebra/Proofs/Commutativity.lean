import SchemaAlgebra.Proofs.Erasure
import SchemaAlgebra.Proofs.Pairs
import SchemaAlgebra.Proofs.Production

/-!
# Intersecting in either order

It makes no difference which of two nodes is intersected with the other, as long as nodes
with the same key are the same: the result is the same node, or there is none either way.
-/
namespace SchemaAlgebra

/-- The value, or whether there are reasons why there is none. -/
def Disjoint.told {α : Type} : Except Disjoint α → Except Bool α
  | .ok a => .ok a
  | .error d => .error d.isEmpty

namespace Disjoint

theorem told_cases {α : Type} {x y : Except Disjoint α} (h : told x = told y) :
    (∃ a, x = .ok a ∧ y = .ok a) ∨ ∃ d e, x = .error d ∧ y = .error e ∧
      d.isEmpty = e.isEmpty := by
  cases x <;> cases y <;> simp [told] at h
  · exact .inr ⟨_, _, rfl, rfl, h⟩
  · exact .inl ⟨_, rfl, by rw [h]⟩

theorem told_bind {α β : Type} {x y : Except Disjoint α} {f g : α → Except Disjoint β}
    (first : told x = told y) (next : ∀ a, told (f a) = told (g a)) :
    told (x.bind f) = told (y.bind g) := by
  rcases told_cases first with ⟨a, rfl, rfl⟩ | ⟨d, e, rfl, rfl, reasons⟩
  · exact next a
  · exact congrArg Except.error reasons

theorem isEmpty_append (d e : Disjoint) : (d ++ e).isEmpty = (d.isEmpty && e.isEmpty) := by
  change (d.entries ++ e.entries).isEmpty = _
  cases h : d.entries <;> simp [isEmpty, h]

theorem isEmpty_inside (segment : String) (d : Disjoint) :
    (d.inside segment).isEmpty = d.isEmpty := by
  simp [isEmpty, inside]

end Disjoint

/-- Reduced nodes without what is erased, in whose property sets no two signatures have the same
key. No two of the nodes have the same key. -/
structure Keyed (K : Node → Prop) : Prop where
  children : ∀ c : Constraint Node, K (.of c) → ∀ m ∈ c.children, K m
  reduced : ∀ n, K n → n.Reduced
  bare : ∀ n, K n → n.erase = n
  once : ∀ p, K (.of (.props p)) → p.index.Pairwise fun s t => s.key.same t.key = false
  key : ∀ a b, K a → K b → a.key = b.key → a = b

theorem Keyed.same {K : Node → Prop} (keyed : Keyed K) {a b : Node} (ha : K a) (hb : K b) :
    a.same b = true ↔ a = b := by
  rw [Node.same_iff, keyed.bare a ha, keyed.bare b hb]

/-- Intersecting nodes of a set comes to the same in either order. -/
def Meet.Commutes (K : Node → Prop) (meet : Meet) : Prop :=
  ∀ l r, K l → K r →
    Disjoint.told ((meet l r).outcome id) = Disjoint.told ((meet r l).outcome id)

namespace Entries

theorem get?_ofList_units (names : List String) (name : String) :
    get? name (ofList (names.map (·, ()))) = if name ∈ names then some () else none := by
  have fold (es : List (String × Unit)) :
      get? name ((names.map (·, ())).foldl (fun acc (k, v) => insert k v acc) es) =
        if name ∈ names then some () else get? name es := by
    induction names generalizing es with
    | nil => simp
    | cons first names ih =>
      rw [List.map_cons, List.foldl_cons, ih, get?_insert]
      by_cases here : name = first <;> by_cases later : name ∈ names <;> simp [here, later]
  exact fold []

theorem sorted_foldl {α : Type u} (es : List (String × α)) {fs : List (String × α)}
    (sorted : Sorted fs) : Sorted (es.foldl (fun acc (k, v) => insert k v acc) fs) := by
  induction es generalizing fs with
  | nil => exact sorted
  | cons e es ih => exact ih (sorted_insert e.1 e.2 sorted)

theorem sorted_ofList {α : Type u} (es : List (String × α)) : Sorted (ofList es) :=
  sorted_foldl es sorted_nil

end Entries

namespace Properties

theorem allKeys_comm (p q : Props Node) : allKeys p q = allKeys q p := by
  unfold allKeys
  congr 1
  refine Entries.ext (Entries.sorted_ofList _) (Entries.sorted_ofList _) fun name => ?_
  rw [Entries.get?_ofList_units, Entries.get?_ofList_units]
  simp only [List.mem_append, or_comm]

/-- The properties with sorted signatures, and whether there are reasons why there are no values. -/
def Draft.told (d : Draft) : Props Node × Bool :=
  ({ d.props with index := sortedIndex d.props.index }, d.reasons.isEmpty)

namespace Draft

variable {d e : Draft}

theorem told_set (h : d.told = e.told) (key : String) (value : Node) (required : Bool) :
    (d.set key value required).told = (e.set key value required).told := by
  have set (d : Draft) : (d.set key value required).told =
      (d.told.1.insert key value required, d.told.2) := by
    cases required <;> rfl
  rw [set, set, h]

theorem told_refute (h : d.told = e.told) {reason reason' : Disjoint}
    (same : reason.isEmpty = reason'.isEmpty) :
    (d.refute reason).told = (e.refute reason').told := by
  have refute (d : Draft) (reason : Disjoint) :
      (d.refute reason).told = (d.told.1, d.told.2 && reason.isEmpty) :=
    congrArg (Prod.mk _) (Disjoint.isEmpty_append _ _)
  rw [refute, refute, h, same]

theorem told_sequence (h : d.told = e.told) (s : Option (Sequence Node)) :
    told { d with props := { d.props with sequence := s } } =
      told { e with props := { e.props with sequence := s } } :=
  congrArg (fun r : Props Node × Bool => ({ r.1 with sequence := s }, r.2)) h

theorem told_presence (h : d.told = e.told) (path path' : List String) (a b a' b' : Node) :
    (d.presence path a b).told = (e.presence path' a' b').told := told_refute h rfl

end Draft

section

variable {K : Node → Prop} {meet : Meet} (commutes : meet.Commutes K)
include commutes

theorem meetOrNever_comm {a b : Node} (ha : K a) (hb : K b) :
    (meetOrNever meet a b).value id = (meetOrNever meet b a).value id := by
  rw [meetOrNever, meetOrNever, Traced.value_bind, Traced.value_bind, Attempt.value_run,
    Attempt.value_run]
  rcases Disjoint.told_cases
    (commutes a b ha hb) with ⟨n, ok, ok'⟩ | ⟨d, e, failed, failed', -⟩
  · rw [ok, ok']
  · rw [failed, failed']

theorem meetNamed_comm {d e : Draft} (h : d.told = e.told) (key : String) {a b : Node} (ha : K a)
    (hb : K b) (inLeft inRight : Bool) : ((meetNamed meet d key a b inLeft inRight).value id).told =
      ((meetNamed meet e key b a inRight inLeft).value id).told := by
  rw [meetNamed, meetNamed, Traced.value_bind, Traced.value_bind, Attempt.value_run,
    Attempt.value_run]
  rcases Disjoint.told_cases
    (commutes a b ha hb) with ⟨n, ok, ok'⟩ | ⟨x, y, failed, failed', reasons⟩
  · rw [ok, ok']
    dsimp only
    rw [Bool.or_comm inRight inLeft]
    split_ifs
    · exact Draft.told_presence h _ _ _ _ _ _
    · exact Draft.told_set h _ _ _
  · rw [failed, failed']
    dsimp only
    rw [Bool.and_comm (!inRight), Bool.and_comm inRight]
    split_ifs
    · exact Draft.told_set h _ _ _
    · exact Draft.told_refute h (by rw [Disjoint.isEmpty_inside, Disjoint.isEmpty_inside, reasons])
    · exact Draft.told_presence h _ _ _ _ _ _

theorem meetKeys_comm {p q : Props Node} (hp : ∀ m ∈ p.values, K m)
    (hq : ∀ m ∈ q.values, K m) {d e : Draft} (h : d.told = e.told) (keys : List String) :
    ((meetKeys meet p q d keys).value id).told = ((meetKeys meet q p e keys).value id).told := by
  have one {d e : Draft} (h : d.told = e.told) (key : String) :
      ((meetKey meet p q d key).value id).told = ((meetKey meet q p e key).value id).told := by
    rw [meetKey, meetKey]
    rcases left : p.get? key with _ | ⟨a, inLeft⟩ <;> rcases right :
      q.get? key with _ | ⟨b, inRight⟩
    · exact h
    · exact Draft.told_set h _ _ _
    · exact Draft.told_set h _ _ _
    · exact meetNamed_comm commutes h key (hp a (Props.mem_values_of_get? left))
        (hq b (Props.mem_values_of_get? right)) inLeft inRight
  induction keys generalizing d e with
  | nil => exact h
  | cons key r ih =>
    rw [value_meetKeys, value_meetKeys]
    exact ih (one h key)

omit commutes in
theorem lengthsClash_comm (s t : Sequence Node) : lengthsClash s t = lengthsClash t s := by
  unfold lengthsClash
  rcases s.fixedLength? with _ | m <;> rcases t.fixedLength? with _ | n
  · rfl
  · rfl
  · rfl
  · by_cases same : m = n
    · rw [same]
    · exact (bne_iff_ne.mpr same).trans (bne_iff_ne.mpr (Ne.symm same)).symm

omit commutes in
theorem listedLength_comm {s t : Sequence Node} (fits : lengthsClash s t = false) :
    listedLength s t = listedLength t s := by
  unfold lengthsClash at fits
  unfold listedLength
  rcases left : s.fixedLength? with _ | m <;> rcases right : t.fixedLength? with _ | n <;>
    simp_all [Nat.max_comm]

theorem meetItems_comm {s t : Sequence Node} (hs : ∀ m ∈ s.values, K m)
    (ht : ∀ m ∈ t.values, K m) (items : List Node) {reasons reasons' : Disjoint}
    (h : reasons.isEmpty = reasons'.isEmpty) (places : List Nat) :
    ((meetItems meet s t items reasons places).value id).1 =
        ((meetItems meet t s items reasons' places).value id).1 ∧
      ((meetItems meet s t items reasons places).value id).2.isEmpty =
        ((meetItems meet t s items reasons' places).value id).2.isEmpty := by
  induction places generalizing items reasons reasons' with
  | nil => exact ⟨rfl, h⟩
  | cons i r ih =>
    rw [meetItems, meetItems]
    rcases left : s.at? i with _ | a <;> rcases right : t.at? i with _ | b
    · exact ih items h
    · exact ih items h
    · exact ih items h
    · dsimp only
      rw [Traced.value_bind, Traced.value_bind, Attempt.value_run, Attempt.value_run]
      have ha := hs a (Sequence.mem_values_of_at? left)
      have hb := ht b (Sequence.mem_values_of_at? right)
      rcases Disjoint.told_cases
        (commutes a b ha hb) with ⟨n, ok, ok'⟩ | ⟨x, y, failed, failed', same⟩
      · rw [ok, ok']
        dsimp only
        split_ifs
        · exact ih items (by rw [Disjoint.isEmpty_append, Disjoint.isEmpty_append, h]; rfl)
        · exact ih _ h
      · rw [failed, failed']
        exact ih items (by simp only [Disjoint.isEmpty_append, Disjoint.isEmpty_inside, h, same])

theorem meetRest_comm {a b : Option Node} (ha : ∀ m ∈ a, K m) (hb : ∀ m ∈ b, K m) :
    (meetRest meet a b).value id = (meetRest meet b a).value id := by
  cases a <;> cases b
  · rfl
  · rfl
  · rfl
  · rw [value_meetRest, value_meetRest, meetOrNever_comm commutes (ha _ rfl) (hb _ rfl)]

theorem meetSequences_comm {s t : Sequence Node} (hs : ∀ m ∈ s.values, K m)
    (ht : ∀ m ∈ t.values, K m) :
    Disjoint.told ((meetSequences meet s t).outcome id) = Disjoint.told
      ((meetSequences meet t s).outcome id) := by
  rw [meetSequences, meetSequences, lengthsClash_comm t s]
  by_cases clash : lengthsClash s t = true
  · rw [if_pos clash, if_pos clash]
    rfl
  · rw [Bool.not_eq_true] at clash
    simp only [clash, Bool.false_eq_true, if_false, listedLength_comm clash, Attempt.outcome_bind,
      Attempt.outcome_monadLift, Except.bind]
    obtain ⟨items, reasons⟩ :=
      meetItems_comm commutes hs ht [] rfl (List.range (listedLength t s))
    rw [items, reasons]
    generalize (meetItems meet s t [] .none (List.range (listedLength t s))).value id =
      found at reasons
    generalize (meetItems meet t s [] .none (List.range (listedLength t s))).value id =
      found' at items reasons ⊢
    split_ifs with empty
    · exact congrArg Except.error reasons
    · rw [Attempt.outcome_bind, Attempt.outcome_bind, Attempt.outcome_monadLift,
        Attempt.outcome_monadLift,
        meetRest_comm commutes (fun m hm =>
          hs m (List.mem_append_right _ (Option.mem_toList.mpr hm)))
          fun m hm => ht m (List.mem_append_right _ (Option.mem_toList.mpr hm))]

theorem meetSequence_comm {p q : Props Node} (hp : ∀ m ∈ p.values, K m)
    (hq : ∀ m ∈ q.values, K m) {d e : Draft} (h : d.told = e.told) :
    ((meetSequence meet p q d).value id).told = ((meetSequence meet q p e).value id).told := by
  rw [meetSequence, meetSequence]
  rcases left : p.sequence with _ | s <;> rcases right : q.sequence with _ | t
  · exact Draft.told_sequence h none
  · exact Draft.told_sequence h (some t)
  · exact Draft.told_sequence h (some s)
  · dsimp only
    rw [Traced.value_bind, Traced.value_bind, Attempt.value_run, Attempt.value_run]
    have both := meetSequences_comm commutes
        (fun m hm => hp m (Props.mem_values_of_sequence left hm))
      fun m hm => hq m (Props.mem_values_of_sequence right hm)
    rcases Disjoint.told_cases both with ⟨u, ok, ok'⟩ | ⟨x, y, failed, failed', reasons⟩
    · rw [ok, ok']
      exact Draft.told_sequence h (some u)
    · rw [failed, failed']
      exact Draft.told_refute h reasons

def Once (index : List (Signature Node)) : Prop :=
  index.Pairwise fun s t => s.key.same t.key = false

/-- The value of the signature with the given key. -/
def valueAt (key : Node) : List (Signature Node) → Option Node
  | [] => none
  | s :: r => if s.key.same key then some s.value else valueAt key r

def both (meet : Meet) : Option Node → Option Node → Option Node
  | some a, some b => some ((meetOrNever meet a b).value id)
  | some a, none => some a
  | none, b => b

omit commutes in
theorem both_none (a : Option Node) : both meet a none = a := by
  cases a <;> rfl

omit commutes in
theorem valueAt_eq_some {key v : Node} {index : List (Signature Node)}
    (h : valueAt key index = some v) : ∃ s ∈ index, s.key.same key = true ∧ s.value = v := by
  induction index with
  | nil => cases h
  | cons s r ih =>
    rw [valueAt] at h
    split_ifs at h with here
    · exact ⟨s, List.mem_cons_self, here, Option.some.inj h⟩
    · obtain ⟨t, ht, same, value⟩ := ih h
      exact ⟨t, List.mem_cons_of_mem s ht, same, value⟩

omit commutes in
theorem valueAt_eq_none {key : Node} {index : List (Signature Node)}
    (h : ∀ s ∈ index, s.key.same key = false) : valueAt key index = none := by
  cases found : valueAt key index with
  | none => rfl
  | some v =>
    obtain ⟨s, hs, same, -⟩ := valueAt_eq_some found
    rw [h s hs] at same
    cases same

omit commutes in
theorem valueAt_of_mem {s : Signature Node} {index : List (Signature Node)} (once : Once index)
    (hs : s ∈ index) : valueAt s.key index = some s.value := by
  induction index with
  | nil => cases hs
  | cons t r ih =>
    obtain ⟨first, rest⟩ := List.pairwise_cons.mp once
    rw [valueAt]
    rcases List.mem_cons.mp hs with rfl | hs
    · rw [if_pos (Node.same_refl _)]
    · rw [if_neg (by rw [first s hs]; exact Bool.false_ne_true), ih rest hs]

omit commutes in
theorem valueAt_addSignature (s : Signature Node) (index : List (Signature Node)) (key : Node) :
    valueAt key ((addSignature meet s index).value id) =
      if s.key.same key then both meet (valueAt key index) (some s.value) else valueAt key
        index := by
  induction index with
  | nil => rfl
  | cons t r ih =>
    rw [value_addSignature]
    by_cases known : t.key.same s.key = true
    · rw [if_pos known, Node.same_congr (Node.same_symm known) (Node.same_refl key),
        valueAt, valueAt]
      split_ifs <;> rfl
    · rw [if_neg known, valueAt, ih, valueAt]
      split_ifs with here there
      · exact absurd (Node.same_trans here (Node.same_symm there)) known
      · rfl
      · rfl
      · rfl

omit commutes in
theorem valueAt_meetIndex (index : List (Signature Node)) {others : List (Signature Node)}
    (once : Once others) (key : Node) : valueAt key ((meetIndex meet index others).value id) =
      both meet (valueAt key index) (valueAt key others) := by
  induction others generalizing index with
  | nil => exact (both_none _).symm
  | cons s r ih =>
    obtain ⟨first, rest⟩ := List.pairwise_cons.mp once
    rw [meetIndex, Traced.value_bind, ih _ rest, valueAt_addSignature, valueAt]
    split_ifs with here
    · have fresh : valueAt key r = none := valueAt_eq_none fun t ht => by
        rw [← Node.same_congr (Node.same_refl t.key) here, Node.same_comm]
        exact first t ht
      rw [fresh, both_none]
    · rfl

omit commutes in
/-- Every key of the signatures is one of those before, or that of the added one. -/
theorem key_of_addSignature {s t : Signature Node} {index : List (Signature Node)}
    (ht : t ∈ (addSignature meet s index).value id) :
    t.key = s.key ∨ ∃ u ∈ index, u.key = t.key := by
  induction index with
  | nil =>
    rw [show t = s from List.mem_singleton.mp ht]
    exact .inl rfl
  | cons u r ih =>
    rw [value_addSignature] at ht
    by_cases known : u.key.same s.key = true
    · rw [if_pos known] at ht
      rcases List.mem_cons.mp ht with rfl | ht
      · exact .inr ⟨u, List.mem_cons_self, rfl⟩
      · exact .inr ⟨t, List.mem_cons_of_mem u ht, rfl⟩
    · rw [if_neg known] at ht
      rcases List.mem_cons.mp ht with rfl | ht
      · exact .inr ⟨t, List.mem_cons_self, rfl⟩
      · exact (ih ht).imp id (Exists.imp fun w => And.imp_left (List.mem_cons_of_mem u))

omit commutes in
theorem once_addSignature (meet : Meet) (s : Signature Node) {index : List (Signature Node)}
    (once : Once index) : Once ((addSignature meet s index).value id) := by
  induction index with
  | nil => exact List.pairwise_singleton _ _
  | cons u r ih =>
    obtain ⟨first, rest⟩ := List.pairwise_cons.mp once
    rw [value_addSignature]
    by_cases known : u.key.same s.key = true
    · rw [if_pos known]
      exact List.pairwise_cons.mpr ⟨first, rest⟩
    · rw [if_neg known]
      refine List.pairwise_cons.mpr ⟨fun t ht => ?_, ih rest⟩
      rcases key_of_addSignature ht with same | ⟨w, hw, same⟩
      · rw [same]
        exact Bool.eq_false_iff.mpr known
      · exact same ▸ first w hw

omit commutes in
theorem meetIndex_keys (meet : Meet) {index : List (Signature Node)}
    (others : List (Signature Node)) (once : Once index) :
    Once ((meetIndex meet index others).value id) ∧
      ∀ t ∈ (meetIndex meet index others).value id, ∃ u, (u ∈ index ∨ u ∈ others) ∧
        u.key = t.key := by
  induction others generalizing index with
  | nil => exact ⟨once, fun t ht => ⟨t, .inl ht, rfl⟩⟩
  | cons s r ih =>
    obtain ⟨result, keys⟩ := ih (once_addSignature meet s once)
    rw [value_meetIndex]
    refine ⟨result, fun t ht => ?_⟩
    obtain ⟨u, hu | hu, same⟩ := keys t ht
    · rcases key_of_addSignature hu with added | ⟨w, hw, same'⟩
      · exact ⟨s, .inr List.mem_cons_self, added.symm.trans same⟩
      · exact ⟨w, .inl hw, same'.trans same⟩
    · exact ⟨u, .inr (List.mem_cons_of_mem s hu), same⟩

theorem meetIndex_comm (keyed : Keyed K) {index others : List (Signature Node)} (once : Once index)
    (once' : Once others) (hi : ∀ s ∈ index, K s.key ∧ K s.value)
    (ho : ∀ s ∈ others, K s.key ∧ K s.value) :
    sortedIndex ((meetIndex meet index others).value id) =
      sortedIndex ((meetIndex meet others index).value id) := by
  obtain ⟨left, keys⟩ := meetIndex_keys meet others once
  obtain ⟨right, keys'⟩ := meetIndex_keys meet index once'
  have inside : ∀ u, u ∈ index ∨ u ∈ others → K u.key := fun u hu =>
    hu.elim (fun h => (hi u h).1) fun h => (ho u h).1
  have known {t : Signature Node} (ht : t ∈ (meetIndex meet index others).value id) :
      K t.key := by
    obtain ⟨u, hu, same⟩ := keys t ht
    exact same ▸ inside u hu
  have known' {t : Signature Node} (ht : t ∈ (meetIndex meet others index).value id) :
      K t.key := by
    obtain ⟨u, hu, same⟩ := keys' t ht
    exact same ▸ inside u hu.symm
  have values (key : Node) : valueAt key ((meetIndex meet index others).value id) =
      valueAt key ((meetIndex meet others index).value id) := by
    rw [valueAt_meetIndex index once', valueAt_meetIndex others once]
    rcases found : valueAt key index with _ | a <;> rcases found' : valueAt key others with _ | b
    · rfl
    · rfl
    · rfl
    · obtain ⟨s, hs, -, rfl⟩ := valueAt_eq_some found
      obtain ⟨t, ht, -, rfl⟩ := valueAt_eq_some found'
      exact congrArg some (meetOrNever_comm commutes (hi s hs).2 (ho t ht).2)
  have distinct {index : List (Signature Node)} (once : Once index) : index.Nodup :=
    once.imp fun different same => by
      rw [same, Node.same_refl] at different
      cases different
  have one_way {l r : List (Signature Node)} (once : Once l) (hl : ∀ t ∈ l, K t.key)
      (hr : ∀ t ∈ r, K t.key) (values : ∀ key, valueAt key l = valueAt key r)
      {t : Signature Node} (ht : t ∈ l) : t ∈ r := by
    obtain ⟨u, hu, same, value⟩ :=
      valueAt_eq_some ((values t.key).symm.trans (valueAt_of_mem once ht))
    have one : u = t := by
      obtain ⟨key, v⟩ := t
      obtain ⟨key', v'⟩ := u
      rw [Signature.mk.injEq]
      exact ⟨(keyed.same (hr _ hu) (hl _ ht)).mp same, value⟩
    exact one ▸ hu
  refine Sorting.sort_congr (f := fun s : Signature Node => s.key.key) (fun _ _ => rfl) ?_
    fun s hs t ht same => ?_
  · exact (List.perm_ext_iff_of_nodup (distinct left) (distinct right)).mpr fun t =>
      ⟨one_way left (fun _ => known) (fun _ => known') values,
        one_way right (fun _ => known') (fun _ => known) fun key => (values key).symm⟩
  · by_contra different
    have symmetric : Std.Symm fun s t : Signature Node => s.key.same t.key = false :=
      ⟨fun s t h => (Node.same_comm t.key s.key).trans h⟩
    have apart := left.forall hs ht different
    rw [keyed.key _ _ (known hs) (known ht) same, Node.same_refl] at apart
    cases apart

variable [Library]

omit commutes in
theorem normalize_congr {p q : Props Node}
    (h : { p with index := sortedIndex p.index } = { q with index := sortedIndex q.index }) :
    normalize meet p = normalize meet q := by
  have index := congrArg Props.index h
  dsimp only at index
  unfold normalize
  dsimp only
  rw [h, index]

omit commutes in
theorem finish_normalize {d e : Draft} (h : d.told = e.told) :
    Disjoint.told ((d.finish.outcome id).bind fun both => (normalize meet both).outcome id) =
      Disjoint.told ((e.finish.outcome id).bind fun both => (normalize meet both).outcome id) := by
  obtain ⟨props, reasons⟩ := Prod.mk.inj h
  unfold Draft.finish
  rw [reasons]
  split_ifs with empty
  · exact congrArg (fun x => Disjoint.told (x.outcome id)) (normalize_congr props)
  · exact congrArg Except.error reasons

theorem meetProps_comm (keyed : Keyed K) {p q : Props Node} (hp : K (.of (.props p)))
    (hq : K (.of (.props q))) :
    Disjoint.told ((meetProps meet p q).outcome id) = Disjoint.told
      ((meetProps meet q p).outcome id) := by
  have left := keyed.children _ hp
  have right := keyed.children _ hq
  have index := meetIndex_comm commutes keyed (keyed.once p hp) (keyed.once q hq)
    (fun s hs => ⟨left _ (Props.mem_values_of_index hs).1,
      left _ (Props.mem_values_of_index hs).2⟩)
    (fun s hs => ⟨right _ (Props.mem_values_of_index hs).1,
      right _ (Props.mem_values_of_index hs).2⟩)
  have named := meetKeys_comm commutes left right (d := ⟨.empty, .none⟩) rfl (allKeys p q)
  rw [outcome_meetProps, outcome_meetProps, allKeys_comm q p]
  refine finish_normalize (meetSequence_comm commutes left right ?_)
  obtain ⟨props, reasons⟩ := Prod.mk.inj named
  refine Prod.ext ?_ reasons
  dsimp only [Draft.told, Draft.withIndex]
  rw [index]
  generalize sortedIndex ((meetIndex meet q.index p.index).value id) = sorted
  exact congrArg (fun p : Props Node => { p with index := sorted }) props

end

end Properties

end SchemaAlgebra

import SchemaAlgebra.Proofs.Merging

/-!
# Intersected properties

Under every key intersected properties have a value below the values on both sides. Normalising
narrows the named keys by the signatures that match them, so what intersected properties take is
taken on both sides: by a named key where there is one, and else by the signatures.
-/
namespace SchemaAlgebra
namespace Props

section

variable {α : Type u}

/-- The required keys are in order, and so are the optional ones. -/
structure Sorted (p : Props α) : Prop where
  required : Entries.Sorted p.required
  optional : Entries.Sorted p.optional

/-- No named key is both required and optional. -/
structure Tidy (p : Props α) : Prop extends p.Sorted where
  apart : ∀ key v w, Entries.get? key p.required = some v →
    Entries.get? key p.optional ≠ some w

theorem tidy_empty : (empty : Props α).Tidy :=
  ⟨⟨Entries.sorted_nil, Entries.sorted_nil⟩, nofun⟩

theorem get?_insert {p : Props α} (sorted : p.Sorted) (key name : String) (v : α)
    (required : Bool) :
    (p.insert key v required).get? name = if name = key then some (v, required) else p.get?
      name := by
  cases required with
  | true =>
    simp only [insert, if_true, get?, Entries.get?_insert,
      Entries.get?_erase key name sorted.optional]
    split_ifs <;> rfl
  | false =>
    simp only [insert, Bool.false_eq_true, if_false, get?, Entries.get?_insert,
      Entries.get?_erase key name sorted.required]
    split_ifs <;> rfl

theorem Sorted.insert {p : Props α} (sorted : p.Sorted) (key : String) (v : α) (required : Bool) :
    (p.insert key v required).Sorted := by
  cases required with
  | true =>
    exact ⟨Entries.sorted_insert key v sorted.required,
      Entries.sorted_erase key sorted.optional⟩
  | false =>
    exact ⟨Entries.sorted_erase key sorted.required,
      Entries.sorted_insert key v sorted.optional⟩

theorem Tidy.insert {p : Props α} (tidy : p.Tidy) (key : String) (v : α) (required : Bool) :
    (p.insert key v required).Tidy := by
  refine ⟨tidy.toSorted.insert key v required, fun name x y hx => ?_⟩
  have apart (name : String) (v w : α) := tidy.apart name v w
  cases required with
  | true =>
    simp only [Props.insert, if_true, Entries.get?_insert,
      Entries.get?_erase key name tidy.optional] at hx ⊢
    split_ifs at hx ⊢
    · simp
    · exact apart name x y hx
  | false =>
    simp only [Props.insert, Bool.false_eq_true, if_false, Entries.get?_insert,
      Entries.get?_erase key name tidy.required] at hx ⊢
    split_ifs at hx ⊢
    exact apart name x y hx

theorem mem_namedKeys {p : Props α} {name : String} : name ∈ p.namedKeys ↔
    (p.get? name).isSome := by
  rw [namedKeys, List.mem_append, Entries.mem_keys, Entries.mem_keys, get?]
  cases Entries.get? name p.required <;> simp

theorem Tidy.nodup {p : Props α} (tidy : p.Tidy) : p.namedKeys.Nodup := by
  have keys {es : List (String × α)} (sorted : Entries.Sorted es) : (Entries.keys es).Nodup :=
    List.pairwise_map.mpr (sorted.imp fun less => less.ne)
  refine List.nodup_append.mpr
    ⟨keys tidy.required, keys tidy.optional, fun name hr other ho same => ?_⟩
  subst same
  obtain ⟨v, hv⟩ := Option.isSome_iff_exists.mp (Entries.mem_keys.mp hr)
  obtain ⟨w, hw⟩ := Option.isSome_iff_exists.mp (Entries.mem_keys.mp ho)
  exact tidy.apart name v w hv hw

theorem mem_of_get? {p : Props α} {key : String} {v : α} {required : Bool}
    (h : p.get? key = some (v, required)) :
    (key, v) ∈ if required then p.required else p.optional := by
  rw [get?] at h
  cases hr : Entries.get? key p.required with
  | some w =>
    rw [hr] at h
    cases h
    exact Entries.mem_of_get? hr
  | none =>
    rw [hr] at h
    obtain ⟨w, hw, same⟩ := Option.map_eq_some_iff.mp h
    cases same
    exact Entries.mem_of_get? hw

/-- Where no key is named twice, every entry is found under its key. -/
theorem get?_of_mem {p : Props α} (nodup : p.namedKeys.Nodup) {e : String × α} {required : Bool}
    (he : e ∈ if required then p.required else p.optional) :
    p.get? e.1 = some (e.2, required) := by
  have found {es : List (String × α)} (distinct : (Entries.keys es).Nodup) (he : e ∈ es) :
      Entries.get? e.1 es = some e.2 := by
    induction es with
    | nil => cases he
    | cons f es ih =>
      obtain ⟨fresh, distinct⟩ := List.nodup_cons.mp distinct
      rw [Entries.get?_cons]
      rcases List.mem_cons.mp he with rfl | he
      · exact if_pos rfl
      · have other : e.1 ≠ f.1 := fun same => fresh (List.mem_map.mpr ⟨e, he, same⟩)
        rw [if_neg other, ih distinct he]
  obtain ⟨required', optional, apart⟩ := List.nodup_append.mp nodup
  rw [get?]
  cases required with
  | true => rw [found required' he]
  | false =>
    have absent : Entries.get? e.1 p.required = none :=
      Entries.get?_eq_none.mpr fun f hf same => apart f.1 (List.mem_map_of_mem hf) e.1
        (List.mem_map_of_mem he) same
    rw [absent, found optional he]
    rfl

end

theorem Takes.entry {p : Props Node} {f : Node → Json → Bool} {d : Json} (h : p.Takes f d)
    {key : String} {v : Node} {required : Bool} (found : p.get? key = some (v, required)) :
    TakesEntry f d required (key, v) := by
  have member := mem_of_get? found
  cases required with
  | true => exact h.required _ member
  | false => exact h.optional _ member

end Props

variable [Library]

section

variable (σ : String → Json → Bool)

/-- What is under a key is kept, with a value below, and required if it was. -/
def Narrower (old new : Option (Node × Bool)) : Prop :=
  ∀ v r, old = some (v, r) → ∃ w r', new = some (w, r') ∧ w.Below σ v ∧
    (r = true → r' = true)

/-- What is under a key is as required as it was, with a value below, and nothing is under a key
where nothing was. -/
inductive Slims : Option (Node × Bool) → Option (Node × Bool) → Prop
  | none : Slims none none
  | some {v w : Node} (below : w.Below σ v) (required : Bool) :
    Slims (some (v, required)) (some (w, required))

/-- The lengths and the items of one sequence are those of another one. -/
def Sequence.Below (s t : Sequence Node) : Prop :=
  ∀ xs : List Json, (∀ x ∈ xs, x.Ordered) →
    (s.map (Node.admitsWith fun _ => σ)).admits xs = true →
    (t.map (Node.admitsWith fun _ => σ)).admits xs = true

/-- The properties narrow others part by part. -/
structure Props.Within (p q : Props Node) : Prop where
  named : ∀ key, Narrower σ (q.get? key) (p.get? key)
  index : ∀ s ∈ q.index, ∃ t ∈ p.index, t.key.same s.key = true ∧ t.value.Below σ s.value
  sequence : ∀ s, q.sequence = some s → ∃ t, p.sequence = some t ∧ t.Below σ s

/-- Where a signature matches a named key, the value of the key is below that of the signature. A
key that depends on an alias is left to validation. -/
def Props.Narrowed (p : Props Node) : Prop :=
  ∀ s ∈ p.index, s.key.hasAlias = false →
    ∀ key v required, p.get? key = some (v, required) →
    s.key.admits (.string key) = true → v.Below σ s.value

end

variable {N : Nat} {σ : String → Json → Bool}

namespace Narrower

variable {old new last : Option (Node × Bool)}

theorem refl (o : Option (Node × Bool)) : Narrower σ o o :=
  fun v r h => ⟨v, r, h, .refl v, id⟩

theorem trans (h : Narrower σ old new) (h' : Narrower σ new last) : Narrower σ old last := by
  intro v r hv
  obtain ⟨w, r', hw, below, required⟩ := h v r hv
  obtain ⟨x, r'', hx, below', required'⟩ := h' w r' hw
  exact ⟨x, r'', hx, below'.trans below, fun hr => required' (required hr)⟩

theorem of_none (new : Option (Node × Bool)) : Narrower σ none new := nofun

theorem some {v w : Node} {r r' : Bool} (below : w.Below σ v) (required : r = true → r' = true) :
    Narrower σ (.some (v, r)) (.some (w, r')) := by
  intro v' s hv
  cases hv
  exact ⟨w, r', rfl, below, required⟩

end Narrower

namespace Slims

variable {old new last : Option (Node × Bool)}

theorem refl (o : Option (Node × Bool)) : Slims σ o o := by
  cases o with
  | none => exact .none
  | some found => exact .some (.refl found.1) found.2

theorem trans (h : Slims σ old new) (h' : Slims σ new last) : Slims σ old last := by
  cases h with
  | none => exact h'
  | some below required =>
    cases h' with
    | some below' => exact .some (below'.trans below) required

theorem narrower (h : Slims σ old new) : Narrower σ old new := by
  cases h with
  | none => exact .refl _
  | some below required => exact .some below id

theorem exists_old (h : Slims σ old new) {w : Node} {r : Bool} (hw : new = .some (w, r)) :
    ∃ v, old = .some (v, r) ∧ w.Below σ v := by
  cases h with
  | none => cases hw
  | some below required =>
    cases hw
    exact ⟨_, rfl, below⟩

end Slims

namespace Sequence.Below

theorem refl (s : Sequence Node) : s.Below σ s := fun _ _ => id

theorem of_items {s t : Sequence Node}
    (lengths : ∀ n, s.admitsLength n = true → t.admitsLength n = true)
    (items : ∀ i m, t.at? i = some m → ∀ n, s.admitsLength n = true → i < n →
      ∃ k, s.at? i = some k ∧ k.Below σ m) : s.Below σ t := by
  intro xs ordered
  rw [Sequence.admits_iff, Sequence.admits_iff]
  rintro ⟨length, admitted⟩
  refine ⟨lengths _ length, fun i x m hx hm => ?_⟩
  obtain ⟨within, -⟩ := List.getElem?_eq_some_iff.mp hx
  obtain ⟨k, hk, below⟩ := items i m hm xs.length length within
  exact below x (ordered x (List.mem_of_getElem? hx)) (admitted i x k hx hk)

end Sequence.Below

/-- Properties that are narrowed by their signatures and narrow others part by part are below them.
-/
theorem Props.Within.below {p q : Props Node} (h : p.Within σ q) (narrowed : p.Narrowed σ)
    (nodup : q.namedKeys.Nodup) (keys : ∀ s ∈ q.index, s.key.hasAlias = false) :
    Node.Below σ (.of (.props p)) (.of (.props q)) := by
  intro d ordered admitted
  rw [Node.admitsWith_props] at admitted ⊢
  have entry (required : Bool) {e : String × Node}
      (he : e ∈ if required then q.required else q.optional) :
      TakesEntry (Node.admitsWith fun _ => σ) d required e := by
    obtain ⟨w, r, found, below, still⟩ := h.named e.1 _ _ (get?_of_mem nodup he)
    obtain ⟨present, taken⟩ := admitted.entry found
    exact ⟨fun hr => present (still hr), fun x hx => below x (ordered.get? hx) (taken x hx)⟩
  refine ⟨fun e he => entry true he, fun e he => entry false he, ?_, ?_⟩
  · rintro s hs entries rfl e he - matched
    obtain ⟨t, ht, same, below⟩ := h.index s hs
    have hasAlias : t.key.hasAlias = false := (Node.hasAlias_congr same).trans (keys s hs)
    rw [← Node.admitsWith_congr same] at matched
    refine below e.2 (ordered.entry e he) ?_
    by_cases named : e.1 ∈ p.namedKeys
    · obtain ⟨⟨v, r⟩, found⟩ := Option.isSome_iff_exists.mp (mem_namedKeys.mp named)
      rw [Node.admitsWith_eq_admits hasAlias] at matched
      refine narrowed t ht hasAlias e.1 v r found matched e.2 (ordered.entry e he) ?_
      exact (admitted.entry found).2 e.2 (ordered.get?_of_mem he)
    · exact admitted.index t ht entries rfl e he named matched
  · intro s hs xs hd
    obtain ⟨t, ht, below⟩ := h.sequence s hs
    exact below xs (hd ▸ ordered).item (admitted.sequence t ht xs hd)

omit [Library] in
theorem Disjoint.isEmpty_single (c : Clash) (path : List String) (l r : Node) :
    (single c path l r).isEmpty = false := rfl

/-- Nodes that the property belongs to are intersected to a clear one below both, or there is a
reason why not. -/
def Meet.Narrows (N : Nat) (σ : String → Json → Bool) (meet : Meet) : Prop :=
  ∀ l r, l.Clear N → r.Clear N →
    Attempt.Ensures .lasting (meet l r) (Node.Meets N σ l r) fun d => d.isEmpty = false

omit [Library] in
theorem Node.never_clear : Node.Clear N .never := .leaf (List.forall_mem_nil _) trivial rfl

omit [Library] in
theorem Traced.never_lasting {Q : Node → Prop} (h : Q .never) : Traced.never.Ensures .lasting Q :=
  build_lasting h

namespace Properties

namespace Draft

/-- What is found so far is sorted and clear. -/
structure Kept (N : Nat) (d : Draft) : Prop where
  sorted : d.props.Sorted
  values : ∀ m ∈ d.props.values, m.Clear N

omit [Library]

theorem Kept.set {d : Draft} (h : d.Kept N) (key : String) {v : Node} (hv : v.Clear N)
    (required : Bool) : (d.set key v required).Kept N :=
  ⟨h.sorted.insert key v required, Props.values_insert h.values key hv required⟩

theorem get?_set {d : Draft} (h : d.Kept N) (key name : String) (v : Node) (required : Bool) :
    (d.set key v required).props.get? name =
      if name = key then some (v, required) else d.props.get? name :=
  Props.get?_insert h.sorted key name v required

theorem isEmpty_refute {d : Draft} {reason : Disjoint} : (d.refute reason).reasons.isEmpty =
    (d.reasons.isEmpty && reason.isEmpty) := Disjoint.isEmpty_append _ _

end Draft

/-- From the first draft to the second nothing changes but what is under the keys. -/
structure Changes (N : Nat) (keys : List String) (d e : Draft) : Prop where
  kept : e.Kept N
  tidy : d.props.Tidy → e.props.Tidy
  reasons : e.reasons.isEmpty = true → d.reasons.isEmpty = true
  others : ∀ name, name ∉ keys → e.props.get? name = d.props.get? name

namespace Changes

variable {keys : List String} {d e f : Draft}

omit [Library]

theorem refl (h : d.Kept N) : Changes N keys d d := ⟨h, id, id, fun _ _ => rfl⟩

theorem trans {key : String} (h : Changes N [key] d e) (h' : Changes N keys e f) :
    Changes N (key :: keys) d f := by
  refine ⟨h'.kept, fun tidy => h'.tidy (h.tidy tidy),
    fun none => h.reasons (h'.reasons none), ?_⟩
  intro name absent
  rw [List.mem_cons, not_or] at absent
  rw [h'.others name absent.2, h.others name (by simpa using absent.1)]

theorem set (h : d.Kept N) (key : String) {v : Node} (hv : v.Clear N) (required : Bool) :
    Changes N [key] d (d.set key v required) := by
  refine ⟨h.set key hv required, fun tidy => tidy.insert key v required, id,
    fun name other => ?_⟩
  rw [Draft.get?_set h, if_neg (List.ne_of_not_mem_cons other)]

theorem refute (h : d.Kept N) (key : String) (reason : Disjoint) :
    Changes N [key] d (d.refute reason) := by
  refine ⟨⟨h.sorted, h.values⟩, id, fun none => ?_, fun _ _ => rfl⟩
  rw [Draft.isEmpty_refute, Bool.and_eq_true] at none
  exact none.1

end Changes

section

variable {meet : Meet} (narrows : meet.Narrows N σ)

/-- Unless there are reasons, what is under the key is below what is there on both sides. -/
def Covers (σ : String → Json → Bool) (p q : Props Node) (e : Draft) (key : String) : Prop :=
  e.reasons.isEmpty = true →
    Narrower σ (p.get? key) (e.props.get? key) ∧ Narrower σ (q.get? key) (e.props.get? key)

include narrows

theorem meetNamed_covers {d : Draft} (hd : d.Kept N) (key : String) {a b : Node} (ha : a.Clear N)
    (hb : b.Clear N) (inLeft inRight : Bool) :
    (meetNamed meet d key a b inLeft inRight).Ensures .lasting fun e => Changes N [key] d e ∧
      (e.reasons.isEmpty = true → Narrower σ (some (a, inLeft)) (e.props.get? key) ∧
        Narrower σ (some (b, inRight)) (e.props.get? key)) := by
  have refuted {reason : Disjoint} (some_reason : reason.isEmpty = false) :
      Changes N [key] d (d.refute reason) ∧
      ((d.refute reason).reasons.isEmpty = true →
        Narrower σ (some (a, inLeft)) (d.props.get? key) ∧
        Narrower σ (some (b, inRight)) (d.props.get? key)) := by
    refine ⟨.refute hd key reason, fun none => ?_⟩
    rw [Draft.isEmpty_refute, some_reason, Bool.and_false] at none
    cases none
  have placed {v : Node} (hv : v.Clear N) (left : v.Below σ a) (right : v.Below σ b)
      {required : Bool} (inEither : inLeft = true ∨ inRight = true → required = true) :
      Changes N [key] d (d.set key v required) ∧
      ((d.set key v required).reasons.isEmpty = true →
        Narrower σ (some (a, inLeft)) ((d.set key v required).props.get? key) ∧
          Narrower σ (some (b, inRight)) ((d.set key v required).props.get? key)) := by
    refine ⟨.set hd key hv required, fun _ => ?_⟩
    rw [Draft.get?_set hd, if_pos rfl]
    exact ⟨.some left fun h => inEither (.inl h), .some right fun h => inEither (.inr h)⟩
  refine (narrows a b ha hb).run_bind (fun v hv => .pure ?_) fun inner some_reason => ?_
  · split_ifs
    · exact refuted (Disjoint.isEmpty_single _ _ _ _)
    · exact placed hv.clear hv.left hv.right (Bool.or_eq_true _ _ ▸ id)
  · refine .ite (fun neither => ?_) fun _ => .pure ?_
    · simp only [Bool.and_eq_true, Bool.not_eq_true'] at neither
      refine (Traced.never_lasting (Q := fun n => n = .never) rfl).bind fun n hn => .pure ?_
      subst hn
      exact placed Node.never_clear (Node.never_below a) (Node.never_below b) (by simp [neither])
    · split_ifs
      · exact refuted ((Disjoint.isEmpty_inside key inner).trans some_reason)
      · exact refuted (Disjoint.isEmpty_single _ _ _ _)

theorem meetKey_covers {p q : Props Node} (hp : ∀ m ∈ p.values, m.Clear N)
    (hq : ∀ m ∈ q.values, m.Clear N) {d : Draft} (hd : d.Kept N) (key : String) :
    (meetKey meet p q d key).Ensures .lasting fun e => Changes N [key] d e ∧
      (p.get? key ≠ none ∨ q.get? key ≠ none → Covers σ p q e key) := by
  have alone {v : Node} (hv : v.Clear N) (required : Bool) :
      Changes N [key] d (d.set key v required) ∧
      Narrower σ (some (v, required)) ((d.set key v required).props.get? key) := by
    refine ⟨.set hd key hv required, ?_⟩
    rw [Draft.get?_set hd, if_pos rfl]
    exact .refl _
  unfold meetKey
  split
  · rename_i a inLeft b inRight ha hb
    refine (meetNamed_covers narrows hd key (hp a (Props.mem_values_of_get? ha))
      (hq b (Props.mem_values_of_get? hb)) inLeft inRight).mono fun e he => ⟨he.1, fun _ => ?_⟩
    rw [Covers, ha, hb]
    exact he.2
  · rename_i v required hv none
    obtain ⟨changes, narrower⟩ := alone (hp v (Props.mem_values_of_get? hv)) required
    refine .pure ⟨changes, fun _ _ => ?_⟩
    rw [hv, none]
    exact ⟨narrower, .of_none _⟩
  · rename_i v required none hv
    obtain ⟨changes, narrower⟩ := alone (hq v (Props.mem_values_of_get? hv)) required
    refine .pure ⟨changes, fun _ _ => ?_⟩
    rw [hv, none]
    exact ⟨.of_none _, narrower⟩
  · rename_i none none'
    refine .pure ⟨.refl hd, fun some_value => ?_⟩
    rw [none, none'] at some_value
    simp at some_value

theorem meetKeys_covers {p q : Props Node} (hp : ∀ m ∈ p.values, m.Clear N)
    (hq : ∀ m ∈ q.values, m.Clear N) {d : Draft} (hd : d.Kept N) (keys : List String) :
    (meetKeys meet p q d keys).Ensures .lasting fun e => Changes N keys d e ∧
      ∀ key ∈ keys, p.get? key ≠ none ∨ q.get? key ≠ none → Covers σ p q e key := by
  induction keys generalizing d with
  | nil => exact .pure ⟨.refl hd, List.forall_mem_nil _⟩
  | cons key r ih =>
    refine (meetKey_covers narrows hp hq hd key).bind fun e first =>
      (ih first.1.kept).mono fun f rest => ?_
    refine ⟨first.1.trans rest.1, fun name hname named => ?_⟩
    by_cases later : name ∈ r
    · exact rest.2 name later named
    · obtain rfl := (List.mem_cons.mp hname).resolve_right later
      intro none
      rw [rest.1.others name later]
      exact first.2 named (rest.1.reasons none)

/-- Clear signatures whose keys do not depend on aliases. -/
def Signatures (N : Nat) (index : List (Signature Node)) : Prop :=
  ∀ s ∈ index, s.key.Clear N ∧ s.value.Clear N ∧ s.key.hasAlias = false

theorem meetOrNever_below {a b : Node} (ha : a.Clear N) (hb : b.Clear N) :
    (meetOrNever meet a b).Ensures .lasting fun n => n.Clear N ∧ n.Below σ a ∧ n.Below σ b :=
  (narrows a b ha hb).run_bind (fun _ hn => .pure ⟨hn.clear, hn.left, hn.right⟩)
    fun _ _ => Traced.never_lasting ⟨Node.never_clear, Node.never_below a, Node.never_below b⟩

/-- For every signature there is one with the same key and a value below. -/
def Carries (σ : String → Json → Bool) (index others : List (Signature Node)) : Prop :=
  ∀ s ∈ others, ∃ t ∈ index, t.key.same s.key = true ∧ t.value.Below σ s.value

omit narrows in
theorem Carries.trans {index others last : List (Signature Node)} (h : Carries σ index others)
    (h' : Carries σ last index) : Carries σ last others := by
  intro s hs
  obtain ⟨t, ht, same, below⟩ := h s hs
  obtain ⟨u, hu, same', below'⟩ := h' t ht
  exact ⟨u, hu, Node.same_trans same' same, below'.trans below⟩

omit narrows in
theorem Carries.of_subset {index others : List (Signature Node)} (fewer : others ⊆ index) :
    Carries σ index others :=
  fun s hs => ⟨s, fewer hs, s.key.same_refl, .refl s.value⟩

theorem addSignature_carries {s : Signature Node}
    (hs : s.key.Clear N ∧ s.value.Clear N ∧ s.key.hasAlias = false)
    {index : List (Signature Node)} (hi : Signatures N index) :
    (addSignature meet s index).Ensures .lasting fun ts => Signatures N ts ∧
      Carries σ ts (s :: index) := by
  induction index with
  | nil => exact .pure ⟨List.forall_mem_singleton.mpr hs, .of_subset fun _ => id⟩
  | cons t r ih =>
    obtain ⟨first, rest⟩ := List.forall_mem_cons.mp hi
    rw [addSignature]
    refine .ite (fun same => ?_) fun _ => ?_
    · refine (meetOrNever_below narrows first.2.1 hs.2.1).bind fun v hv => .pure ?_
      refine ⟨List.forall_mem_cons.mpr ⟨⟨first.1, hv.1, first.2.2⟩, rest⟩, ?_⟩
      refine List.forall_mem_cons.mpr ⟨⟨_, List.mem_cons_self, same, hv.2.2⟩, ?_⟩
      refine List.forall_mem_cons.mpr
        ⟨⟨_, List.mem_cons_self, t.key.same_refl, hv.2.1⟩, fun u hu => ?_⟩
      exact ⟨u, List.mem_cons_of_mem _ hu, u.key.same_refl, .refl u.value⟩
    · refine (ih rest).bind fun ts hts =>
        .pure ⟨List.forall_mem_cons.mpr ⟨first, hts.1⟩, fun u hu => ?_⟩
      have behind (hu : u ∈ s :: r) :
          ∃ v ∈ t :: ts, v.key.same u.key = true ∧ v.value.Below σ u.value := by
        obtain ⟨v, hv, found⟩ := hts.2 u hu
        exact ⟨v, List.mem_cons_of_mem _ hv, found⟩
      rcases List.mem_cons.mp hu with rfl | hu
      · exact behind List.mem_cons_self
      · rcases List.mem_cons.mp hu with rfl | hu
        · exact ⟨u, List.mem_cons_self, u.key.same_refl, .refl u.value⟩
        · exact behind (List.mem_cons_of_mem _ hu)

theorem meetIndex_carries {index others : List (Signature Node)} (hi : Signatures N index)
    (ho : Signatures N others) : (meetIndex meet index others).Ensures .lasting fun ts =>
      Signatures N ts ∧ Carries σ ts index ∧ Carries σ ts others := by
  induction others generalizing index with
  | nil => exact .pure ⟨hi, .of_subset fun _ => id, List.forall_mem_nil _⟩
  | cons s r ih =>
    obtain ⟨first, rest⟩ := List.forall_mem_cons.mp ho
    refine (addSignature_carries narrows first hi).bind fun ts hts =>
      (ih hts.1 rest).mono fun us hus => ?_
    obtain ⟨here, before⟩ := List.forall_mem_cons.mp (hts.2.trans hus.2.1)
    exact ⟨hus.1, before, List.forall_mem_cons.mpr ⟨here, hus.2.2⟩⟩

section

variable {s t : Sequence Node}

omit [Library]

omit narrows in
/-- Where the lengths do not clash, every listed place has an item on both sides. -/
theorem exists_at (apart : lengthsClash s t = false) {i : Nat} (hi : i < listedLength s t) :
    (s.at? i).isSome ∧ (t.at? i).isSome := by
  obtain ⟨items, rest⟩ := s
  obtain ⟨others, rest'⟩ := t
  cases rest <;> cases rest' <;>
    simp only [lengthsClash, listedLength, Sequence.fixedLength?, Sequence.at?, bne_eq_false_iff_eq,
      decide_eq_false_iff_not, not_lt, Option.orElse_eq_orElse, Option.orElse_eq_or,
        Option.isSome_or,
      Option.isSome_some, Bool.or_true, Option.isSome_none, Bool.or_false, and_true, true_and,
        isSome_getElem?] at apart hi ⊢ <;>
    omega

omit narrows in
/-- Unless both sequences are open, their listed items are as many as both admit. -/
theorem admitsLength_listed (apart : lengthsClash s t = false)
    (fixed : s.rest = none ∨ t.rest = none) :
    s.admitsLength (listedLength s t) = true ∧ t.admitsLength (listedLength s t) = true := by
  obtain ⟨items, rest⟩ := s
  obtain ⟨others, rest'⟩ := t
  cases rest <;> cases rest' <;>
    simp_all [lengthsClash, listedLength, Sequence.fixedLength?, Sequence.admitsLength]

omit narrows in
theorem length_le_listed (open_left : s.rest ≠ none) (open_right : t.rest ≠ none) :
    s.items.length ≤ listedLength s t ∧ t.items.length ≤ listedLength s t := by
  obtain ⟨items, rest⟩ := s
  obtain ⟨others, rest'⟩ := t
  cases rest <;> cases rest' <;> simp_all [listedLength, Sequence.fixedLength?]

end

omit narrows in
/-- A sequence with narrower items in the listed places and a narrower rest, if any. -/
theorem below_of_listed {u o : Sequence Node}
    (listed : ∀ i a, i < u.items.length → o.at? i = some a →
      ∃ k, u.items[i]? = some k ∧ k.Below σ a)
    (fixed : u.rest = none → o.admitsLength u.items.length = true)
    (rest : ∀ k, u.rest = some k → o.items.length ≤ u.items.length ∧
      ∃ a, o.rest = some a ∧ k.Below σ a) : u.Below σ o := by
  apply Sequence.Below.of_items
  · intro n length
    rw [Sequence.admitsLength] at length
    cases hu : u.rest with
    | none =>
      rw [hu, beq_iff_eq] at length
      exact length ▸ fixed hu
    | some k =>
      obtain ⟨fewer, a, ha, -⟩ := rest k hu
      rw [hu, decide_eq_true_eq] at length
      rw [Sequence.admitsLength, ha]
      exact decide_eq_true (fewer.trans length)
  · intro i a ha n length within
    have place {k : Node} (hk : u.items[i]? = some k) : u.at? i = some k := by
      rw [Sequence.at?, hk]
      rfl
    by_cases hi : i < u.items.length
    · obtain ⟨k, hk, below⟩ := listed i a hi ha
      exact ⟨k, place hk, below⟩
    · rw [Sequence.admitsLength] at length
      cases hu : u.rest with
      | none =>
        rw [hu, beq_iff_eq] at length
        exact absurd (length ▸ within) hi
      | some k =>
        obtain ⟨fewer, b, hb, below⟩ := rest k hu
        have behind : u.items[i]? = none := List.getElem?_eq_none (not_lt.mp hi)
        have behind' : o.items[i]? = none := List.getElem?_eq_none (fewer.trans (not_lt.mp hi))
        rw [Sequence.at?, behind', hb] at ha
        cases ha
        exact ⟨k, by rw [Sequence.at?, behind, hu]; rfl, below⟩

section

variable {s t : Sequence Node}

/-- A clear node below the items of both sequences in the place. -/
structure Fills (N : Nat) (σ : String → Json → Bool) (s t : Sequence Node) (i : Nat)
    (n : Node) : Prop where
  clear : n.Clear N
  left : ∀ a, s.at? i = some a → n.Below σ a
  right : ∀ b, t.at? i = some b → n.Below σ b

variable (hs : ∀ m ∈ s.values, m.Clear N) (ht : ∀ m ∈ t.values, m.Clear N)
include narrows hs ht

theorem meetItems_fills (items : List Node) (reasons : Disjoint) {places : List Nat}
    (both : ∀ i ∈ places, (s.at? i).isSome ∧ (t.at? i).isSome) :
    (meetItems meet s t items reasons places).Ensures .lasting fun found =>
      found.2.isEmpty = true →
      reasons.isEmpty = true ∧ ∃ more, found.1 = items ++ more ∧
        List.Forall₂ (Fills N σ s t) places more := by
  induction places generalizing items reasons with
  | nil => exact .pure fun none => ⟨none, [], (List.append_nil items).symm, .nil⟩
  | cons i r ih =>
    obtain ⟨⟨some_left, some_right⟩, rest⟩ := List.forall_mem_cons.mp both
    obtain ⟨a, ha⟩ := Option.isSome_iff_exists.mp some_left
    obtain ⟨b, hb⟩ := Option.isSome_iff_exists.mp some_right
    have refuted {reason : Disjoint} (some_reason : reason.isEmpty = false) :
        (meetItems meet s t items (reasons ++ reason) r).Ensures .lasting fun found =>
          found.2.isEmpty = true →
          reasons.isEmpty = true ∧ ∃ more, found.1 = items ++ more ∧
            List.Forall₂ (Fills N σ s t) (i :: r) more := by
      refine (ih items _ rest).mono fun found sound none => ?_
      have empty := (sound none).1
      rw [Disjoint.isEmpty_append, some_reason, Bool.and_false] at empty
      cases empty
    rw [meetItems, ha, hb]
    have left := hs a (Sequence.mem_values_of_at? ha)
    have right := ht b (Sequence.mem_values_of_at? hb)
    refine (narrows a b left right).run_bind (fun n hn => ?_) fun inner some_reason => ?_
    · refine .ite (fun _ => refuted (Disjoint.isEmpty_single _ _ _ _)) fun _ => ?_
      refine (ih (items ++ [n]) reasons rest).mono fun found sound none => ?_
      obtain ⟨empty, more, added, fills⟩ := sound none
      refine ⟨empty,
        n :: more, by rw [added, List.append_assoc]; rfl, .cons ⟨hn.clear, ?_, ?_⟩ fills⟩
      · intro a' ha'
        rw [ha, Option.some.injEq] at ha'
        exact ha' ▸ hn.left
      · intro b' hb'
        rw [hb, Option.some.injEq] at hb'
        exact hb' ▸ hn.right
    · exact refuted ((Disjoint.isEmpty_inside _ inner).trans some_reason)

theorem meetRest_below :
    (meetRest meet s.rest t.rest).Ensures .lasting fun o =>
      (o = none → s.rest = none ∨ t.rest = none) ∧ ∀ n, o = some n → n.Clear N ∧
        (∃ a, s.rest = some a ∧ n.Below σ a) ∧ ∃ b, t.rest = some b ∧ n.Below σ b := by
  have rest {u : Sequence Node} (hu : ∀ m ∈ u.values, m.Clear N) {a : Node}
      (ha : u.rest = some a) : a.Clear N :=
    hu a (List.mem_append_right _ (by simp [ha]))
  unfold meetRest
  split
  · rename_i a b ha hb
    refine .map ((meetOrNever_below narrows (rest hs ha) (rest ht hb)).mono fun n hn =>
      ⟨nofun, fun m same => ?_⟩)
    cases same
    exact ⟨hn.1, ⟨a, ha, hn.2.1⟩, b, hb, hn.2.2⟩
  · rename_i open_both
    refine .pure ⟨fun _ => ?_, nofun⟩
    cases hl : s.rest with
    | none => exact .inl rfl
    | some a =>
      cases hr : t.rest with
      | none => exact .inr rfl
      | some b => exact absurd hr (open_both a b hl)

theorem meetSequences_below :
    Attempt.Ensures .lasting (meetSequences meet s t)
      (fun u => (∀ m ∈ u.values, m.Clear N) ∧ u.Below σ s ∧ u.Below σ t) fun d =>
        d.isEmpty = false := by
  unfold meetSequences
  refine Attempt.Ensures.ite (fun _ => ?_) fun apart => ?_
  · refine Attempt.Ensures.bind (.lift (Traced.build_lasting (Q := fun _ => True) trivial))
      fun _ _ => ?_
    exact Attempt.Ensures.bind (.lift (Traced.build_lasting (Q := fun _ => True) trivial))
      fun _ _ => .throw rfl
  rw [Bool.not_eq_true] at apart
  refine Attempt.Ensures.bind (.lift (meetItems_fills narrows hs ht [] .none fun i hi =>
    exists_at apart (List.mem_range.mp hi))) fun ⟨items, reasons⟩ sound =>
      Attempt.Ensures.ite (fun some_reason =>
      .throw_bind (by simpa using some_reason)) fun no_reason => ?_
  obtain ⟨-, more, added, fills⟩ := sound (by simpa using no_reason)
  obtain rfl : items = more := added
  have length : items.length = listedLength s t := by rw [← fills.length_eq, List.length_range]
  have filled (i : Nat) (hi : i < items.length) :
      ∃ k, items[i]? = some k ∧ Fills N σ s t i k := by
    have place := (List.forall₂_iff_get.mp fills).2 i (by rwa [List.length_range, ← length]) hi
    simp only [List.get_eq_getElem, List.getElem_range] at place
    exact ⟨_, List.getElem?_eq_getElem hi, place⟩
  refine Attempt.Ensures.bind (.lift (meetRest_below narrows hs ht)) fun o ho =>
    .pure ⟨?_, ?_, ?_⟩
  · refine List.forall_mem_append.mpr ⟨fun m hm => ?_, fun m hm => ?_⟩
    · obtain ⟨i, hi, rfl⟩ := List.getElem_of_mem hm
      obtain ⟨k, hk, fill⟩ := filled i hi
      rw [List.getElem?_eq_getElem hi, Option.some.injEq] at hk
      exact hk ▸ fill.clear
    · exact (ho.2 m (Option.mem_toList.mp hm)).1
  · refine below_of_listed (fun i a hi ha => ?_) (fun closed => ?_) fun k hk => ?_
    · obtain ⟨k, hk, fill⟩ := filled i hi
      exact ⟨k, hk, fill.left a ha⟩
    · exact length ▸ (admitsLength_listed apart (ho.1 closed)).1
    · obtain ⟨-, ⟨a, ha, left⟩, b, hb, -⟩ := ho.2 k hk
      exact ⟨length ▸ (length_le_listed (ha ▸ Option.some_ne_none a)
        (hb ▸ Option.some_ne_none b)).1, a, ha, left⟩
  · refine below_of_listed (fun i a hi ha => ?_) (fun closed => ?_) fun k hk => ?_
    · obtain ⟨k, hk, fill⟩ := filled i hi
      exact ⟨k, hk, fill.right a ha⟩
    · exact length ▸ (admitsLength_listed apart (ho.1 closed)).2
    · obtain ⟨-, ⟨a, ha, -⟩, b, hb, right⟩ := ho.2 k hk
      exact ⟨length ▸ (length_le_listed (ha ▸ Option.some_ne_none a)
        (hb ▸ Option.some_ne_none b)).2, b, hb, right⟩

end

/-- The sequence is there if it was, and below it. -/
def CoversSequence (σ : String → Json → Bool) (old new : Option (Sequence Node)) : Prop :=
  ∀ s, old = some s → ∃ t, new = some t ∧ t.Below σ s

theorem meetSequence_covers {p q : Props Node} (hp : ∀ m ∈ p.values, m.Clear N)
    (hq : ∀ m ∈ q.values, m.Clear N) {d : Draft} (hd : d.Kept N) :
    (meetSequence meet p q d).Ensures .lasting fun e => e.Kept N ∧
      (d.props.Tidy → e.props.Tidy) ∧ e.props.index = d.props.index ∧
      (∀ name, e.props.get? name = d.props.get? name) ∧
        (e.reasons.isEmpty = true → d.reasons.isEmpty = true ∧
        CoversSequence σ p.sequence e.props.sequence ∧
          CoversSequence σ q.sequence e.props.sequence) := by
  have left : ∀ s, p.sequence = some s → ∀ m ∈ s.values, m.Clear N :=
    fun s hs m hm => hp m (Props.mem_values_of_sequence hs hm)
  have right : ∀ s, q.sequence = some s → ∀ m ∈ s.values, m.Clear N :=
    fun s hs m hm => hq m (Props.mem_values_of_sequence hs hm)
  have tidy {o : Option (Sequence Node)} (h : d.props.Tidy) :
      Props.Tidy { d.props with sequence := o } :=
    ⟨⟨h.required, h.optional⟩, h.apart⟩
  have placed {o : Option (Sequence Node)}
      (ho : ∀ s, o = some s → ∀ m ∈ s.values, m.Clear N) :
      Draft.Kept N { d with props := { d.props with sequence := o } } := by
    refine ⟨⟨hd.sorted.required, hd.sorted.optional⟩, fun m hm => ?_⟩
    rcases Props.mem_values.mp hm with hm | hm | hm | ⟨s, hs, hm⟩
    · exact hd.values m (Props.mem_values.mpr (Or.inl hm))
    · exact hd.values m (Props.mem_values.mpr (Or.inr (Or.inl hm)))
    · exact hd.values m (Props.mem_values.mpr (Or.inr (Or.inr (Or.inl hm))))
    · exact ho s hs m hm
  unfold meetSequence
  split
  · rename_i s t hs ht
    refine (meetSequences_below narrows (left s hs) (right t ht)).run_bind (fun u hu => .pure ?_)
      fun inner some_reason => .pure ?_
    · refine ⟨placed fun _ same => Option.some.inj same ▸ hu.1, tidy, rfl, fun _ => rfl,
        fun none => ⟨none, ?_, ?_⟩⟩
      · intro s' hs'
        rw [hs, Option.some.injEq] at hs'
        exact ⟨u, rfl, hs' ▸ hu.2.1⟩
      · intro t' ht'
        rw [ht, Option.some.injEq] at ht'
        exact ⟨u, rfl, ht' ▸ hu.2.2⟩
    · refine ⟨⟨hd.sorted, hd.values⟩, id, rfl, fun _ => rfl, fun none => ?_⟩
      rw [Draft.isEmpty_refute, some_reason, Bool.and_false] at none
      cases none
  · rename_i only_one
    refine .pure ⟨placed fun s hs => ?_, tidy, rfl, fun _ => rfl, fun none =>
      ⟨none, fun s hs => ?_, fun s hs => ?_⟩⟩
    · rw [Option.orElse_eq_orElse, Option.orElse_eq_or, Option.or_eq_some_iff] at hs
      rcases hs with hs | ⟨-, hs⟩
      · exact left s hs
      · exact right s hs
    · exact ⟨s, by simp [hs], .refl s⟩
    · cases hl : p.sequence with
      | none => exact ⟨s, by simp [hs], .refl s⟩
      | some t => exact absurd hs (only_one t s hl)

end

end Properties

end SchemaAlgebra

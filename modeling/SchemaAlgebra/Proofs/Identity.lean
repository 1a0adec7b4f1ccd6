import SchemaAlgebra.Proofs.EitherOrder
import SchemaAlgebra.Algebra.Meet

/-!
# Identity is structure

Two nodes are alike if they have the same kind, equal content and alike children at the same
places. Where names refer to one thing each, numbers are finite and digests tell keys apart,
nodes with the same digest are exactly those that are alike, and a store holds one node of
each structure, however it was filled.
-/
namespace SchemaAlgebra

section

variable {α : Type u} {β : Type v}

def Sequence.Agrees (R : α → β → Prop) (s : Sequence α) (t : Sequence β) : Prop :=
  List.Forall₂ R s.items t.items ∧ Option.Rel R s.rest t.rest

/-- The same keys, with related values, in the same places. -/
def Props.Agrees (R : α → β → Prop) (p : Props α) (q : Props β) : Prop :=
  List.Forall₂ (fun e f => e.1 = f.1 ∧ R e.2 f.2) p.required q.required ∧
    List.Forall₂ (fun e f => e.1 = f.1 ∧ R e.2 f.2) p.optional q.optional ∧
    List.Forall₂ (fun s t => R s.key t.key ∧ R s.value t.value) p.index q.index ∧
    Option.Rel (Sequence.Agrees R) p.sequence q.sequence

/-- Constraints of one kind with equal content and related children at the same places. Limits are
compared as numbers, patterns by their sources and the steps of morphs by their names. -/
def Constraint.Agrees (R : α → β → Prop) : Constraint α → Constraint β → Prop
  | domain d, domain d' => d = d'
  | literal l, literal l' => l = l'
  | basis b, basis b' => b = b'
  | bound r, bound r' => r.eq r' = true
  | divisor m, divisor n => m = n
  | patterns ps, patterns qs => ps.map (·.source) = qs.map (·.source)
  | props p, props q => p.Agrees R q
  | brand name, brand name' => name = name'
  | deferred name home, deferred name' home' => name = name' ∧ home = home'
  | morph input steps, morph input' steps' =>
    R input input' ∧ steps.map (·.name) = steps'.map (·.name)
  | union xs, union ys => List.Forall₂ R xs ys
  | intersection xs, intersection ys => List.Forall₂ R xs ys
  | _, _ => False

end

section

variable {α : Type u} {β : Type v} {γ : Type w} {δ : Type*}

theorem Sequence.agrees_map (f : γ → α) (g : δ → β) (R : α → β → Prop)
    (s : Sequence γ) (t : Sequence δ) :
    (s.map f).Agrees R (t.map g) ↔ s.Agrees (fun a b => R (f a) (g b)) t := by
  obtain ⟨items, rest⟩ := s
  obtain ⟨items', rest'⟩ := t
  rw [Agrees, Agrees, map, map, List.forall₂_map_left_iff, List.forall₂_map_right_iff]
  cases rest <;> cases rest' <;> simp

theorem Props.agrees_map (f : γ → α) (g : δ → β) (R : α → β → Prop) (p : Props γ)
    (q : Props δ) : (p.map f).Agrees R (q.map g) ↔ p.Agrees (fun a b => R (f a) (g b)) q := by
  obtain ⟨required, optional, index, sequence⟩ := p
  obtain ⟨required', optional', index', sequence'⟩ := q
  simp only [Agrees, map, List.forall₂_map_left_iff, List.forall₂_map_right_iff]
  cases sequence <;> cases sequence' <;> simp [Sequence.agrees_map]

theorem Constraint.agrees_map (f : γ → α) (g : δ → β) (R : α → β → Prop)
    (c : Constraint γ) (e : Constraint δ) : (c.map f).Agrees R (e.map g) ↔
      c.Agrees (fun a b => R (f a) (g b)) e := by
  cases c <;> cases e <;>
    simp [map, Agrees, List.forall₂_map_left_iff, List.forall₂_map_right_iff, Props.agrees_map]

variable {R S : α → β → Prop}

theorem forall₂_mono {xs : List α} {ys : List β} (h : List.Forall₂ R xs ys)
    (imp : ∀ a ∈ xs, ∀ b ∈ ys, R a b → S a b) : List.Forall₂ S xs ys := by
  induction h with
  | nil => exact .nil
  | cons first _ ih =>
    refine .cons (imp _ List.mem_cons_self _ List.mem_cons_self first) (ih fun a ha b hb => ?_)
    exact imp a (List.mem_cons_of_mem _ ha) b (List.mem_cons_of_mem _ hb)

theorem Sequence.Agrees.mono {s : Sequence α} {t : Sequence β} (h : s.Agrees R t)
    (imp : ∀ a ∈ s.values, ∀ b ∈ t.values, R a b → S a b) : s.Agrees S t := by
  obtain ⟨items, rest⟩ := s
  obtain ⟨items', rest'⟩ := t
  refine ⟨forall₂_mono h.1 fun a ha b hb => imp a (List.mem_append_left _ ha) b
    (List.mem_append_left _ hb), ?_⟩
  cases h.2 with
  | none => exact .none
  | some related => exact .some (imp _ (by simp [values]) _ (by simp [values]) related)

theorem Props.Agrees.mono {p : Props α} {q : Props β} (h : p.Agrees R q)
    (imp : ∀ a ∈ p.values, ∀ b ∈ q.values, R a b → S a b) : p.Agrees S q := by
  obtain ⟨required, optional, index, sequence⟩ := h
  refine ⟨forall₂_mono required fun e he f hf h => ⟨h.1, ?_⟩,
    forall₂_mono optional fun e he f hf h => ⟨h.1, ?_⟩,
    forall₂_mono index fun s hs t ht h => ⟨?_, ?_⟩, ?_⟩
  · exact imp _ (mem_values_of_required he) _ (mem_values_of_required hf) h.2
  · exact imp _ (mem_values_of_optional he) _ (mem_values_of_optional hf) h.2
  · exact imp _ (mem_values_of_index hs).1 _ (mem_values_of_index ht).1 h.1
  · exact imp _ (mem_values_of_index hs).2 _ (mem_values_of_index ht).2 h.2
  · cases hs : p.sequence <;> cases ht : q.sequence <;> rw [hs, ht] at sequence
    · exact .none
    · cases sequence
    · cases sequence
    · obtain ⟨items⟩ := sequence
      exact .some (items.mono fun a ha b hb =>
        imp a (mem_values_of_sequence hs ha) b (mem_values_of_sequence ht hb))

/-- What agrees by one relation agrees by any other that holds of the children as well. -/
theorem Constraint.Agrees.mono {c : Constraint α} {e : Constraint β} (h : c.Agrees R e)
    (imp : ∀ a ∈ c.children, ∀ b ∈ e.children, R a b → S a b) : c.Agrees S e := by
  cases c <;> cases e <;> try exact h.elim
  case props.props p q => exact Props.Agrees.mono h imp
  case morph.morph x steps y steps' =>
    exact ⟨imp x List.mem_cons_self y List.mem_cons_self h.1, h.2⟩
  case union.union xs ys => exact forall₂_mono h imp
  case intersection.intersection xs ys => exact forall₂_mono h imp
  all_goals exact h

end

theorem Sequence.agrees_eq {α : Type u} {s t : Sequence α} : s.Agrees Eq t ↔ s = t := by
  obtain ⟨items, rest⟩ := s
  obtain ⟨items', rest'⟩ := t
  rw [Agrees, List.forall₂_eq_eq_eq, mk.injEq]
  cases rest <;> cases rest' <;> simp

theorem Props.agrees_eq {α : Type u} {p q : Props α} : p.Agrees Eq q ↔ p = q := by
  have entries : (fun e f : String × α => e.1 = f.1 ∧ e.2 = f.2) = Eq := by
    funext e f
    exact propext Prod.ext_iff.symm
  have signatures : (fun s t : Signature α => s.key = t.key ∧ s.value = t.value) = Eq := by
    funext s t
    obtain ⟨key, value⟩ := s
    obtain ⟨key', value'⟩ := t
    rw [Signature.mk.injEq]
  obtain ⟨required, optional, index, sequence⟩ := p
  obtain ⟨required', optional', index', sequence'⟩ := q
  simp only [Agrees, entries, signatures, List.forall₂_eq_eq_eq, mk.injEq]
  cases sequence <;> cases sequence' <;> simp [Sequence.agrees_eq]

namespace Limit

/-- Limits that are equal as numbers have the same canonical form. -/
theorem canonical_of_eq {a b : Limit} (h : a.eq b = true) : a.canonical = b.canonical := by
  simp only [eq, Binary64.eq, Bool.and_eq_true, Bool.not_eq_true', beq_iff_eq] at h
  obtain ⟨⟨⟨number, number'⟩, rank⟩, exclusive⟩ := h
  have unsigned (c : Limit) : (c.canonical.value.negative && c.canonical.value.isZero) = false := by
    have zero : (Binary64.zero.negative && Binary64.zero.isZero) = false := by decide
    have nan : (Binary64.notANumber.negative && Binary64.notANumber.isZero) = false := by decide
    rw [canonical]
    split_ifs with hz hn
    · exact zero
    · exact nan
    · rw [Bool.not_eq_true] at hz
      rw [hz, Bool.and_false]
  have value := Binary64.eq_of_rank_eq (unsigned a) (unsigned b)
    (((a.canonical_value).2 number).trans (rank.trans ((b.canonical_value).2 number').symm))
  calc a.canonical = ⟨a.canonical.value, a.canonical.exclusive⟩ := rfl
    _ = ⟨b.canonical.value, b.canonical.exclusive⟩ := by
      rw [value, canonical_exclusive, canonical_exclusive, exclusive]

theorem eq_of_canonical {a b : Limit} (ha : a.value.isNaN = false) (hb : b.value.isNaN = false)
    (h : a.canonical = b.canonical) : a.eq b = true := by
  have rank : a.value.rank = b.value.rank := by
    rw [← (a.canonical_value).2 ha, ← (b.canonical_value).2 hb, h]
  have exclusive : a.exclusive = b.exclusive := by
    rw [← canonical_exclusive, ← b.canonical_exclusive, h]
  simp [eq, Binary64.eq, ha, hb, rank, exclusive]

end Limit

namespace Range

theorem canonical_of_eq {r s : Range} (h : r.eq s = true) : r.canonical = s.canonical := by
  have limits {a b : Option Limit} (h : eqLimit a b = true) :
      a.map (·.canonical) = b.map (·.canonical) := by
    cases a <;> cases b <;> try cases h
    · rfl
    · exact congrArg some (Limit.canonical_of_eq h)
  rw [eq, Bool.and_eq_true] at h
  rw [canonical, canonical, limits h.1, limits h.2]

theorem eq_of_canonical {r s : Range} (hr : r.IsFinite) (hs : s.IsFinite)
    (h : r.canonical = s.canonical) : r.eq s = true := by
  have limits {a b : Option Limit} (ha : ∀ x ∈ a, x.value.isFinite = true)
      (hb : ∀ x ∈ b, x.value.isFinite = true)
      (h : a.map (·.canonical) = b.map (·.canonical)) : eqLimit a b = true := by
    cases a <;> cases b <;> try cases h
    · rfl
    · exact Limit.eq_of_canonical (Binary64.isNaN_of_isFinite (ha _ rfl))
        (Binary64.isNaN_of_isFinite (hb _ rfl)) (Option.some.inj h)
  obtain ⟨lower, upper⟩ := (mk.injEq ..).mp h
  rw [eq, limits hr.1 hs.1 lower, limits hr.2 hs.2 upper, Bool.and_self]

end Range

namespace Constraint

variable {α : Type u} {c e : Constraint α}

theorem erased_of_agrees (h : c.Agrees Eq e) : c.erased = e.erased := by
  cases c <;> cases e <;> try exact h.elim
  case bound.bound r s => exact congrArg bound (Range.canonical_of_eq h)
  case props.props p q => rw [Props.agrees_eq.mp h]
  case patterns.patterns ps qs => rw [List.map_injective_iff.mpr Pattern.source_injective h]
  case deferred.deferred name home name' home' => rw [erased, erased, h.1]
  case morph.morph x steps y steps' => rw [erased, erased, h.1, Step.map_nominal_inj.mpr h.2]
  case union.union xs ys => exact congrArg union (List.forall₂_eq_eq_eq ▸ h)
  case intersection.intersection xs ys =>
    exact congrArg intersection (List.forall₂_eq_eq_eq ▸ h)
  all_goals rw [show _ = _ from h]

/-- Of constraints that differ in nothing but what is erased, limits are equal as numbers, and
names are the same; they refer to the same if no name has two meanings. -/
theorem agrees_of_erased (finite : ∀ r, c = bound r → r.IsFinite)
    (finite' : ∀ r, e = bound r → r.IsFinite)
    (single : ∀ name home home', c = deferred name home → e = deferred name home' →
      home = home') (h : c.erased = e.erased) : c.Agrees Eq e := by
  cases c <;> cases e <;> simp only [erased, reduceCtorEq] at h
  case bound.bound r s => exact Range.eq_of_canonical (finite r rfl) (finite' s rfl) (bound.inj h)
  case patterns.patterns ps qs => exact congrArg _ (patterns.inj h)
  case props.props p q => exact Props.agrees_eq.mpr (props.inj h)
  case deferred.deferred name home name' home' =>
    obtain ⟨rfl, -⟩ := deferred.inj h
    exact ⟨rfl, single name home home' rfl rfl⟩
  case morph.morph x steps y steps' =>
    obtain ⟨rfl, names⟩ := morph.inj h
    exact ⟨rfl, Step.map_nominal_inj.mp names⟩
  case union.union xs ys =>
    rw [Agrees, List.forall₂_eq_eq_eq]
    exact union.inj h
  case intersection.intersection xs ys =>
    rw [Agrees, List.forall₂_eq_eq_eq]
    exact intersection.inj h
  all_goals injection h

end Constraint

namespace Node

/-- The same structure, from the outermost constraint down. -/
def Alike : Node → Node → Prop := fold fun c n => c.Agrees (fun p m => p m) n.constraint

theorem alike_of {c e : Constraint Node} : (of c).Alike (of e) ↔ c.Agrees Alike e := by
  have mapped := Constraint.agrees_map Alike id (fun p m => p m) c e
  rw [Constraint.map_id] at mapped
  rw [Alike, fold_of]
  exact mapped

/-- The children of alike nodes without what is erased are equal, so the nodes are. -/
theorem Alike.same {a b : Node} (h : a.Alike b) : a.same b = true := by
  rw [same_iff]
  induction a using inductionOn generalizing b with
  | step c ih =>
    obtain ⟨e⟩ := b
    have erased : c.Agrees (fun m k => m.erase = k.erase) e :=
      (alike_of.mp h).mono fun m hm k _ alike => ih m hm alike
    have equal := Constraint.erased_of_agrees
        ((Constraint.agrees_map erase erase Eq c e).mpr erased)
    rw [erase_of, erase_of, ← Constraint.erased_map, ← Constraint.erased_map, equal]

/-- Within a set of nodes all of whose limits are finite and whose names have one meaning each,
nodes that are the same are alike. -/
theorem alike_of_same {K : Node → Prop} (bounded : ∀ r, K (of (.bound r)) → r.IsFinite)
    (single : ∀ name home home', K (of (.deferred name home)) →
      K (of (.deferred name home')) → home = home')
    (children : ∀ c : Constraint Node, K (of c) → ∀ m ∈ c.children, K m) {a b : Node}
    (ha : K a) (hb : K b) (h : a.same b = true) : a.Alike b := by
  rw [same_iff] at h
  induction a using inductionOn generalizing b with
  | step c ih =>
    obtain ⟨e⟩ := b
    rw [erase_of, erase_of, ← Constraint.erased_map, ← Constraint.erased_map] at h
    have agrees : (c.map erase).Agrees Eq (e.map erase) := by
      refine Constraint.agrees_of_erased ?_ ?_ ?_ (of.inj h)
      · intro r bound
        cases c <;> cases bound
        exact bounded r ha
      · intro r bound
        cases e <;> cases bound
        exact bounded r hb
      · intro name home home' left right
        cases c <;> cases left
        cases e <;> cases right
        exact single name home home' ha hb
    have erased := (Constraint.agrees_map erase erase Eq c e).mp agrees
    exact alike_of.mpr (erased.mono fun m hm k hk same => ih m hm (children c ha m hm)
      (children e hb k hk) same)

end Node

namespace Store

/-- A store that nodes were put into, one after another. -/
inductive Filled : Store → Prop
  | empty : Filled .empty
  | insert {s : Store} (h : Filled s) (n : Node) : Filled (s.insert n)

/-- The nodes held and all that they are made of. -/
def parts (s : Store) : List Node := s.nodes.flatMap Node.parts

variable {s : Store}

/-- Whatever a computation leaves in a filled store, the store is filled. -/
theorem Filled.run {α : Type u} (h : s.Filled) (x : Traced α) : (s.run x).2.Filled := by
  have recorded (events : List Event) {s : Store} (h : s.Filled) :
      (events.foldl record s).Filled := by
    induction events generalizing s with
    | nil => exact h
    | cons e events ih =>
      cases e with
      | built n => exact ih (h.insert n)
      | _ => exact ih h
  rw [run_eq]
  exact recorded _ h

theorem Filled.pairwise (h : s.Filled) : s.nodes.Pairwise fun a b => a.same b = false := by
  induction h with
  | empty => exact .nil
  | insert _ n ih =>
    rw [Store.insert]
    split_ifs with held
    · exact ih
    · rw [List.any_eq_true, not_exists] at held
      refine List.pairwise_append.mpr ⟨ih, List.pairwise_singleton _ _, fun a ha b hb => ?_⟩
      rw [List.mem_singleton.mp hb, Node.same_comm]
      exact Bool.eq_false_iff.mpr fun same => held a ⟨ha, same⟩

theorem Filled.eq_of_same (h : s.Filled) {a b : Node} (ha : a ∈ s.nodes) (hb : b ∈ s.nodes)
    (same : a.same b = true) : a = b := by
  have symmetric : Std.Symm fun a b : Node => a.same b = false :=
    ⟨fun a b h => (Node.same_comm b a).trans h⟩
  by_contra different
  rw [h.pairwise.forall ha hb different] at same
  cases same

/-- A node that is the same as one that is held is not put into the store again. -/
theorem Filled.run_build (h : s.Filled) {n m : Node} (hm : m ∈ s.nodes) (same : n.same m = true) :
    s.run (.build n) = (m, s) := by
  have held : s.representative n = m := by
    obtain ⟨k, found⟩ := Option.isSome_iff_exists.mp (List.find?_isSome.mpr ⟨m, hm, same⟩)
    rw [representative, found, Option.getD_some]
    refine h.eq_of_same (List.mem_of_find?_eq_some found) hm ?_
    exact Node.same_trans (Node.same_symm (List.find?_some found)) same
  have stays : s.insert m = s := if_pos (List.any_eq_true.mpr ⟨m, hm, m.same_refl⟩)
  calc s.run (.build n) = (s.representative n, s.insert (s.representative n)) := rfl
    _ = (m, s) := by rw [held, stays]

/-- In a store all of whose limits are finite, whose names have one meaning each and whose keys are
told apart by their digests, nodes with the same digest are those that are alike. What is built
alike to a node that is held is that very node, and the store stays as it is. -/
theorem Filled.digest_eq_iff_alike (filled : s.Filled)
    (bounded : ∀ r, Node.of (.bound r) ∈ s.parts → r.IsFinite)
    (single : ∀ name home home', Node.of (.deferred name home) ∈ s.parts →
      Node.of (.deferred name home') ∈ s.parts → home = home')
    (distinguished : ∀ a ∈ s.parts, ∀ b ∈ s.parts, a.digest = b.digest → a.key = b.key) :
    (∀ a ∈ s.nodes, ∀ b ∈ s.nodes, a.digest = b.digest ↔ a.Alike b) ∧
      ∀ c : Constraint Node, ∀ n ∈ s.nodes, (Node.of c).Alike n →
        s.run (.build (.of c)) = (n, s) := by
  have held (n : Node) (hn : n ∈ s.nodes) : n ∈ s.parts :=
    List.mem_flatMap.mpr ⟨n, hn, n.mem_parts⟩
  have children (c : Constraint Node) (hc : .of c ∈ s.parts) (m : Node) (hm : m ∈ c.children) :
      m ∈ s.parts := by
    obtain ⟨n, hn, part⟩ := List.mem_flatMap.mp hc
    exact List.mem_flatMap.mpr ⟨n, hn, Node.parts_child part hm⟩
  refine ⟨fun a ha b hb => ⟨fun digest => ?_, fun alike => ?_⟩,
    fun c n hn alike => filled.run_build hn alike.same⟩
  · have key := distinguished a (held a ha) b (held b hb) digest
    have same := Node.same_of_key (K := (· ∈ s.parts)) bounded children
      (fun a b ha hb => distinguished a ha b hb) (held a ha) (held b hb) key
    exact Node.alike_of_same bounded single children (held a ha) (held b hb) same
  · rw [Node.digest, Node.digest, Node.key_congr alike.same]

/-- A lower limit of zero, with a sign that makes no difference. -/
def atLeastZero (negative : Bool) : Constraint Node :=
  .bound (.atLeast (.inclusive (.ofParts negative 0)))

/-- Sizes from zero up that are rounded, and what they are made of. -/
def sizes : Store :=
  ((Store.empty.run (.build (.of (atLeastZero false)))).2.run
    (.build (.of (.morph (.of (atLeastZero false)) [.registered "round" none])))).2

/-- Sizes from minus zero up are the sizes that are held. -/
theorem digest_eq_iff_alike_sizes :
    (∀ a ∈ sizes.nodes, ∀ b ∈ sizes.nodes, a.digest = b.digest ↔ a.Alike b) ∧
      ∃ n ∈ sizes.nodes, sizes.run
        (.build (.of (.morph (.of (atLeastZero true)) [.registered "round" none]))) =
        (n, sizes) := by
  have filled : sizes.Filled := (Filled.empty.run _).run _
  have nodes : sizes.nodes = [.of (atLeastZero false),
    .of (.morph (.of (atLeastZero false)) [.registered "round" none])] := rfl
  have parts : sizes.parts = [.of (atLeastZero false),
    .of (.morph (.of (atLeastZero false)) [.registered "round" none]), .of (atLeastZero false)] :=
    rfl
  have whole (n : Node) (hn : n ∈ sizes.parts) : n ∈ sizes.nodes := by
    simp only [parts, nodes, List.mem_cons, List.not_mem_nil, or_false] at hn ⊢
    tauto
  have apart : sizes.nodes.Pairwise fun a b => a.digest ≠ b.digest := by
    rw [nodes]
    decide +kernel
  have symmetric : Std.Symm fun a b : Node => a.digest ≠ b.digest := ⟨fun _ _ => Ne.symm⟩
  have zeros : (Range.atLeast (.inclusive (.ofParts true 0))).eq
      (.atLeast (.inclusive (.ofParts false 0))) = true := by
    decide
  obtain ⟨identity, interned⟩ := filled.digest_eq_iff_alike
    (fun r hr => by
      simp only [parts, atLeastZero, List.mem_cons, Node.of.injEq, reduceCtorEq,
        Constraint.bound.injEq, List.not_mem_nil, or_false, false_or, or_self] at hr
      rw [hr]
      exact ⟨fun a ha => by cases ha; decide, nofun⟩)
    (fun name home home' left _ => by simp [parts, atLeastZero] at left)
    (fun a ha b hb same => by
      by_contra different
      exact apart.forall (whole a ha) (whole b hb)
        (fun equal => different (congrArg Node.key equal)) same)
  have held : Node.of (.morph (.of (atLeastZero false)) [.registered "round" none]) ∈
      sizes.nodes := by
    simp [nodes]
  exact ⟨identity, _, held,
    interned _ _ held (Node.alike_of.mpr ⟨Node.alike_of.mpr zeros, rfl⟩)⟩

end Store

end SchemaAlgebra

import SchemaAlgebra.Proofs.Budget
import SchemaAlgebra.Proofs.EitherOrder
import SchemaAlgebra.Proofs.Production
import SchemaAlgebra.Standard

/-!
# The algebra finishes

Intersecting, uniting and normalizing go on until there is nothing smaller left to intersect. For
nodes that parsing and the algebra make, a limit on the depth of the recursion is not reached once
it is large enough, and makes no difference from there on. How deep property sets and morphs are
nested bounds the depth.
-/
namespace SchemaAlgebra

section

/-- Whatever is given for the nodes that are asked for, the value has the property. -/
inductive Traced.Always {α : Type} (P : α → Prop) : Traced α → Prop
  | done {a : α} (h : P a) : Always P (.done a)
  | noted (e : Event) {next : Traced α} (h : Always P next) : Always P (.noted e next)
  | asks (n : Node) {next : Node → Traced α} (h : ∀ m, Always P (next m)) :
    Always P (.asks n next)

namespace Traced.Always

variable {α β : Type} {P : α → Prop} {Q : β → Prop} {x : Traced α} {f g : α → Traced β}

theorem trivial (x : Traced α) : x.Always fun _ => True := by
  induction x with
  | done a => exact .done True.intro
  | noted e next ih => exact .noted e ih
  | asks n next ih => exact .asks n ih

theorem bind (h : x.Always P) (next : ∀ a, P a → (f a).Always Q) : (x >>= f).Always Q := by
  induction h with
  | done h => exact next _ h
  | noted e _ ih => exact .noted e ih
  | asks n _ ih => exact .asks n ih

/-- What comes behind a computation need only be the same for the values that it can have. -/
theorem bind_congr (h : x.Always P) (same : ∀ a, P a → f a = g a) : x >>= f = x >>= g := by
  induction h with
  | done h => exact same _ h
  | noted e _ ih => exact congrArg (Traced.noted e) ih
  | asks n _ ih => exact congrArg (Traced.asks n) (funext ih)

end Traced.Always

namespace Conjunction

variable {pair : Node → Node → Traced Pairing}

/-- A merge leaves one conjunct less. -/
theorem length_of_firstMerge (incoming : Node) (conjuncts : List Node) :
    (firstMerge pair incoming conjuncts).run.Always fun o =>
      ∀ found, o = .ok (some found) → found.2.length + 1 = conjuncts.length := by
  induction conjuncts with
  | nil => exact .done fun _ none => nomatch none
  | cons c r ih =>
    refine Traced.Always.bind (.trivial _) fun o _ => ?_
    cases o with
    | error d => exact .done fun _ failed => nomatch failed
    | ok p =>
      cases p with
      | merged n =>
        refine .done fun found same => ?_
        cases same
        rfl
      | clash d => exact .done fun _ failed => nomatch failed
      | irreducible =>
        refine Traced.Always.bind ih fun o fewer => ?_
        cases o with
        | error d => exact .done fun _ failed => nomatch failed
        | ok o =>
          refine .done fun found same => ?_
          cases o with
          | none => cases same
          | some merged =>
            cases same
            exact congrArg (· + 1) (fewer merged rfl)

/-- As many merges as there are conjuncts are all that there can be. -/
theorem addUpTo_congr {merges merges' : Nat} {conjuncts : List Node}
    (enough : conjuncts.length ≤ merges) (enough' : conjuncts.length ≤ merges')
    (incoming : Node) :
    addUpTo pair merges conjuncts incoming = addUpTo pair merges' conjuncts incoming := by
  induction merges generalizing merges' conjuncts incoming with
  | zero =>
    obtain rfl : conjuncts = [] := List.eq_nil_of_length_eq_zero (Nat.le_zero.mp enough)
    cases merges' <;> rfl
  | succ merges ih =>
    cases merges' with
    | zero =>
      obtain rfl : conjuncts = [] := List.eq_nil_of_length_eq_zero (Nat.le_zero.mp enough')
      rfl
    | succ merges' =>
      refine Traced.Always.bind_congr (length_of_firstMerge incoming conjuncts) fun o fewer => ?_
      cases o with
      | error d => rfl
      | ok o =>
        cases o with
        | none => rfl
        | some merged =>
          have left := fewer merged rfl
          exact ih (by omega) (by omega) merged.1

end Conjunction

theorem Range.IsFinite.of_canonical {r : Range} (h : r.canonical.IsFinite) : r.IsFinite := by
  have limit {a : Limit} (finite : a.canonical.value.isFinite = true) :
      a.value.isFinite = true := by
    rw [Limit.canonical] at finite
    split_ifs at finite with zero
    · rw [Binary64.isFinite, beq_iff_eq.mp zero]
      decide
    · exact absurd (show Binary64.notANumber.isFinite = true from finite) (by decide)
    · exact finite
  exact ⟨fun a ha => limit (h.1 _ (Option.map_eq_some_iff.mpr ⟨a, ha, rfl⟩)),
    fun a ha => limit (h.2 _ (Option.map_eq_some_iff.mpr ⟨a, ha, rfl⟩))⟩

namespace Node

theorem Reduced.inherited [Library] : Inherited Reduced :=
  ⟨fun _ h => h, fun _ h => h.children, fun c _ settled _ h => .of c settled h⟩

theorem Reduced.of_erase {n : Node} (h : n.erase.Reduced) : n.Reduced := by
  induction n using inductionOn with
  | step c ih =>
    rw [erase_of] at h
    have settled := h.settled
    refine .of c ?_ fun m hm => ih m hm (h.children m.erase ?_)
    · cases c with
      | bound r => exact settled.of_canonical
      | union branches =>
        intro m hm
        rw [← Constraint.isUnion_head, ← constraint_head_erase, Constraint.isUnion_head]
        exact settled m.erase (List.mem_map_of_mem hm)
      | intersection children =>
        refine ⟨fun m hm => ?_, (List.pairwise_map.mp settled.2).imp fun apart => ?_⟩
        · rw [← Constraint.isComposite_head, ← constraint_head_erase,
            Constraint.isComposite_head]
          exact settled.1 m.erase (List.mem_map_of_mem hm)
        · exact apart.congr (erase_same _) (erase_same _)
      | _ => exact settled
    · rw [Constraint.children_map, Constraint.children_erased]
      exact List.mem_map_of_mem hm

theorem Reduced.congr {n m : Node} (h : n.Reduced) (same : n.same m = true) : m.Reduced :=
  Reduced.of_erase (same_iff.mp same ▸ h.erase)

end Node

def Judging.reducedBy {rep : Node → Node} (faithful : ∀ n : Node, n.same (rep n) = true) :
    Judging :=
  ⟨rep, fun _ => True, Node.Reduced, fun n h => h.congr (faithful n), faithful⟩

variable [Library]

section

variable {j : Judging} (h : Inherited j.holds) {depth k : Nat}
include h

/-- The nodes of a tier are intersected within a depth that the tier bounds. -/
theorem meetUpTo_keeps : (meetUpTo ((k + 1) * (4 * depth + 3))).Keeps j (j.Tier depth k depth) :=
  (meetUpTo_copes h depth _).keeps h (Nat.succ_pos k) (Nat.le_refl _)

theorem Judging.Tier.input {n : Node} (hn : j.Tier depth k depth n) :
    j.Tier depth k depth n.input := by
  obtain ⟨c⟩ := n
  cases c with
  | morph input steps => exact (input_tier h hn).2.1.weaken (Nat.sub_le depth 1)
  | _ => exact hn

theorem Union.of_tier {nodes : List Node} (hn : ∀ n ∈ nodes, j.Tier depth k depth n) :
    (Union.of (meetUpTo ((k + 1) * (4 * depth + 3))) nodes).Ensures j (j.Tier depth k depth) :=
  union_tier h (meetUpTo_copes h depth _) (Union.meetUpTo_decides j.faithful _)
    (Nat.mul_lt_mul_of_pos_right (Nat.lt_succ_self k) (Nat.succ_pos _)) hn

theorem Union.determinate_tier {nodes : List Node} (hn : ∀ n ∈ nodes, j.Tier depth k depth n) :
    (Union.determinate (meetUpTo ((k + 1) * (4 * depth + 3))) nodes).Ensures j fun o =>
      ∀ n, o = .ok n → j.Tier depth k depth n := by
  refine determinate_ensures (of_tier h hn) fun n hn a ha b hb => ?_
  have left := (branches_tier h hn ha).1.input h
  have right := (branches_tier h hn hb).1.input h
  exact Attempt.Ensures.mono ((meetUpTo_keeps h).met _ _ left right) (fun _ _ => trivial)
    fun _ _ => trivial

end

/-- The nodes that parsing and the algebra make: what calls on a scope return and build on the way,
the parts of such nodes, and what any scope makes of them, be they its own or not. -/
inductive Produced : Node → Prop
  | returned {home : Nat} {d : Declarations} {requests : List Request} {n : Node}
    (h : n ∈ (Session.run home d requests).nodes) : Produced n
  | built {home : Nat} {d : Declarations} {requests : List Request} {n : Node}
    (h : n ∈ (Session.run home d requests).scope.state.store.nodes) : Produced n
  | child {c : Constraint Node} {m : Node} (h : Produced (.of c)) (hm : m ∈ c.children) :
    Produced m
  | intersected (s : Scope) {l r n : Node} (hl : Produced l) (hr : Produced r)
    (h : (s.intersect l r).1 = .ok n) : Produced n
  | united (s : Scope) {nodes : List Node} (h : ∀ m ∈ nodes, Produced m) :
    Produced (s.build (union nodes)).1
  | arrayOf (s : Scope) {n : Node} (h : Produced n) : Produced (s.arrayOf n).1

/-- What happens in the scope on the way to the value of a computation. -/
def Scope.events {α : Type} (s : Scope) (x : Traced α) : List Event :=
  x.trace (ScopeState.settled x s.state)

/-- From some limit on, the limit is not reached, and the scope comes to what it comes to without
it. -/
def Scope.Finishes {α : Type} (s : Scope) (limited : Nat → Traced α)
    (whole : Traced α) : Prop :=
  ∃ depth, ∀ deeper, depth ≤ deeper →
    Event.exhausted ∉ s.events (limited deeper) ∧ s.build (limited deeper) = s.build whole

omit [Library] in
/-- A computation that continues another one ends in the same state. -/
theorem Traced.Continues.run_eq {α : Type} {x y : Traced α} (h : Continues (fun _ _ => True) x y)
    (s : ScopeState) (lasting : Event.exhausted ∉ x.trace (ScopeState.settled x s)) :
    s.run x = s.run y := by
  induction h generalizing s with
  | done a => rfl
  | exhausted lost y =>
    exact absurd (Exhausts.iff_mem.mp (lost.mono fun _ _ _ => trivial)) lasting
  | noted e _ ih => exact ih (s.record e) fun h => lasting (List.mem_cons_of_mem e h)
  | asks n _ ih =>
    refine ih (s.store.representative n) trivial _ fun h => lasting ?_
    rw [Traced.trace, ScopeState.settled_asks]
    exact List.mem_cons_of_mem _ h

/-- The budget is not used up, whatever nodes are given for the same ones. -/
def Traced.Lasts {α : Type} (x : Traced α) : Prop :=
  ∀ rep : Node → Node, (∀ n : Node, n.same (rep n) = true) → Event.exhausted ∉ x.trace rep

/-- A computation finishes if some limit is enough for it and so is the budget. Where both are,
they come to what the larger of both comes to. -/
theorem Scope.finishes {α : Type} {x : Meet → Traced α} (s : Scope)
    (continues : ∀ {given meet meet'}, Meet.Continues given meet meet' →
      Traced.Continues given (x meet) (x meet'))
    (depth : Nat) (enough : (x (meetUpTo depth)).Lasts) (lasts : (x meet).Lasts) :
    s.Finishes (fun depth => x (meetUpTo depth)) (x meet) := by
  refine ⟨depth, fun deeper more => ?_⟩
  have enough' : (x (meetUpTo deeper)).Lasts := by
    intro rep faithful
    rw [(continues (meetUpTo_continues more)).trace_eq (enough rep faithful)]
    exact enough rep faithful
  have faithful (y : Traced α) := ScopeState.settled_same y s.state
  let above : Meet := fun l r => meetUpTo (max (Node.budget l r) deeper) l r
  have whole : s.state.run (x meet) = s.state.run (x above) :=
    (continues fun l r => meetUpTo_continues (Nat.le_max_left _ _) l r).run_eq s.state
      (lasts _ (faithful _))
  have limited : s.state.run (x (meetUpTo deeper)) = s.state.run (x above) :=
    (continues fun l r => meetUpTo_continues (Nat.le_max_right _ _) l r).run_eq s.state
      (enough' _ (faithful _))
  exact ⟨enough' _ (faithful _), by rw [build, build, whole, limited]⟩

omit [Library] in
theorem Traced.Ensures.lasts {α : Type} {rep : Node → Node} {x : Traced α} {Q : α → Prop}
    (faithful : ∀ n : Node, n.same (rep n) = true) (h : x.Ensures (.reducedBy faithful) Q) :
    Event.exhausted ∉ x.trace rep :=
  (h fun _ _ => trivial).2 .exhausted

omit [Library] in
theorem Node.exists_tier {nodes : List Node} (hn : ∀ n ∈ nodes, n.Reduced) :
    ∃ depth k, ∀ {rep : Node → Node} (faithful : ∀ n : Node, n.same (rep n) = true),
      ∀ n ∈ nodes, (Judging.reducedBy faithful).Tier depth k depth n := by
  obtain ⟨k, depth, -, fits⟩ := exists_fits_all fun n (_ : n ∈ nodes) => n.exists_fits
  exact ⟨depth, k, fun _ n hm => ⟨hn n hm, fits n hm⟩⟩

section

variable (s : Scope)

theorem meet_finishes {l r : Node} (hl : l.Reduced) (hr : r.Reduced) :
    s.Finishes (fun depth => (meetUpTo depth l r).run) (meet l r).run := by
  have lasts : (meet l r).run.Lasts := fun _ faithful =>
    Traced.Ensures.lasts faithful (meet_inherits Node.Reduced.inherited hl hr)
  exact s.finishes (fun continues => continues l r) (Node.budget l r) lasts lasts

section

variable {nodes : List Node} (hn : ∀ n ∈ nodes, n.Reduced)
include hn

theorem determinate_finishes :
    s.Finishes (fun depth => Union.determinate (meetUpTo depth) nodes)
      (determinateUnion nodes) := by
  obtain ⟨depth, k, tier⟩ := Node.exists_tier hn
  exact s.finishes (fun continues => Union.determinate_continues continues nodes) _
    (fun _ faithful => (Union.determinate_tier Node.Reduced.inherited (tier faithful)).lasts
      faithful)
    fun _ faithful => (Union.determinate_inherits Node.Reduced.inherited hn).lasts faithful

theorem union_finishes :
    s.Finishes (fun depth => Union.of (meetUpTo depth) nodes) (union nodes) := by
  obtain ⟨depth, k, tier⟩ := Node.exists_tier hn
  exact s.finishes (fun continues => Union.of_continues continues nodes) _
    (fun _ faithful => (Union.of_tier Node.Reduced.inherited (tier faithful)).lasts faithful)
    fun _ faithful => (Union.union_inherits Node.Reduced.inherited hn).lasts faithful

end

theorem normalize_finishes {p : Props Node} (hp : ∀ n ∈ p.values, n.Reduced) :
    s.Finishes (fun depth => (Properties.normalize (meetUpTo depth) p).run) (normalize p).run := by
  obtain ⟨depth, k, tier⟩ := Node.exists_tier hp
  exact s.finishes (fun continues => Properties.normalize_continues continues p) _
    (fun _ faithful => Traced.Ensures.lasts faithful
      (Properties.normalize_inherits (meetUpTo_keeps Node.Reduced.inherited) (tier faithful)))
    fun _ faithful => Traced.Ensures.lasts faithful (normalize_holds Node.Reduced.inherited hp)

end

theorem Produced.reduced {n : Node} (h : Produced n) : n.Reduced := by
  have any : Hereditary fun _ => True := ⟨fun _ _ _ _ => trivial, fun _ _ _ => trivial⟩
  have faithful {α : Type} (s : Scope) (x : Traced α) := ScopeState.settled_same x s.state
  induction h with
  | @returned home d requests n h =>
    exact ((Session.run_sound (any.buildable fun _ => trivial) d requests).nodes n h).1
  | @built home d requests n h =>
    exact ((Session.run_sound (any.buildable fun _ => trivial) d requests).scope.holds.stored n h).1
  | child h hm ih => exact ih.children _ hm
  | @intersected s l r n hl hr h ihl ihr =>
    let j := Judging.reducedBy (faithful s (meet l r).run)
    have made := (meet_inherits (j := j) Node.Reduced.inherited ihl ihr fun _ _ => trivial).1
    rw [Scope.intersect, s.value_build] at h
    have found : (meet l r).outcome j.rep = .ok n := h
    rw [Attempt.value_run, found] at made
    exact made
  | united s h ih =>
    rw [s.value_build]
    exact (Union.union_inherits (j := .reducedBy (faithful s _)) Node.Reduced.inherited ih
      fun _ _ => trivial).1
  | arrayOf s h ih =>
    rw [Scope.arrayOf, s.value_build]
    exact (Traced.arrayOf_inherits (j := .reducedBy (faithful s _)) Node.Reduced.inherited ih
      fun _ _ => trivial).1

/-- Intersecting, uniting and normalizing what parsing and the algebra make finish, in any scope
and without a limit, with the results that they have within their budgets. Nor is there a limit to
merging conjuncts: every merge leaves one less. -/
theorem Produced.algebra_finishes (s : Scope) :
    (∀ l r, Produced l → Produced r →
      s.Finishes (fun depth => (meetUpTo depth l r).run) (meet l r).run) ∧
    (∀ nodes, (∀ n ∈ nodes, Produced n) →
      s.Finishes (fun depth => Union.of (meetUpTo depth) nodes) (union nodes) ∧
      s.Finishes (fun depth => Union.determinate (meetUpTo depth) nodes)
        (determinateUnion nodes)) ∧
    (∀ p : Props Node, (∀ n ∈ p.values, Produced n) →
      s.Finishes (fun depth => (Properties.normalize (meetUpTo depth) p).run) (normalize p).run) ∧
    ∀ pair merges conjuncts incoming, conjuncts.length ≤ merges →
      s.build (Conjunction.addUpTo pair merges conjuncts incoming).run =
        s.build (Conjunction.add pair conjuncts incoming).run := by
  refine ⟨fun l r hl hr => meet_finishes s hl.reduced hr.reduced, fun nodes hn => ?_,
    fun p hp => ?_, ?_⟩
  · have reduced := fun n hm => (hn n hm).reduced
    exact ⟨union_finishes s reduced, determinate_finishes s reduced⟩
  · exact normalize_finishes s fun n hm => (hp n hm).reduced
  · intro pair merges conjuncts incoming enough
    rw [Conjunction.add, Conjunction.addUpTo_congr enough (Nat.le_refl _) incoming]

end

section

attribute [local instance] Library.standard

/-- A union of a brand and arrays, and one with a morph. -/
def unions : List Request := [.parse "number#id|string[]", .parse "trim|(number|boolean)[]"]

theorem Produced.algebra_finishes_unions : ∃ l r, (Session.run 0 .empty unions).nodes = [l, r] ∧
    (Session.run 0 .empty unions).scope.Finishes (fun depth => (meetUpTo depth l r).run)
      (meet l r).run ∧
    (Session.run 0 .empty unions).scope.Finishes
      (fun depth => Union.determinate (meetUpTo depth) [l, r]) (determinateUnion [l, r]) := by
  have two : (Session.run 0 .empty unions).nodes.length = 2 := by decide +kernel
  obtain ⟨l, r, nodes⟩ := List.length_eq_two.mp two
  have produced : ∀ n ∈ [l, r], Produced n := fun n hn => .returned (nodes.symm ▸ hn)
  obtain ⟨intersected, united, -⟩ :=
    Produced.algebra_finishes (Session.run 0 .empty unions).scope
  exact ⟨l, r, nodes, intersected l r (produced l (by simp)) (produced r (by simp)),
    (united _ produced).2⟩

end

end SchemaAlgebra

import SchemaAlgebra.Proofs.Erasure
import SchemaAlgebra.Proofs.Tracing
import SchemaAlgebra.Scope.Resolution

/-!
# Stores that computations fill

What a computation is given for a node is in the store from then on, and the store goes on giving
it. So a computation that fills a store comes to its value for one choice of representatives, those
of the store that it leaves.
-/
namespace SchemaAlgebra
namespace Traced

variable {α : Type u} {σ : Type v} {represent : σ → Node → Node}
  {record : σ → Event → σ}

/-- By induction on the computation: what is given for a node now is given for it in the end. -/
theorem thread_eq
    (lasts : ∀ s n (events : List Event),
      represent (events.foldl record (record s (.built (represent s n)))) n = represent s n)
    (x : Traced α) (s : σ) (later : List Event) {rep : Node → Node}
    (left : represent (later.foldl record (x.thread represent record s).2) = rep) :
    x.thread represent record s = (x.value rep, (x.trace rep).foldl record s) := by
  induction x generalizing s with
  | done a => rfl
  | noted e next ih => exact ih (record s e) left
  | asks n next ih =>
    have inner := ih (represent s n) (record s (.built (represent s n))) left
    have given : rep n = represent s n := by
      rw [thread, inner, ← List.foldl_append] at left
      exact left ▸ lasts s n _
    rw [thread, value, trace, given, List.foldl_cons]
    exact inner

end Traced

namespace Store

variable {s : Store} {n m : Node}

theorem find?_insert (held : s.nodes.find? n.same = some m) (k : Node) :
    (s.insert k).nodes.find? n.same = some m := by
  rw [insert]
  split_ifs
  · exact held
  · rw [List.find?_append, held, Option.some_or]

theorem find?_record (held : s.nodes.find? n.same = some m) (e : Event) :
    (s.record e).nodes.find? n.same = some m := by
  cases e with
  | built k => exact find?_insert held k
  | _ => exact held

theorem find?_insert_representative (s : Store) (n : Node) :
    (s.insert (s.representative n)).nodes.find? n.same = some (s.representative n) := by
  cases found : s.nodes.find? n.same with
  | none =>
    have absent : ¬s.nodes.any n.same := by
      simpa only [List.any_eq_true, not_exists, not_and] using List.find?_eq_none.mp found
    rw [representative, found, Option.getD_none, insert, if_neg absent, List.find?_append, found,
      Option.none_or, List.find?_singleton, Node.same_refl, if_pos rfl]
  | some m =>
    rw [representative, found, Option.getD_some]
    exact find?_insert found m

/-- What is given for a node once is given for it ever after. -/
theorem representative_lasts (s : Store) (n : Node) (events : List Event) :
    (events.foldl record (s.record (.built (s.representative n)))).representative n =
      s.representative n := by
  have held (events : List Event) {s : Store} {m : Node} (held : s.nodes.find? n.same = some m) :
      (events.foldl record s).nodes.find? n.same = some m := by
    induction events generalizing s with
    | nil => exact held
    | cons e events ih => exact ih (find?_record held e)
  rw [representative, record, held events (s.find?_insert_representative n), Option.getD_some]

theorem run_eq {α : Type u} (s : Store) (x : Traced α) :
    s.run x = (x.value (s.run x).2.representative,
      (x.trace (s.run x).2.representative).foldl record s) :=
  Traced.thread_eq representative_lasts x s [] rfl

theorem representative_same (s : Store) (n : Node) : n.same (s.representative n) = true := by
  rw [representative]
  cases found : s.nodes.find? n.same with
  | none => exact n.same_refl
  | some m => exact List.find?_some found

/-- What a store gives for a node with the property has it too. -/
def Keeps (P : Node → Prop) (s : Store) : Prop := ∀ n, P n → P (s.representative n)

theorem Keeps.insert {P : Node → Prop} (keeps : s.Keeps P) (hm : P m) : (s.insert m).Keeps P := by
  intro n hn
  have kept := keeps n hn
  rw [Store.insert]
  split_ifs
  · exact kept
  · rw [representative] at kept ⊢
    rw [List.find?_append, List.find?_singleton]
    cases found : s.nodes.find? n.same with
    | some k =>
      rw [found] at kept
      exact kept
    | none =>
      rw [Option.none_or]
      split_ifs
      · exact hm
      · exact hn

end Store

namespace ScopeState

theorem record_store (s : ScopeState) (e : Event) : (s.record e).store = s.store.record e := by
  cases e <;> rfl

theorem foldl_record_store (events : List Event) (s : ScopeState) :
    (events.foldl record s).store = events.foldl Store.record s.store := by
  induction events generalizing s with
  | nil => rfl
  | cons e events ih => rw [List.foldl_cons, ih, record_store, List.foldl_cons]

variable {α : Type}

/-- What the store gives for each node when the computation is over. -/
def settled (x : Traced α) (s : ScopeState) : Node → Node := (run x s).2.store.representative

theorem settled_same (x : Traced α) (s : ScopeState) (n : Node) : n.same (settled x s n) = true :=
  Store.representative_same _ n

theorem run_eq (x : Traced α) (s : ScopeState) :
    run x s = (x.value (settled x s), (x.trace (settled x s)).foldl record s) := by
  refine Traced.thread_eq (fun s n events => ?_) x s [] rfl
  rw [foldl_record_store, record_store]
  exact s.store.representative_lasts n events

theorem run_value (x : Traced α) (s : ScopeState) : (run x s).1 = x.value (settled x s) :=
  congrArg Prod.fst (run_eq x s)

theorem settled_asks (n : Node) (next : Node → Traced α) (s : ScopeState) :
    settled (.asks n next) s n = s.store.representative n := by
  change (run (next (s.store.representative n)) (s.record (.built _))).2.store.representative n = _
  rw [run_eq, foldl_record_store, record_store]
  exact s.store.representative_lasts n _

/-- By induction on the computation: a node that is asked for has the property whatever is given for
the nodes after it, so the store keeps it there. -/
theorem keeps_settled {P : Node → Prop} {x : Traced α} {s : ScopeState} (keeps : s.store.Keeps P)
    (ensured : ∀ rep : Node → Node, (∀ n, P n → P (rep n)) →
      (∀ n : Node, n.same (rep n) = true) →
      (∀ n m, s.store.nodes.find? n.same = some m → rep n = m) →
        ∀ n, .built n ∈ x.trace rep → P n) :
    (run x s).2.store.Keeps P := by
  have agrees {s : Store} {n m : Node} (held : s.nodes.find? n.same = some m) :
      s.representative n = m := by
    rw [Store.representative, held, Option.getD_some]
  induction x generalizing s with
  | done a => exact keeps
  | noted e next ih =>
    refine ih ?_ fun rep hrep faithful held n made =>
      ensured rep hrep faithful (fun n m found => ?_) n (List.mem_cons_of_mem _ made)
    · rw [record_store]
      cases e with
      | built m =>
        exact keeps.insert (ensured _ keeps s.store.representative_same
          (fun _ _ => agrees) m List.mem_cons_self)
      | _ => exact keeps
    · exact held n m (record_store s e ▸ Store.find?_record found e)
  | asks n next ih =>
    have asked : P (s.store.representative n) :=
      ensured _ keeps s.store.representative_same (fun _ _ => agrees) _ List.mem_cons_self
    refine ih _ (keeps.insert asked) fun rep hrep faithful held k made => ?_
    have given : rep n = s.store.representative n :=
      held n _ (s.store.find?_insert_representative n)
    refine ensured rep hrep faithful (fun n m found => held n m (Store.find?_insert found _)) k ?_
    rw [Traced.trace, given]
    exact List.mem_cons_of_mem _ made

end ScopeState

theorem Parsing.run_build {α : Type} (x : Traced α) (s : ScopeState) :
    (build x).run.run s = (.ok (x.value (ScopeState.settled x s)), (s.run x).2) := by
  rw [← ScopeState.run_value]
  rfl

theorem Parsing.build_eq_ok {α : Type} {x : Traced α} {s t : ScopeState} {a : α}
    (ran : (build x).run.run s = (.ok a, t)) : x.value (ScopeState.settled x s) = a := by
  rw [run_build] at ran
  exact Except.ok.inj (Prod.mk.inj ran).1

namespace Scope

theorem value_build {α : Type} (s : Scope) (x : Traced α) :
    (s.build x).1 = x.value (ScopeState.settled x s.state) :=
  ScopeState.run_value x s.state

/-- What two nodes are intersected to depends on the scope in what is erased only. -/
theorem intersect_erase [Library] (s : Scope) (l r : Node) :
    Disjoint.eraseOr Node.erase (s.intersect l r).1 = (meet l.erase r.erase).outcome id := by
  rw [intersect, value_build]
  exact meet_erase (ScopeState.settled_same _ _) l r

end Scope

end SchemaAlgebra

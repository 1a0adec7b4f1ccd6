import SchemaAlgebra.Engine
import SchemaAlgebra.Proofs.Confinement
import SchemaAlgebra.Proofs.Termination
import SchemaAlgebra.Standard

/-!
# Deferred references

A reference is deferred only while its alias is being parsed. A call that succeeds has
resolved every alias that it began, and one that fails forgets nothing that was resolved
before, so between calls every deferred reference that a returned node leads to has a target.
-/
namespace SchemaAlgebra

section

open Traversal

namespace Node

variable {home : Home} {R : String → Prop} {name : String}

theorem mentions_congr {a b : Node} (h : a.same b = true) : a.Mentions name = b.Mentions name :=
  fold_congr (fun c => by cases c with
    | deferred other home => rfl
    | _ => rfl) h

/-- The aliases that a node mentions are among those within which it is. -/
theorem within_mentions {n : Node} (within : IsWithin home R n) (h : n.Mentions name) : R name := by
  induction n using Node.inductionOn with
  | step c ih =>
    rw [Mentions, fold_of] at h
    have inside (some_child : ∃ q ∈ (c.map (Mentions · name)).children, q) : R name := by
      rw [Constraint.children_map] at some_child
      obtain ⟨q, hq, mentioned⟩ := some_child
      obtain ⟨m, hm, rfl⟩ := List.mem_map.mp hq
      exact ih m hm ((isWithin_hereditary home R).children c within m hm) mentioned
    cases c with
    | deferred other h' =>
      cases h
      exact (isWithin_deferred.mp within).2
    | _ => exact inside h

/-- The program of a node follows no aliases but those within which the node is. -/
theorem aliases_of_isWithin {n : Node} (within : IsWithin home R n) :
    ∀ x ∈ aliasesOf n.compile, x.1 = home ∧ R x.2 :=
  aliases_lowerAs (A := fun x => x.1 = home ∧ R x.2) (isWithin_hereditary home R).children
    (fun _ _ => isWithin_deferred.mp) within _ _

end Node

/-- Whatever a scope keeps is reduced and refers to aliases of the scope only. What is parsed
refers to none but those that the scope has looked at. -/
def Standard.looked (home : Nat) : Standard where
  stored n := n.Reduced ∧ n.IsWithin (some home) fun _ => True
  parsed s n := n.Reduced ∧ n.IsWithin (some home) s.Knows
  stored_of_parsed h := ⟨h.1, Node.isWithin_of_mentions h.2 fun _ _ => trivial⟩
  represents hn hm same := by
    refine ⟨hm.1, Node.isWithin_of_mentions hm.2 fun name mentioned => ?_⟩
    rw [← Node.mentions_congr same] at mentioned
    exact Node.within_mentions hn.2 mentioned
  monotone known hn :=
    ⟨hn.1, Node.isWithin_of_mentions hn.2 fun name mentioned =>
      known name (Node.within_mentions hn.2 mentioned)⟩

/-- A deferred alias is looked at, since it is still being parsed. -/
theorem Standard.looked_parsable [Library] (home : Nat) : Parsable home (.looked home) where
  composable s := (Node.isWithin_hereditary (some home) s.Knows).inherited.composable
  deferred inProgress := by
    refine ⟨.leaf trivial rfl, Node.isWithin_deferred.mpr ⟨rfl, ?_⟩⟩
    rw [ScopeState.Knows, inProgress]
    rfl

namespace Scope

/-- The nodes that a node leads to, through its children and the targets of references. -/
inductive Reaches (s : Scope) (n : Node) : Node → Prop where
  | here : Reaches s n n
  | child {c : Constraint Node} {m : Node} : Reaches s n (.of c) → m ∈ c.children →
    Reaches s n m
  | target {name : String} {home : Home} {m : Node} : Reaches s n (.of (.deferred name home)) →
      s.resolved? name = some m → Reaches s n m

/-- Resolved aliases have their nodes in the bindings. -/
def Binds (s : Scope) (b : Bindings) : Prop :=
  ∀ name n, s.resolved? name = some n → b.node? (some s.home) name = some n

variable {home : Nat} {s t : Scope}

theorem Kept.resolved {w : Standard} (h : Kept w s t) {name : String} {n : Node}
    (found : s.resolved? name = some n) : t.resolved? name = some n := by
  rw [resolved?] at found ⊢
  cases known : Entries.get? name s.state.resolutions with
  | none =>
    rw [known] at found
    cases found
  | some r =>
    rw [known] at found
    rwa [h.kept name r known]

/-- Whatever a node leads to after more calls refers to aliases that were looked at before. -/
theorem Kept.reaches_within {w : Standard} (hs : s.Sound (.looked home)) (kept : Kept w s t)
    {n m : Node} (hn : n.IsWithin (some home) s.state.Knows) (reached : t.Reaches n m) :
    m.IsWithin (some home) s.state.Knows := by
  induction reached with
  | here => exact hn
  | child _ hm ih => exact (Node.isWithin_hereditary _ _).children _ ih _ hm
  | target _ found ih =>
    obtain ⟨k, before⟩ := hs.knows (Node.isWithin_deferred.mp ih).2
    cases found.symm.trans (kept.resolved before)
    exact (hs.resolved before).1.2

theorem Sound.closed (hs : s.Sound (.looked s.home)) {b b' : Bindings} (binds : s.Binds b)
    (binds' : s.Binds b') (transform : b.transform = b'.transform) :
    Closed (fun x => x.1 = some s.home ∧ s.state.Knows x.2) b b' where
  target x hx := by
    obtain ⟨h, name⟩ := x
    obtain ⟨rfl, known⟩ := hx
    obtain ⟨n, found⟩ := hs.knows known
    exact ⟨n, binds name n found, binds' name n found,
      Node.aliases_of_isWithin (hs.resolved found).1.2⟩
  transform := transform

end Scope

/-- The bindings of an engine have the nodes of every scope that lives in it. -/
theorem Engine.binds {e : Engine} {s : Scope} (live : e.scope? s.home = some s) :
    s.Binds e.bindings := by
  intro name n found
  simp [bindings, live, found]

/-- Wherever a returned node leads to, at once or after more calls, every deferred reference
is to an alias that was resolved when the node was returned, and it stays resolved to the
same node. So no validation looks for anything that is not resolved, and none reports that an
alias is dangling. -/
theorem Session.deferred_resolved [Library] (home : Nat) (d : Declarations)
    (requests later : List Request) {n : Node} (returned : n ∈ (run home d requests).nodes) :
    let before := (run home d requests).scope
    let s := (run home d (requests ++ later)).scope
    (∀ name h, s.Reaches n (.of (.deferred name h)) → h = some home ∧
      ∃ m, before.resolved? name = some m ∧ s.resolved? name = some m) ∧
    ∀ b b', s.Binds b → s.Binds b' → b.transform = b'.transform →
      ∀ (patience : Nat) (mode : Mode) (maxDepth : Option Nat) (v : Json),
        Traversal.run b patience mode maxDepth n.compile v =
            Traversal.run b' patience mode maxDepth n.compile v ∧
          ∀ t, Traversal.run b patience mode maxDepth n.compile v = some t →
            ∀ p ∈ t.problems, p.code ≠ .dangling := by
  intro before s
  have can := Standard.looked_parsable home
  have session := run_sound can d requests
  obtain ⟨sound, kept, -⟩ := run_continues can d requests later
  have first := session.nodes n returned
  have within : n.IsWithin (some home) s.state.Knows := (Standard.monotone _ kept.known first).2
  constructor
  · intro name h reached
    obtain ⟨same, known⟩ :=
      Node.isWithin_deferred.mp (kept.reaches_within session.scope first.2 reached)
    obtain ⟨m, found⟩ := session.scope.knows known
    exact ⟨same, m, found, kept.resolved found⟩
  · intro b b' binds binds' transform patience mode maxDepth v
    have same_home : s.home = home := sound.same_home
    obtain ⟨bound, same⟩ :=
      run_confined (Scope.Sound.closed (same_home ▸ sound.scope) binds binds' transform)
      (same_home ▸ Node.aliases_of_isWithin within) patience mode maxDepth v
    exact ⟨same, bound⟩

end

section

attribute [local instance] Library.standard

/-- Lists, and an alias that fails only after it has begun to resolve them. -/
def Scope.brokenOff : Declarations where
  aliases :=
    [("broken", .object [("first", .string "list"), ("other", .string "nowhere")]),
      ("list", .object [("next?", .string "list")])]
  morphs := []
  config := .default

/-- Whether the node is the alias of the name at the home. -/
def Node.isAlias (name : String) (home : Home) : Node → Bool
  | .of (.deferred name' home') => name' == name && home' == home
  | _ => false

theorem Session.deferred_resolved_brokenOff :
    let before := run 0 Scope.brokenOff [.resolve "broken", .resolve "list"]
    let after := run 0 Scope.brokenOff [.resolve "broken", .resolve "list", .resolve "broken"]
    ∃ n ∈ before.nodes, after.scope.Reaches n (.of (.deferred "list" (some 0))) ∧
      (∃ m, before.scope.resolved? "list" = some m ∧ after.scope.resolved? "list" = some m) ∧
      ∀ e : Engine, e.scope? 0 = some after.scope → ∀ (patience : Nat) (v : Json) t,
        Traversal.run e.bindings patience .apply none n.compile v = some t →
          ∀ p ∈ t.problems, p.code ≠ .dangling := by
  intro before after
  have leads : (before.nodes.any fun n => n.constraint.children.any fun m =>
      m.constraint.children.any (·.isAlias "list" (some 0))) = true := by decide +kernel
  have same_home : after.scope.home = 0 := by decide +kernel
  obtain ⟨n, hn, hm⟩ := List.any_eq_true.mp leads
  obtain ⟨m, hm, hk⟩ := List.any_eq_true.mp hm
  obtain ⟨k, hk, reference⟩ := List.any_eq_true.mp hk
  have reached : after.scope.Reaches n k := by
    cases n
    cases m
    exact .child (.child .here hm) hk
  cases k with
  | of c =>
    cases c with
    | deferred name home =>
      simp only [Node.isAlias, Bool.and_eq_true, beq_iff_eq] at reference
      obtain ⟨rfl, rfl⟩ := reference
      obtain ⟨resolved, runs⟩ :=
        deferred_resolved 0 Scope.brokenOff [.resolve "broken", .resolve "list"]
          [.resolve "broken"] hn
      refine ⟨n, hn, reached, (resolved _ _ reached).2, fun e live patience v t => ?_⟩
      have binds := Engine.binds (same_home.symm ▸ live)
      exact (runs e.bindings e.bindings binds binds rfl patience .apply none v).2 t
    | _ => cases reference

end

end SchemaAlgebra

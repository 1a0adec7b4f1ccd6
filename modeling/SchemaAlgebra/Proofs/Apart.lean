import SchemaAlgebra.Proofs.Soundness
import SchemaAlgebra.Standard

/-!
# Intersecting across scopes

The name is all that two references are compared by, so a reference to an alias of one scope
stands for a reference to the alias of that name of any other. Where no name is referred to on
both sides, every name still belongs to one scope, and what the intersection of nodes of two
scopes allows is accepted by both.
-/
namespace SchemaAlgebra

section

variable {N : Nat} {l r n : Node}

namespace Node

/-- The names of the aliases that are referred to anywhere in the node. -/
def mentioned (n : Node) : List String := n.parts.filterMap fun m =>
  match m.constraint with
  | .deferred name _ => some name
  | _ => none

theorem mem_mentioned {name : String} : name ∈ n.mentioned ↔
    ∃ h, of (.deferred name h) ∈ n.parts := by
  rw [mentioned, List.mem_filterMap]
  constructor
  · rintro ⟨⟨c⟩, hm, found⟩
    cases c <;> cases found
    exact ⟨_, hm⟩
  · rintro ⟨h, hm⟩
    exact ⟨_, hm, rfl⟩

/-- All references to an alias of a name are to the home of that name. -/
def IsBound (home : String → Home) (n : Node) : Prop :=
  ∀ name h, of (.deferred name h) ∈ n.parts → h = home name

variable {home : String → Home}

theorem isBound_hereditary (home : String → Home) : Hereditary (IsBound home) where
  children c h m hm name h' reference := by
    refine h name h' ?_
    rw [parts_of]
    exact List.mem_cons_of_mem _ (List.mem_flatMap.mpr ⟨m, hm, reference⟩)
  built c other h name h' reference := by
    rw [parts_of] at reference
    rcases List.mem_cons.mp reference with same | below
    · cases same
      exact absurd rfl (other name h')
    · obtain ⟨m, hm, reference⟩ := List.mem_flatMap.mp below
      exact h m hm name h' reference

/-- A node within one home is bound if the names that it refers to are at that home. -/
theorem isBound_of_isWithin {h : Home} {R : String → Prop} (within : n.IsWithin h R)
    (named : ∀ name ∈ n.mentioned, home name = h) : n.IsBound home := by
  have inside : ∀ m ∈ n.parts, m.IsWithin h R := by
    clear named
    induction n using inductionOn with
    | step c ih =>
      rw [parts_of]
      refine List.forall_mem_cons.mpr ⟨within, fun m hm => ?_⟩
      obtain ⟨k, hk, hm⟩ := List.mem_flatMap.mp hm
      exact ih k hk ((isWithin_hereditary h R).children c within k hk) m hm
  intro name h' reference
  rw [(isWithin_deferred.mp (inside _ reference)).1,
    named name (mem_mentioned.mpr ⟨h', reference⟩)]

/-- Bound references mean what they mean at the homes of their names. -/
theorem IsBound.admitsWith [Library] (bound : n.IsBound home) (ρ : Meaning) :
    n.admitsWith ρ = n.admitsWith fun _ name => ρ (home name) name := by
  induction n using inductionOn with
  | step c ih =>
    have same : c.map (Node.admitsWith ρ) =
        c.map (Node.admitsWith fun _ name => ρ (home name) name) :=
      Constraint.map_congr fun m hm => ih m hm ((isBound_hereditary home).children c bound m hm)
    funext d
    rw [admitsWith_of, admitsWith_of, same]
    cases c with
    | deferred name h =>
      obtain rfl := bound name h (mem_parts _)
      rfl
    | _ => rfl

end Node

variable [Library]

/-- Where the stored nodes are bound, intersecting bound nodes comes to a bound node. -/
theorem Scope.isBound_of_intersect {home : String → Home} {s : Scope}
    (stored : ∀ m ∈ s.state.store.nodes, m.Reduced ∧ m.IsBound home)
    (hl : l.Reduced ∧ l.IsBound home) (hr : r.Reduced ∧ r.IsBound home)
    (met : (s.intersect l r).1 = .ok n) : n.IsBound home := by
  let bound := Standard.plain fun m => m.Reduced ∧ m.IsBound home
  have holds : ScopeState.Holds bound { s.state with resolutions := [] } :=
    ⟨stored, Entries.sorted_nil, fun _ _ found => nomatch found⟩
  have composed := (Node.isBound_hereditary home).inherited.composable.meet l r hl hr
  have keeps := ScopeState.keeps_settled (s := s.state) holds.keeps
      fun rep hrep faithful _ n made =>
    (composed rep hrep faithful fun _ _ => trivial).2 (.built n) made
  rw [intersect, s.value_build] at met
  exact ((composed _ keeps (ScopeState.settled_same _ s.state) fun _ _ => trivial).1 n met).2

namespace Session

/-- What the intersection of nodes of two sessions allows is accepted by both of them, if no alias
that the second refers to has the name of one that the first refers to or that is referred to in
the store of its scope. -/
theorem accepted_of_intersect_apart (home home' : Nat) (d d' : Declarations)
    (requests requests' : List Request) (hl : l ∈ (run home d requests).nodes)
    (hr : r ∈ (run home' d' requests').nodes)
    (apart : ∀ m ∈ l :: (run home d requests).scope.state.store.nodes,
      List.Disjoint m.mentioned r.mentioned)
    (positive : 0 < N) (small : N ≤ 2 ^ 53)
    (clear : ∀ m ∈ l.parts ++ r.parts, m.constraint.IsClear N)
    (met : ((run home d requests).scope.intersect l r).1 = .ok n) (b : Bindings) (cap : Option Nat)
    {x : Json} (ordered : x.Ordered) (allowed : n.Allows b cap x) :
    l.Accepts b cap x ∧ r.Accepts b cap x := by
  let homes (name : String) : Home := if name ∈ r.mentioned then some home' else some home
  have here {m : Node} {R : String → Prop} (within : m.IsWithin (some home) R)
      (disjoint : List.Disjoint m.mentioned r.mentioned) : m.IsBound homes :=
    Node.isBound_of_isWithin within fun name hm => if_neg fun hr => disjoint hm hr
  have sound : Sound home d (.looked home) _ := run_sound (Standard.looked_parsable home) d requests
  have sound' : Sound home' d' (.looked home') _ :=
    run_sound (Standard.looked_parsable home') d' requests'
  obtain ⟨apart_left, apart_stored⟩ := List.forall_mem_cons.mp apart
  obtain ⟨reduced, within⟩ := sound.nodes l hl
  obtain ⟨reduced', within'⟩ := sound'.nodes r hr
  have left : l.IsBound homes := here within apart_left
  have right : r.IsBound homes := Node.isBound_of_isWithin within' fun name hm => if_pos hm
  have both : n.IsBound homes := by
    refine Scope.isBound_of_intersect (fun m hm => ?_) ⟨reduced, left⟩ ⟨reduced', right⟩ met
    obtain ⟨reduced'', within''⟩ := sound.scope.holds.stored m hm
    exact ⟨reduced'', here within'' (apart_stored m hm)⟩
  obtain ⟨clear, clear'⟩ := List.forall_mem_append.mp clear
  have below := Node.below_of_intersect (σ := fun name => b.meaning cap (homes name) name) positive
      small reduced reduced'
    (Node.Clear.of_reduced reduced clear).erase (Node.Clear.of_reduced reduced' clear').erase met
  have admitted := both.admitsWith _ ▸ allowed.admits
  constructor
  · apply Node.accepts_of_admits
    rw [left.admitsWith]
    exact below.1 x ordered admitted
  · apply Node.accepts_of_admits
    rw [right.admitsWith]
    exact below.2 x ordered admitted

end Session

end

namespace Session

attribute [local instance] Library.standard

def texts : Declarations :=
  ⟨[("x", .object [("b", .string "string"), ("n?", .string "x")])], [], .default⟩

def bits : Declarations :=
  ⟨[("y", .object [("c", .string "boolean"), ("m?", .string "y")])], [], .default⟩

/-- The aliases that two scopes have resolved. -/
def resolvedIn (s t : Scope) : Bindings where
  node? h name := if h = some s.home then s.resolved? name else t.resolved? name
  transform _ _ := .ok

def entwined : Json :=
  .object [("b", .string "q"), ("c", .bool true), ("m", .object [("c", .bool false)]),
    ("n", .object [("b", .string "p")])]

theorem accepted_of_intersect_apart_entwined :
    let s := run 0 texts [.resolve "x"]
    let t := run 1 bits [.resolve "y"]
    ∃ l r n, s.nodes = [l] ∧ t.nodes = [r] ∧ (s.scope.intersect l r).1 = .ok n ∧
      n.Allows (resolvedIn s.scope t.scope) none entwined ∧
        l.Accepts (resolvedIn s.scope t.scope) none entwined ∧
          r.Accepts (resolvedIn s.scope t.scope) none entwined := by
  intro s t
  have one : s.nodes.length = 1 ∧ t.nodes.length = 1 := by decide +kernel
  have sides : ∀ l ∈ s.nodes, ∀ r ∈ t.nodes,
      (∀ m ∈ l :: s.scope.state.store.nodes, ∀ name ∈ m.mentioned, name ∉ r.mentioned) ∧
        (∀ m ∈ l.parts ++ r.parts, m.constraint.IsClear 1) ∧
          ((s.scope.intersect l r).1.toOption.bind fun n =>
            (n.compile.allows (resolvedIn s.scope t.scope) 40 none entwined).map (·.outcome)) =
              some true := by
    decide +kernel
  have truth (value : Bool) : Json.Ordered (.bool value) := .of _ nofun nofun nofun
  have ordered : entwined.Ordered := by
    refine .of _ (fun es same => ?_) (fun es same => ?_) nofun
    · cases same
      simp only [Entries.Sorted]
      decide
    · cases same
      exact List.forall_mem_cons.mpr
        ⟨.text "q", List.forall_mem_cons.mpr ⟨truth true, List.forall_mem_cons.mpr
        ⟨.single "c" (truth false),
          List.forall_mem_singleton.mpr (.single "b" (.text "p"))⟩⟩⟩
  obtain ⟨l, left⟩ := List.length_eq_one_iff.mp one.1
  obtain ⟨r, right⟩ := List.length_eq_one_iff.mp one.2
  have hl : l ∈ s.nodes := left ▸ List.mem_cons_self
  have hr : r ∈ t.nodes := right ▸ List.mem_cons_self
  obtain ⟨apart, clear, both⟩ := sides l hl r hr
  obtain ⟨n, met, allowed⟩ := Option.bind_eq_some_iff.mp both
  have allows : n.Allows (resolvedIn s.scope t.scope) none entwined :=
    ⟨40, Option.map_eq_some_iff.mp allowed⟩
  have met := Union.toOption_eq_some.mp met
  exact ⟨l, r, n, left, right, met, allows, accepted_of_intersect_apart 0 1 texts bits _ _ hl hr
    (fun m hm name here there => apart m hm name here there) (by decide)
      (by decide) clear met _ none ordered allows⟩

end Session

end SchemaAlgebra

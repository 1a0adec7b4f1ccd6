import Mathlib.Order.WellFoundedSet
import SchemaAlgebra.Proofs.Canonical
import SchemaAlgebra.Proofs.Finishing
import SchemaAlgebra.Proofs.Parts
import SchemaAlgebra.Proofs.Soundness
import SchemaAlgebra.Standard

/-!
# Covered branches

A branch that is dropped from a union is included by the one that it is dropped for. As long as no
branch is dropped for itself in the end, every branch is covered by one that is kept, so that
nothing is lost.
-/
namespace SchemaAlgebra

section

open Relation

theorem Node.exists_branch_admitsWith [Library] {σ : String → Json → Bool} {n : Node}
    {d : Json} :
    n.admitsWith (fun _ => σ) d = true ↔
      ∃ b ∈ n.branches, b.admitsWith (fun _ => σ) d = true := by
  obtain ⟨c⟩ := n
  cases c with
  | union branches => exact admitsWith_union
  | _ => simp [branches, constraint]

theorem Node.same_branches {a b : Node} (same : a.same b = true) :
    List.Forall₂ (fun c d => c.same d = true) a.branches b.branches := by
  have erased : List.Forall₂ (· = ·) (a.branches.map erase) (b.branches.map erase) := by
    rw [← branches_erase, same_iff.mp same, branches_erase]
    exact List.forall₂_refl _
  simp only [same_iff]
  exact List.forall₂_map_right_iff.mp (List.forall₂_map_left_iff.mp erased)

theorem Node.hasAlias_branch {n b : Node} (hasAlias : n.hasAlias = false) (hb : b ∈ n.branches) :
    b.hasAlias = false := by
  obtain ⟨c⟩ := n
  cases c with
  | union branches => exact hasAlias_child hasAlias hb
  | _ => exact List.mem_singleton.mp hb ▸ hasAlias

variable [Library]

namespace Union

/-- The first of two numbered branches is dropped for the second. -/
def Yields (all : List (Node × Nat)) (b o : Node × Nat) : Prop :=
  b ∈ all ∧ o ∈ all ∧ b.1.isMorph = false ∧ ¬Spares b o

/-- No branch is dropped for others that are in the end dropped for it. -/
def IsLoopFree (branches : List Node) : Prop := ∀ b, ¬TransGen (Yields branches.zipIdx) b b

/-- Branches that are only dropped for branches in front of them make no loop. -/
theorem IsLoopFree.of_decreasing {branches : List Node}
    (decreasing : ∀ b o, Yields branches.zipIdx b o → o.2 < b.2) : IsLoopFree branches := by
  intro b loop
  have less : TransGen (fun m n : Nat => n < m) b.2 b.2 := loop.lift Prod.snd decreasing
  rw [transGen_eq_self] at less
  exact Nat.lt_irrefl _ less

variable {N : Nat} {σ : String → Json → Bool} {all : List (Node × Nat)} {kept : List Node}

/-- Every branch is kept, or dropped for one above it. -/
def Settles (σ : String → Json → Bool) (all branches : List (Node × Nat))
    (kept : List Node) : Prop :=
  ∀ b ∈ branches, b.1 ∈ kept ∨ ∃ o, Yields all b o ∧ b.1.Below σ o.1

/-- By induction on what branches are dropped for: what is dropped is covered by what is kept. -/
theorem Settles.covered (settled : Settles σ all all kept)
    (free : ∀ b, ¬TransGen (Yields all) b b) :
    ∀ b ∈ all, ∃ k ∈ kept, b.1.Below σ k := by
  let dropped (o b : Node × Nat) : Prop := TransGen (Yields all) b o
  have order : IsStrictOrder (Node × Nat) dropped :=
    { irrefl := free, trans := fun a b c first second => second.trans first }
  have founded : {b | b ∈ all}.WellFoundedOn dropped := (List.finite_toSet all).wellFoundedOn
  intro b hb
  refine founded.induction (P := fun b => ∃ k ∈ kept, b.1.Below σ k) hb fun c hc ih => ?_
  rcases settled c hc with here | ⟨o, yields, below⟩
  · exact ⟨c.1, here, .refl c.1⟩
  · obtain ⟨k, hk, covered⟩ := ih o yields.2.1 (.single yields)
    exact ⟨k, hk, below.trans covered⟩

section

variable {meet : Meet} (narrows : meet.Narrows N σ) (decides : Decides id meet)
include narrows decides

theorem isSubtype_below {a b : Node} (ha : a.Clear N) (hb : b.Clear N) :
    (isSubtype meet a b).Ensures .lasting fun included =>
      (included = true → a.Below σ b) ∧ (included = false ↔ a.Exceeds b) := by
  have tested : (isSubtype meet a b).Ensures .lasting fun included => included = true →
      a.Below σ b :=
    (narrows a b ha hb).run_bind
      (fun n hn => .pure fun same => (Node.below_of_same (Node.same_symm same)).trans hn.right)
      fun _ _ => .pure nofun
  intro lasts
  exact ⟨⟨(tested lasts).1, decides a b fun exhausted => lasts _ exhausted rfl⟩,
    (tested lasts).2⟩

theorem isIncluded_yields {b o : Node × Nat} (hb : b.1.Clear N)
    (ho : o.1.isMorph = false → o.1.Clear N) :
    (isIncluded meet b.2 b.1 o.2 o.1).Ensures .lasting fun included =>
      included = true → ¬Spares b o ∧ b.1.Below σ o.1 := by
  refine .ite (fun _ => .pure nofun) fun compared => ?_
  simp only [Bool.or_eq_true, decide_eq_true_eq, not_or] at compared
  have ho := ho (Bool.eq_false_iff.mpr compared.2)
  refine (isSubtype_below narrows decides hb ho).bind fun included ⟨below, exceeds⟩ => ?_
  refine .ite (fun _ => .pure nofun) fun inside => ?_
  obtain rfl : included = true := by simpa using inside
  have included : ¬b.1.Exceeds o.1 := fun outside => Bool.false_ne_true (exceeds.mpr outside).symm
  have yields (later : b.2 ≤ o.2 → o.1.Exceeds b.1) : ¬Spares b o ∧ b.1.Below σ o.1 := by
    refine ⟨?_, below rfl⟩
    rintro (same | morph | outside | ⟨before, back⟩)
    · exact compared.1 same
    · exact compared.2 morph
    · exact included outside
    · exact back (later before)
  refine .ite (fun earlier => .pure fun _ => yields fun later =>
    absurd earlier (Nat.not_lt.mpr later)) fun _ => ?_
  refine (isSubtype_below narrows decides ho hb).bind fun back outcome => .pure fun other =>
    yields fun _ => ?_
  exact outcome.2.mp (by simpa using other)

theorem anyIncludes_yields {b : Node × Nat} (hb : b.1.Clear N) {others : List (Node × Nat)}
    (ho : ∀ o ∈ others, o.1.isMorph = false → o.1.Clear N) :
    (anyIncludes meet b.2 b.1 others).Ensures .lasting fun included =>
      included = true → ∃ o ∈ others, ¬Spares b o ∧ b.1.Below σ o.1 := by
  induction others with
  | nil => exact .pure nofun
  | cons o r ih =>
    obtain ⟨first, rest⟩ := List.forall_mem_cons.mp ho
    refine (isIncluded_yields narrows decides hb first).bind fun included yields => ?_
    refine .ite (fun inside => .pure fun _ => ⟨o, List.mem_cons_self, yields inside⟩)
      fun _ => ?_
    refine (ih rest).mono fun _ found inside => ?_
    obtain ⟨p, hp, yields⟩ := found inside
    exact ⟨p, List.mem_cons_of_mem o hp, yields⟩

theorem reduce_settles (hall : ∀ b ∈ all, b.1.isMorph = false → b.1.Clear N)
    {branches : List (Node × Nat)} (hb : branches ⊆ all) :
    (reduce meet all branches).Ensures .lasting (Settles σ all branches) := by
  induction branches with
  | nil => exact .pure (List.forall_mem_nil _)
  | cons b r ih =>
    obtain ⟨first, rest⟩ := List.cons_subset.mp hb
    have going {included : Bool}
        (yields : included = true → ∃ o, Yields all b o ∧ b.1.Below σ o.1) :
        Traced.Ensures .lasting (do
          let kept ← reduce meet all r
          return if included then kept else b.1 :: kept) (Settles σ all (b :: r)) := by
      refine (ih rest).bind fun kept settled => .pure (List.forall_mem_cons.mpr ?_)
      cases included with
      | true => exact ⟨.inr (yields rfl), settled⟩
      | false =>
        exact ⟨.inl List.mem_cons_self,
          fun o ho => (settled o ho).imp_left (List.mem_cons_of_mem b.1)⟩
    refine .ite (fun _ => going nofun) fun plain => ?_
    rw [Bool.not_eq_true] at plain
    refine (anyIncludes_yields narrows decides (hall b first plain) hall).bind
        fun included yields =>
      going fun inside => ?_
    obtain ⟨o, ho, dropped, below⟩ := yields inside
    exact ⟨o, ⟨first, ho, plain, dropped⟩, below⟩

end

omit [Library] in
theorem exists_mem_flatten {nodes : List Node} {b : Node} (hb : b ∈ nodes.flatMap Node.branches) :
    ∃ m ∈ flatten nodes, m.same b = true := by
  have folded (ns flat : List Node) (h : b ∈ ns ∨ ∃ m ∈ flat, m.same b = true) :
      ∃ m ∈ ns.foldl (fun flat n => if flat.any (·.same n) then flat else flat ++ [n]) flat,
        m.same b = true := by
    induction ns generalizing flat with
    | nil => exact h.resolve_left List.not_mem_nil
    | cons n ns ih =>
      refine ih _ ?_
      dsimp only
      rcases h with h | ⟨m, hm, same⟩
      · rcases List.mem_cons.mp h with rfl | h
        · right
          split_ifs with known
          · exact List.any_eq_true.mp known
          · exact ⟨b, List.mem_append_right _ List.mem_cons_self, b.same_refl⟩
        · exact .inl h
      · right
        split_ifs
        · exact ⟨m, hm, same⟩
        · exact ⟨m, List.mem_append_left _ hm, same⟩
  exact folded _ [] (.inl hb)

theorem admitsWith_joined {σ : String → Json → Bool} {branches : List Node} {d : Json} :
    (joined branches).admitsWith (fun _ => σ) d = true ↔
      ∃ b ∈ branches, b.admitsWith (fun _ => σ) d = true := by
  match branches with
  | [] => exact Node.admitsWith_union
  | [n] => simp [joined]
  | _ :: _ :: _ => exact Node.admitsWith_union

/-- A union whose branches make no loop admits what any of the nodes admits. -/
theorem of_covers {meet : Meet} (narrows : meet.Narrows N σ) (decides : Decides id meet)
    {nodes : List Node} (clear : ∀ b ∈ flatten nodes, b.isMorph = false → b.Clear N)
    (free : IsLoopFree (flatten nodes)) :
    (of meet nodes).Ensures .lasting fun u => ∀ n ∈ nodes, n.Below σ u := by
  have listed : ∀ b ∈ (flatten nodes).zipIdx, b.1.isMorph = false → b.1.Clear N :=
    fun b hb => clear b.1 (List.fst_mem_of_mem_zipIdx hb)
  refine (of_ensures (reduce_settles narrows decides listed (List.Subset.refl _))).mono
    fun u ⟨kept, settled, united⟩ n hn d ordered admitted => ?_
  obtain ⟨b, hb, admitted⟩ := Node.exists_branch_admitsWith.mp admitted
  obtain ⟨m, hm, same⟩ := exists_mem_flatten (List.mem_flatMap.mpr ⟨n, hn, hb⟩)
  rw [← List.zipIdx_map_fst 0 (flatten nodes)] at hm
  obtain ⟨c, hc, rfl⟩ := List.mem_map.mp hm
  obtain ⟨k, hk, below⟩ := settled.covered free c hc
  rw [united, admitsWith_joined]
  exact ⟨k, hk, below d ordered (Node.admitsWith_congr same ▸ admitted)⟩

section

variable {rep : Node → Node}

omit [Library] in
/-- Whatever represents it, a union is the one of the branches that are left. -/
theorem value_same_joined {meet : Meet} (faithful : ∀ n : Node, n.same (rep n) = true)
    (nodes : List Node) : ((of meet nodes).value rep).same
      (joined ((reduce meet (flatten nodes).zipIdx (flatten nodes).zipIdx).value rep)) = true := by
  rw [of]
  simp only [Traced.value_bind]
  rcases (reduce meet (flatten nodes).zipIdx (flatten nodes).zipIdx).value
    rep with _ | ⟨n, _ | ⟨m, ms⟩⟩
  · exact Node.same_symm (faithful _)
  · exact n.same_refl
  · exact Node.same_symm (faithful _)

omit [Library] in
theorem hasAlias_joined {branches : List Node} (hasAlias : ∀ b ∈ branches, b.hasAlias = false) :
    (joined branches).hasAlias = false := by
  match branches with
  | [] => exact Node.hasAlias_of_children nofun hasAlias
  | [n] => exact hasAlias n List.mem_cons_self
  | _ :: _ :: _ => exact Node.hasAlias_of_children nofun hasAlias

omit [Library] in
theorem mem_reduce_of_isMorph {meet : Meet} {branches : List Node} {b : Node} (hb : b ∈ branches)
    (morph : b.isMorph = true) : b ∈ (reduce meet branches.zipIdx branches.zipIdx).value rep := by
  rw [← List.zipIdx_map_fst 0 branches] at hb
  obtain ⟨p, hp, rfl⟩ := List.mem_map.mp hb
  rw [value_reduce]
  exact List.mem_map_of_mem (List.mem_filter.mpr ⟨hp, by rw [morph, Bool.true_or]⟩)

/-- A union of reduced nodes is itself united again to what it is. -/
theorem value_of_branches {nodes : List Node} (reduced : ∀ n ∈ nodes, n.Reduced) :
    (union ((union nodes).value id).branches).value id = (union nodes).value id := by
  obtain ⟨kept, united, irredundant, branch⟩ := value_of_nodes nodes
  have alone : ∀ b ∈ kept, b.Reduced ∧ b.constraint.isUnion = false := by
    intro b hb
    obtain ⟨n, hn, hb⟩ := branch b hb
    exact ⟨Node.Reduced.inherited.branches (reduced n hn) b hb,
      (reduced n hn).isUnion_of_branch hb⟩
  have single : ∀ b ∈ kept, b.constraint.isUnion = false := fun b hb => (alone b hb).2
  have itself : kept.flatMap Node.branches = kept := by
    conv_rhs => rw [← List.flatMap_singleton' kept]
    exact List.flatMap_congr fun b hb => Node.branches_of_single (single b hb)
  have branches := branches_joined single
  change (of SchemaAlgebra.meet ((of SchemaAlgebra.meet nodes).value id).branches).value id =
    (of SchemaAlgebra.meet nodes).value id
  rw [union_eq_freely reduced, united, branches]
  refine value_of_irredundant (branches.symm ▸ single) (fun bs union => ?_)
    (branches.symm ▸ irredundant) (fun b hb => (alone b hb).1) (itself.trans branches.symm)
  match kept with
  | [] => cases union; exact Nat.zero_ne_one
  | [n] =>
    have none := single n List.mem_cons_self
    rw [show n.constraint = .union bs from union] at none
    cases none
  | _ :: _ :: _ => cases union; simp

theorem IsLoopFree.of_pairwise {branches : List Node} (reduced : ∀ b ∈ branches, b.Reduced)
    (h : branches.Pairwise fun a b => a.isMorph = false → b.isMorph = false →
      (isSubtype SchemaAlgebra.meet a b).value id = false) : IsLoopFree branches := by
  refine .of_decreasing fun b o ⟨hb, ho, plain, yields⟩ => ?_
  simp only [Spares, not_or, Bool.not_eq_true] at yields
  obtain ⟨different, plain', inside, -⟩ := yields
  refine (Nat.lt_or_gt_of_ne different).resolve_right fun before => inside ?_
  exact (isSubtype_eq_false_iff (reduced b.1 (List.fst_mem_of_mem_zipIdx hb))
    (reduced o.1 (List.fst_mem_of_mem_zipIdx ho)) plain plain').mp
    (rel_of_mem_zipIdx h hb ho before plain plain')

end

end Union

/-- A node without aliases allows what it admits, however aliases are read. -/
theorem Node.allows_iff {n : Node} (hasAlias : n.hasAlias = false) {b : Bindings} {cap : Option Nat}
    {d : Json} (σ : String → Json → Bool) : n.Allows b cap d ↔
      n.admitsWith (fun _ => σ) d = true := by
  rw [admitsWith_eq_admits hasAlias, ← admitsWith_eq_admits hasAlias (b.meaning cap)]
  exact ⟨Allows.admits, fun admitted => (accepts_of_admits admitted).allows (.inl hasAlias)⟩

namespace Union

section

variable {rep : Node → Node} (faithful : ∀ n : Node, n.same (rep n) = true) {nodes : List Node}
include faithful

theorem exists_admitsWith_of_union {meet : Meet} {σ : String → Json → Bool} {d : Json}
    (admitted : ((of meet nodes).value rep).admitsWith (fun _ => σ) d = true) :
    ∃ n ∈ nodes, n.admitsWith (fun _ => σ) d = true := by
  rw [Node.admitsWith_congr (value_same_joined faithful nodes), admitsWith_joined] at admitted
  obtain ⟨b, hb, admitted⟩ := admitted
  obtain ⟨n, hn, hb⟩ := mem_flatten (reduce_sublist.subset hb)
  exact ⟨n, hn, Node.exists_branch_admitsWith.mpr ⟨b, hb, admitted⟩⟩

/-- Reduced nodes whose branches make no loop are below their union. -/
theorem below_union (reduced : ∀ n ∈ nodes, n.Reduced) {N : Nat} (positive : 0 < N)
    (small : N ≤ 2 ^ 53) (clear : ∀ b ∈ flatten nodes, b.isMorph = false → b.Clear N)
    (free : IsLoopFree (flatten nodes)) (σ : String → Json → Bool) :
    ∀ n ∈ nodes, n.Below σ ((union nodes).value rep) := by
  have lasts : ∀ e ∈ (union nodes).trace id, e ≠ .exhausted := by
    rintro e he rfl
    exact (union_inherits Judging.reduced_inherited (fun n hn => ⟨reduced n hn, trivial⟩)
      fun _ _ => trivial).2 .exhausted he
  have same : ((union nodes).value id).same ((union nodes).value rep) = true := by
    rw [Node.same_iff]
    exact (of_erase Node.same_refl (meet_erase Node.same_refl) nodes).trans
      (of_erase faithful (meet_erase faithful) nodes).symm
  have covers := (of_covers (σ := σ) (meet_narrows positive small) (meet_decides Node.same_refl)
      clear free lasts).1
  exact fun n hn => (covers n hn).trans (Node.below_of_same same)

end

end Union

/-- The union of nodes that parsing and the algebra make has some of their different branches in
the order in which they come, among them all morphs, and uniting its branches again gives it again.
Without aliases it allows what one of the nodes allows, unless branches are dropped for each other.
-/
theorem Produced.union_covers (s : Scope) {nodes : List Node}
    (produced : ∀ n ∈ nodes, Produced n) :
    (∃ kept, kept.Sublist (Union.flatten nodes) ∧
      (∀ b ∈ Union.flatten nodes, b.isMorph = true → b ∈ kept) ∧
      List.Forall₂ (fun a b => a.same b = true) (s.build (union nodes)).1.branches kept) ∧
    (∀ t : Scope, (t.build (union (s.build (union nodes)).1.branches)).1.same
      (s.build (union nodes)).1 = true) ∧
    ((∀ n ∈ nodes, n.hasAlias = false) → Union.IsLoopFree (Union.flatten nodes) →
      ∀ N, 0 < N → N ≤ 2 ^ 53 →
      (∀ b ∈ Union.flatten nodes, b.isMorph = false →
        ∀ m ∈ b.parts, m.constraint.IsClear N) →
      ∀ b cap d, d.Ordered →
        ((s.build (union nodes)).1.Allows b cap d ↔ ∃ n ∈ nodes, n.Allows b cap d)) := by
  have reduced : ∀ n ∈ nodes, n.Reduced := fun n hn => (produced n hn).reduced
  have listed : ∀ b ∈ Union.flatten nodes, b.Reduced ∧ b.constraint.isUnion = false := by
    intro b hb
    obtain ⟨n, hn, hb⟩ := Union.mem_flatten hb
    exact ⟨Node.Reduced.inherited.branches (reduced n hn) b hb,
      (reduced n hn).isUnion_of_branch hb⟩
  have faithful (s : Scope) (ns : List Node) := ScopeState.settled_same (union ns) s.state
  obtain ⟨kept, fewer, morphs, joined⟩ :
      ∃ kept : List Node, kept.Sublist (Union.flatten nodes) ∧
      (∀ b ∈ Union.flatten nodes, b.isMorph = true → b ∈ kept) ∧
      (s.build (union nodes)).1.same (Union.joined kept) = true := by
    rw [s.value_build]
    exact ⟨_, Union.reduce_sublist, fun b hb => Union.mem_reduce_of_isMorph hb,
      Union.value_same_joined (faithful s nodes) nodes⟩
  refine ⟨⟨kept, fewer, morphs, ?_⟩, fun t => ?_,
    fun plain free N positive small clear b cap d ordered => ?_⟩
  · have branches : (Union.joined kept).branches = kept :=
      Union.branches_joined fun b hb => (listed b (fewer.subset hb)).2
    exact branches ▸ Node.same_branches joined
  · have erased (t : Scope) (ns : List Node) :
        (t.build (union ns)).1.erase = (union (ns.map Node.erase)).value id := by
      rw [t.value_build]
      exact Union.of_erase (faithful t ns) (meet_erase (faithful t ns)) ns
    rw [Node.same_iff, erased, erased, ← Node.branches_erase, erased]
    exact Union.value_of_branches (List.forall_mem_map.mpr fun n hn => (reduced n hn).erase)
  · have hasAlias : (s.build (union nodes)).1.hasAlias = false := by
      refine (Node.hasAlias_congr joined).trans (Union.hasAlias_joined fun b hb => ?_)
      obtain ⟨n, hn, hb⟩ := Union.mem_flatten (fewer.subset hb)
      exact Node.hasAlias_branch (plain n hn) hb
    let σ : String → Json → Bool := fun _ _ => false
    rw [Node.allows_iff hasAlias σ, s.value_build]
    constructor
    · intro admitted
      obtain ⟨n, hn, admitted⟩ := Union.exists_admitsWith_of_union (faithful s nodes) admitted
      exact ⟨n, hn, (Node.allows_iff (plain n hn) σ).mpr admitted⟩
    · rintro ⟨n, hn, allowed⟩
      have clear : ∀ b ∈ Union.flatten nodes, b.isMorph = false → b.Clear N :=
        fun b hb single => .of_reduced (listed b hb).1 (clear b hb single)
      exact Union.below_union (faithful s nodes) reduced positive small clear free σ n hn d ordered
        ((Node.allows_iff (plain n hn) σ).mp allowed)

end

section

attribute [local instance] Library.standard

/-- A text among texts and numbers, with a morph of texts beside them. -/
def overlapping : List Request := [.parse "string|number", .parse "'a'", .parse "trim"]

/-- The union of the three has all branches but the text, which it allows all the same. -/
theorem Produced.union_covers_overlapping :
    ∃ s : Scope, ∃ nodes : List Node, nodes = (Session.run 0 .empty overlapping).nodes ∧
      nodes.length = 3 ∧
      (Union.flatten nodes).length = 4 ∧ (s.build (union nodes)).1.branches.length = 3 ∧
      (s.build (union nodes)).1.Allows .unbound none (.string "a") := by
  obtain ⟨nodes, made⟩ : ∃ nodes, nodes = (Session.run 0 .empty overlapping).nodes :=
    ⟨_, rfl⟩
  have produced : ∀ n ∈ nodes, Produced n := fun n hn => .returned (made ▸ hn)
  have facts : nodes.length = 3 ∧ (Union.flatten nodes).length = 4 ∧
      (∀ n ∈ nodes, n.hasAlias = false) ∧
      ((Union.flatten nodes).Pairwise fun a b => a.isMorph = false → b.isMorph = false →
        (Union.isSubtype meet a b).value id = false) ∧
      (∀ b ∈ Union.flatten nodes, b.isMorph = false →
        ∀ m ∈ b.parts, m.constraint.IsClear 1) ∧
      (∃ n ∈ nodes, n.admitsWith (fun _ _ _ => false) (.string "a") = true) ∧
      ((Session.run 0 .empty overlapping).scope.build (union nodes)).1.branches.length = 3 := by
    subst made
    decide +kernel
  obtain ⟨three, four, plain, apart, clear, ⟨n, hn, admitted⟩, fewer⟩ := facts
  have reduced : ∀ b ∈ Union.flatten nodes, b.Reduced := by
    intro b hb
    obtain ⟨m, hm, hb⟩ := Union.mem_flatten hb
    exact Node.Reduced.inherited.branches (produced m hm).reduced b hb
  obtain ⟨-, -, covers⟩ :=
    Produced.union_covers (Session.run 0 .empty overlapping).scope produced
  have allows := covers plain (.of_pairwise reduced apart) 1 (by decide) (by decide) clear .unbound
      none _ (.text "a")
  exact ⟨_, nodes, made, three, four, fewer,
    allows.mpr ⟨n, hn, (Node.allows_iff (plain n hn) _).mpr admitted⟩⟩

end

end SchemaAlgebra

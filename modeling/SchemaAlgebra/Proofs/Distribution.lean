import SchemaAlgebra.Proofs.Assembly
import SchemaAlgebra.Proofs.Irredundance
import SchemaAlgebra.Proofs.Normalizing

/-!
# Intersecting unions goes down

The union of what the branches are intersected to is below both sides. If the branches of both
sides differ in what they fix, so do the products, and all of them are left.
-/
namespace SchemaAlgebra

variable {N : Nat} {σ : String → Json → Bool} {l r n : Node} {meet : Meet}

namespace Node

theorem branches_ne_nil : n.branches ≠ [] ↔ n.isNever = false := by
  obtain ⟨c⟩ := n
  cases c with
  | union branches => cases branches <;> simp [branches, isNever, constraint]
  | _ => exact iff_of_true (List.cons_ne_nil _ _) rfl

variable [Library]

theorem below_of_branches {m : Node} (h : ∀ b ∈ n.branches, b.Below σ m) : n.Below σ m := by
  obtain ⟨c⟩ := n
  cases c with
  | union branches =>
    intro d ordered admitted
    obtain ⟨b, hb, admitted⟩ := admitsWith_union.mp admitted
    exact h b hb d ordered admitted
  | _ => exact h _ (List.mem_singleton_self _)

/-- Nodes made of sides that differ do so as well. -/
theorem Meets.differs {a b c d m : Node} (h : Meets N σ a b n) (h' : Meets N σ c d m)
    (some_value : n.isNever = false) (some_value' : m.isNever = false)
    (sides : a.Differs c ∨ b.Differs d) : n.Differs m := by
  obtain ⟨left, right⟩ := h.marks some_value
  obtain ⟨left', right'⟩ := h'.marks some_value'
  exact sides.elim (fun differs => differs.mono left left') fun differs => differs.mono right right'

end Node

namespace Union

theorem joined_clear {kept : List Node}
    (hk : ∀ b ∈ kept, b.Clear N ∧ b.constraint.isUnion = false) : (joined kept).Clear N := by
  have several : Node.Clear N (.of (.union kept)) :=
    .of _ (fun b hb => (hk b hb).2) trivial fun b hb => (hk b hb).1
  match kept with
  | [] => exact several
  | [n] => exact (hk n List.mem_cons_self).1
  | _ :: _ :: _ => exact several

/-- The union of clear nodes that are not unions is clear, and its branches are some of them. -/
theorem of_clear {nodes : List Node}
    (hn : ∀ n ∈ nodes, n.Clear N ∧ n.constraint.isUnion = false) :
    (of meet nodes).Ensures .lasting fun u => u.Clear N ∧ u.branches ⊆ nodes := by
  have flat (n : Node) (h : n ∈ flatten nodes) : n ∈ nodes := by
    obtain ⟨m, hm, branch⟩ := mem_flatten h
    rw [Node.branches_of_single (hn m hm).2] at branch
    exact List.mem_singleton.mp branch ▸ hm
  have reduced : (reduce meet (flatten nodes).zipIdx (flatten nodes).zipIdx).Ensures .lasting
      (· ⊆ nodes) :=
    Traced.ensures_lasting fun n hn => flat n (reduce_sublist.subset hn)
  refine (of_ensures reduced).mono fun u ⟨kept, fewer, united⟩ => ?_
  have kept_clear (b : Node) (hb : b ∈ kept) := hn b (fewer hb)
  rw [united, branches_joined fun b hb => (kept_clear b hb).2]
  exact ⟨joined_clear kept_clear, fewer⟩

variable [Library]

section

variable (narrows : meet.Narrows N σ)
include narrows

/-- A node is no subtype of one that differs from it. -/
theorem isSubtype_of_differs {a b : Node} (ha : a.Clear N) (hb : b.Clear N)
    (single : a.constraint.isUnion = false) (differs : a.Differs b) :
    (isSubtype meet a b).Ensures .lasting (· = false) := by
  refine (narrows a b ha hb).run_bind (fun n hn => .pure ?_) fun _ _ => .pure rfl
  refine Bool.eq_false_iff.mpr fun same => ha.not_differs ?_
  have some_value : n.isNever = false :=
    (Node.isNever_congr same).trans (Node.isNever_of_single single)
  have marks : b.marks ⊆ a.marks := Node.marks_congr same ▸ (hn.marks some_value).2
  exact differs.mono (List.Subset.refl _) marks

theorem anyIncludes_of_differs {branch : Node} {i : Nat} (hb : branch.Clear N)
    (single : branch.constraint.isUnion = false) {others : List (Node × Nat)}
    (ho : ∀ o ∈ others, o.1.Clear N ∧ (o.2 ≠ i → branch.Differs o.1)) :
    (anyIncludes meet i branch others).Ensures .lasting (· = false) := by
  induction others with
  | nil => exact .pure rfl
  | cons o r ih =>
    obtain ⟨first, rest⟩ := List.forall_mem_cons.mp ho
    have tested : (isIncluded meet i branch o.2 o.1).Ensures .lasting (· = false) := by
      refine .ite (fun _ => .pure rfl) fun compared => ?_
      simp only [Bool.or_eq_true, decide_eq_true_eq, not_or] at compared
      refine (isSubtype_of_differs narrows hb first.1 single (first.2 compared.1)).bind
        fun subtype outside => ?_
      exact .ite (fun _ => .pure rfl) fun inside => absurd (congrArg not outside) inside
    refine tested.bind fun included outside => ?_
    exact .ite (fun inside => absurd (outside.symm.trans inside) Bool.false_ne_true)
      fun _ => ih rest

/-- Of branches that differ from one another nothing is dropped. -/
theorem reduce_of_differs {all branches : List (Node × Nat)}
    (hb : ∀ b ∈ branches, b.1.Clear N ∧ b.1.constraint.isUnion = false)
    (ho : ∀ b ∈ branches, ∀ o ∈ all, o.1.Clear N ∧ (o.2 ≠ b.2 → b.1.Differs o.1)) :
    (reduce meet all branches).Ensures .lasting (· = branches.map Prod.fst) := by
  induction branches with
  | nil => exact .pure rfl
  | cons b r ih =>
    obtain ⟨first, rest⟩ := List.forall_mem_cons.mp hb
    obtain ⟨first', rest'⟩ := List.forall_mem_cons.mp ho
    have going : Traced.Ensures .lasting (do
        let kept ← reduce meet all r
        return if false then kept else b.1 :: kept) (· = (b :: r).map Prod.fst) :=
      (ih rest rest').bind fun kept all => .pure (congrArg (b.1 :: ·) all)
    refine .ite (fun _ => going) fun _ => ?_
    refine (anyIncludes_of_differs narrows first.1 first.2 first').bind fun included outside => ?_
    rw [outside]
    exact going

/-- The union of nodes that differ from one another has them all as its branches. -/
theorem of_differs {nodes : List Node}
    (hn : ∀ n ∈ nodes, n.Clear N ∧ n.constraint.isUnion = false)
    (differ : nodes.Pairwise Node.Differs) :
    (of meet nodes).Ensures .lasting fun u => u.branches = nodes := by
  have flat : flatten nodes = nodes := by
    refine flatten_eq_self (fun n h => (hn n h).2) (differ.imp_of_mem fun {a b} ha _ h => ?_)
    refine Bool.eq_false_iff.mpr fun same => (hn a ha).1.not_differs ?_
    exact (Node.differs_congr a.same_refl same).mpr h
  have listed (p : Node × Nat) (hp : p ∈ nodes.zipIdx) : p.1 ∈ nodes :=
    List.fst_mem_of_mem_zipIdx hp
  have apart (p : Node × Nat) (hp : p ∈ nodes.zipIdx) (q : Node × Nat) (hq : q ∈ nodes.zipIdx)
      (different : q.2 ≠ p.2) : p.1.Differs q.1 := by
    rcases Nat.lt_or_gt_of_ne different with before | behind
    · exact (rel_of_mem_zipIdx differ hq hp before).symm
    · exact rel_of_mem_zipIdx differ hp hq behind
  have reduced : (reduce meet (flatten nodes).zipIdx (flatten nodes).zipIdx).Ensures .lasting
      (· = nodes) := by
    rw [flat]
    refine (reduce_of_differs narrows (fun b hb => hn b.1 (listed b hb)) fun b hb o ho =>
      ⟨(hn o.1 (listed o ho)).1, apart b hb o ho⟩).mono fun kept all => ?_
    rw [all, List.zipIdx_map_fst]
  refine (of_ensures reduced).mono fun u ⟨kept, all, united⟩ => ?_
  rw [united, all, branches_joined fun n h => (hn n h).2]

end

end Union

theorem operands_ne_nil (some_left : l.branches ≠ []) (some_right : r.branches ≠ []) :
    operands l r ≠ [] := by
  obtain ⟨a, left⟩ := List.exists_mem_of_ne_nil _ some_left
  obtain ⟨b, right⟩ := List.exists_mem_of_ne_nil _ some_right
  rw [operands]
  split_ifs
  · exact List.ne_nil_of_mem
      (List.mem_flatMap.mpr ⟨b, right, List.mem_map.mpr ⟨a, left, rfl⟩⟩)
  · exact List.ne_nil_of_mem
      (List.mem_flatMap.mpr ⟨a, left, List.mem_map.mpr ⟨b, right, rfl⟩⟩)

theorem operands_pairwise (left : l.branches.Pairwise Node.Differs)
    (right : r.branches.Pairwise Node.Differs) :
    (operands l r).Pairwise fun p q => p.1.Differs q.1 ∨ p.2.Differs q.2 := by
  have product {as bs : List Node} (ha : as.Pairwise Node.Differs) (hb : bs.Pairwise Node.Differs) :
      (as.flatMap fun a => bs.map (a, ·)).Pairwise
        fun p q => p.1.Differs q.1 ∨ p.2.Differs q.2 := by
    refine List.pairwise_flatMap.mpr ⟨fun a _ => ?_, ha.imp fun differs p hp q hq => ?_⟩
    · exact List.pairwise_map.mpr (hb.imp .inr)
    · obtain ⟨b, -, rfl⟩ := List.mem_map.mp hp
      obtain ⟨c, -, rfl⟩ := List.mem_map.mp hq
      exact .inl differs
  rw [operands]
  split_ifs
  · exact product right left
  · exact product left right

theorem meetAll_ensures {Q : Node × Node → Node → Prop} {E : Disjoint → Prop}
    {ps : List (Node × Node)}
    (hp : ∀ p ∈ ps, Attempt.Ensures .lasting (meet p.1 p.2) (Q p) E) :
    (meetAll meet ps).Ensures .lasting fun outcomes =>
      outcomes = ps.map (fun p => (meet p.1 p.2).outcome id) ∧
      ∀ p ∈ ps, (∀ n, (meet p.1 p.2).outcome id = .ok n → Q p n) ∧
        ∀ d, (meet p.1 p.2).outcome id = .error d → E d := by
  induction ps with
  | nil => exact .pure ⟨rfl, List.forall_mem_nil _⟩
  | cons p ps ih =>
    obtain ⟨first, rest⟩ := List.forall_mem_cons.mp hp
    have met : (meet p.1 p.2).run.Ensures .lasting fun o => o = (meet p.1 p.2).outcome id ∧
        (∀ n, o = .ok n → Q p n) ∧ ∀ d, o = .error d → E d := by
      refine fun lasts => ⟨⟨rfl, ?_⟩, (first lasts).2⟩
      have value := (first lasts).1
      refine ⟨fun n same => ?_, fun d same => ?_⟩
      · rwa [same] at value
      · rwa [same] at value
    refine met.bind fun o ⟨same, here⟩ => (ih rest).bind fun outcomes ⟨sames, behind⟩ => ?_
    subst same sames
    exact .pure ⟨rfl, List.forall_mem_cons.mpr ⟨here, behind⟩⟩

theorem isEmpty_reasons {outcomes : List (Except Disjoint Node)} (some_outcome : outcomes ≠ [])
    (refuted : ∀ n, .ok n ∉ outcomes)
    (reasons : ∀ d, .error d ∈ outcomes → d.isEmpty = false) : (outcomes.foldl (fun acc o =>
      match o with | .ok _ => acc | .error d => acc ++ d) Disjoint.none).isEmpty = false := by
  have gathered (acc : Disjoint) (outcomes : List (Except Disjoint Node))
      (h : (outcomes.foldl (fun acc o =>
      match o with | .ok _ => acc | .error d => acc ++ d) acc).isEmpty = true) :
      acc.isEmpty = true ∧ ∀ d, .error d ∈ outcomes → d.isEmpty = true := by
    induction outcomes generalizing acc with
    | nil => exact ⟨h, fun _ hd => absurd hd List.not_mem_nil⟩
    | cons o outcomes ih =>
      obtain ⟨here, rest⟩ := ih _ h
      cases o with
      | ok n => exact ⟨here, fun d hd => rest d ((List.mem_cons.mp hd).resolve_left nofun)⟩
      | error e =>
        rw [Disjoint.isEmpty_append, Bool.and_eq_true] at here
        refine ⟨here.1, fun d hd => ?_⟩
        rcases List.mem_cons.mp hd with same | hd
        · cases same
          exact here.2
        · exact rest d hd
  obtain ⟨o, ho⟩ := List.exists_mem_of_ne_nil _ some_outcome
  cases o with
  | ok n => exact absurd ho (refuted n)
  | error d =>
    refine Bool.eq_false_iff.mpr fun silent => ?_
    exact Bool.false_ne_true ((reasons d ho).symm.trans ((gathered _ _ silent).2 d ho))

/-- What the pairs of branches are intersected to. -/
def products (meet : Meet) (l r : Node) : List Node :=
  (operands l r).filterMap fun p => ((meet p.1 p.2).outcome id).toOption

theorem mem_products : n ∈ products meet l r ↔
    ∃ p ∈ operands l r, (meet p.1 p.2).outcome id = .ok n := by
  simp only [products, List.mem_filterMap, Union.toOption_eq_some]

/-- Nothing is missing of the products if no two branches come to the node without values. -/
theorem found_eq_products (some_value : ∀ n ∈ products meet l r, n.isNever = false) :
    ((operands l r).map fun p => (meet p.1 p.2).outcome id).filterMap
      (fun o => o.toOption.filter (!·.isNever)) = products meet l r := by
  rw [List.filterMap_map]
  refine List.filterMap_congr fun p hp => ?_
  cases found : (meet p.1 p.2).outcome id with
  | error d =>
    rw [Function.comp_apply, found]
    rfl
  | ok n =>
    rw [Function.comp_apply, found]
    exact Option.filter_eq_some_iff.mpr
      ⟨rfl, congrArg not (some_value n (mem_products.mpr ⟨p, hp, found⟩))⟩

variable [Library]

section

variable (met : ∀ p ∈ operands l r, ∀ n, (meet p.1 p.2).outcome id = .ok n →
  Node.Meets N σ p.1 p.2 n)
include met

theorem exists_branches (hn : n ∈ products meet l r) :
    ∃ a ∈ l.branches, ∃ b ∈ r.branches, Node.Meets N σ a b n := by
  obtain ⟨p, hp, found⟩ := mem_products.mp hn
  rcases mem_operands hp with ⟨left, right⟩ | ⟨right, left⟩
  · exact ⟨p.1, left, p.2, right, met p hp n found⟩
  · exact ⟨p.2, left, p.1, right, (met p hp n found).symm⟩

theorem products_pairwise (some_value : ∀ n ∈ products meet l r, n.isNever = false)
    (left : l.branches.Pairwise Node.Differs) (right : r.branches.Pairwise Node.Differs) :
    (products meet l r).Pairwise Node.Differs := by
  refine List.pairwise_filterMap.mpr ((operands_pairwise left right).imp_of_mem
    fun {p q} hp hq sides n found m found' => ?_)
  rw [Union.toOption_eq_some] at found found'
  exact (met p hp n found).differs (met q hq m found')
    (some_value n (mem_products.mpr ⟨p, hp, found⟩))
    (some_value m (mem_products.mpr ⟨q, hq, found'⟩)) sides

end

variable (narrows : meet.Narrows N σ)
include narrows

/-- The union of the products is below both sides. -/
theorem union_meets (union : l.constraint.isUnion = true ∨ r.constraint.isUnion = true)
    (some_product : products meet l r ≠ [])
    (single : ∀ n ∈ products meet l r, n.constraint.isUnion = false)
    (met : ∀ p ∈ operands l r, ∀ n, (meet p.1 p.2).outcome id = .ok n →
      Node.Meets N σ p.1 p.2 n) :
    (Union.of meet (products meet l r)).Ensures .lasting (Node.Meets N σ l r) := by
  have branches (n : Node) (hn : n ∈ products meet l r) := exists_branches met hn
  have clear (n : Node) (hn : n ∈ products meet l r) :
      n.Clear N ∧ n.constraint.isUnion = false := by
    obtain ⟨a, -, b, -, meets⟩ := branches n hn
    exact ⟨meets.clear, single n hn⟩
  have some_value (n : Node) (hn : n ∈ products meet l r) : n.isNever = false :=
    Node.isNever_of_single (single n hn)
  intro lasts
  obtain ⟨⟨united, fewer⟩, promised⟩ := Union.of_clear clear lasts
  have all (left : l.Discriminated) (right : r.Discriminated) := (Union.of_differs narrows clear
    (products_pairwise met some_value left.2 right.2) lasts).1
  generalize (Union.of meet (products meet l r)).value Judging.lasting.rep = u at united fewer all
  refine ⟨⟨united, ?_, ?_, ?_, ?_, ?_⟩, promised⟩
  · refine Node.below_of_branches fun n hn => ?_
    obtain ⟨a, ha, b, hb, meets⟩ := branches n (fewer hn)
    exact meets.left.trans (Node.below_of_branch ha)
  · refine Node.below_of_branches fun n hn => ?_
    obtain ⟨a, ha, b, hb, meets⟩ := branches n (fewer hn)
    exact meets.right.trans (Node.below_of_branch hb)
  · intro left right
    rw [left, right] at union
    simp at union
  · intro left
    have some_branch := Node.branches_ne_nil.mpr left
    constructor
    · refine fun o ho => Node.mem_marks_of_branches some_branch fun n hn => ?_
      obtain ⟨a, ha, b, hb, meets⟩ := branches n (fewer hn)
      exact (meets.marks (some_value n (fewer hn))).1 (Node.mem_marks_of_branch ha ho)
    · refine fun o ho => Node.mem_marks_of_branches some_branch fun n hn => ?_
      obtain ⟨a, ha, b, hb, meets⟩ := branches n (fewer hn)
      exact (meets.marks (some_value n (fewer hn))).2 (Node.mem_marks_of_branch hb ho)
  · intro left right
    rw [Node.Discriminated, ← Node.branches_ne_nil, all left right]
    exact ⟨some_product, products_pairwise met some_value left.2 right.2⟩

variable (hl : l.Clear N) (hr : r.Clear N)
include hl hr

theorem distribute_meets (some_left : l.isNever = false) (some_right : r.isNever = false)
    (union : l.constraint.isUnion = true ∨ r.constraint.isUnion = true) :
    Attempt.Ensures .lasting (distribute meet l r) (Node.Meets N σ l r) fun d =>
      d.isEmpty = false := by
  have sides (p : Node × Node) (hp : p ∈ operands l r) :
      (p.1.Clear N ∧ p.1.constraint.isUnion = false) ∧
        p.2.Clear N ∧ p.2.constraint.isUnion = false :=
    (mem_operands hp).elim (fun h => ⟨hl.branches p.1 h.1, hr.branches p.2 h.2⟩)
      fun h => ⟨hr.branches p.1 h.1, hl.branches p.2 h.2⟩
  have pairs (p : Node × Node) (hp : p ∈ operands l r) : Attempt.Ensures .lasting (meet p.1 p.2)
      (Node.Meets N σ p.1 p.2) fun d => d.isEmpty = false :=
    narrows p.1 p.2 (sides p hp).1.1 (sides p hp).2.1
  rw [distribute_eq]
  refine Attempt.Ensures.bind (.lift (meetAll_ensures pairs)) fun outcomes ⟨all, ensured⟩ => ?_
  have met (p : Node × Node) (hp : p ∈ operands l r) := (ensured p hp).1
  have single (n : Node) (hn : n ∈ products meet l r) : n.constraint.isUnion = false := by
    obtain ⟨p, hp, found⟩ := mem_products.mp hn
    exact (met p hp n found).single (sides p hp).1.2 (sides p hp).2.2
  have found := found_eq_products fun n hn => Node.isNever_of_single (single n hn)
  rw [← all] at found
  dsimp only [reunite]
  rw [found]
  refine .ite (fun none => .throw ?_) fun some_product => .lift ?_
  · have none : products meet l r = [] := List.isEmpty_iff.mp none
    have some_outcome : outcomes ≠ [] := by
      rw [all]
      exact mt List.map_eq_nil_iff.mp (operands_ne_nil (Node.branches_ne_nil.mpr some_left)
        (Node.branches_ne_nil.mpr some_right))
    refine isEmpty_reasons some_outcome (fun n hn => ?_) fun d hd => ?_
    · rw [all] at hn
      obtain ⟨p, hp, found⟩ := List.mem_map.mp hn
      have kept : n ∈ products meet l r := mem_products.mpr ⟨p, hp, found⟩
      rw [none] at kept
      cases kept
    · rw [all] at hd
      obtain ⟨p, hp, found⟩ := List.mem_map.mp hd
      exact (ensured p hp).2 d found
  · exact union_meets narrows union (mt List.isEmpty_iff.mpr some_product) single met

end SchemaAlgebra

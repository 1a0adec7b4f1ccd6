import SchemaAlgebra.Proofs.Written

/-!
# Irredundant unions

What is left of the branches of a union is irredundant, and of irredundant branches all are
left.
-/
namespace SchemaAlgebra.Union

variable {meet : Meet} {rep : Node → Node}

/-- Branches as a node; an only branch stands for itself. -/
def joined : List Node → Node
  | [n] => n
  | branches => .of (.union branches)

theorem value_of (meet : Meet) (nodes : List Node) :
    (of meet nodes).value id =
      joined ((reduce meet (flatten nodes).zipIdx (flatten nodes).zipIdx).value id) := by
  rw [of]
  simp only [Traced.value_bind]
  rcases (reduce meet (flatten nodes).zipIdx (flatten nodes).zipIdx).value
    id with _ | ⟨n, _ | ⟨m, ms⟩⟩ <;> rfl

/-- A union consists of what is left of the branches. -/
theorem of_ensures {nodes : List Node} {Q : List Node → Prop}
    (reduced : (reduce meet (flatten nodes).zipIdx (flatten nodes).zipIdx).Ensures .lasting Q) :
    (of meet nodes).Ensures .lasting fun u => ∃ kept, Q kept ∧ u = joined kept := by
  have noted (kept : List Node) :
      (Traced.emit (.reduced (flatten nodes) kept)).Ensures .lasting fun _ => True :=
    .emit (by exact trivial) fun _ => trivial
  refine reduced.bind fun kept hk => (noted kept).bind fun _ _ => ?_
  split
  · exact .pure ⟨_, hk, rfl⟩
  · rename_i several
    exact Traced.build_lasting ⟨kept, hk, (joined.eq_2 kept several).symm⟩

theorem branches_joined {branches : List Node}
    (single : ∀ b ∈ branches, b.constraint.isUnion = false) :
    (joined branches).branches = branches := by
  match branches with
  | [] => rfl
  | [n] => exact Node.branches_of_single (single n List.mem_cons_self)
  | _ :: _ :: _ => rfl

theorem value_isIncluded (i j : Nat) (branch other : Node) :
    (isIncluded meet i branch j other).value rep = (!(j == i || other.isMorph) &&
      ((isSubtype meet branch other).value rep &&
        (decide (j < i) || !(isSubtype meet other branch).value rep))) := by
  by_cases skip : (j == i || other.isMorph) = true
  · have skipped : isIncluded meet i branch j other = pure false := if_pos (by simpa using skip)
    rw [skipped, skip]
    rfl
  · rw [Bool.not_eq_true] at skip
    have tested : isIncluded meet i branch j other =
        (isSubtype meet branch other >>= fun subtype => if !subtype then
        pure false else if j < i then pure true else isSubtype meet other branch >>= fun back =>
          pure !back) :=
      if_neg (by simpa using skip)
    rw [tested, skip, Traced.value_bind]
    cases (isSubtype meet branch other).value rep with
    | false => rfl
    | true =>
      by_cases earlier : j < i <;> simp [earlier]

theorem value_anyIncludes (i : Nat) (branch : Node) (others : List (Node × Nat)) :
    (anyIncludes meet i branch others).value rep =
      others.any fun o => (isIncluded meet i branch o.2 o.1).value rep := by
  induction others with
  | nil => rfl
  | cons o r ih =>
    rw [List.any_cons, ← ih]
    change Traced.value (isIncluded meet i branch o.2 o.1 >>= _) rep = _
    rw [Traced.value_bind]
    cases (isIncluded meet i branch o.2 o.1).value rep <;> rfl

theorem value_reduce (all branches : List (Node × Nat)) :
    (reduce meet all branches).value rep =
      (branches.filter fun b => b.1.isMorph || !(anyIncludes meet b.2 b.1 all).value rep).map
        Prod.fst := by
  induction branches with
  | nil => rfl
  | cons b r ih =>
    obtain ⟨branch, i⟩ := b
    rw [reduce, List.filter_cons]
    by_cases morph : branch.isMorph = true
    · simp [morph, ih]
    · simp only [morph, Traced.value_bind, ih, Bool.false_eq_true, if_false]
      cases (anyIncludes meet i branch all).value rep <;> simp

theorem reduce_sublist {meet : Meet} {branches : List Node} :
    ((reduce meet branches.zipIdx branches.zipIdx).value rep).Sublist branches := by
  have fewer := (List.filter_sublist (p := fun b => b.1.isMorph ||
    !(anyIncludes meet b.2 b.1 branches.zipIdx).value rep) (l := branches.zipIdx)).map Prod.fst
  rwa [List.zipIdx_map_fst, ← value_reduce] at fewer

theorem flatten_eq_self {branches : List Node}
    (single : ∀ b ∈ branches, b.constraint.isUnion = false)
    (apart : branches.Pairwise (Node.same · · = false)) : flatten branches = branches := by
  have step (flat branches : List Node)
      (apart : (flat ++ branches).Pairwise (Node.same · · = false)) :
      branches.foldl (fun flat n => if flat.any (·.same n) then flat else flat ++ [n]) flat =
        flat ++ branches := by
    induction branches generalizing flat with
    | nil => simp
    | cons n r ih =>
      have unknown : flat.any (·.same n) = false := by
        refine List.any_eq_false.mpr fun a ha => ?_
        rw [(List.pairwise_append.mp apart).2.2 a ha n List.mem_cons_self]
        exact Bool.false_ne_true
      rw [List.foldl_cons, if_neg (by rw [unknown]; exact Bool.false_ne_true),
        ih (flat ++ [n]) (by simpa using apart), List.append_assoc]
      rfl
  have branches_eq : branches.flatMap (·.branches) = branches := by
    rw [List.flatMap_congr fun b hb => Node.branches_of_single (single b hb)]
    simp
  rw [flatten, branches_eq]
  exact step [] branches apart

theorem irredundant_reduce [Library] {branches : List Node}
    (apart : branches.Pairwise (Node.same · · = false)) :
    Irredundant ((reduce meetFreely branches.zipIdx branches.zipIdx).value id) ∧
      (reduce meetFreely branches.zipIdx branches.zipIdx).value id ⊆ branches := by
  rw [value_reduce]
  constructor
  · have positions : branches.zipIdx.Pairwise fun p q => p.2 < q.2 := by
      rw [← List.pairwise_map (f := Prod.snd) (R := (· < ·)), List.zipIdx_map_snd]
      exact List.pairwise_lt_range'
    have different : branches.zipIdx.Pairwise fun p q => p.1.same q.1 = false := by
      rw [← List.pairwise_map (f := Prod.fst) (R := (Node.same · · = false)),
        List.zipIdx_map_fst]
      exact apart
    refine List.pairwise_map.mpr
      ((positions.and different).filter _ |>.imp_of_mem fun {p q} hp hq h => ?_)
    refine ⟨h.2, fun plain plain' => ?_⟩
    have kept {p q : Node × Nat} (hp : p ∈ branches.zipIdx.filter fun b =>
        b.1.isMorph || !(anyIncludes meetFreely b.2 b.1 branches.zipIdx).value id)
        (plain : p.1.isMorph = false) (hq : q ∈ branches.zipIdx) :
        (isIncluded meetFreely p.2 p.1 q.2 q.1).value id = false := by
      have none := (List.mem_filter.mp hp).2
      rw [plain, Bool.false_or, Bool.not_eq_true', value_anyIncludes] at none
      exact Bool.eq_false_iff.mpr (List.any_eq_false.mp none q hq)
    have later := kept hp plain (List.mem_filter.mp hq).1
    have earlier := kept hq plain' (List.mem_filter.mp hp).1
    rw [value_isIncluded] at later earlier
    simp [plain, plain', h.1, h.1.ne, h.1.ne', h.1.not_gt] at later earlier
    exact ⟨by simpa [earlier] using later, earlier⟩
  · intro n hn
    obtain ⟨p, hp, rfl⟩ := List.mem_map.mp hn
    exact List.fst_mem_of_mem_zipIdx (List.mem_filter.mp hp).1

/-- What holds of earlier and later elements holds of elements with earlier and later numbers. -/
theorem rel_of_mem_zipIdx {α : Type u} {R : α → α → Prop} {as : List α} (h : as.Pairwise R)
    {p q : α × Nat} (hp : p ∈ as.zipIdx) (hq : q ∈ as.zipIdx) (before : p.2 < q.2) :
    R p.1 q.1 := by
  obtain ⟨a, i⟩ := p
  obtain ⟨b, j⟩ := q
  obtain ⟨hi, rfl⟩ : ∃ hi : i < as.length, as[i] = a :=
    List.getElem?_eq_some_iff.mp (List.mem_zipIdx_iff_getElem?.mp hp)
  obtain ⟨hj, rfl⟩ : ∃ hj : j < as.length, as[j] = b :=
    List.getElem?_eq_some_iff.mp (List.mem_zipIdx_iff_getElem?.mp hq)
  exact List.pairwise_iff_getElem.mp h i j hi hj before

variable [Library]

theorem reduce_irredundant {branches : List Node} (h : Irredundant branches) :
    (reduce meetFreely branches.zipIdx branches.zipIdx).value id = branches := by
  rw [value_reduce, List.filter_eq_self.mpr fun p hp => ?_, List.zipIdx_map_fst]
  rw [Bool.or_eq_true, Bool.not_eq_true', or_iff_not_imp_left, Bool.not_eq_true]
  intro plain
  rw [value_anyIncludes]
  refine List.any_eq_false.mpr fun q hq => ?_
  rw [value_isIncluded, Bool.not_eq_true, Bool.and_eq_false_iff, Bool.not_eq_false',
    Bool.or_eq_true, beq_iff_eq,
    or_assoc, or_iff_not_imp_left, or_iff_not_imp_left, Bool.not_eq_true]
  intro different plain'
  have separate : (isSubtype meetFreely p.1 q.1).value id = false := by
    rcases Nat.lt_or_gt_of_ne different with before | behind
    · exact ((rel_of_mem_zipIdx h hq hp before).2 plain' plain).2
    · exact ((rel_of_mem_zipIdx h hp hq behind).2 plain plain').1
  rw [separate, Bool.false_and]

/-- The union of nodes has some of their branches, which are irredundant. -/
theorem value_of_nodes (nodes : List Node) :
    ∃ kept, (of meetFreely nodes).value id = joined kept ∧ Irredundant kept ∧
    ∀ b ∈ kept, ∃ n ∈ nodes, b ∈ n.branches := by
  obtain ⟨irredundant, fewer⟩ := irredundant_reduce (flatten_pairwise nodes)
  exact ⟨_, value_of meetFreely nodes, irredundant, fun b hb => mem_flatten (fewer hb)⟩

end SchemaAlgebra.Union

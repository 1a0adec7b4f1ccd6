import Mathlib.Data.List.Nodup
import SchemaAlgebra.Proofs.Routing

/-!
# Branches at the leaves of a tree

A switch puts the branches into one case for each key that their outcomes have. So every branch is
at one leaf of a tree, the outcomes on the way there are recorded of it, and nothing is looked at
twice on the way.
-/
namespace SchemaAlgebra

theorem nodup_eraseDups {α : Type} [BEq α] [LawfulBEq α] (l : List α) : l.eraseDups.Nodup := by
  induction h : l.length using Nat.strongRecOn generalizing l with
  | ind n ih =>
    cases l with
    | nil => exact List.nodup_nil
    | cons a l =>
      have shorter : (l.filter fun b => !b == a).length < n :=
        h ▸ Nat.lt_succ_of_le (List.length_filter_le _ l)
      rw [List.eraseDups_cons, List.nodup_cons]
      exact ⟨by simp, ih _ shorter _ rfl⟩

namespace DecisionTree

mutual

/-- The branches listed at each leaf, from left to right. -/
def leaves : DecisionTree → List (List Nat)
  | .sequential indices => [indices]
  | .switch _ cases => leavesOfCases cases

def leavesOfCases : List (Outcome × DecisionTree) → List (List Nat)
  | [] => []
  | (_, tree) :: r => leaves tree ++ leavesOfCases r

end

/-- The way from a tree to a part of it: the probes that are switched on, each with the outcome of
the case taken. -/
inductive LeadsTo : DecisionTree → List (Probe × Outcome) → DecisionTree → Prop
  | here (tree : DecisionTree) : LeadsTo tree [] tree
  | into {p : Probe} {cases : List (Outcome × DecisionTree)} {o : Outcome}
    {tree part : DecisionTree} {way : List (Probe × Outcome)} (taken : (o, tree) ∈ cases)
    (rest : LeadsTo tree way part) : LeadsTo (.switch p cases) ((p, o) :: way) part

/-- The outcome of a probe that is recorded of a branch has the key. -/
def Records (branches : List Node) (p : Probe) (i : Nat) (key : String) : Prop :=
  ∃ n o, branches[i]? = some n ∧ (Facts.ofNode n).get? p = some o ∧ o.key = key

/-- A tree puts every branch at one leaf, and knows of it what the switches on the way there ask
for. -/
structure Partitions (tree : DecisionTree) (branches : List Node) : Prop where
  /-- Every number of a branch is listed once, at one leaf. -/
  complete : tree.leaves.flatten.Perm (List.range branches.length)
  ordered : ∀ indices ∈ tree.leaves, indices.Pairwise (· < ·)
  /-- No probe is switched on twice on any way down. -/
  fresh : ∀ {way part}, tree.LeadsTo way part → (way.map (·.1)).Nodup
  several : ∀ {way p cases}, tree.LeadsTo way (.switch p cases) → 2 ≤ cases.length
  distinct : ∀ {way p cases}, tree.LeadsTo way (.switch p cases) → (cases.map (·.1.key)).Nodup
  inhabited : ∀ {way p cases}, tree.LeadsTo way (.switch p cases) →
    ∀ c ∈ cases, c.2.leaves.flatten ≠ []
  recorded : ∀ {way p cases}, tree.LeadsTo way (.switch p cases) →
    ∀ c ∈ cases, ∀ i ∈ c.2.leaves.flatten, Records branches p i c.1.key
  /-- A probe that is known for all branches of a leaf, and not used on the way there, tells none of
  them apart. -/
  settled : ∀ {way indices}, tree.LeadsTo way (.sequential indices) → ∀ p ∉ way.map (·.1),
    (∀ i ∈ indices, ∃ key, Records branches p i key) →
      ∃ key, ∀ i ∈ indices, Records branches p i key

theorem leaves_switch (p : Probe) (cases : List (Outcome × DecisionTree)) :
    (switch p cases).leaves = cases.flatMap (·.2.leaves) := by
  rw [leaves]
  induction cases with
  | nil => rfl
  | cons c cases ih => rw [leavesOfCases, ih, List.flatMap_cons]

theorem flatten_leaves_switch (p : Probe) (cases : List (Outcome × DecisionTree)) :
    (switch p cases).leaves.flatten = cases.flatMap (·.2.leaves.flatten) := by
  rw [leaves_switch]
  induction cases with
  | nil => rfl
  | cons c cases ih => rw [List.flatMap_cons, List.flatten_append, ih, List.flatMap_cons]

theorem consider_isSome (facts : List Facts) (indices : List Nat) (used : List Probe)
    {best : Option (Probe × Nat)} (there : best.isSome = true) (p : Probe) :
    (consider facts indices used best p).isSome = true := by
  rcases consider_cases facts indices used best p with kept | ⟨-, n, taken⟩
  · rw [kept]
    exact there
  · rw [taken]
    rfl

theorem consider_of_splits {facts : List Facts} {indices : List Nat} {used : List Probe} {p : Probe}
    (splits : Splits facts used indices p) (best : Option (Probe × Nat)) :
    (consider facts indices used best p).isSome = true := by
  obtain ⟨outcomes, known, differ⟩ := splits.apart
  have new : used.contains p = false := by simpa using splits.fresh
  simp only [consider, new, known, Nat.not_lt.mpr differ, Bool.false_eq_true, if_false]
  unfold better
  split
  · rfl
  · split_ifs <;> rfl

theorem bestProbe_of_splits {facts : List Facts} {indices : List Nat} {used : List Probe}
    {p : Probe} (splits : Splits facts used indices p) {i : Nat} (listed : i ∈ indices) :
    (bestProbe? facts indices used).isSome = true := by
  have kept (probes : List Probe) (best : Option (Probe × Nat)) (there : best.isSome = true) :
      (probes.foldl (consider facts indices used) best).isSome = true := by
    induction probes generalizing best with
    | nil => exact there
    | cons q probes ih => exact ih _ (consider_isSome facts indices used there q)
  have found (probes : List Probe) (best : Option (Probe × Nat)) (among : p ∈ probes) :
      (probes.foldl (consider facts indices used) best).isSome = true := by
    obtain ⟨before, after, rfl⟩ := List.append_of_mem among
    rw [List.foldl_append, List.foldl_cons]
    exact kept after _ (consider_of_splits splits _)
  obtain ⟨outcomes, known, -⟩ := splits.apart
  obtain ⟨o, recorded⟩ := outcomes_isSome (by rw [known]; rfl) listed
  rw [bestProbe?, Option.isSome_map]
  apply found
  rw [List.mem_flatMap]
  exact ⟨i, listed, List.mem_map.mpr ⟨(p, o), Facts.mem_of_get? recorded, rfl⟩⟩

theorem groups_concat (facts : List Facts) (p : Probe) (indices : List Nat) (i : Nat) :
    groups facts p (indices ++ [i]) =
      match (factsAt facts i).get? p with
      | some o => addTo (groups facts p indices) o i
      | none => groups facts p indices := by
  rw [groups, List.foldl_append]
  rfl

theorem keys_addTo (gs : List (Outcome × List Nat)) (o : Outcome) (i : Nat) :
    (addTo gs o i).map (·.1.key) =
      if o.key ∈ gs.map (·.1.key) then gs.map (·.1.key) else gs.map (·.1.key) ++ [o.key] := by
  induction gs with
  | nil => rfl
  | cons g gs ih =>
    obtain ⟨q, members⟩ := g
    by_cases same : q.key = o.key
    · simp [addTo, same]
    · simp only [addTo, if_neg same, List.map_cons, ih, List.mem_cons, Ne.symm same, false_or]
      split_ifs <;> rfl

theorem flatMap_addTo (gs : List (Outcome × List Nat)) (o : Outcome) (i : Nat) :
    ((addTo gs o i).flatMap (·.2)).Perm (gs.flatMap (·.2) ++ [i]) := by
  induction gs with
  | nil => rfl
  | cons g gs ih =>
    obtain ⟨q, members⟩ := g
    rw [addTo]
    split_ifs
    · simp only [List.flatMap_cons, List.append_assoc]
      exact List.perm_append_comm.append_left members
    · simp only [List.flatMap_cons, List.append_assoc]
      exact ih.append_left members

/-- The keys of the recorded outcomes, in the order of the branches. -/
def recordedKeys (facts : List Facts) (p : Probe) (indices : List Nat) : List String :=
  indices.filterMap fun i => ((factsAt facts i).get? p).map (·.key)

/-- There is one group for each key of an outcome, in the order in which the keys are met. -/
theorem keys_groups (facts : List Facts) (p : Probe) (indices : List Nat) :
    (groups facts p indices).map (·.1.key) = (recordedKeys facts p indices).eraseDups := by
  induction indices using List.reverseRecOn with
  | nil => rfl
  | append_singleton indices i ih =>
    rw [groups_concat, recordedKeys, List.filterMap_append, List.eraseDups_append,
      ← recordedKeys, ← ih]
    cases found : (factsAt facts i).get? p with
    | none => simp [found]
    | some o =>
      have met : o.key ∈ recordedKeys facts p indices ↔
          o.key ∈ (groups facts p indices).map (·.1.key) := by
        rw [ih, List.mem_eraseDups]
      simp only [keys_addTo, List.filterMap_cons, List.filterMap_nil, found, Option.map_some,
        List.removeAll,
        List.filter_cons, List.filter_nil, List.elem_eq_mem, Bool.not_eq_true',
          decide_eq_false_iff_not, met]
      split_ifs
      · rw [List.eraseDups_nil, List.append_nil]
      · rw [List.eraseDups_cons]
        rfl

theorem nodup_keys_groups (facts : List Facts) (p : Probe) (indices : List Nat) :
    ((groups facts p indices).map (·.1.key)).Nodup := by
  rw [keys_groups]
  exact nodup_eraseDups _

variable {facts : List Facts} {used : List Probe} {indices : List Nat} {p : Probe}

theorem recordedKeys_of_known {outcomes : List Outcome}
    (known : outcomes? facts p indices = some outcomes) :
    recordedKeys facts p indices = outcomes.map (·.key) := by
  induction indices generalizing outcomes with
  | nil =>
    cases known
    rfl
  | cons i indices ih =>
    rw [outcomes?, Option.bind_eq_some_iff] at known
    obtain ⟨o, found, known⟩ := known
    rw [Option.map_eq_some_iff] at known
    obtain ⟨rest, known, rfl⟩ := known
    rw [recordedKeys, List.filterMap_cons, found, List.map_cons, ← ih known]
    rfl

/-- A group holds exactly the branches with an outcome of its key. -/
theorem group_eq {g : Outcome × List Nat} (h : g ∈ groups facts p indices) :
    g.2 = indices.filter fun i => ((factsAt facts i).get? p).map (·.key) = some g.1.key := by
  have found : (groups facts p indices).find? (·.1.key = g.1.key) = some g := by
    cases found : (groups facts p indices).find? (·.1.key = g.1.key) with
    | none => simpa using List.find?_eq_none.mp found g h
    | some q =>
      have same : q.1.key = g.1.key := by simpa using List.find?_some found
      rw [List.inj_on_of_nodup_map (nodup_keys_groups facts p indices)
        (List.mem_of_find?_eq_some found) h same]
  rw [← members_groups, members, found]
  rfl

theorem group_ne_nil {g : Outcome × List Nat} (h : g ∈ groups facts p indices) : g.2 ≠ [] := by
  have key : g.1.key ∈ (groups facts p indices).map (·.1.key) := List.mem_map_of_mem h
  rw [keys_groups, List.mem_eraseDups, recordedKeys, List.mem_filterMap] at key
  obtain ⟨i, listed, outcome⟩ := key
  rw [group_eq h]
  exact List.ne_nil_of_mem (List.mem_filter.mpr ⟨listed, by simpa using outcome⟩)

theorem flatMap_groups (known : ∀ i ∈ indices, ∃ o, (factsAt facts i).get? p = some o) :
    ((groups facts p indices).flatMap (·.2)).Perm indices := by
  induction indices using List.reverseRecOn with
  | nil => exact .nil
  | append_singleton indices i ih =>
    obtain ⟨o, found⟩ := known i (by simp)
    have before := ih fun j hj => known j (List.mem_append_left [i] hj)
    rw [groups_concat, found]
    exact (flatMap_addTo _ o i).trans (before.append_right [i])

namespace Splits

variable (h : Splits facts used indices p)

include h

theorem known : ∀ i ∈ indices, ∃ o, (factsAt facts i).get? p = some o := by
  obtain ⟨outcomes, known, -⟩ := h.apart
  exact fun i => outcomes_isSome (by rw [known]; rfl)

theorem several : 2 ≤ (groups facts p indices).length := by
  obtain ⟨outcomes, known, differ⟩ := h.apart
  have keys := congrArg List.length (keys_groups facts p indices)
  rw [List.length_map, recordedKeys_of_known known] at keys
  rw [keys]
  exact differ

theorem shorter {g : Outcome × List Nat} (hg : g ∈ groups facts p indices) :
    g.2.length < indices.length := by
  rw [group_eq hg, List.length_filter_lt_length_iff_exists]
  by_contra! all
  have single : (groups facts p indices).map (·.1.key) ⊆ [g.1.key] := by
    intro key met
    rw [keys_groups, List.mem_eraseDups, recordedKeys, List.mem_filterMap] at met
    obtain ⟨i, listed, outcome⟩ := met
    have here := all i listed
    rw [outcome] at here
    simpa using here
  have few := ((nodup_keys_groups facts p indices).subperm single).length_le
  rw [List.length_map, List.length_singleton] at few
  exact absurd (h.several.trans few) (by decide)

theorem two_le : 2 ≤ indices.length := by
  obtain ⟨g, hg⟩ := List.exists_mem_of_length_pos (Nat.lt_of_lt_of_le Nat.zero_lt_two h.several)
  have shorter := h.shorter hg
  have some_branch := List.length_pos_iff.mpr (group_ne_nil hg)
  omega

end Splits

/-- What is built lists its branches if no probe splits them, and otherwise switches on a probe that
does. -/
theorem build_cases (facts : List Facts) (used : List Probe) (depth : Nat) (indices : List Nat) :
    (build facts used depth indices = .sequential indices ∧
      (indices.length ≤ depth → ∀ p, ¬Splits facts used indices p)) ∨
    ∃ below p, depth = below + 1 ∧ Splits facts used indices p ∧
      build facts used depth indices =
      .switch p ((groups facts p indices).map fun g =>
        (g.1, build facts (used ++ [p]) below g.2)) := by
  cases depth with
  | zero =>
    refine .inl ⟨rfl, fun empty p splits => ?_⟩
    have some_branches := splits.two_le
    omega
  | succ below =>
    rw [build]
    split_ifs with few
    · refine .inl ⟨rfl, fun _ p splits => ?_⟩
      have some_branches := splits.two_le
      omega
    · cases best : bestProbe? facts indices used with
      | none =>
        refine .inl ⟨rfl, fun _ p splits => ?_⟩
        obtain ⟨i, listed⟩ := List.exists_mem_of_length_pos (show 0 < indices.length by omega)
        have some_probe := bestProbe_of_splits splits listed
        rw [best] at some_probe
        cases some_probe
      | some p => exact .inr ⟨below, p, rfl, bestProbe_splits best, rfl⟩

/-- The number of branches is a bound on the depth that is never reached. -/
theorem build_of_le (facts : List Facts) (used : List Probe) {depth : Nat} {indices : List Nat}
    (enough : indices.length ≤ depth) (more : Nat) :
    build facts used (depth + more) indices = build facts used depth indices := by
  induction depth generalizing used indices with
  | zero =>
    have empty : indices = [] := List.eq_nil_of_length_eq_zero (Nat.le_zero.mp enough)
    subst empty
    cases more <;> rfl
  | succ depth ih =>
    rw [Nat.succ_add, build, build]
    split_ifs
    · rfl
    · cases best : bestProbe? facts indices used with
      | none => rfl
      | some p =>
        refine congrArg (DecisionTree.switch p) (List.map_congr_left fun g hg => ?_)
        have shorter := (bestProbe_splits best).shorter hg
        exact congrArg (Prod.mk g.1) (ih (used ++ [p]) (by omega))

/-- By induction on the depth, the leaves are those of the groups, which hold every branch once. -/
theorem leaves_build (facts : List Facts) (used : List Probe) (depth : Nat) (indices : List Nat) :
    (build facts used depth indices).leaves.flatten.Perm indices := by
  induction depth using Nat.strongRecOn generalizing used indices with
  | ind depth ih =>
    rcases build_cases facts used depth indices with ⟨listed, -⟩ | ⟨below, p, rfl, splits,
      switched⟩
    · rw [listed, leaves, List.flatten_singleton]
    · rw [switched, flatten_leaves_switch, List.flatMap_map]
      have grouped := List.Perm.flatMap_left (groups facts p indices) fun g _ =>
        ih below (Nat.lt_succ_self below) (used ++ [p]) g.2
      exact grouped.trans (flatMap_groups splits.known)

theorem sublist_of_mem_leaves_build (facts : List Facts) (used : List Probe) (depth : Nat)
    (indices : List Nat) :
    ∀ listed ∈ (build facts used depth indices).leaves, listed.Sublist indices := by
  induction depth using Nat.strongRecOn generalizing used indices with
  | ind depth ih =>
    intro leaf hleaf
    rcases build_cases facts used depth indices with ⟨listed, -⟩ | ⟨below, p, rfl, splits,
      switched⟩
    · rw [listed, leaves, List.mem_singleton] at hleaf
      rw [hleaf]
    · rw [switched, leaves_switch, List.flatMap_map, List.mem_flatMap] at hleaf
      obtain ⟨g, hg, hleaf⟩ := hleaf
      have within := ih below (Nat.lt_succ_self below) (used ++ [p]) g.2 leaf hleaf
      rw [group_eq hg] at within
      exact within.trans List.filter_sublist

/-- A part of what is built is built too, without the probes on the way there, and deep enough if
the whole is. -/
theorem leadsTo_build {way : List (Probe × Outcome)} {part : DecisionTree} {depth : Nat}
    (leads : (build facts used depth indices).LeadsTo way part) (fresh : used.Nodup)
    (enough : indices.length ≤ depth) :
    (used ++ way.map (·.1)).Nodup ∧ ∃ below rest, rest.length ≤ below ∧
      part = build facts (used ++ way.map (·.1)) below rest := by
  -- The induction is on the way: each switch on it is on a probe that was not used before,
  -- and leaves a smaller group.
  generalize built : build facts used depth indices = tree at leads
  induction leads generalizing used depth indices with
  | here tree =>
    rw [List.map_nil, List.append_nil]
    exact ⟨fresh, depth, indices, enough, built.symm⟩
  | @into q cases o tree part way taken rest ih =>
    rcases build_cases facts used depth indices with ⟨listed, -⟩ | ⟨below, p, rfl, splits,
      switched⟩
    · rw [built] at listed
      cases listed
    · rw [built] at switched
      cases switched
      obtain ⟨g, hg, same⟩ := List.mem_map.mp taken
      cases same
      have later : (used ++ [q]).Nodup := by
        rw [← List.concat_eq_append]
        exact fresh.concat splits.fresh
      have shorter := splits.shorter hg
      have there := ih later (by omega) rfl
      rw [List.append_assoc] at there
      exact there

section

variable {way : List (Probe × Outcome)} {depth : Nat} (fresh : used.Nodup)
  (enough : indices.length ≤ depth)

include fresh enough

/-- A switch in what is built has the groups of its branches for cases. -/
theorem switch_of_leadsTo {cases : List (Outcome × DecisionTree)}
    (leads : (build facts used depth indices).LeadsTo way (.switch p cases)) :
    ∃ before below rest, Splits facts before rest p ∧
      cases = (groups facts p rest).map fun g => (g.1, build facts (before ++ [p]) below g.2) := by
  obtain ⟨-, depth', rest, -, built⟩ := leadsTo_build leads fresh enough
  rcases build_cases facts (used ++ way.map (·.1)) depth'
    rest with ⟨listed, -⟩ | ⟨below, q, -, splits, switched⟩
  · rw [listed] at built
    cases built
  · rw [switched] at built
    cases built
    exact ⟨_, below, rest, splits, rfl⟩

theorem settled_of_leadsTo {rest : List Nat}
    (leads : (build facts used depth indices).LeadsTo way (.sequential rest)) :
    ∀ p, ¬Splits facts (used ++ way.map (·.1)) rest p := by
  obtain ⟨-, depth', rest', short, built⟩ := leadsTo_build leads fresh enough
  rcases build_cases facts (used ++ way.map (·.1)) depth'
    rest' with ⟨listed, settled⟩ | ⟨below, q, -, -, switched⟩
  · rw [listed] at built
    cases built
    exact settled short
  · rw [switched] at built
    cases built

end

/-- Below the case of a group are the branches of the group, of which an outcome with its key is
recorded. -/
theorem leaves_of_group {g : Outcome × List Nat} (hg : g ∈ groups facts p indices)
    (depth : Nat) :
    (build facts used depth g.2).leaves.flatten ≠ [] ∧
      ∀ i ∈ (build facts used depth g.2).leaves.flatten,
      ∃ o, (factsAt facts i).get? p = some o ∧ o.key = g.1.key := by
  have listed := leaves_build facts used depth g.2
  constructor
  · intro empty
    rw [empty, List.nil_perm] at listed
    exact group_ne_nil hg listed
  · intro i hi
    rw [listed.mem_iff, group_eq hg, List.mem_filter, decide_eq_true_eq,
      Option.map_eq_some_iff] at hi
    exact hi.2

theorem records_iff {branches : List Node} {i : Nat} {key : String} : Records branches p i key ↔
    ∃ o, (factsAt (branches.map Facts.ofNode) i).get? p = some o ∧ o.key = key := by
  cases at_i : branches[i]? with
  | none => simp [Records, factsAt, at_i, Facts.get?]
  | some n => simp [Records, factsAt_map branches at_i, at_i]

theorem exists_outcomes_of_known
    (known : ∀ i ∈ indices, ∃ o, (factsAt facts i).get? p = some o) :
    ∃ outcomes, outcomes? facts p indices = some outcomes := by
  induction indices with
  | nil => exact ⟨[], rfl⟩
  | cons i indices ih =>
    rw [List.forall_mem_cons] at known
    obtain ⟨⟨o, found⟩, known⟩ := known
    obtain ⟨outcomes, others⟩ := ih known
    exact ⟨o :: outcomes, by rw [outcomes?, found, others]; rfl⟩

/-- A probe that is known for all branches and does not split them has one key. -/
theorem exists_key (unsplit : ¬Splits facts used indices p) (new : p ∉ used)
    (known : ∀ i ∈ indices, ∃ o, (factsAt facts i).get? p = some o) :
    ∃ key, ∀ i ∈ indices, ∃ o, (factsAt facts i).get? p = some o ∧ o.key = key := by
  obtain ⟨outcomes, listed⟩ := exists_outcomes_of_known known
  have few : (recordedKeys facts p indices).eraseDups.length < 2 := by
    by_contra! several
    rw [recordedKeys_of_known listed] at several
    exact unsplit ⟨new, outcomes, listed, several⟩
  obtain ⟨key, only⟩ : ∃ key, ∀ k ∈ recordedKeys facts p indices, k = key := by
    simp only [← List.mem_eraseDups (l := recordedKeys facts p indices)]
    cases keys : (recordedKeys facts p indices).eraseDups with
    | nil => exact ⟨"", nofun⟩
    | cons key rest =>
      rw [keys, List.length_cons] at few
      have none_left : rest = [] := List.eq_nil_of_length_eq_zero (by omega)
      exact ⟨key, by simp [none_left]⟩
  refine ⟨key, fun i hi => ?_⟩
  obtain ⟨o, found⟩ := known i hi
  exact ⟨o, found, only o.key (List.mem_filterMap.mpr ⟨i, hi, by rw [found]; rfl⟩)⟩

/-- Any list of branches is partitioned by the tree that is built of it, and a larger bound on the
depth would not change the tree. -/
theorem ofBranches_partitions (branches : List Node) :
    (ofBranches branches).Partitions branches ∧ ∀ more, ofBranches branches =
      build (branches.map Facts.ofNode) [] (branches.length + more)
        (List.range branches.length) := by
  have fresh : ([] : List Probe).Nodup := List.nodup_nil
  have enough : (List.range branches.length).length ≤ branches.length := List.length_range.le
  constructor
  · constructor
    case complete => exact leaves_build _ [] _ _
    case ordered =>
      intro indices hindices
      exact List.pairwise_lt_range.sublist (sublist_of_mem_leaves_build _ [] _ _ indices hindices)
    case fresh =>
      intro way part leads
      exact (leadsTo_build leads fresh enough).1
    case several =>
      intro way p cases leads
      obtain ⟨before, below, rest, splits, rfl⟩ := switch_of_leadsTo fresh enough leads
      rw [List.length_map]
      exact splits.several
    case distinct =>
      intro way p cases leads
      obtain ⟨before, below, rest, splits, rfl⟩ := switch_of_leadsTo fresh enough leads
      rw [List.map_map]
      exact nodup_keys_groups _ p rest
    case inhabited =>
      intro way p cases leads c hc
      obtain ⟨before, below, rest, splits, rfl⟩ := switch_of_leadsTo fresh enough leads
      obtain ⟨g, hg, rfl⟩ := List.mem_map.mp hc
      exact (leaves_of_group hg below).1
    case recorded =>
      intro way p cases leads c hc i hi
      obtain ⟨before, below, rest, splits, rfl⟩ := switch_of_leadsTo fresh enough leads
      obtain ⟨g, hg, rfl⟩ := List.mem_map.mp hc
      exact records_iff.mpr ((leaves_of_group hg below).2 i hi)
    case settled =>
      intro way indices leads p new known
      simp only [records_iff] at known ⊢
      refine exists_key (settled_of_leadsTo fresh enough leads p) new fun i hi => ?_
      obtain ⟨key, o, recorded, -⟩ := known i hi
      exact ⟨o, recorded⟩
  · intro more
    exact (build_of_le _ [] enough more).symm

open Node in
/-- The literals of one key lead to two of the branches, which the domain of another key tells
apart. -/
example : (ofBranches [
      of (.props ⟨[("kind", of (.literal (.string "a"))), ("size", of (.domain .number))], [],
        [], none⟩), of (.props ⟨[("kind", of (.literal (.string "b")))], [], [], none⟩),
      of (.props ⟨[("kind", of (.literal (.string "a"))), ("size", of (.domain .string))], [], [],
        none⟩)]).leaves =
    [[0], [2], [1]] := by
  decide

end DecisionTree

end SchemaAlgebra

import Mathlib.Data.Prod.Lex
import Mathlib.Data.String.Basic
import SchemaAlgebra.Proofs.Continuation
import SchemaAlgebra.Proofs.Erasure

/-!
# Normal nodes

A branch is dropped from a union if intersecting it with another branch gives the branch
again. As long as budgets last, neither the budget nor the representatives decide which
branches are dropped, and of those that are left none includes another. Conjuncts that stay
side by side are sorted.
-/
namespace SchemaAlgebra

variable {rep rep' : Node → Node}

variable [Library]

/-- With enough budget, the intersection of the first node with the second is not the first. -/
def Node.Exceeds (a b : Node) : Prop := ∃ enough, ∀ depth, enough ≤ depth →
  ∀ rep : Node → Node, (∀ n : Node, n.same (rep n) = true) →
    (Union.isSubtype (meetUpTo depth) a b).value rep = false

namespace Union

/-- Unless its budget runs out, the test of whether one node includes another finds out. -/
def Decides (rep : Node → Node) (meet : Meet) : Prop :=
  ∀ a b, Event.exhausted ∉ (isSubtype meet a b).trace rep →
    ((isSubtype meet a b).value rep = false ↔ a.Exceeds b)

theorem isSubtype_rep (faithful : ∀ n : Node, n.same (rep n) = true)
    (faithful' : ∀ n : Node, n.same (rep' n) = true) (depth : Nat) (a b : Node) :
    (isSubtype (meetUpTo depth) a b).value rep = (isSubtype (meetUpTo depth) a b).value rep' :=
  (isSubtype_erase (meetUpTo_erase faithful depth) a b).trans
    (isSubtype_erase (meetUpTo_erase faithful' depth) a b).symm

variable (faithful : ∀ n : Node, n.same (rep n) = true)
include faithful

theorem meetUpTo_decides (depth : Nat) : Decides rep (meetUpTo depth) := by
  intro a b lasts
  have deeper {deeper : Nat} (more : depth ≤ deeper) :
      (isSubtype (meetUpTo deeper) a b).value rep = (isSubtype (meetUpTo depth) a b).value rep :=
    (isSubtype_continues (meetUpTo_continues more) a b).value_eq lasts
  constructor
  · intro outside
    refine ⟨depth, fun depth' more rep' faithful' => ?_⟩
    rw [isSubtype_rep faithful' faithful, deeper more, outside]
  · rintro ⟨enough, outside⟩
    rw [← deeper (le_max_left depth enough)]
    exact outside _ (le_max_right depth enough) rep faithful

theorem meet_decides : Decides rep meet := by
  intro a b
  have limited : isSubtype meet a b = isSubtype (meetUpTo (Node.budget a b)) a b := by
    rw [isSubtype, isSubtype, meet]
  rw [limited]
  exact meetUpTo_decides faithful (Node.budget a b) a b

end Union

/-- Different branches neither of which includes the other, unless one of them is a morph. -/
def Node.Separate (a b : Node) : Prop :=
  a.same b = false ∧ (a.isMorph = false → b.isMorph = false → a.Exceeds b ∧ b.Exceeds a)

namespace Union

/-- The first of two numbered branches is not dropped for the second. Of two that include each
other the first is kept. -/
def Spares (branch other : Node × Nat) : Prop :=
  other.2 = branch.2 ∨ other.1.isMorph = true ∨ branch.1.Exceeds other.1 ∨
    (branch.2 ≤ other.2 ∧ ¬other.1.Exceeds branch.1)

/-- The nodes are the branches that are not dropped for any of the others. -/
def Spared (all branches : List (Node × Nat)) (kept : List Node) : Prop :=
  ∃ spared : List (Node × Nat), spared.Sublist branches ∧ kept = spared.map Prod.fst ∧
    ∀ b ∈ spared, b.1.isMorph = true ∨ ∀ o ∈ all, Spares b o

theorem Spared.mem {all branches : List (Node × Nat)} {kept : List Node}
    (h : Spared all branches kept) : ∀ n ∈ kept, ∃ b ∈ branches, b.1 = n := by
  obtain ⟨spared, fewer, rfl, -⟩ := h
  intro n hn
  obtain ⟨b, hb, same⟩ := List.mem_map.mp hn
  exact ⟨b, fewer.subset hb, same⟩

omit [Library] in
theorem flatten_pairwise (nodes : List Node) :
    (flatten nodes).Pairwise (Node.same · · = false) := by
  have step (branches flat : List Node) (apart : flat.Pairwise (Node.same · · = false)) :
      (branches.foldl (fun flat n => if flat.any (·.same n) then flat else flat ++ [n])
        flat).Pairwise (Node.same · · = false) := by
    induction branches generalizing flat with
    | nil => exact apart
    | cons n r ih =>
      rw [List.foldl_cons]
      split_ifs with known
      · exact ih flat apart
      · refine ih _ (List.pairwise_append.mpr
          ⟨apart, List.pairwise_singleton _ _, fun a ha b hb => ?_⟩)
        rw [List.mem_singleton.mp hb]
        simp only [List.any_eq_true, not_exists, not_and, Bool.not_eq_true] at known
        exact known a ha
  exact step _ [] List.Pairwise.nil

theorem Spared.pairwise {branches kept : List Node}
    (h : Spared branches.zipIdx branches.zipIdx kept)
    (apart : branches.Pairwise (Node.same · · = false)) : kept.Pairwise Node.Separate := by
  obtain ⟨spared, fewer, rfl, spares⟩ := h
  have numbered : branches.zipIdx.Pairwise fun p q => p.2 < q.2 := by
    rw [← List.pairwise_map (f := Prod.snd) (R := (· < ·)), List.zipIdx_map_snd]
    exact List.pairwise_lt_range'
  have different : branches.zipIdx.Pairwise fun p q => p.1.same q.1 = false := by
    rw [← List.pairwise_map (f := Prod.fst) (R := (Node.same · · = false)), List.zipIdx_map_fst]
    exact apart
  refine List.pairwise_map.mpr
    (((numbered.and different).sublist fewer).imp_of_mem fun {p q} hp hq h => ?_)
  refine ⟨h.2, fun plain plain' => ?_⟩
  have kept {b o : Node × Nat} (hb : b ∈ spared) (ho : o ∈ spared) (other : o.2 ≠ b.2)
      (plain : b.1.isMorph = false) (plain' : o.1.isMorph = false) :
      b.1.Exceeds o.1 ∨ (b.2 ≤ o.2 ∧ ¬o.1.Exceeds b.1) := by
    have none := (spares b hb).resolve_left (by rw [plain]; exact Bool.false_ne_true)
    rcases none o (fewer.subset ho) with same | morph | outside
    · exact absurd same other
    · rw [plain'] at morph
      cases morph
    · exact outside
  have later : q.1.Exceeds p.1 :=
    (kept hq hp h.1.ne plain' plain).resolve_right fun earlier => absurd earlier.1 h.1.not_ge
  exact ⟨(kept hp hq h.1.ne' plain plain').resolve_right fun includes =>
    includes.2 later, later⟩

end Union

omit [Library] in
/-- Conjuncts are ordered by their ranks, and in one rank by their keys. -/
theorem Node.precedes_eq (a b : Node) :
    a.precedes b = decide (toLex (a.constraint.rank, a.key) <
      toLex (b.constraint.rank, b.key)) := by
  rw [Bool.eq_iff_iff, decide_eq_true_eq, Prod.Lex.toLex_lt_toLex, Node.precedes]
  simp

omit [Library] in
theorem Conjunction.intersection_apart {conjuncts : List Node}
    (apart : conjuncts.Pairwise Node.Apart) (several : conjuncts.length ≠ 1) :
    Traced.intersection conjuncts =
      Traced.build (.of (.intersection (Sorting.sort Node.precedes conjuncts))) := by
  have sorted : (Sorting.sort Node.precedes conjuncts).Pairwise (Node.same · · = false) :=
    ((Sorting.sort_perm conjuncts).symm.pairwise apart fun h => h.symm).imp And.left
  rw [Traced.intersection.eq_2 conjuncts fun n h => several (by rw [h]; rfl),
    Sorting.dropRepeats_eq_self sorted]

omit [Library] in
theorem Conjunction.sort_precedes (conjuncts : List Node) :
    (Sorting.sort Node.precedes conjuncts).Pairwise fun a b => b.precedes a = false := by
  refine (Sorting.sort_pairwise Node.precedes_eq conjuncts).imp fun {a b} le => ?_
  rw [Node.precedes_eq, decide_eq_false_iff_not]
  exact not_lt.mpr le

/-- A union has several branches, none of which another one includes, and an intersection has
several conjuncts in order. -/
def Constraint.IsNormal : Constraint Node → Prop
  | union branches => branches.length ≠ 1 ∧ branches.Pairwise Node.Separate
  | intersection children =>
    children.length ≠ 1 ∧ children.Pairwise fun a b => b.precedes a = false
  | _ => True

theorem Constraint.isNormal_of_leaf {c : Constraint Node} (leaf : c.children = []) :
    c.IsNormal := by
  cases c with
  | union branches =>
    rw [show branches = [] from leaf]
    exact ⟨by decide, List.Pairwise.nil⟩
  | intersection children =>
    rw [show children = [] from leaf]
    exact ⟨by decide, List.Pairwise.nil⟩
  | _ => trivial

end SchemaAlgebra

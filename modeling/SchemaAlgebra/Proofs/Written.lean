import SchemaAlgebra.Grammar.Scanner
import SchemaAlgebra.Grammar.Word
import SchemaAlgebra.Proofs.Budget
import SchemaAlgebra.Proofs.Joining

/-!
# Nodes that grammar texts write

Without aliases, what a grammar text stands for is of a certain form: arrays are the only
property sets, refinements stand beside a kind of values that they refine, and no branch of
a union includes another. Intersecting nodes of this form gives such nodes again.
-/
namespace SchemaAlgebra
namespace Constraint

variable {α : Type u}

/-- A kind of values other than that of all objects, which no grammar text refines. -/
def isKind : Constraint α → Bool
  | domain d => d != .object
  | literal _ => true
  | basis _ => true
  | _ => false

def isRefinement : Constraint α → Bool
  | bound _ => true
  | divisor _ => true
  | patterns _ => true
  | props _ => true
  | _ => false

end Constraint

/-- A kind of values is among the conjuncts. -/
def Conjunction.HasKind (conjuncts : List Node) : Prop :=
  ∃ c ∈ conjuncts, c.constraint.isKind = true

/-- What is refined, if anything is, is a kind of values. -/
def Conjunction.Grounded (conjuncts : List Node) : Prop :=
  HasKind conjuncts ∨ ∀ c ∈ conjuncts, c.constraint.isRefinement = false

namespace Node

def HasKind (n : Node) : Prop := ∀ b ∈ n.branches, Conjunction.HasKind b.input.conjuncts

def Grounded (n : Node) : Prop := ∀ b ∈ n.branches, Conjunction.Grounded b.input.conjuncts

def isPlain (n : Node) : Bool := !n.constraint.isUnion && !n.isMorph

theorem isPlain_iff {n : Node} : n.isPlain = true ↔
    n.constraint.isUnion = false ∧ n.isMorph = false := by
  simp [isPlain]

theorem branches_of_single {n : Node} (single : n.constraint.isUnion = false) :
    n.branches = [n] := by
  obtain ⟨c⟩ := n
  cases c <;> first | rfl | cases single

theorem input_of_plain {n : Node} (plain : n.isMorph = false) : n.input = n := by
  obtain ⟨c⟩ := n
  cases c <;> first | rfl | cases plain

theorem isPlain_of_single {n : Node} (single : n.constraint.isComposite = false) :
    n.isPlain = true := by
  obtain ⟨c⟩ := n
  cases c <;> first | rfl | cases single

theorem hasKind_of_plain {n : Node} (plain : n.isPlain = true) :
    n.HasKind ↔ Conjunction.HasKind n.conjuncts := by
  obtain ⟨single, plain⟩ := isPlain_iff.mp plain
  rw [HasKind, branches_of_single single, List.forall_mem_singleton, input_of_plain plain]

theorem grounded_of_plain {n : Node} (plain : n.isPlain = true) :
    n.Grounded ↔ Conjunction.Grounded n.conjuncts := by
  obtain ⟨single, plain⟩ := isPlain_iff.mp plain
  rw [Grounded, branches_of_single single, List.forall_mem_singleton, input_of_plain plain]

theorem HasKind.grounded {n : Node} (h : n.HasKind) : n.Grounded := fun b hb => .inl (h b hb)

theorem hasKind_branch {n b : Node} (h : n.HasKind) (hb : b ∈ n.branches)
    (single : b.constraint.isUnion = false) : b.HasKind := by
  rw [HasKind, branches_of_single single, List.forall_mem_singleton]
  exact h b hb

theorem grounded_branch {n b : Node} (h : n.Grounded) (hb : b ∈ n.branches)
    (single : b.constraint.isUnion = false) : b.Grounded := by
  rw [Grounded, branches_of_single single, List.forall_mem_singleton]
  exact h b hb

end Node

/-- A bigint is a word, and everything else can be written anyway. -/
def Literal.IsWritten : Literal → Prop
  | bigint digits => (∀ c ∈ digits.toList, Scan.isWordChar c = true) ∧
      Word.literal? (digits ++ "n") = some (bigint digits)
  | _ => True

/-- The limits are canonical, and some size lies between them. -/
def Range.IsWritten (r : Range) : Prop :=
  r.canonical = r ∧ (r.lower.isSome ∨ r.upper.isSome) ∧ r.isEmpty = false

variable [Library]

/-- The source is a regular expression, and between slashes it is read up to its end. -/
def Pattern.IsWritten (p : Pattern) : Prop :=
  Library.isRegex p.source = true ∧ ∀ rest,
    Scan.enclosed '/' [] (p.source.toList ++ '/' :: rest) = Scan.ok (.enclosed '/' p.source) rest

/-- No branch includes another, unless one of them is a morph. -/
def Union.Irredundant (branches : List Node) : Prop :=
  branches.Pairwise fun a b => a.same b = false ∧ (a.isMorph = false → b.isMorph = false →
    (isSubtype meetFreely a b).value id = false ∧ (isSubtype meetFreely b a).value id = false)

/-- What a written node says of its outermost constraint. -/
def Constraint.IsWritten : Constraint Node → Prop
  | domain d => d ≠ .null
  | literal l => l.IsWritten
  | basis _ => True
  | bound r => r.IsWritten
  | divisor _ => True
  | patterns ps => ps ≠ [] ∧ ps.Pairwise (·.source < ·.source) ∧ ∀ p ∈ ps, p.IsWritten
  | props p =>
    ∃ element : Node, p = .ofSequence ⟨[], some element⟩ ∧ element.Grounded ∧
      element.isUnknown = false
  | brand name => name ≠ "" ∧ ∀ c ∈ name.toList, Scan.isWordChar c = true
  | deferred _ _ => False
  | morph input steps => input.isPlain = true ∧ steps.map (·.nominal) = steps
  | union branches =>
    branches.length ≠ 1 ∧ Union.Irredundant branches ∧ ∀ b ∈ branches, b.isUnknown = false
  | intersection children =>
    children.length ≠ 1 ∧ children.Pairwise fun a b => b.precedes a = false

namespace Node

inductive Written : Node → Prop
  | of (c : Constraint Node) (settled : c.Settled) (form : c.IsWritten)
    (children : ∀ m ∈ c.children, Written m) : Written (.of c)

namespace Written

theorem reduced {n : Node} (h : n.Written) : n.Reduced := by
  induction h with
  | of c settled _ _ ih => exact .of c settled ih

theorem form {n : Node} (h : n.Written) : n.constraint.IsWritten := by
  cases h with
  | of c _ form => exact form

theorem children {c : Constraint Node} (h : Written (.of c)) : ∀ m ∈ c.children, m.Written := by
  cases h with
  | of c _ _ children => exact children

theorem leaf {c : Constraint Node} (settled : c.Settled) (form : c.IsWritten)
    (leaf : c.children = []) : Written (.of c) :=
  .of c settled form fun _ hm => absurd (leaf ▸ hm) List.not_mem_nil

theorem conjuncts {n : Node} (h : n.Written) : ∀ m ∈ n.conjuncts, m.Written := by
  obtain ⟨c⟩ := n
  cases c with
  | intersection children => exact h.children
  | _ => exact List.forall_mem_singleton.mpr h

theorem branches {n : Node} (h : n.Written) : ∀ m ∈ n.branches, m.Written := by
  obtain ⟨c⟩ := n
  cases c with
  | union branches => exact h.children
  | _ => exact List.forall_mem_singleton.mpr h

theorem erase {n : Node} (h : n.Written) : n.erase = n := by
  induction h with
  | of c settled form children ih =>
    have same : c.map Node.erase = c := (Constraint.map_congr ih).trans c.map_id
    rw [erase_of]
    refine congrArg Node.of ?_
    rw [← Constraint.erased_map, same]
    cases c with
    | bound r => exact congrArg Constraint.bound form.1
    | deferred name home => exact form.elim
    | morph input steps => exact congrArg (Constraint.morph input) form.2
    | _ => rfl

theorem same_iff {a b : Node} (ha : a.Written) (hb : b.Written) : a.same b = true ↔ a = b := by
  rw [Node.same_iff, ha.erase, hb.erase]

theorem hasAlias {n : Node} (h : n.Written) : n.hasAlias = false := by
  induction h with
  | of c settled form children ih =>
    rw [Node.hasAlias, fold_of]
    cases c with
    | deferred name home => exact form.elim
    | _ =>
      refine List.any_eq_false.mpr fun b hb => ?_
      rw [Constraint.children_map] at hb
      obtain ⟨m, hm, rfl⟩ := List.mem_map.mp hb
      exact Bool.eq_false_iff.mp (ih m hm)

end Written

theorem written_never : Written .never :=
  .leaf (fun _ h => absurd h List.not_mem_nil)
    ⟨by decide, List.Pairwise.nil, fun _ h => absurd h List.not_mem_nil⟩ rfl

theorem written_unknown : Written .unknown :=
  .leaf ⟨fun _ h => absurd h List.not_mem_nil, List.Pairwise.nil⟩
    ⟨by decide, List.Pairwise.nil⟩ rfl

end Node

end SchemaAlgebra

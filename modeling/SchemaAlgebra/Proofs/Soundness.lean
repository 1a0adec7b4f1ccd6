import SchemaAlgebra.Proofs.Deferrals
import SchemaAlgebra.Proofs.Distribution

/-!
# Intersecting goes down

Intersecting clear nodes step by step comes to a clear node below both. The induction is on the
budget: one step goes down if smaller nodes are intersected so.
-/
namespace SchemaAlgebra

variable {N : Nat} {σ : String → Json → Bool} {l r n : Node}

variable [Library]

section

variable {meet : Meet} (narrows : meet.Narrows N σ) (hl : l.Clear N) (hr : r.Clear N)
include narrows hl hr

theorem conjoin_meets (positive : 0 < N) (small : N ≤ 2 ^ 53)
    (single : l.constraint.isUnion = false) (single' : r.constraint.isUnion = false)
    (plain : l.isMorph = false) (plain' : r.isMorph = false) :
    Attempt.Ensures .lasting (conjoin meet l r) (Node.Meets N σ l r) fun d =>
      d.isEmpty = false := by
  have merges : Conjunction.PairsMeet N σ (Pairing.of meet (Properties.meetProps meet)) :=
    fun a b ha hb => Pairing.of_meets positive small (Properties.meetProps_meets narrows) ha hb
  have left : Conjunction.Plain N l.conjuncts :=
    fun m hm => ⟨hl.conjuncts m hm, hl.isComposite_of_conjunct single plain m hm⟩
  have right : Conjunction.Plain N r.conjuncts :=
    fun m hm => ⟨hr.conjuncts m hm, hr.isComposite_of_conjunct single' plain' m hm⟩
  refine (Conjunction.addAll_joins merges right left (hl.agree_conjuncts single plain)).bind
    fun children ⟨joined, agree⟩ => .lift ?_
  refine (Conjunction.intersection_joins (σ := σ) joined.plain agree).mono
    fun n ⟨clear, alone, kept, below⟩ => ?_
  have both (d : Json) (ordered : d.Ordered) (admitted : n.admitsWith (fun _ => σ) d = true) :=
    List.forall_mem_append.mp (joined.below d ordered (below d admitted))
  have fixed {m : Node} (conjuncts : m.conjuncts ⊆ r.conjuncts ++ l.conjuncts) :
      m.marks ⊆ n.marks := by
    intro o ho
    obtain ⟨c, hc, ho⟩ := Node.mem_marks_conjuncts.mp ho
    obtain ⟨k, hk, ho⟩ := joined.marks o ⟨c, conjuncts hc, ho⟩
    exact kept k hk ho
  exact .of_single clear
    (fun d ordered admitted => Node.allAdmit_conjuncts.mp (both d ordered admitted).2)
    (fun d ordered admitted => Node.allAdmit_conjuncts.mp (both d ordered admitted).1) alone
    ⟨fixed (List.subset_append_right _ _), fixed (List.subset_append_left _ _)⟩

end

/-- What a node takes in: itself, or what its steps are applied to. -/
structure Node.Takes (σ : String → Json → Bool) (n input : Node) : Prop where
  discriminated : input.Discriminated
  below : input.Below σ n
  marks : n.marks = input.marks

theorem Node.Takes.itself (single : n.constraint.isUnion = false) : n.Takes σ n :=
  ⟨.of_single single, .refl n, rfl⟩

theorem Node.Takes.of_morph {input : Node} {steps : List Step} (hn : n.Clear N)
    (h : n.constraint = .morph input steps) : input.Clear N ∧ n.Takes σ input := by
  obtain ⟨c⟩ := n
  obtain rfl : c = .morph input steps := h
  exact ⟨hn.children input List.mem_cons_self, hn.isClear,
    fun _ _ admitted => Node.admitsWith_morph.trans admitted, Node.marks_morph⟩

/-- A morph of what goes below an input goes below what takes the input. -/
theorem Traced.morph_meets {a b : Node} (h : Node.Meets N σ a b n) (steps : List Step)
    (left : l.Takes σ a) (right : r.Takes σ b) :
    (Traced.morph n steps).Ensures .lasting (Node.Meets N σ l r) := by
  have discriminated := h.discriminated left.discriminated right.discriminated
  rw [Traced.morph, discriminated.1, if_neg Bool.false_ne_true]
  have below : Node.Below σ (.of (.morph n steps)) n :=
    fun d _ admitted => Node.admitsWith_morph ▸ admitted
  have clear : Node.Clear N (.of (.morph n steps)) :=
    .of _ trivial discriminated (List.forall_mem_singleton.mpr h.clear)
  refine Traced.build_lasting (.of_single clear (below.trans (h.left.trans left.below))
    (below.trans (h.right.trans right.below)) rfl ?_)
  rw [Node.marks_morph, left.marks, right.marks]
  exact h.marks discriminated.1

section

variable (positive : 0 < N) (small : N ≤ 2 ^ 53)
include positive small

theorem meetStep_narrows {meet : Meet} (narrows : meet.Narrows N σ) :
    Meet.Narrows N σ (meetStep meet) := by
  intro l r hl hr
  by_cases same : l.same r = true
  · rw [meetStep_same same]
    exact .pure (.of_below hl (Node.below_of_same same)
      (Node.marks_congr same ▸ List.Subset.refl _))
  rw [Bool.not_eq_true] at same
  by_cases never : (l.isNever || r.isNever) = true
  · rw [meetStep_never same never]
    refine .lift (Traced.never_lasting ⟨Node.never_clear, Node.never_below l, Node.never_below r,
      fun single single' => ?_, nofun, fun left right => ?_⟩)
    · rw [Node.isNever_of_single single, Node.isNever_of_single single'] at never
      cases never
    · rw [left.1, right.1] at never
      cases never
  rw [Bool.not_eq_true] at never
  obtain ⟨some_left, some_right⟩ := Bool.or_eq_false_iff.mp never
  by_cases union : l.constraint.isUnion = true ∨ r.constraint.isUnion = true
  · rw [meetStep_union same never union]
    exact distribute_meets narrows hl hr some_left some_right union
  rw [not_or, Bool.not_eq_true, Bool.not_eq_true] at union
  obtain ⟨single, single'⟩ := union
  by_cases left : l.isMorph = true
  · obtain ⟨a, steps, ha⟩ := Node.exists_morph left
    obtain ⟨clear, takes⟩ := Node.Takes.of_morph (σ := σ) hl ha
    by_cases right : r.isMorph = true
    · obtain ⟨b, others, hb⟩ := Node.exists_morph right
      obtain ⟨clear', takes'⟩ := Node.Takes.of_morph (σ := σ) hr hb
      rw [meetStep_morphs same never ha hb]
      refine Attempt.Ensures.ite (fun _ => .throw (Disjoint.isEmpty_single _ _ _ _)) fun _ => ?_
      refine (narrows a b clear clear').bind fun n hn => .lift ?_
      exact Traced.morph_meets hn steps takes takes'
    · rw [meetStep_morph_left same never ha single' (Bool.eq_false_iff.mpr right)]
      refine (narrows a r clear hr).bind fun n hn => .lift ?_
      exact Traced.morph_meets hn steps takes (.itself single')
  · by_cases right : r.isMorph = true
    · obtain ⟨b, steps, hb⟩ := Node.exists_morph right
      obtain ⟨clear, takes⟩ := Node.Takes.of_morph (σ := σ) hr hb
      rw [meetStep_morph_right same never hb single (Bool.eq_false_iff.mpr left)]
      refine (narrows l b hl clear).bind fun n hn => .lift ?_
      exact Traced.morph_meets hn steps (.itself single) takes
    · rw [meetStep_plain same never single single' (Bool.eq_false_iff.mpr left)
        (Bool.eq_false_iff.mpr right)]
      exact conjoin_meets narrows hl hr positive small single single' (Bool.eq_false_iff.mpr left)
        (Bool.eq_false_iff.mpr right)

theorem meetUpTo_narrows (depth : Nat) : Meet.Narrows N σ (meetUpTo depth) := by
  induction depth with
  | zero => exact fun l r _ _ lasts => absurd rfl (lasts .exhausted List.mem_cons_self)
  | succ depth ih => exact meetStep_narrows positive small ih

theorem meet_narrows : Meet.Narrows N σ meet :=
  fun l r => meetUpTo_narrows positive small (Node.budget l r) l r

/-- Reduced clear nodes are intersected to a clear node below both. -/
theorem Node.meets_of_meet (reduced : l.Reduced) (reduced' : r.Reduced) (hl : l.Clear N)
    (hr : r.Clear N) (met : (meet l r).outcome id = .ok n) : Node.Meets N σ l r n := by
  have lasts := meet_lasts reduced reduced'
  have sound := (meet_narrows (σ := σ) positive small l r hl hr fun e he same =>
      lasts (same ▸ he)).1
  rwa [show (meet l r).run.value Judging.lasting.rep = .ok n from met] at sound

end

namespace Node

omit [Library] in
/-- What is left of a clear node when names and the forms of limits are erased is clear. -/
theorem Clear.erase (h : n.Clear N) : n.erase.Clear N := by
  induction h with
  | of c flat clear children ih =>
    have union (m : Node) : m.erase.constraint.isUnion = m.constraint.isUnion := by
      rw [← Constraint.isUnion_head, constraint_head_erase, Constraint.isUnion_head]
    rw [erase_of]
    refine .of _ ?_ ?_ ?_
    · cases c with
      | bound r => exact Range.IsFinite.canonical flat
      | union branches => exact List.forall_mem_map.mpr fun b hb => (union b).trans (flat b hb)
      | intersection children =>
        refine ⟨List.forall_mem_map.mpr fun m hm => ?_, ?_⟩
        · rw [← Constraint.isComposite_head, constraint_head_erase, Constraint.isComposite_head]
          exact flat.1 m hm
        · refine List.forall_mem_map.mpr fun a ha => List.forall_mem_map.mpr fun b hb => ?_
          exact mt (differs_congr a.erase_same b.erase_same).mp (flat.2 a ha b hb)
      | _ => trivial
    · cases c with
      | divisor k => exact clear
      | props p =>
        refine ⟨(Props.namedKeys_map Node.erase p).symm ▸ clear.1,
          List.forall_mem_map.mpr fun s hs => ?_⟩
        exact (hasAlias_congr s.key.erase_same).trans (clear.2 s hs)
      | morph input steps => exact (discriminated_erase input).mpr clear
      | _ => trivial
    · rw [Constraint.children_map, Constraint.children_erased]
      exact List.forall_mem_map.mpr ih

theorem admitsWith_of_isWithin {home : Home} {R : String → Prop} (within : n.IsWithin home R)
    (ρ : Meaning) : n.admitsWith ρ = n.admitsWith fun _ => ρ home := by
  induction n using inductionOn with
  | step c ih =>
    have same : c.map (admitsWith ρ) = c.map (admitsWith fun _ => ρ home) :=
      Constraint.map_congr fun m hm => ih m hm ((isWithin_hereditary home R).children c within m hm)
    funext d
    rw [admitsWith_of, admitsWith_of, same]
    cases c with
    | deferred name h =>
      obtain ⟨rfl, -⟩ := isWithin_deferred.mp within
      rfl
    | _ => rfl

end Node

/-- What is made of two nodes, whichever nodes stand for them, is below both. -/
theorem Node.below_of_intersect (positive : 0 < N) (small : N ≤ 2 ^ 53) (reduced : l.Reduced)
    (reduced' : r.Reduced) (hl : l.erase.Clear N) (hr : r.erase.Clear N) {s : Scope}
    (met : (s.intersect l r).1 = .ok n) : n.Below σ l ∧ n.Below σ r := by
  have erased : (meet l.erase r.erase).outcome id = .ok n.erase := by
    rw [← s.intersect_erase, met]
    rfl
  have sound : Node.Meets N σ l.erase r.erase n.erase :=
    Node.meets_of_meet positive small reduced.erase reduced'.erase hl hr erased
  have back {m : Node} (below : n.erase.Below σ m.erase) : n.Below σ m :=
    (Node.below_of_same (Node.same_symm n.erase_same)).trans
      (below.trans (Node.below_of_same m.erase_same))
  exact ⟨back sound.left, back sound.right⟩

def Bindings.unbound : Bindings := ⟨fun _ _ => none, fun _ _ => .ok⟩

namespace Session

/-- What the intersection of two nodes of a session allows is accepted by both of them. -/
theorem accepted_of_intersect (home : Nat) (d : Declarations) (requests : List Request)
    (hl : l ∈ (run home d requests).nodes) (hr : r ∈ (run home d requests).nodes)
    (positive : 0 < N) (small : N ≤ 2 ^ 53)
    (clear : ∀ m ∈ l.parts ++ r.parts, m.constraint.IsClear N)
    (met : ((run home d requests).scope.intersect l r).1 = .ok n) (b : Bindings) (cap : Option Nat)
    {x : Json} (ordered : x.Ordered) (allowed : n.Allows b cap x) :
    l.Accepts b cap x ∧ r.Accepts b cap x := by
  have sound : Sound home d (.looked home) _ := run_sound (Standard.looked_parsable home) d requests
  have can : Parsable (run home d requests).scope.home (.looked home) :=
    sound.same_home.symm ▸ Standard.looked_parsable home
  obtain ⟨reduced, within⟩ := sound.nodes l hl
  obtain ⟨reduced', within'⟩ := sound.nodes r hr
  obtain ⟨-, within''⟩ :=
    (Scope.intersect_sound can sound.scope (sound.nodes l hl) (sound.nodes r hr)).value n met
  obtain ⟨left, right⟩ := List.forall_mem_append.mp clear
  have below := Node.below_of_intersect (σ := b.meaning cap (some home)) positive small
      reduced reduced'
    (Node.Clear.of_reduced reduced left).erase (Node.Clear.of_reduced reduced' right).erase met
  have admitted := Node.admitsWith_of_isWithin within'' _ ▸ allowed.admits
  constructor
  · apply Node.accepts_of_admits
    rw [Node.admitsWith_of_isWithin within]
    exact below.1 x ordered admitted
  · apply Node.accepts_of_admits
    rw [Node.admitsWith_of_isWithin within']
    exact below.2 x ordered admitted

end Session

end SchemaAlgebra

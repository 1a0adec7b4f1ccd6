import SchemaAlgebra.Proofs.Narrowing

/-!
# Merged constraints

Two clear single constraints merge into one that is below both, stay side by side, or clash for a
reason. So conjuncts are joined to a node that admits only what all of them admit.
-/
namespace SchemaAlgebra

variable [Library]

/-- A merged constraint is a single one below both, there is a reason for every clash, and what is
kept side by side agrees. -/
def Pairing.Meets (N : Nat) (σ : String → Json → Bool) (l r : Node) : Pairing → Prop
  | merged n => Node.Meets N σ l r n ∧ n.constraint.isComposite = false
  | clash d => d.isEmpty = false
  | irreducible => ¬l.Differs r

section

variable {N : Nat} {σ : String → Json → Bool}

/-- Intersecting clear properties comes to clear properties below both, or there is a reason why
not. -/
def Properties.Meets (N : Nat) (σ : String → Json → Bool)
    (meetProps : Props Node → Props Node → Attempt (Props Node)) : Prop :=
  ∀ p q, Node.Clear N (.of (.props p)) → Node.Clear N (.of (.props q)) →
    Attempt.Ensures .lasting (meetProps p q)
      (fun both => Node.Meets N σ (.of (.props p)) (.of (.props q)) (.of (.props both))) fun d =>
        d.isEmpty = false

namespace Pairing

variable {l r : Node}

theorem Meets.symm {p : Pairing} (h : p.Meets N σ l r) : p.Meets N σ r l := by
  cases p with
  | merged n => exact ⟨h.1.symm, h.2⟩
  | clash d => exact h
  | irreducible => exact fun differs => h differs.symm

theorem narrow_meets {fits : Bool} {n : Node} (h : fits = true → Node.Meets N σ l r n)
    (single : n.constraint.isComposite = false) (c : Clash) (a b : Node) :
    (narrow fits c n a b).Meets N σ l r := by
  cases fits with
  | true => exact ⟨h rfl, single⟩
  | false => exact rfl

theorem literal_below_domain (x : Literal) :
    Node.Below σ (.of (.literal x)) (.of (.domain x.domain)) := by
  intro d _ admitted
  rw [Node.admitsWith_of] at admitted ⊢
  exact beq_iff_eq.mpr (Literal.domain_of_isMatch admitted)

theorem basis_below_domain (b : Basis) :
    Node.Below σ (.of (.basis b)) (.of (.domain b.domain)) := by
  intro d _ admitted
  rw [Node.admitsWith_of] at admitted ⊢
  exact beq_iff_eq.mpr (Basis.domain_of_allows admitted)

theorem literal_below_basis {x : Literal} {b : Basis} (allows : b.allowsLiteral x = true) :
    Node.Below σ (.of (.literal x)) (.of (.basis b)) := by
  intro d _ admitted
  rw [Node.admitsWith_of] at admitted ⊢
  exact Basis.allows_of_isMatch allows admitted

omit [Library] in
theorem marks_domain_of_literal (x : Literal) :
    (Node.of (.domain x.domain)).marks ⊆ (Node.of (.literal x)).marks := by
  rw [Node.marks_of, Node.marks_of]
  exact List.cons_subset_cons _ (List.nil_subset _)

omit [Library] in
theorem marks_domain_of_basis (b : Basis) :
    (Node.of (.domain b.domain)).marks ⊆ (Node.of (.basis b)).marks := by
  rw [Node.marks_of, Node.marks_of]
  exact List.Subset.refl _

omit [Library] in
theorem marks_basis_of_literal {x : Literal} {b : Basis} (same : x.domain = b.domain) :
    (Node.of (.basis b)).marks ⊆ (Node.of (.literal x)).marks := by
  have fixed : (Node.of (.domain b.domain)).marks ⊆ (Node.of (.literal x)).marks :=
    same ▸ marks_domain_of_literal x
  rw [Node.marks_of] at fixed ⊢
  exact fixed

theorem literalBasis_meets {x : Literal} {b : Basis} (clear : Node.Clear N (.of (.literal x)))
    (a c : Node) :
    (literalBasis x b (.of (.literal x)) a c).Meets N σ (.of (.literal x)) (.of (.basis b)) := by
  unfold literalBasis
  split_ifs with same
  · exact narrow_meets (fun fits => .of_below clear (literal_below_basis fits)
      (marks_basis_of_literal same)) rfl _ _ _
  · exact rfl

theorem fixed_meets (hl : l.Clear N) (hr : r.Clear N) : (fixed l r).Meets N σ l r := by
  obtain ⟨a⟩ := l
  obtain ⟨b⟩ := r
  unfold fixed
  split
  · rename_i x y ha hb
    cases ha
    cases hb
    refine narrow_meets (fun fits => ?_) rfl _ _ _
    obtain rfl := of_decide_eq_true fits
    exact .of_below hl (.refl _) (List.Subset.refl _)
  · rename_i x d ha hb
    cases ha
    cases hb
    refine narrow_meets (fun fits => ?_) rfl _ _ _
    obtain rfl := of_decide_eq_true fits
    exact .of_below hl (literal_below_domain x) (marks_domain_of_literal x)
  · rename_i d x ha hb
    cases ha
    cases hb
    refine narrow_meets (fun fits => ?_) rfl _ _ _
    obtain rfl := of_decide_eq_true fits
    exact (Node.Meets.of_below hr (literal_below_domain x) (marks_domain_of_literal x)).symm
  · rename_i x c ha hb
    cases ha
    cases hb
    exact literalBasis_meets hl _ _
  · rename_i c x ha hb
    cases ha
    cases hb
    exact (literalBasis_meets hr _ _).symm
  · rename_i d c ha hb
    cases ha
    cases hb
    refine narrow_meets (fun fits => ?_) rfl _ _ _
    obtain rfl := of_decide_eq_true fits
    exact (Node.Meets.of_below hr (basis_below_domain c) (marks_domain_of_basis c)).symm
  · rename_i c d ha hb
    cases ha
    cases hb
    refine narrow_meets (fun fits => ?_) rfl _ _ _
    obtain rfl := of_decide_eq_true fits
    exact .of_below hl (basis_below_domain c) (marks_domain_of_basis c)
  · exact rfl
  · exact rfl

theorem refine_meets {kind refinement : Node} (hk : kind.Clear N) (free : refinement.marks = [])
    (a b : Node) : (refine kind refinement a b).Meets N σ kind refinement := by
  obtain ⟨c⟩ := kind
  obtain ⟨e⟩ := refinement
  unfold refine
  split
  · rename_i x hx
    obtain rfl : c = .literal x := hx
    split_ifs
    · refine narrow_meets (fun fits => .of_below hk (fun d _ admitted => ?_)
        (free ▸ List.nil_subset _)) rfl _ _ _
      rw [Node.admitsWith_of] at admitted
      exact Node.admits_of_refinementAdmits fits admitted
    · exact rfl
  · split
    · split_ifs
      · exact Node.not_differs_of_marks_right free
      · exact rfl
    · exact rfl

theorem leaf_meets {c : Constraint Node} (clear : Node.Clear N (.of c))
    (left : Node.Below σ (.of c) l) (right : Node.Below σ (.of c) r)
    (single : c.isComposite = false) (free : l.marks = [] ∧ r.marks = []) :
    (merged <$> Traced.build (.of c)).Ensures .lasting (Meets N σ l r) := by
  have marks : l.marks ⊆ (Node.of c).marks ∧ r.marks ⊆ (Node.of c).marks := by
    rw [free.1, free.2]
    exact ⟨List.nil_subset _, List.nil_subset _⟩
  exact .map (Traced.build_lasting
    ⟨.of_single clear left right (Node.isUnion_of_isComposite single) marks, single⟩)

theorem bound_below {r both : Range}
    (within : ∀ {x}, both.allows x = true → r.allows x = true) :
    Node.Below σ (.of (.bound both.canonical)) (.of (.bound r)) := by
  intro d _ admitted
  rw [Node.admitsWith_of] at admitted ⊢
  change (d.size?.map both.canonical.allows).getD false = true at admitted
  change (d.size?.map r.allows).getD false = true
  cases hd : d.size? with
  | none =>
    rw [hd] at admitted
    cases admitted
  | some x =>
    rw [hd] at admitted
    exact within ((Range.allows_canonical both x).symm.trans admitted)

theorem divisor_below {m n : Nat} (positive : 0 < n) (small : n ≤ 2 ^ 53) (divides : m ∣ n) :
    Node.Below σ (.of (.divisor n)) (.of (.divisor m)) := by
  intro d _ admitted
  rw [Node.admitsWith_of] at admitted ⊢
  change d.isMultipleOf n = true at admitted
  change d.isMultipleOf m = true
  cases d with
  | number x => exact Binary64.isMultipleOf_of_dvd positive small divides admitted
  | _ => cases admitted

theorem patterns_below {ps qs : List Pattern} (fewer : ∀ p ∈ ps, p ∈ qs) :
    Node.Below σ (.of (.patterns qs)) (.of (.patterns ps)) := by
  intro d _ admitted
  rw [Node.admitsWith_of] at admitted ⊢
  change d.matchesAll qs = true at admitted
  change d.matchesAll ps = true
  cases d with
  | string s =>
    simp only [Json.matchesAll, Pattern.allMatch, List.all_eq_true] at admitted ⊢
    exact fun p hp => admitted p (fewer p hp)
  | _ => cases admitted

variable (positive : 0 < N) (small : N ≤ 2 ^ 53)
include positive small

theorem refinements_meets {meetProps : Props Node → Props Node → Attempt (Props Node)}
    (hm : Properties.Meets N σ meetProps) (hl : l.Clear N) (hr : r.Clear N)
    (free : l.marks = [] ∧ r.marks = []) :
    (refinements meetProps l r).Ensures .lasting (Meets N σ l r) := by
  obtain ⟨a⟩ := l
  obtain ⟨b⟩ := r
  unfold refinements
  split
  · rename_i r s ha hb
    cases ha
    cases hb
    split
    · rename_i both met
      have finite : both.IsFinite := Range.IsFinite.intersect hl.isFlat hr.isFlat met
      have allows {x : Binary64} (allowed : both.allows x = true) :=
        Range.allows_of_intersect hl.isFlat hr.isFlat met allowed
      exact leaf_meets (.leaf finite.canonical trivial rfl)
        (bound_below fun allowed => (allows allowed).1)
          (bound_below fun allowed => (allows allowed).2) rfl free
    · exact .pure rfl
  · rename_i m n ha hb
    cases ha
    cases hb
    have divides : Nat.lcm m n ∣ N := Nat.lcm_dvd hl.isClear hr.isClear
    have less : Nat.lcm m n ≤ 2 ^ 53 := (Nat.le_of_dvd positive divides).trans small
    have nonzero := Nat.pos_of_dvd_of_pos divides positive
    refine .ite (fun _ => ?_) fun _ => .pure (Node.not_differs_of_marks_left free.1)
    exact leaf_meets (.leaf trivial divides rfl) (divisor_below nonzero less (Nat.dvd_lcm_left m n))
      (divisor_below nonzero less (Nat.dvd_lcm_right m n)) rfl free
  · rename_i ps qs ha hb
    cases ha
    cases hb
    exact leaf_meets (.leaf trivial trivial rfl)
      (patterns_below fun p hp => Pattern.mem_union.mpr (.inl hp))
        (patterns_below fun p hp => Pattern.mem_union.mpr (.inr hp)) rfl free
  · rename_i p q ha hb
    cases ha
    cases hb
    have merged : Attempt.Ensures .lasting (do Traced.props (← meetProps p q))
        (fun n => Node.Meets N σ (.of (.props p)) (.of (.props q)) n ∧
          n.constraint.isComposite = false)
        fun d => d.isEmpty = false :=
      (hm p q hl hr).bind fun both met => .lift (Traced.build_lasting ⟨met, rfl⟩)
    exact merged.run_bind (fun n hn => .pure hn) fun d hd => .pure hd
  · refine .pure ?_
    split_ifs
    · exact Node.not_differs_of_marks_left free.1
    · exact rfl

/-- Single constraints merge into one below both, stay side by side or clash for a reason. -/
theorem of_meets {meet : Meet} {meetProps : Props Node → Props Node → Attempt (Props Node)}
    (hm : Properties.Meets N σ meetProps) (hl : l.Clear N) (hr : r.Clear N)
    (single : l.constraint.isComposite = false) (single' : r.constraint.isComposite = false) :
    (of meet meetProps l r).Ensures .lasting (Meets N σ l r) := by
  have freeLeft (free : l.constraint.fixedDomain? = none) : l.marks = [] :=
    Node.marks_of_fixedDomain?_eq_none single free
  have freeRight (free : r.constraint.fixedDomain? = none) : r.marks = [] :=
    Node.marks_of_fixedDomain?_eq_none single' free
  refine .ite (fun same => .pure ⟨.of_below hl (Node.below_of_same same)
    (Node.marks_congr same ▸ List.Subset.refl _), single⟩) fun _ => ?_
  refine .ite (fun composite => ?_) fun _ => .ite (fun nominal => .pure ?_) fun _ => ?_
  · rw [single, single'] at composite
    cases composite
  · rcases Bool.or_eq_true_iff.mp nominal with nominal | nominal
    · exact Node.not_differs_of_marks_left
        (freeLeft (Constraint.fixedDomain?_of_isNominal nominal))
    · exact Node.not_differs_of_marks_right
        (freeRight (Constraint.fixedDomain?_of_isNominal nominal))
  · split
    · exact .pure (fixed_meets hl hr)
    · rename_i free
      exact .pure (refine_meets hl (freeRight free) l r)
    · rename_i free _
      exact .pure (refine_meets hr (freeLeft free) l r).symm
    · rename_i free free'
      exact refinements_meets positive small hm hl hr ⟨freeLeft free, freeRight free'⟩

end Pairing

end

omit [Library] in
theorem Sorting.mem_of_mem_dropRepeats {α : Type u} {same : α → α → Bool} {a : α}
    {as : List α} (h : a ∈ Sorting.dropRepeats same as) : a ∈ as := by
  have after (b : α) (as : List α) (h : a ∈ Sorting.dropRepeatsAfter same b as) : a ∈ as := by
    induction as generalizing b with
    | nil => exact h
    | cons c as ih =>
      rw [Sorting.dropRepeatsAfter] at h
      split_ifs at h
      · exact List.mem_cons_of_mem _ (ih b h)
      · exact (List.mem_cons.mp h).elim (fun same => same ▸ List.mem_cons_self) fun h =>
          List.mem_cons_of_mem _ (ih c h)
  cases as with
  | nil => exact h
  | cons b as => exact (List.mem_cons.mp h).elim (fun same => same ▸ List.mem_cons_self) fun h =>
      List.mem_cons_of_mem _ (after b as h)

omit [Library] in
/-- What is dropped as a repetition is the same as what is kept. -/
theorem Node.exists_same_of_dropRepeats {ns : List Node} {m : Node} (hm : m ∈ ns) :
    ∃ k ∈ Sorting.dropRepeats Node.same ns, k.same m = true := by
  have after (n : Node) (ns : List Node) (hm : m ∈ n :: ns) :
      ∃ k ∈ n :: Sorting.dropRepeatsAfter Node.same n ns, k.same m = true := by
    induction ns generalizing n with
    | nil => exact ⟨m, hm, m.same_refl⟩
    | cons c ns ih =>
      rw [Sorting.dropRepeatsAfter]
      split_ifs with same
      · rcases List.mem_cons.mp hm with rfl | hm
        · exact ⟨m, List.mem_cons_self, m.same_refl⟩
        · rcases List.mem_cons.mp hm with rfl | hm
          · exact ⟨n, List.mem_cons_self, same⟩
          · exact ih n (List.mem_cons_of_mem n hm)
      · rcases List.mem_cons.mp hm with rfl | hm
        · exact ⟨m, List.mem_cons_self, m.same_refl⟩
        · obtain ⟨k, hk, same⟩ := ih c hm
          exact ⟨k, List.mem_cons_of_mem n hk, same⟩
  cases ns with
  | nil => cases hm
  | cons n ns => exact after n ns hm

namespace Conjunction

section

variable (N : Nat) (σ : String → Json → Bool)

def Plain (conjuncts : List Node) : Prop :=
  ∀ m ∈ conjuncts, m.Clear N ∧ m.constraint.isComposite = false

/-- The conjuncts are plain, only what others admit is admitted by all of them, and they fix what
the others fix. -/
structure Joins (before after : List Node) : Prop where
  plain : Plain N after
  below : ∀ d : Json, d.Ordered → Node.AllAdmit σ after d → Node.AllAdmit σ before d
  marks : ∀ o, (∃ m ∈ before, o ∈ m.marks) → ∃ m ∈ after, o ∈ m.marks

end

variable {N : Nat} {σ : String → Json → Bool} {before after : List Node}

theorem Joins.trans {last : List Node} (h : Joins N σ before after) (h' : Joins N σ after last) :
    Joins N σ before last :=
  ⟨h'.plain, fun d ordered admitted => h.below d ordered (h'.below d ordered admitted),
    fun o fixed => h'.marks o (h.marks o fixed)⟩

theorem Joins.of_perm (plain : Plain N before) (perm : after.Perm before) :
    Joins N σ before after :=
  ⟨fun m hm => plain m (perm.subset hm),
    fun _ _ admitted m hm => admitted m (perm.symm.subset hm),
    fun _ ⟨m, hm, ho⟩ => ⟨m, perm.symm.subset hm, ho⟩⟩

theorem Joins.beside {n m c : Node} {others : List Node}
    (hc : c.Clear N ∧ c.constraint.isComposite = false)
    (h : Joins N σ (n :: before) (m :: others)) :
    Joins N σ (n :: c :: before) (m :: c :: others) := by
  constructor
  · intro k hk
    rcases List.mem_cons.mp hk with rfl | hk
    · exact h.plain _ List.mem_cons_self
    · rcases List.mem_cons.mp hk with rfl | hk
      · exact hc
      · exact h.plain _ (List.mem_cons_of_mem _ hk)
  · intro d ordered admitted
    obtain ⟨first, rest⟩ := List.forall_mem_cons.mp admitted
    obtain ⟨second, rest⟩ := List.forall_mem_cons.mp rest
    obtain ⟨whole, others⟩ :=
      List.forall_mem_cons.mp (h.below d ordered (List.forall_mem_cons.mpr ⟨first, rest⟩))
    exact List.forall_mem_cons.mpr ⟨whole, List.forall_mem_cons.mpr ⟨second, others⟩⟩
  · intro o
    have marks := h.marks o
    simp only [List.exists_mem_cons_iff] at marks ⊢
    grind

/-- Pairs of single constraints merge into one below both. -/
def PairsMeet (N : Nat) (σ : String → Json → Bool)
    (pair : Node → Node → Traced Pairing) : Prop :=
  ∀ l r, l.Clear N → r.Clear N → l.constraint.isComposite = false →
    r.constraint.isComposite = false → (pair l r).Ensures .lasting (Pairing.Meets N σ l r)

section

variable {pair : Node → Node → Traced Pairing} (merges : PairsMeet N σ pair)
include merges

theorem firstMerge_joins {incoming : Node}
    (hi : incoming.Clear N ∧ incoming.constraint.isComposite = false) {conjuncts : List Node}
    (hc : Plain N conjuncts) : Attempt.Ensures .lasting (firstMerge pair incoming conjuncts)
      (fun
        | some (n, others) => Joins N σ (incoming :: conjuncts) (n :: others) ∧
          others ⊆ conjuncts ∧ others.length < conjuncts.length
        | none => ∀ c ∈ conjuncts, ¬c.Differs incoming)
      fun d => d.isEmpty = false := by
  induction conjuncts with
  | nil => exact .pure (List.forall_mem_nil _)
  | cons c r ih =>
    obtain ⟨first, rest⟩ := List.forall_mem_cons.mp hc
    rw [firstMerge]
    refine Attempt.Ensures.bind (.lift (merges c incoming first.1 hi.1 first.2 hi.2)) fun p hp => ?_
    cases p with
    | merged n =>
      refine .pure ⟨⟨List.forall_mem_cons.mpr ⟨⟨hp.1.clear, hp.2⟩, rest⟩,
        fun d ordered admitted => ?_, fun o => ?_⟩,
        List.subset_cons_self c r, Nat.lt_succ_self _⟩
      · obtain ⟨here, others⟩ := List.forall_mem_cons.mp admitted
        exact List.forall_mem_cons.mpr ⟨hp.1.right d ordered here,
          List.forall_mem_cons.mpr ⟨hp.1.left d ordered here, others⟩⟩
      · have single := Node.isUnion_of_isComposite hp.2
        obtain ⟨left, right⟩ := hp.1.marks (Node.isNever_of_single single)
        simp only [List.exists_mem_cons_iff]
        rintro (ho | ho | ho)
        · exact .inl (right ho)
        · exact .inl (left ho)
        · exact .inr ho
    | clash d => exact .throw hp
    | irreducible =>
      refine (ih rest).bind fun o ho => .pure ?_
      cases o with
      | none => exact List.forall_mem_cons.mpr ⟨hp, ho⟩
      | some found =>
        exact ⟨ho.1.beside first, List.cons_subset_cons c ho.2.1, Nat.succ_lt_succ ho.2.2⟩

theorem addUpTo_joins {merged : Nat} {incoming : Node}
    (hi : incoming.Clear N ∧ incoming.constraint.isComposite = false) {conjuncts : List Node}
    (hc : Plain N conjuncts) (agree : Node.Agree conjuncts) (enough : conjuncts.length ≤ merged) :
    Attempt.Ensures .lasting (addUpTo pair merged conjuncts incoming)
      (fun after => Joins N σ (incoming :: conjuncts) after ∧ Node.Agree after)
      fun d => d.isEmpty = false := by
  have kept {incoming : Node} {conjuncts : List Node}
      (hi : incoming.Clear N ∧ incoming.constraint.isComposite = false) (hc : Plain N conjuncts) :
      Joins N σ (incoming :: conjuncts) (conjuncts ++ [incoming]) :=
    .of_perm (List.forall_mem_cons.mpr ⟨hi, hc⟩) (List.perm_append_singleton incoming conjuncts)
  induction merged generalizing incoming conjuncts with
  | zero =>
    refine .pure ⟨kept hi hc, ?_⟩
    rw [List.length_eq_zero_iff.mp (Nat.le_zero.mp enough)]
    exact .singleton hi.1.not_differs
  | succ merged ih =>
    rw [addUpTo]
    refine (firstMerge_joins merges hi hc).bind fun o ho => ?_
    cases o with
    | none => exact .pure ⟨kept hi hc, agree.append_singleton hi.1.not_differs ho⟩
    | some found =>
      obtain ⟨joined, fewer, shorter⟩ := ho
      obtain ⟨first, rest⟩ := List.forall_mem_cons.mp joined.plain
      exact (ih first rest (agree.mono fewer) (by omega)).mono
        (fun _ => And.imp_left joined.trans) fun _ => id

theorem addAll_joins {incoming : List Node} (hi : Plain N incoming) {conjuncts : List Node}
    (hc : Plain N conjuncts) (agree : Node.Agree conjuncts) :
    Attempt.Ensures .lasting (addAll pair conjuncts incoming)
      (fun after => Joins N σ (incoming ++ conjuncts) after ∧ Node.Agree after)
      fun d => d.isEmpty = false := by
  induction incoming generalizing conjuncts with
  | nil => exact .pure ⟨⟨hc, fun _ _ => id, fun _ => id⟩, agree⟩
  | cons n r ih =>
    obtain ⟨first, rest⟩ := List.forall_mem_cons.mp hi
    refine (addUpTo_joins merges first hc agree (Nat.le_refl _)).bind fun ms ⟨hms, agree⟩ => ?_
    refine (ih rest hms.plain agree).mono (fun last ⟨joined, agree⟩ =>
      ⟨⟨joined.plain, fun d ordered admitted => ?_, fun o fixed => joined.marks o ?_⟩,
        agree⟩) fun _ => id
    · obtain ⟨behind, here⟩ := List.forall_mem_append.mp (joined.below d ordered admitted)
      obtain ⟨first, before⟩ := List.forall_mem_cons.mp (hms.below d ordered here)
      exact List.forall_mem_cons.mpr ⟨first, List.forall_mem_append.mpr ⟨behind, before⟩⟩
    · obtain ⟨m, hm, ho⟩ := fixed
      have merged (h : m ∈ n :: conjuncts) : ∃ k ∈ r ++ ms, o ∈ k.marks :=
        (hms.marks o ⟨m, h, ho⟩).imp fun _ => And.imp_left (List.mem_append_right r)
      rcases List.mem_cons.mp hm with rfl | hm
      · exact merged List.mem_cons_self
      · rcases List.mem_append.mp hm with hm | hm
        · exact ⟨m, List.mem_append_left ms hm, ho⟩
        · exact merged (List.mem_cons_of_mem n hm)

end

theorem allAdmit_of_intersection {rep : Node → Node}
    (faithful : ∀ n : Node, n.same (rep n) = true) {children : List Node} {d : Json}
    (h : ((Traced.intersection children).value rep).admitsWith (fun _ => σ) d = true) :
    Node.AllAdmit σ children d := by
  unfold Traced.intersection at h
  split at h
  · exact List.forall_mem_singleton.mpr h
  · rw [Traced.value_build, ← Node.admitsWith_congr (faithful _)] at h
    intro m hm
    obtain ⟨k, hk, same⟩ := Node.exists_same_of_dropRepeats (Sorting.mem_sort.mpr hm)
    exact Node.admitsWith_congr same ▸ Node.admitsWith_intersection.mp h k hk

theorem intersection_joins {children : List Node} (hc : Plain N children)
    (agree : Node.Agree children) :
    (Traced.intersection children).Ensures .lasting fun n => n.Clear N ∧
      n.constraint.isUnion = false ∧ (∀ m ∈ children, m.marks ⊆ n.marks) ∧
      ∀ d : Json, n.admitsWith (fun _ => σ) d = true → Node.AllAdmit σ children d := by
  have joined : (Traced.intersection children).Ensures .lasting fun n => n.Clear N ∧
      n.constraint.isUnion = false ∧ ∀ m ∈ children, m.marks ⊆ n.marks := by
    unfold Traced.intersection
    split
    · rename_i n
      obtain ⟨clear, single⟩ := hc n List.mem_cons_self
      exact .pure ⟨clear, Node.isUnion_of_isComposite single,
        List.forall_mem_singleton.mpr (List.Subset.refl _)⟩
    · have fewer :
          Sorting.dropRepeats Node.same (Sorting.sort Node.precedes children) ⊆ children :=
        fun m hm => Sorting.mem_sort.mp (Sorting.mem_of_mem_dropRepeats hm)
      refine Traced.build_lasting
        ⟨.of _ ⟨fun m hm => (hc m (fewer hm)).2, agree.mono fewer⟩ trivial
          fun m hm => (hc m (fewer hm)).1, rfl, fun m hm o ho => ?_⟩
      obtain ⟨k, hk, same⟩ := Node.exists_same_of_dropRepeats (Sorting.mem_sort.mpr hm)
      exact Node.mem_marks_intersection.mpr ⟨k, hk, Node.marks_congr same ▸ ho⟩
  refine fun lasts => ⟨⟨(joined lasts).1.1, (joined lasts).1.2.1, (joined lasts).1.2.2,
    fun d h => ?_⟩, (joined lasts).2⟩
  exact allAdmit_of_intersection Node.same_refl h

end Conjunction

end SchemaAlgebra

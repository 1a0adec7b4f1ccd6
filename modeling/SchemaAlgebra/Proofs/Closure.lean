import SchemaAlgebra.Proofs.Irredundance

/-!
# Intersecting written nodes

Written nodes are intersected to written nodes, and what refines a kind of values on either
side does so in the result.
-/
namespace SchemaAlgebra

theorem Constraint.isKind_head {α : Type u} (c : Constraint α) :
    c.head.isKind = c.isKind := by cases c <;> rfl

variable [Library]

namespace Pairing

variable {meet : Meet} {meetProps : Props Node → Props Node → Attempt (Props Node)}
  {rep : Node → Node} {l r n : Node}

theorem kind_of_fixed (h : fixed l r = merged n) : (n = l ∨ n = r) ∧
    (l.constraint.isKind = true ∨ r.constraint.isKind = true → n.constraint.isKind = true) := by
  unfold fixed literalBasis narrow clashOf at h
  split at h <;> (try split_ifs at h) <;> cases h <;> simp_all [Constraint.isKind]

theorem kind_of_refine {kind refinement a b : Node} (h : refine kind refinement a b = merged n) :
    n = kind ∧ n.constraint.isKind = true := by
  unfold refine narrow clashOf at h
  split at h
  · rename_i x literal
    split_ifs at h
    cases h
    exact ⟨rfl, by rw [literal]; rfl⟩
  · split at h
    · split_ifs at h
    · cases h

omit [Library] in
theorem refinement_of_merged (h : (refinements meetProps l r).value id = merged n) :
    l.constraint.isRefinement = true ∧ r.constraint.isRefinement = true ∧
      n.constraint.isRefinement = true := by
  unfold refinements clashOf at h
  split at h
  · rename_i hl hr
    split at h
    · cases h
      exact ⟨by rw [hl]; rfl, by rw [hr]; rfl, rfl⟩
    · cases h
  · rename_i hl hr
    split_ifs at h
    · cases h
      exact ⟨by rw [hl]; rfl, by rw [hr]; rfl, rfl⟩
    · cases h
  · rename_i hl hr
    cases h
    exact ⟨by rw [hl]; rfl, by rw [hr]; rfl, rfl⟩
  · rename_i p q hl hr
    rw [value_ofAttempt, Attempt.outcome_bind] at h
    cases met : (meetProps p q).outcome id with
    | error d =>
      rw [met] at h
      cases h
    | ok both =>
      rw [met] at h
      cases h
      exact ⟨by rw [hl]; rfl, by rw [hr]; rfl, rfl⟩
  · rw [Traced.value_pure] at h
    split_ifs at h

/-- Of single constraints that are not both refinements, one is left, a kind if there is one. -/
theorem merged_cases (single : l.constraint.isComposite = false)
    (single' : r.constraint.isComposite = false) (h : (of meet meetProps l r).value id = merged n) :
    ((n = l ∨ n = r) ∧ (l.constraint.isKind = true ∨ r.constraint.isKind = true →
      n.constraint.isKind = true)) ∨
      l.constraint.isRefinement = true ∧ r.constraint.isRefinement = true ∧
        n.constraint.isRefinement = true := by
  unfold of at h
  simp only [single, single', Bool.or_self, Bool.false_eq_true, if_false] at h
  split_ifs at h with same nominal
  · cases h
    have kinds : r.constraint.isKind = l.constraint.isKind := by
      rw [← Constraint.isKind_head, ← Node.head_of_same same, Constraint.isKind_head]
    exact .inl ⟨.inl rfl, fun h => h.elim id fun h => kinds ▸ h⟩
  · cases h
  · split at h
    · exact .inl (kind_of_fixed h)
    · obtain ⟨rfl, kind⟩ := kind_of_refine h
      exact .inl ⟨.inl rfl, fun _ => kind⟩
    · obtain ⟨rfl, kind⟩ := kind_of_refine h
      exact .inl ⟨.inr rfl, fun _ => kind⟩
    · exact .inr (refinement_of_merged h)

end Pairing

/-- What is said of a node that two written nodes are intersected to. -/
structure Node.Met (a b c : Node) : Prop where
  written : c.Written
  isUnknown : c.isUnknown = true → a.isUnknown = true ∧ b.isUnknown = true
  grounded : a.Grounded → b.Grounded → c.Grounded
  hasKind : a.HasKind ∨ b.HasKind → c.HasKind
  single : a.constraint.isUnion = false → b.constraint.isUnion = false →
    c.constraint.isUnion = false
  isPlain : a.isPlain = true → b.isPlain = true → c.isPlain = true

theorem Node.Met.symm {a b c : Node} (h : Met a b c) : Met b a c where
  written := h.written
  isUnknown := fun all => (h.isUnknown all).symm
  grounded := fun hb ha => h.grounded ha hb
  hasKind := fun kind => h.hasKind kind.symm
  single := fun hb ha => h.single ha hb
  isPlain := fun hb ha => h.isPlain ha hb

/-- Written nodes are intersected to such nodes. -/
def Meet.Writes (meet : Meet) : Prop := ∀ a b, a.Written → b.Written →
  Attempt.Ensures .lasting (meet a b) (Node.Met a b) fun _ => True

section

variable {meet : Meet} (writes : meet.Writes)
include writes

theorem Properties.meetProps_writes {a b : Node} (ha : a.Written) (hb : b.Written) :
    Attempt.Ensures .lasting
      (meetProps meet (.ofSequence ⟨[], some a⟩) (.ofSequence ⟨[], some b⟩))
        (fun both => ∃ c, both = .ofSequence ⟨[], some c⟩ ∧ (Node.Met a b c ∨ c = .never))
          fun _ => True := by
  have element : (meetOrNever meet a b).Ensures .lasting fun c => Node.Met a b c ∨ c = .never :=
    (writes a b ha hb).run_bind (fun c hc => .pure (.inl hc)) fun _ _ =>
      Traced.build_lasting (.inr rfl)
  let arrays (c : Node) : Props Node := .ofSequence ⟨[], some c⟩
  have named : (meetKeys meet (arrays a) (arrays b) ⟨.empty, .none⟩
      (allKeys (arrays a) (arrays b))).Ensures
      .lasting fun d => d = ⟨.empty, .none⟩ := .pure rfl
  have sequences : Attempt.Ensures .lasting (meetSequences meet ⟨[], some a⟩ ⟨[], some b⟩)
      (fun s => ∃ c, s = ⟨[], some c⟩ ∧ (Node.Met a b c ∨ c = .never)) fun _ =>
        False := by
    have fits : lengthsClash ⟨[], some a⟩ ⟨[], some b⟩ = false := rfl
    simp only [meetSequences, fits, Bool.false_eq_true, if_false]
    refine Attempt.Ensures.bind (.lift (Q := fun found => found = ([], Disjoint.none)) (.pure rfl))
      fun found hf => ?_
    subst hf
    refine .ite (fun reasons => absurd reasons (by decide)) fun _ => ?_
    have rest : (meetRest meet (some a) (some b)).Ensures .lasting
        fun rest => ∃ c, rest = some c ∧ (Node.Met a b c ∨ c = .never) :=
      .map (element.mono fun c hc => ⟨c, rfl, hc⟩)
    refine Attempt.Ensures.bind (.lift rest) fun rest hr => .pure ?_
    obtain ⟨c, rfl, hc⟩ := hr
    exact ⟨c, rfl, hc⟩
  have sequence : (meetSequence meet (arrays a) (arrays b) ⟨.empty, .none⟩).Ensures .lasting
      fun d => ∃ c, d = ⟨arrays c, .none⟩ ∧ (Node.Met a b c ∨ c = .never) := by
    refine sequences.run_bind (fun s hs => .pure ?_) fun _ impossible => impossible.elim
    obtain ⟨c, rfl, hc⟩ := hs
    exact ⟨c, rfl, hc⟩
  refine Attempt.Ensures.bind (.lift named) fun d hd => ?_
  subst hd
  refine Attempt.Ensures.bind (.lift (Q := fun index => index = []) (.pure rfl)) fun index hi => ?_
  subst hi
  refine Attempt.Ensures.bind (.lift sequence) fun d hd => ?_
  obtain ⟨c, rfl, hc⟩ := hd
  have finished : Attempt.Ensures .lasting (Draft.finish ⟨arrays c, .none⟩)
      (fun p => p = arrays c) fun _ => True :=
    .pure rfl
  refine finished.bind fun p hp => ?_
  subst hp
  have refuted : (refuteRequired ⟨arrays c, .none⟩).Ensures .lasting fun d =>
      d = ⟨arrays c, .none⟩ := by
    refine .ite (fun none => by cases none) fun _ =>
      (Traced.build_lasting (Q := fun _ => True) trivial).bind
      fun _ _ => .pure rfl
  refine Attempt.Ensures.bind (.lift (Q := fun d => d = ⟨arrays c, .none⟩) (.pure rfl))
    fun d hd => ?_
  subst hd
  refine Attempt.Ensures.bind (.lift refuted) fun d hd => ?_
  subst hd
  exact .pure ⟨c, rfl, hc⟩

/-- A single constraint that grammar texts write. -/
def Conjunction.IsWritten (n : Node) : Prop := n.Written ∧ n.constraint.isComposite = false

open Conjunction (IsWritten)

omit writes in
theorem Pairing.leaf_writes {c : Constraint Node} {l r : Node} (settled : c.Settled)
    (form : c.IsWritten) (leaf : c.children = []) (single : c.isComposite = false) :
    (merged <$> Traced.build (.of c)).Ensures .lasting (Keeps IsWritten l r) :=
  .map (Traced.build_lasting ⟨.leaf settled form leaf, single⟩)

omit [Library] in
omit writes in
theorem Range.IsWritten.of_intersect {r s both : Range} (hr : r.IsWritten)
    (h : r.intersect? s = some both) : both.canonical.IsWritten := by
  obtain ⟨-, limits, -⟩ := hr
  unfold Range.intersect? at h
  dsimp only at h
  split_ifs at h with empty
  cases h
  refine ⟨Range.canonical_canonical _, ?_, by rw [Range.isEmpty_canonical]; simpa using empty⟩
  have kept (o : Ordering) {a : Option Limit} (b : Option Limit) (ha : a.isSome) :
      ((Range.stricterOf o a b).map (·.canonical)).isSome := by
    obtain ⟨a, rfl⟩ := Option.isSome_iff_exists.mp ha
    cases b <;> rfl
  exact limits.imp (kept _ _) (kept _ _)

omit [Library] in
omit writes in
theorem Pattern.eq_of_source {p q : Pattern} (h : p.source = q.source) : p = q := by
  obtain ⟨source⟩ := p
  cases q
  cases h
  rfl

omit [Library] in
omit writes in
theorem Pattern.union_sorted {ps qs : List Pattern} (hp : ps.Nodup) (hq : qs.Nodup) :
    (union ps qs).Pairwise (·.source < ·.source) := by
  have sorted : (union ps qs).Pairwise (·.source ≤ ·.source) :=
    Sorting.sort_pairwise (fun _ _ => rfl) _
  exact (sorted.and (nodup_union hp hq)).imp fun ⟨le, different⟩ =>
    lt_of_le_of_ne le fun same => different (eq_of_source same)

theorem Pairing.arrays_write {a b : Node}
    (ha : IsWritten (.of (.props (.ofSequence ⟨[], some a⟩))))
    (hb : IsWritten (.of (.props (.ofSequence ⟨[], some b⟩)))) {l r : Node} : (ofAttempt do
      let both ←
        Properties.meetProps meet (.ofSequence ⟨[], some a⟩) (.ofSequence ⟨[], some b⟩)
      Traced.props both).Ensures .lasting (Keeps IsWritten l r) := by
  obtain ⟨_, same, grounded, some_a⟩ := ha.1.form
  cases same
  obtain ⟨_, same, grounded', -⟩ := hb.1.form
  cases same
  have written (c : Node) (hc : Node.Met a b c ∨ c = .never) :
      IsWritten (.of (.props (.ofSequence ⟨[], some c⟩))) := by
    have parts : c.Written ∧ c.Grounded ∧ c.isUnknown = false := by
      rcases hc with met | rfl
      · refine ⟨met.written, met.grounded grounded grounded',
          Bool.eq_false_iff.mpr fun all => ?_⟩
        rw [(met.isUnknown all).1] at some_a
        cases some_a
      · exact ⟨Node.written_never, fun _ hb => absurd hb List.not_mem_nil, rfl⟩
    exact ⟨.of _ trivial ⟨c, rfl, parts.2⟩ (List.forall_mem_singleton.mpr parts.1), rfl⟩
  have merged : Attempt.Ensures .lasting (do
      let both ←
        Properties.meetProps meet (.ofSequence ⟨[], some a⟩) (.ofSequence ⟨[], some b⟩)
      Traced.props both) IsWritten fun _ => True := by
    refine (Properties.meetProps_writes writes (ha.1.children a (List.mem_singleton_self a))
      (hb.1.children b (List.mem_singleton_self b))).bind fun both hc => .lift ?_
    obtain ⟨c, rfl, hc⟩ := hc
    exact Traced.build_lasting (written c hc)
  exact merged.run_bind (fun n hn => .pure hn) fun _ _ => .pure trivial

theorem Pairing.refinements_writes {l r : Node} (hl : IsWritten l) (hr : IsWritten r)
    (different : l.same r = false) (nominal : l.constraint.isNominal = false)
    (nominal' : r.constraint.isNominal = false) (free : l.constraint.fixedDomain? = none)
    (free' : r.constraint.fixedDomain? = none) :
    (refinements (Properties.meetProps meet) l r).Ensures .lasting (Keeps IsWritten l r) := by
  obtain ⟨a⟩ := l
  obtain ⟨b⟩ := r
  have settled := hl.1.reduced.settled
  have settled' := hr.1.reduced.settled
  have form := hl.1.form
  have form' := hr.1.form
  unfold refinements
  split
  · rename_i r s ha hb
    cases ha
    cases hb
    split
    · rename_i both met
      have finite : both.IsFinite := Range.IsFinite.intersect settled settled' met
      exact leaf_writes finite.canonical (.of_intersect form met) rfl rfl
    · exact .pure trivial
  · rename_i m n ha hb
    cases ha
    cases hb
    refine .ite (fun small => ?_) fun large => .pure ?_
    · exact leaf_writes ⟨Nat.lcm_pos settled.1 settled'.1, small⟩ trivial rfl rfl
    · exact ⟨different, rfl, rfl, .inr (.inr (.inl ⟨m, n, rfl, rfl, not_lt.mp large⟩))⟩
  · rename_i ps qs ha hb
    cases ha
    cases hb
    refine leaf_writes (Pattern.nodup_union settled settled')
      ⟨fun empty => ?_, Pattern.union_sorted settled settled',
      fun p hp => ?_⟩ rfl rfl
    · obtain ⟨p, hp⟩ := List.exists_mem_of_ne_nil _ form.1
      exact absurd (empty ▸ Pattern.mem_union.mpr (.inl hp)) List.not_mem_nil
    · exact (Pattern.mem_union.mp hp).elim (form.2.2 p) (form'.2.2 p)
  · rename_i p q ha hb
    cases ha
    cases hb
    obtain ⟨x, rfl, -⟩ := form
    obtain ⟨y, rfl, -⟩ := form'
    exact arrays_write writes hl hr
  · rename_i notBounds notDivisors notPatterns notProps
    refine .pure ?_
    split_ifs with common
    · exact apart_of_refinements different hl.2 hr.2 nominal nominal' free free' common notBounds
        notDivisors notPatterns notProps
    · trivial

omit writes

namespace Conjunction

section

variable {Q R : Node → Prop} {pair : Node → Node → Traced Pairing} (merges : Merges Q pair id)
  (absorbs : ∀ {a b n}, Q a → Q b → (pair a b).value id = .merged n → R a ∨ R b → R n)
include merges absorbs

omit [Library]

theorem add_exists {conjuncts : List Node} (hc : ∀ c ∈ conjuncts, Q c) {incoming : Node}
    (hi : Q incoming) (found : (∃ c ∈ conjuncts, R c) ∨ R incoming) {added : List Node}
    (ok : (add pair conjuncts incoming).outcome id = .ok added) : ∃ c ∈ added, R c := by
  induction fewer : conjuncts.length using Nat.strongRecOn generalizing conjuncts incoming with
  | ind k ih =>
    rcases add_cases pair id conjuncts incoming with ⟨-, all⟩ | ⟨before, c, behind, d, -, -,
      -, clash⟩ | ⟨before, c, behind, n, rfl, -, merged, rest⟩
    · rw [all] at ok
      cases ok
      rcases found with ⟨c, hm, hR⟩ | hR
      · exact ⟨c, List.mem_append_left _ hm, hR⟩
      · exact ⟨incoming, List.mem_append_right _ (List.mem_singleton_self _), hR⟩
    · rw [clash] at ok
      cases ok
    · rw [rest] at ok
      have hc' : Q c := hc c (by simp)
      have sub := (List.sublist_cons_self c behind).append_left before
      refine ih _ (by simp [← fewer]) (fun m hm => hc m (sub.subset hm))
        (merges hc' hi merged) ?_ ok rfl
      rcases found with ⟨m, hm, hR⟩ | hR
      · rcases List.mem_append.mp hm with hm | hm
        · exact .inl ⟨m, List.mem_append_left _ hm, hR⟩
        · rcases List.mem_cons.mp hm with rfl | hm
          · exact .inr (absorbs hc' hi merged (.inl hR))
          · exact .inl ⟨m, List.mem_append_right _ hm, hR⟩
      · exact .inr (absorbs hc' hi merged (.inr hR))

/-- What merging does not lose is still among the conjuncts after others are added. -/
theorem addAll_exists {conjuncts incoming : List Node} (hc : ∀ c ∈ conjuncts, Q c)
    (hi : ∀ c ∈ incoming, Q c) (found : (∃ c ∈ conjuncts, R c) ∨ ∃ c ∈ incoming, R c)
    {added : List Node} (ok : (addAll pair conjuncts incoming).outcome id = .ok added) :
    ∃ c ∈ added, R c := by
  induction incoming generalizing conjuncts with
  | nil =>
    cases ok
    exact found.resolve_right fun ⟨c, hm, _⟩ => absurd hm List.not_mem_nil
  | cons n r ih =>
    rw [List.forall_mem_cons] at hi
    rw [outcome_addAll_cons] at ok
    cases first : (add pair conjuncts n).outcome id with
    | error d =>
      rw [first] at ok
      cases ok
    | ok merged =>
      rw [first] at ok
      refine ih (add_forall merges hc hi.1 first) hi.2 ?_ ok
      rcases found with found | ⟨c, hm, hR⟩
      · exact .inl (add_exists merges absorbs hc hi.1 (.inl found) first)
      · rcases List.mem_cons.mp hm with rfl | hm
        · exact .inl (add_exists merges absorbs hc hi.1 (.inr hR) first)
        · exact .inr ⟨c, hm, hR⟩

end

theorem merges_single {meetProps : Props Node → Props Node → Attempt (Props Node)} :
    Merges (fun n => n.constraint.isComposite = false) (Pairing.of meet meetProps) id := by
  intro a b n ha hb merged
  rcases Pairing.merged_cases ha hb merged with ⟨rfl | rfl, -⟩ | ⟨-, -, refinement⟩
  · exact ha
  · exact hb
  · generalize n.constraint = c at refinement ⊢
    cases c <;> first | rfl | cases refinement

variable {l r : List Node} (hl : ∀ c ∈ l, c.constraint.isComposite = false)
  (hr : ∀ c ∈ r, c.constraint.isComposite = false) {added : List Node}
  (ok : (addAll (Pairing.of meet (Properties.meetProps meet)) l r).outcome id = .ok added)
include hl hr ok

theorem HasKind.addAll (kind : HasKind l ∨ HasKind r) : HasKind added := by
  refine addAll_exists merges_single (fun ha hb merged kinds => ?_) hl hr kind ok
  rcases Pairing.merged_cases ha hb merged with ⟨-, narrower⟩ | ⟨left, right, -⟩
  · exact narrower kinds
  · generalize Node.constraint _ = c at left kinds
    generalize Node.constraint _ = e at right kinds
    cases c <;> cases left <;> cases e <;> cases right <;> rcases kinds with kind | kind <;>
      cases kind

theorem Grounded.addAll (left : Grounded l) (right : Grounded r) : Grounded added := by
  by_cases kind : HasKind l ∨ HasKind r
  · exact .inl (.addAll hl hr ok kind)
  · obtain ⟨none, none'⟩ := not_or.mp kind
    refine .inr fun c hc => ?_
    refine (addAll_forall (R :=
      fun n => n.constraint.isComposite = false ∧ n.constraint.isRefinement = false)
      (fun {a b n} ha hb merged => ?_) (fun c hc => ⟨hl c hc, left.resolve_left none c hc⟩)
      (fun c hc => ⟨hr c hc, right.resolve_left none' c hc⟩) ok c hc).2
    rcases Pairing.merged_cases ha.1 hb.1 merged with ⟨rfl | rfl, -⟩ | ⟨refinement, -⟩
    · exact ha
    · exact hb
    · rw [ha.2] at refinement
      cases refinement

theorem addAll_ne_nil (some_conjunct : l ≠ [] ∨ r ≠ []) : added ≠ [] := by
  have found : ∃ c ∈ added, True := by
    refine addAll_exists (R := fun _ => True) merges_single (fun _ _ _ _ => trivial) hl hr ?_ ok
    exact some_conjunct.imp (fun h => (List.exists_mem_of_ne_nil l h).imp fun _ hc =>
      ⟨hc, trivial⟩)
      fun h => (List.exists_mem_of_ne_nil r h).imp fun _ hc => ⟨hc, trivial⟩
  obtain ⟨c, hc, -⟩ := found
  exact List.ne_nil_of_mem hc

end Conjunction

include writes

omit [Library] in
omit writes in
theorem Attempt.Ensures.outcome {α : Type} {j : Judging} {x : Attempt α} {Q : α → Prop}
    {E : Disjoint → Prop} (h : Ensures j x Q E) :
    Ensures j x (fun a => Q a ∧ x.outcome j.rep = .ok a) E := by
  intro events
  obtain ⟨value, promised⟩ := h events
  refine ⟨?_, promised⟩
  cases found : x.run.value j.rep with
  | ok a =>
    rw [found] at value
    exact ⟨value, found⟩
  | error d =>
    rw [found] at value
    exact value

def Conjunction.node (conjuncts : List Node) : Node := (Traced.intersection conjuncts).value id

omit writes in
theorem Conjunction.node_written {conjuncts : List Node}
    (written : ∀ c ∈ conjuncts, IsWritten c) (apart : conjuncts.Pairwise Node.Apart) :
    (node conjuncts).Written ∧ (node conjuncts).isPlain = true ∧
      (node conjuncts).conjuncts.Perm conjuncts := by
  by_cases several : conjuncts.length = 1
  · obtain ⟨c, rfl⟩ := List.length_eq_one_iff.mp several
    obtain ⟨written, single⟩ := written c (List.mem_singleton_self c)
    refine ⟨written, Node.isPlain_of_single single, ?_⟩
    obtain ⟨c⟩ := c
    cases c <;> first | exact List.Perm.refl _ | cases single
  · rw [node, intersection_apart apart several]
    have perm : (Sorting.sort Node.precedes conjuncts).Perm conjuncts := Sorting.sort_perm conjuncts
    refine ⟨.of _ ⟨fun c hc => ?_, perm.symm.pairwise apart fun h => h.symm⟩
      ⟨perm.length_eq ▸ several, sort_precedes conjuncts⟩ fun c hc => ?_, rfl, perm⟩
    · exact (written c (Sorting.mem_sort.mp hc)).2
    · exact (written c (Sorting.mem_sort.mp hc)).1

omit [Library] in
omit writes in
theorem Traced.intersection_lasting {conjuncts : List Node} {Q : Node → Prop}
    (h : Q (Conjunction.node conjuncts)) : (intersection conjuncts).Ensures .lasting Q := by
  unfold intersection
  split
  · exact .pure h
  · rename_i several
    rw [Conjunction.node, intersection.eq_2 conjuncts several] at h
    exact build_lasting h

omit [Library] in
omit writes in
theorem Node.isUnknown_iff {n : Node} : n.isUnknown = true ↔ n.conjuncts = [] := by
  obtain ⟨c⟩ := n
  cases c <;> simp [Node.isUnknown, Node.conjuncts, Node.constraint]

theorem conjoin_writes {a b : Node} (ha : a.Written) (hb : b.Written) (plain : a.isPlain = true)
    (plain' : b.isPlain = true) :
    Attempt.Ensures .lasting (conjoin meet a b) (Node.Met a b) fun _ => True := by
  have left (m : Node) (hm : m ∈ a.conjuncts) : IsWritten m := by
    obtain ⟨single, plain⟩ := Node.isPlain_iff.mp plain
    exact ⟨ha.conjuncts m hm, ha.reduced.isComposite_of_conjunct single plain hm⟩
  have right (m : Node) (hm : m ∈ b.conjuncts) : IsWritten m := by
    obtain ⟨single, plain⟩ := Node.isPlain_iff.mp plain'
    exact ⟨hb.conjuncts m hm, hb.reduced.isComposite_of_conjunct single plain hm⟩
  have pairs : Conjunction.Keeps .lasting IsWritten (Pairing.of meet (Properties.meetProps meet)) :=
    fun _ _ hl hr => Pairing.of_keeps hl hr hl.2 hr.2 (Pairing.refinements_writes writes hl hr)
  refine (Conjunction.addAll_keeps pairs right
    ⟨left, ha.reduced.conjuncts_pairwise⟩).outcome.bind
    fun children hc => .lift ?_
  obtain ⟨⟨written, apart⟩, ok⟩ := hc
  have single (m : Node) (hm : m ∈ a.conjuncts) := (left m hm).2
  have single' (m : Node) (hm : m ∈ b.conjuncts) := (right m hm).2
  obtain ⟨writtenC, plainC, perm⟩ := Conjunction.node_written written apart
  exact Traced.intersection_lasting {
    written := writtenC
    isUnknown := fun all => by
      have none : children = [] := List.perm_nil.mp (Node.isUnknown_iff.mp all ▸ perm.symm)
      have both := mt (Conjunction.addAll_ne_nil single single' ok) (not_not.mpr none)
      rw [not_or, not_not, not_not] at both
      exact ⟨Node.isUnknown_iff.mpr both.1, Node.isUnknown_iff.mpr both.2⟩
    grounded := fun hl hr => by
      rw [Node.grounded_of_plain plain] at hl
      rw [Node.grounded_of_plain plain'] at hr
      have grounded := Conjunction.Grounded.addAll single single' ok hl hr
      rw [Node.grounded_of_plain plainC]
      exact grounded.imp (fun ⟨k, hk, kind⟩ => ⟨k, perm.mem_iff.mpr hk, kind⟩)
        fun none m hm => none m (perm.mem_iff.mp hm)
    hasKind := fun kind => by
      rw [Node.hasKind_of_plain plain, Node.hasKind_of_plain plain'] at kind
      obtain ⟨k, hk, kind⟩ := Conjunction.HasKind.addAll single single' ok kind
      exact (Node.hasKind_of_plain plainC).mpr ⟨k, perm.mem_iff.mpr hk, kind⟩
    single := fun _ _ => (Node.isPlain_iff.mp plainC).1
    isPlain := fun _ _ => plainC }

omit writes in
theorem Union.joined_written {kept : List Node} (written : ∀ b ∈ kept, b.Written)
    (single : ∀ b ∈ kept, b.constraint.isUnion = false) (irredundant : Irredundant kept)
    (known : kept.length ≠ 1 → ∀ b ∈ kept, b.isUnknown = false) :
    (joined kept).Written := by
  have several (more : kept.length ≠ 1) : Node.Written (.of (.union kept)) :=
    .of _ single ⟨more, irredundant, known more⟩ written
  match kept with
  | [] => exact several (by simp)
  | [n] => exact written n List.mem_cons_self
  | _ :: _ :: _ => exact several (by simp)

omit writes in
theorem isUnknown_branch {n b : Node} (h : n.Written) (union : n.constraint.isUnion = true)
    (hb : b ∈ n.branches) : b.isUnknown = false := by
  obtain ⟨c⟩ := n
  cases c with
  | union branches => exact h.form.2.2 b hb
  | _ => cases union

variable (continues : meet.Continues (id · = ·) meetFreely)
include continues

omit writes in
/-- Unless the budget runs out, a union is the one without a budget. -/
theorem Union.of_lasting {nodes : List Node} {Q : Node → Prop}
    (h : Q ((of meetFreely nodes).value id)) : (of meet nodes).Ensures .lasting Q := by
  intro lasting
  refine ⟨?_, fun e he => ?_⟩
  · have same := (of_continues continues nodes).value_eq fun out => lasting _ out rfl
    exact same ▸ h
  · cases e with
    | exhausted => exact lasting _ he rfl
    | _ => trivial

theorem distribute_writes {a b : Node} (ha : a.Written) (hb : b.Written)
    (some_union : a.constraint.isUnion = true ∨ b.constraint.isUnion = true) :
    Attempt.Ensures .lasting (distribute meet a b) (Node.Met a b) fun _ => True := by
  let Pair (f : Node) : Prop := ∃ x ∈ a.branches, ∃ y ∈ b.branches, Node.Met x y f
  have pairs : ∀ p ∈ operands a b, Attempt.Ensures .lasting (meet p.1 p.2) Pair fun _ =>
      True := by
    intro p hp
    rcases mem_operands hp with ⟨hx, hy⟩ | ⟨hy, hx⟩
    · exact (writes _ _ (ha.branches _ hx) (hb.branches _ hy)).mono
        (fun f met => ⟨_, hx, _, hy, met⟩) fun _ => id
    · exact (writes _ _ (hb.branches _ hy) (ha.branches _ hx)).mono
        (fun f met => ⟨_, hx, _, hy, met.symm⟩) fun _ => id
  rw [distribute_eq]
  refine Attempt.Ensures.bind (.lift (meetAll_inherits pairs)) fun outcomes ho =>
    .ite (fun _ => .throw trivial)
    fun _ => .lift (Union.of_lasting continues ?_)
  obtain ⟨kept, value, irredundant, from_found⟩ := Union.value_of_nodes
    (outcomes.filterMap fun o => o.toOption.filter (!·.isNever))
  rw [value]
  have met (f : Node) (hf : f ∈ kept) : ∃ x ∈ a.branches, ∃ y ∈ b.branches,
      x.constraint.isUnion = false ∧ y.constraint.isUnion = false ∧ Node.Met x y f := by
    obtain ⟨n, hn, hf⟩ := from_found f hf
    obtain ⟨o, hmem, hn⟩ := List.mem_filterMap.mp hn
    obtain ⟨hn, -⟩ := Option.filter_eq_some_iff.mp hn
    cases o with
    | error d => cases hn
    | ok m =>
      cases hn
      obtain ⟨x, hx, y, hy, met⟩ := ho n hmem
      have single := ha.reduced.isUnion_of_branch hx
      have single' := hb.reduced.isUnion_of_branch hy
      rw [Node.branches_of_single (met.single single single'), List.mem_singleton] at hf
      exact ⟨x, hx, y, hy, single, single', hf ▸ met⟩
  have single (f : Node) (hf : f ∈ kept) : f.constraint.isUnion = false := by
    obtain ⟨x, -, y, -, single, single', met⟩ := met f hf
    exact met.single single single'
  have known (f : Node) (hf : f ∈ kept) : f.isUnknown = false := by
    obtain ⟨x, hx, y, hy, -, -, met⟩ := met f hf
    refine Bool.eq_false_iff.mpr fun all => ?_
    obtain ⟨left, right⟩ := met.isUnknown all
    rcases some_union with union | union
    · rw [isUnknown_branch ha union hx] at left
      cases left
    · rw [isUnknown_branch hb union hy] at right
      cases right
  have branches : (Union.joined kept).branches = kept := Union.branches_joined single
  exact {
    written := Union.joined_written (fun f hf => by
      obtain ⟨x, -, y, -, -, -, met⟩ := met f hf
      exact met.written) single irredundant fun _ => known
    isUnknown := fun all => by
      match kept, known with
      | [], _ => cases all
      | [f], known =>
        have unlike := known f List.mem_cons_self
        rw [show f.isUnknown = true from all] at unlike
        cases unlike
      | _ :: _ :: _, _ => cases all
    grounded := fun left right f hf => by
      rw [branches] at hf
      obtain ⟨x, hx, y, hy, single', single'', met⟩ := met f hf
      refine met.grounded (Node.grounded_branch left hx single')
        (Node.grounded_branch right hy single'') f ?_
      rw [Node.branches_of_single (single f hf)]
      exact List.mem_singleton_self f
    hasKind := fun kind f hf => by
      rw [branches] at hf
      obtain ⟨x, hx, y, hy, single', single'', met⟩ := met f hf
      refine met.hasKind (kind.imp (Node.hasKind_branch · hx single')
        (Node.hasKind_branch · hy single'')) f ?_
      rw [Node.branches_of_single (single f hf)]
      exact List.mem_singleton_self f
    single := fun left right => by
      rw [left, right] at some_union
      rcases some_union with h | h <;> cases h
    isPlain := fun left right => by
      rw [(Node.isPlain_iff.mp left).1, (Node.isPlain_iff.mp right).1] at some_union
      rcases some_union with h | h <;> cases h }

omit writes continues in
/-- A morph of what the input of one side and the other side are intersected to. -/
theorem Node.Met.morph {x y a b c : Node} {steps : List Step} (met : Met x y c)
    (plain : x.isPlain = true) (plain' : y.isPlain = true)
    (nominal : steps.map (·.nominal) = steps) (some_morph : a.isMorph = true ∨ b.isMorph = true)
    (left : a.constraint.isUnion = false ∧ a.input = x)
    (right : b.constraint.isUnion = false ∧ b.input = y) : Met a b (.of (.morph c steps)) := by
  have plainC := met.isPlain plain plain'
  have inner {n m : Node} (h : n.constraint.isUnion = false ∧ n.input = m)
      (plain : m.isPlain = true) : (n.Grounded ↔ m.Grounded) ∧ (n.HasKind ↔ m.HasKind) := by
    rw [Node.grounded_of_plain plain, Node.hasKind_of_plain plain, Node.Grounded, Node.HasKind,
      Node.branches_of_single h.1, List.forall_mem_singleton, List.forall_mem_singleton, h.2]
    exact ⟨Iff.rfl, Iff.rfl⟩
  have outer := inner (n := .of (.morph c steps)) ⟨rfl, rfl⟩ plainC
  have one_morph {P : Prop} (h : a.isPlain = true) (h' : b.isPlain = true) : P := by
    rw [(Node.isPlain_iff.mp h).2, (Node.isPlain_iff.mp h').2] at some_morph
    rcases some_morph with h | h <;> cases h
  exact {
    written := .of _ trivial ⟨plainC, nominal⟩ (List.forall_mem_singleton.mpr met.written)
    isUnknown := fun h => by cases h
    grounded := fun hl hr =>
      outer.1.mpr (met.grounded ((inner left plain).1.mp hl) ((inner right plain').1.mp hr))
    hasKind := fun kind =>
      outer.2.mpr (met.hasKind (kind.imp (inner left plain).2.mp (inner right plain').2.mp))
    single := fun _ _ => rfl
    isPlain := fun h h' => one_morph h h' }

omit writes continues in
theorem Node.Met.refl {a : Node} (ha : a.Written) : Met a a a where
  written := ha
  isUnknown all := ⟨all, all⟩
  grounded h _ := h
  hasKind h := h.elim id id
  single h _ := h
  isPlain h _ := h

omit writes continues in
theorem Node.Met.never {a b : Node} (h : (a.isNever || b.isNever) = true) : Met a b .never := by
  have union {n : Node} (h : n.isNever = true) : n.constraint.isUnion = true := by
    obtain ⟨c⟩ := n
    cases c <;> first | rfl | cases h
  have one_union {P : Prop} (left : a.constraint.isUnion = false)
      (right : b.constraint.isUnion = false) : P := by
    rcases Bool.or_eq_true_iff.mp h with never | never
    · rw [union never] at left
      cases left
    · rw [union never] at right
      cases right
  exact {
    written := Node.written_never
    isUnknown := nofun
    grounded := fun _ _ _ hb => absurd hb List.not_mem_nil
    hasKind := fun _ _ hb => absurd hb List.not_mem_nil
    single := one_union
    isPlain := fun hl hr => one_union (Node.isPlain_iff.mp hl).1 (Node.isPlain_iff.mp hr).1 }

omit [Library] in
omit writes continues in
theorem Node.isNever_of_plain {n : Node} (plain : n.isPlain = true) : n.isNever = false := by
  obtain ⟨c⟩ := n
  cases c <;> first | rfl | cases plain

theorem meetStep_writes : Meet.Writes (meetStep meet) := by
  intro a b ha hb
  by_cases same : a.same b = true
  · obtain rfl := (Node.Written.same_iff ha hb).mp same
    rw [meetStep_same same]
    exact .pure (.refl ha)
  rw [Bool.not_eq_true] at same
  by_cases never : (a.isNever || b.isNever) = true
  · rw [meetStep_never same never]
    exact .lift (Traced.build_lasting (.never never))
  rw [Bool.not_eq_true] at never
  by_cases union : a.constraint.isUnion = true ∨ b.constraint.isUnion = true
  · rw [meetStep_union same never union]
    exact distribute_writes writes continues ha hb union
  obtain ⟨single, single'⟩ := not_or.mp union
  rw [Bool.not_eq_true] at single single'
  have morphed {x y : Node} {steps : List Step} (hx : x.Written) (hy : y.Written)
      (plain : x.isPlain = true) (plain' : y.isPlain = true)
      (nominal : steps.map (·.nominal) = steps)
      (some_morph : a.isMorph = true ∨ b.isMorph = true) (left : a.input = x)
      (right : b.input = y) :
      Attempt.Ensures .lasting (do Traced.morph (← meet x y) steps) (Node.Met a b) fun _ =>
        True := by
    refine (writes x y hx hy).bind fun c met => .lift ?_
    have some_value := Node.isNever_of_plain (met.isPlain plain plain')
    rw [Traced.morph, some_value, if_neg Bool.false_ne_true]
    exact Traced.build_lasting
      (met.morph plain plain' nominal some_morph ⟨single, left⟩ ⟨single', right⟩)
  have input {n x : Node} {steps : List Step} (hn : n.Written) (h : n.constraint = .morph x steps) :
      x.Written ∧ x.isPlain = true ∧ steps.map (·.nominal) = steps ∧ n.input = x := by
    obtain ⟨c⟩ := n
    cases h
    exact ⟨hn.children x (List.mem_singleton_self x), hn.form.1, hn.form.2, rfl⟩
  by_cases morph : a.isMorph = true
  · obtain ⟨x, steps, left⟩ := Node.exists_morph morph
    obtain ⟨hx, plain, nominal, inside⟩ := input ha left
    by_cases morph' : b.isMorph = true
    · obtain ⟨y, others, right⟩ := Node.exists_morph morph'
      obtain ⟨hy, plain', -, inside'⟩ := input hb right
      rw [meetStep_morphs same never left right]
      exact .ite (fun _ => .throw trivial) fun _ => morphed hx hy plain plain' nominal
        (.inl morph) inside inside'
    · rw [Bool.not_eq_true] at morph'
      rw [meetStep_morph_left same never left single' morph']
      exact morphed hx hb plain (Node.isPlain_iff.mpr ⟨single', morph'⟩) nominal
        (.inl morph) inside (Node.input_of_plain morph')
  · rw [Bool.not_eq_true] at morph
    by_cases morph' : b.isMorph = true
    · obtain ⟨y, others, right⟩ := Node.exists_morph morph'
      obtain ⟨hy, plain', nominal, inside'⟩ := input hb right
      rw [meetStep_morph_right same never right single morph]
      exact morphed ha hy (Node.isPlain_iff.mpr ⟨single, morph⟩) plain' nominal (.inr morph')
        (Node.input_of_plain morph) inside'
    · rw [Bool.not_eq_true] at morph'
      rw [meetStep_plain same never single single' morph morph']
      exact conjoin_writes writes ha hb (Node.isPlain_iff.mpr ⟨single, morph⟩)
        (Node.isPlain_iff.mpr ⟨single', morph'⟩)

end

theorem meetUpTo_writes (depth : Nat) : Meet.Writes (meetUpTo depth) := by
  induction depth with
  | zero =>
    intro a b _ _ lasting
    exact absurd rfl (lasting .exhausted (List.mem_append_left _ (List.mem_singleton_self _)))
  | succ depth ih => exact meetStep_writes ih (meetUpTo_continues_freely depth)

theorem meet_written {a b c : Node} (ha : a.Written) (hb : b.Written)
    (h : (meet a b).outcome id = .ok c) : Node.Met a b c := by
  have lasts := meet_lasts ha.reduced hb.reduced
  have met := (meetUpTo_writes _ a b ha hb fun e he out => lasts (out ▸ he)).1
  rw [show (meetUpTo (Node.budget a b) a b).run.value Judging.lasting.rep = .ok c from h] at met
  exact met

end SchemaAlgebra

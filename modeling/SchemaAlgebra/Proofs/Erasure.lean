import SchemaAlgebra.Proofs.Equations
import SchemaAlgebra.Proofs.Sorting

/-!
# The algebra sees identities only

Nodes that are the same are not told apart: whatever represents them, what is made of them
is the same as what is made of the nodes without what is erased.
-/
namespace SchemaAlgebra

def Disjoint.erase (d : Disjoint) : Disjoint :=
  ⟨d.entries.map fun e => { e with left := e.left.erase, right := e.right.erase }⟩

def Disjoint.eraseOr {α β : Type} (f : α → β) : Except Disjoint α → Except Disjoint β
  | .ok a => .ok (f a)
  | .error d => .error d.erase

theorem Disjoint.eraseOr_bind {α β γ δ : Type} {f : α → γ} {g : β → δ}
    {x : Except Disjoint α} {y : Except Disjoint γ} {k : α → Except Disjoint β}
    {k' : γ → Except Disjoint δ} (first : eraseOr f x = y)
    (next : ∀ a, eraseOr g (k a) = k' (f a)) : eraseOr g (x.bind k) = y.bind k' := by
  subst first
  cases x with
  | error d => rfl
  | ok a => exact next a

theorem Disjoint.eraseOr_lift {α β : Type} {f : α → β} {rep : Node → Node} {x : Traced α}
    {y : Traced β} (same : f (x.value rep) = y.value id) :
    eraseOr f (Attempt.outcome (liftM x) rep) = Attempt.outcome (liftM y) id := by
  rw [Attempt.outcome_monadLift, Attempt.outcome_monadLift]
  exact congrArg Except.ok same

namespace Traced

variable {rep : Node → Node} (faithful : ∀ n : Node, n.same (rep n) = true)
include faithful

theorem build_erase {n m : Node} (h : n.erase = m) :
    ((build n).value rep).erase = (build m).value id := by
  rw [value_build, ← Node.same_iff.mp (faithful n), h]
  rfl

theorem never_erase : (never.value rep).erase = never.value id := build_erase faithful rfl

theorem props_erase (p : Props Node) :
    ((props p).value rep).erase = (props (p.map Node.erase)).value id :=
  build_erase faithful (Node.erase_of _)

theorem intersection_erase (ns : List Node) :
    ((intersection ns).value rep).erase = (intersection (ns.map Node.erase)).value id := by
  have joined : ((build (.of (.intersection (Sorting.dropRepeats Node.same
      (Sorting.sort Node.precedes ns))))).value rep).erase = (build (.of (.intersection
        (Sorting.dropRepeats Node.same (Sorting.sort Node.precedes (ns.map Node.erase)))))).value
          id := by
    refine build_erase faithful ?_
    rw [Node.erase_of, Sorting.sort_map Node.precedes_erase,
      Sorting.dropRepeats_map Node.same_erase]
    rfl
  match ns with
  | [] => exact joined
  | [n] => rfl
  | _ :: _ :: _ => exact joined

theorem morph_erase (input : Node) (steps : List Step) :
    ((morph input steps).value rep).erase =
      (morph input.erase (steps.map (·.nominal))).value id := by
  unfold morph
  rw [Node.isNever_erase]
  split_ifs
  · rfl
  · exact build_erase faithful (Node.erase_of _)

end Traced

namespace Pairing

def erase : Pairing → Pairing
  | merged n => merged n.erase
  | clash d => clash d.erase
  | irreducible => irreducible

theorem narrow_erase (fits : Bool) (c : Clash) (n l r : Node) :
    (narrow fits c n l r).erase = narrow fits c n.erase l.erase r.erase := by
  cases fits <;> rfl

variable [Library]

theorem literalBasis_erase (x : Literal) (b : Basis) (n l r : Node) :
    (literalBasis x b n l r).erase = literalBasis x b n.erase l.erase r.erase := by
  unfold literalBasis
  split_ifs
  · exact narrow_erase _ _ _ _ _
  · rfl

theorem fixed_erase (l r : Node) : (fixed l r).erase = fixed l.erase r.erase := by
  obtain ⟨a⟩ := l
  obtain ⟨b⟩ := r
  cases a <;> cases b <;>
    first | rfl | exact narrow_erase _ _ _ _ _ | exact literalBasis_erase _ _ _ _ _

theorem refinementAdmits_erase (x : Literal) (n : Node) :
    n.erase.constraint.refinementAdmits x = n.constraint.refinementAdmits x := by
  obtain ⟨c⟩ := n
  cases c with
  | bound r =>
    change (x.size?.map r.canonical.allows).getD false = (x.size?.map r.allows).getD false
    cases x.size? with
    | none => rfl
    | some size => exact Range.allows_canonical r size
  | _ => rfl

omit [Library] in
theorem refinedDomains_erase (n : Node) :
    n.erase.constraint.refinedDomains = n.constraint.refinedDomains := by
  obtain ⟨c⟩ := n
  cases c <;> rfl

omit [Library] in
theorem fixedDomain_erase (n : Node) :
    n.erase.constraint.fixedDomain? = n.constraint.fixedDomain? := by
  obtain ⟨c⟩ := n
  cases c <;> rfl

theorem refine_erase (kind refinement l r : Node) :
    (refine kind refinement l r).erase = refine kind.erase refinement.erase l.erase r.erase := by
  have plain : (kind.constraint.fixedDomain?.elim (clashOf .domain l r) fun d =>
        if refinement.constraint.refinedDomains.contains d then irreducible else clashOf .domain l
          r).erase =
      kind.erase.constraint.fixedDomain?.elim (clashOf .domain l.erase r.erase) fun d =>
        if refinement.erase.constraint.refinedDomains.contains d then irreducible
        else clashOf .domain l.erase r.erase := by
    rw [fixedDomain_erase, refinedDomains_erase]
    cases kind.constraint.fixedDomain? with
    | none => rfl
    | some d =>
      dsimp only [Option.elim]
      split_ifs <;> rfl
  obtain ⟨c⟩ := kind
  cases c with
  | literal x =>
    change (if refinement.constraint.refinedDomains.contains x.domain then _ else _ :
      Pairing).erase = if refinement.erase.constraint.refinedDomains.contains x.domain then _ else _
    rw [refinedDomains_erase, refinementAdmits_erase]
    split_ifs
    · exact narrow_erase _ _ _ _ _
    · rfl
  | _ => exact plain

end Pairing

/-- Intersecting nodes does not tell apart what is the same. -/
def Meet.Mirrors (rep : Node → Node) (meet meet' : Meet) : Prop :=
  ∀ l r, Disjoint.eraseOr Node.erase ((meet l r).outcome rep) = (meet' l.erase r.erase).outcome id

section

variable {rep : Node → Node} (faithful : ∀ n : Node, n.same (rep n) = true)

namespace Pairing

theorem ofAttempt_erase {x y : Attempt Node}
    (h : Disjoint.eraseOr Node.erase (x.outcome rep) = y.outcome id) :
    ((ofAttempt x).value rep).erase = (ofAttempt y).value id := by
  rw [value_ofAttempt, value_ofAttempt, ← h]
  cases x.outcome rep <;> rfl

variable {meet meet' : Meet} (met : meet.Mirrors rep meet')
  {meetProps meetProps' : Props Node → Props Node → Attempt (Props Node)}
  (hm : ∀ p q, Disjoint.eraseOr (·.map Node.erase) ((meetProps p q).outcome rep) =
    (meetProps' (p.map Node.erase) (q.map Node.erase)).outcome id)
include faithful hm

theorem refinements_erase (l r : Node) :
    ((refinements meetProps l r).value rep).erase =
      (refinements meetProps' l.erase r.erase).value id := by
  have both (p q : Props Node) : Disjoint.eraseOr Node.erase
      (Attempt.outcome (do Traced.props (← meetProps p q)) rep) =
        Attempt.outcome (do Traced.props (← meetProps' (p.map Node.erase) (q.map Node.erase)))
          id := by
    rw [Attempt.outcome_bind, Attempt.outcome_bind, ← hm]
    cases (meetProps p q).outcome rep with
    | error d => rfl
    | ok both => exact congrArg Except.ok (Traced.props_erase faithful both)
  by_cases one_kind : l.constraint.rank = r.constraint.rank ∧ 0 < l.constraint.rank ∧
    l.constraint.rank ≤ 4
  · obtain ⟨a⟩ := l
    obtain ⟨b⟩ := r
    obtain ⟨ranks, refined, small⟩ := one_kind
    rcases Constraint.refinement_of_rank refined
      small with ⟨r, rfl⟩ | ⟨m, rfl⟩ | ⟨ps, rfl⟩ | ⟨p, rfl⟩ <;>
      rcases Constraint.refinement_of_rank (ranks ▸ refined) (ranks ▸ small) with
        ⟨s, rfl⟩ | ⟨n, rfl⟩ | ⟨qs, rfl⟩ | ⟨q, rfl⟩ <;> try cases ranks
    · have canonical := Range.intersect_canonical r s
      rw [Node.erase_of, Node.erase_of]
      change Pairing.erase _ =
        Traced.value (refinements _ (.of (.bound r.canonical)) (.of (.bound s.canonical))) id
      rw [refinements_bound, refinements_bound]
      cases h : r.intersect? s <;> cases h' :
        r.canonical.intersect? s.canonical <;> rw [h, h'] at canonical
      · rfl
      · cases canonical
      · cases canonical
      · rename_i both both'
        have same : both'.canonical = both.canonical := Option.some.inj canonical
        refine congrArg merged (Traced.build_erase faithful ?_)
        rw [Node.erase_of, same]
        exact congrArg (fun r => Node.of (.bound r)) (Range.canonical_canonical both)
    · rw [Node.erase_of, Node.erase_of]
      change Pairing.erase _ = Traced.value (refinements _ (.of (.divisor m)) (.of (.divisor n))) id
      rw [refinements_divisor, refinements_divisor]
      split_ifs
      · exact congrArg merged (Traced.build_erase faithful (Node.erase_of _))
      · rfl
    · exact congrArg merged (Traced.build_erase faithful (Node.erase_of _))
    · rw [Node.erase_of, Node.erase_of]
      exact ofAttempt_erase (both p q)
  · rw [refinements_other one_kind,
      refinements_other (by simpa only [Node.rank_erase] using one_kind)]
    change Pairing.erase (if _ then _ else _) = if _ then _ else _
    rw [refinedDomains_erase, refinedDomains_erase]
    split_ifs <;> rfl

include met

theorem of_erase [Library] (l r : Node) :
    ((of meet meetProps l r).value rep).erase = (of meet' meetProps' l.erase r.erase).value id := by
  have composite (n : Node) : n.erase.constraint.isComposite = n.constraint.isComposite := by
    rw [← Constraint.isComposite_head, Node.constraint_head_erase, Constraint.isComposite_head]
  have nominal (n : Node) : n.erase.constraint.isNominal = n.constraint.isNominal := by
    rw [← Constraint.isNominal_head, Node.constraint_head_erase, Constraint.isNominal_head]
  unfold of
  simp only [Node.same_erase, composite, nominal, fixedDomain_erase]
  split_ifs
  · rfl
  · exact ofAttempt_erase (met l r)
  · rfl
  · split
    · exact fixed_erase l r
    · exact refine_erase l r l r
    · exact refine_erase r l l r
    · exact refinements_erase faithful hm l r

end Pairing

namespace Conjunction

variable {pair pair' : Node → Node → Traced Pairing}
  (hp : ∀ l r, ((pair l r).value rep).erase = (pair' l.erase r.erase).value id)
include hp

theorem firstMerge_erase (incoming : Node) (conjuncts : List Node) :
    Disjoint.eraseOr (Option.map fun (n, others) => (n.erase, others.map Node.erase))
        ((firstMerge pair incoming conjuncts).outcome rep) =
      (firstMerge pair' incoming.erase (conjuncts.map Node.erase)).outcome id := by
  induction conjuncts with
  | nil => rfl
  | cons c r ih =>
    rw [List.map_cons, firstMerge, firstMerge, Attempt.outcome_bind, Attempt.outcome_bind,
      Attempt.outcome_monadLift, Attempt.outcome_monadLift, ← hp]
    cases (pair c incoming).value rep with
    | merged n => rfl
    | clash d => rfl
    | irreducible =>
      change Disjoint.eraseOr _ (Attempt.outcome _ rep) = Attempt.outcome _ id
      dsimp only [Pairing.erase]
      rw [Attempt.outcome_bind, Attempt.outcome_bind, ← ih]
      rcases (firstMerge pair incoming r).outcome rep with d | _ | ⟨n, others⟩ <;> rfl

theorem addUpTo_erase (merges : Nat) (conjuncts : List Node) (incoming : Node) :
    Disjoint.eraseOr (List.map Node.erase) ((addUpTo pair merges conjuncts incoming).outcome rep) =
      (addUpTo pair' merges (conjuncts.map Node.erase) incoming.erase).outcome id := by
  have appended (conjuncts : List Node) (incoming : Node) :
      Disjoint.eraseOr (List.map Node.erase)
        (Attempt.outcome (pure (conjuncts ++ [incoming])) rep) =
        Attempt.outcome (pure (conjuncts.map Node.erase ++ [incoming.erase])) id := by
    simp [Disjoint.eraseOr]
  induction merges generalizing conjuncts incoming with
  | zero => exact appended conjuncts incoming
  | succ merges ih =>
    rw [addUpTo, addUpTo, Attempt.outcome_bind, Attempt.outcome_bind, ← firstMerge_erase hp]
    rcases (firstMerge pair incoming conjuncts).outcome rep with d | _ | ⟨n, others⟩
    · rfl
    · exact appended conjuncts incoming
    · exact ih others n

theorem addAll_erase (incoming conjuncts : List Node) :
    Disjoint.eraseOr (List.map Node.erase) ((addAll pair conjuncts incoming).outcome rep) =
      (addAll pair' (conjuncts.map Node.erase) (incoming.map Node.erase)).outcome id := by
  induction incoming generalizing conjuncts with
  | nil => rfl
  | cons n r ih =>
    rw [List.map_cons, addAll, addAll, Attempt.outcome_bind, Attempt.outcome_bind, add, add,
      List.length_map, ← addUpTo_erase hp]
    cases (addUpTo pair conjuncts.length conjuncts n).outcome rep with
    | error d => rfl
    | ok merged => exact ih merged

end Conjunction

end

namespace Disjoint

theorem erase_append (d e : Disjoint) : (d ++ e).erase = d.erase ++ e.erase :=
  congrArg Disjoint.mk List.map_append

theorem erase_inside (segment : String) (d : Disjoint) :
    (d.inside segment).erase = d.erase.inside segment := by
  simp [erase, inside, Function.comp_def]

theorem isEmpty_erase (d : Disjoint) : d.erase.isEmpty = d.isEmpty := by
  simp [isEmpty, erase]

end Disjoint

def Signature.erase (s : Signature Node) : Signature Node := ⟨s.key.erase, s.value.erase⟩

namespace Properties

def Draft.erase (d : Draft) : Draft := ⟨d.props.map Node.erase, d.reasons.erase⟩

namespace Draft

theorem erase_set (d : Draft) (key : String) (value : Node) (required : Bool) :
    (d.set key value required).erase = d.erase.set key value.erase required :=
  congrArg₂ Draft.mk (Props.insert_map _ _ _ _ _).symm rfl

theorem erase_refute (d : Draft) (reason : Disjoint) :
    (d.refute reason).erase = d.erase.refute reason.erase :=
  congrArg (Draft.mk _) (Disjoint.erase_append _ _)

theorem erase_presence (d : Draft) (path : List String) (l r : Node) :
    (d.presence path l r).erase = d.erase.presence path l.erase r.erase :=
  erase_refute d _

theorem finish_erase (d : Draft) (rep : Node → Node) :
    Disjoint.eraseOr (·.map Node.erase) (d.finish.outcome rep) = d.erase.finish.outcome id := by
  unfold finish
  rw [show d.erase.reasons.isEmpty = d.reasons.isEmpty from Disjoint.isEmpty_erase _]
  split_ifs <;> rfl

theorem erase_withIndex (d : Draft) (index : List (Signature Node)) :
    (d.withIndex index).erase = d.erase.withIndex (index.map Signature.erase) := rfl

end Draft

section

variable {rep : Node → Node} (faithful : ∀ n : Node, n.same (rep n) = true) {meet meet' : Meet}
  (met : meet.Mirrors rep meet')
include faithful met

theorem meetOrNever_erase (a b : Node) :
    ((meetOrNever meet a b).value rep).erase = (meetOrNever meet' a.erase b.erase).value id := by
  rw [meetOrNever, meetOrNever, Traced.value_bind, Traced.value_bind, Attempt.value_run,
    Attempt.value_run, ← met]
  cases (meet a b).outcome rep with
  | ok n => rfl
  | error d => exact Traced.never_erase faithful

theorem meetNamed_erase (d : Draft) (key : String) (a b : Node) (inLeft inRight : Bool) :
    ((meetNamed meet d key a b inLeft inRight).value rep).erase =
      (meetNamed meet' d.erase key a.erase b.erase inLeft inRight).value id := by
  rw [meetNamed, meetNamed, Traced.value_bind, Traced.value_bind, Attempt.value_run,
    Attempt.value_run, ← met]
  cases (meet a b).outcome rep with
  | ok value =>
    change Draft.erase (if _ then _ else _) = if _ then _ else _
    rw [Node.isNever_erase]
    split_ifs
    · exact Draft.erase_presence _ _ _ _
    · exact Draft.erase_set _ _ _ _
  | error inner =>
    dsimp only [Disjoint.eraseOr]
    split_ifs with neither both
    · change Draft.erase (d.set key (Traced.never.value rep) false) = d.erase.set key
        (Traced.never.value id) false
      rw [Draft.erase_set, Traced.never_erase faithful]
    · change Draft.erase (d.refute _) = d.erase.refute _
      rw [Draft.erase_refute, Disjoint.erase_inside]
    · exact Draft.erase_presence _ _ _ _

theorem meetKey_erase (p q : Props Node) (d : Draft) (key : String) :
    ((meetKey meet p q d key).value rep).erase =
      (meetKey meet' (p.map Node.erase) (q.map Node.erase) d.erase key).value id := by
  rw [meetKey, meetKey, Props.get?_map, Props.get?_map]
  rcases p.get? key with _ | ⟨a, inLeft⟩ <;> rcases q.get? key with _ | ⟨b, inRight⟩
  · rfl
  · exact Draft.erase_set _ _ _ _
  · exact Draft.erase_set _ _ _ _
  · exact meetNamed_erase faithful met d key a b inLeft inRight

theorem meetKeys_erase (p q : Props Node) (d : Draft) (keys : List String) :
    ((meetKeys meet p q d keys).value rep).erase =
      (meetKeys meet' (p.map Node.erase) (q.map Node.erase) d.erase keys).value id := by
  induction keys generalizing d with
  | nil => rfl
  | cons key r ih =>
    rw [meetKeys, meetKeys, Traced.value_bind, Traced.value_bind, ← meetKey_erase faithful met]
    exact ih _

theorem addSignature_erase (s : Signature Node) (index : List (Signature Node)) :
    ((addSignature meet s index).value rep).map Signature.erase =
      (addSignature meet' s.erase (index.map Signature.erase)).value id := by
  induction index with
  | nil => rfl
  | cons t r ih =>
    rw [List.map_cons, addSignature, addSignature]
    rw [show t.erase.key.same s.erase.key = t.key.same s.key from Node.same_erase _ _]
    split_ifs
    · rw [Traced.value_bind, Traced.value_bind]
      exact congrArg (· :: r.map Signature.erase)
        (congrArg (Signature.mk t.key.erase) (meetOrNever_erase faithful met t.value s.value))
    · rw [Traced.value_bind, Traced.value_bind]
      exact congrArg (t.erase :: ·) ih

theorem meetIndex_erase (index others : List (Signature Node)) :
    ((meetIndex meet index others).value rep).map Signature.erase =
      (meetIndex meet' (index.map Signature.erase) (others.map Signature.erase)).value id := by
  induction others generalizing index with
  | nil => rfl
  | cons s r ih =>
    rw [List.map_cons, meetIndex, meetIndex, Traced.value_bind, Traced.value_bind,
      ← addSignature_erase faithful met]
    exact ih _

omit faithful in
theorem meetItems_erase (s t : Sequence Node) (items : List Node) (reasons : Disjoint)
    (places : List Nat) :
    Prod.map (List.map Node.erase) Disjoint.erase
      ((meetItems meet s t items reasons places).value rep) =
      (meetItems meet' (s.map Node.erase) (t.map Node.erase) (items.map Node.erase) reasons.erase
        places).value id := by
  induction places generalizing items reasons with
  | nil => rfl
  | cons i r ih =>
    rw [meetItems, meetItems, Sequence.at?_map, Sequence.at?_map]
    rcases s.at? i with _ | a <;> rcases t.at? i with _ | b
    · exact ih items reasons
    · exact ih items reasons
    · exact ih items reasons
    · dsimp only [Option.map_some]
      rw [Traced.value_bind, Traced.value_bind, Attempt.value_run, Attempt.value_run, ← met]
      cases (meet a b).outcome rep with
      | ok n =>
        dsimp only [Disjoint.eraseOr]
        rw [Node.isNever_erase]
        split_ifs
        · exact (ih items _).trans (by rw [Disjoint.erase_append]; rfl)
        · exact (ih _ reasons).trans (by rw [List.map_append]; rfl)
      | error inner =>
        dsimp only [Disjoint.eraseOr]
        exact (ih items _).trans (by rw [Disjoint.erase_append, Disjoint.erase_inside])

theorem meetRest_erase (a b : Option Node) :
    ((meetRest meet a b).value rep).map Node.erase =
      (meetRest meet' (a.map Node.erase) (b.map Node.erase)).value id := by
  cases a <;> cases b
  · rfl
  · rfl
  · rfl
  · rw [Option.map_some, Option.map_some, value_meetRest, value_meetRest]
    exact congrArg some (meetOrNever_erase faithful met _ _)

theorem meetSequences_erase (s t : Sequence Node) :
    Disjoint.eraseOr (·.map Node.erase) ((meetSequences meet s t).outcome rep) =
      (meetSequences meet' (s.map Node.erase) (t.map Node.erase)).outcome id := by
  have clash : lengthsClash (s.map Node.erase) (t.map Node.erase) = lengthsClash s t := by
    simp only [lengthsClash, Sequence.fixedLength?_map, Sequence.length_items_map]
  have listed : listedLength (s.map Node.erase) (t.map Node.erase) = listedLength s t := by
    simp only [listedLength, Sequence.fixedLength?_map, Sequence.length_items_map]
  have alone (u : Sequence Node) : ((Traced.props (.ofSequence u)).value rep).erase =
      (Traced.props (.ofSequence (u.map Node.erase))).value id := Traced.props_erase faithful _
  rw [meetSequences, meetSequences, clash, listed]
  by_cases clashes : lengthsClash s t = true
  · rw [if_pos clashes, if_pos clashes]
    simp only [Attempt.outcome_bind, Attempt.outcome_monadLift, Except.bind]
    rw [← alone, ← alone]
    rfl
  · rw [if_neg clashes, if_neg clashes]
    simp only [Attempt.outcome_bind, Attempt.outcome_monadLift, Except.bind]
    have items := meetItems_erase met s t [] .none (List.range (listedLength s t))
    rw [← show Prod.map _ _ _ = (meetItems meet' (s.map Node.erase) (t.map Node.erase) [] .none
      (List.range (listedLength s t))).value id from items]
    generalize (meetItems meet s t [] .none (List.range (listedLength s t))).value rep = found
    simp only [Prod.map_fst, Prod.map_snd, Disjoint.isEmpty_erase]
    split_ifs
    · rfl
    · rw [Attempt.outcome_bind, Attempt.outcome_bind, Attempt.outcome_monadLift,
        Attempt.outcome_monadLift]
      exact congrArg (fun rest => Except.ok (Sequence.mk (found.1.map Node.erase) rest))
        (meetRest_erase faithful met s.rest t.rest)

theorem meetSequence_erase (p q : Props Node) (d : Draft) :
    ((meetSequence meet p q d).value rep).erase =
      (meetSequence meet' (p.map Node.erase) (q.map Node.erase) d.erase).value id := by
  rw [meetSequence, meetSequence,
    show (p.map Node.erase).sequence = p.sequence.map (·.map Node.erase) from rfl,
    show (q.map Node.erase).sequence = q.sequence.map (·.map Node.erase) from rfl]
  rcases p.sequence with _ | s <;> rcases q.sequence with _ | t
  · rfl
  · rfl
  · rfl
  · dsimp only [Option.map_some]
    rw [Traced.value_bind, Traced.value_bind, Attempt.value_run, Attempt.value_run,
      ← meetSequences_erase faithful met]
    cases (meetSequences meet s t).outcome rep with
    | ok both => rfl
    | error inner => exact Draft.erase_refute _ _

variable [Library]

theorem narrowKey_erase (s : Signature Node) (d : Draft) (key : String) :
    ((narrowKey meet s d key).value rep).erase =
      (narrowKey meet' s.erase d.erase key).value id := by
  rw [narrowKey, narrowKey, Traced.value_bind, Traced.value_bind,
    show s.erase.key.admits (.string key) = s.key.admits (.string key) from
      congrFun s.key.admits_erase _]
  split_ifs
  · rfl
  · rw [show d.erase.props.get? key = (d.props.get? key).map _ from Props.get?_map _ _ _]
    rcases d.props.get? key with _ | ⟨value, required⟩
    · rfl
    · dsimp only [Option.map_some]
      rw [Traced.value_bind, Traced.value_bind, Attempt.value_run, Attempt.value_run,
        show s.erase.value = s.value.erase from rfl, ← met]
      cases (meet value s.value).outcome rep with
      | ok narrowed =>
        change Draft.erase (if _ then _ else _) = if _ then _ else _
        rw [Node.isNever_erase]
        split_ifs
        · exact Draft.erase_presence _ _ _ _
        · exact Draft.erase_set _ _ _ _
      | error inner =>
        cases required with
        | true =>
          change Draft.erase (d.refute _) = d.erase.refute _
          rw [Draft.erase_refute, Disjoint.erase_inside]
        | false =>
          change Draft.erase (d.set key (Traced.never.value rep) false) =
            d.erase.set key (Traced.never.value id) false
          rw [Draft.erase_set, Traced.never_erase faithful]

theorem narrowKeys_erase (s : Signature Node) (d : Draft) (keys : List String) :
    ((narrowKeys meet s d keys).value rep).erase =
      (narrowKeys meet' s.erase d.erase keys).value id := by
  induction keys generalizing d with
  | nil => rfl
  | cons key r ih =>
    rw [narrowKeys, narrowKeys, Traced.value_bind, Traced.value_bind,
      ← narrowKey_erase faithful met]
    exact ih _

theorem narrowAll_erase (d : Draft) (index : List (Signature Node)) :
    ((narrowAll meet d index).value rep).erase =
      (narrowAll meet' d.erase (index.map Signature.erase)).value id := by
  induction index generalizing d with
  | nil => rfl
  | cons s r ih =>
    rw [List.map_cons, narrowAll, narrowAll,
      show s.erase.key.hasAlias = s.key.hasAlias from Node.hasAlias_congr s.key.erase_same,
      show d.erase.props.namedKeys = d.props.namedKeys from Props.namedKeys_map _ _]
    split_ifs
    · exact ih d
    · rw [Traced.value_bind, Traced.value_bind, ← narrowKeys_erase faithful met]
      exact ih _

omit [Library] in
omit met in
theorem refuteRequired_erase (d : Draft) :
    ((refuteRequired d).value rep).erase = (refuteRequired d.erase).value id := by
  have presences (es : List (String × Node)) (d : Draft) :
      (es.foldl (fun d e => d.presence [e.1] e.2 (Traced.never.value rep)) d).erase =
        (es.map fun e => (e.1, e.2.erase)).foldl
          (fun d e => d.presence [e.1] e.2 (Traced.never.value id)) d.erase := by
    induction es generalizing d with
    | nil => rfl
    | cons e es ih =>
      rw [List.map_cons, List.foldl_cons, List.foldl_cons, ih, Draft.erase_presence,
        Traced.never_erase faithful]
  rw [refuteRequired, refuteRequired,
    show d.erase.props.sequence.isNone = d.props.sequence.isNone from Option.isNone_map]
  split_ifs
  · rfl
  · exact presences _ _

theorem normalize_erase (p : Props Node) :
    Disjoint.eraseOr (·.map Node.erase) ((normalize meet p).outcome rep) =
      (normalize meet' (p.map Node.erase)).outcome id := by
  have index : sortedIndex (p.map Node.erase).index = (sortedIndex p.index).map Signature.erase :=
    Sorting.sort_map (fun s t => by
      change decide (s.key.erase.key < t.key.erase.key) = _
      rw [Node.key_erase, Node.key_erase]) p.index
  rw [normalize, normalize, index]
  simp only [Attempt.outcome_bind, Attempt.outcome_monadLift, Except.bind]
  rw [Draft.finish_erase, refuteRequired_erase faithful, narrowAll_erase faithful met]
  rfl

theorem meetProps_erase (p q : Props Node) :
    Disjoint.eraseOr (·.map Node.erase) ((meetProps meet p q).outcome rep) =
      (meetProps meet' (p.map Node.erase) (q.map Node.erase)).outcome id := by
  have keys : allKeys (p.map Node.erase) (q.map Node.erase) = allKeys p q := by
    rw [allKeys, allKeys, Props.namedKeys_map, Props.namedKeys_map]
  rw [outcome_meetProps, outcome_meetProps, keys,
    show (⟨.empty, .none⟩ : Draft) = Draft.erase ⟨.empty, .none⟩ from rfl,
    ← meetKeys_erase faithful met, show (p.map Node.erase).index =
      p.index.map Signature.erase from rfl,
    show (q.map Node.erase).index = q.index.map Signature.erase from rfl,
        ← meetIndex_erase faithful met,
    ← Draft.erase_withIndex, ← meetSequence_erase faithful met]
  exact Disjoint.eraseOr_bind (Draft.finish_erase _ rep) (normalize_erase faithful met)

end

end Properties

theorem reasons_erase (outcomes : List (Except Disjoint Node)) (acc : Disjoint) :
    (outcomes.map (Disjoint.eraseOr Node.erase)).foldl
      (fun acc o => match o with | .ok _ => acc | .error d => acc ++ d) acc.erase =
        (outcomes.foldl (fun acc o => match o with | .ok _ => acc | .error d => acc ++ d)
          acc).erase := by
  induction outcomes generalizing acc with
  | nil => rfl
  | cons o r ih =>
    cases o with
    | ok n => exact ih acc
    | error d =>
      rw [List.map_cons, List.foldl_cons, List.foldl_cons, ← ih, Disjoint.erase_append]
      rfl

section

variable {rep : Node → Node} (faithful : ∀ n : Node, n.same (rep n) = true) {meet meet' : Meet}
  (met : meet.Mirrors rep meet')

namespace Union

theorem flatten_erase (nodes : List Node) :
    flatten (nodes.map Node.erase) = (flatten nodes).map Node.erase := by
  have branches : (nodes.map Node.erase).flatMap (·.branches) =
      (nodes.flatMap (·.branches)).map Node.erase := by
    simp only [List.flatMap_map, List.map_flatMap, Node.branches_erase]
  have fold (ns flat : List Node) : (ns.map Node.erase).foldl
      (fun flat n => if flat.any (·.same n) then flat else flat ++ [n]) (flat.map Node.erase) =
        (ns.foldl (fun flat n => if flat.any (·.same n) then flat else flat ++ [n]) flat).map
          Node.erase := by
    induction ns generalizing flat with
    | nil => rfl
    | cons n ns ih =>
      rw [List.map_cons, List.foldl_cons, List.foldl_cons, ← ih, List.any_map,
        show (fun m : Node => m.same n.erase) ∘ Node.erase = (·.same n) from
          funext fun m => Node.same_erase m n]
      split_ifs
      · rfl
      · rw [List.map_append]
        rfl
  rw [flatten, branches]
  exact fold _ []

include met

theorem isSubtype_erase (a b : Node) :
    (isSubtype meet a b).value rep = (isSubtype meet' a.erase b.erase).value id := by
  rw [isSubtype, isSubtype, Traced.value_bind, Traced.value_bind, Attempt.value_run,
    Attempt.value_run, ← met]
  cases (meet a b).outcome rep with
  | ok n => exact (Node.same_erase n a).symm
  | error d => rfl

theorem isIncluded_erase (i j : Nat) (a b : Node) :
    (isIncluded meet i a j b).value rep = (isIncluded meet' i a.erase j b.erase).value id := by
  rw [isIncluded, isIncluded, Node.isMorph_erase]
  split_ifs
  · rfl
  · rw [Traced.value_bind, Traced.value_bind, ← isSubtype_erase met]
    cases (isSubtype meet a b).value rep <;> rfl
  · rw [Traced.value_bind, Traced.value_bind, ← isSubtype_erase met]
    cases (isSubtype meet a b).value rep with
    | false => rfl
    | true =>
      change Traced.value (do return !(← isSubtype meet b a)) rep =
        Traced.value (do return !(← isSubtype meet' _ _)) id
      rw [Traced.value_bind, Traced.value_bind, ← isSubtype_erase met]
      rfl

theorem anyIncludes_erase (i : Nat) (branch : Node) (all : List (Node × Nat)) :
    (anyIncludes meet i branch all).value rep =
      (anyIncludes meet' i branch.erase (all.map (Prod.map Node.erase id))).value id := by
  induction all with
  | nil => rfl
  | cons p r ih =>
    obtain ⟨other, j⟩ := p
    rw [List.map_cons, anyIncludes]
    change _ = (anyIncludes meet' i branch.erase ((other.erase, j) :: _)).value id
    rw [anyIncludes, Traced.value_bind, Traced.value_bind, ← isIncluded_erase met]
    split_ifs
    · rfl
    · exact ih

theorem reduce_erase (all branches : List (Node × Nat)) :
    ((reduce meet all branches).value rep).map Node.erase =
      (reduce meet' (all.map (Prod.map Node.erase id))
        (branches.map (Prod.map Node.erase id))).value id := by
  induction branches with
  | nil => rfl
  | cons p r ih =>
    obtain ⟨branch, i⟩ := p
    rw [List.map_cons]
    change _ = (reduce meet' _ ((branch.erase, i) :: _)).value id
    rw [reduce, reduce, Node.isMorph_erase]
    split_ifs
    · simp only [Traced.value_bind, Traced.value_pure]
      exact congrArg (branch.erase :: ·) ih
    · simp only [Traced.value_bind, Traced.value_pure]
      rw [← anyIncludes_erase met, ← ih]
      split_ifs <;> rfl

include faithful

theorem of_erase (nodes : List Node) :
    ((Union.of meet nodes).value rep).erase = (Union.of meet' (nodes.map Node.erase)).value id := by
  have indexed (ns : List Node) :
      (ns.map Node.erase).zipIdx = ns.zipIdx.map (Prod.map Node.erase id) := by
    rw [List.zipIdx_map]
  have kept := reduce_erase met (flatten nodes).zipIdx (flatten nodes).zipIdx
  rw [Union.of, Union.of, flatten_erase, indexed]
  simp only [Traced.value_bind]
  rw [← kept]
  have joined (ns : List Node) : ((Traced.build (.of (.union ns))).value rep).erase =
      (Traced.build (.of (.union (ns.map Node.erase)))).value id :=
    Traced.build_erase faithful (Node.erase_of _)
  match (reduce meet (flatten nodes).zipIdx (flatten nodes).zipIdx).value rep with
  | [] => exact joined []
  | [n] => rfl
  | a :: b :: r => exact joined (a :: b :: r)

end Union

include faithful met

omit faithful in
theorem meetAll_erase (ps : List (Node × Node)) :
    ((meetAll meet ps).value rep).map (Disjoint.eraseOr Node.erase) =
      (meetAll meet' (ps.map (Prod.map Node.erase Node.erase))).value id := by
  induction ps with
  | nil => rfl
  | cons p r ih =>
    obtain ⟨a, b⟩ := p
    rw [List.map_cons]
    change _ = (meetAll meet' ((a.erase, b.erase) :: _)).value id
    rw [meetAll, meetAll]
    simp only [Traced.value_bind, Attempt.value_run, Traced.value_pure, List.map_cons, met a b, ih]

theorem reunite_erase (outcomes : List (Except Disjoint Node)) :
    Disjoint.eraseOr Node.erase ((reunite meet outcomes).outcome rep) =
      (reunite meet' (outcomes.map (Disjoint.eraseOr Node.erase))).outcome id := by
  have found : (outcomes.map (Disjoint.eraseOr Node.erase)).filterMap
      (fun o => o.toOption.filter (!·.isNever)) =
        (outcomes.filterMap fun o => o.toOption.filter (!·.isNever)).map Node.erase := by
    rw [List.filterMap_map, List.map_filterMap]
    refine List.filterMap_congr fun o _ => ?_
    cases o with
    | error d => rfl
    | ok n =>
      cases h : n.isNever <;> simp [Except.toOption, Disjoint.eraseOr, Option.filter,
        Node.isNever_erase, h]
  rw [reunite, reunite, found, List.isEmpty_map]
  split_ifs
  · exact congrArg Except.error (reasons_erase outcomes .none).symm
  · exact Disjoint.eraseOr_lift (Union.of_erase faithful met _)

theorem distribute_erase (l r : Node) :
    Disjoint.eraseOr Node.erase ((distribute meet l r).outcome rep) =
      (distribute meet' l.erase r.erase).outcome id := by
  have operands : operands l.erase r.erase = (operands l r).map
      (Prod.map Node.erase Node.erase) := by
    have crossed (outer inner : List Node) :
        (outer.map Node.erase).flatMap (fun a => (inner.map Node.erase).map (a, ·)) =
          (outer.flatMap fun a => inner.map (a, ·)).map (Prod.map Node.erase Node.erase) := by
      simp only [List.flatMap_map, List.map_flatMap, List.map_map, Function.comp_def, Prod.map]
    unfold SchemaAlgebra.operands
    rw [Node.key_erase, Node.key_erase, Node.branches_erase, Node.branches_erase]
    split_ifs <;> exact crossed _ _
  rw [distribute_eq, distribute_eq, Attempt.outcome_bind, Attempt.outcome_bind,
    Attempt.outcome_monadLift, Attempt.outcome_monadLift, operands, ← meetAll_erase met]
  exact reunite_erase faithful met _

variable [Library]

theorem conjoin_erase (l r : Node) :
    Disjoint.eraseOr Node.erase ((conjoin meet l r).outcome rep) =
      (conjoin meet' l.erase r.erase).outcome id := by
  rw [conjoin, conjoin, Attempt.outcome_bind, Attempt.outcome_bind, Node.conjuncts_erase,
    Node.conjuncts_erase]
  refine Disjoint.eraseOr_bind (Conjunction.addAll_erase ?_ r.conjuncts l.conjuncts)
    fun children => ?_
  · exact Pairing.of_erase faithful met (Properties.meetProps_erase faithful met)
  · exact Disjoint.eraseOr_lift (Traced.intersection_erase faithful children)

theorem meetStep_erase (l r : Node) :
    Disjoint.eraseOr Node.erase ((meetStep meet l r).outcome rep) =
      (meetStep meet' l.erase r.erase).outcome id := by
  have morphed (a b : Node) (steps : List Step) :
      Disjoint.eraseOr Node.erase (Attempt.outcome (do Traced.morph (← meet a b) steps) rep) =
        Attempt.outcome (do Traced.morph (← meet' a.erase b.erase) (steps.map (·.nominal)))
          id := by
    rw [Attempt.outcome_bind, Attempt.outcome_bind]
    exact Disjoint.eraseOr_bind (met a b) fun n =>
      Disjoint.eraseOr_lift (Traced.morph_erase faithful n steps)
  by_cases same : l.same r = true
  · rw [meetStep_same same, meetStep_same (Node.same_erase l r ▸ same)]
    rfl
  rw [Bool.not_eq_true] at same
  have same' : l.erase.same r.erase = false := Node.same_erase l r ▸ same
  by_cases never : (l.isNever || r.isNever) = true
  · rw [meetStep_never same never,
      meetStep_never same' (by rwa [Node.isNever_erase, Node.isNever_erase])]
    exact congrArg Except.ok (Traced.never_erase faithful)
  rw [Bool.not_eq_true] at never
  have never' : (l.erase.isNever || r.erase.isNever) = false := by
    rwa [Node.isNever_erase, Node.isNever_erase]
  have isUnion (n : Node) : n.erase.constraint.isUnion = n.constraint.isUnion := by
    rw [← Constraint.isUnion_head, Node.constraint_head_erase, Constraint.isUnion_head]
  by_cases union : l.constraint.isUnion = true ∨ r.constraint.isUnion = true
  · rw [meetStep_union same never union, meetStep_union same' never' (by rwa [isUnion, isUnion])]
    exact distribute_erase faithful met l r
  obtain ⟨single, single'⟩ := not_or.mp union
  rw [Bool.not_eq_true] at single single'
  by_cases morph : l.isMorph = true
  · obtain ⟨a, steps, hl⟩ := Node.exists_morph morph
    have hl' : l.erase.constraint = .morph a.erase (steps.map (·.nominal)) := by
      rw [Node.erase_constraint, hl]; rfl
    by_cases morph' : r.isMorph = true
    · obtain ⟨b, others, hr⟩ := Node.exists_morph morph'
      have hr' : r.erase.constraint = .morph b.erase (others.map (·.nominal)) := by
        rw [Node.erase_constraint, hr]; rfl
      have names (steps : List Step) :
          (steps.map (·.nominal)).map Step.name = steps.map Step.name := by
        simp [Step.nominal, Step.name, Function.comp_def]
      rw [meetStep_morphs same never hl hr, meetStep_morphs same' never' hl' hr', names, names]
      split_ifs
      · rfl
      · exact morphed a b steps
    · rw [Bool.not_eq_true] at morph'
      rw [meetStep_morph_left same never hl single' morph', meetStep_morph_left same' never' hl'
        (by rwa [isUnion]) (by rwa [Node.isMorph_erase])]
      exact morphed a r steps
  · rw [Bool.not_eq_true] at morph
    by_cases morph' : r.isMorph = true
    · obtain ⟨b, others, hr⟩ := Node.exists_morph morph'
      have hr' : r.erase.constraint = .morph b.erase (others.map (·.nominal)) := by
        rw [Node.erase_constraint, hr]; rfl
      rw [meetStep_morph_right same never hr single morph, meetStep_morph_right same' never' hr'
        (by rwa [isUnion]) (by rwa [Node.isMorph_erase])]
      exact morphed l b others
    · rw [Bool.not_eq_true] at morph'
      rw [meetStep_plain same never single single' morph morph', meetStep_plain same' never'
        (by rwa [isUnion]) (by rwa [isUnion]) (by rwa [Node.isMorph_erase])
          (by rwa [Node.isMorph_erase])]
      exact conjoin_erase faithful met l r

end

variable [Library]

theorem meetUpTo_erase {rep : Node → Node} (faithful : ∀ n : Node, n.same (rep n) = true)
    (depth : Nat) : Meet.Mirrors rep (meetUpTo depth) (meetUpTo depth) := by
  induction depth with
  | zero => exact fun l r => congrArg Except.ok (Traced.intersection_erase faithful [l, r])
  | succ depth ih => exact meetStep_erase faithful ih

/-- Intersecting nodes is intersecting what is left of them without what is erased. -/
theorem meet_erase {rep : Node → Node} (faithful : ∀ n : Node, n.same (rep n) = true) :
    Meet.Mirrors rep meet meet := by
  intro l r
  have budget : Node.budget l.erase r.erase = Node.budget l r := by
    rw [Node.budget, Node.budget, Node.size_congr l.erase_same, Node.size_congr r.erase_same]
  rw [meet, meet, budget]
  exact meetUpTo_erase faithful _ l r

end SchemaAlgebra

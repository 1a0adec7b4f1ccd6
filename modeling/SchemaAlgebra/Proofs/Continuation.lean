import SchemaAlgebra.Proofs.Equations

/-!
# Larger budgets

A larger budget changes nothing if the smaller one does not run out.
-/
namespace SchemaAlgebra

/-- The budget runs out, whatever is given for the nodes that are asked for. -/
inductive Traced.Exhausts {α : Type} (given : Node → Node → Prop) : Traced α → Prop
  | here (next : Traced α) : Exhausts given (.noted .exhausted next)
  | noted (e : Event) {next : Traced α} (h : Exhausts given next) : Exhausts given (.noted e next)
  | asks (n : Node) {next : Node → Traced α} (h : ∀ m, given n m → Exhausts given (next m)) :
    Exhausts given (.asks n next)

/-- The second computation is the same as the first, unless the budget of the first runs out,
whatever is given for the nodes that they ask for. -/
inductive Traced.Continues {α : Type} (given : Node → Node → Prop) :
    Traced α → Traced α → Prop
  | done (a : α) : Continues given (.done a) (.done a)
  | exhausted {x : Traced α} (h : x.Exhausts given) (y : Traced α) : Continues given x y
  | noted (e : Event) {next next' : Traced α} (h : Continues given next next') :
    Continues given (.noted e next) (.noted e next')
  | asks (n : Node) {next next' : Node → Traced α}
    (h : ∀ m, given n m → Continues given (next m) (next' m)) :
    Continues given (.asks n next) (.asks n next')

def Attempt.Continues {α : Type} (given : Node → Node → Prop) (x y : Attempt α) : Prop :=
  Traced.Continues given x.run y.run

variable {α β : Type} {given : Node → Node → Prop}

namespace Traced.Exhausts

theorem bind {x : Traced α} (h : x.Exhausts given) (f : α → Traced β) :
    (x >>= f).Exhausts given := by
  induction h with
  | here next => exact .here _
  | noted e _ ih => exact .noted e ih
  | asks n _ ih => exact .asks n ih

theorem mono {given' : Node → Node → Prop} (fewer : ∀ n m, given' n m → given n m)
    {x : Traced α} (h : x.Exhausts given) : x.Exhausts given' := by
  induction h with
  | here next => exact .here next
  | noted e _ ih => exact .noted e ih
  | asks n _ ih => exact .asks n fun m hm => ih m (fewer n m hm)

theorem iff_mem {rep : Node → Node} {x : Traced α} : x.Exhausts (rep · = ·) ↔
    .exhausted ∈ x.trace rep := by
  refine ⟨fun h => ?_, fun h => ?_⟩
  · induction h with
    | here next => exact List.mem_cons_self
    | noted e _ ih => exact List.mem_cons_of_mem e ih
    | asks n _ ih => exact List.mem_cons_of_mem _ (ih _ rfl)
  · induction x with
    | done a => cases h
    | noted e next ih =>
      rcases List.mem_cons.mp h with rfl | h
      · exact .here next
      · exact .noted e (ih h)
    | asks n next ih =>
      rcases List.mem_cons.mp h with h | h
      · cases h
      · exact .asks n fun m hm => hm ▸ ih (rep n) h

end Traced.Exhausts

namespace Traced.Continues

theorem refl (x : Traced α) : Continues given x x := by
  induction x with
  | done a => exact .done a
  | noted e next ih => exact .noted e ih
  | asks n next ih => exact .asks n fun m _ => ih m

theorem bind {x y : Traced α} {f g : α → Traced β} (first : Continues given x y)
    (next : ∀ a, Continues given (f a) (g a)) : Continues given (x >>= f) (y >>= g) := by
  induction first with
  | done a => exact next a
  | exhausted lost y => exact .exhausted (lost.bind f) _
  | noted e _ ih => exact .noted e ih
  | asks n _ ih => exact .asks n ih

theorem map {x y : Traced α} (h : Continues given x y) (f : α → β) :
    Continues given (f <$> x) (f <$> y) :=
  h.bind fun _ => refl _

theorem ite {c : Prop} [Decidable c] {x y x' y' : Traced α} (yes : Continues given x x')
    (no : Continues given y y') : Continues given (if c then x else y) (if c then x' else y') := by
  split_ifs
  · exact yes
  · exact no

theorem mono {given' : Node → Node → Prop} (fewer : ∀ n m, given' n m → given n m)
    {x y : Traced α} (h : Continues given x y) : Continues given' x y := by
  induction h with
  | done a => exact .done a
  | exhausted lost y => exact .exhausted (lost.mono fewer) y
  | noted e _ ih => exact .noted e ih
  | asks n _ ih => exact .asks n fun m hm => ih m (fewer n m hm)

theorem trace_eq {rep : Node → Node} {x y : Traced α} (h : Continues (rep · = ·) x y)
    (lasting : Event.exhausted ∉ x.trace rep) : y.trace rep = x.trace rep := by
  induction h with
  | done a => rfl
  | exhausted lost y => exact absurd (Exhausts.iff_mem.mp lost) lasting
  | noted e _ ih => exact congrArg (e :: ·) (ih fun h => lasting (List.mem_cons_of_mem e h))
  | asks n _ ih =>
    exact congrArg (.built (rep n) :: ·) (ih _ rfl fun h => lasting (List.mem_cons_of_mem _ h))

theorem value_eq {rep : Node → Node} {x y : Traced α} (h : Continues (rep · = ·) x y)
    (lasting : Event.exhausted ∉ x.trace rep) : y.value rep = x.value rep := by
  induction h with
  | done a => rfl
  | exhausted lost y => exact absurd (Exhausts.iff_mem.mp lost) lasting
  | noted e _ ih => exact ih fun h => lasting (List.mem_cons_of_mem e h)
  | asks n _ ih => exact ih _ rfl fun h => lasting (List.mem_cons_of_mem _ h)

theorem symm {rep : Node → Node} {x y : Traced α} (h : Continues (rep · = ·) x y)
    (lasting : Event.exhausted ∉ x.trace rep) : Continues (rep · = ·) y x := by
  induction h with
  | done a => exact .done a
  | exhausted lost y => exact absurd (Exhausts.iff_mem.mp lost) lasting
  | noted e _ ih => exact .noted e (ih fun h => lasting (List.mem_cons_of_mem e h))
  | asks n _ ih =>
    exact .asks n fun m hm => ih m hm fun h => lasting (List.mem_cons_of_mem _ (hm.symm ▸ h))

end Traced.Continues

namespace Attempt.Continues

theorem refl (x : Attempt α) : Continues given x x := Traced.Continues.refl _

theorem bind {x y : Attempt α} {f g : α → Attempt β} (first : Continues given x y)
    (next : ∀ a, Continues given (f a) (g a)) : Continues given (x >>= f) (y >>= g) := by
  refine Traced.Continues.bind first fun o => ?_
  cases o with
  | ok a => exact next a
  | error d => exact .refl _

theorem lift {x y : Traced α} (h : Traced.Continues given x y) :
    Continues given (ExceptT.lift x) (ExceptT.lift y) := h.map _

theorem ite {c : Prop} [Decidable c] {x y x' y' : Attempt α} (yes : Continues given x x')
    (no : Continues given y y') : Continues given (if c then x else y) (if c then x' else y') := by
  split_ifs
  · exact yes
  · exact no

theorem run_bind {x y : Attempt α} {f g : Except Disjoint α → Traced β}
    (h : Continues given x y) (next : ∀ o, Traced.Continues given (f o) (g o)) :
    Traced.Continues given (x.run >>= f) (y.run >>= g) :=
  Traced.Continues.bind h next

end Attempt.Continues

def Meet.Continues (given : Node → Node → Prop) (meet meet' : Meet) : Prop :=
  ∀ l r, Attempt.Continues given (meet l r) (meet' l r)

section

variable {meet meet' : Meet}

namespace Pairing

theorem ofAttempt_continues {x y : Attempt Node} (h : Attempt.Continues given x y) :
    Traced.Continues given (ofAttempt x) (ofAttempt y) :=
  h.run_bind fun _ => .refl _

variable {meetProps meetProps' : Props Node → Props Node → Attempt (Props Node)}
  (hp : ∀ p q, Attempt.Continues given (meetProps p q) (meetProps' p q))
include hp

theorem refinements_continues (l r : Node) :
    Traced.Continues given (refinements meetProps l r) (refinements meetProps' l r) := by
  unfold refinements
  split
  · exact .refl _
  · exact .refl _
  · exact .refl _
  · exact ofAttempt_continues ((hp _ _).bind fun _ => .refl _)
  · exact .refl _

theorem of_continues [Library] (met : meet.Continues given meet') (l r : Node) :
    Traced.Continues given (of meet meetProps l r) (of meet' meetProps' l r) := by
  refine .ite (.refl _) (.ite (ofAttempt_continues (met l r)) (.ite (.refl _) ?_))
  split
  · exact .refl _
  · exact .refl _
  · exact .refl _
  · exact refinements_continues hp l r

end Pairing

namespace Conjunction

variable {pair pair' : Node → Node → Traced Pairing}
  (hp : ∀ l r, Traced.Continues given (pair l r) (pair' l r))
include hp

theorem firstMerge_continues (incoming : Node) (conjuncts : List Node) :
    Attempt.Continues given (firstMerge pair incoming conjuncts)
      (firstMerge pair' incoming conjuncts) := by
  induction conjuncts with
  | nil => exact .refl _
  | cons c r ih =>
    refine Attempt.Continues.bind (.lift (hp c incoming)) fun p => ?_
    cases p with
    | irreducible => exact ih.bind fun _ => .refl _
    | _ => exact .refl _

theorem addUpTo_continues (merges : Nat) (conjuncts : List Node) (incoming : Node) :
    Attempt.Continues given (addUpTo pair merges conjuncts incoming)
      (addUpTo pair' merges conjuncts incoming) := by
  induction merges generalizing conjuncts incoming with
  | zero => exact .refl _
  | succ merges ih =>
    refine (firstMerge_continues hp incoming conjuncts).bind fun o => ?_
    cases o with
    | none => exact .refl _
    | some found => exact ih found.2 found.1

theorem addAll_continues (incoming conjuncts : List Node) :
    Attempt.Continues given (addAll pair conjuncts incoming) (addAll pair' conjuncts incoming) := by
  induction incoming generalizing conjuncts with
  | nil => exact .refl _
  | cons n r ih => exact (addUpTo_continues hp _ conjuncts n).bind fun merged => ih merged

end Conjunction

namespace Properties

variable (met : meet.Continues given meet')
include met

theorem meetOrNever_continues (a b : Node) :
    Traced.Continues given (meetOrNever meet a b) (meetOrNever meet' a b) :=
  (met a b).run_bind fun _ => .refl _

theorem meetKeys_continues (p q : Props Node) (keys : List String) (d : Draft) :
    Traced.Continues given (meetKeys meet p q d keys) (meetKeys meet' p q d keys) := by
  induction keys generalizing d with
  | nil => exact .refl _
  | cons key r ih =>
    refine Traced.Continues.bind ?_ ih
    unfold meetKey
    split
    · exact (met _ _).run_bind fun _ => .refl _
    all_goals exact .refl _

theorem meetIndex_continues (others index : List (Signature Node)) :
    Traced.Continues given (meetIndex meet index others) (meetIndex meet' index others) := by
  have added (s : Signature Node) (index : List (Signature Node)) :
      Traced.Continues given (addSignature meet s index) (addSignature meet' s index) := by
    induction index with
    | nil => exact .refl _
    | cons t r ih =>
      unfold addSignature
      split_ifs
      · exact (meetOrNever_continues met t.value s.value).bind fun _ => .refl _
      · exact ih.bind fun _ => .refl _
  induction others generalizing index with
  | nil => exact .refl _
  | cons s r ih => exact (added s index).bind ih

theorem meetItems_continues (s t : Sequence Node) (positions : List Nat) (items : List Node)
    (reasons : Disjoint) :
    Traced.Continues given (meetItems meet s t items reasons positions)
      (meetItems meet' s t items reasons positions) := by
  induction positions generalizing items reasons with
  | nil => exact .refl _
  | cons i r ih =>
    unfold meetItems
    split
    · refine (met _ _).run_bind fun o => ?_
      cases o with
      | error inner => exact ih _ _
      | ok n =>
        exact .ite (ih _ _) (ih _ _)
    · exact ih _ _

theorem meetSequence_continues (p q : Props Node) (d : Draft) :
    Traced.Continues given (meetSequence meet p q d) (meetSequence meet' p q d) := by
  have rest (a b : Option Node) :
      Traced.Continues given (meetRest meet a b) (meetRest meet' a b) := by
    unfold meetRest
    split
    · exact (meetOrNever_continues met _ _).map _
    · exact .refl _
  have sequences (s t : Sequence Node) :
      Attempt.Continues given (meetSequences meet s t) (meetSequences meet' s t) := by
    unfold meetSequences
    split_ifs
    · exact .refl _
    · refine Attempt.Continues.bind (.lift (meetItems_continues met s t _ [] .none))
        fun found => ?_
      exact .ite (.refl _) (Attempt.Continues.bind (.lift (rest s.rest t.rest)) fun _ => .refl _)
  unfold meetSequence
  split
  · exact (sequences _ _).run_bind fun _ => .refl _
  · exact .refl _

variable [Library]

theorem normalize_continues (p : Props Node) :
    Attempt.Continues given (normalize meet p) (normalize meet' p) := by
  have key (s : Signature Node) (d : Draft) (key : String) :
      Traced.Continues given (narrowKey meet s d key) (narrowKey meet' s d key) := by
    refine (Traced.Continues.refl _).bind fun _ => ?_
    split_ifs
    · exact .refl _
    · split
      · exact .refl _
      · exact (met _ _).run_bind fun _ => .refl _
  have keys (s : Signature Node) (names : List String) (d : Draft) :
      Traced.Continues given (narrowKeys meet s d names) (narrowKeys meet' s d names) := by
    induction names generalizing d with
    | nil => exact .refl _
    | cons name r ih => exact (key s d name).bind ih
  have all (index : List (Signature Node)) (d : Draft) :
      Traced.Continues given (narrowAll meet d index) (narrowAll meet' d index) := by
    induction index generalizing d with
    | nil => exact .refl _
    | cons s r ih =>
      unfold narrowAll
      split_ifs
      · exact ih d
      · exact (keys s _ d).bind ih
  exact Attempt.Continues.bind (.lift (all _ _)) fun _ => .refl _

theorem meetProps_continues (p q : Props Node) :
    Attempt.Continues given (meetProps meet p q) (meetProps meet' p q) := by
  refine Attempt.Continues.bind (.lift (meetKeys_continues met p q _ _)) fun named => ?_
  refine Attempt.Continues.bind (.lift (meetIndex_continues met _ _)) fun index => ?_
  refine Attempt.Continues.bind (.lift (meetSequence_continues met p q _)) fun d => ?_
  exact (Attempt.Continues.refl _).bind fun both => normalize_continues met both

end Properties

namespace Union

variable (met : meet.Continues given meet')
include met

theorem isSubtype_continues (a b : Node) :
    Traced.Continues given (isSubtype meet a b) (isSubtype meet' a b) :=
  (met a b).run_bind fun _ => .refl _

theorem reduce_continues (all branches : List (Node × Nat)) :
    Traced.Continues given (reduce meet all branches) (reduce meet' all branches) := by
  have subtype := isSubtype_continues met
  have included (i j : Nat) (branch other : Node) :
      Traced.Continues given (isIncluded meet i branch j other)
        (isIncluded meet' i branch j other) := by
    refine .ite (.refl _) ((subtype branch other).bind fun _ => .ite (.refl _) (.ite (.refl _) ?_))
    exact (subtype other branch).bind fun _ => .refl _
  have any (i : Nat) (branch : Node) (others : List (Node × Nat)) :
      Traced.Continues given (anyIncludes meet i branch others)
        (anyIncludes meet' i branch others) := by
    induction others with
    | nil => exact .refl _
    | cons o r ih =>
      exact (included i o.2 branch o.1).bind fun _ => .ite (.refl _) ih
  induction branches with
  | nil => exact .refl _
  | cons b r ih =>
    refine .ite ((Traced.Continues.refl _).bind fun _ => ih.bind fun _ => .refl _) ?_
    exact (any b.2 b.1 all).bind fun _ => ih.bind fun _ => .refl _

theorem of_continues (nodes : List Node) :
    Traced.Continues given (Union.of meet nodes) (Union.of meet' nodes) :=
  (reduce_continues met _ _).bind fun _ => .refl _

theorem determinate_continues (nodes : List Node) :
    Traced.Continues given (determinate meet nodes) (determinate meet' nodes) := by
  have overlap (a b : Node) : Traced.Continues given (overlaps meet a b) (overlaps meet' a b) :=
    (met _ _).run_bind fun _ => .refl _
  have first (ps : List (Node × Node)) :
      Traced.Continues given (firstOverlap? meet ps) (firstOverlap? meet' ps) := by
    induction ps with
    | nil => exact .refl _
    | cons p r ih => exact .ite ((overlap p.1 p.2).bind fun _ => .ite (.refl _) ih) ih
  exact (of_continues met nodes).bind fun _ => (first _).bind fun _ => .refl _

end Union

section

variable (met : meet.Continues given meet')
include met

theorem distribute_continues (l r : Node) :
    Attempt.Continues given (distribute meet l r) (distribute meet' l r) := by
  have all (ps : List (Node × Node)) :
      Traced.Continues given (meetAll meet ps) (meetAll meet' ps) := by
    induction ps with
    | nil => exact .refl _
    | cons p r ih => exact (met p.1 p.2).run_bind fun _ => ih.bind fun _ => .refl _
  rw [distribute_eq, distribute_eq]
  refine Attempt.Continues.bind (.lift (all _)) fun outcomes => ?_
  exact .ite (.refl _) (.lift (Union.of_continues met _))

theorem meetStep_continues [Library] : Meet.Continues given (meetStep meet) (meetStep meet') := by
  intro l r
  refine .ite (.refl _) (.ite (.refl _) ?_)
  split
  · exact distribute_continues met l r
  · exact distribute_continues met l r
  · exact .ite (.refl _) ((met _ _).bind fun _ => .refl _)
  · exact (met _ _).bind fun _ => .refl _
  · exact (met _ _).bind fun _ => .refl _
  · have pair := Pairing.of_continues (Properties.meetProps_continues met) met
    exact (Conjunction.addAll_continues pair r.conjuncts l.conjuncts).bind fun _ => .refl _

end

end

theorem meetUpTo_continues [Library] {depth deeper : Nat} (more : depth ≤ deeper) :
    Meet.Continues given (meetUpTo depth) (meetUpTo deeper) := by
  induction depth generalizing deeper with
  | zero =>
    exact fun l r => .exhausted (.here _) _
  | succ depth ih =>
    obtain ⟨deeper, rfl⟩ :=
      Nat.exists_eq_add_of_le' (Nat.lt_of_lt_of_le (Nat.succ_pos depth) more)
    exact meetStep_continues (ih (by omega))

end SchemaAlgebra

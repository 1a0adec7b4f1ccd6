import SchemaAlgebra.Proofs.Equations

/-!
# Adding conjuncts in either order

Conjuncts that stay side by side on each side are merged with those of the other side one
by one. What is merged stays beside whatever one of the two merged conjuncts stays beside,
so it does not matter which side is added to the other.
-/
namespace SchemaAlgebra.Conjunction

variable {pair : Node → Node → Traced Pairing} {rep : Node → Node}

section

variable {before behind conjuncts : List Node} {c incoming n : Node} {d : Disjoint}

theorem firstMerge_irreducible
    (h : ∀ c ∈ conjuncts, (pair c incoming).value rep = .irreducible) :
    (firstMerge pair incoming conjuncts).outcome rep = .ok none := by
  induction conjuncts with
  | nil => rfl
  | cons c r ih =>
    rw [List.forall_mem_cons] at h
    rw [firstMerge, Attempt.outcome_bind, Attempt.outcome_monadLift, h.1, Except.bind,
      Attempt.outcome_bind, ih h.2]
    rfl

theorem firstMerge_clash (h : ∀ c ∈ before, (pair c incoming).value rep = .irreducible)
    (clash : (pair c incoming).value rep = .clash d) :
    (firstMerge pair incoming (before ++ c :: behind)).outcome rep = .error d := by
  induction before with
  | nil =>
    rw [List.nil_append, firstMerge, Attempt.outcome_bind, Attempt.outcome_monadLift, clash]
    rfl
  | cons b r ih =>
    rw [List.forall_mem_cons] at h
    rw [List.cons_append, firstMerge, Attempt.outcome_bind, Attempt.outcome_monadLift, h.1,
      Except.bind, Attempt.outcome_bind, ih h.2]
    rfl

theorem firstMerge_merged (h : ∀ c ∈ before, (pair c incoming).value rep = .irreducible)
    (merged : (pair c incoming).value rep = .merged n) :
    (firstMerge pair incoming (before ++ c :: behind)).outcome rep =
      .ok (some (n, before ++ behind)) := by
  induction before with
  | nil =>
    rw [List.nil_append, firstMerge, Attempt.outcome_bind, Attempt.outcome_monadLift, merged]
    rfl
  | cons b r ih =>
    rw [List.forall_mem_cons] at h
    rw [List.cons_append, firstMerge, Attempt.outcome_bind, Attempt.outcome_monadLift, h.1,
      Except.bind, Attempt.outcome_bind, ih h.2]
    rfl

theorem add_irreducible (h : ∀ c ∈ conjuncts, (pair c incoming).value rep = .irreducible) :
    (add pair conjuncts incoming).outcome rep = .ok (conjuncts ++ [incoming]) := by
  cases conjuncts with
  | nil => rfl
  | cons c r =>
    rw [add, List.length_cons, addUpTo, Attempt.outcome_bind, firstMerge_irreducible h]
    rfl

theorem add_clash (h : ∀ c ∈ before, (pair c incoming).value rep = .irreducible)
    (clash : (pair c incoming).value rep = .clash d) :
    (add pair (before ++ c :: behind) incoming).outcome rep = .error d := by
  rw [add, List.length_append, List.length_cons, ← Nat.add_assoc, addUpTo, Attempt.outcome_bind,
    firstMerge_clash h clash]
  rfl

theorem add_merged (h : ∀ c ∈ before, (pair c incoming).value rep = .irreducible)
    (merged : (pair c incoming).value rep = .merged n) :
    (add pair (before ++ c :: behind) incoming).outcome rep =
      (add pair (before ++ behind) n).outcome rep := by
  rw [add, List.length_append, List.length_cons, ← Nat.add_assoc, addUpTo, Attempt.outcome_bind,
    firstMerge_merged h merged, add, List.length_append]
  rfl

/-- The first conjunct that the incoming one reduces with, if there is one. -/
theorem exists_reducible (pair : Node → Node → Traced Pairing) (rep : Node → Node)
    (conjuncts : List Node) (incoming : Node) :
    (∀ c ∈ conjuncts, (pair c incoming).value rep = .irreducible) ∨
      ∃ before c behind, conjuncts = before ++ c :: behind ∧
        (∀ c ∈ before, (pair c incoming).value rep = .irreducible) ∧
          (pair c incoming).value rep ≠ .irreducible := by
  induction conjuncts with
  | nil => exact .inl (List.forall_mem_nil _)
  | cons c r ih =>
    by_cases irreducible : (pair c incoming).value rep = .irreducible
    · rcases ih with all | ⟨before, b, behind, rfl, h, reducible⟩
      · exact .inl (List.forall_mem_cons.mpr ⟨irreducible, all⟩)
      · exact .inr ⟨c :: before, b, behind, rfl, List.forall_mem_cons.mpr ⟨irreducible, h⟩,
          reducible⟩
    · exact .inr ⟨[], c, r, rfl, List.forall_mem_nil _, irreducible⟩

theorem add_cases (pair : Node → Node → Traced Pairing) (rep : Node → Node)
    (conjuncts : List Node) (incoming : Node) :
    ((∀ c ∈ conjuncts, (pair c incoming).value rep = .irreducible) ∧
      (add pair conjuncts incoming).outcome rep = .ok (conjuncts ++ [incoming])) ∨
    (∃ before c behind d, conjuncts = before ++ c :: behind ∧
      (∀ c ∈ before, (pair c incoming).value rep = .irreducible) ∧
        (pair c incoming).value rep = .clash d ∧
        (add pair conjuncts incoming).outcome rep = .error d) ∨
    ∃ before c behind n, conjuncts = before ++ c :: behind ∧
      (∀ c ∈ before, (pair c incoming).value rep = .irreducible) ∧
        (pair c incoming).value rep = .merged n ∧
        (add pair conjuncts incoming).outcome rep =
          (add pair (before ++ behind) n).outcome rep := by
  rcases exists_reducible pair rep conjuncts
    incoming with all | ⟨before, c, behind, rfl, h, reducible⟩
  · exact .inl ⟨all, add_irreducible all⟩
  · cases found : (pair c incoming).value rep with
    | irreducible => exact absurd found reducible
    | clash d => exact .inr (.inl ⟨before, c, behind, d, rfl, h, found, add_clash h found⟩)
    | merged n => exact .inr (.inr ⟨before, c, behind, n, rfl, h, found, add_merged h found⟩)

end

theorem outcome_addAll_cons (conjuncts : List Node) (n : Node) (r : List Node) :
    (addAll pair conjuncts (n :: r)).outcome rep =
      ((add pair conjuncts n).outcome rep).bind fun merged =>
        (addAll pair merged r).outcome rep := by
  rw [addAll, Attempt.outcome_bind]

theorem outcome_addAll_append (conjuncts first second : List Node) :
    (addAll pair conjuncts (first ++ second)).outcome rep =
      ((addAll pair conjuncts first).outcome rep).bind fun merged =>
        (addAll pair merged second).outcome rep := by
  induction first generalizing conjuncts with
  | nil => rfl
  | cons n r ih =>
    rw [List.cons_append, outcome_addAll_cons, outcome_addAll_cons]
    cases (add pair conjuncts n).outcome rep with
    | error d => rfl
    | ok merged => exact ih merged

/-- The same node is in the one list of conjuncts and not in the other, in a place that nothing is
added before. -/
def Within (x : Node) (before : List Node) : Except Disjoint (List Node) →
    Except Disjoint (List Node) → Prop
  | .ok with_, .ok without =>
    ∃ first second, first.Sublist before ∧ without = first ++ second ∧
      with_ = first ++ x :: second
  | .error d, .error e => d = e
  | _, _ => False

theorem Within.mono {x : Node} {before before' : List Node} {l r : Except Disjoint (List Node)}
    (h : Within x before l r) (more : before.Sublist before') : Within x before' l r := by
  cases l <;> cases r
  · exact h
  · exact h
  · exact h
  · obtain ⟨first, second, sub, same⟩ := h
    exact ⟨first, second, sub.trans more, same⟩

/-- The two sides are added to one another with the same result, up to the order, or there is a
reason why not for both. -/
def Agree : Except Disjoint (List Node) → Except Disjoint (List Node) → Prop
  | .ok l, .ok r => l.Perm r
  | .error d, .error e => d.isEmpty = false ∧ e.isEmpty = false
  | _, _ => False

/-- Pairs that reduce in the same way in either order. -/
def Alike : Pairing → Pairing → Prop
  | .merged n, .merged m => n = m
  | .clash _, .clash _ => True
  | .irreducible, .irreducible => True
  | _, _ => False

theorem Within.agree {x : Node} {before before' : List Node}
    {l l' r r' : Except Disjoint (List Node)} (left : Within x before l l')
    (right : Within x before' r r') (h : Agree l' r') : Agree l r := by
  cases l <;> cases l' <;> cases r <;> cases r' <;>
    first | exact left.elim | exact right.elim | exact h.elim | skip
  · rw [show _ = _ from left, show _ = _ from right]
    exact h
  · obtain ⟨first, second, -, rfl, rfl⟩ := left
    obtain ⟨first', second', -, rfl, rfl⟩ := right
    exact List.perm_middle.trans ((List.Perm.cons x h).trans List.perm_middle.symm)

/-- Pairs of nodes with the property stay side by side, clash for a reason, or merge into a node
with the property that stays beside what one of them stays beside. -/
structure Orderly (Q : Node → Prop) (pair : Node → Node → Traced Pairing)
    (rep : Node → Node) : Prop where
  irreducible : ∀ {a b}, Q a → Q b → Node.Apart a b → (pair a b).value rep = .irreducible
  apart : ∀ {a b}, Q a → Q b → (pair a b).value rep = .irreducible → Node.Apart a b
  clash : ∀ {a b d}, Q a → Q b → (pair a b).value rep = .clash d → d.isEmpty = false
  merged : ∀ {a b n}, Q a → Q b → (pair a b).value rep = .merged n →
    Q n ∧ ∀ x, Q x → Node.Apart x a ∨ Node.Apart x b → Node.Apart x n

section

variable {Q : Node → Prop} (h : Orderly Q pair rep)
include h

theorem add_within {x : Node} (hx : Q x) {before behind : List Node}
    (hc : ∀ c ∈ before ++ behind, Q c) {incoming : Node} (hi : Q incoming)
    (apart : Node.Apart x incoming) :
    Within x before ((add pair (before ++ x :: behind) incoming).outcome rep)
      ((add pair (before ++ behind) incoming).outcome rep) := by
  induction fewer : (before ++ behind).length using Nat.strongRecOn generalizing before behind
    incoming with
  | ind k ih =>
    have beside : (pair x incoming).value rep = .irreducible := h.irreducible hx hi apart
    rcases exists_reducible pair rep before
      incoming with all | ⟨first, c, second, rfl, irreducible, reducible⟩
    · rcases exists_reducible pair rep behind incoming with
        all' | ⟨first, c, second, rfl, irreducible, reducible⟩
      · rw [add_irreducible (List.forall_mem_append.mpr
          ⟨all, List.forall_mem_cons.mpr ⟨beside, all'⟩⟩),
          add_irreducible (List.forall_mem_append.mpr ⟨all, all'⟩)]
        exact ⟨before, behind ++ [incoming], List.Sublist.refl _, List.append_assoc .., by simp⟩
      · have left : ∀ c ∈ before ++ x :: first, (pair c incoming).value rep = .irreducible :=
          List.forall_mem_append.mpr ⟨all, List.forall_mem_cons.mpr ⟨beside, irreducible⟩⟩
        have right : ∀ c ∈ before ++ first, (pair c incoming).value rep = .irreducible :=
          List.forall_mem_append.mpr ⟨all, irreducible⟩
        have hc' : Q c := hc c (by simp)
        rw [← List.cons_append, ← List.append_assoc, ← List.append_assoc]
        cases found : (pair c incoming).value rep with
        | irreducible => exact absurd found reducible
        | clash d =>
          rw [add_clash left found, add_clash right found]
          exact rfl
        | merged n =>
          obtain ⟨hn, keeps⟩ := h.merged hc' hi found
          rw [add_merged left found, add_merged right found, List.append_assoc, List.append_assoc]
          have sub := ((List.sublist_cons_self c second).append_left first).append_left before
          exact ih _ (by simp [← fewer]) (fun m hm => hc m (sub.subset hm)) hn
            (keeps x hx (.inr apart)) rfl
    · have hc' : Q c := hc c (by simp)
      rw [List.append_assoc, List.append_assoc, List.cons_append, List.cons_append]
      cases found : (pair c incoming).value rep with
      | irreducible => exact absurd found reducible
      | clash d =>
        rw [add_clash irreducible found, add_clash irreducible found]
        exact rfl
      | merged n =>
        obtain ⟨hn, keeps⟩ := h.merged hc' hi found
        rw [add_merged irreducible found, add_merged irreducible found, ← List.append_assoc,
          ← List.append_assoc]
        have sub := (List.sublist_cons_self c second).append_left first
        exact (ih _ (by simp [← fewer])
          (fun m hm => hc m ((sub.append_right behind).subset hm)) hn
          (keeps x hx (.inr apart)) rfl).mono sub

def Merges (R : Node → Prop) (pair : Node → Node → Traced Pairing)
    (rep : Node → Node) : Prop :=
  ∀ {a b n}, R a → R b → (pair a b).value rep = .merged n → R n

omit h in
theorem add_forall {R : Node → Prop} (hm : Merges R pair rep) {conjuncts : List Node}
    (hc : ∀ c ∈ conjuncts, R c) {incoming : Node} (hi : R incoming) {added : List Node}
    (ok : (add pair conjuncts incoming).outcome rep = .ok added) : ∀ c ∈ added, R c := by
  induction fewer : conjuncts.length using Nat.strongRecOn generalizing conjuncts incoming with
  | ind k ih =>
    rcases add_cases pair rep conjuncts incoming with ⟨-, all⟩ | ⟨before, c, behind, d, -, -,
      -, clash⟩ | ⟨before, c, behind, n, rfl, -, found, merged⟩
    · rw [all] at ok
      cases ok
      exact List.forall_mem_append.mpr ⟨hc, List.forall_mem_singleton.mpr hi⟩
    · rw [clash] at ok
      cases ok
    · rw [merged] at ok
      have sub := (List.sublist_cons_self c behind).append_left before
      exact ih _ (by simp [← fewer]) (fun m hm => hc m (sub.subset hm))
        (hm (hc c (by simp)) hi found) ok rfl

omit h in
theorem addAll_forall {R : Node → Prop} (hm : Merges R pair rep) {conjuncts incoming : List Node}
    (hc : ∀ c ∈ conjuncts, R c) (hi : ∀ c ∈ incoming, R c) {added : List Node}
    (ok : (addAll pair conjuncts incoming).outcome rep = .ok added) : ∀ c ∈ added, R c := by
  induction incoming generalizing conjuncts with
  | nil =>
    cases ok
    exact hc
  | cons n r ih =>
    rw [List.forall_mem_cons] at hi
    rw [outcome_addAll_cons] at ok
    cases first : (add pair conjuncts n).outcome rep with
    | error d =>
      rw [first] at ok
      cases ok
    | ok merged =>
      rw [first] at ok
      exact ih (add_forall hm hc hi.1 first) hi.2 ok

theorem addAll_within {x : Node} (hx : Q x) (before behind : List Node)
    (hc : ∀ c ∈ before ++ behind, Q c) {incoming : List Node} (hi : ∀ c ∈ incoming, Q c)
    (apart : ∀ c ∈ incoming, Node.Apart x c) :
    Within x before ((addAll pair (before ++ x :: behind) incoming).outcome rep)
      ((addAll pair (before ++ behind) incoming).outcome rep) := by
  induction incoming generalizing before behind with
  | nil => exact ⟨before, behind, List.Sublist.refl _, rfl, rfl⟩
  | cons n r ih =>
    rw [List.forall_mem_cons] at hi apart
    rw [outcome_addAll_cons, outcome_addAll_cons]
    have added := add_within h hx hc hi.1 apart.1
    have settled : ∀ m, (add pair (before ++ behind) n).outcome rep = .ok m →
        ∀ c ∈ m, Q c := fun m ok =>
      add_forall (fun ha hb found => (h.merged ha hb found).1) hc hi.1 ok
    generalize (add pair (before ++ x :: behind) n).outcome rep = with_ at added
    generalize (add pair (before ++ behind) n).outcome rep = without at added settled
    cases with_ <;> cases without
    · exact added
    · exact added.elim
    · exact added.elim
    · obtain ⟨first, second, sub, rfl, rfl⟩ := added
      exact (ih _ _ (settled _ rfl) hi.2 apart.2).mono sub

theorem add_reasons {conjuncts : List Node} (hc : ∀ c ∈ conjuncts, Q c) {incoming : Node}
    (hi : Q incoming) {d : Disjoint}
    (failed : (add pair conjuncts incoming).outcome rep = .error d) : d.isEmpty = false := by
  induction fewer : conjuncts.length using Nat.strongRecOn generalizing conjuncts incoming with
  | ind k ih =>
    rcases add_cases pair rep conjuncts incoming with ⟨-, all⟩ | ⟨before, c, behind, e, rfl,
      -, found, clash⟩ | ⟨before, c, behind, n, rfl, -, found, merged⟩
    · rw [all] at failed
      cases failed
    · rw [clash] at failed
      cases failed
      exact h.clash (hc c (by simp)) hi found
    · rw [merged] at failed
      have sub := (List.sublist_cons_self c behind).append_left before
      exact ih _ (by simp [← fewer]) (fun m hm => hc m (sub.subset hm))
        (h.merged (hc c (by simp)) hi found).1 failed rfl

theorem merges : Merges Q pair rep := fun ha hb found => (h.merged ha hb found).1

theorem addAll_reasons {conjuncts incoming : List Node} (hc : ∀ c ∈ conjuncts, Q c)
    (hi : ∀ c ∈ incoming, Q c) {d : Disjoint}
    (failed : (addAll pair conjuncts incoming).outcome rep = .error d) : d.isEmpty = false := by
  induction incoming generalizing conjuncts with
  | nil => cases failed
  | cons n r ih =>
    rw [List.forall_mem_cons] at hi
    rw [outcome_addAll_cons] at failed
    cases first : (add pair conjuncts n).outcome rep with
    | error e =>
      rw [first] at failed
      cases failed
      exact add_reasons h hc hi.1 first
    | ok merged =>
      rw [first] at failed
      exact ih (add_forall (merges h) hc hi.1 first) hi.2 failed

theorem add_apart {conjuncts : List Node} (hc : ∀ c ∈ conjuncts, Q c) {incoming : Node}
    (hi : Q incoming) (apart : ∀ c ∈ conjuncts, Node.Apart c incoming) :
    (add pair conjuncts incoming).outcome rep = .ok (conjuncts ++ [incoming]) :=
  add_irreducible fun c hm => h.irreducible (hc c hm) hi (apart c hm)

theorem addAll_apart {conjuncts incoming : List Node} (hq : ∀ c ∈ conjuncts ++ incoming, Q c)
    (apart : (conjuncts ++ incoming).Pairwise Node.Apart) :
    (addAll pair conjuncts incoming).outcome rep = .ok (conjuncts ++ incoming) := by
  induction incoming generalizing conjuncts with
  | nil => rw [List.append_nil]; rfl
  | cons n r ih =>
    obtain ⟨-, -, across⟩ := List.pairwise_append.mp apart
    rw [outcome_addAll_cons, add_apart h (fun c hm => hq c (by simp [hm])) (hq n (by simp))
      fun c hm => across c hm n List.mem_cons_self]
    have moved : conjuncts ++ n :: r = conjuncts ++ [n] ++ r := List.append_cons ..
    rw [moved] at hq apart ⊢
    exact ih hq apart

theorem add_pairwise {conjuncts : List Node} (hc : ∀ c ∈ conjuncts, Q c)
    (apart : conjuncts.Pairwise Node.Apart) {incoming : Node} (hi : Q incoming) {added : List Node}
    (ok : (add pair conjuncts incoming).outcome rep = .ok added) : added.Pairwise Node.Apart := by
  induction fewer : conjuncts.length using Nat.strongRecOn generalizing conjuncts incoming with
  | ind k ih =>
    rcases add_cases pair rep conjuncts incoming with ⟨irreducible, all⟩ | ⟨before, c, behind,
      d, -, -, -, clash⟩ | ⟨before, c, behind, n, rfl, -, found, merged⟩
    · rw [all] at ok
      cases ok
      refine List.pairwise_append.mpr ⟨apart, List.pairwise_singleton _ _, fun c hm b hb => ?_⟩
      rw [List.mem_singleton.mp hb]
      exact h.apart (hc c hm) hi (irreducible c hm)
    · rw [clash] at ok
      cases ok
    · rw [merged] at ok
      have sub := (List.sublist_cons_self c behind).append_left before
      exact ih _ (by simp [← fewer]) (fun m hm => hc m (sub.subset hm)) (apart.sublist sub)
        (h.merged (hc c (by simp)) hi found).1 ok rfl

theorem addAll_pairwise {conjuncts incoming : List Node} (hc : ∀ c ∈ conjuncts, Q c)
    (apart : conjuncts.Pairwise Node.Apart) (hi : ∀ c ∈ incoming, Q c) {added : List Node}
    (ok : (addAll pair conjuncts incoming).outcome rep = .ok added) :
    added.Pairwise Node.Apart := by
  induction incoming generalizing conjuncts with
  | nil =>
    cases ok
    exact apart
  | cons n r ih =>
    rw [List.forall_mem_cons] at hi
    rw [outcome_addAll_cons] at ok
    cases first : (add pair conjuncts n).outcome rep with
    | error d =>
      rw [first] at ok
      cases ok
    | ok merged =>
      rw [first] at ok
      exact ih (add_forall (merges h) hc hi.1 first) (add_pairwise h hc apart hi.1 first) hi.2 ok

theorem addAll_clash {a b : Node} {e : Disjoint} (ha : Q a) (hb : Q b)
    (clash : (pair a b).value rep = .clash e) {l before : List Node} (hl : ∀ c ∈ l, Q c)
    (hr : ∀ c ∈ before, Q c) (first : ∀ c ∈ before, Node.Apart a c) (behind : List Node) :
    ∃ d, (addAll pair (a :: l) (before ++ b :: behind)).outcome rep = .error d ∧
      d.isEmpty = false := by
  have start := addAll_within h ha [] l hl hr first
  have reasons (e : Disjoint) (failed : (addAll pair l before).outcome rep = .error e) :=
    addAll_reasons h hl hr failed
  rw [outcome_addAll_append]
  rw [List.nil_append, List.nil_append] at start
  generalize (addAll pair (a :: l) before).outcome rep = with_ at start
  generalize (addAll pair l before).outcome rep = without at start reasons
  cases with_ <;> cases without
  · rw [show _ = _ from start]
    exact ⟨_, rfl, reasons _ rfl⟩
  · exact start.elim
  · exact start.elim
  · obtain ⟨front, m, sub, rfl, rfl⟩ := start
    obtain rfl := List.sublist_nil.mp sub
    dsimp only [Except.bind, List.nil_append]
    rw [outcome_addAll_cons, ← List.nil_append (a :: m), add_clash (List.forall_mem_nil _) clash]
    exact ⟨e, rfl, h.clash ha hb clash⟩

/-- A conjunct that one of the other side merges with is merged with it, whichever side is added. -/
theorem addAll_merged {a b n : Node} (ha : Q a) (hb : Q b)
    (found : (pair a b).value rep = .merged n) {l before behind : List Node} (hl : ∀ c ∈ l, Q c)
    (hr : ∀ c ∈ before ++ behind, Q c) (left : ∀ c ∈ l, Node.Apart a c)
    (first : ∀ c ∈ before, Node.Apart a c ∧ Node.Apart b c)
    (right : ∀ c ∈ behind, Node.Apart b c) :
    ∃ place, Within n place ((addAll pair (a :: l) (before ++ b :: behind)).outcome rep)
      ((addAll pair l (before ++ behind)).outcome rep) := by
  obtain ⟨hn, keeps⟩ := h.merged ha hb found
  have hr' := List.forall_mem_append.mp hr
  have beside {c : Node} (hc : Q c) (apart : Node.Apart a c ∨ Node.Apart b c) : Node.Apart n c :=
    (keeps c hc (apart.imp Node.Apart.symm Node.Apart.symm)).symm
  have start := addAll_within h ha [] l hl hr'.1 fun c hc => (first c hc).1
  have aside : ∀ m, (addAll pair l before).outcome rep = .ok m →
      ∀ c ∈ m, Q c ∧ Node.Apart n c := by
    intro m ok
    refine addAll_forall (fun hx hy merged => ?_)
      (fun c hc => ⟨hl c hc, beside (hl c hc) (.inl (left c hc))⟩)
        (fun c hc => ⟨hr'.1 c hc, beside (hr'.1 c hc) (.inl (first c hc).1)⟩) ok
    obtain ⟨hm, keeps'⟩ := h.merged hx.1 hy.1 merged
    exact ⟨hm, keeps' n hn (.inl hx.2)⟩
  rw [outcome_addAll_append, outcome_addAll_append]
  rw [List.nil_append, List.nil_append] at start
  generalize (addAll pair (a :: l) before).outcome rep = with_ at start
  generalize (addAll pair l before).outcome rep = without at start aside
  cases with_ <;> cases without
  · exact ⟨[], start⟩
  · exact start.elim
  · exact start.elim
  · obtain ⟨front, m, sub, rfl, rfl⟩ := start
    obtain rfl := List.sublist_nil.mp sub
    have hm := aside m rfl
    have merged : (add pair (a :: m) b).outcome rep = .ok (m ++ [n]) := by
      rw [← List.nil_append (a :: m), add_merged (List.forall_mem_nil _) found, List.nil_append]
      exact add_apart h (fun c hc => (hm c hc).1) hn fun c hc => (hm c hc).2.symm
    have rest := addAll_within h hn m [] (by simpa using fun c hc => (hm c hc).1) hr'.2
      fun c hc => beside (hr'.2 c hc) (.inr (right c hc))
    refine ⟨m, ?_⟩
    dsimp only [Except.bind, List.nil_append]
    rw [outcome_addAll_cons, merged]
    rwa [List.append_nil] at rest

/-- It makes no difference which of two sides is added to the other. -/
theorem addAll_comm {l r : List Node} (hl : ∀ a ∈ l, Q a) (hr : ∀ b ∈ r, Q b)
    (left : l.Pairwise Node.Apart) (right : r.Pairwise Node.Apart)
    (alike : ∀ a ∈ l, ∀ b ∈ r, Alike ((pair a b).value rep) ((pair b a).value rep)) :
    Agree ((addAll pair l r).outcome rep) ((addAll pair r l).outcome rep) := by
  induction l generalizing r with
  | nil =>
    rw [show (addAll pair [] r).outcome rep = .ok r from addAll_apart h hr right]
    exact List.Perm.refl _
  | cons a l ih =>
    rw [List.forall_mem_cons] at hl alike
    rw [List.pairwise_cons] at left
    rcases exists_reducible pair rep r a with all | ⟨before, b, behind, rfl, irreducible,
      reducible⟩
    · have apart : ∀ b ∈ r, Node.Apart b a := fun b hm => h.apart (hr b hm) hl.1 (all b hm)
      have added := addAll_within h hl.1 [] l hl.2 hr fun b hm => (apart b hm).symm
      have added' := addAll_within h hl.1 r [] (by rwa [List.append_nil]) hl.2 left.1
      rw [outcome_addAll_cons r, add_apart h hr hl.1 apart]
      rw [List.append_nil] at added'
      exact added.agree added' (ih hl.2 hr left.2 right alike.2)
    · have hb : Q b := hr b (by simp)
      have sub := (List.sublist_cons_self b behind).append_left before
      have hr' : ∀ c ∈ before ++ behind, Q c := fun c hc => hr c (sub.subset hc)
      have hbefore := (List.forall_mem_append.mp hr').1
      have apart : ∀ c ∈ before, Node.Apart c a :=
        fun c hc => h.apart (hbefore c hc) hl.1 (irreducible c hc)
      obtain ⟨-, inner, across⟩ := List.pairwise_append.mp right
      rw [List.pairwise_cons] at inner
      have reduced := alike.1 b (by simp)
      cases found : (pair b a).value rep with
      | irreducible => exact absurd found reducible
      | clash d =>
        have failed : (addAll pair (before ++ b :: behind) (a :: l)).outcome rep = .error d := by
          rw [outcome_addAll_cons, add_clash irreducible found]
          rfl
        rw [found] at reduced
        obtain ⟨e, clash⟩ : ∃ e, (pair a b).value rep = .clash e := by
          generalize (pair a b).value rep = p at reduced
          cases p with
          | merged m => exact reduced.elim
          | clash e => exact ⟨e, rfl⟩
          | irreducible => exact reduced.elim
        obtain ⟨d', failed', reasons⟩ := addAll_clash h hl.1 hb clash hl.2 hbefore
          (fun c hc => (apart c hc).symm) behind
        rw [failed, failed']
        exact ⟨reasons, h.clash hb hl.1 found⟩
      | merged n =>
        rw [found] at reduced
        have merged : (pair a b).value rep = .merged n := by
          generalize (pair a b).value rep = p at reduced
          cases p with
          | merged m => rw [show m = n from reduced]
          | clash d => exact reduced.elim
          | irreducible => exact reduced.elim
        obtain ⟨hn, keeps⟩ := h.merged hl.1 hb merged
        obtain ⟨place, added⟩ := addAll_merged h hl.1 hb merged hl.2 hr' left.1
          (fun c hc => ⟨(apart c hc).symm, (across c hc b List.mem_cons_self).symm⟩) inner.1
        have aside : ∀ c ∈ before ++ behind, Node.Apart c n := fun c hc => by
          refine keeps c (hr' c hc) (.inr ?_)
          rcases List.mem_append.mp hc with hc | hc
          · exact across c hc b List.mem_cons_self
          · exact (inner.1 c hc).symm
        have added' := addAll_within h hn (before ++ behind) [] (by rwa [List.append_nil]) hl.2
          fun c hc => (keeps c (hl.2 c hc) (.inl (left.1 c hc).symm)).symm
        rw [outcome_addAll_cons (before ++ b :: behind), add_merged irreducible found,
          add_apart h hr' hn aside]
        rw [List.append_nil] at added'
        exact added.agree added' (ih hl.2 hr' left.2 (right.sublist sub) fun c hc e he =>
          alike.2 c hc e (sub.subset he))

end

/-- The conjuncts are those of a set, each once. -/
def Makes (S : Node → Prop) (o : Except Disjoint (List Node)) : Prop :=
  ∃ l, o = .ok l ∧ l.Nodup ∧ ∀ x, x ∈ l ↔ S x

/-- There is a reason why there are no conjuncts. -/
def Fails (o : Except Disjoint (List Node)) : Prop := ∃ d, o = .error d ∧ d.isEmpty = false

theorem Makes.agree {S S' : Node → Prop} {l r : Except Disjoint (List Node)} (left : Makes S l)
    (right : Makes S' r) (same : ∀ x, S x ↔ S' x) : Agree l r := by
  obtain ⟨l, rfl, once, members⟩ := left
  obtain ⟨r, rfl, once', members'⟩ := right
  exact (List.perm_ext_iff_of_nodup once once').mpr fun x =>
    (members x).trans ((same x).trans (members' x).symm)

theorem Fails.agree {l r : Except Disjoint (List Node)} (left : Fails l) (right : Fails r) :
    Agree l r := by
  obtain ⟨d, rfl, reasons⟩ := left
  obtain ⟨e, rfl, reasons'⟩ := right
  exact ⟨reasons, reasons'⟩

/-- A literal takes in every conjunct that is not nominal, or clashes with it. A nominal conjunct
merges with itself alone. -/
structure Absorbing (Q : Node → Prop) (pair : Node → Node → Traced Pairing)
    (rep : Node → Node) (v : Node) : Prop where
  plain : v.constraint.isNominal = false
  same : ∀ {a}, Q a → (pair a a).value rep = .merged a
  nominal : ∀ {a b}, Q a → Q b → a ≠ b → a.constraint.isNominal = true ∨
    b.constraint.isNominal = true → (pair a b).value rep = .irreducible
  literal : ∀ {c}, Q c → c.constraint.isNominal = false →
    ((pair v c).value rep = .merged v ∧ (pair c v).value rep = .merged v) ∨
      ∃ d e, (pair v c).value rep = .clash d ∧ (pair c v).value rep = .clash e ∧
        d.isEmpty = false ∧ e.isEmpty = false

/-- The literal takes in all nodes of a set that are not nominal, and the conjuncts are those of
another; or it clashes with one, and there are none. -/
def TakesIn (pair : Node → Node → Traced Pairing) (rep : Node → Node) (v : Node)
    (T S : Node → Prop) (o : Except Disjoint (List Node)) : Prop :=
  ((∀ c, T c → c.constraint.isNominal = false → (pair v c).value rep = .merged v) ∧
    Makes S o) ∨
    (∃ c, T c ∧ c.constraint.isNominal = false ∧ ∃ d, (pair v c).value rep = .clash d) ∧
      Fails o

section

variable {v : Node} {T T' S S' : Node → Prop} {o o' : Except Disjoint (List Node)}

theorem TakesIn.congr (h : TakesIn pair rep v T S o)
    (more : ∀ c, T c → c.constraint.isNominal = false → T' c)
    (less : ∀ c, T' c → T c ∨ c.constraint.isNominal = true ∨
      (pair v c).value rep = .merged v)
    (same : ∀ x, S x ↔ S' x) : TakesIn pair rep v T' S' o := by
  rcases h with ⟨all, l, ok, once, members⟩ | ⟨⟨c, hc, plain, clash⟩, failed⟩
  · refine .inl ⟨fun c hc plain => ?_, l, ok, once, fun x => (members x).trans (same x)⟩
    rcases less c hc with hc | nominal | merged
    · exact all c hc plain
    · rw [nominal] at plain
      cases plain
    · exact merged
  · exact .inr ⟨⟨c, more c hc plain, plain, clash⟩, failed⟩

theorem TakesIn.mem {l : List Node} (h : TakesIn pair rep v T S (.ok l)) {x : Node}
    (hx : x ∈ l) : S x := by
  rcases h with ⟨-, l', ok, -, members⟩ | ⟨-, d, failed, -⟩
  · cases ok
    exact (members x).mp hx
  · cases failed

theorem TakesIn.agree (left : TakesIn pair rep v T S o) (right : TakesIn pair rep v T S' o')
    (same : ∀ x, S x ↔ S' x) : Agree o o' := by
  have one_way (all : ∀ c, T c → c.constraint.isNominal = false →
      (pair v c).value rep = .merged v) :
      ¬∃ c, T c ∧ c.constraint.isNominal = false ∧
        ∃ d, (pair v c).value rep = .clash d := by
    rintro ⟨c, hc, plain, d, clash⟩
    rw [all c hc plain] at clash
    cases clash
  rcases left with ⟨all, made⟩ | ⟨clashes, failed⟩ <;>
    rcases right with ⟨all', made'⟩ | ⟨clashes', failed'⟩
  · exact made.agree made' same
  · exact absurd clashes' (one_way all)
  · exact absurd clashes (one_way all')
  · exact failed.agree failed'

end

section

variable {Q : Node → Prop} {v : Node} (h : Absorbing Q pair rep v)
include h

theorem add_nominal {conjuncts : List Node} (hc : ∀ c ∈ conjuncts, Q c) (once : conjuncts.Nodup)
    {b : Node} (hb : Q b) (nominal : b.constraint.isNominal = true) :
    Makes (fun x => x ∈ conjuncts ∨ x = b) ((add pair conjuncts b).outcome rep) := by
  by_cases known : b ∈ conjuncts
  · obtain ⟨before, behind, rfl⟩ := List.append_of_mem known
    have moved := List.perm_middle.nodup_iff.mp once
    have apart : ∀ c ∈ before ++ behind, (pair c b).value rep = .irreducible := fun c hm => by
      refine h.nominal (hc c (((List.sublist_cons_self b behind).append_left before).subset hm)) hb
        ?_ (.inr nominal)
      rintro rfl
      exact (List.nodup_cons.mp moved).1 hm
    refine ⟨before ++ behind ++ [b], ?_, ?_, fun x => ?_⟩
    · rw [add_merged (List.forall_mem_append.mp apart).1 (h.same hb), add_irreducible apart]
    · exact (List.perm_append_singleton b (before ++ behind)).nodup_iff.mpr moved
    · simp only [List.mem_append, List.mem_cons, List.not_mem_nil, or_false]
      tauto
  · refine ⟨conjuncts ++ [b], add_irreducible fun c hm => ?_, ?_, fun x => by simp⟩
    · refine h.nominal (hc c hm) hb ?_ (.inr nominal)
      rintro rfl
      exact known hm
    · exact (List.perm_append_singleton b conjuncts).nodup_iff.mpr
        (List.nodup_cons.mpr ⟨known, once⟩)

theorem add_absorbed (hv : Q v) {conjuncts : List Node} (hc : ∀ c ∈ conjuncts, Q c)
    (once : conjuncts.Nodup) (inside : v ∈ conjuncts)
    (others : ∀ c ∈ conjuncts, c ≠ v → c.constraint.isNominal = true) {b : Node} (hb : Q b)
    (plain : b.constraint.isNominal = false) :
    TakesIn pair rep v (· = b) (· ∈ conjuncts) ((add pair conjuncts b).outcome rep) := by
  obtain ⟨before, behind, rfl⟩ := List.append_of_mem inside
  have moved := List.perm_middle.nodup_iff.mp once
  have sub := (List.sublist_cons_self v behind).append_left before
  have nominal : ∀ c ∈ before ++ behind, c ≠ v ∧ c.constraint.isNominal = true :=
    fun c hm => by
    have different : c ≠ v := by
      rintro rfl
      exact (List.nodup_cons.mp moved).1 hm
    exact ⟨different, others c (sub.subset hm) different⟩
  have apart {a : Node} (ha : Q a) (plain : a.constraint.isNominal = false) :
      ∀ c ∈ before ++ behind, (pair c a).value rep = .irreducible := fun c hm => by
    refine h.nominal (hc c (sub.subset hm)) ha ?_ (.inl (nominal c hm).2)
    rintro rfl
    rw [(nominal c hm).2] at plain
    cases plain
  have first := (List.forall_mem_append.mp (apart hb plain)).1
  rcases h.literal hb plain with ⟨merged, -⟩ | ⟨d, e, clash, -, reasons, -⟩
  · refine .inl ⟨fun c same _ => same ▸ merged, before ++ behind ++ [v], ?_, ?_, fun x => ?_⟩
    · rw [add_merged first merged, add_irreducible (apart hv h.plain)]
    · exact (List.perm_append_singleton v (before ++ behind)).nodup_iff.mpr moved
    · simp only [List.mem_append, List.mem_cons, List.not_mem_nil, or_false]
      tauto
  · exact .inr ⟨⟨b, rfl, plain, d, clash⟩, d, add_clash first clash, reasons⟩

/-- A literal takes in all conjuncts that are not nominal, unless it clashes with one. -/
theorem add_absorbing (hv : Q v) {conjuncts : List Node} (hc : ∀ c ∈ conjuncts, Q c)
    (once : conjuncts.Nodup) :
    TakesIn pair rep v (· ∈ conjuncts)
      (fun x => x = v ∨ x ∈ conjuncts ∧ x.constraint.isNominal = true)
        ((add pair conjuncts v).outcome rep) := by
  induction fewer : conjuncts.length using Nat.strongRecOn generalizing conjuncts with
  | ind k ih =>
    have plain {c : Node} (hm : c ∈ conjuncts)
        (reducible : (pair c v).value rep ≠ .irreducible) : c.constraint.isNominal = false := by
      refine Bool.eq_false_iff.mpr fun nominal =>
        reducible (h.nominal (hc c hm) hv ?_ (.inl nominal))
      rintro rfl
      rw [h.plain] at nominal
      cases nominal
    rcases exists_reducible pair rep conjuncts
      v with all | ⟨before, c, behind, rfl, first, reducible⟩
    · have nominal : ∀ c ∈ conjuncts, c.constraint.isNominal = true := fun c hm => by
        refine Bool.eq_true_of_not_eq_false fun plain => ?_
        have irreducible := all c hm
        rcases h.literal (hc c hm) plain with ⟨-, merged⟩ | ⟨d, e, -, clash, -⟩
        · rw [irreducible] at merged
          cases merged
        · rw [irreducible] at clash
          cases clash
      have fresh : v ∉ conjuncts := fun hm => by
        have marked := nominal v hm
        rw [h.plain] at marked
        cases marked
      refine .inl ⟨fun c hm plain => ?_, conjuncts ++ [v], add_irreducible all, ?_, fun x => ?_⟩
      · rw [nominal c hm] at plain
        cases plain
      · exact (List.perm_append_singleton v conjuncts).nodup_iff.mpr
          (List.nodup_cons.mpr ⟨fresh, once⟩)
      · simp only [List.mem_append, List.mem_cons, List.not_mem_nil, or_false]
        exact ⟨fun hx => hx.symm.imp id fun hm => ⟨hm, nominal x hm⟩,
          fun hx => hx.symm.imp And.left id⟩
    · have hm : c ∈ before ++ c :: behind := by simp
      have sub := (List.sublist_cons_self c behind).append_left before
      have plain_c := plain hm reducible
      rcases h.literal (hc c hm) plain_c with ⟨merged, merged'⟩ | ⟨d, e, clash, clash',
        reasons, reasons'⟩
      · rw [add_merged first merged']
        have others := ih _ (by simp [← fewer]) (fun c hm => hc c (sub.subset hm))
            (once.sublist sub) rfl
        refine others.congr (fun b hb _ => sub.subset hb) (fun b hb => ?_) fun x =>
          or_congr_right ?_
        · rcases List.mem_append.mp hb with hb | hb
          · exact .inl (List.mem_append_left _ hb)
          · rcases List.mem_cons.mp hb with rfl | hb
            · exact .inr (.inr merged)
            · exact .inl (List.mem_append_right _ hb)
        · refine ⟨fun hx => ⟨sub.subset hx.1, hx.2⟩, fun hx => ⟨?_, hx.2⟩⟩
          have different : x ≠ c := by
            rintro rfl
            rw [plain_c] at hx
            cases hx.2
          simpa [different] using hx.1
      · exact .inr ⟨⟨c, hm, plain_c, d, clash⟩, e, add_clash first clash', reasons'⟩

/-- What is added to a literal is taken in or clashes, or is nominal and stays. -/
theorem addAll_absorbed (hv : Q v) {conjuncts incoming : List Node} (hc : ∀ c ∈ conjuncts, Q c)
    (once : conjuncts.Nodup) (inside : v ∈ conjuncts)
    (others : ∀ c ∈ conjuncts, c ≠ v → c.constraint.isNominal = true)
    (hi : ∀ c ∈ incoming, Q c) :
    TakesIn pair rep v (· ∈ incoming)
      (fun x => x ∈ conjuncts ∨ x ∈ incoming ∧ x.constraint.isNominal = true)
        ((addAll pair conjuncts incoming).outcome rep) := by
  induction incoming generalizing conjuncts with
  | nil => exact .inl ⟨fun _ hc => absurd hc List.not_mem_nil, conjuncts, rfl, once, by simp⟩
  | cons b r ih =>
    rw [List.forall_mem_cons] at hi
    rw [outcome_addAll_cons]
    cases nominal : b.constraint.isNominal with
    | false =>
      rcases add_absorbed h hv hc once inside others hi.1
        nominal with ⟨merged, l, ok, once', members⟩ |
        ⟨⟨c, same, plain, clash⟩, d, failed, reasons⟩
      · rw [ok]
        have rest := @ih l (fun c hm => hc c ((members c).mp hm)) once' ((members v).mpr inside)
          (fun c hm => others c ((members c).mp hm)) hi.2
        refine rest.congr (fun c hm _ => List.mem_cons_of_mem b hm) (fun c hm => ?_) fun x =>
          or_congr (members x) ?_
        · rcases List.mem_cons.mp hm with rfl | hm
          · exact .inr (.inr (merged _ rfl nominal))
          · exact .inl hm
        · refine and_congr_left fun marked => ⟨List.mem_cons_of_mem b, fun hm => ?_⟩
          refine (List.mem_cons.mp hm).resolve_left ?_
          rintro rfl
          rw [nominal] at marked
          cases marked
      · rw [failed]
        exact .inr ⟨⟨c, same ▸ List.mem_cons_self, plain, clash⟩, d, rfl, reasons⟩
    | true =>
      obtain ⟨l, ok, once', members⟩ := add_nominal h hc once hi.1 nominal
      rw [ok]
      have kept (c : Node) (hm : c ∈ l) : c ∈ conjuncts ∨ c = b := (members c).mp hm
      have rest := @ih l (fun c hm => (kept c hm).elim (hc c) fun same => same ▸ hi.1) once'
        ((members v).mpr (.inl inside)) (fun c hm different => ?_) hi.2
      · refine rest.congr (fun c hm _ => List.mem_cons_of_mem b hm) (fun c hm => ?_) fun x => ?_
        · rcases List.mem_cons.mp hm with rfl | hm
          · exact .inr (.inl nominal)
          · exact .inl hm
        · rw [members x, List.mem_cons]
          refine ⟨fun hx => ?_, fun hx => ?_⟩
          · rcases hx with (hx | rfl) | hx
            · exact .inl hx
            · exact .inr ⟨.inl rfl, nominal⟩
            · exact .inr ⟨.inr hx.1, hx.2⟩
          · rcases hx with hx | ⟨rfl | hx, marked⟩
            · exact .inl (.inl hx)
            · exact .inl (.inr rfl)
            · exact .inr ⟨hx, marked⟩
      · rcases kept c hm with hm | rfl
        · exact others c hm different
        · exact nominal

/-- A literal that is added with nominal conjuncts takes in what is there, or clashes with it. -/
theorem addAll_absorbing (hv : Q v) {conjuncts incoming : List Node} (hc : ∀ c ∈ conjuncts, Q c)
    (once : conjuncts.Nodup) (inside : v ∈ incoming)
    (others : ∀ c ∈ incoming, c ≠ v → c.constraint.isNominal = true)
    (hi : ∀ c ∈ incoming, Q c) (once' : incoming.Nodup) :
    TakesIn pair rep v (· ∈ conjuncts)
      (fun x => x = v ∨ (x ∈ conjuncts ∨ x ∈ incoming) ∧ x.constraint.isNominal = true)
      ((addAll pair conjuncts incoming).outcome rep) := by
  induction incoming generalizing conjuncts with
  | nil => cases inside
  | cons b r ih =>
    rw [List.forall_mem_cons] at hi others
    rw [List.nodup_cons] at once'
    rw [outcome_addAll_cons]
    by_cases here : b = v
    · subst here
      have nominal : ∀ c ∈ r, c.constraint.isNominal = true := fun c hm => others.2 c hm (by
        rintro rfl
        exact once'.1 hm)
      rcases add_absorbing h hv hc once with ⟨all, l, ok, once_l, members⟩ | ⟨clash, d,
        failed, reasons⟩
      · rw [ok]
        have taken (c : Node) (hm : c ∈ l) : Q c := by
          rcases (members c).mp hm with rfl | hm
          · exact hv
          · exact hc c hm.1
        refine (addAll_absorbed h hv taken once_l ((members b).mpr (.inl rfl))
          (fun c hm different => (((members c).mp hm).resolve_left different).2) hi.2).congr
            (fun c hm plain => ?_) (fun c hm => ?_) fun x => ?_
        · rw [nominal c hm] at plain
          cases plain
        · cases marked : c.constraint.isNominal with
          | true => exact .inr (.inl rfl)
          | false => exact .inr (.inr (all c hm marked))
        · rw [members x, List.mem_cons]
          by_cases same : x = b
          · simp [same]
          · simp only [same, false_or]
            tauto
      · rw [failed]
        exact .inr ⟨clash, d, rfl, reasons⟩
    · have nominal := others.1 here
      obtain ⟨l, ok, once_l, members⟩ := add_nominal h hc once hi.1 nominal
      rw [ok]
      have kept (c : Node) (hm : c ∈ l) : c ∈ conjuncts ∨ c = b := (members c).mp hm
      refine (ih (fun c hm => (kept c hm).elim (hc c) fun same => same ▸ hi.1) once_l
        ((List.mem_cons.mp inside).resolve_left (Ne.symm here)) others.2 hi.2 once'.2).congr
          (fun c hm plain => ?_) (fun c hm => .inl ((members c).mpr (.inl hm))) fun x => ?_
      · refine (kept c hm).resolve_right ?_
        rintro rfl
        rw [nominal] at plain
        cases plain
      · rw [members x, List.mem_cons]
        tauto

/-- Where one side has a literal, it makes no difference either which side is added to the other. -/
theorem addAll_comm_of_literal (hv : Q v) {l r : List Node} (hl : ∀ a ∈ l, Q a)
    (hr : ∀ b ∈ r, Q b) (once : l.Nodup) (once' : r.Nodup) (inside : v ∈ l)
    (others : ∀ c ∈ l, c ≠ v → c.constraint.isNominal = true) :
    Agree ((addAll pair l r).outcome rep) ((addAll pair r l).outcome rep) := by
  refine (addAll_absorbed h hv hl once inside others hr).agree
    (addAll_absorbing h hv hr once' inside others hl once) fun x => ?_
  by_cases same : x = v
  · simp [same, inside]
  · have marked := others x
    simp only [same, false_or]
    tauto

end

end SchemaAlgebra.Conjunction

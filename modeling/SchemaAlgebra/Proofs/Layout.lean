import SchemaAlgebra.Proofs.Writing

/-!
# The parts of written nodes

A node that is neither a union nor a morph is a kind of values with a range, divisors, patterns,
an element and brands. It is put together again by intersecting the kind with one part after
the other.
-/
namespace SchemaAlgebra

variable [Library]

namespace Conjunction

/-- Written constraints that stay side by side. -/
structure Beside (cs : List Node) : Prop where
  written : ∀ c ∈ cs, IsWritten c
  apart : cs.Pairwise Node.Apart

namespace Beside

variable {l r : List Node}

theorem perm (h : Beside l) (perm : l.Perm r) : Beside r :=
  ⟨fun c hc => h.written c (perm.mem_iff.mpr hc), perm.pairwise h.apart fun apart => apart.symm⟩

theorem sublist (h : Beside r) (sublist : l.Sublist r) : Beside l :=
  ⟨fun c hc => h.written c (sublist.subset hc), h.apart.sublist sublist⟩

theorem node_perm (h : Beside l) (perm : l.Perm r) : node l = node r :=
  Conjunction.node_perm perm (fun c hc => (h.written c hc).1) h.apart

/-- Nodes whose conjuncts stay side by side are intersected to the node of all of them. -/
theorem meet (h : Beside (l ++ r)) :
    (SchemaAlgebra.meet (node l) (node r)).outcome id = .ok (node (l ++ r)) := by
  have left := h.sublist (List.sublist_append_left l r)
  have right := h.sublist (List.sublist_append_right l r)
  obtain ⟨written, plain, perm⟩ := node_written left.written left.apart
  obtain ⟨written', plain', perm'⟩ := node_written right.written right.apart
  have both : ((node l).conjuncts ++ (node r).conjuncts).Perm (l ++ r) := perm.append perm'
  rw [meet_apart written written' plain plain' (h.perm both.symm).apart,
    (h.perm both.symm).node_perm both]

end Beside

/-- The conjunct that the incoming one is merged with is replaced. -/
theorem add_replaces {meet : Meet} {before behind : List Node} {c incoming n : Node}
    (others : ∀ x ∈ before, Node.Apart x incoming)
    (merged : (Pairing.of meet (Properties.meetProps meet) c incoming).value id = .merged n)
    (apart : ∀ x ∈ before ++ behind, Node.Apart x n) :
    (add (Pairing.of meet (Properties.meetProps meet)) (before ++ c :: behind) incoming).outcome
      id = .ok (before ++ behind ++ [n]) := by
  rw [add_merged (fun x hx => Pairing.of_apart meet (others x hx)) merged,
    add_irreducible fun x hx => Pairing.of_apart meet (apart x hx)]

/-- The texts, or those of them that hold a timestamp. -/
def IsTextual (n : Node) : Prop := n = .of (.domain .string) ∨ n = .of (.basis .date)

variable {k x : Node}

omit [Library] in
theorem IsTextual.apart (text : IsTextual k) (apart : Node.Apart x k) :
    Node.Apart x (.of (.domain .string)) := by
  obtain ⟨c⟩ := x
  have shape : k.constraint.rank = 0 ∧ k.constraint.domains = [.string] ∧
      k.constraint.isNominal = false ∧ ∀ n, k.constraint ≠ .divisor n := by
    rcases text with rfl | rfl <;> exact ⟨rfl, rfl, rfl, nofun⟩
  obtain ⟨rank, domains, notNominal, noDivisor⟩ := shape
  obtain ⟨-, single, -, cases⟩ := apart
  rw [rank, domains, notNominal] at cases
  rcases cases with nominal | nominal | ⟨m, n, -, divisor, -⟩ | ⟨ranks, literal, -, shared⟩
  · refine Node.apart_of_ranks ?_ ⟨single, rfl, .inl nominal⟩
    change c.isNominal = true at nominal
    cases c <;> first | (cases nominal; done) | simp [Constraint.rank]
  · cases nominal
  · exact absurd divisor (noDivisor n)
  · exact Node.apart_of_ranks ranks
      ⟨single, rfl, .inr (.inr (.inr ⟨ranks, literal, rfl, shared⟩))⟩

theorem IsTextual.merged (text : IsTextual k) (meet : Meet) :
    (Pairing.of meet (Properties.meetProps meet) k (.of (.domain .string))).value id =
      .merged k := by
  rcases text with rfl | rfl <;> rfl

/-- The patterns as a conjunct, if there are any. -/
def patterned (ps : List Pattern) : List Node := if ps.isEmpty then [] else [.of (.patterns ps)]

omit [Library] in
theorem conjuncts_pattern (p : Pattern) :
    p.node.conjuncts = [.of (.domain .string), .of (.patterns [p])] := by
  have ranks : (0 : Nat) ≠ 3 := by decide
  have apart : [Node.of (.domain .string), .of (.patterns [p])].Pairwise Node.Apart := by
    simp only [List.pairwise_cons, List.mem_singleton, forall_eq, List.not_mem_nil, false_imp_iff,
      implies_true, List.Pairwise.nil, and_true]
    exact Node.apart_of_ranks ranks
      ⟨rfl, rfl, .inr (.inr (.inr ⟨ranks, rfl, rfl, .string, List.mem_singleton_self _,
      List.mem_singleton_self _⟩))⟩
  have sorted : [Node.of (.domain .string), .of (.patterns [p])].Pairwise fun a b => b.precedes a =
      false := by
    simp [Node.precedes, Node.constraint, Constraint.rank]
  rw [Pattern.node, node, intersection_apart apart (by simp), Sorting.sort_eq_self sorted]
  rfl

omit [Library] in
/-- Which patterns they are makes no difference to what they stay beside. -/
theorem apart_patterns {ps : List Pattern} (apart : Node.Apart x (.of (.patterns ps)))
    (qs : List Pattern) : Node.Apart x (.of (.patterns qs)) := by
  obtain ⟨c⟩ := x
  obtain ⟨-, single, -, cases⟩ := apart
  rcases cases with nominal | nominal | ⟨m, n, -, divisor, -⟩ | ⟨ranks, literal, -, shared⟩
  · refine Node.apart_of_ranks ?_ ⟨single, rfl, .inl nominal⟩
    change c.isNominal = true at nominal
    cases c <;> first | (cases nominal; done) | simp [Constraint.rank]
  · cases nominal
  · cases divisor
  · exact Node.apart_of_ranks ranks
      ⟨single, rfl, .inr (.inr (.inr ⟨ranks, literal, rfl, shared⟩))⟩

theorem merged_patterns {ps : List Pattern} {p : Pattern} (other : ps ≠ [p]) (meet : Meet) :
    (Pairing.of meet (Properties.meetProps meet) (.of (.patterns ps)) (.of (.patterns [p]))).value
      id = .merged (.of (.patterns (Pattern.union ps [p]))) := by
  have different : (Node.of (.patterns ps)).same (.of (.patterns [p])) = false := by
    refine Bool.eq_false_iff.mpr fun same => other ?_
    have heads : (Constraint.patterns ps : Constraint Unit) = .patterns [p] :=
      Node.head_of_same same
    exact Constraint.patterns.inj heads
  unfold Pairing.of
  rw [different]
  rfl

omit [Library] in
theorem union_snoc {ps : List Pattern} {p : Pattern}
    (sorted : (ps ++ [p]).Pairwise (·.source < ·.source)) : Pattern.union ps [p] = ps ++ [p] := by
  have fresh : p ∉ ps := fun inside =>
    lt_irrefl _ ((List.pairwise_append.mp sorted).2.2 p inside p (List.mem_singleton_self p))
  have added : [p].filter (!ps.contains ·) = [p] := by simp [fresh]
  rw [Pattern.union, added, Sorting.sort_eq_self (sorted.imp fun {a b} lt => ?_)]
  exact decide_eq_false (lt_asymm lt)

theorem add_text (meet : Meet) (text : IsTextual k) {l : List Node} (apart : l.Pairwise Node.Apart)
    (hk : k ∈ l) :
    ∃ l', (add (Pairing.of meet (Properties.meetProps meet)) l (.of (.domain .string))).outcome
      id = .ok l' ∧ l'.Perm l := by
  obtain ⟨before, behind, rfl⟩ := List.append_of_mem hk
  obtain ⟨-, later, across⟩ := List.pairwise_append.mp apart
  have first (x : Node) (hx : x ∈ before) : Node.Apart x k := across x hx k List.mem_cons_self
  have last (x : Node) (hx : x ∈ behind) : Node.Apart x k :=
    ((List.pairwise_cons.mp later).1 x hx).symm
  refine ⟨_, add_replaces (fun x hx => text.apart (first x hx)) (text.merged meet)
    (List.forall_mem_append.mpr ⟨first, last⟩), ?_⟩
  have moved : (behind ++ [k]).Perm (k :: behind) := List.perm_append_singleton k behind
  simpa using moved.append_left before

theorem add_pattern (meet : Meet) {l ds : List Node} {ps : List Pattern} {p : Pattern}
    (perm : l.Perm (ds ++ patterned ps))
    (among : ∀ x ∈ ds, ∀ qs, Node.Apart x (.of (.patterns qs)))
    (sorted : (ps ++ [p]).Pairwise (·.source < ·.source)) :
    ∃ l', (add (Pairing.of meet (Properties.meetProps meet)) l (.of (.patterns [p]))).outcome id =
      .ok l' ∧ l'.Perm (ds ++ patterned (ps ++ [p])) := by
  have whole : patterned (ps ++ [p]) = [.of (.patterns (ps ++ [p]))] := by simp [patterned]
  rw [whole]
  by_cases none : ps = []
  · subst none
    rw [show patterned [] = [] from rfl, List.append_nil] at perm
    exact ⟨_, add_irreducible fun x hx =>
      Pairing.of_apart meet (among x (perm.mem_iff.mp hx) [p]), perm.append_right _⟩
  · have there : patterned ps = [.of (.patterns ps)] := by simp [patterned, none]
    rw [there] at perm
    have fresh : ps ≠ [p] := by
      rintro rfl
      exact absurd ((List.pairwise_append.mp sorted).2.2 p (by simp) p (by simp)) (lt_irrefl _)
    obtain ⟨before, behind, rfl⟩ :=
      List.append_of_mem (perm.mem_iff.mpr (List.mem_append_right ds List.mem_cons_self))
    have others : (before ++ behind).Perm ds := by
      have front : (before ++ .of (.patterns ps) :: behind).Perm
          (.of (.patterns ps) :: (before ++ behind)) :=
        List.perm_middle
      exact (List.perm_cons _).mp ((front.symm.trans perm).trans List.perm_append_comm)
    have apart (qs : List Pattern) (x : Node) (hx : x ∈ before ++ behind) :
        Node.Apart x (.of (.patterns qs)) :=
      among x (others.mem_iff.mp hx) qs
    refine ⟨_, add_replaces (fun x hx => apart [p] x (List.mem_append_left behind hx)) ?_
      (apart (ps ++ [p])), others.append_right _⟩
    rw [merged_patterns fresh, union_snoc sorted]

theorem Beside.fewer {ds : List Node} {ps qs : List Pattern}
    (h : Beside (ds ++ patterned (ps ++ qs))) : Beside (ds ++ patterned ps) := by
  have first := h.sublist (List.sublist_append_left ds _)
  by_cases none : ps = []
  · rwa [none, show patterned [] = [] from rfl, List.append_nil]
  have all : patterned (ps ++ qs) = [.of (.patterns (ps ++ qs))] := by simp [patterned, none]
  have some_pattern : patterned ps = [.of (.patterns ps)] := by simp [patterned, none]
  rw [all] at h
  rw [some_pattern]
  obtain ⟨written, -⟩ := h.written (.of (.patterns (ps ++ qs))) (by simp)
  obtain ⟨-, sorted, each⟩ := written.form
  have sublist := List.sublist_append_left ps qs
  refine ⟨List.forall_mem_append.mpr
    ⟨first.written, List.forall_mem_singleton.mpr ⟨?_, rfl⟩⟩, ?_⟩
  · exact .leaf (written.reduced.settled.sublist sublist)
      ⟨none, sorted.sublist sublist, fun q hq => each q (by simp [hq])⟩ rfl
  · refine List.pairwise_append.mpr
      ⟨first.apart, List.pairwise_singleton _ _, fun x hx y hy => ?_⟩
    rw [List.mem_singleton.mp hy]
    exact apart_patterns ((List.pairwise_append.mp h.apart).2.2 x hx _ (List.mem_singleton_self _))
      ps

theorem meet_pattern {ds : List Node} {ps : List Pattern} {p : Pattern} (text : IsTextual k)
    (hk : k ∈ ds) (beside : Beside (ds ++ patterned (ps ++ [p]))) :
    (SchemaAlgebra.meet (node (ds ++ patterned ps)) p.node).outcome id =
      .ok (node (ds ++ patterned (ps ++ [p]))) := by
  have before := beside.fewer
  have whole : patterned (ps ++ [p]) = [.of (.patterns (ps ++ [p]))] := by simp [patterned]
  rw [whole] at beside ⊢
  obtain ⟨written, single⟩ := beside.written (.of (.patterns (ps ++ [p]))) (by simp)
  obtain ⟨-, sorted, each⟩ := written.form
  have among (x : Node) (hx : x ∈ ds) (qs : List Pattern) : Node.Apart x (.of (.patterns qs)) :=
    apart_patterns ((List.pairwise_append.mp beside.apart).2.2 x hx _ (List.mem_singleton_self _))
      qs
  have new : .of (.patterns [p]) ∉ ds ++ patterned ps := by
    intro found
    rcases List.mem_append.mp found with found | found
    · have itself := (among _ found [p]).1
      rw [Node.same_refl] at itself
      cases itself
    · rw [patterned] at found
      split_ifs at found
      · cases found
      · obtain rfl : [p] = ps :=
          Constraint.patterns.inj (Node.of.inj (List.mem_singleton.mp found))
        exact absurd ((List.pairwise_append.mp sorted).2.2 p (by simp) p (by simp)) (lt_irrefl _)
  obtain ⟨written', plain', perm⟩ := node_written before.written before.apart
  have known := Pattern.node_written (p := p) (each p (by simp))
  have different : node (ds ++ patterned ps) ≠ p.node := by
    intro same
    refine new (perm.mem_iff.mp ?_)
    rw [same, conjuncts_pattern]
    simp
  rw [meet_plain written' known.1 plain' rfl different, conjuncts_pattern, outcome_addAll_cons]
  obtain ⟨l, added, moved⟩ := add_text meetFreely text (before.perm perm.symm).apart
    (perm.mem_iff.mpr (List.mem_append_left (patterned ps) hk))
  obtain ⟨l', added', moved'⟩ := add_pattern meetFreely (moved.trans perm) among sorted
  rw [whole] at moved'
  rw [added]
  change ((addAll _ l [.of (.patterns [p])]).outcome id).map node = _
  rw [outcome_addAll_cons, added']
  exact congrArg Except.ok (beside.node_perm moved'.symm).symm

end Conjunction

/-- The parts of a plain node that has a domain. -/
structure Layout where
  kind : Constraint Node
  range : Option Range
  divisors : List Nat
  patterns : List Pattern
  element : Option Node
  brands : List String

namespace Layout

/-- The arrays whose items all satisfy the element, as a conjunct. -/
def arrayOf (element : Node) : Node := .of (.props (.ofSequence ⟨[], some element⟩))

def conjuncts (x : Layout) : List Node :=
  .of x.kind :: (x.range.toList.map (.of <| .bound ·) ++ (x.divisors.map (.of <| .divisor ·) ++
    (Conjunction.patterned x.patterns ++
      (x.element.toList.map arrayOf ++ x.brands.map (.of <| .brand ·)))))

/-- Written constraints side by side, in the order of their ranks and none below `r`. -/
structure Ordered (r : Nat) (l : List Node) : Prop where
  beside : Conjunction.Beside l
  sorted : l.Pairwise fun a b => a.constraint.rank ≤ b.constraint.rank
  low : ∀ c ∈ l, r ≤ c.constraint.rank

namespace Ordered

variable {l : List Node} {r : Nat}

theorem split (h : Ordered r l) : ∃ here later, l = here ++ later ∧ Conjunction.Beside here ∧
    (∀ c ∈ here, c.constraint.rank = r) ∧ Ordered (r + 1) later := by
  obtain ⟨beside, sorted, low⟩ := h
  induction l with
  | nil => exact ⟨[], [], rfl, beside, nofun, beside, sorted, nofun⟩
  | cons c l ih =>
    obtain ⟨first, later⟩ := List.pairwise_cons.mp sorted
    obtain ⟨lowest, low⟩ := List.forall_mem_cons.mp low
    rcases Nat.eq_or_lt_of_le lowest with same | higher
    · obtain ⟨here, above, rfl, inner, equal, ordered⟩ :=
        ih (beside.sublist (List.sublist_cons_self c l)) later low
      refine ⟨c :: here, above, rfl, beside.sublist ?_,
        List.forall_mem_cons.mpr ⟨same.symm, equal⟩, ordered⟩
      exact List.sublist_append_left (c :: here) above
    · exact ⟨[], c :: l, rfl, beside.sublist (List.nil_sublist _), nofun, beside, sorted,
        List.forall_mem_cons.mpr ⟨higher, fun d hd => higher.trans_le (first d hd)⟩⟩

/-- Apart from divisors and brands, no two conjuncts of one rank stay side by side. -/
theorem single (h : Conjunction.Beside l) (rank : ∀ c ∈ l, c.constraint.rank = r)
    (noDivisor : r ≠ 2) (named : r < 5) :
    l = [] ∨ ∃ c, l = [.of c] ∧ c.rank = r ∧ c.IsWritten := by
  match l, h, rank with
  | [], _, _ => exact .inl rfl
  | [.of c], h, rank =>
    exact .inr ⟨c, rfl, rank (.of c) (by simp),
      (h.written (.of c) (List.mem_singleton_self _)).1.form⟩
  | .of a :: .of b :: l, h, rank =>
    have ha : a.rank = r := rank (.of a) (by simp)
    have hb : b.rank = r := rank (.of b) (by simp)
    have nominal {c : Constraint Node} (hc : c.rank = r) : c.isNominal = false := by
      cases c <;> first | rfl | (simp only [Constraint.rank] at hc; omega)
    obtain ⟨-, -, -, cases⟩ := (List.pairwise_cons.mp h.apart).1 (.of b) List.mem_cons_self
    rcases cases with left | right | ⟨m, n, divisor, -, -⟩ | ⟨ranks, -⟩
    · exact absurd left (by simp [Node.constraint, nominal ha])
    · exact absurd right (by simp [Node.constraint, nominal hb])
    · change a = _ at divisor
      subst divisor
      exact absurd ha.symm noDivisor
    · exact absurd (ha.trans hb.symm) ranks

omit [Library] in
theorem exists_map {α : Type u} {f : α → Node} (h : ∀ b ∈ l, ∃ a, b = f a) :
    ∃ as : List α, l = as.map f := by
  induction l with
  | nil => exact ⟨[], rfl⟩
  | cons b l ih =>
    obtain ⟨⟨a, rfl⟩, later⟩ := List.forall_mem_cons.mp h
    obtain ⟨as, rfl⟩ := ih later
    exact ⟨a :: as, rfl⟩

theorem brands (h : Ordered 5 l) : ∃ names : List String, l = names.map (.of <| .brand ·) := by
  refine exists_map fun b hb => ?_
  obtain ⟨written, single⟩ := h.beside.written b hb
  have rank := h.low b hb
  have form := written.form
  obtain ⟨c⟩ := b
  cases c <;> first
    | exact ⟨_, rfl⟩
    | exact form.elim
    | (cases single; done)
    | simp [Node.constraint, Constraint.rank] at rank

theorem element (h : Ordered 4 l) : ∃ (e : Option Node) (names : List String),
    l = e.toList.map arrayOf ++ names.map (.of <| .brand ·) := by
  obtain ⟨here, later, rfl, beside, rank, ordered⟩ := h.split
  obtain ⟨names, rfl⟩ := ordered.brands
  rcases single beside rank (by decide) (by decide) with rfl | ⟨c, rfl, rank, form⟩
  · exact ⟨none, names, rfl⟩
  · cases c with
    | props p =>
      obtain ⟨e, rfl, -⟩ := form
      exact ⟨some e, names, rfl⟩
    | _ => cases rank

theorem patterns (h : Ordered 3 l) :
    ∃ (ps : List Pattern) (e : Option Node) (names : List String),
    l = Conjunction.patterned ps ++ (e.toList.map arrayOf ++ names.map (.of <| .brand ·)) := by
  obtain ⟨here, later, rfl, beside, rank, ordered⟩ := h.split
  obtain ⟨e, names, rfl⟩ := ordered.element
  rcases single beside rank (by decide) (by decide) with rfl | ⟨c, rfl, rank, form⟩
  · exact ⟨[], e, names, rfl⟩
  · cases c with
    | patterns ps => exact ⟨ps, e, names, by simp [Conjunction.patterned, form.1]⟩
    | _ => cases rank

theorem divisors (h : Ordered 2 l) :
    ∃ (ns : List Nat) (ps : List Pattern) (e : Option Node) (names : List String),
    l = ns.map (.of <| .divisor ·) ++
      (Conjunction.patterned ps ++ (e.toList.map arrayOf ++ names.map (.of <| .brand ·))) := by
  obtain ⟨here, later, rfl, -, rank, ordered⟩ := h.split
  obtain ⟨ps, e, names, rfl⟩ := ordered.patterns
  obtain ⟨ns, rfl⟩ : ∃ ns : List Nat, here = ns.map (.of <| .divisor ·) := by
    refine exists_map fun d hd => ?_
    have rank := rank d hd
    obtain ⟨c⟩ := d
    cases c <;> first | exact ⟨_, rfl⟩ | cases rank
  exact ⟨ns, ps, e, names, rfl⟩

theorem layout (h : Ordered 0 l) {k : Node} (hk : k ∈ l) (fixed : k.constraint.rank = 0) :
    ∃ x : Layout, l = x.conjuncts ∧ x.kind.rank = 0 := by
  obtain ⟨here, later, rfl, beside, rank, ordered⟩ := h.split
  rcases single beside rank (by decide) (by decide) with rfl | ⟨c, rfl, lowest, -⟩
  · have above := ordered.low k hk
    omega
  obtain ⟨here, later, rfl, beside, rank, ordered⟩ := ordered.split
  obtain ⟨ns, ps, e, names, rfl⟩ := ordered.divisors
  rcases single beside rank (by decide) (by decide) with rfl | ⟨b, rfl, rank, -⟩
  · exact ⟨⟨c, none, ns, ps, e, names⟩, rfl, lowest⟩
  · cases b with
    | bound r => exact ⟨⟨c, some r, ns, ps, e, names⟩, rfl, lowest⟩
    | _ => cases rank

end Ordered

end Layout

namespace Node

variable {n : Node}

theorem Written.beside (h : n.Written) (plain : n.isPlain = true) :
    Conjunction.Beside n.conjuncts :=
  ⟨fun c hc => ⟨h.conjuncts c hc, isComposite_of_plain h.reduced plain hc⟩,
    h.reduced.conjuncts_pairwise⟩

/-- A plain node with a domain consists of parts in their order. -/
theorem Written.layout (h : n.Written) (plain : n.isPlain = true) {k : Node}
    (hk : k ∈ n.conjuncts) (fixed : k.constraint.rank = 0) :
    ∃ x : Layout, n.conjuncts = x.conjuncts ∧ x.kind.rank = 0 := by
  refine Layout.Ordered.layout ⟨h.beside plain, ?_, fun c _ => Nat.zero_le _⟩ hk fixed
  obtain ⟨c⟩ := n
  cases c with
  | intersection children =>
    refine h.form.2.imp fun {a b} le => ?_
    rw [precedes, Bool.or_eq_false_iff, decide_eq_false_iff_not] at le
    exact not_lt.mp le.1
  | _ => exact List.pairwise_singleton _ _

end Node

theorem Conjunction.Beside.apart_of_ne {l : List Node} (h : Beside l) {a b : Node} (ha : a ∈ l)
    (hb : b ∈ l) (other : a ≠ b) : Node.Apart a b :=
  have : Std.Symm Node.Apart := ⟨fun _ _ apart => apart.symm⟩
  h.apart.forall ha hb other

/-- Of the constraints that fix a domain, none stays beside another. -/
theorem Conjunction.Beside.kind_unique {l : List Node} (h : Beside l) {k c : Node} (hk : k ∈ l)
    (hc : c ∈ l) (fixed : k.constraint.rank = 0) (fixed' : c.constraint.rank = 0) : c = k := by
  by_contra other
  have nominal {e : Constraint Node} (he : e.rank = 0) : e.isNominal = false := by
    cases e <;> first | rfl | cases he
  obtain ⟨-, -, -, left | right | ⟨m, n, divisor, -, -⟩ | ⟨ranks, -⟩⟩ :=
    h.apart_of_ne hc hk other
  · exact absurd left (by simp [nominal fixed'])
  · exact absurd right (by simp [nominal fixed])
  · rw [divisor] at fixed'
    cases fixed'
  · exact ranks (fixed'.trans fixed.symm)

theorem Conjunction.Beside.findSome_kind {α : Type} {l : List Node} (h : Beside l) {k : Node}
    (hk : k ∈ l) (fixed : k.constraint.rank = 0) {f : Node → Option α}
    (kinds : ∀ c ∈ l, (f c).isSome = true → c.constraint.rank = 0) : l.findSome? f = f k := by
  cases found : l.findSome? f with
  | none => exact (List.findSome?_eq_none_iff.mp found k hk).symm
  | some a =>
    obtain ⟨c, hc, same⟩ := List.exists_of_findSome?_eq_some found
    rw [← h.kind_unique hk hc fixed (kinds c hc (by rw [same]; rfl)), same]

section

variable {l : List Node} (h : Conjunction.Beside l) {k : Constraint Node} (hk : .of k ∈ l)
  (fixed : k.rank = 0)
include h hk fixed

theorem Conjunction.Beside.domain : (node l).domain? = k.fixedDomain? := by
  obtain ⟨-, plain, perm⟩ := node_written h.written h.apart
  have single (c : Node) (hc : c ∈ (node l).conjuncts) := (h.written c (perm.mem_iff.mp hc)).2
  have found := (h.perm perm.symm).findSome_kind (perm.mem_iff.mpr hk) fixed (f := Node.domain?)
      fun c hc some_domain => by
    rw [Node.domain_of_single (single c hc)] at some_domain
    obtain ⟨c⟩ := c
    cases c <;> first | rfl | cases some_domain
  rw [Node.domain_of_plain plain, found, Node.domain_of_single (h.written _ hk).2]
  rfl

theorem Conjunction.Beside.basis : (node l).basis? = k.basis? := by
  obtain ⟨-, plain, perm⟩ := node_written h.written h.apart
  have single (c : Node) (hc : c ∈ (node l).conjuncts) := (h.written c (perm.mem_iff.mp hc)).2
  have found := (h.perm perm.symm).findSome_kind (perm.mem_iff.mpr hk) fixed (f := Node.basis?)
      fun c hc some_basis => by
    rw [Node.basis_of_single (single c hc)] at some_basis
    obtain ⟨c⟩ := c
    cases c <;> first | rfl | cases some_basis
  rw [Node.basis_of_plain plain, found, Node.basis_of_single (h.written _ hk).2]
  rfl

end

namespace Layout

/-- Parts that stay side by side, of which the others refine the kind. -/
structure Sound (x : Layout) : Prop where
  beside : Conjunction.Beside x.conjuncts
  fixed : x.kind.rank = 0
  grounded : Conjunction.Grounded x.conjuncts

namespace Sound

variable {x : Layout}

/-- A kind that is refined is no literal and not that of all objects, and it shares a domain with
the refinement. -/
theorem refined (h : x.Sound) {c : Constraint Node} (hc : .of c ∈ x.conjuncts)
    (refines : c.isRefinement = true) :
    x.kind.isKind = true ∧ x.kind.isLiteral = false ∧ ∃ d, x.kind.fixedDomain? = some d ∧
      d ∈ c.refinedDomains := by
  have first : .of x.kind ∈ x.conjuncts := List.mem_cons_self
  have plain : c.isNominal = false ∧ c.domains = c.refinedDomains ∧ c.rank ≠ 0 := by
    cases c <;> first | (cases refines; done) | exact ⟨rfl, rfl, nofun⟩
  have kind : x.kind.isKind = true := by
    rcases h.grounded with ⟨k, hk, kind⟩ | free
    · have lowest : k.constraint.rank = 0 := by
        generalize k.constraint = e at kind
        cases e <;> first | rfl | cases kind
      rwa [h.beside.kind_unique first hk h.fixed lowest] at kind
    · exact absurd refines (Bool.eq_false_iff.mp (free _ hc))
  have other : Node.of x.kind ≠ .of c := fun same => plain.2.2 (Node.of.inj same ▸ h.fixed)
  obtain ⟨-, -, -, cases⟩ := h.beside.apart_of_ne first hc other
  change x.kind.isNominal = true ∨ c.isNominal = true ∨
    (∃ m n, x.kind = .divisor m ∧ c = .divisor n ∧ _) ∨
    (_ ∧ x.kind.isLiteral = false ∧ c.isLiteral = false ∧
      ∃ d ∈ x.kind.domains, d ∈ c.domains) at cases
  have fixed := h.fixed
  rcases cases with nominal | nominal | ⟨m, n, divisor, -, -⟩ | ⟨-, literal, -, d,
    shared, inside⟩
  · generalize x.kind = e at fixed nominal
    cases e <;> first | (cases fixed; done) | cases nominal
  · rw [plain.1] at nominal
    cases nominal
  · rw [divisor] at fixed
    cases fixed
  · refine ⟨kind, literal, d, ?_, plain.2.1 ▸ inside⟩
    generalize x.kind = e at kind shared
    cases e <;> first | (cases kind; done) | simpa [Constraint.domains, Constraint.fixedDomain?,
      eq_comm] using shared

theorem kind_of_bound (h : x.Sound) {r : Range} (hr : x.range = some r) :
    x.kind = .domain .number ∨ x.kind = .domain .string ∨ ∃ b, x.kind = .basis b := by
  obtain ⟨kind, literal, d, found, inside⟩ :=
    h.refined (c := .bound r) (by simp [conjuncts, hr]) rfl
  generalize x.kind = e at kind literal found
  cases e with
  | domain e =>
    cases found
    cases d <;> simp [Constraint.refinedDomains, Constraint.isKind] at inside kind ⊢
  | literal l => cases literal
  | basis b => exact .inr (.inr ⟨b, rfl⟩)
  | _ => cases kind

theorem kind_of_divisor (h : x.Sound) {k : Nat} (hk : k ∈ x.divisors) :
    x.kind = .domain .number := by
  obtain ⟨kind, literal, d, found, inside⟩ :=
    h.refined (c := .divisor k) (by simp [conjuncts, hk]) rfl
  obtain rfl := List.mem_singleton.mp inside
  generalize x.kind = e at kind literal found
  cases e with
  | domain e =>
    cases found
    rfl
  | literal l => cases literal
  | basis b => cases b <;> cases found
  | _ => cases kind

theorem kind_of_patterns (h : x.Sound) (some_pattern : x.patterns ≠ []) :
    Conjunction.IsTextual (.of x.kind) := by
  obtain ⟨kind, literal, d, found, inside⟩ := h.refined (c := .patterns x.patterns)
    (by simp [conjuncts, Conjunction.patterned, some_pattern]) rfl
  obtain rfl := List.mem_singleton.mp inside
  generalize x.kind = e at kind literal found
  cases e with
  | domain e =>
    cases found
    exact .inl rfl
  | literal l => cases literal
  | basis b =>
    cases b with
    | array => cases found
    | date => exact .inr rfl
  | _ => cases kind

theorem kind_of_element (h : x.Sound) {e : Node} (he : x.element = some e) :
    x.kind = .basis .array := by
  obtain ⟨kind, literal, d, found, inside⟩ :=
    h.refined (c := .props (.ofSequence ⟨[], some e⟩)) (by simp [conjuncts, he, arrayOf]) rfl
  obtain rfl := List.mem_singleton.mp inside
  generalize x.kind = e at kind literal found
  cases e with
  | domain e =>
    cases found
    cases kind
  | literal l => cases literal
  | basis b =>
    cases b with
    | array => rfl
    | date => cases found
  | _ => cases kind

end Sound

end Layout

end SchemaAlgebra

import SchemaAlgebra.Proofs.Grouping
import SchemaAlgebra.Proofs.Sessions
import SchemaAlgebra.Proofs.Writing

/-!
# Reading a text again

A text that was read to a node is read to that node again, up to what is erased: by then the
aliases that it refers to are resolved, and resolving them again gives the same nodes. It
does not matter whether the text stands alone or in parentheses.
-/
namespace SchemaAlgebra
namespace Parsing

variable {α β γ δ : Type} {R : α → β → Prop} {S : γ → δ → Prop}

/-- Where the first computation succeeds, the second one succeeds in any state. Their results are
related, and nothing is resolved. -/
def Mirrors (R : α → β → Prop) (x : Parsing α) (y : Parsing β) : Prop :=
  ∀ s a t, x.run.run s = (.ok a, t) → t.resolutions = s.resolutions ∧
    ∀ s', ∃ b t', y.run.run s' = (.ok b, t') ∧ t'.resolutions = s'.resolutions ∧ R a b

def Quiet (x : Parsing α) : Prop := ∀ s, (x.run.run s).2.resolutions = s.resolutions

theorem quiet_build (x : Traced α) : Quiet (build x) := by
  intro s
  rw [run_build, ScopeState.run_eq]
  exact (ScopeState.foldl_record _ s).2.1

/-- The result of a computation of the algebra is taken or leads to a fault. -/
theorem Quiet.after {x : Parsing α} {f : α → Parsing γ} (first : Quiet x)
    (next : ∀ a, (∃ b, f a = pure b) ∨ ∃ e, f a = throw e) : Quiet (x >>= f) := by
  intro s
  have same := first s
  cases ran : x.run.run s with
  | mk o t =>
    rw [ran] at same
    cases o with
    | error e => rw [run_bind_error ran, same]
    | ok a =>
      rw [run_bind_ok ran]
      rcases next a with ⟨b, taken⟩ | ⟨e, failed⟩
      · rw [taken]
        exact same
      · rw [failed]
        exact same

theorem quiet_intersect [Library] (l r : Node) : Quiet (intersect l r) :=
  (quiet_build _).after fun o =>
    match o with
    | .ok n => .inl ⟨n, rfl⟩
    | .error _ => .inr ⟨_, rfl⟩

theorem quiet_unite [Library] (nodes : List Node) : Quiet (unite nodes) :=
  (quiet_build _).after fun o =>
    match o with
    | .ok n => .inl ⟨n, rfl⟩
    | .error _ => .inr ⟨_, rfl⟩

namespace Mirrors

theorem pure {a : α} {b : β} (h : R a b) : Mirrors R (Pure.pure a) (Pure.pure b) := by
  intro s c t ran
  cases ran
  exact ⟨rfl, fun s' => ⟨b, s', rfl, rfl, h⟩⟩

theorem fail (f : Fault) (y : Parsing β) : Mirrors R (Parsing.fail f) y :=
  fun _ _ _ ran => nomatch ran

theorem bind {x : Parsing α} {y : Parsing β} {f : α → Parsing γ} {g : β → Parsing δ}
    (first : Mirrors R x y) (next : ∀ a b, R a b → Mirrors S (f a) (g b)) :
    Mirrors S (x >>= f) (y >>= g) := by
  intro s c t ran
  obtain ⟨a, u, ran, later⟩ := run_bind_eq_ok.mp ran
  obtain ⟨same, again⟩ := first s a u ran
  constructor
  · obtain ⟨b, -, -, -, related⟩ := again s
    exact (next a b related u c t later).1.trans same
  · intro s'
    obtain ⟨b, v, ran', same', related⟩ := again s'
    obtain ⟨e, w, later', same'', related'⟩ := (next a b related u c t later).2 v
    exact ⟨e, w, run_bind_eq_ok.mpr ⟨b, v, ran', later'⟩, same''.trans same', related'⟩

theorem ite {c : Prop} [Decidable c] {x x' : Parsing α} {y y' : Parsing β}
    (yes : c → Mirrors R x y) (no : ¬c → Mirrors R x' y') :
    Mirrors R (if c then x else x') (if c then y else y') := by
  by_cases h : c
  · rw [if_pos h, if_pos h]
    exact yes h
  · rw [if_neg h, if_neg h]
    exact no h

/-- Two computations of the algebra with the same result, up to what is erased. -/
theorem of_result {x y : Parsing Node} {o : Option Node} (hx : Result x o) (hy : Result y o)
    (quiet : Quiet x) (quiet' : Quiet y) : Mirrors (fun a b => a.erase = b.erase) x y := by
  intro s a t ran
  have same := quiet s
  rw [ran] at same
  refine ⟨same, fun s' => ?_⟩
  have found := (hx s).trans (hy s').symm
  rw [ran] at found
  have same' := quiet' s'
  cases ran' : y.run.run s' with
  | mk o' t' =>
    rw [ran'] at found same'
    cases o' with
    | error e => cases found
    | ok b => exact ⟨b, t', rfl, same', Option.some.inj found⟩

theorem build {x y : Traced Node} {m : Node}
    (built : ∀ rep : Node → Node, (∀ n : Node, n.same (rep n) = true) →
      (x.value rep).erase = m)
    (built' : ∀ rep : Node → Node, (∀ n : Node, n.same (rep n) = true) →
      (y.value rep).erase = m) :
    Mirrors (fun a b => a.erase = b.erase) (Parsing.build x) (Parsing.build y) :=
  of_result (result_build built) (result_build built') (quiet_build x) (quiet_build y)

theorem build_node (n : Node) :
    Mirrors (fun a b => a.erase = b.erase) (Parsing.build (Traced.build n))
      (Parsing.build (Traced.build n)) :=
  build (fun _ faithful => (Node.same_iff.mp (faithful n)).symm) fun _ faithful =>
    (Node.same_iff.mp (faithful n)).symm

variable {l l' r r' : Node}

theorem intersect [Library] (left : l.erase = l'.erase) (right : r.erase = r'.erase) :
    Mirrors (fun a b => a.erase = b.erase) (Parsing.intersect l r) (Parsing.intersect l' r') := by
  have result := result_intersect l' r'
  rw [← left, ← right] at result
  exact of_result (result_intersect l r) result (quiet_intersect l r) (quiet_intersect l' r')

theorem unite [Library] {nodes nodes' : List Node}
    (same : nodes.map Node.erase = nodes'.map Node.erase) :
    Mirrors (fun a b => a.erase = b.erase) (Parsing.unite nodes) (Parsing.unite nodes') := by
  have result := result_unite nodes'
  rw [← same] at result
  exact of_result (result_unite nodes) result (quiet_unite nodes) (quiet_unite nodes')

theorem arrayOf (same : l.erase = l'.erase) :
    Mirrors (fun a b => a.erase = b.erase) (Parsing.build (Traced.arrayOf l))
      (Parsing.build (Traced.arrayOf l')) :=
  build (fun _ faithful => Traced.arrayOf_erase faithful l)
    fun _ faithful => (Traced.arrayOf_erase faithful l').trans (congrArg Node.array same.symm)

end Mirrors

end Parsing

open Parsing

def Group.erase (g : Group) : Group :=
  ⟨g.leftBound, g.intersection.map Node.erase, g.branches.map Node.erase⟩

theorem Group.erase_eq_iff {g g' : Group} : g.erase = g'.erase ↔ g.leftBound = g'.leftBound ∧
    g.intersection.map Node.erase = g'.intersection.map Node.erase ∧
      g.branches.map Node.erase = g'.branches.map Node.erase := by
  simp [erase]

/-- What is read next is the same, up to what is erased. The end of the text is not read yet. -/
inductive Awaiting.Mirrors : Awaiting → Awaiting → Prop
  | operand : Mirrors .operand .operand
  | operator {n m : Node} (same : n.erase = m.erase) : Mirrors (.operator n) (.operator m)
  | divisor {n m : Node} (same : n.erase = m.erase) : Mirrors (.divisor n) (.divisor m)
  | limit {n m : Node} (c : Comparator) (same : n.erase = m.erase) :
    Mirrors (.limit n c) (.limit m c)

namespace ExpressionState

/-- The second state is the first one up to what is erased, with more groups around it. -/
structure Within (around : List Group) (optional : Bool) (e e' : ExpressionState) : Prop where
  awaiting : e.awaiting.Mirrors e'.awaiting
  group : e.group.erase = e'.group.erase
  outer : ∃ inner, e'.outer = inner ++ around ∧ e.outer.map Group.erase = inner.map Group.erase
  optional : e'.optional = optional

variable {around : List Group} {optional : Bool} {e e' : ExpressionState} {g g' : Group}
  {n m : Node}

theorem Within.operator (h : Within around optional e e') (same : n.erase = m.erase) :
    Within around optional { e with awaiting := .operator n } { e' with awaiting := .operator m } :=
  ⟨.operator same, h.group, h.outer, h.optional⟩

theorem mirrors_checkLeftBound (group : g.erase = g'.erase) :
    Mirrors (fun _ _ => True) (checkLeftBound g) (checkLeftBound g') := by
  rw [checkLeftBound, checkLeftBound, (Group.erase_eq_iff.mp group).1]
  cases g'.leftBound with
  | some b => exact .fail _ _
  | none => exact .pure trivial

theorem mirrors_conjoin [Library] (group : g.erase = g'.erase) (same : n.erase = m.erase) :
    Mirrors (fun a b => a.erase = b.erase) (conjoin g n) (conjoin g' m) := by
  obtain ⟨-, pending, -⟩ := Group.erase_eq_iff.mp group
  refine (mirrors_checkLeftBound group).bind fun _ _ _ => ?_
  cases hg : g.intersection <;> cases hg' : g'.intersection <;> rw [hg, hg'] at pending
  · exact .pure same
  · cases pending
  · cases pending
  · exact .intersect (Option.some.inj pending) same

theorem mirrors_finishGroup [Library] (group : g.erase = g'.erase) (same : n.erase = m.erase) :
    Mirrors (fun a b => a.erase = b.erase) (finishGroup g n) (finishGroup g' m) := by
  obtain ⟨-, -, branches⟩ := Group.erase_eq_iff.mp group
  refine (mirrors_conjoin group same).bind fun a b last => .unite ?_
  rw [List.map_append, List.map_append, branches, List.map_singleton, List.map_singleton, last]

theorem mirrors_requireAll {test : Node → Bool} (blind : ∀ k : Node, test k.erase = test k)
    (fault : Node → Fault) (same : n.erase = m.erase) :
    Mirrors (fun _ _ => True) (requireAll test fault n) (requireAll test fault m) := by
  have branches : n.branches.map Node.erase = m.branches.map Node.erase := by
    rw [← Node.branches_erase, ← Node.branches_erase, same]
  have found (k : Node) : (k.branches.find? (!test ·)).isSome = (k.branches.map Node.erase).any
      (!test ·) := by
    rw [List.any_map, Bool.eq_iff_iff, List.find?_isSome, List.any_eq_true]
    simp [blind]
  rw [requireAll, requireAll]
  cases hn : n.branches.find? (!test ·) with
  | some k => exact .fail _ _
  | none =>
    have none := found n
    rw [hn, branches, ← found m] at none
    rw [Option.isNone_iff_eq_none.mp (Option.isSome_eq_false_iff.mp none.symm)]
    exact .pure trivial

theorem mirrors_divide [Library] (same : n.erase = m.erase) (t : Token) :
    Mirrors (fun a b => a.erase = b.erase) (divide n t) (divide m t) := by
  have numeric (k : Node) : (k.erase.domain? == some .number) = (k.domain? == some .number) := by
    rw [show k.erase.domain? = k.domain? from Node.fold_erase (fun c => by cases c <;> rfl) k]
  rw [divide, divide]
  cases divisor? t with
  | none => exact .fail _ _
  | some k =>
    refine (mirrors_requireAll numeric _ same).bind fun _ _ _ => ?_
    exact Mirrors.bind (.build_node _) fun _ _ divisor => .intersect same divisor

theorem mirrors_combinedRange (left : Option LeftBound) (c : Comparator) (x : Binary64) :
    Mirrors (fun r r' => r = r') (combinedRange left c x) (combinedRange left c x) := by
  unfold combinedRange
  cases left with
  | none => exact .pure rfl
  | some b =>
    refine .ite (fun _ => .fail _ _) fun _ => ?_
    cases (rangeOf b.comparator.invert b.value).intersect? (rangeOf c x) with
    | some r => exact .pure rfl
    | none => exact .fail _ _

theorem mirrors_boundBy [Library] (group : g.erase = g'.erase) (same : n.erase = m.erase)
    (c : Comparator) (t : Token) :
    Mirrors (fun a b => a.erase = b.erase) (boundBy g n c t) (boundBy g' m c t) := by
  rw [boundBy, boundBy, (Group.erase_eq_iff.mp group).1]
  cases limit? t with
  | none => exact .fail _ _
  | some x =>
    refine (mirrors_combinedRange g'.leftBound c x).bind fun r r' range => ?_
    subst range
    refine (mirrors_requireAll Node.sizable_erase _ same).bind fun _ _ _ => ?_
    exact Mirrors.bind (.build_node _) fun _ _ bound => .intersect same bound

theorem literal_of_erase (same : n.erase = m.erase) (x : Numeral) :
    n.constraint = .literal (.number x) ↔ m.constraint = .literal (.number x) := by
  have number (k : Node) : k.constraint = .literal (.number x) ↔
      k.erase.constraint = .literal (.number x) := by
    rw [Node.erase_constraint]
    cases k.constraint <;> simp [Constraint.erased, Constraint.map]
  rw [number n, number m, same]

theorem compare_of_not_number (e : ExpressionState)
    (none : ¬ ∃ x, n.constraint = .literal (.number x)) (c : Comparator) :
    compare e n c = pure { e with awaiting := .limit n c } := by
  unfold compare
  split
  · rename_i x found
    exact absurd ⟨x, found⟩ none
  · rfl

theorem mirrors_compare (h : Within around optional e e') (same : n.erase = m.erase)
    (c : Comparator) : Mirrors (Within around optional) (compare e n c) (compare e' m c) := by
  obtain ⟨left, pending, branches⟩ := Group.erase_eq_iff.mp h.group
  by_cases number : ∃ x, n.constraint = .literal (.number x)
  · obtain ⟨x, found⟩ := number
    rw [compare, compare, found, (literal_of_erase same x).mp found, left]
    refine .ite (fun _ => .fail _ _) fun _ => .ite (fun _ => .pure ?_) fun _ => .fail _ _
    exact ⟨.operand, Group.erase_eq_iff.mpr ⟨rfl, pending, branches⟩, h.outer, h.optional⟩
  · have other : ¬ ∃ x, m.constraint = .literal (.number x) :=
      fun ⟨x, found⟩ => number ⟨x, (literal_of_erase same x).mpr found⟩
    rw [compare_of_not_number e number, compare_of_not_number e' other]
    exact .pure ⟨.limit c same, h.group, h.outer, h.optional⟩

variable [Library]

theorem mirrors_close (h : Within around optional e e') (same : n.erase = m.erase) :
    Mirrors (Within around optional) (close e n) (close e' m) := by
  obtain ⟨inner, around_inner, outer⟩ := h.outer
  unfold close
  cases he : e.outer with
  | nil => exact .fail _ _
  | cons parent rest =>
    rw [he] at outer
    cases inner with
    | nil => cases outer
    | cons parent' rest' =>
      rw [around_inner]
      obtain ⟨same_parent, same_rest⟩ := List.cons.inj outer
      refine (mirrors_finishGroup h.group same).bind fun a b closed => .pure ?_
      exact ⟨.operator closed, same_parent, ⟨rest', rfl, same_rest⟩, h.optional⟩

theorem mirrors_operator (h : Within around optional e e') (same : n.erase = m.erase) {t : Token}
    (unfinished : t ≠ .finish) :
    Mirrors (Within around optional) (operator false e n t) (operator false e' m t) := by
  obtain ⟨left, pending, branches⟩ := Group.erase_eq_iff.mp h.group
  cases t with
  | list => exact Mirrors.bind (.arrayOf same) fun a b made => .pure (h.operator made)
  | brand name =>
    refine Mirrors.bind (.build_node _) fun a b brand => ?_
    exact Mirrors.bind (.intersect same brand) fun a b made => .pure (h.operator made)
  | percent => exact .pure ⟨.divisor same, h.group, h.outer, h.optional⟩
  | comparator c => exact mirrors_compare h same c
  | ampersand =>
    refine (mirrors_conjoin h.group same).bind fun a b made =>
      .pure ⟨.operand, ?_, h.outer, h.optional⟩
    exact Group.erase_eq_iff.mpr ⟨left, congrArg some made, branches⟩
  | bar =>
    refine (mirrors_conjoin h.group same).bind fun a b made =>
      .pure ⟨.operand, ?_, h.outer, h.optional⟩
    refine Group.erase_eq_iff.mpr ⟨left, rfl, ?_⟩
    rw [List.map_append, List.map_append, branches, List.map_singleton, List.map_singleton, made]
  | groupClose => exact mirrors_close h same
  | finish => exact absurd rfl unfinished
  | _ => exact .fail _ _

end ExpressionState

theorem Word.mirrors_keyword [Library] {word : String} {x : Traced Node}
    (h : keyword? word = some x) : Mirrors (fun a b => a.erase = b.erase) (build x) (build x) := by
  simp only [keyword?, Option.orElse_eq_orElse, Option.orElse_eq_or, Option.or_eq_some_iff,
    Option.map_eq_some_iff] at h
  rcases h with ⟨d, -, rfl⟩ | ⟨-, named | ⟨-, ⟨p, -, rfl⟩ | ⟨-, b, -, rfl⟩⟩⟩
  · exact .build_node _
  · have known : (word, x) ∈ named? := by
      obtain ⟨l, r, same, -⟩ := List.lookup_eq_some_iff.mp named
      rw [same]
      exact List.mem_append_right _ List.mem_cons_self
    have all : ∀ e ∈ named?, Mirrors (fun a b => a.erase = b.erase) (build e.2)
        (build e.2) := by
      simp only [named?, List.forall_mem_cons]
      have integer : Mirrors (fun a b => a.erase = b.erase) (build Word.integer)
          (build Word.integer) :=
        .build (fun _ faithful => Traced.both_erase faithful _ _) fun _ faithful =>
          Traced.both_erase faithful _ _
      exact ⟨.build_node _, .build_node _, .build_node _, .build_node _, .build_node _,
        .build_node _, integer, .build_node _, .build_node _, List.forall_mem_nil _⟩
    exact all _ known
  · exact .build (fun _ faithful => matching_erase faithful p) fun _ faithful =>
      matching_erase faithful p
  · exact .build (fun _ faithful => transformed_erase faithful b) fun _ faithful =>
      transformed_erase faithful b

namespace ScopeState

def Calm (s : ScopeState) : Prop := ∀ name r, Entries.get? name s.resolutions = some r →
    ∃ n, r = .resolved n

/-- What is known in the first state is known in the second one. -/
def Recalled (s t : ScopeState) : Prop :=
  ∀ name r, Entries.get? name s.resolutions = some r → Entries.get? name t.resolutions = some r

variable {s t u : ScopeState}

theorem Recalled.refl (s : ScopeState) : s.Recalled s := fun _ _ => id

theorem Recalled.trans (h : s.Recalled t) (h' : t.Recalled u) : s.Recalled u :=
  fun name r found => h' name r (h name r found)

theorem Recalled.of_eq (same : t.resolutions = s.resolutions) : s.Recalled t :=
  fun _ _ found => same ▸ found

theorem Calm.settles (calm : s.Calm) (extended : s.Extends t) (settles : s.Settles t) : t.Calm := by
  intro name r found
  cases known : Entries.get? name s.resolutions with
  | none => exact settles name r known found
  | some q =>
    obtain ⟨n, rfl⟩ := calm name q known
    rw [extended.kept name _ known] at found
    exact ⟨n, (Option.some.inj found).symm⟩

end ScopeState

namespace Parsing

variable {α β γ δ : Type} {R : α → β → Prop} {S : γ → δ → Prop}

/-- Where the first computation succeeds, the second one succeeds in any state that recalls what
the first one came to know. Their results are related, and the second one resolves nothing. -/
def Repeats (R : α → β → Prop) (x : Parsing α) (y : Parsing β) : Prop :=
  ∀ s a t, s.Calm → x.run.run s = (.ok a, t) →
    ∀ s', t.Recalled s' → ∃ b t', y.run.run s' = (.ok b, t') ∧
      t'.resolutions = s'.resolutions ∧ R a b

theorem Mirrors.repeats {x : Parsing α} {y : Parsing β} (h : Mirrors R x y) : Repeats R x y :=
  fun s a t _ ran s' _ => (h s a t ran).2 s'

theorem Repeats.bind {x : Parsing α} {y : Parsing β} {f : α → Parsing γ}
    {g : β → Parsing δ} (first : Repeats R x y)
    (next : ∀ a b, R a b → Mirrors S (f a) (g b)) : Repeats S (x >>= f) (y >>= g) := by
  intro s c t calm ran s' recalled
  obtain ⟨a, u, ran, later⟩ := run_bind_eq_ok.mp ran
  have quiet : t.resolutions = u.resolutions := by
    obtain ⟨b, -, -, -, related⟩ := first s a u calm ran u (.refl u)
    exact (next a b related u c t later).1
  obtain ⟨b, v, ran', same, related⟩ := first s a u calm ran s' (.trans (.of_eq quiet) recalled)
  obtain ⟨e, w, later', same', related'⟩ := (next a b related u c t later).2 v
  exact ⟨e, w, run_bind_eq_ok.mpr ⟨b, v, ran', later'⟩, same'.trans same, related'⟩

end Parsing

def Lookup.IsSteady (lookup : Lookup) : Prop :=
  ∀ name, Repeats (· = ·) (lookup.alias? name) (lookup.alias? name)

variable [Library]

theorem Scope.resolveUpTo_of_resolved {home : Nat} {d : Declarations} {depth : Nat} {name : String}
    {n : Node} {s : ScopeState} (found : Entries.get? name s.resolutions = some (.resolved n)) :
    (resolveUpTo home d depth name).run.run s = (.ok n, s) := by
  cases depth <;> rw [resolveUpTo, resolveWith_run, found]

theorem Scope.lookup_steady (s : Scope) : s.lookup.IsSteady := by
  intro name
  rw [lookup, lookupWith]
  dsimp only
  split_ifs with declared
  · have resolving : Repeats (· = ·) (s.resolving name) (s.resolving name) := by
      intro t n u calm ran s' recalled
      have idle : Entries.get? name t.resolutions ≠ some .inProgress := by
        intro found
        obtain ⟨m, hm⟩ := calm name _ found
        cases hm
      have found := recalled name _ (resolveUpTo_resolved idle ran)
      exact ⟨n, s', resolveUpTo_of_resolved found, rfl, rfl⟩
    rw [← bind_pure_comp]
    exact resolving.bind fun a b same => .pure (congrArg some same)
  · exact (Mirrors.pure rfl).repeats

namespace ExpressionState

variable {lookup : Lookup} {around : List Group} {optional : Bool} {e e' : ExpressionState}

theorem repeats_word (steady : lookup.IsSteady) (text : String) :
    Repeats (fun a b => a.erase = b.erase) (word lookup text) (word lookup text) := by
  rw [word]
  cases Word.literal? text with
  | some l => exact (Mirrors.build_node _).repeats
  | none =>
    refine (steady text).bind fun o o' same => ?_
    subst same
    cases o with
    | some n => exact .pure rfl
    | none =>
      cases found : Word.keyword? text with
      | some x => exact Word.mirrors_keyword found
      | none => exact .fail _ _

theorem mirrors_regex (source : String) :
    Mirrors (fun a b => a.erase = b.erase) (regex source) (regex source) := by
  rw [regex]
  cases Pattern.ofSource? source with
  | some p =>
    exact .build (fun _ faithful => Word.matching_erase faithful p) fun _ faithful =>
      Word.matching_erase faithful p
  | none => exact .fail _ _

theorem operand_quoted (lookup : Lookup) (e : ExpressionState) {d : Char} (other : d ≠ '/')
    (text : String) : operand lookup e (.enclosed d text) =
      (do return { e with awaiting := .operator (← build (Traced.literal (.string text))) }) :=
  operand.eq_4 lookup e d text other

theorem repeats_operand (steady : lookup.IsSteady) (h : Within around optional e e') {t : Token}
    (unfinished : t ≠ .finish) :
    Repeats (Within around optional) (operand lookup e t) (operand lookup e' t) := by
  obtain ⟨inner, around_inner, outer⟩ := h.outer
  have read {x : Parsing Node} (hx : Repeats (fun a b => a.erase = b.erase) x x) :
      Repeats (Within around optional)
      (do return { e with awaiting := .operator (← x) })
        (do return { e' with awaiting := .operator (← x) }) :=
    hx.bind fun a b same => .pure (h.operator same)
  cases t with
  | groupOpen =>
    refine (Mirrors.pure ⟨h.awaiting, rfl, ⟨e'.group :: inner, ?_, ?_⟩, h.optional⟩).repeats
    · exact congrArg (e'.group :: ·) around_inner
    · exact congrArg₂ List.cons h.group outer
  | word text => exact read (repeats_word steady text)
  | enclosed d text =>
    by_cases slash : d = '/'
    · subst slash
      exact read (mirrors_regex text).repeats
    · rw [operand_quoted _ _ slash, operand_quoted _ _ slash]
      exact read (Mirrors.build_node _).repeats
  | finish => exact absurd rfl unfinished
  | _ => exact (Mirrors.fail _ _).repeats

theorem repeats_step (steady : lookup.IsSteady) (h : Within around optional e e') {t : Token}
    (unfinished : t ≠ .finish) :
    Repeats (Within around optional) (step lookup false e t) (step lookup false e' t) := by
  have awaiting := h.awaiting
  unfold step
  generalize ha : e.awaiting = a at awaiting
  generalize hb : e'.awaiting = b at awaiting
  cases awaiting with
  | operand => exact repeats_operand steady h unfinished
  | operator same => exact (mirrors_operator h same unfinished).repeats
  | divisor same =>
    exact ((mirrors_divide same t).bind fun a b made => .pure (h.operator made)).repeats
  | limit c same =>
    obtain ⟨-, pending, branches⟩ := Group.erase_eq_iff.mp h.group
    refine ((mirrors_boundBy h.group same c t).bind fun a b made =>
      .pure ⟨.operator made, ?_, h.outer, h.optional⟩).repeats
    exact Group.erase_eq_iff.mpr ⟨rfl, pending, branches⟩

theorem steps_append (e : ExpressionState) (ts us : List (Except Fault Token)) :
    steps lookup false e (ts ++ us) = steps lookup false e ts >>= fun f =>
      steps lookup false f us := by
  induction ts generalizing e with
  | nil => simp [steps]
  | cons t ts ih =>
    cases t with
    | ok t => simp [steps, ih]
    | error f => rfl

/-- What was read when the tokens are at their end. -/
def parsed (e : ExpressionState) : Parsing Parsed :=
  match e.awaiting with
  | .nothing node => pure ⟨node, e.optional⟩
  | _ => fail .noOperand

theorem parseExpression_eq (text : String) :
    parseExpression lookup false text = steps lookup false .start (Scan.tokens text.toList) >>=
      parsed := by
  rw [parseExpression, Scan.all_eq]
  rfl

/-- Behind the last token a group is finished that no other stands around. -/
theorem finished_of_finish {b : Awaiting} (awaiting : e.awaiting.Mirrors b) {p : Parsed}
    {s t : ScopeState} (ran : (steps lookup false e [.ok .finish] >>= parsed).run.run s =
      (.ok p, t)) :
    ∃ root, e.awaiting = .operator root ∧ e.outer = [] ∧
      (finishGroup e.group root).run.run s = (.ok p.node, t) := by
  simp only [steps, bind_pure, step] at ran
  obtain ⟨f, u, ran, last⟩ := run_bind_eq_ok.mp ran
  generalize ha : e.awaiting = a at awaiting ran
  cases awaiting with
  | operand => cases ran
  | divisor same => cases ran
  | limit c same => cases ran
  | operator same =>
    rename_i root _
    refine ⟨root, rfl, ?_⟩
    cases outer : e.outer with
    | cons g r =>
      simp only [operator, outer, List.isEmpty_cons, Bool.false_eq_true, if_false] at ran
      cases ran
    | nil =>
      simp only [operator, outer, List.isEmpty_nil, if_true] at ran
      obtain ⟨m, v, ran, made⟩ := run_bind_eq_ok.mp ran
      cases made
      cases last
      exact ⟨rfl, ran⟩

section

variable {home : Nat} {w : Standard} (can : Parsable home w) (aliases : lookup.Holds w)
  (steady : lookup.IsSteady) {s t : ScopeState} (hs : s.Holds w) (calm : s.Calm)
include can aliases steady hs calm

/-- By induction on the tokens: after each of them the machine is in the same state again. -/
theorem repeats_steps {ts : List Token} (unfinished : .finish ∉ ts)
    (h : Within around optional e e') (he : e.Holds (w.parsed s)) {f : ExpressionState}
    (ran : (steps lookup false e (ts.map .ok)).run.run s = (.ok f, t)) {s' : ScopeState}
    (recalled : t.Recalled s') :
    ∃ f' t', (steps lookup false e' (ts.map .ok)).run.run s' = (.ok f', t') ∧
      t'.resolutions = s'.resolutions ∧ Within around optional f f' := by
  induction ts generalizing e e' s s' with
  | nil =>
    cases ran
    exact ⟨e', s', rfl, rfl, h⟩
  | cons token ts ih =>
    obtain ⟨other, unfinished⟩ := List.ne_and_not_mem_of_not_mem_cons unfinished
    obtain ⟨e₁, u, ran, later⟩ := run_bind_eq_ok.mp ran
    have first := step_ensures can aliases false he token hs
    rw [ran] at first
    obtain ⟨hu, extended, value⟩ := first
    obtain ⟨settles, he₁⟩ := value e₁ rfl
    have rest := steps_ensures can aliases false he₁ (ts.map .ok) hu
    rw [later] at rest
    obtain ⟨e₁', v, ran', same, within⟩ :=
      repeats_step steady h other.symm s e₁ u calm ran s' (.trans rest.2.1.kept recalled)
    obtain ⟨f', t', later', same', within'⟩ :=
      ih hu (calm.settles extended settles) unfinished within he₁ later
      (recalled.trans (.of_eq same))
    exact ⟨f', t', run_bind_eq_ok.mpr ⟨e₁', v, ran', later'⟩, same'.trans same, within'⟩

/-- A text that was read is read again, within the groups that stand around it. -/
theorem repeats_text {text : String} {p : Parsed}
    (ran : (parseExpression lookup false text).run.run s = (.ok p, t)) {s' : ScopeState}
    (recalled : t.Recalled s') (outer : List Group) (optional : Bool) :
    ∃ ts : List Token, .finish ∉ ts ∧
      Scan.tokens text.toList = ts.map .ok ++ [.ok .finish] ∧ ∃ g root u m t',
        (steps lookup false ⟨.operand, .empty, outer, optional⟩ (ts.map .ok)).run.run s' =
          (.ok ⟨.operator root, g, outer, optional⟩, u) ∧
        (finishGroup g root).run.run u = (.ok m, t') ∧ t'.resolutions = s'.resolutions ∧
          p.node.erase = m.erase := by
  obtain ⟨ts, unfinished, scanned⟩ := Scan.tokens_cases text.toList
  rw [parseExpression_eq] at ran
  obtain ⟨f, v, ran, later⟩ := run_bind_eq_ok.mp ran
  rcases scanned with scanned | ⟨fault, scanned⟩
  · refine ⟨ts, unfinished, scanned, ?_⟩
    rw [scanned, steps_append] at ran
    obtain ⟨e, u, ran, last⟩ := run_bind_eq_ok.mp ran
    have started (around : List Group) (optional : Bool) :
        Within around optional .start ⟨.operand, .empty, around, optional⟩ :=
      ⟨.operand, rfl, ⟨[], rfl, rfl⟩, rfl⟩
    have again {s' : ScopeState} (recalled : u.Recalled s') :=
      repeats_steps can aliases steady hs calm unfinished (started outer optional) start_holds
        ran recalled
    obtain ⟨_, _, _, _, within⟩ := again (.refl u)
    obtain ⟨root, operator, alone, finished⟩ :=
      finished_of_finish within.awaiting (run_bind_eq_ok.mpr ⟨f, v, last, later⟩)
    have quiet : t.resolutions = u.resolutions :=
      (mirrors_finishGroup rfl rfl u p.node t finished).1
    obtain ⟨⟨awaiting, g, outer', optional'⟩, u', ran', same, within⟩ :=
      again (.trans (.of_eq quiet) recalled)
    obtain ⟨inner, around, inside⟩ := within.outer
    have awaits := within.awaiting
    rw [operator] at awaits
    cases awaits with
    | operator same_root =>
      rename_i root'
      rw [alone, List.map_nil, eq_comm, List.map_eq_nil_iff] at inside
      subst inside
      obtain rfl : outer' = outer := around
      obtain rfl : optional' = optional := within.optional
      obtain ⟨m, t', finished', same', made⟩ :=
        (mirrors_finishGroup within.group same_root u p.node t finished).2 u'
      exact ⟨g, root', u', m, t', ran', finished', same'.trans same, made⟩
  · rw [scanned, steps_append] at ran
    obtain ⟨e, u, -, failed⟩ := run_bind_eq_ok.mp ran
    cases failed

end

end ExpressionState

end SchemaAlgebra

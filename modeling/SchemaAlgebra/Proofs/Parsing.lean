import Mathlib.Tactic.SplitIfs
import SchemaAlgebra.Proofs.Entries
import SchemaAlgebra.Proofs.Reduced
import SchemaAlgebra.Proofs.Threading
import SchemaAlgebra.Scope.Resolution

/-!
# What parsing ensures

A property of nodes that everything built in a grammar has is a property of all nodes that
are parsed, stored and resolved. Nothing that was resolved is forgotten while a call goes
on, and what the call itself begins to resolve is in its journal.
-/
namespace SchemaAlgebra

/-- Whatever the representatives, the value satisfies `Q` and the nodes built have the
property. -/
def Traced.Preserves {α : Type} (P : Node → Prop) (x : Traced α) (Q : α → Prop) : Prop :=
  ∀ (rep : Node → Node) (keeps : ∀ n, P n → P (rep n))
    (faithful : ∀ n : Node, n.same (rep n) = true),
    x.Ensures ⟨rep, fun _ => True, P, keeps, faithful⟩ Q

/-- What is asked of a property for everything settled that is parsed to have it. -/
structure Composable [Library] (P : Node → Prop) : Prop where
  literal : ∀ l, P (.of (.literal l))
  unknown : P .unknown
  keyword : ∀ word x, Word.keyword? word = some x → x.Preserves P P
  matching : ∀ p, (Word.matching p).Preserves P P
  divisor : ∀ n, 0 < n → n < Nat.pow 2 64 → P (.of (.divisor n))
  bound : ∀ r : Range, r.IsFinite → P (.of (.bound r.canonical))
  brand : ∀ name, P (.of (.brand name))
  step : ∀ input s, P input → P (.of (.morph input [s]))
  steps : ∀ input steps s, P (.of (.morph input steps)) → P (.of (.morph input (steps ++ [s])))
  element : ∀ children n, P (.of (.intersection children)) →
    Definition.elementOf false none children = some n → P n
  tuple : ∀ items rest, (∀ n ∈ items, P n) → (∀ n ∈ rest, P n) →
    Traced.Preserves P (do
      let basis ← Traced.basis .array
      let props ← Traced.props (.ofSequence ⟨items, rest⟩)
      Traced.intersection [basis, props]) P
  arrayOf : ∀ n, P n → (Traced.arrayOf n).Preserves P P
  normal : ∀ p : Props Node, (∀ n ∈ p.values, P n) →
    (normalize p).run.Preserves P fun o => ∀ q, o = .ok q → ∀ n ∈ q.values, P n
  object : ∀ p : Props Node, (∀ n ∈ p.values, P n) → (Traced.object p).Preserves P P
  meet : ∀ l r, P l → P r → (meet l r).run.Preserves P fun o => ∀ n, o = .ok n → P n
  union : ∀ ns, (∀ n ∈ ns, P n) →
    (determinateUnion ns).Preserves P fun o => ∀ n, o = .ok n → P n

namespace ScopeState

/-- What is resolved stays so, and what was not looked at before is in the journal. -/
structure Extends (s t : ScopeState) : Prop where
  kept : ∀ name r, Entries.get? name s.resolutions = some r →
    Entries.get? name t.resolutions = some r
  begun : ∀ name, Entries.get? name s.resolutions = none →
    (Entries.get? name t.resolutions).isSome → name ∈ t.journal
  journal : ∀ name ∈ s.journal, name ∈ t.journal
  entered : ∀ name ∈ t.journal, name ∈ s.journal ∨ Entries.get? name s.resolutions = none
  marked : ∀ name ∈ t.journal, name ∈ s.journal ∨ (Entries.get? name t.resolutions).isSome
  noted : ∃ notes, t.notes = notes ++ s.notes ∧
    ∀ name, Note.resolveBegin name ∈ notes → name ∈ t.journal

def Knows (s : ScopeState) (name : String) : Prop := (Entries.get? name s.resolutions).isSome

def Settles (s t : ScopeState) : Prop :=
  ∀ name r, Entries.get? name s.resolutions = none →
    Entries.get? name t.resolutions = some r → ∃ n, r = .resolved n

variable {s t u : ScopeState}

theorem Extends.of_eq (resolutions : t.resolutions = s.resolutions)
    (journal : t.journal = s.journal)
    (notes : ∃ notes, t.notes = notes ++ s.notes ∧ ∀ name, Note.resolveBegin name ∉ notes) :
    Extends s t where
  kept _ _ h := resolutions ▸ h
  begun _ h h' := by
    rw [resolutions, h] at h'
    cases h'
  journal _ h := journal ▸ h
  entered _ h := Or.inl (journal ▸ h)
  marked _ h := Or.inl (journal ▸ h)
  noted := by
    obtain ⟨notes, same, quiet⟩ := notes
    exact ⟨notes, same, fun name h => absurd h (quiet name)⟩

theorem Extends.note (s : ScopeState) {n : Note} (quiet : ∀ name, n ≠ .resolveBegin name) :
    Extends s (s.note n) :=
  .of_eq rfl rfl ⟨[n], rfl, fun name h => quiet name (List.mem_singleton.mp h).symm⟩

theorem Extends.refl (s : ScopeState) : Extends s s :=
  .of_eq rfl rfl ⟨[], rfl, fun _ h => nomatch h⟩

theorem Extends.trans (first : Extends s t) (second : Extends t u) : Extends s u where
  kept name r h := second.kept name r (first.kept name r h)
  begun name h h' := by
    cases ht : Entries.get? name t.resolutions with
    | none => exact second.begun name ht h'
    | some r => exact second.journal name (first.begun name h (by rw [ht]; rfl))
  journal name h := second.journal name (first.journal name h)
  entered name h := by
    rcases second.entered name h with h | h
    · exact first.entered name h
    · refine Or.inr (Option.eq_none_iff_forall_ne_some.mpr fun r hr => ?_)
      rw [first.kept name r hr] at h
      cases h
  marked name h := by
    rcases second.marked name h with h | h
    · rcases first.marked name h with h | h
      · exact Or.inl h
      · obtain ⟨r, hr⟩ := Option.isSome_iff_exists.mp h
        exact Or.inr (by rw [second.kept name r hr]; rfl)
    · exact Or.inr h
  noted := by
    obtain ⟨earlier, same, began⟩ := first.noted
    obtain ⟨later, same', began'⟩ := second.noted
    refine ⟨later ++ earlier, by rw [same', same, List.append_assoc], fun name h => ?_⟩
    rcases List.mem_append.mp h with h | h
    · exact began' name h
    · exact second.journal name (began name h)

theorem knows_of_kept (kept : ∀ name r, Entries.get? name s.resolutions = some r →
    Entries.get? name t.resolutions = some r) (name : String) (known : s.Knows name) :
    t.Knows name := by
  obtain ⟨r, found⟩ := Option.isSome_iff_exists.mp known
  exact Option.isSome_iff_exists.mpr ⟨r, kept name r found⟩

theorem Settles.of_eq (resolutions : t.resolutions = s.resolutions) : Settles s t := by
  intro name r h h'
  rw [resolutions, h] at h'
  cases h'

theorem Settles.trans (first : Settles s t) (extends_ : Extends t u) (second : Settles t u) :
    Settles s u := by
  intro name r h h'
  cases ht : Entries.get? name t.resolutions with
  | none => exact second name r ht h'
  | some q =>
    rw [extends_.kept name q ht] at h'
    exact first name r h (ht.trans h')

/-- Recording events leaves everything but stored nodes and notes as it is. -/
theorem foldl_record (events : List Event) (s : ScopeState) :
    s.Extends (events.foldl record s) ∧ (events.foldl record s).resolutions = s.resolutions ∧
      (events.foldl record s).journal = s.journal ∧
      ∀ n ∈ (events.foldl record s).store.nodes, n ∈ s.store.nodes ∨
        Event.built n ∈ events := by
  induction events generalizing s with
  | nil => exact ⟨.refl s, rfl, rfl, fun n hn => Or.inl hn⟩
  | cons e events ih =>
    obtain ⟨extended, resolutions, journal, stored⟩ := ih (s.record e)
    have first : s.Extends (s.record e) := by
      cases e with
      | consulted m => exact .note s nofun
      | _ => exact .of_eq rfl rfl ⟨[], rfl, fun _ h => nomatch h⟩
    have same : (s.record e).resolutions = s.resolutions ∧ (s.record e).journal = s.journal := by
      cases e <;> exact ⟨rfl, rfl⟩
    refine ⟨first.trans extended, resolutions.trans same.1, journal.trans same.2,
      fun n hn => ?_⟩
    rcases stored n hn with h | h
    · cases e with
      | built m =>
        rw [record, Store.insert] at h
        split_ifs at h
        · exact Or.inl h
        · rcases List.mem_append.mp h with h | h
          · exact Or.inl h
          · rw [List.mem_singleton.mp h]
            exact Or.inr List.mem_cons_self
      | consulted m => exact Or.inl h
      | reduced branches kept => exact Or.inl h
      | exhausted => exact Or.inl h
    · exact Or.inr (List.mem_cons_of_mem _ h)

end ScopeState

/-- What is asked of the nodes of a scope. It may depend on which aliases the scope has looked
at; what is stored may also come from calls that failed. -/
structure Standard where
  stored : Node → Prop
  parsed : ScopeState → Node → Prop
  stored_of_parsed : ∀ {s n}, parsed s n → stored n
  represents : ∀ {s n m}, parsed s n → stored m → n.same m = true → parsed s m
  monotone : ∀ {s t n}, (∀ name, s.Knows name → t.Knows name) → parsed s n → parsed t n

theorem Standard.lasts (w : Standard) {s t : ScopeState} {n : Node} (h : s.Extends t)
    (hn : w.parsed s n) : w.parsed t n :=
  w.monotone (ScopeState.knows_of_kept h.kept) hn

/-- One property is asked of all nodes, whatever the scope knows. -/
abbrev Standard.plain (P : Node → Prop) : Standard :=
  ⟨P, fun _ => P, id, fun _ hm _ => hm, fun _ => id⟩

/-- In a scope, parsing keeps to the standard. -/
structure Parsable [Library] (home : Nat) (w : Standard) : Prop where
  composable : ∀ s, Composable (w.parsed s)
  deferred : ∀ {s : ScopeState} {name}, Entries.get? name s.resolutions = some .inProgress →
    w.parsed s (.of (.deferred name (some home)))

/-- In a scope, parsing preserves the property. -/
abbrev Buildable [Library] (home : Nat) (P : Node → Prop) : Prop := Parsable home (.plain P)

namespace ScopeState

/-- The nodes stored and resolved are up to the standard, and no alias is resolved to a node
that refers to it. -/
structure Holds (w : Standard) (s : ScopeState) : Prop where
  stored : ∀ n ∈ s.store.nodes, w.stored n
  sorted : Entries.Sorted s.resolutions
  resolved : ∀ name n, Entries.get? name s.resolutions = some (.resolved n) →
    w.parsed s n ∧ name ∉ n.references

variable {w : Standard} {s t : ScopeState}

theorem Holds.of_eq (h : s.Holds w) (store : t.store = s.store)
    (resolutions : t.resolutions = s.resolutions) : t.Holds w where
  stored n hn := h.stored n (store ▸ hn)
  sorted := (congrArg Entries.Sorted resolutions).mpr h.sorted
  resolved name n found := by
    obtain ⟨hn, other⟩ := h.resolved name n (resolutions ▸ found)
    refine ⟨w.monotone (fun other known => ?_) hn, other⟩
    rwa [Knows, resolutions]

theorem Holds.keeps (h : s.Holds w) : s.store.Keeps (w.parsed s) := by
  intro n hn
  have same := s.store.representative_same n
  rw [Store.representative] at same ⊢
  cases found : s.store.nodes.find? n.same with
  | none => exact hn
  | some m =>
    rw [found] at same
    exact w.represents hn (h.stored m (List.mem_of_find?_eq_some found)) same

theorem run_holds {α : Type} {x : Traced α} {Q : α → Prop} (h : x.Preserves (w.parsed s) Q)
    (hs : s.Holds w) :
    (run x s).2.Holds w ∧ s.Extends (run x s).2 ∧ (run x s).2.resolutions = s.resolutions ∧
      (run x s).2.journal = s.journal ∧ Q (run x s).1 := by
  have keeps := keeps_settled hs.keeps fun rep hrep faithful _ n made =>
    (h rep hrep faithful fun _ _ => trivial).2 (.built n) made
  obtain ⟨value, promised⟩ := h (settled x s) keeps (settled_same x s) fun _ _ => trivial
  obtain ⟨extended, resolutions, journal, stored⟩ := foldl_record (x.trace (settled x s)) s
  rw [run_eq]
  refine ⟨⟨fun n hn => ?_, ?_, fun name n found => ?_⟩, extended, resolutions,
    journal, value⟩
  · exact (stored n hn).elim (hs.stored n) fun made =>
      w.stored_of_parsed (promised (.built n) made)
  · exact (congrArg Entries.Sorted resolutions).mpr hs.sorted
  · obtain ⟨hn, other⟩ := hs.resolved name n (resolutions ▸ found)
    exact ⟨w.lasts extended hn, other⟩

end ScopeState

namespace Parsing

section

variable {α β : Type} {x : Parsing α} {s t : ScopeState}

theorem run_bind_ok {f : α → Parsing β} {a : α} (h : x.run.run s = (.ok a, t)) :
    (x >>= f).run.run s = (f a).run.run t := by
  rw [ExceptT.run_bind, StateT.run_bind, h]
  rfl

theorem run_bind_error {f : α → Parsing β} {e : ParseError} (h : x.run.run s = (.error e, t)) :
    (x >>= f).run.run s = (.error e, t) := by
  rw [ExceptT.run_bind, StateT.run_bind, h]
  rfl

theorem run_bind_eq_ok {f : α → Parsing β} {b : β} :
    (x >>= f).run.run s = (.ok b, t) ↔
      ∃ a u, x.run.run s = (.ok a, u) ∧ (f a).run.run u = (.ok b, t) := by
  constructor
  · intro h
    cases ran : x.run.run s with
    | mk o u =>
      cases o with
      | error e =>
        rw [run_bind_error ran] at h
        cases h
      | ok a =>
        rw [run_bind_ok ran] at h
        exact ⟨a, u, rfl, h⟩
  · rintro ⟨a, u, ran, h⟩
    rw [run_bind_ok ran, h]

theorem run_catch_ok {f : ParseError → Parsing α} {a : α} (h : x.run.run s = (.ok a, t)) :
    (tryCatch x f).run.run s = (.ok a, t) := by
  rw [ExceptT.run_tryCatch, StateT.run_bind, h]
  rfl

theorem run_catch_error {f : ParseError → Parsing α} {e : ParseError}
    (h : x.run.run s = (.error e, t)) : (tryCatch x f).run.run s = (f e).run.run t := by
  rw [ExceptT.run_tryCatch, StateT.run_bind, h]
  rfl

end

/-- From a state that is up to the standard, a computation leads to one that is. If it does
not fail, it resolves every alias that it begins, and its result is as stated. -/
def Ensures {α : Type} (w : Standard) (s : ScopeState) (x : Parsing α)
    (Q : ScopeState → α → Prop) : Prop :=
  s.Holds w → (x.run.run s).2.Holds w ∧ s.Extends (x.run.run s).2 ∧
    ∀ a, (x.run.run s).1 = .ok a → s.Settles (x.run.run s).2 ∧ Q (x.run.run s).2 a

namespace Ensures

variable {α β : Type} {w : Standard} {s : ScopeState} {Q R : ScopeState → α → Prop}
  {S : ScopeState → β → Prop}

theorem pure {a : α} (h : Q s a) : Ensures w s (Pure.pure a) Q := by
  refine fun hs => ⟨hs, .refl s, fun b hb => ⟨.of_eq rfl, ?_⟩⟩
  cases hb
  exact h

theorem throw (e : ParseError) : Ensures w s (throw e : Parsing α) Q :=
  fun hs => ⟨hs, .refl s, fun _ hb => nomatch hb⟩

theorem fail (f : Fault) : Ensures w s (Parsing.fail f : Parsing α) Q := throw _

theorem bind {x : Parsing α} {f : α → Parsing β} (first : Ensures w s x Q)
    (next : ∀ t a, s.Extends t → Q t a → Ensures w t (f a) S) : Ensures w s (x >>= f) S := by
  intro hs
  obtain ⟨holds, extended, value⟩ := first hs
  cases ran : x.run.run s with
  | mk o t =>
    rw [ran] at holds extended value
    cases o with
    | error e =>
      rw [run_bind_error ran]
      exact ⟨holds, extended, fun _ hb => nomatch hb⟩
    | ok a =>
      obtain ⟨settled, ha⟩ := value a rfl
      obtain ⟨holds', extended', value'⟩ := next t a extended ha holds
      rw [run_bind_ok ran]
      refine ⟨holds', extended.trans extended', fun b hb => ?_⟩
      obtain ⟨settled', hb⟩ := value' b hb
      exact ⟨settled.trans extended' settled', hb⟩

theorem mono {x : Parsing α} (h : Ensures w s x Q) (weaker : ∀ t a, Q t a → R t a) :
    Ensures w s x R := by
  intro hs
  obtain ⟨holds, extended, value⟩ := h hs
  exact ⟨holds, extended, fun a ha => ⟨(value a ha).1, weaker _ a (value a ha).2⟩⟩

theorem map {x : Parsing α} {f : α → β} (h : Ensures w s x fun t a => S t (f a)) :
    Ensures w s (f <$> x) S := by
  rw [map_eq_pure_bind]
  exact h.bind fun _ _ _ ha => pure ha

/-- A computation of the algebra changes nothing that its result could depend on. -/
theorem build {x : Traced α} (h : x.Preserves (w.parsed s) fun a => ∀ t, s.Extends t → Q t a) :
    Ensures w s (Parsing.build x) Q := by
  intro hs
  obtain ⟨holds, extended, resolutions, -, value⟩ := ScopeState.run_holds h hs
  refine ⟨holds, extended, fun a ha => ⟨.of_eq resolutions, ?_⟩⟩
  cases ha
  exact value _ extended

theorem note {n : Note} (quiet : ∀ name, n ≠ .resolveBegin name)
    {Q : ScopeState → Unit → Prop} (h : ∀ t, t.resolutions = s.resolutions → Q t ()) :
    Ensures w s (Parsing.note n) Q := by
  intro hs
  have extended := ScopeState.Extends.note s quiet
  exact ⟨hs.of_eq rfl rfl, extended, fun _ _ => ⟨.of_eq rfl, h _ rfl⟩⟩

theorem ite {c : Prop} [Decidable c] {x y : Parsing α} (yes : c → Ensures w s x Q)
    (no : ¬c → Ensures w s y Q) : Ensures w s (if c then x else y) Q := by
  by_cases h : c
  · rw [if_pos h]; exact yes h
  · rw [if_neg h]; exact no h

theorem build_parsed {x : Traced Node} (h : x.Preserves (w.parsed s) (w.parsed s)) :
    Ensures w s (Parsing.build x) w.parsed :=
  build fun rep keeps faithful =>
    (h rep keeps faithful).mono fun _ hn _ extended => w.lasts extended hn

theorem build_node {n : Node} (h : w.parsed s n) :
    Ensures w s (Parsing.build (Traced.build n)) w.parsed :=
  build_parsed fun _ keeps _ => Traced.Ensures.build h fun _ => keeps n h

theorem attempt {x : Attempt α}
    (h : x.run.Preserves (w.parsed s) fun o => ∀ a, o = .ok a → ∀ t, s.Extends t → Q t a) :
    Ensures w s (Parsing.attempt x) Q := by
  have built : Ensures w s (Parsing.build x.run) fun t o => ∀ a, o = .ok a → Q t a :=
    build fun rep keeps faithful =>
      (h rep keeps faithful).mono fun _ ho t extended a ha => ho a ha t extended
  refine built.bind fun t o _ ho => ?_
  cases o with
  | ok a => exact pure (ho a rfl)
  | error d => exact fail _

variable {home : Nat}

variable [Library]

theorem intersect (can : Parsable home w) {l r : Node} (hl : w.parsed s l) (hr : w.parsed s r) :
    Ensures w s (Parsing.intersect l r) w.parsed :=
  attempt fun rep keeps faithful =>
    ((can.composable s).meet l r hl hr rep keeps faithful).mono fun _ ho n hn _ extended =>
      w.lasts extended (ho n hn)

theorem unite (can : Parsable home w) {ns : List Node} (h : ∀ n ∈ ns, w.parsed s n) :
    Ensures w s (Parsing.unite ns) w.parsed := by
  have built : Ensures w s (Parsing.build (determinateUnion ns))
      fun t o => ∀ n, o = .ok n → w.parsed t n :=
    build fun rep keeps faithful =>
      ((can.composable s).union ns h rep keeps faithful).mono fun _ ho _ extended n hn =>
        w.lasts extended (ho n hn)
  refine built.bind fun t o _ ho => ?_
  cases o with
  | ok n => exact pure (ho n rfl)
  | error o => exact fail _

end Ensures

end Parsing

end SchemaAlgebra

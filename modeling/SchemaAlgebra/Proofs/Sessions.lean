import SchemaAlgebra.Proofs.Resolution

/-!
# Sessions

A session is a scope after any number of calls, with the nodes that the calls returned. A
standard that parsing keeps to is kept to by every call, and between two calls no alias is
left half resolved.
-/
namespace SchemaAlgebra

open Parsing

/-- A call on a scope. Nodes are given by their places among those returned before. -/
inductive Request where
  | parse (text : String)
  | parseValue (definition : Json)
  | resolve (name : String)
  | resolveAll
  | intersect (l r : Nat)
  | unite (l r : Nat)
  | arrayOf (n : Nat)

structure Session where
  scope : Scope
  /-- The nodes returned so far. -/
  nodes : List Node

namespace Session

def start (home : Nat) (d : Declarations) : Session := ⟨.ofDeclarations home d, []⟩

/-- The session after a call with the given result. -/
def take {ε : Type} (s : Session) : Except ε Node × Scope → Session
  | (.ok n, scope) => ⟨scope, s.nodes ++ [n]⟩
  | (.error _, scope) => ⟨scope, s.nodes⟩

variable [Library]

def answer (s : Session) : Request → Session
  | .parse text => s.take (s.scope.parse text)
  | .parseValue definition => s.take (s.scope.parseValue definition)
  | .resolve name => s.take (s.scope.resolve name)
  | .resolveAll => { s with scope := s.scope.resolveAll.2 }
  | .intersect l r =>
    match s.nodes[l]?, s.nodes[r]? with
    | some l, some r => s.take (s.scope.intersect l r)
    | _, _ => s
  | .unite l r =>
    match s.nodes[l]?, s.nodes[r]? with
    | some l, some r => s.take (s.scope.unite l r)
    | _, _ => s
  | .arrayOf n =>
    match s.nodes[n]? with
    | some n => ⟨(s.scope.arrayOf n).2, s.nodes ++ [(s.scope.arrayOf n).1]⟩
    | none => s

def run (home : Nat) (d : Declarations) (requests : List Request) : Session :=
  requests.foldl answer (start home d)

end Session

namespace Scope

/-- The nodes known to a scope are up to the standard, no call is going on, and the aliases
are all resolved. -/
structure Sound (w : Standard) (s : Scope) : Prop where
  holds : s.state.Holds w
  idle : s.state.journal = []
  settled : ∀ name r, Entries.get? name s.state.resolutions = some r → ∃ n, r = .resolved n

/-- What calls leave of a scope, whether they fail or not. -/
structure Kept (w : Standard) (s t : Scope) : Prop where
  sound : t.Sound w
  same_home : t.home = s.home
  same_declarations : t.declarations = s.declarations
  kept : ∀ name r, Entries.get? name s.state.resolutions = some r →
    Entries.get? name t.state.resolutions = some r

/-- What a call leaves of a scope and what it returns. -/
structure Answered {ε : Type} (w : Standard) (s : Scope) (called : Except ε Node × Scope) :
    Prop where
  sound : called.2.Sound w
  same_home : called.2.home = s.home
  same_declarations : called.2.declarations = s.declarations
  value : ∀ n, called.1 = .ok n → w.parsed called.2.state n
  kept : ∀ name r, Entries.get? name s.state.resolutions = some r →
    Entries.get? name called.2.state.resolutions = some r

variable {home : Nat} {w : Standard} {s t : Scope}

theorem Kept.known (h : Kept w s t) : ∀ name, s.state.Knows name → t.state.Knows name :=
  ScopeState.knows_of_kept h.kept

theorem Kept.trans {u : Scope} (first : Kept w s t) (second : Kept w t u) : Kept w s u where
  sound := second.sound
  same_home := second.same_home.trans first.same_home
  same_declarations := second.same_declarations.trans first.same_declarations
  kept name r found := second.kept name r (first.kept name r found)

theorem Answered.toKept {ε : Type} {called : Except ε Node × Scope} (h : Answered w s called) :
    Kept w s called.2 :=
  ⟨h.sound, h.same_home, h.same_declarations, h.kept⟩

theorem ofDeclarations_sound (home : Nat) (d : Declarations) : (ofDeclarations home d).Sound w where
  holds := ⟨fun _ h => absurd h List.not_mem_nil, Entries.sorted_nil, fun _ _ h => nomatch h⟩
  idle := rfl
  settled _ _ h := nomatch h

theorem Sound.note (h : s.Sound w) (n : Note) : (s.note n).Sound w :=
  ⟨h.holds.of_eq rfl rfl, h.idle, h.settled⟩

theorem Sound.resolved (h : s.Sound w) {name : String} {n : Node}
    (found : s.resolved? name = some n) : w.parsed s.state n ∧ name ∉ n.references := by
  rw [resolved?] at found
  cases known : Entries.get? name s.state.resolutions with
  | none =>
    rw [known] at found
    cases found
  | some r =>
    rw [known] at found
    cases r with
    | resolved m =>
      cases found
      exact h.holds.resolved name n known
    | inProgress => cases found

theorem Sound.knows (h : s.Sound w) {name : String} (known : s.state.Knows name) :
    ∃ n, s.resolved? name = some n := by
  obtain ⟨r, found⟩ := Option.isSome_iff_exists.mp known
  obtain ⟨n, rfl⟩ := h.settled name r found
  exact ⟨n, by rw [resolved?, found]⟩

theorem get?_forget (names : List String) {es : List (String × Resolution)}
    (sorted : Entries.Sorted es) :
    Entries.Sorted (names.foldl (fun rs name => Entries.erase name rs) es) ∧
      ∀ name r, Entries.get? name (names.foldl (fun rs name => Entries.erase name rs) es) =
        some r → name ∉ names ∧ Entries.get? name es = some r := by
  induction names generalizing es with
  | nil => exact ⟨sorted, fun name r h => ⟨List.not_mem_nil, h⟩⟩
  | cons first names ih =>
    obtain ⟨sorted', found⟩ := ih (Entries.sorted_erase first sorted)
    refine ⟨sorted', fun name r h => ?_⟩
    obtain ⟨absent, h⟩ := found name r h
    rw [Entries.get?_erase first name sorted] at h
    split_ifs at h with same
    exact ⟨by simp [same, absent], h⟩

theorem get?_forget_of_not_mem (names : List String) {es : List (String × Resolution)}
    (sorted : Entries.Sorted es) {name : String} (absent : name ∉ names) :
    Entries.get? name (names.foldl (fun rs name => Entries.erase name rs) es) =
      Entries.get? name es := by
  induction names generalizing es with
  | nil => rfl
  | cons first names ih =>
    obtain ⟨other, absent⟩ := List.ne_and_not_mem_of_not_mem_cons absent
    rw [List.foldl_cons, ih (Entries.sorted_erase first sorted) absent,
      Entries.get?_erase first name sorted, if_neg other]

def forget (t : ScopeState) : ScopeState :=
  { t with
    resolutions := t.journal.foldl (fun rs name => Entries.erase name rs) t.resolutions
    journal := [] }

theorem call_ok {α : Type} {x : Parsing α} (idle : s.state.journal = []) {a : α} {t : ScopeState}
    (ran : x.run.run s.state = (.ok a, t)) :
    s.call x = (.ok a, { s with state := { t with journal := [] } }) := by
  simp [call, ran, idle]

theorem call_error {α : Type} {x : Parsing α} (idle : s.state.journal = []) {e : ParseError}
    {t : ScopeState} (ran : x.run.run s.state = (.error e, t)) :
    s.call x = (.error e, { s with state := forget t }) := by
  simp [call, ran, idle, forget]

theorem forget_resolutions {t : ScopeState} (before : Entries.Sorted s.state.resolutions)
    (after : Entries.Sorted t.resolutions) (idle : s.state.journal = [])
    (extended : s.state.Extends t) : (forget t).resolutions = s.state.resolutions := by
  obtain ⟨sorted, forgotten⟩ := get?_forget t.journal after
  refine Entries.ext sorted before fun name => ?_
  by_cases entered : name ∈ t.journal
  · have unknown : Entries.get? name s.state.resolutions = none := by
      refine (extended.entered name entered).resolve_left fun known => ?_
      rw [idle] at known
      cases known
    rw [unknown, Option.eq_none_iff_forall_ne_some]
    exact fun r found => (forgotten name r found).1 entered
  · rw [forget, get?_forget_of_not_mem t.journal after entered]
    cases known : Entries.get? name s.state.resolutions with
    | some r => exact extended.kept name r known
    | none =>
      refine Option.eq_none_iff_forall_ne_some.mpr fun r found => entered ?_
      exact extended.begun name known (by rw [found]; rfl)

theorem call_sound {x : Parsing Node} (hx : Ensures w s.state x w.parsed) (hs : s.Sound w) :
    Answered w s (s.call x) := by
  have after := hx hs.holds
  cases ran : x.run.run s.state with
  | mk o t =>
    rw [ran] at after
    obtain ⟨holds, extended, value⟩ := after
    cases o with
    | ok n =>
      obtain ⟨settles, hn⟩ := value n rfl
      rw [call_ok hs.idle ran]
      refine ⟨⟨holds.of_eq rfl rfl, rfl, fun name r found => ?_⟩, rfl, rfl, ?_,
        extended.kept⟩
      · cases known : Entries.get? name s.state.resolutions with
        | none => exact settles name r known found
        | some q =>
          have kept := extended.kept name q known
          rw [found] at kept
          cases kept
          exact hs.settled name r known
      · intro m hm
        cases hm
        exact w.monotone (fun _ (known : t.Knows _) => known) hn
    | error e =>
      have undone := forget_resolutions hs.holds.sorted holds.sorted hs.idle extended
      have same (name : String) (r : Resolution)
          (found : Entries.get? name s.state.resolutions = some r) :
          Entries.get? name (forget t).resolutions = some r := undone ▸ found
      rw [call_error hs.idle ran]
      refine ⟨⟨⟨holds.stored, undone ▸ hs.holds.sorted, fun name n found => ?_⟩, rfl,
        fun name r found => hs.settled name r (undone ▸ found)⟩, rfl, rfl, nofun, same⟩
      obtain ⟨hn, other⟩ := hs.holds.resolved name n (undone ▸ found)
      exact ⟨w.monotone (ScopeState.knows_of_kept same) hn, other⟩

theorem build_sound {α : Type} {x : Traced α} {Q : α → Prop}
    (hx : x.Preserves (w.parsed s.state) Q) (hs : s.Sound w) :
    Kept w s (s.build x).2 ∧ Q (s.build x).1 := by
  obtain ⟨holds, extended, resolutions, journal, value⟩ := ScopeState.run_holds hx hs.holds
  refine ⟨⟨⟨holds, journal.trans hs.idle, fun name r found => ?_⟩, rfl, rfl,
    extended.kept⟩, value⟩
  exact hs.settled name r (resolutions ▸ found)

variable [Library]

theorem resolving_ensures (can : Parsable s.home w) (name : String) {t : ScopeState} :
    Ensures w t (s.resolving name) w.parsed :=
  resolveUpTo_ensures can s.declarations _ name

theorem lookup_holds (can : Parsable s.home w) : s.lookup.Holds w :=
  lookupWith_holds s.declarations fun name _ => resolving_ensures can name

theorem resolve_sound (can : Parsable s.home w) (hs : s.Sound w) (name : String) :
    Answered w s (s.resolve name) := by
  unfold resolve
  split_ifs
  · exact call_sound (resolving_ensures can name) hs
  · exact ⟨hs, rfl, rfl, nofun, fun _ _ found => found⟩

/-- An alias is resolved to the node that a call to resolve it returns. -/
theorem resolve_resolved (hs : s.Sound w) {name : String} {n : Node}
    (h : (s.resolve name).1 = .ok n) : (s.resolve name).2.resolved? name = some n := by
  unfold resolve at h ⊢
  split_ifs at h ⊢
  have idle : Entries.get? name s.state.resolutions ≠ some .inProgress := by
    intro known
    obtain ⟨m, hm⟩ := hs.settled name _ known
    cases hm
  cases ran : (s.resolving name).run.run s.state with
  | mk o t =>
    cases o with
    | ok m =>
      rw [call_ok hs.idle ran] at h ⊢
      cases h
      rw [resolved?]
      simp only [resolveUpTo_resolved idle ran]
    | error e =>
      rw [call_error hs.idle ran] at h
      cases h

theorem resolveEach_sound (names : List String) (can : Parsable s.home w) (hs : s.Sound w) :
    Kept w s (s.resolveEach names).2 := by
  induction names generalizing s with
  | nil => exact ⟨hs, rfl, rfl, fun _ _ found => found⟩
  | cons name names ih =>
    have kept := (call_sound (resolving_ensures can name) hs).toKept
    unfold resolveEach
    generalize s.call (s.resolving name) = called at kept
    obtain ⟨o, t⟩ := called
    cases o with
    | error e => exact kept
    | ok n => exact kept.trans (ih (kept.same_home.symm ▸ can) kept.sound)

omit [Library] in
theorem Answered.noteFailure {called : Except ParseError Node × Scope} (h : Answered w s called)
    (definition : String) : Answered w s (noteFailure definition called) := by
  obtain ⟨o, t⟩ := called
  cases o with
  | ok n => exact h
  | error e => exact ⟨h.sound.note _, h.same_home, h.same_declarations, nofun, h.kept⟩

theorem parse_sound (can : Parsable s.home w) (hs : s.Sound w) (text : String) :
    Answered w s (s.parse text) :=
  (call_sound (.map (parseExpression_ensures can (lookup_holds can) false text)) hs).noteFailure
    text

theorem parseValue_sound (can : Parsable s.home w) (hs : s.Sound w) (definition : Json) :
    Answered w s (s.parseValue definition) :=
  (call_sound (Definition.parse_ensures can (lookup_holds can) definition) hs).noteFailure _

theorem intersect_sound (can : Parsable s.home w) (hs : s.Sound w) {l r : Node}
    (hl : w.parsed s.state l) (hr : w.parsed s.state r) : Answered w s (s.intersect l r) := by
  obtain ⟨kept, value⟩ := build_sound ((can.composable s.state).meet l r hl hr) hs
  exact ⟨kept.sound, rfl, rfl, fun n hn => w.monotone kept.known (value n hn), kept.kept⟩

theorem unite_sound (can : Parsable s.home w) (hs : s.Sound w) {l r : Node}
    (hl : w.parsed s.state l) (hr : w.parsed s.state r) : Answered w s (s.unite l r) := by
  have operands : ∀ m ∈ [l, r], w.parsed s.state m := by simp [hl, hr]
  obtain ⟨kept, value⟩ := build_sound ((can.composable s.state).union [l, r] operands) hs
  have same_home : (s.build (determinateUnion [l, r])).2.home = s.home := rfl
  have same_declarations :
      (s.build (determinateUnion [l, r])).2.declarations = s.declarations := rfl
  unfold unite
  generalize s.build (determinateUnion [l, r]) = built at kept value same_home same_declarations
  obtain ⟨o, t⟩ := built
  cases o with
  | ok n =>
    refine ⟨kept.sound, same_home, same_declarations, fun m hm => ?_, kept.kept⟩
    cases hm
    exact w.monotone kept.known (value n rfl)
  | error e => exact ⟨kept.sound, same_home, same_declarations, nofun, kept.kept⟩

theorem arrayOf_sound (can : Parsable s.home w) (hs : s.Sound w) {n : Node}
    (hn : w.parsed s.state n) :
    Kept w s (s.arrayOf n).2 ∧ w.parsed (s.arrayOf n).2.state (s.arrayOf n).1 := by
  obtain ⟨kept, value⟩ := build_sound ((can.composable s.state).arrayOf n hn) hs
  exact ⟨kept, w.monotone kept.known value⟩

end Scope

namespace Session

variable {home : Nat} {d : Declarations} {w : Standard}

/-- The scope is sound, and the nodes returned are up to the standard. -/
structure Sound (home : Nat) (d : Declarations) (w : Standard) (s : Session) : Prop where
  scope : s.scope.Sound w
  same_home : s.scope.home = home
  same_declarations : s.scope.declarations = d
  nodes : ∀ n ∈ s.nodes, w.parsed s.scope.state n

/-- A session after more calls: what was resolved and what was returned stays. -/
structure Continues (home : Nat) (d : Declarations) (w : Standard) (s t : Session) : Prop where
  sound : t.Sound home d w
  kept : Scope.Kept w s.scope t.scope
  nodes : s.nodes ⊆ t.nodes

theorem Continues.trans {s t u : Session} (first : Continues home d w s t)
    (second : Continues home d w t u) : Continues home d w s u :=
  ⟨second.sound, first.kept.trans second.kept, List.Subset.trans first.nodes second.nodes⟩

theorem Sound.keep {s : Session} (hs : s.Sound home d w) {t : Scope}
    (kept : Scope.Kept w s.scope t) : Continues home d w s ⟨t, s.nodes⟩ where
  sound :=
    ⟨kept.sound, kept.same_home.trans hs.same_home,
      kept.same_declarations.trans hs.same_declarations,
      fun m hm => w.monotone kept.known (hs.nodes m hm)⟩
  kept := kept
  nodes := List.Subset.refl _

theorem Sound.refl {s : Session} (hs : s.Sound home d w) : Continues home d w s s :=
  hs.keep ⟨hs.scope, rfl, rfl, fun _ _ found => found⟩

theorem Continues.add {s : Session} {t : Scope} {nodes : List Node}
    (h : Continues home d w s ⟨t, nodes⟩) {n : Node} (hn : w.parsed t.state n) :
    Continues home d w s ⟨t, nodes ++ [n]⟩ where
  sound := by
    refine ⟨h.sound.scope, h.sound.same_home, h.sound.same_declarations, fun m hm => ?_⟩
    rcases List.mem_append.mp hm with hm | hm
    · exact h.sound.nodes m hm
    · exact List.mem_singleton.mp hm ▸ hn
  kept := h.kept
  nodes := List.Subset.trans h.nodes (List.subset_append_left _ _)

theorem Sound.take {ε : Type} {s : Session} (hs : s.Sound home d w)
    {called : Except ε Node × Scope} (h : Scope.Answered w s.scope called) :
    Continues home d w s (s.take called) := by
  have kept := hs.keep h.toKept
  have value := h.value
  obtain ⟨o, t⟩ := called
  cases o with
  | ok n => exact kept.add (value n rfl)
  | error e => exact kept

variable [Library]

theorem answer_continues (can : Parsable home w) {s : Session} (hs : s.Sound home d w)
    (request : Request) : Continues home d w s (s.answer request) := by
  have can' : Parsable s.scope.home w := hs.same_home.symm ▸ can
  cases request with
  | parse text => exact hs.take (Scope.parse_sound can' hs.scope text)
  | parseValue definition => exact hs.take (Scope.parseValue_sound can' hs.scope definition)
  | resolve name => exact hs.take (Scope.resolve_sound can' hs.scope name)
  | resolveAll => exact hs.keep (Scope.resolveEach_sound s.scope.aliasNames can' hs.scope)
  | intersect l r =>
    simp only [answer]
    split
    · rename_i l r hl hr
      exact hs.take (Scope.intersect_sound can' hs.scope (hs.nodes l (List.mem_of_getElem? hl))
        (hs.nodes r (List.mem_of_getElem? hr)))
    · exact hs.refl
  | unite l r =>
    simp only [answer]
    split
    · rename_i l r hl hr
      exact hs.take (Scope.unite_sound can' hs.scope (hs.nodes l (List.mem_of_getElem? hl))
        (hs.nodes r (List.mem_of_getElem? hr)))
    · exact hs.refl
  | arrayOf n =>
    simp only [answer]
    split
    · rename_i n hn
      obtain ⟨kept, value⟩ :=
        Scope.arrayOf_sound can' hs.scope (hs.nodes n (List.mem_of_getElem? hn))
      exact (hs.keep kept).add value
    · exact hs.refl

/-- By induction on the calls, what one keeps all of them keep. -/
theorem foldl_continues (can : Parsable home w) {s : Session} (hs : s.Sound home d w)
    (requests : List Request) : Continues home d w s (requests.foldl answer s) := by
  induction requests generalizing s with
  | nil => exact hs.refl
  | cons request requests ih =>
    have first := answer_continues can hs request
    exact first.trans (ih first.sound)

/-- What parsing keeps to is kept to by everything that a session returns and knows. -/
theorem run_sound (can : Parsable home w) (d : Declarations) (requests : List Request) :
    (run home d requests).Sound home d w := by
  have start : (start home d).Sound home d w :=
    ⟨Scope.ofDeclarations_sound home d, rfl, rfl, fun _ h => absurd h List.not_mem_nil⟩
  exact (foldl_continues can start requests).sound

theorem run_continues (can : Parsable home w) (d : Declarations) (requests later : List Request) :
    Continues home d w (run home d requests) (run home d (requests ++ later)) := by
  rw [run, run, List.foldl_append]
  exact foldl_continues can (run_sound can d requests) later

end Session

end SchemaAlgebra

import SchemaAlgebra.Proofs.Alone
import SchemaAlgebra.Standard

/-!
# Histories of a scope

Whatever was called on a scope before, an alias in order is resolved to its genuine node or not
at all. So two scopes with the same declarations resolve it alike, and the two nodes allow the
same values.
-/
namespace SchemaAlgebra

section

open Parsing

variable [Library]

namespace Scope

/-- The aliases that are in order and resolved have genuine nodes, and none is being resolved. -/
def Recalls (s : Scope) : Prop := Remembers s.declarations ∅ s.state

variable {w : Standard} {s : Scope}

theorem resolving_remembers (s : Scope) (name : String) :
    Parsing.Simulates (Remembers s.declarations ∅) (fun _ => False) (fun a b => a.erase = b.erase)
      (s.resolving name) (s.resolving name) :=
  resolveUpTo_remembers (by simp) (by simp) (by simp)

theorem lookup_remembers (s : Scope) :
    s.lookup.Simulates (Remembers s.declarations ∅) (fun _ => False) (fun _ => True) s.lookup :=
  lookupWith_simulates remembers_ofResolutions (fun _ _ _ h => h) fun y _ _ =>
    s.resolving_remembers y

theorem Recalls.call {x : Parsing Node} (h : s.Recalls) (hs : s.Sound w)
    (ensures : Ensures w s.state x w.parsed)
    (keeps : Parsing.Simulates (Remembers s.declarations ∅) (fun _ => False)
      (fun a b => a.erase = b.erase) x x) : (s.call x).2.Recalls := by
  have after := ensures hs.holds
  cases ran : x.run.run s.state with
  | mk o t =>
    rw [ran] at after
    obtain ⟨holds, extended, -⟩ := after
    cases o with
    | ok n =>
      rw [call_ok hs.idle ran]
      exact remembers_ofResolutions t _ rfl (keeps s.state n t h ran).1
    | error e =>
      rw [call_error hs.idle ran]
      have undone := forget_resolutions hs.holds.sorted holds.sorted hs.idle extended
      exact remembers_ofResolutions s.state _ undone h

theorem Recalls.build (h : s.Recalls) {α : Type} (x : Traced α) : (s.build x).2.Recalls :=
  remembers_ofResolutions s.state _ (quiet_build x s.state) h

theorem Recalls.noteFailure {called : Except ParseError Node × Scope} (h : called.2.Recalls)
    (definition : String) : (noteFailure definition called).2.Recalls := by
  obtain ⟨o, t⟩ := called
  cases o with
  | ok n => exact h
  | error e => exact remembers_ofResolutions t.state _ rfl h

theorem Recalls.resolve (h : s.Recalls) (can : Parsable s.home w) (hs : s.Sound w) (name : String) :
    (s.resolve name).2.Recalls := by
  unfold Scope.resolve
  split_ifs
  · exact h.call hs (resolving_ensures can name) (s.resolving_remembers name)
  · exact h

theorem Recalls.resolveEach (names : List String) (h : s.Recalls) (can : Parsable s.home w)
    (hs : s.Sound w) : (s.resolveEach names).2.Recalls := by
  induction names generalizing s with
  | nil => exact h
  | cons name names ih =>
    have kept := (call_sound (resolving_ensures can name) hs).toKept
    have after := h.call hs (resolving_ensures can name) (s.resolving_remembers name)
    unfold Scope.resolveEach
    generalize s.call (s.resolving name) = called at kept after
    obtain ⟨o, t⟩ := called
    cases o with
    | error e => exact after
    | ok n => exact ih after (kept.same_home.symm ▸ can) kept.sound

end Scope

namespace Session

variable {home : Nat} {d : Declarations} {w : Standard}

omit [Library] in
theorem take_scope {ε : Type} (s : Session) (called : Except ε Node × Scope) :
    (s.take called).scope = called.2 := by
  obtain ⟨o, t⟩ := called
  cases o <;> rfl

theorem answer_recalls (can : Parsable home w) {s : Session} (hs : s.Sound home d w)
    (h : s.scope.Recalls) (request : Request) : (s.answer request).scope.Recalls := by
  have can' : Parsable s.scope.home w := hs.same_home.symm ▸ can
  cases request with
  | parse text =>
    rw [answer, take_scope]
    have named : ∀ name ∈ namesIn text, True := fun _ _ => trivial
    have read := parseExpression_simulates s.scope.lookup_remembers false named
    refine Scope.Recalls.noteFailure (h.call hs.scope ?_ (read.map fun _ _ same => same.1)) text
    exact .map (parseExpression_ensures can' (Scope.lookup_holds can') false text)
  | parseValue definition =>
    rw [answer, take_scope]
    have read := Definition.parse_simulates s.scope.lookup_remembers definition fun _ _ => trivial
    exact Scope.Recalls.noteFailure
      (h.call hs.scope (Definition.parse_ensures can' (Scope.lookup_holds can') definition) read) _
  | resolve name =>
    rw [answer, take_scope]
    exact h.resolve can' hs.scope name
  | resolveAll => exact h.resolveEach s.scope.aliasNames can' hs.scope
  | intersect l r =>
    simp only [answer]
    split
    · rw [take_scope]
      exact h.build _
    · exact h
  | unite l r =>
    simp only [answer]
    split
    · rename_i l r _ _
      rw [take_scope]
      have built := h.build (determinateUnion [l, r])
      unfold Scope.unite
      generalize s.scope.build (determinateUnion [l, r]) = called at built
      obtain ⟨o, t⟩ := called
      cases o <;> exact built
    · exact h
  | arrayOf n =>
    simp only [answer]
    split
    · rename_i n _
      exact h.build (Traced.arrayOf n)
    · exact h

theorem run_recalls (home : Nat) (d : Declarations) (requests : List Request) :
    (run home d requests).scope.Recalls := by
  induction requests using List.reverseRecOn with
  | nil => exact Scope.remembers_empty
  | append_singleton requests request ih =>
    have can := Standard.looked_parsable home
    rw [run, List.foldl_append]
    exact answer_recalls can (run_sound can d requests) ih request

end Session

namespace Scope

variable {d : Declarations} {name : String} {s t t' : Scope}

omit [Library] in
theorem fits_length (orderly : d.IsOrderly name)
    (declared : Entries.contains name d.aliases = true) : d.Fits d.aliases.length name :=
  Declarations.fits_of_length ∅ declared (by simp) (by simp) orderly (by simp)

/-- An alias in order is resolved where it can be read alone, and to the same node. -/
theorem resolve_erase {w : Standard} (h : s.Recalls) (hs : s.Sound w)
    (orderly : s.declarations.IsOrderly name)
    (declared : Entries.contains name s.declarations.aliases = true) :
    (s.resolve name).1.toOption.map Node.erase =
      ((resolveAlone 0 s.declarations s.declarations.aliases.length name).run.run
        .empty).1.toOption.map Node.erase := by
  have away : ∀ b ∈ (∅ : Finset String), ¬s.declarations.Leads name b := by simp
  have fits := fits_length orderly declared
  have there := resolved_alone s.home 0 orderly away fits fits
  have back := alone_resolved s.home 0 orderly away fits fits
  rw [resolve, if_pos declared]
  cases ran : (s.resolving name).run.run s.state with
  | mk o u =>
    cases alone : (resolveAlone 0 s.declarations s.declarations.aliases.length name).run.run
      .empty with
    | mk o' u' =>
      cases o with
      | ok n =>
        obtain ⟨-, -, again⟩ := there s.state n u h ran
        obtain ⟨b, v, ran', -, same⟩ := again .empty trivial
        cases alone.symm.trans ran'
        rw [call_ok hs.idle ran]
        exact congrArg some same
      | error e =>
        rw [call_error hs.idle ran]
        cases o' with
        | error e' => rfl
        | ok b =>
          obtain ⟨-, -, again⟩ := back .empty b u' trivial alone
          obtain ⟨n, v, ran', -, -⟩ := again s.state h
          cases ran.symm.trans ran'

theorem IsGenuine.same {m m' : Node} (h : IsGenuine d name m) (h' : IsGenuine d name m')
    (fits : d.Fits d.aliases.length name) : m.erase = m'.erase := by
  obtain ⟨b, u, ran, same⟩ := h 0 _ fits .empty
  obtain ⟨b', u', ran', same'⟩ := h' 0 _ fits .empty
  cases ran.symm.trans ran'
  exact same.trans same'.symm

theorem Recalls.genuine (h : s.Recalls) {m : Node} (found : s.resolved? name = some m)
    (orderly : s.declarations.IsOrderly name) : IsGenuine s.declarations name m := by
  rw [resolved?] at found
  cases known : Entries.get? name s.state.resolutions with
  | none =>
    rw [known] at found
    cases found
  | some r =>
    rw [known] at found
    cases r with
    | inProgress => cases found
    | resolved k =>
      cases found
      exact Remembers.genuine h name m known orderly

/-- The alias is reached from the first one and resolved in both scopes. -/
structure Shares (t t' : Scope) (first name : String) : Prop where
  leads : t.declarations.Leads first name
  left : ∃ k, t.resolved? name = some k
  right : ∃ k, t'.resolved? name = some k

namespace Shares

variable {first : String}

omit [Library] in
theorem symm (declarations : t.declarations = t'.declarations) (shares : t.Shares t' first name) :
    t'.Shares t first name :=
  ⟨declarations ▸ shares.leads, shares.right, shares.left⟩

section

variable (ht : t.Sound (.looked t.home)) (ht' : t'.Sound (.looked t'.home)) (recalls : t.Recalls)
  (recalls' : t'.Recalls) (declarations : t.declarations = t'.declarations)
  (orderly : t.declarations.IsOrderly first)
  (declared : Entries.contains first t.declarations.aliases = true)
include recalls recalls' declarations orderly declared

theorem same (shares : t.Shares t' first name) {k k' : Node} (found : t.resolved? name = some k)
    (found' : t'.resolved? name = some k') : k.erase = k'.erase := by
  have ordered := orderly.leads shares.leads
  have genuine' := recalls'.genuine found' (declarations ▸ ordered)
  rw [← declarations] at genuine'
  exact (recalls.genuine found ordered).same genuine'
    (fits_length ordered (shares.leads.contains declared))

include ht ht'

/-- What the nodes of shared aliases mention is shared, since the nodes are the same. -/
theorem mentioned (shares : t.Shares t' first name) {k : Node} (found : t.resolved? name = some k)
    {y : String} (mentioned : k.Mentions y) : t.Shares t' first y := by
  obtain ⟨k', found'⟩ := shares.right
  have genuine := recalls.genuine found (orderly.leads shares.leads)
  have further := genuine.leads (orderly.leads shares.leads)
      (shares.leads.contains declared) mentioned
  refine ⟨shares.leads.trans further,
    ht.knows (Node.within_mentions (ht.resolved found).1.2 mentioned), ?_⟩
  have same := shares.same recalls recalls' declarations orderly declared found found'
  rw [Node.mentions_congr (Node.same_iff.mpr same)] at mentioned
  exact ht'.knows (Node.within_mentions (ht'.resolved found').1.2 mentioned)

theorem closed (shares : t.Shares t' first name) :
    ∃ k, t.resolved? name = some k ∧ k.IsWithin (some t.home) (t.Shares t' first) := by
  obtain ⟨k, found⟩ := shares.left
  refine ⟨k, found, Node.isWithin_of_mentions (ht.resolved found).1.2 fun y hy => ?_⟩
  exact shares.mentioned ht ht' recalls recalls' declarations orderly declared found hy

end

end Shares

end Scope

/-- The bindings without any but certain aliases of a scope, wherever they are referred to from. -/
noncomputable def Bindings.confine (b : Bindings) (home : Nat) (X : String → Prop) :
Bindings where
  node? _ name := open Classical in if X name then b.node? (some home) name else none
  transform := b.transform

/-- A node that leads to certain aliases only does not see any others. -/
theorem Scope.allows_confine {t : Scope} {b : Bindings} (binds : t.Binds b) {X : String → Prop}
    (closed : ∀ x, X x → ∃ k, t.resolved? x = some k ∧ k.IsWithin (some t.home) X)
    {n : Node} (within : n.IsWithin (some t.home) X) (cap : Option Nat) (v : Json) :
    n.Allows (b.confine t.home X) cap v ↔ n.Allows b cap v := by
  have same_targets : Traversal.Closed (fun x => x.1 = some t.home ∧ X x.2)
      (b.confine t.home X) b := by
    refine ⟨fun x hx => ?_, rfl⟩
    obtain ⟨h, x⟩ := x
    obtain ⟨rfl, hx⟩ := hx
    obtain ⟨k, found, inside⟩ := closed x hx
    have bound := binds x k found
    exact ⟨k, (if_pos hx).trans bound, bound, Node.aliases_of_isWithin inside⟩
  have runs (patience : Nat) :=
    (Traversal.run_confined same_targets (Node.aliases_of_isWithin within) patience .allow cap v).2
  simp only [Node.Allows, Program.allows, runs]

/-- Names in order that are resolved in both scopes refer to nodes that are the same. -/
theorem Scope.confine_resemble {t t' : Scope} {first : String} (recalls : t.Recalls)
    (recalls' : t'.Recalls) (declarations : t.declarations = t'.declarations)
    (orderly : t.declarations.IsOrderly first)
    (declared : Entries.contains first t.declarations.aliases = true) {b b' : Bindings}
    (binds : t.Binds b) (binds' : t'.Binds b') :
    (b.confine t.home (t.Shares t' first)).Resemble (b'.confine t'.home (t.Shares t' first)) := by
  intro _ _ name
  by_cases shares : t.Shares t' first name
  · obtain ⟨k, found⟩ := shares.left
    obtain ⟨k', found'⟩ := shares.right
    have same := shares.same recalls recalls' declarations orderly declared found found'
    simp only [Bindings.confine, if_pos shares, binds name k found, binds' name k' found',
      Option.map_some, same]
  · simp only [Bindings.confine, if_neg shares]

/-- An alias in order that is resolved in both scopes allows the same values in them. -/
theorem Scope.allows_resolved {t t' : Scope} {first : String} (ht : t.Sound (.looked t.home))
    (ht' : t'.Sound (.looked t'.home)) (recalls : t.Recalls) (recalls' : t'.Recalls)
    (declarations : t.declarations = t'.declarations) (orderly : t.declarations.IsOrderly first)
    (declared : Entries.contains first t.declarations.aliases = true) {n n' : Node}
    (found : t.resolved? first = some n) (found' : t'.resolved? first = some n') {b b' : Bindings}
    (binds : t.Binds b) (binds' : t'.Binds b') (cap : Option Nat) (v : Json) : n.Allows b cap v ↔
      n'.Allows b' cap v := by
  have shares : t.Shares t' first first := ⟨.refl, ⟨n, found⟩, ⟨n', found'⟩⟩
  have same := shares.same recalls recalls' declarations orderly declared found found'
  have closed (x : String) (hx : t.Shares t' first x) :=
    hx.closed ht ht' recalls recalls' declarations orderly declared
  have closed' (x : String) (hx : t.Shares t' first x) :
      ∃ k, t'.resolved? x = some k ∧ k.IsWithin (some t'.home) (t.Shares t' first) := by
    obtain ⟨k, hk, within⟩ :=
      (hx.symm declarations).closed ht' ht recalls' recalls declarations.symm
      (declarations ▸ orderly) (declarations ▸ declared)
    refine ⟨k, hk, Node.isWithin_of_mentions within fun y hy => ?_⟩
    exact (Node.within_mentions within hy).symm declarations.symm
  obtain ⟨k, hk, within⟩ := closed first shares
  obtain ⟨k', hk', within'⟩ := closed' first shares
  cases found.symm.trans hk
  cases found'.symm.trans hk'
  have resemble := confine_resemble recalls recalls' declarations orderly declared binds binds'
  have back : (b'.confine t'.home (t.Shares t' first)).Resemble
      (b.confine t.home (t.Shares t' first)) :=
    fun h h' name => (resemble h' h name).symm
  rw [← allows_confine binds closed within, ← allows_confine binds' closed' within']
  exact ⟨Node.allows_congr resemble same cap v, Node.allows_congr back same.symm cap v⟩

namespace Session

theorem resolve_recalls (home : Nat) (d : Declarations) (earlier : List Request) (name : String) :
    let s := (run home d earlier).scope
    let t := (s.resolve name).2
    t.Sound (.looked t.home) ∧ t.declarations = d ∧ t.Recalls ∧
      ∀ n, (s.resolve name).1 = .ok n → t.resolved? name = some n := by
  intro s t
  have can := Standard.looked_parsable home
  have session := run_sound can d earlier
  have can' : Parsable s.home (.looked home) := session.same_home.symm ▸ can
  have answered := Scope.resolve_sound can' session.scope name
  have same_home : t.home = home := answered.same_home.trans session.same_home
  refine ⟨same_home.symm ▸ answered.sound,
    answered.same_declarations.trans session.same_declarations, ?_, ?_⟩
  · exact (run_recalls home d earlier).resolve can' session.scope name
  · exact fun n resolved => Scope.resolve_resolved session.scope resolved

/-- Where no two different aliases that an alias leads to refer to each other, it does not matter
what was called before: the alias is resolved in both scopes or in none, the nodes are the same,
and they allow the same values. -/
theorem resolve_same (d : Declarations) (name : String) (orderly : d.IsOrderly name)
    (home home' : Nat) (earlier earlier' : List Request) :
    let s := (run home d earlier).scope
    let s' := (run home' d earlier').scope
    (s.resolve name).1.isOk = (s'.resolve name).1.isOk ∧
      ∀ n n', (s.resolve name).1 = .ok n → (s'.resolve name).1 = .ok n' → n.same n' = true ∧
        ∀ b b', (s.resolve name).2.Binds b → (s'.resolve name).2.Binds b' →
          ∀ cap v, n.Allows b cap v ↔ n'.Allows b' cap v := by
  intro s s'
  have session := run_sound (Standard.looked_parsable home) d earlier
  have session' := run_sound (Standard.looked_parsable home') d earlier'
  have same_declarations : s.declarations = d := session.same_declarations
  have same_declarations' : s'.declarations = d := session'.same_declarations
  by_cases declared : Entries.contains name d.aliases = true
  · have resolved := Scope.resolve_erase (run_recalls home d earlier) session.scope
      (same_declarations.symm ▸ orderly) (same_declarations.symm ▸ declared)
    have resolved' := Scope.resolve_erase (run_recalls home' d earlier') session'.scope
      (same_declarations'.symm ▸ orderly) (same_declarations'.symm ▸ declared)
    rw [session.same_declarations] at resolved
    rw [session'.same_declarations, ← resolved] at resolved'
    obtain ⟨sound, declarations, recalls, left⟩ := resolve_recalls home d earlier name
    obtain ⟨sound', declarations', recalls', right⟩ := resolve_recalls home' d earlier' name
    constructor
    · cases hn : (s.resolve name).1 <;> cases hn' :
        (s'.resolve name).1 <;> rw [hn, hn'] at resolved' <;>
        first | rfl | cases resolved'
    · intro n n' hn hn'
      rw [hn, hn'] at resolved'
      refine ⟨Node.same_iff.mpr (Option.some.inj resolved').symm,
        fun b b' binds binds' cap v => ?_⟩
      exact Scope.allows_resolved sound sound' recalls recalls'
        (declarations.trans declarations'.symm) (declarations.symm ▸ orderly)
          (declarations.symm ▸ declared) (left n hn) (right n' hn') binds binds' cap v
  · have unknown (u : Scope) (hu : u.declarations = d) :
        (u.resolve name).1 = .error (.ofFault (.unresolvable name)) := by
      rw [Scope.resolve, hu, if_neg declared]
    rw [unknown s same_declarations, unknown s' same_declarations']
    exact ⟨rfl, nofun⟩

end Session

end

section

attribute [local instance] Library.standard

def Scope.listed : Declarations where
  aliases :=
    [("item", .string "number|string"),
      ("list", .object [("head", .string "item"), ("next?", .string "list")])]
  morphs := []
  config := .default

theorem Session.resolve_same_listed : Scope.listed.IsOrderly "list" ∧
    ∃ n n', ((run 0 Scope.listed [.resolve "item"]).scope.resolve "list").1 = .ok n ∧
      ((run 1 Scope.listed []).scope.resolve "list").1 = .ok n' ∧ n.same n' = true ∧
      ∀ b b', ((run 0 Scope.listed [.resolve "item"]).scope.resolve "list").2.Binds b →
        ((run 1 Scope.listed []).scope.resolve "list").2.Binds b' →
          ∀ cap v, n.Allows b cap v ↔ n'.Allows b' cap v := by
  have orderly : Scope.listed.IsOrderly "list" :=
    Declarations.isOrderly_of_rank (fun name => if name = "list" then 1 else 0)
      (by decide +kernel) "list"
  have resolved : ((run 0 Scope.listed [.resolve "item"]).scope.resolve "list").1.isOk = true := by
    decide +kernel
  obtain ⟨alike, same⟩ := resolve_same Scope.listed "list" orderly 0 1 [.resolve "item"] []
  have resolved' : ((run 1 Scope.listed []).scope.resolve "list").1.isOk = true :=
    alike ▸ resolved
  refine ⟨orderly, ?_⟩
  cases hn : ((run 0 Scope.listed [.resolve "item"]).scope.resolve "list").1 with
  | error e =>
    rw [hn] at resolved
    cases resolved
  | ok n =>
    cases hn' : ((run 1 Scope.listed []).scope.resolve "list").1 with
    | error e =>
      rw [hn'] at resolved'
      cases resolved'
    | ok n' => exact ⟨n, n', rfl, rfl, same n n' hn hn'⟩

/-- Where different aliases refer to each other, what was called before does matter. -/
example : ((Session.run 0 Scope.looped [.resolve "q"]).scope.resolve "p").1.isOk = true ∧
    ((Session.run 0 Scope.looped []).scope.resolve "p").1.isOk = false := by decide +kernel

end

end SchemaAlgebra

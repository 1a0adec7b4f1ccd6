import SchemaAlgebra.Proofs.Definitions

/-!
# Resolved aliases

Whatever is called on a scope, the aliases that are known between two calls are all
resolved, and none of them to a node that refers to the alias itself.
-/
namespace SchemaAlgebra.Scope

open Parsing

variable {home : Nat} {w : Standard} {lookup : Lookup} {s t : ScopeState}

theorem parseAlias_ensures [Library] (can : Parsable home w) (aliases : lookup.Holds w)
    (name : String) (definition : Json) :
    Ensures w s (parseAlias lookup name definition) fun t n => w.parsed t n ∧
      name ∉ n.references := by
  refine (Definition.parse_ensures can aliases definition).bind fun t n _ hn => ?_
  refine .ite (fun _ => .fail _) fun other => .pure ⟨hn, ?_⟩
  simpa using other

/-- The state in which the definition of an alias is parsed. -/
def begun (s : ScopeState) (name : String) : ScopeState :=
  { s.note (.resolveBegin name) with
    resolutions := Entries.insert name .inProgress s.resolutions
    journal := name :: s.journal }

/-- The state in which an alias has been resolved. -/
def settled (s : ScopeState) (name : String) (n : Node) : ScopeState :=
  { s.note (.resolved name n) with resolutions := Entries.insert name (.resolved n) s.resolutions }

theorem resolveNew_ok [Library] {name : String} {definition : Json} {n : Node}
    (h : (parseAlias lookup name definition).run.run (begun s name) = (.ok n, t)) :
    (resolveNew lookup name definition).run.run s = (.ok n, settled t name n) := by
  have inner : (do
      let n ← parseAlias lookup name definition
      Parsing.note (.resolved name n)
      mark name (.resolved n)
      pure n : Parsing Node).run.run (begun s name) = (.ok n, settled t name n) := by
    rw [run_bind_ok h]
    rfl
  exact run_catch_ok inner

theorem resolveNew_error [Library] {name : String} {definition : Json} {e : ParseError}
    (h : (parseAlias lookup name definition).run.run (begun s name) = (.error e, t)) :
    (resolveNew lookup name definition).run.run s =
      (.error (e.inAlias name), t.note (.resolveFailed name (e.inAlias name))) := by
  have inner : (do
      let n ← parseAlias lookup name definition
      Parsing.note (.resolved name n)
      mark name (.resolved n)
      pure n : Parsing Node).run.run (begun s name) = (.error e, t) :=
    run_bind_error h
  exact run_catch_error inner

theorem knows_insert {name : String} (r : Resolution) (resolutions : t.resolutions =
    Entries.insert name r s.resolutions) (other : String) (known : s.Knows other) :
    t.Knows other := by
  rw [ScopeState.Knows, resolutions, Entries.get?_insert]
  split_ifs
  · rfl
  · exact known

theorem begun_holds (hs : s.Holds w) (name : String) : (begun s name).Holds w where
  stored := hs.stored
  sorted := Entries.sorted_insert name Resolution.inProgress hs.sorted
  resolved other n found := by
    simp only [begun, Entries.get?_insert] at found
    split_ifs at found
    · cases found
    · obtain ⟨hn, absent⟩ := hs.resolved other n found
      exact ⟨w.monotone (knows_insert .inProgress rfl) hn, absent⟩

theorem settled_holds (ht : t.Holds w) {name : String} {n : Node}
    (hn : w.parsed t n ∧ name ∉ n.references) : (settled t name n).Holds w where
  stored := ht.stored
  sorted := Entries.sorted_insert name (Resolution.resolved n) ht.sorted
  resolved other m found := by
    simp only [settled, Entries.get?_insert] at found
    split_ifs at found with same
    · cases found
      exact ⟨w.monotone (knows_insert (.resolved n) rfl) hn.1, same ▸ hn.2⟩
    · obtain ⟨hm, absent⟩ := ht.resolved other m found
      exact ⟨w.monotone (knows_insert (.resolved n) rfl) hm, absent⟩

/-- What was in the journal when an alias was begun stays there. -/
theorem extends_of_begun {name : String} (unknown : Entries.get? name s.resolutions = none)
    (h : (begun s name).Extends t) : s.Extends t where
  kept other r found := by
    refine h.kept other r ?_
    simp only [begun, Entries.get?_insert]
    rw [if_neg, found]
    rintro rfl
    rw [unknown] at found
    cases found
  begun other absent found := by
    by_cases same : other = name
    · exact h.journal other (same ▸ List.mem_cons_self)
    · refine h.begun other ?_ found
      simp only [Scope.begun, Entries.get?_insert]
      rw [if_neg same, absent]
  journal other found := h.journal other (List.mem_cons_of_mem _ found)
  entered other found := by
    rcases h.entered other found with found | absent
    · rcases List.mem_cons.mp found with rfl | found
      · exact Or.inr unknown
      · exact Or.inl found
    · simp only [Scope.begun, Entries.get?_insert] at absent
      split_ifs at absent
      exact Or.inr absent
  marked other found := by
    rcases h.marked other found with found | found
    · rcases List.mem_cons.mp found with rfl | found
      · refine Or.inr (Option.isSome_iff_exists.mpr ⟨.inProgress, h.kept other _ ?_⟩)
        simp [begun, Entries.get?_insert]
      · exact Or.inl found
    · exact Or.inr found
  noted := by
    obtain ⟨notes, same, began⟩ := h.noted
    refine ⟨notes ++ [.resolveBegin
      name], by simp [same, begun, ScopeState.note], fun other found => ?_⟩
    rcases List.mem_append.mp found with found | found
    · exact began other found
    · cases List.mem_singleton.mp found
      exact h.journal name List.mem_cons_self

/-- An alias that was not looked at before is resolved, or the call fails. -/
theorem resolveNew_ensures [Library] (can : Parsable home w) (aliases : lookup.Holds w)
    {name : String} (definition : Json) (unknown : Entries.get? name s.resolutions = none) :
    Ensures w s (resolveNew lookup name definition) w.parsed := by
  intro hs
  have parsed := parseAlias_ensures can aliases name definition (begun_holds hs name)
  cases ran : (parseAlias lookup name definition).run.run (begun s name) with
  | mk o t =>
    rw [ran] at parsed
    obtain ⟨holds, extended, value⟩ := parsed
    have extended' := extends_of_begun unknown extended
    cases o with
    | error e =>
      rw [resolveNew_error ran]
      have failed : t.Extends (t.note (.resolveFailed name (e.inAlias name))) := .note t nofun
      exact ⟨holds.of_eq rfl rfl, extended'.trans failed, fun _ h => nomatch h⟩
    | ok n =>
      obtain ⟨settles, hn⟩ := value n rfl
      rw [resolveNew_ok ran]
      refine ⟨settled_holds holds hn,
        ⟨?_, ?_, extended'.journal, extended'.entered, ?_, ?_⟩, ?_⟩
      · intro other r found
        simp only [settled, Entries.get?_insert]
        rw [if_neg, extended'.kept other r found]
        rintro rfl
        rw [unknown] at found
        cases found
      · intro other absent found
        by_cases same : other = name
        · exact extended.journal other (same ▸ List.mem_cons_self)
        · simp only [settled, Entries.get?_insert, if_neg same] at found
          exact extended'.begun other absent found
      · intro other found
        refine (extended'.marked other found).imp id fun found => ?_
        simp only [settled, Entries.get?_insert]
        split_ifs
        · rfl
        · exact found
      · obtain ⟨notes, same, began⟩ := extended'.noted
        refine ⟨.resolved name n :: notes, congrArg (List.cons _) same, fun other found => ?_⟩
        rcases List.mem_cons.mp found with found | found
        · cases found
        · exact began other found
      · intro m hm
        cases hm
        refine ⟨fun other r absent found => ?_,
          w.monotone (knows_insert (.resolved n) rfl) hn.1⟩
        simp only [settled, Entries.get?_insert] at found
        split_ifs at found with same
        · cases found
          exact ⟨n, rfl⟩
        · refine settles other r ?_ found
          simp only [begun, Entries.get?_insert]
          rw [if_neg same, absent]

/-- An alias that is being parsed is deferred. -/
def deferring (home : Nat) (name : String) : Parsing Node := do
  Parsing.note (.deferred name)
  Parsing.build (Traced.build (.of (.deferred name (some home))))

theorem resolveWith_run (home : Nat) (aliases : List (String × Json))
    (parseNew : String → Json → Parsing Node) (name : String) (s : ScopeState) :
    (resolveWith home aliases parseNew name).run.run s =
      match Entries.get? name s.resolutions with
      | some (.resolved n) => (.ok n, s)
      | some .inProgress => (deferring home name).run.run s
      | none =>
        match Entries.get? name aliases with
        | some definition => (parseNew name definition).run.run s
        | none => (.error (.ofFault (.unresolvable name)), s) := by
  have run_get : (resolveWith home aliases parseNew name).run.run s =
      (match Entries.get? name s.resolutions with
        | some (.resolved n) => pure n
        | some .inProgress => deferring home name
        | none =>
          match Entries.get? name aliases with
          | some definition => parseNew name definition
          | none => fail (.unresolvable name) : Parsing Node).run.run s := rfl
  rw [run_get]
  cases Entries.get? name s.resolutions with
  | some r => cases r <;> rfl
  | none => cases Entries.get? name aliases <;> rfl

theorem resolveWith_ensures [Library] (can : Parsable home w) (aliases : List (String × Json))
    {parseNew : String → Json → Parsing Node}
    (new : ∀ name definition {s}, Entries.get? name s.resolutions = none →
      Ensures w s (parseNew name definition) w.parsed) (name : String) :
    Ensures w s (resolveWith home aliases parseNew name) w.parsed := by
  intro hs
  rw [resolveWith_run]
  cases known : Entries.get? name s.resolutions with
  | some r =>
    cases r with
    | resolved n =>
      have ended : Ensures w s (pure n) w.parsed := .pure (hs.resolved name n known).1
      exact ended hs
    | inProgress =>
      have noted : Ensures w s (Parsing.note (.deferred name))
          fun t _ => Entries.get? name t.resolutions = some .inProgress :=
        .note (by intro _ h; cases h) fun t same => by rw [same, known]
      exact noted.bind (fun _ _ _ pending => .build_node (can.deferred pending)) hs
  | none =>
    cases Entries.get? name aliases with
    | some definition => exact new name definition known hs
    | none => exact Ensures.fail (.unresolvable name) hs

theorem lookupWith_holds (d : Declarations) {resolve : String → Parsing Node}
    (h : ∀ name {s}, Ensures w s (resolve name) w.parsed) :
    (lookupWith home d resolve).Holds w := by
  intro s name
  refine .ite (fun _ => .map ((h name).mono fun t n hn m hm => ?_)) fun _ =>
    .pure fun _ h => nomatch h
  cases hm
  exact hn

variable [Library]

theorem resolveUpTo_ensures (can : Parsable home w) (d : Declarations) (depth : Nat)
    (name : String) : Ensures w s (resolveUpTo home d depth name) w.parsed := by
  induction depth generalizing name s with
  | zero => exact resolveWith_ensures can d.aliases (fun _ _ _ _ => Ensures.fail _) name
  | succ depth ih =>
    refine resolveWith_ensures can d.aliases (fun name definition _ unknown => ?_) name
    exact resolveNew_ensures can (lookupWith_holds d fun name _ => ih name) definition unknown

theorem resolveNew_resolved {name : String} {definition : Json} {n : Node}
    (h : (resolveNew lookup name definition).run.run s = (.ok n, t)) :
    Entries.get? name t.resolutions = some (.resolved n) := by
  cases ran : (parseAlias lookup name definition).run.run (begun s name) with
  | mk o u =>
    cases o with
    | error e =>
      rw [resolveNew_error ran] at h
      cases h
    | ok m =>
      rw [resolveNew_ok ran] at h
      cases h
      simp only [settled, Entries.get?_insert, if_true]

omit [Library] in
theorem resolveWith_resolved {aliases : List (String × Json)}
    {parseNew : String → Json → Parsing Node} {name : String} {n : Node}
    (new : ∀ definition, (parseNew name definition).run.run s = (.ok n, t) →
      Entries.get? name t.resolutions = some (.resolved n))
    (idle : Entries.get? name s.resolutions ≠ some .inProgress)
    (h : (resolveWith home aliases parseNew name).run.run s = (.ok n, t)) :
    Entries.get? name t.resolutions = some (.resolved n) := by
  rw [resolveWith_run] at h
  cases known : Entries.get? name s.resolutions with
  | some r =>
    rw [known] at h idle
    cases r with
    | resolved m =>
      cases h
      exact known
    | inProgress => exact absurd rfl idle
  | none =>
    rw [known] at h
    cases declared : Entries.get? name aliases with
    | some definition =>
      rw [declared] at h
      exact new definition h
    | none =>
      rw [declared] at h
      cases h

/-- An alias that is not being parsed is resolved to the node that resolving it gives. -/
theorem resolveUpTo_resolved {d : Declarations} {depth : Nat} {name : String} {n : Node}
    (idle : Entries.get? name s.resolutions ≠ some .inProgress)
    (h : (resolveUpTo home d depth name).run.run s = (.ok n, t)) :
    Entries.get? name t.resolutions = some (.resolved n) := by
  cases depth with
  | zero => exact resolveWith_resolved (fun _ failed => by cases failed) idle h
  | succ depth => exact resolveWith_resolved (fun _ ran => resolveNew_resolved ran) idle h

end SchemaAlgebra.Scope

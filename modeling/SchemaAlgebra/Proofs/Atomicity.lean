import SchemaAlgebra.Proofs.Production
import SchemaAlgebra.Proofs.Sessions

/-!
# Calls are atomic

A call resolves aliases while it parses, the inner ones before it is known whether the
outer ones are well formed. What it began is in its journal, so a call that fails can take
all of it back, and one that succeeds has resolved all of it.
-/
namespace SchemaAlgebra

open Parsing

namespace Scope

/-- What a call on the scope leaves, by its result. -/
structure Atomic {α : Type} (s : Scope) (called : Except ParseError α × Scope) : Prop where
  idle : called.2.state.journal = []
  settled : ∀ name, Entries.get? name called.2.state.resolutions ≠ some .inProgress
  undone : ∀ e, called.1 = .error e → called.2.state.resolutions = s.state.resolutions
  kept : ∀ a, called.1 = .ok a → ∀ name r, Entries.get? name s.state.resolutions = some r →
    Entries.get? name called.2.state.resolutions = some r
  begun : ∀ a, called.1 = .ok a → ∃ notes, called.2.state.notes = notes ++ s.state.notes ∧
    ∀ name, Note.resolveBegin name ∈ notes → ∃ n, called.2.resolved? name = some n

variable {w : Standard} {s : Scope}

theorem Sound.ne_inProgress (h : s.Sound w) (name : String) :
    Entries.get? name s.state.resolutions ≠ some .inProgress := by
  intro known
  obtain ⟨n, hn⟩ := h.settled name _ known
  cases hn

theorem call_atomic {x : Parsing Node} (hx : Ensures w s.state x w.parsed) (hs : s.Sound w) :
    Atomic s (s.call x) := by
  have sound := (call_sound hx hs).sound
  have after := hx hs.holds
  cases ran : x.run.run s.state with
  | mk o t =>
    rw [ran] at after
    obtain ⟨holds, extended, -⟩ := after
    cases o with
    | error e =>
      rw [call_error hs.idle ran] at sound ⊢
      exact {
        idle := sound.idle
        settled := sound.ne_inProgress
        undone := fun _ _ => forget_resolutions hs.holds.sorted holds.sorted hs.idle extended
        kept := nofun
        begun := nofun }
    | ok a =>
      rw [call_ok hs.idle ran] at sound ⊢
      refine ⟨sound.idle, sound.ne_inProgress, nofun, fun _ _ => extended.kept, fun _ _ => ?_⟩
      obtain ⟨notes, same, entered⟩ := extended.noted
      refine ⟨notes, same, fun name began => ?_⟩
      have marked : (Entries.get? name t.resolutions).isSome := by
        refine (extended.marked name (entered name began)).resolve_left fun earlier => ?_
        rw [hs.idle] at earlier
        cases earlier
      obtain ⟨r, found⟩ := Option.isSome_iff_exists.mp marked
      obtain ⟨n, rfl⟩ := sound.settled name r found
      exact ⟨n, by rw [resolved?, found]⟩

theorem Atomic.refused {α : Type} (hs : s.Sound w) (e : ParseError) :
    Atomic s ((.error e, s) : Except ParseError α × Scope) where
  idle := hs.idle
  settled := hs.ne_inProgress
  undone _ _ := rfl
  kept := nofun
  begun := nofun

theorem Atomic.noteFailure {called : Except ParseError Node × Scope} (h : Atomic s called)
    (definition : String) : Atomic s (noteFailure definition called) := by
  obtain ⟨o, t⟩ := called
  cases o with
  | ok n => exact h
  | error e =>
    exact ⟨h.idle, h.settled, h.undone, nofun, nofun⟩

variable [Library]

theorem resolve_atomic (can : Parsable s.home w) (hs : s.Sound w) (name : String) :
    Atomic s (s.resolve name) := by
  unfold resolve
  split_ifs
  · exact call_atomic (resolving_ensures can name) hs
  · exact .refused hs _

theorem parse_atomic (can : Parsable s.home w) (hs : s.Sound w) (text : String) :
    Atomic s (s.parse text) :=
  (call_atomic (.map (parseExpression_ensures can (lookup_holds can) false text)) hs).noteFailure
    text

theorem parseValue_atomic (can : Parsable s.home w) (hs : s.Sound w) (definition : Json) :
    Atomic s (s.parseValue definition) :=
  (call_atomic (Definition.parse_ensures can (lookup_holds can) definition) hs).noteFailure _

end Scope

namespace Session

/-- Whatever was called on a scope before, every call on it is atomic, and so is every step
of resolving aliases one after the other. -/
theorem calls_atomic [Library] (home : Nat) (d : Declarations) (requests : List Request) :
    let s := (run home d requests).scope
    (∀ text, s.Atomic (s.parse text)) ∧
      (∀ definition, s.Atomic (s.parseValue definition)) ∧
      (∀ name, s.Atomic (s.resolve name)) ∧
      ∀ names name, let t := (s.resolveEach names).2
        t.Atomic (t.call (t.resolving name)) := by
  have any : Hereditary fun _ => True := ⟨fun _ _ _ _ => trivial, fun _ _ _ => trivial⟩
  have can : Buildable (run home d requests).scope.home fun n => n.Reduced ∧ True :=
    any.buildable fun _ => trivial
  have sound := (run_sound (any.buildable fun _ => trivial) d requests : Sound home d _ _).scope
  refine ⟨Scope.parse_atomic can sound, Scope.parseValue_atomic can sound,
    Scope.resolve_atomic can sound, fun names name => ?_⟩
  obtain ⟨sound', same_home, -⟩ := Scope.resolveEach_sound names can sound
  exact Scope.call_atomic (Scope.resolving_ensures (same_home.symm ▸ can) name) sound'

end Session

end SchemaAlgebra

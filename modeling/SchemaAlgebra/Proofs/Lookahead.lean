import SchemaAlgebra.Grammar.Scanner

/-!
# Looking ahead

A text is one sequence of tokens and faults, in which every call on a scanner has its place. A
token that was looked at is still there for the next call. A fault is not: looking at it uses it
up, as taking it does.
-/
namespace SchemaAlgebra

namespace Scanner

/-- A call on a scanner. -/
inductive Call where
  /-- Looks at the next token. -/
  | peek
  /-- Takes the next token. -/
  | next
  deriving DecidableEq

def call (s : Scanner) : Call → Except Fault Token × Scanner
  | .peek => s.peek
  | .next => s.next

/-- The calls with what they answer, in order. -/
def transcript (s : Scanner) : List Call → List (Call × Except Fault Token)
  | [] => []
  | c :: calls => (c, (s.call c).1) :: (s.call c).2.transcript calls

def after (s : Scanner) (calls : List Call) : Scanner := calls.foldl (fun s c => (s.call c).2) s

def taken (s : Scanner) (calls : List Call) : List (Except Fault Token) :=
  ((s.transcript calls).filter (·.1 == .next)).map (·.2)

/-- What is taken if nothing is looked at before. -/
def alone (s : Scanner) (k : Nat) : Except Fault Token := (s.after (.replicate k .next)).next.1

/-- Whether a call leaves what it answers behind: it takes it, or looks at a fault. -/
def usesUp : Call × Except Fault Token → Bool
  | (.next, _) => true
  | (.peek, answer) => !answer.isOk

/-- How much of the sequence the calls use up. -/
def used (s : Scanner) (calls : List Call) : Nat := (s.transcript calls).countP usesUp

end Scanner

namespace Scan

/-- The characters behind the given number of scans. -/
def behind (cs : List Char) : Nat → List Char
  | 0 => cs
  | k + 1 => (first (behind cs k)).rest

def token? (cs : List Char) (k : Nat) : Except Fault Token := (first (behind cs k)).token

end Scan

namespace Scanner

open Scan

/-- The scanner is at a place of the characters, and may have looked at the token there. -/
inductive IsAt (cs : List Char) (k : Nat) : Scanner → Prop
  | before : IsAt cs k ⟨behind cs k, none⟩
  | ahead {t : Token} (scanned : token? cs k = .ok t) : IsAt cs k ⟨behind cs (k + 1), some t⟩

theorem peek_of_ok {rest : List Char} {t : Token} (scanned : (first rest).token = .ok t) :
    peek ⟨rest, none⟩ = (.ok t, ⟨(first rest).rest, some t⟩) := by
  simp only [peek, scanned]

theorem peek_of_error {rest : List Char} {f : Fault} (scanned : (first rest).token = .error f) :
    peek ⟨rest, none⟩ = (.error f, ⟨(first rest).rest, none⟩) := by
  simp only [peek, scanned]

variable {cs : List Char} {k : Nat} {s : Scanner}

/-- A call answers with what is scanned at its place, and stays there unless it uses that up. -/
theorem IsAt.call (h : IsAt cs k s) (c : Call) :
    (s.call c).1 = token? cs k ∧ IsAt cs (k + (usesUp (c, token? cs k)).toNat) (s.call c).2 := by
  cases h with
  | before =>
    cases c with
    | next => exact ⟨rfl, .before⟩
    | peek =>
      cases scanned : token? cs k with
      | ok t =>
        rw [Scanner.call, peek_of_ok scanned]
        exact ⟨rfl, .ahead scanned⟩
      | error f =>
        rw [Scanner.call, peek_of_error scanned]
        exact ⟨rfl, .before⟩
  | ahead scanned =>
    rw [scanned]
    cases c with
    | next => exact ⟨rfl, .before⟩
    | peek => exact ⟨rfl, .ahead scanned⟩

theorem used_cons (s : Scanner) (c : Call) (calls : List Call) :
    s.used (c :: calls) = (usesUp (c, (s.call c).1)).toNat + (s.call c).2.used calls := by
  rw [used, transcript, List.countP_cons, Nat.add_comm]
  cases usesUp (c, (s.call c).1) <;> rfl

theorem taken_next (s : Scanner) (calls : List Call) :
    s.taken (.next :: calls) = s.next.1 :: s.next.2.taken calls := rfl

theorem taken_peek (s : Scanner) (calls : List Call) :
    s.taken (.peek :: calls) = s.peek.2.taken calls := rfl

/-- By induction on the calls, their place is behind all that was used up. -/
theorem IsAt.after (h : IsAt cs k s) (calls : List Call) :
    IsAt cs (k + s.used calls) (s.after calls) := by
  induction calls generalizing k s with
  | nil => exact h
  | cons c calls ih =>
    obtain ⟨answer, stays⟩ := h.call c
    rw [used_cons, answer, ← Nat.add_assoc]
    exact ih stays

theorem IsAt.taken (h : IsAt cs k s) {calls : List Call}
    (kept : ∀ a ∈ s.transcript calls, a.1 = .peek → a.2.isOk = true) :
    s.taken calls = (List.range' k (calls.count .next)).map (token? cs) := by
  induction calls generalizing k s with
  | nil => rfl
  | cons c calls ih =>
    obtain ⟨answer, stays⟩ := h.call c
    rw [transcript, List.forall_mem_cons] at kept
    have taken := ih stays kept.2
    cases c with
    | next =>
      have used : (usesUp (.next, token? cs k)).toNat = 1 := rfl
      rw [used] at taken
      rw [List.count_cons_self, List.range'_succ, List.map_cons, taken_next, ← answer, ← taken]
      rfl
    | peek =>
      have stayed : (usesUp (.peek, token? cs k)).toNat = 0 := by
        rw [usesUp, ← answer, kept.1 rfl]
        rfl
      rw [stayed, Nat.add_zero] at taken
      rw [List.count_cons_of_ne (by decide), taken_peek]
      exact taken

theorem transcript_next (s : Scanner) (n : Nat) :
    ∀ a ∈ s.transcript (.replicate n .next), a.1 = .next := by
  induction n generalizing s with
  | zero => exact fun _ h => absurd h List.not_mem_nil
  | succ n ih => exact List.forall_mem_cons.mpr ⟨rfl, ih _⟩

theorem used_next (s : Scanner) (n : Nat) : s.used (.replicate n .next) = n := by
  induction n generalizing s with
  | zero => rfl
  | succ n ih => rw [List.replicate_succ, used_cons, ih, usesUp, Bool.toNat_true, Nat.add_comm]

theorem alone_eq (text : String) (k : Nat) : (ofText text).alone k = token? text.toList k := by
  have start : IsAt text.toList 0 (ofText text) := .before
  have later := start.after (.replicate k .next)
  rw [used_next, Nat.zero_add] at later
  exact (later.call .next).1

theorem after_append (s : Scanner) (calls more : List Call) :
    s.after (calls ++ more) = (s.after calls).after more :=
  List.foldl_append

theorem IsAt.used_peek (h : IsAt cs k s) (found : (token? cs k).isOk = true) (n : Nat) :
    s.used (.replicate n .peek) = 0 := by
  induction n generalizing s with
  | zero => rfl
  | succ n ih =>
    obtain ⟨answer, stays⟩ := h.call .peek
    have kept : usesUp (.peek, token? cs k) = false := by rw [usesUp, found]; rfl
    rw [kept] at stays
    rw [List.replicate_succ, used_cons, answer, kept, ih stays]
    rfl

/-- Whatever was called before, a call answers with what stands at its place in the text, which is
behind all that was used up. So as long as no fault is looked at, looking changes nothing that is
taken, and a token that was looked at is the next one taken. -/
theorem answers_in_place (text : String) (calls : List Call) :
    (∀ c, (((ofText text).after calls).call c).1 = (ofText text).alone
      ((ofText text).used calls)) ∧
    ((∀ a ∈ (ofText text).transcript calls, a.1 = .peek → a.2.isOk = true) →
      (ofText text).taken calls = (ofText text).taken (.replicate (calls.count .next) .next)) ∧
    (((ofText text).after calls).peek.1.isOk = true → ∀ n,
      ((ofText text).after (calls ++ .replicate n .peek)).next.1 =
        ((ofText text).after calls).peek.1) := by
  have start : IsAt text.toList 0 (ofText text) := .before
  have there := start.after calls
  rw [Nat.zero_add] at there
  refine ⟨fun c => ?_, fun kept => ?_, fun found n => ?_⟩
  · rw [alone_eq]
    exact (there.call c).1
  · have same : (List.replicate (calls.count .next) Call.next).count .next =
        calls.count .next := by simp
    rw [start.taken kept, start.taken fun a ha looked => ?_, same]
    rw [transcript_next _ _ a ha] at looked
    cases looked
  · have looked : ((ofText text).after calls).peek.1 = _ := (there.call .peek).1
    rw [looked] at found ⊢
    have stays := there.after (.replicate n .peek)
    rw [there.used_peek found, Nat.add_zero, ← after_append] at stays
    exact (stays.call .next).1

/-- A fault that was looked at is not taken, but a token is. -/
theorem answers_in_place_fault :
    ((ofText "= a").alone 0).isOk = false ∧ ((ofText "= a").alone 1).isOk = true ∧
    ((ofText "= a").after [.peek]).next.1 = (ofText "= a").alone 1 ∧
    (ofText "a=|b").taken [.next, .next, .peek, .next, .peek, .next] = (ofText "a=|b").taken
      (.replicate 4 .next) ∧
    ((ofText "a|b").after [.next, .peek]).next.1 = ((ofText "a|b").after [.next]).peek.1 :=
  ⟨by decide +kernel, by decide +kernel, (answers_in_place "= a" [.peek]).1 .next,
    (answers_in_place "a=|b" [.next, .next, .peek, .next, .peek, .next]).2.1 (by decide +kernel),
    (answers_in_place "a|b" [.next]).2.2 (by decide +kernel) 1⟩

end Scanner

end SchemaAlgebra

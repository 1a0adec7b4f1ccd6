import SchemaAlgebra.Proofs.Descent
import SchemaAlgebra.Proofs.Writing

/-!
# Reading tokens

What a rule of the grammar reads, it reads whatever follows. The lemmas say for each token
how reading goes on behind it, up to what is erased of the nodes.
-/
namespace SchemaAlgebra
namespace Parsing

variable {α β : Type}

/-- Whatever the state, the computation does not fail, and its result is as stated. -/
def Yields (x : Parsing α) (Q : α → Prop) : Prop :=
  ∀ s, ∃ a t, x.run.run s = (.ok a, t) ∧ Q a

namespace Yields

variable {Q : α → Prop} {S : β → Prop}

theorem pure {a : α} (h : Q a) : Yields (Pure.pure a) Q := fun s => ⟨a, s, rfl, h⟩

theorem bind {x : Parsing α} {f : α → Parsing β} (first : Yields x Q)
    (next : ∀ a, Q a → Yields (f a) S) : Yields (x >>= f) S := by
  intro s
  obtain ⟨a, u, ran, ha⟩ := first s
  obtain ⟨b, t, later, hb⟩ := next a ha u
  exact ⟨b, t, run_bind_eq_ok.mpr ⟨a, u, ran, later⟩, hb⟩

end Yields

theorem Result.yields {x : Parsing Node} {m : Node} (h : Result x (some m)) :
    Yields x fun n => n.erase = m := by
  intro s
  have found := h s
  cases ran : x.run.run s with
  | mk o t =>
    rw [ran] at found
    cases o with
    | error e => cases found
    | ok n => exact ⟨n, t, rfl, Option.some.inj found⟩

variable [Library]

theorem yields_intersect {l r m : Node} (h : (meet l.erase r.erase).outcome id = .ok m) :
    Yields (intersect l r) fun n => n.erase = m := by
  have result := result_intersect l r
  rw [h] at result
  exact result.yields

theorem yields_unite {nodes : List Node} {m : Node}
    (h : (determinateUnion (nodes.map Node.erase)).value id = .ok m) :
    Yields (unite nodes) fun n => n.erase = m := by
  have result := result_unite nodes
  rw [h] at result
  exact result.yields

end Parsing

/-- Whether an operand can end before the token. -/
def Token.closes : Token → Bool
  | bar => true
  | ampersand => true
  | groupClose => true
  | finish => true
  | _ => false

namespace Descent

open Parsing

/-- What a rule reads and what it leaves are as stated. -/
def Reads {leaves : List (Except Fault Token) → Prop} (x : Parsing (Reading leaves))
    (Q : Node → List (Except Fault Token) → Prop) : Prop :=
  Yields x fun r => Q r.node r.rest

variable {lookup : Lookup} {left : Option LeftBound} {n m : Node} {r : List (Except Fault Token)}
  {Q : Node → List (Except Fault Token) → Prop}

theorem Reads.imp {P P' : List (Except Fault Token) → Prop} {x : Parsing (Reading P)}
    {h : ∀ a : Reading P, P a.rest → P' a.rest} (reads : Reads x Q) :
    Reads (x >>= fun a => pure (a.imp (h a))) Q :=
  Yields.bind reads fun _ ha => .pure ha

variable [Library]

variable (lookup left n r Q) in
/-- Behind an operand, reading goes on as stated. -/
def Onward : Prop := ∀ v : Node, v.erase = n → Reads (suffixes lookup left v r) Q

namespace Onward

theorem list (h : Onward lookup left n.array r Q) : Onward lookup left n (.ok .list :: r) Q := by
  intro v hv
  subst hv
  simp only [suffixes]
  exact (result_arrayOf v).yields.bind fun a ha => (h a ha).imp

theorem brand {name : String} (met : (meet n (.of (.brand name))).outcome id = .ok m)
    (h : Onward lookup left m r Q) : Onward lookup left n (.ok (.brand name) :: r) Q := by
  intro v hv
  subst hv
  simp only [suffixes]
  refine (result_constraint rfl).yields.bind fun b hb => ?_
  rw [← hb] at met
  exact (yields_intersect met).bind fun a ha => (h a ha).imp

omit [Library] in
theorem yields_requireAll {test : Node → Bool} (blind : ∀ v : Node, test v.erase = test v)
    (fault : Node → Fault) (plain : n.isPlain = true) (passes : test n = true) {v : Node}
    (hv : v.erase = n) : Yields (ExpressionState.requireAll test fault v) fun _ => True := by
  subst hv
  have single : v.constraint.isUnion = false := by
    rw [← Constraint.isUnion_head, ← Node.constraint_head_erase, Constraint.isUnion_head]
    exact (Node.isPlain_iff.mp plain).1
  rw [blind] at passes
  rw [ExpressionState.requireAll, Node.branches_of_single single, List.find?_cons, passes]
  exact .pure trivial

theorem divisor {t : Token} {k : Nat} (read : ExpressionState.divisor? t = some k)
    (plain : n.isPlain = true) (number : n.domain? = some .number)
    (met : (meet n (.of (.divisor k))).outcome id = .ok m) (h : Onward lookup left m r Q) :
    Onward lookup left n (.ok .percent :: .ok t :: r) Q := by
  intro v hv
  have divided : Yields (ExpressionState.divide v t) fun a => a.erase = m := by
    rw [ExpressionState.divide, read]
    have blind (v : Node) : (v.erase.domain? == some .number) = (v.domain? == some .number) := by
      rw [show v.erase.domain? = v.domain? from Node.fold_erase (fun c => by cases c <;> rfl) v]
    refine (yields_requireAll blind _ plain (by rw [number]; rfl) hv).bind fun _ _ => ?_
    refine Yields.bind (x := build (Traced.divisor k)) (result_constraint rfl).yields fun d hd => ?_
    rw [← hv, ← hd] at met
    exact yields_intersect met
  simp only [suffixes]
  exact divided.bind fun a ha => (h a ha).imp

/-- A comparator with the number behind it, and with a left bound if there is one. -/
theorem bound {c : Comparator} {t : Token} {x : Binary64} {range : Range}
    (read : ExpressionState.limit? t = some x)
    (combined : ExpressionState.combinedRange left c x = pure range) (plain : n.isPlain = true)
    (sizable : ExpressionState.isSizable n = true)
    (number : ∀ x, n.constraint ≠ .literal (.number x))
    (met : (meet n (.of (.bound range.canonical))).outcome id = .ok m)
    (h : Onward lookup none m r Q) :
    Onward lookup left n (.ok (.comparator c) :: .ok t :: r) Q := by
  intro v hv
  have bounded : Yields (ExpressionState.boundBy ⟨left, none, []⟩ v c t) fun a =>
      a.erase = m := by
    simp only [ExpressionState.boundBy, read, combined, pure_bind]
    refine (yields_requireAll Node.sizable_erase _ plain sizable hv).bind fun _ _ => ?_
    have bare : (Node.of (.bound range.canonical)).erase = .of (.bound range.canonical) := by
      rw [Node.erase_of, Constraint.erased, Range.canonical_canonical]
      rfl
    refine Yields.bind (x := build (Traced.bound range)) (result_constraint bare).yields
      fun b hb => ?_
    rw [← hv, ← hb] at met
    exact yields_intersect met
  have other (x : Numeral) : v.constraint ≠ .literal (.number x) := by
    intro found
    refine number x ?_
    rw [← hv, Node.erase_constraint, found]
    rfl
  have step : suffixes lookup left v (.ok (.comparator c) :: .ok t :: r) = (do
      let value ← ExpressionState.boundBy ⟨left, none, []⟩ v c t
      return (← suffixes lookup none value r).imp
        fun h => ((Behind.second (.ok (.comparator c)) (.ok t) r).of_suffix h).suffix) := by
    simp only [suffixes]
  rw [step]
  exact bounded.bind fun a ha => (h a ha).imp

/-- A comparator behind a number, which becomes the left bound of what follows. -/
theorem leftBound {x : Numeral} {c : Comparator} (upper : c.isUpper = true)
    (h : Reads (bounded lookup (some ⟨x.value, c⟩) r) Q) :
    Onward lookup none (.of (.literal (.number x))) (.ok (.comparator c) :: r) Q := by
  intro v hv
  obtain ⟨e⟩ := v
  have same : e = .literal (.number x) := by
    have found := congrArg Node.constraint hv
    rw [Node.erase_constraint] at found
    cases e <;> cases found
    rfl
  subst same
  simp only [suffixes, Node.constraint, upper, Option.isNone_none, Bool.and_true, if_true]
  exact h.imp

theorem finish {t : Token} (closes : t.closes = true)
    (h : ∀ v : Node, v.erase = n → Q v (.ok t :: r)) : Onward lookup none n (.ok t :: r) Q := by
  intro v hv
  have ended : suffixes lookup none v (.ok t :: r) =
      pure ⟨v, .ok t :: r, List.suffix_refl _⟩ := by
    cases t <;> first
      | (cases closes; done)
      | simp only [suffixes, Option.isSome_none, Bool.false_eq_true, if_false]
  rw [ended]
  exact .pure (h v hv)

end Onward

variable (lookup left) in
/-- Behind the left bound if there is one, the tokens are an operand with its suffixes and bounds,
and other suffixes may follow. -/
def Bounded (ts : List Token) (n : Node) : Prop :=
  ∀ rest Q, Onward lookup left n rest Q → Reads (bounded lookup left (ts.map .ok ++ rest)) Q

variable (lookup) in
/-- Behind what was read of an intersection, reading goes on as stated. -/
def Joining (n : Node) (ts : List (Except Fault Token))
    (Q : Node → List (Except Fault Token) → Prop) : Prop :=
  ∀ v : Node, v.erase = n → Reads (conjuncts lookup v ts) Q

/-- Behind the tokens of a part, neither suffixes nor operands of an intersection follow. -/
def Parts (rest : List (Except Fault Token)) : Prop :=
  ∃ t r, rest = .ok t :: r ∧ t.closes = true ∧ t ≠ .ampersand

variable (lookup) in
/-- The tokens are an intersection of operands. -/
def Inter (ts : List Token) (n : Node) : Prop :=
  ∀ rest, Parts rest →
    Reads (inter lookup (ts.map .ok ++ rest)) fun v us => v.erase = n ∧ us = rest

variable (lookup) in
def Expr (ts : List Token) (n : Node) : Prop :=
  ∀ t r, t.closes = true → t ≠ .ampersand → t ≠ .bar →
    Reads (expr lookup (ts.map .ok ++ .ok t :: r)) fun v us => v.erase = n ∧ us = .ok t :: r

variable {ts us : List Token}

namespace Bounded

theorem suffix (h : Bounded lookup left ts n)
    (onward : ∀ rest Q, Onward lookup left m rest Q →
      Onward lookup left n (us.map .ok ++ rest) Q) : Bounded lookup left (ts ++ us) m := by
  intro rest Q later
  rw [List.map_append, List.append_assoc]
  exact h _ Q (onward rest Q later)

theorem list (h : Bounded lookup left ts n) : Bounded lookup left (ts ++ [.list]) n.array :=
  h.suffix fun _ _ later => later.list

theorem primary {t : Token} {x : Parsing Node}
    (read : ∀ r, Descent.primary lookup (.ok t :: r) = do
    return ⟨← x, r, .first _ r⟩) (result : Result x (some n)) :
    Bounded lookup left [t] n := by
  intro rest Q onward
  change Reads (Descent.bounded lookup left (.ok t :: rest)) Q
  rw [Descent.bounded, read, bind_assoc]
  refine result.yields.bind fun v hv => ?_
  simp only [pure_bind]
  exact (onward v hv).imp

theorem word {text : String} (result : Result (ExpressionState.word lookup text) (some n)) :
    Bounded lookup left [.word text] n :=
  .primary (fun r => by simp only [Descent.primary]) result

theorem quoted {d : Char} (quote : d ≠ '/') (text : String) :
    Bounded lookup left [.enclosed d text] (.of (.literal (.string text))) :=
  .primary (fun r => by simp only [Descent.primary]) (result_literal _)

theorem pattern {p : Pattern} (valid : Library.isRegex p.source = true) :
    Bounded lookup left [.enclosed '/' p.source] p.node := by
  refine .primary (x := ExpressionState.regex p.source) (fun r => by simp only [Descent.primary]) ?_
  rw [ExpressionState.regex, Pattern.ofSource?_eq_some.mpr ⟨valid, rfl⟩]
  exact result_matching p

theorem group (h : Expr lookup ts n) :
    Bounded lookup left (.groupOpen :: ts ++ [.groupClose]) n := by
  intro rest Q onward
  have tokens : (.groupOpen :: ts ++ [.groupClose] : List Token).map Except.ok ++ rest =
      (.ok .groupOpen : Except Fault Token) :: (ts.map .ok ++ .ok .groupClose :: rest) := by
    simp [List.map_append]
  rw [tokens, Descent.bounded, Descent.primary, bind_assoc]
  refine (h .groupClose rest rfl (by simp) (by simp)).bind fun whole read => ?_
  obtain ⟨v, us, behind⟩ := whole
  obtain ⟨hv, rfl⟩ : v.erase = n ∧ us = .ok .groupClose :: rest := read
  simp only [pure_bind]
  exact (onward v hv).imp

end Bounded

theorem Joining.finish {t : Token} (other : t ≠ .ampersand)
    (h : ∀ v : Node, v.erase = n → Q v (.ok t :: r)) : Joining lookup n (.ok t :: r) Q := by
  intro v hv
  have ended : conjuncts lookup v (.ok t :: r) = pure ⟨v, .ok t :: r, List.suffix_refl _⟩ := by
    cases t <;> first
      | exact absurd rfl other
      | simp only [conjuncts]
  rw [ended]
  exact .pure (h v hv)

theorem Joining.operand {k : Node} (next : Bounded lookup none us k)
    (met : (meet n k).outcome id = .ok m) (closes : ∃ t r', r = .ok t :: r' ∧ t.closes = true)
    (h : Joining lookup m r Q) : Joining lookup n (.ok .ampersand :: (us.map .ok ++ r)) Q := by
  intro v hv
  obtain ⟨t, r', rfl, closes⟩ := closes
  simp only [conjuncts]
  have read := next (.ok t :: r') (fun w rest => w.erase = k ∧ rest = .ok t :: r')
    (.finish closes fun w hw => ⟨hw, rfl⟩)
  refine Yields.bind read fun whole read => ?_
  obtain ⟨w, rest, behind⟩ := whole
  obtain ⟨hw, rfl⟩ : w.erase = k ∧ rest = .ok t :: r' := read
  subst hv hw
  exact (yields_intersect met).bind fun a ha => (h a ha).imp

theorem Bounded.joining (h : Bounded lookup none ts n)
    (closes : ∃ t r', r = .ok t :: r' ∧ t.closes = true) (later : Joining lookup n r Q) :
    Reads (Descent.inter lookup (ts.map .ok ++ r)) Q := by
  obtain ⟨t, r', rfl, closes⟩ := closes
  have read := h (.ok t :: r') (fun w rest => w.erase = n ∧ rest = .ok t :: r')
      (.finish closes fun w hw => ⟨hw, rfl⟩)
  rw [Descent.inter]
  refine Yields.bind read fun whole read => ?_
  obtain ⟨w, rest, behind⟩ := whole
  obtain ⟨hw, rfl⟩ : w.erase = n ∧ rest = .ok t :: r' := read
  exact (later w hw).imp

theorem Bounded.inter (h : Bounded lookup none ts n) : Inter lookup ts n := by
  intro rest parts
  obtain ⟨t, r, rfl, closes, other⟩ := parts
  exact h.joining ⟨t, r, rfl, closes⟩ (.finish other fun v hv => ⟨hv, rfl⟩)

/-- The tokens of alternatives, each behind a bar. -/
def barred (later : List (List Token)) : List Token := later.flatMap (.bar :: ·)

theorem alternatives_reads {done : List Node} {later : List (List Token × Node)} {t : Token}
    (inters : ∀ p ∈ later, Inter lookup p.1 p.2) (other : t ≠ .bar)
    (parts : Parts (.ok t :: r))
    (united : (determinateUnion (done.map Node.erase ++ later.map Prod.snd)).value id = .ok m) :
    Reads (alternatives lookup done ((barred (later.map Prod.fst)).map .ok ++ .ok t :: r))
      fun v us =>
      v.erase = m ∧ us = .ok t :: r := by
  induction later generalizing done with
  | nil =>
    have ended : alternatives lookup done (.ok t :: r) =
        (unite done >>= fun v => pure ⟨v, .ok t :: r, List.suffix_refl _⟩) := by
      cases t <;> first
        | exact absurd rfl other
        | simp only [alternatives]
    change Reads (alternatives lookup done (.ok t :: r)) _
    rw [ended]
    rw [List.map_nil, List.append_nil] at united
    exact (yields_unite united).bind fun v hv => .pure ⟨hv, rfl⟩
  | cons p later ih =>
    obtain ⟨first, inters⟩ := List.forall_mem_cons.mp inters
    have tokens : (barred ((p :: later).map Prod.fst)).map .ok ++ .ok t :: r =
        (.ok .bar : Except Fault Token) ::
          (p.1.map .ok ++ ((barred (later.map Prod.fst)).map .ok ++ .ok t :: r)) := by
      simp [barred]
    have bars : Parts ((barred (later.map Prod.fst)).map .ok ++ .ok t :: r) := by
      cases later with
      | nil => exact parts
      | cons q later => exact ⟨.bar, _, rfl, rfl, by simp⟩
    rw [tokens]
    simp only [alternatives]
    refine Yields.bind (first _ bars) fun whole read => ?_
    obtain ⟨v, us, behind⟩ := whole
    obtain ⟨hv, rfl⟩ : v.erase = p.2 ∧ us = _ := read
    refine (ih inters ?_).imp
    rw [List.map_append, List.map_singleton, hv, List.append_assoc]
    exact united

theorem Expr.of_inters {later : List (List Token × Node)} (first : Inter lookup ts n)
    (inters : ∀ p ∈ later, Inter lookup p.1 p.2)
    (united : (determinateUnion (n :: later.map Prod.snd)).value id = .ok m) :
    Expr lookup (ts ++ barred (later.map Prod.fst)) m := by
  intro t r closes ampersand bar
  have parts : Parts (.ok t :: r) := ⟨t, r, rfl, closes, ampersand⟩
  have bars : Parts ((barred (later.map Prod.fst)).map .ok ++ .ok t :: r) := by
    cases later with
    | nil => exact parts
    | cons q later => exact ⟨.bar, _, rfl, rfl, nofun⟩
  rw [List.map_append, List.append_assoc, expr]
  refine Yields.bind (first _ bars) fun whole read => ?_
  obtain ⟨v, us, behind⟩ := whole
  obtain ⟨hv, rfl⟩ : v.erase = n ∧ us = _ := read
  refine (alternatives_reads inters bar parts ?_).imp
  rw [List.map_singleton, hv]
  exact united

theorem Expr.definition (h : Expr lookup ts n) :
    Yields (Descent.definition lookup (ts.map .ok ++ [.ok .finish])) fun v => v.erase = n := by
  rw [Descent.definition]
  refine Yields.bind (h .finish [] rfl nofun nofun) fun whole read => ?_
  obtain ⟨v, us, behind⟩ := whole
  obtain ⟨hv, rfl⟩ : v.erase = n ∧ us = [.ok .finish] := read
  exact .pure hv

end Descent

end SchemaAlgebra

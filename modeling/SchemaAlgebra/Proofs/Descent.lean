import Mathlib.Tactic.SplitIfs
import SchemaAlgebra.Proofs.Parsing

/-!
# Texts by recursive descent

The grammar read by recursion on the tokens, one function for each of its rules:

* `Expr = Inter ('|' Inter)*`, the union of its parts;
* `Inter = Bounded ('&' Bounded)*`, intersected from the left;
* `Bounded = Primary Suffix*`, the suffixes applied from the left, where a comparator behind a
  number is no suffix, but makes the number the left bound of the `Bounded` that follows;
* `Primary = word | quoted | regex | '(' Expr ')'`.

The groups of the state machine are the recursion: both read the same texts and come to the
same nodes.
-/
namespace SchemaAlgebra
namespace Descent

open Parsing

/-- What a rule has read, and the tokens left. -/
structure Reading (leaves : List (Except Fault Token) → Prop) where
  node : Node
  rest : List (Except Fault Token)
  left : leaves rest

def Reading.imp {P Q : List (Except Fault Token) → Prop} (r : Reading P)
    (h : P r.rest → Q r.rest) : Reading Q :=
  ⟨r.node, r.rest, h r.left⟩

/-- Tokens that are left when at least one was read. -/
structure Behind (rest ts : List (Except Fault Token)) : Prop where
  suffix : rest <:+ ts
  shorter : rest.length < ts.length

theorem Behind.first (t : Except Fault Token) (r : List (Except Fault Token)) : Behind r (t :: r) :=
  ⟨List.suffix_cons t r, Nat.lt_succ_self _⟩

theorem Behind.second (t t' : Except Fault Token) (r : List (Except Fault Token)) :
    Behind r (t :: t' :: r) :=
  ⟨(List.suffix_cons t' r).trans (List.suffix_cons t _), Nat.lt_succ_of_lt (Nat.lt_succ_self _)⟩

variable {rest ts us : List (Except Fault Token)}

theorem Behind.of_suffix (h : Behind ts us) (later : rest <:+ ts) : Behind rest us :=
  ⟨later.trans h.suffix, Nat.lt_of_le_of_lt later.length_le h.shorter⟩

theorem Behind.trans (h : Behind rest ts) (h' : Behind ts us) : Behind rest us :=
  h'.of_suffix h.suffix

/-- The text is not read by the grammar; how the machine says so is left open. -/
def refuse {α : Type} : Parsing α := fail .noOperand

variable [Library]

section

variable (lookup : Lookup)

mutual

def expr (ts : List (Except Fault Token)) : Parsing (Reading (Behind · ts)) := do
  let first ← inter ts
  return (← alternatives [first.node] first.rest).imp first.left.of_suffix
termination_by (ts.length, 3)
decreasing_by
  · exact .right _ (by decide)
  · exact .left _ _ first.left.shorter

def alternatives (branches : List Node) (ts : List (Except Fault Token)) :
    Parsing (Reading (· <:+ ts)) :=
  match ts with
  | .ok .bar :: r => do
    let next ← inter r
    return (← alternatives (branches ++ [next.node]) next.rest).imp
      fun h => ((next.left.of_suffix h).trans (.first _ r)).suffix
  | ts => return ⟨← unite branches, ts, List.suffix_refl ts⟩
termination_by (ts.length, 0)
decreasing_by
  · exact .left _ _ (Nat.lt_succ_self _)
  · exact .left _ _ (Nat.lt_succ_of_lt next.left.shorter)

def inter (ts : List (Except Fault Token)) : Parsing (Reading (Behind · ts)) := do
  let first ← bounded none ts
  return (← conjuncts first.node first.rest).imp first.left.of_suffix
termination_by (ts.length, 2)
decreasing_by
  · exact .right _ (by decide)
  · exact .left _ _ first.left.shorter

/-- Further operands of an intersection behind those read. -/
def conjuncts (pending : Node) (ts : List (Except Fault Token)) : Parsing (Reading (· <:+ ts)) :=
  match ts with
  | .ok .ampersand :: r => do
    let next ← bounded none r
    return (← conjuncts (← intersect pending next.node) next.rest).imp
      fun h => ((next.left.of_suffix h).trans (.first _ r)).suffix
  | ts => pure ⟨pending, ts, List.suffix_refl ts⟩
termination_by (ts.length, 0)
decreasing_by
  · exact .left _ _ (Nat.lt_succ_self _)
  · exact .left _ _ (Nat.lt_succ_of_lt next.left.shorter)

/-- An operand with its suffixes, behind a left bound if there is one. -/
def bounded (left : Option LeftBound) (ts : List (Except Fault Token)) :
    Parsing (Reading (Behind · ts)) := do
  let first ← primary ts
  return (← suffixes left first.node first.rest).imp first.left.of_suffix
termination_by (ts.length, 1)
decreasing_by
  · exact .right _ (by decide)
  · exact .left _ _ first.left.shorter

def primary (ts : List (Except Fault Token)) : Parsing (Reading (Behind · ts)) :=
  match ts with
  | .ok .groupOpen :: r => do
    match ← expr r with
    | ⟨node, .ok .groupClose :: r', h⟩ =>
      pure ⟨node, r', (Behind.first _ r').trans (h.trans (.first _ r))⟩
    | _ => refuse
  | .ok (.word text) :: r => return ⟨← ExpressionState.word lookup text, r, .first _ r⟩
  | .ok (.enclosed '/' source) :: r => return ⟨← ExpressionState.regex source, r, .first _ r⟩
  | .ok (.enclosed _ text) :: r =>
    return ⟨← build (Traced.literal (.string text)), r, .first _ r⟩
  | _ => refuse
termination_by (ts.length, 0)

/-- Suffixes behind what is read of an operand. The left bound is taken by the first comparator. -/
def suffixes (left : Option LeftBound) (value : Node) (ts : List (Except Fault Token)) :
    Parsing (Reading (· <:+ ts)) :=
  match ts with
  | .ok .list :: r => do
    let value ← build (Traced.arrayOf value)
    return (← suffixes left value r).imp fun h => ((Behind.first _ r).of_suffix h).suffix
  | .ok (.brand name) :: r => do
    let value ← intersect value (← build (Traced.build (.of (.brand name))))
    return (← suffixes left value r).imp fun h => ((Behind.first _ r).of_suffix h).suffix
  | .ok .percent :: .ok t :: r => do
    let value ← ExpressionState.divide value t
    return (← suffixes left value r).imp fun h => ((Behind.second _ _ r).of_suffix h).suffix
  | .ok (.comparator c) :: r =>
    match value.constraint, r with
    | .literal (.number x), r =>
      if left.isNone && c.isUpper then do
        return (← bounded (some ⟨x.value, c⟩) r).imp fun h => (h.trans (.first _ r)).suffix
      else refuse
    | _, .ok t :: r => do
      let value ← ExpressionState.boundBy ⟨left, none, []⟩ value c t
      return (← suffixes none value r).imp fun h => ((Behind.second _ _ r).of_suffix h).suffix
    | _, _ => refuse
  | ts => if left.isSome then refuse else pure ⟨value, ts, List.suffix_refl ts⟩
termination_by (ts.length, 0)
decreasing_by
  · exact .left _ _ (Nat.lt_succ_self _)
  · exact .left _ _ (Nat.lt_succ_self _)
  · exact .left _ _ (Nat.lt_succ_of_lt (Nat.lt_succ_self _))
  · exact .left _ _ (Nat.lt_succ_self _)
  · exact .left _ _ (Nat.lt_succ_of_lt (Nat.lt_succ_self _))

end

def definition (ts : List (Except Fault Token)) : Parsing Node := do
  let whole ← expr lookup ts
  match whole.rest with
  | [.ok .finish] => pure whole.node
  | _ => refuse

end

end Descent

namespace Parsing

variable {α β : Type}

/-- The computations succeed alike: in the same states, with the same value and the same state
after them. -/
def Alike (x y : Parsing α) : Prop :=
  ∀ (s t : ScopeState) (a : α), x.run.run s = (.ok a, t) ↔ y.run.run s = (.ok a, t)

def Fails (x : Parsing α) : Prop := ∀ (s t : ScopeState) (a : α), x.run.run s ≠ (.ok a, t)

theorem fails_fail (f : Fault) : Fails (fail f : Parsing α) := fun s t a h => by cases h

theorem Fails.bind_left {x : Parsing α} (h : Fails x) (f : α → Parsing β) :
    Fails (x >>= f) := by
  intro s t b ran
  obtain ⟨a, u, first, -⟩ := run_bind_eq_ok.mp ran
  exact h s u a first

theorem Fails.bind_right (x : Parsing α) {f : α → Parsing β} (h : ∀ a, Fails (f a)) :
    Fails (x >>= f) := by
  intro s t b ran
  obtain ⟨a, u, -, second⟩ := run_bind_eq_ok.mp ran
  exact h a u t b second

namespace Alike

theorem refl (x : Parsing α) : Alike x x := fun _ _ _ => Iff.rfl

theorem trans {x y z : Parsing α} (first : Alike x y) (second : Alike y z) : Alike x z :=
  fun s t a => (first s t a).trans (second s t a)

theorem symm {x y : Parsing α} (h : Alike x y) : Alike y x := fun s t a => (h s t a).symm

theorem of_fails {x y : Parsing α} (hx : Fails x) (hy : Fails y) : Alike x y :=
  fun s t a => ⟨fun h => absurd h (hx s t a), fun h => absurd h (hy s t a)⟩

theorem bind (x : Parsing α) {f g : α → Parsing β} (h : ∀ a, Alike (f a) (g a)) :
    Alike (x >>= f) (x >>= g) := by
  intro s t b
  rw [run_bind_eq_ok, run_bind_eq_ok]
  constructor
  · rintro ⟨a, u, first, second⟩
    exact ⟨a, u, first, (h a u t b).mp second⟩
  · rintro ⟨a, u, first, second⟩
    exact ⟨a, u, first, (h a u t b).mpr second⟩

end Alike

end Parsing

namespace Descent

open Parsing

theorem fails_refuse {α : Type} : Fails (refuse : Parsing α) := fails_fail _

variable [Library]

section

variable (lookup : Lookup)

/-- The result of the machine in a state behind the last token. -/
def concluded (s : ExpressionState) : Parsing Node :=
  match s.awaiting with
  | .nothing node => pure node
  | _ => fail .noOperand

/-- What the machine makes of the tokens left. -/
def remaining (s : ExpressionState) (ts : List (Except Fault Token)) : Parsing Node := do
  concluded (← ExpressionState.steps lookup false s ts)

theorem remaining_cons (s : ExpressionState) (t : Token) (r : List (Except Fault Token)) :
    remaining lookup s (.ok t :: r) =
      ExpressionState.step lookup false s t >>= fun s' => remaining lookup s' r := by
  simp only [remaining, ExpressionState.steps, bind_assoc]

theorem fails_remaining_error (s : ExpressionState) (f : Fault) (r : List (Except Fault Token)) :
    Fails (remaining lookup s (.error f :: r)) := by
  simp only [remaining, ExpressionState.steps]
  exact (fails_fail f).bind_left _

theorem fails_remaining_nil {s : ExpressionState} (h : ∀ n, s.awaiting ≠ .nothing n) :
    Fails (remaining lookup s []) := by
  simp only [remaining, ExpressionState.steps, pure_bind, concluded]
  exact fails_fail _

/-- The machine behind an expression: at the end of the text, or of the group around it. -/
def ends (outer : List Group) (n : Node) (ts : List (Except Fault Token)) : Parsing Node :=
  match outer, ts with
  | parent :: outer, .ok .groupClose :: r =>
    remaining lookup ⟨.operator n, parent, outer, false⟩ r
  | [], .ok .finish :: r => remaining lookup ⟨.nothing n, .empty, [], false⟩ r
  | _, _ => refuse

/-- The operand with what is pending of its intersection. -/
def conjoined (pending : Option Node) (n : Node) : Parsing Node :=
  match pending with
  | some pending => intersect pending n
  | none => pure n

/-- What follows a `Bounded` in a group, by the grammar. -/
def following (pending : Option Node) (branches : List Node) (outer : List Group) (n : Node)
    (ts : List (Except Fault Token)) : Parsing Node := do
  let first ← conjoined pending n
  let operand ← conjuncts lookup first ts
  let whole ← alternatives lookup (branches ++ [operand.node]) operand.rest
  ends lookup outer whole.node whole.rest

end

section

attribute [local simp] primary suffixes Reading.imp ExpressionState.step ExpressionState.operator
  ExpressionState.close ExpressionState.finishGroup ExpressionState.conclude ExpressionState.compare
  ExpressionState.conjoin ExpressionState.checkLeftBound

variable {lookup : Lookup}

theorem expr_following (ts : List (Except Fault Token)) (outer : List Group) :
    (expr lookup ts >>= fun whole => ends lookup outer whole.node whole.rest) =
      bounded lookup none ts >>= fun first =>
        following lookup none [] outer first.node first.rest := by
  simp only [expr, inter, following, conjoined, bind_assoc, pure_bind, Reading.imp, List.nil_append]

/-- A pair of tokens that is no more than what was read is a failure of both. -/
theorem fails_ends {outer : List Group} {n : Node} {ts : List (Except Fault Token)}
    (close : ∀ r, ts ≠ .ok .groupClose :: r) (finish : ∀ r, ts ≠ .ok .finish :: r) :
    Fails (ends lookup outer n ts) := by
  unfold ends
  split
  · rename_i h; exact absurd rfl (close _)
  · rename_i h; exact absurd rfl (finish _)
  · exact fails_refuse

/-- Where neither `&` nor `|` follows, what is pending in the group is put together. -/
theorem following_end {pending : Option Node} {branches : List Node} {outer : List Group} {n : Node}
    {ts : List (Except Fault Token)} (ampersand : ∀ r, ts ≠ .ok .ampersand :: r)
    (bar : ∀ r, ts ≠ .ok .bar :: r) : following lookup pending branches outer n ts =
      conjoined pending n >>= fun last => unite (branches ++ [last]) >>= fun whole =>
        ends lookup outer whole ts := by
  have joined (first : Node) :
      conjuncts lookup first ts = pure ⟨first, ts, List.suffix_refl ts⟩ := by
    rw [conjuncts.eq_def]
    split
    · exact absurd rfl (ampersand _)
    · rfl
  have united (bs : List Node) : alternatives lookup bs ts =
      unite bs >>= fun whole => pure ⟨whole, ts, List.suffix_refl ts⟩ := by
    rw [alternatives.eq_def]
    split
    · exact absurd rfl (bar _)
    · rfl
  simp only [following, joined, united, pure_bind, bind_assoc]

theorem following_ampersand (pending : Option Node) (branches : List Node) (outer : List Group)
    (n : Node) (r : List (Except Fault Token)) :
    following lookup pending branches outer n (.ok .ampersand :: r) =
      conjoined pending n >>= fun first => bounded lookup none r >>= fun next =>
        following lookup (some first) branches outer next.node next.rest := by
  simp only [following, conjuncts, conjoined, bind_assoc, pure_bind, Reading.imp]

theorem following_bar (pending : Option Node) (branches : List Node) (outer : List Group) (n : Node)
    (r : List (Except Fault Token)) :
    following lookup pending branches outer n (.ok .bar :: r) =
      conjoined pending n >>= fun branch => bounded lookup none r >>= fun next =>
        following lookup none (branches ++ [branch]) outer next.node next.rest := by
  simp only [following, conjuncts, alternatives, inter, conjoined, bind_assoc, pure_bind,
    Reading.imp]

/-- The machine reads a suffix as the grammar does. -/
def ReadsSuffixes (lookup : Lookup) (ts : List (Except Fault Token)) : Prop :=
  ∀ (left : Option LeftBound) (value : Node) (pending : Option Node) (branches : List Node)
    (outer : List Group),
    Alike (remaining lookup ⟨.operator value, ⟨left, pending, branches⟩, outer, false⟩ ts)
      (suffixes lookup left value ts >>= fun b =>
        following lookup pending branches outer b.node b.rest)

/-- The machine reads an operand with its suffixes as the grammar does. -/
def ReadsBounded (lookup : Lookup) (ts : List (Except Fault Token)) : Prop :=
  ∀ (left : Option LeftBound) (pending : Option Node) (branches : List Node) (outer : List Group),
    Alike (remaining lookup ⟨.operand, ⟨left, pending, branches⟩, outer, false⟩ ts)
      (bounded lookup left ts >>= fun b => following lookup pending branches outer b.node b.rest)

section

variable {ts r : List (Except Fault Token)} {t : Token}

theorem readsBounded_token {x : Parsing Node} (suffixed : ReadsSuffixes lookup r)
    (stepped : ∀ g outer, ExpressionState.step lookup false ⟨.operand, g, outer, false⟩ t =
      x >>= fun n => pure ⟨.operator n, g, outer, false⟩)
    (read : primary lookup (.ok t :: r) = x >>= fun n => pure ⟨n, r, .first _ r⟩) :
    ReadsBounded lookup (.ok t :: r) := by
  intro left pending branches outer
  rw [remaining_cons, stepped]
  simp only [bounded, read, bind_assoc, pure_bind, Reading.imp]
  exact .bind x fun n => suffixed left n pending branches outer

theorem readsBounded_refused
    (fails : ∀ g outer, Fails (remaining lookup ⟨.operand, g, outer, false⟩ ts))
    (refused : primary lookup ts = refuse) : ReadsBounded lookup ts := by
  intro left pending branches outer
  refine .of_fails (fails _ _) ?_
  simp only [bounded, refused, bind_assoc]
  exact fails_refuse.bind_left _

theorem readsBounded_group (inner : ReadsBounded lookup r)
    (later : ∀ rest, Behind rest r → ReadsSuffixes lookup rest) :
    ReadsBounded lookup (.ok .groupOpen :: r) := by
  intro left pending branches outer
  have opened : remaining lookup ⟨.operand, ⟨left, pending, branches⟩, outer, false⟩
      (.ok .groupOpen :: r) =
      remaining lookup ⟨.operand, .empty, ⟨left, pending, branches⟩ :: outer, false⟩ r := by
    simp only [remaining_cons, ExpressionState.step, ExpressionState.operand, pure_bind]
  rw [opened]
  refine (inner none none [] _).trans ?_
  rw [← expr_following]
  simp only [bounded, primary, bind_assoc]
  refine .bind _ fun whole => ?_
  obtain ⟨node, rest, behind⟩ := whole
  rcases rest with _ | ⟨f | t, r'⟩
  · exact .of_fails fails_refuse (fails_refuse.bind_left _)
  · exact .of_fails fails_refuse (fails_refuse.bind_left _)
  · cases t with
    | groupClose =>
      simp only [ends, pure_bind, Reading.imp]
      exact later r' ((Behind.first _ r').trans behind) left node pending branches outer
    | _ => exact .of_fails fails_refuse (fails_refuse.bind_left _)

theorem readsBounded_cons (inner : ReadsBounded lookup r)
    (later : ∀ rest, Behind rest (.ok t :: r) → ReadsSuffixes lookup rest) :
    ReadsBounded lookup (.ok t :: r) := by
  have refused (f : Fault) (stepped : ∀ g outer,
      ExpressionState.step lookup false ⟨.operand, g, outer, false⟩ t = fail f)
      (read : primary lookup (.ok t :: r) = refuse) : ReadsBounded lookup (.ok t :: r) := by
    refine readsBounded_refused (fun g outer => ?_) read
    rw [remaining_cons, stepped]
    exact (fails_fail f).bind_left _
  have suffixed : ReadsSuffixes lookup r := later r (.first _ r)
  cases t with
  | groupOpen => exact readsBounded_group inner fun rest h => later rest (h.trans (.first _ r))
  | word text => exact readsBounded_token suffixed (fun _ _ => rfl) (by rw [primary])
  | enclosed d text =>
    by_cases hd : d = '/'
    · subst hd
      exact readsBounded_token suffixed (fun _ _ => rfl) (by rw [primary])
    · refine readsBounded_token (x := build (Traced.literal (.string text))) suffixed
        (fun g outer => ?_) ?_
      · simp only [ExpressionState.step, ExpressionState.operand]
      · rw [primary]
        exact hd
  | finish => exact refused _ (fun _ _ => rfl) (by simp only [primary])
  | _ => exact refused _ (fun _ _ => rfl) (by simp only [primary])

theorem readsSuffixes_token {x : Node → Parsing Node} (later : ReadsSuffixes lookup r)
    (stepped : ∀ g outer value,
      ExpressionState.step lookup false ⟨.operator value, g, outer, false⟩ t =
      x value >>= fun n => pure ⟨.operator n, g, outer, false⟩)
    (read : ∀ left value, suffixes lookup left value (.ok t :: r) = x value >>= fun n =>
      suffixes lookup left n r >>= fun b =>
        pure (b.imp fun h => ((Behind.first _ r).of_suffix h).suffix)) :
    ReadsSuffixes lookup (.ok t :: r) := by
  intro left value pending branches outer
  rw [remaining_cons, stepped, read]
  simp only [bind_assoc, pure_bind, Reading.imp]
  exact .bind _ fun n => later left n pending branches outer

theorem readsSuffixes_end (ended : ∀ left value, suffixes lookup left value ts =
      if left.isSome then refuse else pure ⟨value, ts, List.suffix_refl ts⟩)
    (bounds : ∀ value (b : LeftBound) pending branches outer,
      Fails (remaining lookup ⟨.operator value, ⟨some b, pending, branches⟩, outer,
        false⟩ ts))
    (follows : ∀ value pending branches outer,
      Alike (remaining lookup ⟨.operator value, ⟨none, pending, branches⟩, outer, false⟩ ts)
        (following lookup pending branches outer value ts)) : ReadsSuffixes lookup ts := by
  intro left value pending branches outer
  rw [ended]
  cases left with
  | some b => exact .of_fails (bounds value b pending branches outer) (fails_refuse.bind_left _)
  | none =>
    simp only [Option.isSome_none, Bool.false_eq_true, if_false, pure_bind]
    exact follows value pending branches outer

theorem readsSuffixes_refused (ended : ∀ left value, suffixes lookup left value ts =
      if left.isSome then refuse else pure ⟨value, ts, List.suffix_refl ts⟩)
    (ampersand : ∀ r, ts ≠ .ok .ampersand :: r) (bar : ∀ r, ts ≠ .ok .bar :: r)
    (close : ∀ r, ts ≠ .ok .groupClose :: r) (finish : ∀ r, ts ≠ .ok .finish :: r)
    (fails : ∀ value g outer,
      Fails (remaining lookup ⟨.operator value, g, outer, false⟩ ts)) :
    ReadsSuffixes lookup ts := by
  refine readsSuffixes_end ended (fun value b pending branches outer => fails _ _ _)
    fun value pending branches outer => .of_fails (fails _ _ _) ?_
  rw [following_end ampersand bar]
  exact .bind_right _ fun last => .bind_right _ fun whole => fails_ends close finish

theorem conjoin_left (b : LeftBound) (pending : Option Node) (branches : List Node) (n : Node) :
    Fails (ExpressionState.conjoin ⟨some b, pending, branches⟩ n) := by
  simp only [ExpressionState.conjoin, ExpressionState.checkLeftBound]
  exact (fails_fail _).bind_left _

theorem conjoin_none (pending : Option Node) (branches : List Node) (n : Node) :
    ExpressionState.conjoin ⟨none, pending, branches⟩ n = conjoined pending n := by
  simp only [ExpressionState.conjoin, ExpressionState.checkLeftBound, pure_bind]
  rfl

theorem readsSuffixes_ampersand (next : ReadsBounded lookup r) :
    ReadsSuffixes lookup (.ok .ampersand :: r) := by
  refine readsSuffixes_end (fun left value => by simp only [suffixes])
    (fun value b pending branches outer => ?_) fun value pending branches outer => ?_
  · simp only [remaining_cons, ExpressionState.step, ExpressionState.operator, bind_assoc]
    exact (conjoin_left b pending branches value).bind_left _
  · simp only [remaining_cons, ExpressionState.step, ExpressionState.operator, conjoin_none,
      bind_assoc, pure_bind, following_ampersand]
    exact .bind _ fun first => next none (some first) branches outer

theorem readsSuffixes_bar (next : ReadsBounded lookup r) :
    ReadsSuffixes lookup (.ok .bar :: r) := by
  refine readsSuffixes_end (fun left value => by simp only [suffixes])
    (fun value b pending branches outer => ?_) fun value pending branches outer => ?_
  · simp only [remaining_cons, ExpressionState.step, ExpressionState.operator, bind_assoc]
    exact (conjoin_left b pending branches value).bind_left _
  · simp only [remaining_cons, ExpressionState.step, ExpressionState.operator, conjoin_none,
      bind_assoc, pure_bind, following_bar]
    exact .bind _ fun branch => next none none (branches ++ [branch]) outer

theorem readsSuffixes_close : ReadsSuffixes lookup (.ok .groupClose :: r) := by
  refine readsSuffixes_end (fun left value => by simp only [suffixes])
    (fun value b pending branches outer => ?_) fun value pending branches outer => ?_
  · simp only [remaining_cons, ExpressionState.step, ExpressionState.operator,
      ExpressionState.close, ExpressionState.finishGroup]
    cases outer with
    | nil => exact (fails_fail _).bind_left _
    | cons parent outer =>
      simp only [bind_assoc]
      exact (conjoin_left b pending branches value).bind_left _
  · rw [@following_end _ lookup pending branches outer value (.ok .groupClose :: r) nofun nofun]
    simp only [remaining_cons, ExpressionState.step, ExpressionState.operator,
      ExpressionState.close, ExpressionState.finishGroup, conjoin_none]
    cases outer with
    | nil =>
      refine .of_fails ((fails_fail _).bind_left _) ?_
      exact .bind_right _ fun last => .bind_right _ fun whole => fails_refuse
    | cons parent outer =>
      simp only [bind_assoc, pure_bind, ends]
      exact .refl _

theorem readsSuffixes_finish : ReadsSuffixes lookup (.ok .finish :: r) := by
  refine readsSuffixes_end (fun left value => by simp only [suffixes])
    (fun value b pending branches outer => ?_) fun value pending branches outer => ?_
  · simp only [remaining_cons, ExpressionState.step, ExpressionState.operator,
      ExpressionState.conclude, ExpressionState.finishGroup]
    cases outer with
    | nil =>
      simp only [List.isEmpty_nil, if_true, bind_assoc]
      exact (conjoin_left b pending branches value).bind_left _
    | cons parent outer => exact (fails_fail _).bind_left _
  · rw [@following_end _ lookup pending branches outer value (.ok .finish :: r) nofun nofun]
    simp only [remaining_cons, ExpressionState.step, ExpressionState.operator,
      ExpressionState.conclude, ExpressionState.finishGroup, conjoin_none]
    cases outer with
    | nil =>
      simp only [List.isEmpty_nil, if_true, bind_assoc, pure_bind, ends]
      exact .refl _
    | cons parent outer =>
      refine .of_fails ((fails_fail _).bind_left _) ?_
      exact .bind_right _ fun last => .bind_right _ fun whole => fails_refuse

theorem readsSuffixes_percent (later : ∀ rest, Behind rest r → ReadsSuffixes lookup rest) :
    ReadsSuffixes lookup (.ok .percent :: r) := by
  rcases r with _ | ⟨f | t, r⟩
  · refine readsSuffixes_refused (fun left value => by simp only [suffixes]) nofun nofun
      nofun nofun
      fun value g outer => ?_
    simp only [remaining_cons, ExpressionState.step, ExpressionState.operator, pure_bind]
    exact fails_remaining_nil lookup nofun
  · refine readsSuffixes_refused (fun left value => by simp only [suffixes]) nofun nofun
      nofun nofun
      fun value g outer => ?_
    simp only [remaining_cons, ExpressionState.step, ExpressionState.operator, pure_bind]
    exact fails_remaining_error lookup _ f r
  · intro left value pending branches outer
    simp only [remaining_cons, ExpressionState.step, ExpressionState.operator, pure_bind, suffixes,
      bind_assoc, Reading.imp]
    exact .bind _ fun n => later r (.first _ r) left n pending branches outer

theorem readsSuffixes_leftBound (c : Comparator) (next : ReadsBounded lookup r) {value : Node}
    {x : Numeral} (number : value.constraint = .literal (.number x)) (left : Option LeftBound)
    (pending : Option Node) (branches : List Node) (outer : List Group) :
    Alike (remaining lookup ⟨.operator value, ⟨left, pending, branches⟩, outer, false⟩
      (.ok (.comparator c) :: r))
        (suffixes lookup left value (.ok (.comparator c) :: r) >>= fun b =>
        following lookup pending branches outer b.node b.rest) := by
  simp only [remaining_cons, ExpressionState.step, ExpressionState.operator,
    ExpressionState.compare, number, suffixes]
  cases left with
  | some b => exact .of_fails ((fails_fail _).bind_left _) (fails_refuse.bind_left _)
  | none =>
    cases upper : c.isUpper with
    | false => exact .of_fails ((fails_fail _).bind_left _) (fails_refuse.bind_left _)
    | true =>
      simp only [Option.isSome_none, Option.isNone_none, Bool.false_eq_true, if_false, if_true,
        Bool.and_self, pure_bind, bind_assoc, Reading.imp]
      exact next (some ⟨x.value, c⟩) pending branches outer

/-- A comparator behind anything else bounds it by the number that follows. -/
theorem readsSuffixes_bound (c : Comparator)
    (later : ∀ rest, Behind rest r → ReadsSuffixes lookup rest) {value : Node}
    (number : ∀ x, value.constraint ≠ .literal (.number x)) (left : Option LeftBound)
    (pending : Option Node) (branches : List Node) (outer : List Group) :
    Alike (remaining lookup ⟨.operator value, ⟨left, pending, branches⟩, outer, false⟩
      (.ok (.comparator c) :: r))
        (suffixes lookup left value (.ok (.comparator c) :: r) >>= fun b =>
        following lookup pending branches outer b.node b.rest) := by
  have compared (g : Group) :
      ExpressionState.compare ⟨.operator value, g, outer, false⟩ value c =
      pure ⟨.limit value c, g, outer, false⟩ := by
    unfold ExpressionState.compare
    split
    · rename_i x found
      exact absurd found (number x)
    · rfl
  have refused (unread : suffixes lookup left value (.ok (.comparator c) :: r) = refuse)
      (fails : Fails (remaining lookup
        ⟨.limit value c, ⟨left, pending, branches⟩, outer, false⟩ r)) :
      Alike (remaining lookup ⟨.limit value c, ⟨left, pending, branches⟩, outer, false⟩ r)
        (suffixes lookup left value (.ok (.comparator c) :: r) >>= fun b =>
          following lookup pending branches outer b.node b.rest) := by
    rw [unread]
    exact .of_fails fails (fails_refuse.bind_left _)
  simp only [remaining_cons, ExpressionState.step, ExpressionState.operator, compared, pure_bind]
  rcases r with _ | ⟨f | t, r⟩
  · refine refused ?_ (fails_remaining_nil lookup nofun)
    simp only [suffixes]
  · refine refused ?_ (fails_remaining_error lookup _ f r)
    simp only [suffixes]
  · have read : suffixes lookup left value (.ok (.comparator c) :: .ok t :: r) =
        ExpressionState.boundBy ⟨left, none, []⟩ value c t >>= fun value =>
          suffixes lookup none value r >>=
          fun b => pure (b.imp fun h => ((Behind.second _ _ r).of_suffix h).suffix) := by
      simp only [suffixes]
    simp only [remaining_cons, ExpressionState.step, read, bind_assoc, pure_bind, Reading.imp]
    exact .bind _ fun n => later r (.first _ r) none n pending branches outer

theorem readsSuffixes_comparator (c : Comparator) (next : ReadsBounded lookup r)
    (later : ∀ rest, Behind rest r → ReadsSuffixes lookup rest) :
    ReadsSuffixes lookup (.ok (.comparator c) :: r) := by
  intro left value
  by_cases number : ∃ x, value.constraint = .literal (.number x)
  · obtain ⟨x, number⟩ := number
    exact readsSuffixes_leftBound c next number left
  · exact readsSuffixes_bound c later (fun x found => number ⟨x, found⟩) left

theorem readsSuffixes_cons (next : ReadsBounded lookup r)
    (later : ∀ rest, Behind rest (.ok t :: r) → ReadsSuffixes lookup rest) :
    ReadsSuffixes lookup (.ok t :: r) := by
  have suffixed : ReadsSuffixes lookup r := later r (.first _ r)
  have behind (rest : List (Except Fault Token)) (h : Behind rest r) : ReadsSuffixes lookup rest :=
    later rest (h.trans (.first _ r))
  have refused (f : Fault) (stepped : ∀ g outer value,
      ExpressionState.step lookup false ⟨.operator value, g, outer, false⟩ t = fail f)
      (ended : ∀ left value, suffixes lookup left value (.ok t :: r) =
        if left.isSome then refuse else pure ⟨value, .ok t :: r, List.suffix_refl _⟩)
      (ampersand : t ≠ .ampersand := by nofun) (bar : t ≠ .bar := by nofun)
      (close : t ≠ .groupClose := by nofun) (finish : t ≠ .finish := by nofun) :
      ReadsSuffixes lookup (.ok t :: r) := by
    refine readsSuffixes_refused ended (fun _ h => ampersand (by cases h; rfl))
      (fun _ h => bar (by cases h; rfl)) (fun _ h => close (by cases h; rfl))
        (fun _ h => finish (by cases h; rfl)) fun value g outer => ?_
    rw [remaining_cons, stepped]
    exact (fails_fail f).bind_left _
  cases t with
  | list =>
    exact readsSuffixes_token (x := fun value => build (Traced.arrayOf value)) suffixed
      (fun g outer value => rfl) fun left value => by simp only [suffixes]
  | brand name =>
    refine readsSuffixes_token (x := fun value => do
      let brand ← build (Traced.build (.of (.brand name)))
      intersect value brand) suffixed (fun g outer value => ?_) fun left value => ?_
    · simp only [ExpressionState.step, ExpressionState.operator, bind_assoc]
    · simp only [suffixes, bind_assoc]
  | percent => exact readsSuffixes_percent behind
  | comparator c => exact readsSuffixes_comparator c next behind
  | ampersand => exact readsSuffixes_ampersand next
  | bar => exact readsSuffixes_bar next
  | groupClose => exact readsSuffixes_close
  | finish => exact readsSuffixes_finish
  | optional => exact refused _ (fun _ _ _ => rfl) fun left value => by simp only [suffixes]
  | word text => exact refused _ (fun _ _ _ => rfl) fun left value => by simp only [suffixes]
  | enclosed d text => exact refused _ (fun _ _ _ => rfl) fun left value => by simp only [suffixes]
  | groupOpen => exact refused _ (fun _ _ _ => rfl) fun left value => by simp only [suffixes]

/-- The machine reads as the grammar does, whatever is pending in the groups around. -/
theorem machine_reads (lookup : Lookup) (ts : List (Except Fault Token)) :
    ReadsBounded lookup ts ∧ ReadsSuffixes lookup ts := by
  induction hn : ts.length using Nat.strong_induction_on generalizing ts with
  | _ n ih =>
    subst hn
    rcases ts with _ | ⟨f | t, r⟩
    · refine ⟨readsBounded_refused (fun g outer => fails_remaining_nil lookup nofun)
        (by simp only [primary]), ?_⟩
      exact readsSuffixes_refused (fun left value => by simp only [suffixes]) nofun nofun
        nofun nofun
        fun value g outer => fails_remaining_nil lookup nofun
    · refine ⟨readsBounded_refused (fun g outer => fails_remaining_error lookup _ f r)
        (by simp only [primary]), ?_⟩
      exact readsSuffixes_refused (fun left value => by simp only [suffixes]) nofun nofun
        nofun nofun
        fun value g outer => fails_remaining_error lookup _ f r
    · have next : ReadsBounded lookup r := (ih _ (Nat.lt_succ_self _) r rfl).1
      have later (rest : List (Except Fault Token)) (h : Behind rest (.ok t :: r)) :
          ReadsSuffixes lookup rest := (ih _ h.shorter rest rfl).2
      exact ⟨readsBounded_cons next later, readsSuffixes_cons next later⟩

end

omit [Library] in
theorem finish_last {n : Nat} {cs : List Char} {r : List (Except Fault Token)}
    (h : .ok .finish :: r <:+ Scan.upTo n cs) : r = [] := by
  induction n generalizing cs with
  | zero =>
    rw [Scan.upTo] at h
    exact nomatch List.suffix_nil.mp h
  | succ n ih =>
    rw [Scan.upTo] at h
    have one {x : Except Fault Token} (single : .ok .finish :: r <:+ [x]) : r = [] := by
      simpa using single.length_le
    split at h
    · exact one h
    · rename_i t unfinished scanned
      rcases List.suffix_cons_iff.mp h with same | later
      · cases same
        exact absurd rfl unfinished
      · exact ih later
    · exact one h

/-- The machine ends with the first expression if nothing but the end of the text follows it. -/
theorem ends_text {text : String} (whole : Reading (Behind · (Scan.all text))) :
    Alike (ends lookup [] whole.node whole.rest)
      (match whole.rest with
        | [.ok .finish] => pure whole.node
        | _ => refuse) := by
  obtain ⟨node, rest, behind⟩ := whole
  rcases rest with _ | ⟨f | t, r⟩
  · exact .refl _
  · exact .refl _
  · cases t with
    | finish =>
      obtain rfl := finish_last behind.suffix
      simp only [ends, remaining, ExpressionState.steps, pure_bind, concluded]
      exact .refl _
    | _ => exact .refl _

theorem parseExpression_alike (lookup : Lookup) (text : String) :
    Alike ((·.node) <$> parseExpression lookup false text)
      (definition lookup (Scan.all text)) := by
  have machine : (·.node) <$> parseExpression lookup false text =
      remaining lookup .start (Scan.all text) := by
    simp only [parseExpression, remaining, map_bind, concluded]
    congr 1
    funext s
    cases s.awaiting <;> rfl
  rw [machine]
  refine ((machine_reads lookup (Scan.all text)).1 none none [] []).trans ?_
  rw [← expr_following]
  exact .bind (expr lookup (Scan.all text)) ends_text

end

end Descent

namespace Scope

open Parsing

theorem call_alike {α : Type} {x y : Parsing α} (h : Alike x y) (s s' : Scope) (a : α) :
    s.call x = (.ok a, s') ↔ s.call y = (.ok a, s') := by
  have one {x y : Parsing α} (h : Alike x y) (called : s.call x = (.ok a, s')) :
      s.call y = (.ok a, s') := by
    cases ran : x.run.run s.state with
    | mk result state =>
      obtain rfl : result = .ok a := by
        simpa only [call, ran] using congrArg Prod.fst called
      rw [← called]
      simp only [call, ran, (h s.state state a).mp ran]
  exact ⟨one h, one h.symm⟩

/-- A text is parsed exactly if it is read by recursive descent, and then to the same node. -/
theorem parse_eq_ok_iff_descent [Library] (s s' : Scope) (text : String) (n : Node) :
    s.parse text = (.ok n, s') ↔
      s.call (Descent.definition s.lookup (Scan.all text)) = (.ok n, s') := by
  rw [← call_alike (Descent.parseExpression_alike s.lookup text), parse]
  cases called : s.call ((·.node) <$> parseExpression s.lookup false text) with
  | mk result after =>
    cases result with
    | ok m => exact Iff.rfl
    | error e => exact ⟨fun h => by simp [noteFailure] at h, fun h => by simp at h⟩

end Scope

end SchemaAlgebra

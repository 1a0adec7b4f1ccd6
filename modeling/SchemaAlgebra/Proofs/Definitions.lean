import SchemaAlgebra.Proofs.Parsing

/-!
# Parsed definitions

Grammar texts and nested definitions are put together from a few kinds of parts, so every
node that a definition stands for has each property that those parts have.
-/
namespace SchemaAlgebra

open Parsing

variable {home : Nat} {w : Standard} {lookup : Lookup} {s : ScopeState}

/-- The nodes of aliases are up to the standard. -/
def Lookup.Holds (w : Standard) (lookup : Lookup) : Prop :=
  ∀ s name, Ensures w s (lookup.alias? name) fun t o => ∀ n, o = some n → w.parsed t n

/-- The nodes pending in a group have the property, and its left bound is finite. -/
structure Group.Holds (P : Node → Prop) (g : Group) : Prop where
  leftBound : ∀ b, g.leftBound = some b → b.value.isFinite = true
  intersection : ∀ n, g.intersection = some n → P n
  branches : ∀ n ∈ g.branches, P n

def Awaiting.Holds (P : Node → Prop) : Awaiting → Prop
  | operand => True
  | operator root => P root
  | divisor root => P root
  | limit root _ => P root
  | finish root => P root
  | nothing result => P result

theorem Group.Holds.mono {P R : Node → Prop} {g : Group} (h : g.Holds P)
    (weaker : ∀ n, P n → R n) : g.Holds R :=
  ⟨h.leftBound, fun n hn => weaker n (h.intersection n hn),
    fun n hn => weaker n (h.branches n hn)⟩

theorem Awaiting.Holds.mono {P R : Node → Prop} {a : Awaiting} (h : a.Holds P)
    (weaker : ∀ n, P n → R n) : a.Holds R := by
  cases a with
  | operand => trivial
  | _ => exact weaker _ h

namespace ExpressionState

structure Holds (P : Node → Prop) (e : ExpressionState) : Prop where
  awaiting : e.awaiting.Holds P
  group : e.group.Holds P
  outer : ∀ g ∈ e.outer, g.Holds P

variable {P R : Node → Prop} {e : ExpressionState}

theorem empty_holds : Group.empty.Holds P :=
  ⟨nofun, nofun, nofun⟩

theorem start_holds : start.Holds P := ⟨trivial, empty_holds, fun _ h => nomatch h⟩

theorem Holds.mono (h : e.Holds P) (weaker : ∀ n, P n → R n) : e.Holds R :=
  ⟨h.awaiting.mono weaker, h.group.mono weaker, fun g hg => (h.outer g hg).mono weaker⟩

theorem Holds.lasts {t : ScopeState} (h : e.Holds (w.parsed s)) (extended : s.Extends t) :
    e.Holds (w.parsed t) :=
  h.mono fun _ => w.lasts extended

theorem Holds.operator (h : e.Holds P) {n : Node} (hn : P n) :
    Holds P { e with awaiting := .operator n } :=
  ⟨hn, h.group, h.outer⟩

theorem checkLeftBound_ensures (g : Group) : Ensures w s (checkLeftBound g) fun _ _ => True := by
  unfold checkLeftBound
  cases g.leftBound with
  | some b => exact .fail _
  | none => exact .pure trivial

theorem requireAll_ensures (test : Node → Bool) (fault : Node → Fault) (n : Node) :
    Ensures w s (requireAll test fault n) fun _ _ => True := by
  unfold requireAll
  cases n.branches.find? (!test ·) with
  | some b => exact .fail _
  | none => exact .pure trivial

theorem limit_isFinite {t : Token} {x : Binary64} (h : limit? t = some x) : x.isFinite = true := by
  cases t with
  | word text =>
    rw [limit?, Word.number?] at h
    split_ifs at h
    exact (Option.filter_eq_some_iff.mp h).2
  | _ => cases h

theorem rangeOf_isFinite (c : Comparator) {x : Binary64} (h : x.isFinite = true) :
    (rangeOf c x).IsFinite := by
  have limit {a : Limit} (same : a.value = x) : ∀ y ∈ some a, y.value.isFinite = true := by
    intro y hy
    cases hy
    rw [same, h]
  cases c
  · exact ⟨nofun, limit rfl⟩
  · exact ⟨nofun, limit rfl⟩
  · exact ⟨limit rfl, nofun⟩
  · exact ⟨limit rfl, nofun⟩
  · exact ⟨limit rfl, limit rfl⟩

theorem combinedRange_ensures {left : Option LeftBound}
    (hb : ∀ b, left = some b → b.value.isFinite = true) (c : Comparator) {x : Binary64}
    (h : x.isFinite = true) : Ensures w s (combinedRange left c x) fun _ => Range.IsFinite := by
  unfold combinedRange
  cases left with
  | none => exact .pure (rangeOf_isFinite c h)
  | some b =>
    refine .ite (fun _ => .fail _) fun _ => ?_
    cases met : (rangeOf b.comparator.invert b.value).intersect? (rangeOf c x) with
    | some r =>
      exact .pure (Range.IsFinite.intersect (rangeOf_isFinite _ (hb b rfl))
        (rangeOf_isFinite c h) met)
    | none => exact .fail _

theorem compare_ensures (he : e.Holds (w.parsed s)) {root : Node} (hr : w.parsed s root)
    (c : Comparator) : Ensures w s (compare e root c) fun t => Holds (w.parsed t) := by
  unfold compare
  split
  · rename_i x _
    refine .ite (fun _ => .fail _) fun _ => .ite (fun _ => .pure ?_) fun _ => .fail _
    refine ⟨trivial, ⟨fun b hb => ?_, he.group.intersection, he.group.branches⟩, he.outer⟩
    cases hb
    have regular := x.isRegular
    rw [Bool.and_eq_true] at regular
    exact regular.1
  · exact .pure ⟨hr, he.group, he.outer⟩

variable [Library]

section

variable (can : Parsable home w)
include can

theorem word_ensures (aliases : lookup.Holds w) (text : String) :
    Ensures w s (word lookup text) w.parsed := by
  unfold word
  cases Word.literal? text with
  | some l => exact .build_node ((can.composable s).literal l)
  | none =>
    refine (aliases s text).bind fun t o _ ho => ?_
    cases o with
    | some n => exact .pure (ho n rfl)
    | none =>
      cases hk : Word.keyword? text with
      | some keyword => exact .build_parsed ((can.composable t).keyword text keyword hk)
      | none => exact .fail _

theorem regex_ensures (source : String) : Ensures w s (regex source) w.parsed := by
  unfold regex
  cases Pattern.ofSource? source with
  | some p => exact .build_parsed ((can.composable s).matching p)
  | none => exact .fail _

theorem operand_ensures (aliases : lookup.Holds w) (he : e.Holds (w.parsed s)) (t : Token) :
    Ensures w s (operand lookup e t) fun t => Holds (w.parsed t) := by
  have opened : Holds (w.parsed s) { e with group := .empty, outer := e.group :: e.outer } :=
    ⟨he.awaiting, empty_holds, List.forall_mem_cons.mpr ⟨he.group, he.outer⟩⟩
  have read {x : Parsing Node} (hx : Ensures w s x w.parsed) :
      Ensures w s (do return { e with awaiting := .operator (← x) }) fun t =>
        Holds (w.parsed t) :=
    hx.bind fun _ _ extended hn => .pure ((he.lasts extended).operator hn)
  cases t with
  | groupOpen => exact .pure opened
  | word text => exact read (word_ensures can aliases text)
  | enclosed quote text =>
    unfold operand
    split
    · exact .pure opened
    · exact read (word_ensures can aliases _)
    · exact read (regex_ensures can _)
    · exact read (.build_node ((can.composable s).literal _))
    · exact .fail _
    · exact .fail _
  | _ => exact .fail _

theorem conjoin_ensures {g : Group} (hg : g.Holds (w.parsed s)) {root : Node}
    (hr : w.parsed s root) : Ensures w s (conjoin g root) w.parsed := by
  refine (checkLeftBound_ensures g).bind fun t _ extended _ => ?_
  cases hi : g.intersection with
  | some pending =>
    exact .intersect can (w.lasts extended (hg.intersection pending hi)) (w.lasts extended hr)
  | none => exact .pure (w.lasts extended hr)

theorem finishGroup_ensures {g : Group} (hg : g.Holds (w.parsed s)) {root : Node}
    (hr : w.parsed s root) : Ensures w s (finishGroup g root) w.parsed := by
  refine (conjoin_ensures can hg hr).bind fun t last extended hl => .unite can fun n hn => ?_
  rcases List.mem_append.mp hn with hn | hn
  · exact w.lasts extended (hg.branches n hn)
  · exact List.mem_singleton.mp hn ▸ hl

theorem divide_ensures {root : Node} (hr : w.parsed s root) (t : Token) :
    Ensures w s (divide root t) w.parsed := by
  unfold divide
  cases hd : divisor? t with
  | none => exact .fail _
  | some n =>
    obtain ⟨positive, small⟩ : 0 < n ∧ n < Nat.pow 2 64 := by
      cases t with
      | word text =>
        rw [divisor?, Option.filter_eq_some_iff] at hd
        simpa using hd.2
      | _ => cases hd
    refine (requireAll_ensures _ _ _).bind fun t _ first _ => ?_
    refine Ensures.bind (.build_node ((can.composable t).divisor n positive small)) ?_
    exact fun u d second hd => .intersect can (w.lasts (first.trans second) hr) hd

theorem boundBy_ensures {g : Group} (hg : g.Holds (w.parsed s)) {root : Node} (hr : w.parsed s root)
    (c : Comparator) (t : Token) : Ensures w s (boundBy g root c t) w.parsed := by
  unfold boundBy
  cases hx : limit? t with
  | none => exact .fail _
  | some x =>
    refine (combinedRange_ensures hg.leftBound c (limit_isFinite hx)).bind
      fun t r first finite => ?_
    refine (requireAll_ensures _ _ _).bind fun u _ second _ => ?_
    refine Ensures.bind (.build_node ((can.composable u).bound r finite)) ?_
    exact fun v d third hd => .intersect can (w.lasts ((first.trans second).trans third) hr) hd

theorem close_ensures (he : e.Holds (w.parsed s)) {root : Node} (hr : w.parsed s root) :
    Ensures w s (close e root) fun t => Holds (w.parsed t) := by
  unfold close
  cases ho : e.outer with
  | nil => exact .fail _
  | cons parent outer =>
    refine (finishGroup_ensures can he.group hr).bind fun t n extended hn => .pure ?_
    have around := (he.lasts extended).outer
    rw [ho, List.forall_mem_cons] at around
    exact ⟨hn, around.1, around.2⟩

theorem conclude_ensures (he : e.Holds (w.parsed s)) {root : Node} (hr : w.parsed s root) :
    Ensures w s (conclude e root) fun t => Holds (w.parsed t) :=
  (finishGroup_ensures can he.group hr).bind fun _ _ extended hn =>
    .pure ⟨hn, empty_holds, (he.lasts extended).outer⟩

theorem operator_ensures (allowOptional : Bool) (he : e.Holds (w.parsed s)) {root : Node}
    (hr : w.parsed s root) (t : Token) :
    Ensures w s (operator allowOptional e root t) fun t => Holds (w.parsed t) := by
  cases t with
  | list =>
    exact Ensures.bind (.build_parsed ((can.composable s).arrayOf root hr)) fun _ _ extended hn =>
      .pure ((he.lasts extended).operator hn)
  | optional => exact .ite (fun _ => .pure ⟨hr, he.group, he.outer⟩) fun _ => .fail _
  | brand name =>
    refine Ensures.bind (.build_node ((can.composable s).brand name)) fun t brand first hb => ?_
    exact (Ensures.intersect can (w.lasts first hr) hb).bind fun _ _ second hn =>
      .pure ((he.lasts (first.trans second)).operator hn)
  | percent => exact .pure ⟨hr, he.group, he.outer⟩
  | comparator c => exact compare_ensures he hr c
  | ampersand =>
    refine (conjoin_ensures can he.group hr).bind fun t n extended hn => .pure ?_
    have kept := he.lasts extended
    refine ⟨trivial, ⟨kept.group.leftBound, ?_, kept.group.branches⟩, kept.outer⟩
    intro m hm
    cases hm
    exact hn
  | bar =>
    refine (conjoin_ensures can he.group hr).bind fun t n extended hn => .pure ?_
    have kept := he.lasts extended
    refine ⟨trivial, ⟨kept.group.leftBound, nofun, ?_⟩, kept.outer⟩
    intro m hm
    rcases List.mem_append.mp hm with hm | hm
    · exact kept.group.branches m hm
    · exact List.mem_singleton.mp hm ▸ hn
  | groupClose => exact close_ensures can he hr
  | finish => exact .ite (fun _ => conclude_ensures can he hr) fun _ => .fail _
  | _ => exact .fail _

theorem step_ensures (aliases : lookup.Holds w) (allowOptional : Bool) (he : e.Holds (w.parsed s))
    (t : Token) : Ensures w s (step lookup allowOptional e t) fun t => Holds (w.parsed t) := by
  have awaits := he.awaiting
  unfold step
  cases ha : e.awaiting with
  | operand => exact operand_ensures can aliases he t
  | operator root => exact operator_ensures can allowOptional he (ha ▸ awaits :) t
  | divisor root =>
    rw [ha] at awaits
    exact (divide_ensures can awaits t).bind fun _ _ extended hn =>
      .pure ((he.lasts extended).operator hn)
  | limit root c =>
    rw [ha] at awaits
    refine (boundBy_ensures can he.group awaits c t).bind fun t _ extended hn => .pure ?_
    have kept := he.lasts extended
    exact ⟨hn, ⟨nofun, kept.group.intersection, kept.group.branches⟩, kept.outer⟩
  | finish root =>
    rw [ha] at awaits
    exact .ite (fun _ => conclude_ensures can he awaits) fun _ => .fail _
  | nothing result => exact .pure he

theorem steps_ensures (aliases : lookup.Holds w) (allowOptional : Bool) (he : e.Holds (w.parsed s))
    (ts : List (Except Fault Token)) :
    Ensures w s (steps lookup allowOptional e ts) fun t => Holds (w.parsed t) := by
  induction ts generalizing e s with
  | nil => exact .pure he
  | cons t ts ih =>
    cases t with
    | ok t => exact (step_ensures can aliases allowOptional he t).bind fun _ _ _ h => ih h
    | error f => exact .fail f

end

end ExpressionState

theorem parseExpression_ensures [Library] (can : Parsable home w) (aliases : lookup.Holds w)
    (allowOptional : Bool) (text : String) :
    Ensures w s (parseExpression lookup allowOptional text) fun t p => w.parsed t p.node := by
  refine (ExpressionState.steps_ensures can aliases allowOptional
    ExpressionState.start_holds _).bind
    fun t e _ he => ?_
  have awaits := he.awaiting
  cases ha : e.awaiting with
  | nothing node =>
    rw [ha] at awaits
    exact .pure awaits
  | _ => exact .fail _

namespace Definition

variable {P : Node → Prop}

theorem addNamed_values {p : Props Node} (hp : ∀ m ∈ p.values, P m) (name : String) {n : Node}
    (hn : P n) (optional : Bool) : ∀ m ∈ (addNamed p name n optional).values, P m := by
  simp only [Props.values, List.forall_mem_append] at hp
  obtain ⟨⟨⟨required, optionals⟩, index⟩, sequence⟩ := hp
  unfold addNamed
  cases optional with
  | true =>
    simp only [if_true, Props.values, List.forall_mem_append]
    exact ⟨⟨⟨required, Entries.forall_values_insert optionals name hn⟩, index⟩,
      sequence⟩
  | false =>
    simp only [Bool.false_eq_true, if_false, Props.values, List.forall_mem_append]
    exact ⟨⟨⟨Entries.forall_values_insert required name hn, optionals⟩, index⟩,
      sequence⟩

theorem addSignature_values {p : Props Node} (hp : ∀ m ∈ p.values, P m) {key value : Node}
    (hk : P key) (hv : P value) : ∀ m ∈ (addSignature p key value).values, P m := by
  simp only [Props.values, List.forall_mem_append] at hp
  obtain ⟨⟨named, index⟩, sequence⟩ := hp
  simp only [addSignature, Props.values, List.flatMap_append, List.forall_mem_append]
  refine ⟨⟨named, index, ?_⟩, sequence⟩
  simpa using ⟨hk, hv⟩

theorem step_ensures (name : String) : Ensures w s (step lookup name) fun _ _ => True := by
  unfold step
  cases lookup.morph? name <|> (Builtin.ofName? name).map .builtin with
  | some s => exact .pure trivial
  | none => exact .fail _

variable [Library]

section

variable (can : Parsable home w)
include can

theorem finishObject_ensures {p : Props Node} (hp : ∀ m ∈ p.values, w.parsed s m) :
    Ensures w s (finishObject p) w.parsed := by
  have normal : Ensures w s (attempt (normalize p)) fun t q => ∀ m ∈ q.values, w.parsed t m :=
    .attempt fun rep keeps faithful =>
      ((can.composable s).normal p hp rep keeps faithful).mono fun _ ho q hq _ extended m hm =>
        w.lasts extended (ho q hq m hm)
  exact normal.bind fun t q _ hq => .build_parsed ((can.composable t).object q hq)

theorem finishTuple_ensures {items : List Node} (hi : ∀ n ∈ items, w.parsed s n)
    {rest : Option Node} (hr : ∀ n ∈ rest, w.parsed s n) :
    Ensures w s (finishTuple items rest) w.parsed :=
  .build_parsed ((can.composable s).tuple items rest hi hr)

theorem spread_ensures {n : Node} (hn : w.parsed s n) : Ensures w s (spread n) w.parsed := by
  obtain ⟨c⟩ := n
  unfold spread
  split
  · exact .build_node (can.composable s).unknown
  · rename_i children hc
    cases hc
    cases he : elementOf false none children with
    | some element => exact .pure ((can.composable s).element children element hn he)
    | none => exact .fail _
  · exact .fail _

theorem morph_ensures {input : Node} (hi : w.parsed s input) (step : Step) :
    Ensures w s (morph input step) w.parsed := by
  obtain ⟨c⟩ := input
  unfold morph
  split
  · rename_i inner steps hc
    cases hc
    exact .build_node ((can.composable s).steps inner steps step hi)
  · exact .build_node ((can.composable s).step _ step hi)

mutual

theorem parse_ensures (aliases : lookup.Holds w) : ∀ (definition : Json) {s : ScopeState},
    Ensures w s (parse lookup definition) w.parsed
  | .string text, s => by
    rw [parse]
    exact (parseExpression_ensures can aliases false text).bind fun _ _ _ hp => .pure hp
  | .object entries, s => by
    rw [parse]
    have empty : ∀ m ∈ (Props.empty : Props Node).values, w.parsed s m :=
      fun _ h => absurd h List.not_mem_nil
    exact (parseEntries_ensures aliases entries empty).bind fun _ _ _ hp =>
      finishObject_ensures can hp
  | .array items, s => by
    unfold parse
    split
    · rename_i h
      cases h
    · rename_i h
      cases h
    · split
      · exact .build_node ((can.composable s).literal _)
      · exact .fail _
    · rename_i element _ h
      cases h
      exact (parse_ensures aliases element).bind fun t n _ hn =>
        .build_parsed ((can.composable t).arrayOf n hn)
    · rename_i left right h
      cases h
      refine (parse_ensures aliases left).bind fun t l _ hl => ?_
      refine (parse_ensures aliases right).bind fun u r extended hr => .unite can ?_
      simpa using ⟨w.lasts extended hl, hr⟩
    · rename_i left right h
      cases h
      refine (parse_ensures aliases left).bind fun t l _ hl => ?_
      exact (parse_ensures aliases right).bind fun u r extended hr =>
        .intersect can (w.lasts extended hl) hr
    · rename_i input name h
      cases h
      refine (step_ensures name).bind fun t step _ _ => ?_
      exact (parse_ensures aliases input).bind fun u n _ hn => morph_ensures can hn step
    · exact .fail _
    · rename_i h
      cases h
      refine .ite (fun _ => .fail _) fun _ => parseItems_ensures aliases items fun _ h => ?_
      exact absurd h List.not_mem_nil
    · exact .fail _
  | .null, s => by
    rw [parse] <;> first | exact .fail _ | simp
  | .bool _, s => by
    rw [parse] <;> first | exact .fail _ | simp
  | .number _, s => by
    rw [parse] <;> first | exact .fail _ | simp

theorem parseEntries_ensures (aliases : lookup.Holds w) : ∀ (entries : List (String × Json))
    {s : ScopeState} {p : Props Node}, (∀ m ∈ p.values, w.parsed s m) →
      Ensures w s (parseEntries lookup p entries) fun t q => ∀ m ∈ q.values, w.parsed t m
  | [], s, p, hp => by
    rw [parseEntries]
    exact .pure hp
  | (key, value) :: r, s, p, hp => by
    rw [parseEntries]
    cases Key.ofText key with
    | signature text =>
      refine (parseExpression_ensures can aliases false text).bind fun t parsed first hkey => ?_
      refine (parse_ensures aliases value).bind fun u v second hv => ?_
      refine parseEntries_ensures aliases r (addSignature_values ?_ (w.lasts second hkey) hv)
      exact fun m hm => w.lasts (first.trans second) (hp m hm)
    | named name optional =>
      have rest {x : Parsing Parsed} (hx : Ensures w s x fun t parsed => w.parsed t parsed.node) :
          Ensures w s (do
            let parsed ← x
            parseEntries lookup (addNamed p name parsed.node (optional || parsed.optional)) r)
            fun t q => ∀ m ∈ q.values, w.parsed t m :=
        hx.bind fun t parsed extended hn => parseEntries_ensures aliases r
          (addNamed_values (fun m hm => w.lasts extended (hp m hm)) name hn _)
      have nested : Ensures w s ((fun n => Parsed.mk n false) <$> parse lookup value)
          fun t parsed => w.parsed t parsed.node := .map (parse_ensures aliases value)
      cases value with
      | string text => exact rest (parseExpression_ensures can aliases true text)
      | _ => exact rest nested

theorem parseItems_ensures (aliases : lookup.Holds w) : ∀ (items : List Json) {s : ScopeState}
    {done : List Node}, (∀ m ∈ done, w.parsed s m) →
      Ensures w s (parseItems lookup done items) w.parsed
  | items, s, done, hd => by
    unfold parseItems
    split
    · exact finishTuple_ensures can hd fun _ h => nomatch h
    · exact .fail _
    · rename_i array
      refine (parse_ensures aliases array).bind fun t n first hn => ?_
      refine (spread_ensures can hn).bind fun u m second hm => ?_
      refine finishTuple_ensures can (fun k hk => w.lasts (first.trans second) (hd k hk)) ?_
      exact fun k hk => by cases hk; exact hm
    · exact .fail _
    · rename_i item r _ _ _
      refine (parse_ensures aliases item).bind fun t n extended hn => ?_
      refine parseItems_ensures aliases r fun m hm => ?_
      rcases List.mem_append.mp hm with hm | hm
      · exact w.lasts extended (hd m hm)
      · exact List.mem_singleton.mp hm ▸ hn

end

end

end Definition

end SchemaAlgebra

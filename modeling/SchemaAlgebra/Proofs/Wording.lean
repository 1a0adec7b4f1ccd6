import SchemaAlgebra.Proofs.Phrases
import SchemaAlgebra.Proofs.Spelling

/-!
# Reading the texts of written nodes

If brands stand beside a kind wherever there are some, the text of a node without morphs is
read to the node again: parts are intersected as they are met, and the texts of branches are
alternatives.
-/
namespace SchemaAlgebra

open Parsing
open Scan (Spells Ends)

namespace Node

/-- The nodes that the conjuncts of a node are made of. -/
def within (n : Node) : List Node := n.conjuncts.flatMap (·.constraint.children)

def isBrand (n : Node) : Bool :=
  match n.constraint with
  | .brand _ => true
  | _ => false

/-- Whether the node is made of brands only, of one at least. -/
def onlyBrands (n : Node) : Bool := !n.conjuncts.isEmpty && n.conjuncts.all isBrand

/-- Neither the node nor one within it is a morph or made of brands only. -/
inductive Expressible : Node → Prop
  | intro {n : Node} (noMorph : n.isMorph = false) (based : n.onlyBrands = false)
      (within : ∀ m ∈ n.within, Expressible m) : Expressible n

end Node

namespace Descent

open Conjunction (node patterned Beside IsTextual meet_pattern)

variable {lookup : Lookup} {free : Bool} {cs : List Char} {n m : Node} {ts : List Token}

/-- The tokens of patterns, each behind an ampersand. -/
def matched (ps : List Pattern) : List Token :=
  ps.flatMap fun p => [.ampersand, .enclosed '/' p.source]

theorem matched_closes (ps : List Pattern) {r : List (Except Fault Token)}
    (closes : ∃ t r', r = .ok t :: r' ∧ t.closes = true) :
    ∃ t r', (matched ps).map .ok ++ r = .ok t :: r' ∧ t.closes = true := by
  cases ps with
  | nil => exact closes
  | cons p ps => exact ⟨.ampersand, _, rfl, rfl⟩

variable [Library]

theorem Joining.patterns {k : Node} {ds : List Node} (text : IsTextual k) (hk : k ∈ ds)
    {done later : List Pattern} (beside : Beside (ds ++ patterned (done ++ later)))
    {r : List (Except Fault Token)} {Q : Node → List (Except Fault Token) → Prop}
    (closes : ∃ t r', r = .ok t :: r' ∧ t.closes = true)
    (h : Joining lookup (node (ds ++ patterned (done ++ later))) r Q) :
    Joining lookup (node (ds ++ patterned done)) ((matched later).map .ok ++ r) Q := by
  induction later generalizing done with
  | nil => simpa [matched] using h
  | cons p later ih =>
    rw [List.append_cons] at beside h
    have inside : .of (.patterns (done ++ [p] ++ later)) ∈
        ds ++ patterned (done ++ [p] ++ later) := by
      simp [patterned]
    have written : p.IsWritten := (beside.written _ inside).1.form.2.2 p (by simp)
    have next : Bounded lookup none [.enclosed '/' p.source] p.node := .pattern written.1
    have joined := Joining.operand next (meet_pattern text hk beside.fewer)
        (matched_closes later closes) (ih beside h)
    simpa [matched] using joined

theorem Bounded.matched {k : Node} {ds : List Node} {done : List Pattern}
    (h : Bounded lookup none ts (node (ds ++ patterned done))) (text : IsTextual k) (hk : k ∈ ds)
    (later : List Pattern) (beside : Beside (ds ++ patterned (done ++ later))) :
    Inter lookup (ts ++ Descent.matched later) (node (ds ++ patterned (done ++ later))) := by
  intro rest parts
  obtain ⟨t, r, rfl, closes, other⟩ := parts
  rw [List.map_append, List.append_assoc]
  refine h.joining (matched_closes later ⟨t, r, rfl, closes⟩) ?_
  exact .patterns text hk beside ⟨t, r, rfl, closes⟩ (.finish other fun v hv => ⟨hv, rfl⟩)

theorem spells_matched (h : Spells cs ts) {ps : List Pattern}
    (written : ∀ p ∈ ps, p.IsWritten) :
    Spells (cs ++ ps.flatMap fun p => '&' :: p.expression.toList) (ts ++ matched ps) :=
  h.separated (c := '&') (t := .ampersand) (by decide) (fun _ => rfl) nofun fun p hp =>
    .pattern (written p hp)

variable (lookup) in
/-- The text is one of a node: read as a whole, as an alternative unless there are several, and
without brackets before an array mark if it has no operators. -/
structure Told (text : String) (n : Node) : Prop where
  whole : ∃ ts, Spells text.toList ts ∧ Expr lookup ts n
  branch : n.constraint.isUnion = false → ∃ ts, Spells text.toList ts ∧ Inter lookup ts n
  operand : Node.hasOperator text = false → Spelled lookup true text.toList n

theorem Spelled.group (h : ∃ ts, Spells cs ts ∧ Expr lookup ts n) :
    Spelled lookup true ('(' :: cs ++ [')']) n := by
  obtain ⟨ts, spells, read⟩ := h
  refine ⟨⟨'(', _, rfl, by decide⟩, .groupOpen :: ts ++ [.groupClose], ?_,
    fun left _ => .group read⟩
  have close : Spells [')'] [.groupClose] :=
    fun rest _ => Scan.tokens_cons (t := .groupClose) rfl nofun
  have inner := spells.append close (Scan.ends_cons (by decide) _) nofun
  change Spells (['('] ++ (cs ++ [')'])) _
  exact .of_first (fun _ => rfl) nofun inner

/-- The arrays of an element, with the element in brackets if need be. -/
theorem Told.array {t : String} (h : Told lookup t n) :
    Spelled lookup true (Node.arrayOf t).toList n.array := by
  rw [Node.arrayOf]
  split_ifs with operator
  · have grouped := (Spelled.group h.whole).list
    simpa using grouped
  · have single := (h.operand (Bool.not_eq_true _ ▸ operator)).list
    simpa using single

/-- Suffixes behind one another, each of which adds a conjunct. -/
theorem Spelled.suffixes {α : Type} {part : α → Node} {later : List α} {l : List Node}
    (h : Spelled lookup free cs (node l)) (text : α → String)
    (beside : Beside (l ++ later.map part))
    (each : ∀ a ∈ later, ∀ l' cs', l.Sublist l' → Beside l' →
      Spelled lookup free cs' (node l') →
      (meet (node l') (part a)).outcome id = .ok (node (l' ++ [part a])) →
        Spelled lookup free (cs' ++ (text a).toList) (node (l' ++ [part a]))) :
    Spelled lookup free (cs ++ later.flatMap fun a => (text a).toList)
      (node (l ++ later.map part)) := by
  induction later generalizing l cs with
  | nil => simpa using h
  | cons a later ih =>
    rw [List.map_cons, List.append_cons] at beside ⊢
    have first := beside.sublist (List.sublist_append_left (l ++ [part a]) _)
    have before := beside.sublist
        ((List.sublist_append_left l [part a]).trans (List.sublist_append_left _ _))
    have added := each a List.mem_cons_self l cs (.refl l) before h first.meet
    have rest := ih added beside fun b hb l' cs' sublist =>
      each b (List.mem_cons_of_mem a hb) l' cs' ((List.sublist_append_left l _).trans sublist)
    simpa [List.flatMap_cons, List.append_assoc] using rest

end Descent

namespace Layout

open Conjunction (node patterned Beside)
open Descent

variable {x : Layout}

def foundation (x : Layout) : List Node := .of x.kind :: x.element.toList.map arrayOf

def ranged (x : Layout) : List Node := x.foundation ++ x.range.toList.map (.of <| .bound ·)

/-- All parts but the patterns, in the order in which they are written. -/
def before (x : Layout) : List Node :=
  x.ranged ++ x.divisors.map (.of <| .divisor ·) ++ x.brands.map (.of <| .brand ·)

theorem before_perm (x : Layout) : x.conjuncts.Perm (x.before ++ patterned x.patterns) := by
  classical
  refine List.perm_iff_count.mpr fun c => ?_
  simp only [conjuncts, before, ranged, foundation, List.count_cons, List.count_append]
  omega

variable [Library]

namespace Sound

variable (sound : x.Sound)
include sound

theorem beside_before : Beside (x.before ++ patterned x.patterns) := sound.beside.perm x.before_perm

theorem beside_ranged : Beside
    (x.ranged ++ x.divisors.map (.of <| .divisor ·) ++ x.brands.map (.of <| .brand ·)) :=
  sound.beside_before.sublist (List.sublist_append_left _ _)

theorem sizable {r : Range} (hr : x.range = some r) {l : List Node} (beside : Beside l)
    (hk : .of x.kind ∈ l) :
    ExpressionState.isSizable (node l) = true ∧
      ∀ y, (node l).constraint ≠ .literal (.number y) := by
  have kind := sound.kind_of_bound hr
  constructor
  · rw [ExpressionState.isSizable, beside.domain hk sound.fixed, beside.basis hk sound.fixed]
    rcases kind with kind | kind | ⟨b, kind⟩ <;> rw [kind]
    · rfl
    · rfl
    · cases b <;> rfl
  · intro y literal
    obtain ⟨-, -, perm⟩ := Conjunction.node_written beside.written beside.apart
    have single : (node l).conjuncts = [.of (.literal (.number y))] := by
      generalize node l = n at literal
      obtain ⟨c⟩ := n
      cases literal
      rfl
    have found := perm.mem_iff.mpr hk
    rw [single, List.mem_singleton, Node.of.injEq] at found
    rw [found] at kind
    simp at kind

theorem base {lookup : Lookup} (bare : lookup.Bare)
    (elements : ∀ e, x.element = some e → ∃ t, e.text? = some t ∧ Told lookup t e) :
    ∃ base, x.IsBase base ∧ Spelled lookup true base.toList (node x.foundation) := by
  rw [foundation]
  cases element : x.element with
  | none =>
    have written := (sound.beside.written (.of x.kind) List.mem_cons_self).1.form
    obtain ⟨text, found, spelled⟩ := Spelled.kind bare sound.fixed written
    exact ⟨text, by rwa [IsBase, element], spelled⟩
  | some e =>
    obtain ⟨t, found, told⟩ := elements e element
    obtain ⟨element', same, -, known⟩ :=
      (sound.beside.written (arrayOf e) (by simp [conjuncts, element])).1.form
    have same : e = element' := by simpa [Props.ofSequence] using same
    have whole : e.array = node (.of x.kind :: [arrayOf e]) := by
      rw [Node.array, same, known, ← same, sound.kind_of_element element]
      rfl
    refine ⟨Node.arrayOf t, by rw [IsBase, element]; exact ⟨t, found, rfl⟩, ?_⟩
    rw [Option.toList_some, List.map_singleton, ← whole]
    exact told.array

theorem bounded {lookup : Lookup} {base : String}
    (spelled : Spelled lookup true base.toList (node x.foundation)) :
    Spelled lookup false (x.phrase base).bounded.toList (node x.ranged) := by
  have beside : Beside x.ranged :=
    sound.beside_ranged.sublist
      ((List.sublist_append_left _ _).trans (List.sublist_append_left _ _))
  rw [ranged] at beside ⊢
  simp only [Node.Phrase.bounded, phrase]
  cases range : x.range with
  | none => simpa using spelled.bound
  | some r =>
    rw [range] at beside
    have first := beside.sublist (List.sublist_append_left x.foundation _)
    obtain ⟨sizable, number⟩ := sound.sizable range first List.mem_cons_self
    have written := (beside.written (.of (.bound r)) (by simp)).1
    exact spelled.range (Conjunction.node_written first.written first.apart).2.1 sizable number
      written beside.meet rfl

theorem suffixed {lookup : Lookup} {base : String}
    (spelled : Spelled lookup true base.toList (node x.foundation)) :
    Spelled lookup false ((x.phrase base).bounded.toList ++ (x.phrase base).suffixes.flatMap
      String.toList) (node x.before) := by
  have beside := sound.beside_ranged
  have divided : Spelled lookup false
      ((x.phrase base).bounded.toList ++ x.divisors.flatMap fun k => ("%" ++ toString k).toList)
      (node (x.ranged ++ x.divisors.map (.of <| .divisor ·))) := by
    refine (sound.bounded spelled).suffixes _ (beside.sublist (List.sublist_append_left _ _)) ?_
    intro k hk l cs sublist inner operand met
    have written := (beside.written (.of (.divisor k)) (by simp [hk])).1
    have kind : .of x.kind ∈ l := sublist.subset (by simp [ranged, foundation])
    have number : (node l).domain? = some .number := by
      rw [inner.domain kind sound.fixed, sound.kind_of_divisor hk]
      rfl
    exact operand.divisor written (Conjunction.node_written inner.written inner.apart).2.1
      number met
  have branded := divided.suffixes ("#" ++ ·) beside fun name hn l cs _ _ operand met =>
    operand.brand (beside.written (.of (.brand name)) (by simp [hn])).1 met
  simpa [phrase, before, List.flatMap_map] using branded

end Sound

end Layout

namespace Node

theorem hasOperator_append (a b : String) :
    hasOperator (a ++ b) = (hasOperator a || hasOperator b) := by
  simp [hasOperator]

theorem hasOperator_applied {r : Range} (limited : r.lower.isSome ∨ r.upper.isSome)
    (operand : String) : hasOperator (r.applied operand) = true := by
  have lower (a : Limit) : hasOperator (Range.lowerText a) = true := by
    rw [Range.lowerText, hasOperator_append]
    split_ifs <;> rfl
  have upper (a : Limit) : hasOperator (Range.upperText a) = true := by
    rw [Range.upperText, hasOperator_append]
    split_ifs <;> rfl
  rw [Range.applied]
  split
  · rw [hasOperator_append, hasOperator_append, show hasOperator "==" = true by decide]
    simp
  · rw [hasOperator_append, upper, Bool.or_true]
  · rw [hasOperator_append, lower, Bool.or_true]
  · rw [hasOperator_append, upper, Bool.or_true]
  · simp_all

end Node

namespace Node.Phrase

theorem toList_suffixes {text : String} (some_char : text.isEmpty = false) (parts : List String) :
    (parts.foldl append text).toList = text.toList ++ parts.flatMap String.toList := by
  induction parts generalizing text with
  | nil => simp
  | cons part parts ih =>
    have joined : append text part = text ++ part := by
      rw [append, some_char]
      rfl
    have longer : (text ++ part).isEmpty = false := by
      simp_all
    rw [List.foldl_cons, joined, ih longer]
    simp

variable {p : Phrase} (some_char : p.bounded.isEmpty = false)
include some_char

theorem toList_text_none (none : p.patterns = none) :
    p.text.toList = p.bounded.toList ++ p.suffixes.flatMap String.toList := by
  rw [text, none]
  exact toList_suffixes some_char p.suffixes

/-- Patterns follow all that says more than that values are texts. -/
theorem toList_text_some {patterns : String} (found : p.patterns = some patterns)
    (more : (p.isString && p.range.isNone && p.suffixes.isEmpty) = false) :
    p.text.toList = p.bounded.toList ++ p.suffixes.flatMap String.toList ++ '&' ::
      patterns.toList := by
  have whole := toList_suffixes some_char p.suffixes
  have filled : (p.suffixes.foldl append p.bounded).isEmpty = false := by
    rw [String.isEmpty_eq_false_iff, ne_eq, ← String.toList_eq_nil_iff, whole]
    rw [String.isEmpty_eq_false_iff, ne_eq, ← String.toList_eq_nil_iff] at some_char
    simp [some_char]
  have joined : p.text = p.suffixes.foldl append p.bounded ++ "&" ++ patterns := by
    simp only [text, found, more, filled, Bool.false_eq_true, if_false]
  rw [joined, String.toList_append, String.toList_append, whole]
  simp

end Node.Phrase

theorem Pattern.toList_conjunction (p : Pattern) (ps : List Pattern) :
    (conjunction (p :: ps)).toList = p.expression.toList ++ ps.flatMap fun q =>
      '&' :: q.expression.toList := by
  rw [conjunction, List.map_cons, Json.toList_intercalate_cons, List.flatMap_map]
  simp

variable [Library]

namespace Layout

open Conjunction (node patterned Beside)
open Descent

variable {x : Layout} {lookup : Lookup} {base : String}

def OnlyPatterns (x : Layout) : Prop :=
  x.patterns ≠ [] ∧ x.isString = true ∧ x.range = none ∧ x.divisors = [] ∧ x.brands = []

theorem OnlyPatterns.before (h : x.OnlyPatterns) (sound : x.Sound) :
    x.before = [.of (.domain .string)] := by
  obtain ⟨-, text, range, divisors, brands⟩ := h
  have kind : x.kind = .domain .string := by
    rw [isString] at text
    split at text
    · simp_all
    · cases text
  have element : x.element = none := by
    by_contra some_element
    obtain ⟨e, he⟩ := Option.ne_none_iff_exists'.mp some_element
    rw [sound.kind_of_element he] at kind
    cases kind
  simp [Layout.before, ranged, foundation, kind, element, range, divisors, brands]

omit [Library] in
theorem OnlyPatterns.text (h : x.OnlyPatterns) :
    (x.phrase base).text = Pattern.conjunction x.patterns := by
  obtain ⟨some_pattern, text, range, divisors, brands⟩ := h
  simp [phrase, Node.Phrase.text, some_pattern, text, range, divisors, brands]

omit [Library] in
theorem toList_text (some_char : (x.phrase base).bounded.isEmpty = false)
    (more : ¬x.OnlyPatterns) :
    (x.phrase base).text.toList = (x.phrase base).bounded.toList ++ (x.phrase base).suffixes.flatMap
      String.toList ++ x.patterns.flatMap fun p => '&' :: p.expression.toList := by
  cases patterns : x.patterns with
  | nil =>
    rw [Node.Phrase.toList_text_none some_char (by simp [phrase, patterns])]
    simp
  | cons p ps =>
    have found : (x.phrase base).patterns = some (Pattern.conjunction (p :: ps)) := by
      simp [phrase, patterns]
    rw [Node.Phrase.toList_text_some some_char found, Pattern.toList_conjunction]
    · simp
    · refine Bool.eq_false_iff.mpr fun only => more ?_
      simpa [phrase, OnlyPatterns, patterns, and_assoc] using only

namespace Sound

variable (sound : x.Sound)
include sound

theorem node_before : node x.conjuncts = node (x.before ++ patterned x.patterns) :=
  sound.beside.node_perm x.before_perm

theorem pattern_written {p : Pattern} (hp : p ∈ x.patterns) : p.IsWritten := by
  have inside : .of (.patterns x.patterns) ∈ x.conjuncts := by
    simp [conjuncts, patterned, List.ne_nil_of_mem hp]
  exact (sound.beside.written _ inside).1.form.2.2 p hp

variable (spelled : Spelled lookup true base.toList (node x.foundation))
include spelled

theorem some_char : (x.phrase base).bounded.isEmpty = false := by
  rw [String.isEmpty_eq_false_iff, ne_eq, ← String.toList_eq_nil_iff]
  exact (sound.bounded spelled).some_char

/-- The text is an intersection of operands, of which all but the first are patterns. -/
theorem inter : ∃ ts, Spells (x.phrase base).text.toList ts ∧
    Inter lookup ts (node x.conjuncts) := by
  have beside := sound.beside_before
  have written (p : Pattern) (hp : p ∈ x.patterns) := sound.pattern_written hp
  rw [sound.node_before]
  by_cases only : x.OnlyPatterns
  · obtain ⟨p, ps, patterns⟩ := List.exists_cons_of_ne_nil only.1
    rw [only.before sound, patterns] at beside ⊢
    rw [patterns] at written
    obtain ⟨first, later⟩ := List.forall_mem_cons.mp written
    rw [only.text, patterns, Pattern.toList_conjunction]
    refine ⟨_, spells_matched (.pattern first) later, ?_⟩
    have operand : Bounded lookup none [.enclosed '/' p.source]
        (node ([.of (.domain .string)] ++ patterned [p])) := .pattern first.1
    exact operand.matched (.inl rfl) (List.mem_singleton_self _) ps beside
  · obtain ⟨-, ts, spells, read⟩ := sound.suffixed spelled
    rw [toList_text (sound.some_char spelled) only]
    refine ⟨_, spells_matched spells written, ?_⟩
    have operand : Bounded lookup none ts (node (x.before ++ patterned [])) := by
      simpa [patterned] using read none (.inr rfl)
    by_cases none : x.patterns = []
    · simpa [none, matched] using operand.inter
    · have kind : .of x.kind ∈ x.before := by simp [before, ranged, foundation]
      exact operand.matched (sound.kind_of_patterns none) kind x.patterns beside

theorem operand (plain : Node.hasOperator (x.phrase base).text = false) :
    Spelled lookup true (x.phrase base).text.toList (node x.conjuncts) := by
  rw [sound.node_before]
  by_cases only : x.OnlyPatterns
  · obtain ⟨p, ps, patterns⟩ := List.exists_cons_of_ne_nil only.1
    have written := sound.pattern_written (p := p) (by simp [patterns])
    rw [only.before sound, patterns]
    rw [only.text, patterns] at plain ⊢
    rw [Node.hasOperator, Pattern.toList_conjunction, List.any_append,
      Bool.or_eq_false_iff] at plain
    obtain rfl : ps = [] := List.eq_nil_iff_forall_not_mem.mpr fun q hq =>
      List.any_eq_false.mp plain.2 '&' (List.mem_flatMap.mpr ⟨q, hq, List.mem_cons_self⟩) rfl
    rw [Pattern.toList_conjunction, List.flatMap_nil, List.append_nil]
    have opens : p.expression.toList = '/' :: (p.source.toList ++ ['/']) := by
      simp [Pattern.expression]
    exact ⟨⟨'/', _, opens, by decide⟩, _, .pattern written, fun left _ => .pattern written.1⟩
  · rw [Node.hasOperator, toList_text (sound.some_char spelled) only] at plain
    simp only [List.any_append, Bool.or_eq_false_iff] at plain
    obtain ⟨⟨bounded, suffixes⟩, patterns⟩ := plain
    have suffix {s : String} (hs : s ∈ (x.phrase base).suffixes) {c : Char} {r : List Char}
        (head : s.toList = c :: r) (mark : ['|', '&', '<', '>', '=', '%', '#'].contains c = true) :
        False := by
      refine List.any_eq_false.mp suffixes c (List.mem_flatMap.mpr ⟨s, hs, by simp [head]⟩) mark
    have divisors : x.divisors = [] := List.eq_nil_iff_forall_not_mem.mpr fun k hk =>
      suffix (List.mem_append_left _ (List.mem_map_of_mem hk)) (String.toList_append ..) rfl
    have brands : x.brands = [] := List.eq_nil_iff_forall_not_mem.mpr fun name hn =>
      suffix (List.mem_append_right _ (List.mem_map_of_mem hn)) (String.toList_append ..) rfl
    have patterns : x.patterns = [] := List.eq_nil_iff_forall_not_mem.mpr fun p hp =>
      List.any_eq_false.mp patterns '&' (List.mem_flatMap.mpr ⟨p, hp, List.mem_cons_self⟩) rfl
    have range : x.range = none := by
      by_contra some_range
      obtain ⟨r, hr⟩ := Option.ne_none_iff_exists'.mp some_range
      have limited := (sound.beside.written (.of (.bound r)) (by simp [conjuncts, hr])).1.form.2.1
      have operator := Node.hasOperator_applied limited base
      rw [show (x.phrase base).bounded =
        r.applied base by simp [phrase, Node.Phrase.bounded, hr]] at bounded
      exact absurd operator (Bool.eq_false_iff.mp bounded)
    have text : (x.phrase base).text.toList = base.toList := by
      rw [toList_text (sound.some_char spelled) only]
      simp [phrase, Node.Phrase.bounded, range, divisors, brands, patterns]
    have parts : x.before ++ patterned x.patterns = x.foundation := by
      simp [before, ranged, patterned, range, divisors, brands, patterns]
    rwa [text, parts]

end Sound

end Layout

namespace Descent

variable {lookup : Lookup} {ts : List Token} {n : Node}

theorem Inter.expr (h : Inter lookup ts n) (written : n.Written)
    (noMorph : ∀ b ∈ n.branches, b.isMorph = false) : Expr lookup ts n := by
  have united : (determinateUnion [n]).value id = .ok n :=
    determinateUnion_same written noMorph (List.forall_mem_singleton.mpr written.reduced) (by simp)
  have whole : Expr lookup (ts ++ barred (([] : List (List Token × Node)).map Prod.fst)) n :=
    .of_inters h nofun united
  simpa [barred] using whole

theorem Spelled.told {text : String} (h : Spelled lookup true text.toList n) (written : n.Written)
    (noMorph : ∀ b ∈ n.branches, b.isMorph = false) : Told lookup text n := by
  obtain ⟨-, ts, spells, read⟩ := h.bound
  have inter := (read none (.inr rfl)).inter
  exact ⟨⟨ts, spells, inter.expr written noMorph⟩, fun _ => ⟨ts, spells, inter⟩,
    fun _ => h⟩

/-- An alternative with its text and its tokens. -/
structure Alternative (lookup : Lookup) where
  text : String
  tokens : List Token
  node : Node
  spells : Spells text.toList tokens
  inter : Inter lookup tokens node

namespace Alternative

variable (a : Alternative lookup) (as : List (Alternative lookup))

theorem toList_texts : (String.intercalate "|" ((a :: as).map (·.text))).toList =
    a.text.toList ++ as.flatMap fun b => '|' :: b.text.toList := by
  rw [List.map_cons, Json.toList_intercalate_cons, List.flatMap_map]
  simp

theorem spells_texts : Spells (String.intercalate "|" ((a :: as).map (·.text))).toList
    (a.tokens ++ barred (as.map (·.tokens))) := by
  rw [toList_texts, barred, List.flatMap_map]
  exact a.spells.separated (c := '|') (t := .bar) (by decide) (fun _ => rfl) (by simp)
    fun b _ => b.spells

theorem expr (united : (determinateUnion ((a :: as).map (·.node))).value id = .ok n) :
    Expr lookup (a.tokens ++ barred (as.map (·.tokens))) n := by
  have whole : Expr lookup
      (a.tokens ++ barred ((as.map fun b => (b.tokens, b.node)).map Prod.fst)) n :=
    .of_inters a.inter (List.forall_mem_map.mpr fun b _ => b.inter)
      (by rw [List.map_map]; exact united)
  rwa [List.map_map] at whole

end Alternative

theorem exists_alternatives {branches : List Node}
    (single : ∀ b ∈ branches, b.constraint.isUnion = false)
    (told : ∀ b ∈ branches, ∃ t, b.text? = some t ∧ Told lookup t b) :
    ∃ as : List (Alternative lookup), branches = as.map (·.node) ∧
      Node.texts? branches = some (as.map (·.text)) := by
  induction branches with
  | nil => exact ⟨[], rfl, rfl⟩
  | cons b branches ih =>
    obtain ⟨here, single⟩ := List.forall_mem_cons.mp single
    obtain ⟨⟨t, text, first⟩, later⟩ := List.forall_mem_cons.mp told
    obtain ⟨as, rfl, texts⟩ := ih single later
    obtain ⟨ts, spells, inter⟩ := first.branch here
    exact ⟨⟨t, ts, b, spells, inter⟩ :: as, rfl, by rw [Node.texts?, text, texts]; rfl⟩

theorem told_union (bare : lookup.Bare) {branches : List Node}
    (written : (Node.of (.union branches)).Written)
    (noMorph : ∀ b ∈ branches, b.isMorph = false)
    (told : ∀ b ∈ branches, ∃ t, b.text? = some t ∧ Told lookup t b) :
    ∃ t, (Node.of (.union branches)).text? = some t ∧
      Told lookup t (.of (.union branches)) := by
  have single (b : Node) (hb : b ∈ branches) := written.reduced.isUnion_of_branch hb
  obtain ⟨as, rfl, texts⟩ := exists_alternatives single told
  cases as with
  | nil =>
    have never : Spelled lookup true "never".toList .never :=
      .keyword bare (by decide) (by decide) rfl rfl (result_constraint rfl)
    exact ⟨"never", rfl, never.told written noMorph⟩
  | cons a as =>
    cases as with
    | nil => exact absurd rfl written.form.1
    | cons b as =>
      have united : (determinateUnion ((a :: b :: as).map (·.node))).value id =
          .ok (.of (.union ((a :: b :: as).map (·.node)))) := by
        refine determinateUnion_same written noMorph
          (fun m hm => (written.children m hm).reduced) ?_
        conv_rhs => rw [Node.branches, Node.constraint, ← List.flatMap_singleton' (List.map _ _)]
        exact List.flatMap_congr fun m hm => Node.branches_of_single (single m hm)
      refine ⟨_, ?_, ⟨_, a.spells_texts (b :: as), a.expr (b :: as) united⟩, fun single => ?_,
        fun plain => ?_⟩
      · rw [Node.text?, texts]
        rfl
      · cases single
      · rw [Node.hasOperator, a.toList_texts] at plain
        simp at plain

theorem told_plain (bare : lookup.Bare) (written : n.Written) (grounded : n.Grounded)
    (plain : n.isPlain = true) {k : Node} (hk : k ∈ n.conjuncts) (fixed : k.constraint.rank = 0)
    (elements : ∀ e ∈ n.within, e.Written → e.Grounded →
      ∃ t, e.text? = some t ∧ Told lookup t e) :
    ∃ t, n.text? = some t ∧ Told lookup t n := by
  obtain ⟨x, same, lowest⟩ := written.layout plain hk fixed
  have sound : x.Sound :=
    ⟨same ▸ written.beside plain, lowest, same ▸ (Node.grounded_of_plain plain).mp grounded⟩
  have whole : Conjunction.node x.conjuncts = n := by
    rw [← same, Conjunction.node_conjuncts written plain]
  obtain ⟨base, isBase, spelled⟩ := sound.base bare fun e he => by
    have inside : Layout.arrayOf e ∈ n.conjuncts := by simp [same, Layout.conjuncts, he]
    have child : e ∈ (Layout.arrayOf e).constraint.children := by
      simp [Layout.arrayOf, Node.constraint, Constraint.children, Props.ofSequence, Props.values,
        Props.empty, Entries.values, Sequence.values]
    have writtenArray := written.conjuncts _ inside
    obtain ⟨element, sequence, grounded, -⟩ := writtenArray.form
    obtain rfl : e = element := by simpa [Props.ofSequence] using sequence
    exact elements e (List.mem_flatMap.mpr ⟨_, inside, child⟩)
      (writtenArray.children e child) grounded
  obtain ⟨ts, spells, inter⟩ := sound.inter spelled
  have operand := sound.operand spelled
  rw [whole] at inter operand
  have noMorph : ∀ b ∈ n.branches, b.isMorph = false := by
    obtain ⟨single, noMorph⟩ := Node.isPlain_iff.mp plain
    rw [Node.branches_of_single single]
    exact List.forall_mem_singleton.mpr noMorph
  exact ⟨_, Layout.text_of_conjuncts sound isBase plain same,
    ⟨ts, spells, inter.expr written noMorph⟩, fun _ => ⟨ts, spells, inter⟩, operand⟩

theorem brands_of_grounded (written : n.Written) (grounded : n.Grounded) (plain : n.isPlain = true)
    (free : ∀ c ∈ n.conjuncts, c.constraint.rank ≠ 0) :
    ∀ c ∈ n.conjuncts, c.isBrand = true := by
  intro c hc
  obtain ⟨writtenPart, single⟩ := (written.beside plain).written c hc
  have form := writtenPart.form
  have unkind : c.constraint.isRefinement = false := by
    rcases (Node.grounded_of_plain plain).mp grounded with ⟨k, hk, kind⟩ | unrefined
    · refine absurd ?_ (free k hk)
      generalize k.constraint = e at kind
      cases e <;> first | rfl | cases kind
    · exact unrefined c hc
  have other := free c hc
  obtain ⟨c⟩ := c
  cases c with
  | brand name => rfl
  | deferred name home => exact form.elim
  | domain d => exact absurd rfl other
  | literal l => exact absurd rfl other
  | basis b => exact absurd rfl other
  | morph input steps => cases single
  | union branches => cases single
  | intersection children => cases single
  | _ => cases unkind

/-- A written node has a text that is read to the node again, unless brands stand alone somewhere.
-/
theorem told (bare : lookup.Bare) (expressible : n.Expressible) (written : n.Written)
    (grounded : n.Grounded) : ∃ t, n.text? = some t ∧ Told lookup t n := by
  -- an element of an array is a child of a conjunct, so the induction is on what is within
  -- and not on children
  induction expressible with
  | @intro n noMorph based within ih =>
    cases union : n.constraint.isUnion with
    | true =>
      obtain ⟨c⟩ := n
      cases c with
      | union branches =>
        have inside (b : Node) (hb : b ∈ branches) : b ∈ (Node.of (.union branches)).within :=
          List.mem_flatMap.mpr ⟨_, List.mem_singleton_self _, hb⟩
        refine told_union bare written (fun b hb => ?_) fun b hb => ?_
        · obtain ⟨noMorph, -, -⟩ := within b (inside b hb)
          exact noMorph
        · exact ih b (inside b hb) (written.children b hb)
            (Node.grounded_branch grounded hb (written.reduced.isUnion_of_branch hb))
      | _ => cases union
    | false =>
      have plain : n.isPlain = true := Node.isPlain_iff.mpr ⟨union, noMorph⟩
      by_cases kind : ∃ k ∈ n.conjuncts, k.constraint.rank = 0
      · obtain ⟨k, hk, fixed⟩ := kind
        exact told_plain bare written grounded plain hk fixed ih
      · have brands := brands_of_grounded written grounded plain fun c hc rank =>
            kind ⟨c, hc, rank⟩
        have none : n.conjuncts = [] := by
          rw [Node.onlyBrands, List.all_eq_true.mpr brands, Bool.and_true,
            Bool.not_eq_false'] at based
          exact List.isEmpty_iff.mp based
        obtain rfl : n = .unknown := by
          rw [← Conjunction.node_conjuncts written plain, none]
          rfl
        have unknown : Spelled lookup true "unknown".toList .unknown :=
          .keyword bare (by decide) (by decide) rfl rfl (result_constraint rfl)
        exact ⟨"unknown", rfl, unknown.told written (List.forall_mem_singleton.mpr rfl)⟩

end Descent

end SchemaAlgebra

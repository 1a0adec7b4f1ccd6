import SchemaAlgebra.Proofs.JsonText
import SchemaAlgebra.Proofs.LiteralText
import SchemaAlgebra.Proofs.Reduced

/-!
# Keys

A key tells everything about a node but what is erased, as long as no two of the keys in
question have the same digest: the start of a key tells the kind of the constraint, and the
rest is put together from texts that show where they end.
-/
namespace SchemaAlgebra

/-- Texts up to the first of a character they do not contain are told apart. -/
theorem append_cons_inj {d : Char} {a b s t : List Char} (ha : d ∉ a) (hb : d ∉ b)
    (h : a ++ d :: s = b ++ d :: t) : a = b ∧ s = t := by
  induction a generalizing b with
  | nil =>
    cases b with
    | nil => exact ⟨rfl, (List.cons.inj h).2⟩
    | cons c b => exact absurd (List.cons.inj h).1 (List.ne_of_not_mem_cons hb)
  | cons c a ih =>
    cases b with
    | nil => exact absurd (List.cons.inj h).1.symm (List.ne_of_not_mem_cons ha)
    | cons c' b =>
      obtain ⟨same, rest⟩ := List.cons.inj h
      obtain ⟨same', rest⟩ :=
        ih (List.not_mem_of_not_mem_cons ha) (List.not_mem_of_not_mem_cons hb) rest
      exact ⟨congrArg₂ List.cons same same', rest⟩

/-- A text that can be an element of a list with commas. -/
def IsElement (text : String) : Prop := text ≠ "" ∧ ',' ∉ text.toList

theorem intercalate_injective {xs ys : List String} (hx : ∀ x ∈ xs, IsElement x)
    (hy : ∀ y ∈ ys, IsElement y) (h : String.intercalate "," xs = String.intercalate "," ys) :
    xs = ys := by
  have behind {x y : String} {xs ys : List String} (hx : ∀ z ∈ x :: xs, IsElement z)
      (hy : ∀ z ∈ y :: ys, IsElement z) (h : x.toList ++ xs.flatMap (fun t => ',' :: t.toList) =
        y.toList ++ ys.flatMap fun t => ',' :: t.toList) : x = y ∧ xs = ys := by
    induction xs generalizing x y ys with
    | nil =>
      cases ys with
      | nil => exact ⟨String.toList_injective (by simpa using h), rfl⟩
      | cons z ys =>
        refine absurd ?_ (hx x List.mem_cons_self).2
        rw [show x.toList = _ by simpa using h]
        simp
    | cons w xs ih =>
      cases ys with
      | nil =>
        refine absurd ?_ (hy y List.mem_cons_self).2
        rw [show y.toList = _ by simpa using h.symm]
        simp
      | cons z ys =>
        rw [List.flatMap_cons, List.flatMap_cons, List.cons_append, List.cons_append] at h
        obtain ⟨first, rest⟩ :=
          append_cons_inj (hx x List.mem_cons_self).2 (hy y List.mem_cons_self).2 h
        obtain ⟨second, rest⟩ :=
          ih (List.forall_mem_cons.mp hx).2 (List.forall_mem_cons.mp hy).2 rest
        exact ⟨String.toList_injective first, congrArg₂ List.cons second rest⟩
  have filled {x : String} {xs : List String} (hx : IsElement x) :
      "" ≠ String.intercalate "," (x :: xs) := by
    intro h
    have lists := congrArg String.toList h
    rw [Json.toList_intercalate_comma] at lists
    exact hx.1 (String.toList_injective (List.append_eq_nil_iff.mp lists.symm).1)
  cases xs with
  | nil =>
    cases ys with
    | nil => rfl
    | cons y ys => exact absurd h (filled (hy y List.mem_cons_self))
  | cons x xs =>
    cases ys with
    | nil => exact absurd h.symm (filled (hx x List.mem_cons_self))
    | cons y ys =>
      have lists := congrArg String.toList h
      rw [Json.toList_intercalate_comma, Json.toList_intercalate_comma] at lists
      obtain ⟨first, rest⟩ := behind hx hy lists
      rw [first, rest]

namespace Decimal

/-- A character that a written number can have. -/
def isNumeric (c : Char) : Bool := isDigit c || c == '-' || c == '.'

theorem isNumeric_of_mem_positional {d : Decimal} {c : Char} (h : c ∈ d.positional.toList) :
    isNumeric c = true := by
  have digits {c : Char} {n : Nat} (h : c ∈ Nat.toDigits 10 n) : isNumeric c = true := by
    rw [isNumeric, isDigit_of_mem_toDigits h]
    rfl
  have zeros {c : Char} {k : Nat} (h : c ∈ List.replicate k '0') : isNumeric c = true := by
    rw [isNumeric, isDigit_of_mem_zeros h]
    rfl
  have point : isNumeric '.' = true := by decide
  rw [positional_eq, String.toList_append, String.toList_ofList, List.mem_append] at h
  rcases h with h | h
  · cases hn : d.negative <;> rw [hn] at h <;> simp [signText] at h
    rw [h]
    rfl
  · unfold body at h
    dsimp only at h
    split at h
    · split_ifs at h
      · exact digits h
      · exact (List.mem_append.mp h).elim digits zeros
    · split_ifs at h
      · rcases List.mem_append.mp h with h | h
        · exact digits (List.mem_of_mem_take h)
        · rcases List.mem_cons.mp h with h | h
          · rwa [h]
          · exact digits (List.mem_of_mem_drop h)
      · rw [List.singleton_append, List.mem_cons, List.mem_cons, List.mem_append] at h
        rcases h with h | h | h | h
        · rw [h]
          rfl
        · rwa [h]
        · exact zeros h
        · exact digits h

end Decimal

namespace Limit

def IsRegular (a : Limit) : Prop :=
  a.value.isFinite = true ∧ (a.value.negative && a.value.isZero) = false

theorem canonical_isRegular {a : Limit} (h : a.value.isFinite = true) : a.canonical.IsRegular := by
  have number := Binary64.isNaN_of_isFinite h
  rw [canonical]
  split_ifs with zero nan
  · exact ⟨show Binary64.zero.isFinite = true by decide,
      show (Binary64.zero.negative && Binary64.zero.isZero) = false by decide⟩
  · rw [number] at nan
    cases nan
  · exact ⟨h, by rw [Bool.not_eq_true] at zero; rw [zero, Bool.and_false]⟩

theorem IsRegular.numeric {a : Limit} (h : a.IsRegular) {c : Char}
    (hc : c ∈ a.value.format.toList) : Decimal.isNumeric c = true := by
  obtain ⟨d, text, -⟩ := Binary64.format_eq_positional h.1 h.2
  rw [text] at hc
  exact Decimal.isNumeric_of_mem_positional hc

theorem IsRegular.format_injective {a b : Limit} (ha : a.IsRegular) (hb : b.IsRegular)
    (h : a.value.format = b.value.format) : a.value = b.value := by
  have same := Binary64.readBinary64_format ha.1 ha.2
  rw [h, Binary64.readBinary64_format hb.1 hb.2] at same
  exact (Option.some.inj same).symm

/-- The text of a limit behind the mark of its side. -/
def text (mark : String) (a : Limit) : String :=
  mark ++ (if a.exclusive then "" else "=") ++ a.value.format

theorem text_injective {mark : String} {a b : Limit} (ha : a.IsRegular) (hb : b.IsRegular)
    (h : text mark a = text mark b) : a = b := by
  have equals : Decimal.isNumeric '=' = false := by decide
  have lists := congrArg String.toList h
  simp only [text, String.toList_append, List.append_assoc, List.append_cancel_left_eq] at lists
  obtain ⟨x, open_⟩ := a
  obtain ⟨y, open'⟩ := b
  have inside {a : Limit} (ha : a.IsRegular) {r : List Char} :
      a.value.format.toList ≠ '=' :: r := by
    intro h
    have numeric := ha.numeric (c := '=') (h ▸ List.mem_cons_self)
    rw [equals] at numeric
    cases numeric
  cases open_ <;> cases open' <;> simp at lists
  · rw [show x = y from ha.format_injective hb (String.toList_injective lists)]
  · exact absurd lists.symm (inside hb)
  · exact absurd lists (inside ha)
  · rw [show x = y from ha.format_injective hb (String.toList_injective lists)]

end Limit

namespace Range

theorem lowerText_eq (a : Limit) : lowerText a = a.text ">" := by
  unfold lowerText Limit.text
  cases a.exclusive <;> rfl

theorem upperText_eq (a : Limit) : upperText a = a.text "<" := by
  unfold upperText Limit.text
  cases a.exclusive <;> rfl

theorem isElement_limit {mark : Char} (known : mark ≠ ',') {a : Limit} (ha : a.IsRegular) :
    IsElement (a.text (String.singleton mark)) := by
  have comma : Decimal.isNumeric ',' = false := by decide
  constructor
  · intro h
    have lists := congrArg String.toList h
    simp [Limit.text] at lists
  · intro h
    simp only [Limit.text, String.toList_append, String.toList_singleton, List.mem_append,
      List.mem_singleton] at h
    rcases h with (h | h) | h
    · exact known h.symm
    · cases ha : a.exclusive <;> simp [ha] at h
    · have numeric := ha.numeric h
      rw [comma] at numeric
      cases numeric

theorem limitTexts_isElement {r : Range} (hr : r.IsFinite) :
    ∀ x ∈ r.canonical.limitTexts, IsElement x := by
  have greater : '>' ≠ ',' := by decide
  have less : '<' ≠ ',' := by decide
  obtain ⟨lower, upper⟩ := r
  intro x hx
  simp only [limitTexts, canonical, Option.map_map, List.mem_append, Option.mem_toList,
    Option.map_eq_some_iff] at hx
  rcases hx with ⟨a, ha, rfl⟩ | ⟨a, ha, rfl⟩
  · rw [Function.comp_apply, lowerText_eq]
    exact isElement_limit greater (Limit.canonical_isRegular (hr.1 a ha))
  · rw [Function.comp_apply, upperText_eq]
    exact isElement_limit less (Limit.canonical_isRegular (hr.2 a ha))

theorem lowerText_ne_upperText (a b : Limit) : lowerText a ≠ upperText b := by
  intro h
  rw [lowerText_eq, upperText_eq] at h
  have lists := congrArg String.toList h
  simp [Limit.text] at lists

/-- Ranges of finite limits have the same key only if they are the same in canonical form. -/
theorem key_injective {r s : Range} (hr : r.IsFinite) (hs : s.IsFinite)
    (h : r.canonical.key = s.canonical.key) : r.canonical = s.canonical := by
  have texts := intercalate_injective (limitTexts_isElement hr) (limitTexts_isElement hs) h
  have lowers {a b : Limit} (ha : a.value.isFinite = true) (hb : b.value.isFinite = true)
      (h : lowerText a.canonical = lowerText b.canonical) : a.canonical = b.canonical := by
    rw [lowerText_eq, lowerText_eq] at h
    exact Limit.text_injective (Limit.canonical_isRegular ha) (Limit.canonical_isRegular hb) h
  have uppers {a b : Limit} (ha : a.value.isFinite = true) (hb : b.value.isFinite = true)
      (h : upperText a.canonical = upperText b.canonical) : a.canonical = b.canonical := by
    rw [upperText_eq, upperText_eq] at h
    exact Limit.text_injective (Limit.canonical_isRegular ha) (Limit.canonical_isRegular hb) h
  obtain ⟨lower, upper⟩ := r
  obtain ⟨lower', upper'⟩ := s
  rcases lower with _ | a <;> rcases upper with _ | b <;> rcases lower' with _ | a' <;>
    rcases upper' with _ | b' <;>
    simp only [limitTexts, canonical, Option.map_some, Option.map_none, Option.toList_some,
      Option.toList_none,
      List.nil_append, List.append_nil, List.singleton_append, List.cons.injEq, and_true,
        reduceCtorEq, and_false] at texts
  · rfl
  · rw [canonical, canonical, Option.map_some, Option.map_some,
      uppers (hr.2 b rfl) (hs.2 b' rfl) texts]
  · exact absurd texts.symm (lowerText_ne_upperText _ _)
  · exact absurd texts (lowerText_ne_upperText _ _)
  · rw [canonical, canonical, Option.map_some, Option.map_some,
      lowers (hr.1 a rfl) (hs.1 a' rfl) texts]
  · rw [canonical, canonical, Option.map_some, Option.map_some, Option.map_some, Option.map_some,
      lowers (hr.1 a rfl) (hs.1 a' rfl) texts.1, uppers (hr.2 b rfl) (hs.2 b' rfl) texts.2]

end Range

/-- A text that can stand for a child in a key. -/
def IsDigest (text : String) : Prop := text.toList.length = 64 ∧ ',' ∉ text.toList

theorem IsDigest.isElement {text : String} (h : IsDigest text) : IsElement text := by
  refine ⟨fun empty => ?_, h.2⟩
  have length := h.1
  rw [empty] at length
  cases length

theorem Digest.isDigest_ofText (text : String) : IsDigest (ofText text) := by
  have digit : ∀ m < 16, Nat.digitChar m ≠ ',' := by decide
  constructor
  · simp [ofText, State.toHex, hexDigits]
  · simp only [ofText, State.toHex, hexDigits, String.toList_ofList, List.mem_flatMap,
      List.mem_map, not_exists, not_and]
    exact fun w _ k _ => digit _ (Nat.mod_lt _ (by decide))

theorem Pattern.source_injective : Function.Injective source := by
  rintro ⟨source⟩ ⟨source'⟩ h
  cases h
  rfl

theorem Step.map_nominal_inj {steps steps' : List Step} :
    steps.map nominal = steps'.map nominal ↔ steps.map name = steps'.map name := by
  have nominal_eq (steps : List Step) :
      steps.map nominal = (steps.map name).map (registered · none) := by
    rw [List.map_map]
    rfl
  have injective : Function.Injective fun name => registered name none :=
    fun _ _ h => by injection h
  rw [nominal_eq, nominal_eq, (List.map_injective_iff.mpr injective).eq_iff]

namespace Constraint

/-- The part of a key for a list, of which nothing is there if it is empty. -/
def part {α : Type u} (name : String) (f : List α → Json) (xs : List α) :
    List (String × Json) :=
  if xs.isEmpty then [] else [(name, f xs)]

theorem part_injective {α : Type u} {name : String} {f : List α → Json}
    (injective : ∀ xs ys, f xs = f ys → xs = ys) {xs ys : List α}
    (h : part name f xs = part name f ys) : xs = ys := by
  unfold part at h
  cases xs <;> cases ys <;> simp at h
  · rfl
  · exact injective _ _ h

def signatureKeys (index : List (Signature String)) : Json :=
  .array (index.map fun s => digests [s.key, s.value])

def sequenceKey (s : Sequence String) : Json :=
  .object [("prefix", digests s.items), ("variadic", (s.rest.map .string).getD .null)]

theorem propsKey_eq (p : Props String) : propsKey p = .object (part "index" signatureKeys p.index ++
    (part "optional" namedDigests p.optional ++ (part "required" namedDigests p.required ++
      (p.sequence.map fun s => ("sequence", sequenceKey s)).toList))) := by
  simp only [propsKey, part, signatureKeys, sequenceKey, List.append_assoc, List.isEmpty_map]
  cases p.sequence <;> rfl

theorem digests_injective (xs ys : List String) (h : digests xs = digests ys) : xs = ys :=
  List.map_injective_iff.mpr (fun _ _ h => Json.string.inj h) (Json.array.inj h)

theorem namedDigests_injective (es fs : List (String × String))
    (h : namedDigests es = namedDigests fs) : es = fs := by
  refine List.map_injective_iff.mpr (fun e f h => ?_) (Json.object.inj h)
  obtain ⟨key, value⟩ := Prod.mk.inj h
  exact Prod.ext key (Json.string.inj value)

theorem signatureKeys_injective (ss ts : List (Signature String))
    (h : signatureKeys ss = signatureKeys ts) : ss = ts := by
  refine List.map_injective_iff.mpr (fun s t h => ?_) (Json.array.inj h)
  have pair := digests_injective _ _ h
  simp only [List.cons.injEq, and_true] at pair
  obtain ⟨key, value⟩ := s
  obtain ⟨key', value'⟩ := t
  rw [Signature.mk.injEq]
  exact pair

theorem sequenceKey_injective {s t : Sequence String} (h : sequenceKey s = sequenceKey t) :
    s = t := by
  obtain ⟨items, rest⟩ := s
  obtain ⟨items', rest'⟩ := t
  simp only [sequenceKey, Json.object.injEq, List.cons.injEq, Prod.mk.injEq, true_and,
    and_true] at h
  rw [digests_injective _ _ h.1]
  cases rest <;> cases rest' <;> simp_all

theorem filter_part {α : Type u} (name found : String) (f : List α → Json) (xs : List α) :
    (part name f xs).filter (fun e => e.1 == found) =
      if name = found then part name f xs else [] := by
  unfold part
  by_cases same : name = found <;> cases xs <;> simp [same]

theorem propsKey_injective {p q : Props String} (h : propsKey p = propsKey q) : p = q := by
  rw [propsKey_eq, propsKey_eq, Json.object.injEq] at h
  have under (name : String) := congrArg (List.filter fun e => e.1 == name) h
  simp only [List.filter_append, filter_part] at under
  obtain ⟨required, optional, index, sequence⟩ := p
  obtain ⟨required', optional', index', sequence'⟩ := q
  have tail (s : Option (Sequence String)) (name : String) :
      ((s.map fun s => ("sequence", sequenceKey s)).toList.filter fun e => e.1 == name) =
        if "sequence" = name then (s.map fun s => ("sequence", sequenceKey s)).toList else [] := by
    cases s with
    | none => simp
    | some s => by_cases same : "sequence" = name <;> simp [same]
  simp only [tail] at under
  have same_index := under "index"
  have same_optional := under "optional"
  have same_required := under "required"
  have same_sequence := under "sequence"
  simp only [String.reduceEq, if_true, if_false, List.append_nil, List.nil_append]
    at same_index same_optional same_required same_sequence
  rw [part_injective signatureKeys_injective same_index,
    part_injective namedDigests_injective same_optional,
    part_injective namedDigests_injective same_required]
  congr 1
  cases sequence <;> cases sequence' <;> simp at same_sequence
  · rfl
  · rw [sequenceKey_injective same_sequence]

theorem digests_isPlain (xs : List String) : (digests xs).isPlain = true := by
  refine Json.arePlain_iff.mpr fun v hv => ?_
  obtain ⟨x, -, rfl⟩ := List.mem_map.mp hv
  rfl

theorem propsKey_isPlain (p : Props String) : (propsKey p).isPlain = true := by
  have named (es : List (String × String)) : (namedDigests es).isPlain = true := by
    refine Json.havePlain_iff.mpr fun e he => ?_
    obtain ⟨x, -, rfl⟩ := List.mem_map.mp he
    rfl
  have signatures (ss : List (Signature String)) : (signatureKeys ss).isPlain = true := by
    refine Json.arePlain_iff.mpr fun v hv => ?_
    obtain ⟨s, -, rfl⟩ := List.mem_map.mp hv
    exact digests_isPlain _
  have items (s : Sequence String) : (sequenceKey s).isPlain = true := by
    refine Json.havePlain_iff.mpr
      (List.forall_mem_cons.mpr ⟨digests_isPlain _, List.forall_mem_singleton.mpr ?_⟩)
    cases s.rest <;> rfl
  have parts {α : Type} {name : String} {f : List α → Json}
      (plain : ∀ xs, (f xs).isPlain = true) (xs : List α) :
      ∀ e ∈ part name f xs, e.2.isPlain = true := by
    unfold part
    split_ifs
    · exact List.forall_mem_nil _
    · exact List.forall_mem_singleton.mpr (plain xs)
  rw [propsKey_eq]
  refine Json.havePlain_iff.mpr ?_
  simp only [List.forall_mem_append]
  refine ⟨parts signatures _, parts named _, parts named _, ?_⟩
  cases p.sequence with
  | none => exact List.forall_mem_nil _
  | some s => exact List.forall_mem_singleton.mpr (items s)

/-- The start of a key tells the kind of the constraint. -/
def mark {α : Type u} : Constraint α → String
  | domain _ => "doma"
  | literal _ => "unit"
  | patterns _ => "patt"
  | bound _ => "boun"
  | divisor _ => "divi"
  | basis _ => "basi"
  | props _ => "prop"
  | morph _ _ => "morp"
  | union _ => "unio"
  | intersection _ => "inte"
  | brand _ => "bran"
  | deferred _ _ => "alia"

theorem take_key (c : Constraint String) : c.key.toList.take 4 = c.mark.toList := by
  cases c <;> simp [key, mark]

/-- Constraints have the same key only if they differ in nothing but what is erased. -/
theorem key_injective {c e : Constraint String} (hc : ∀ t ∈ c.children, IsDigest t)
    (he : ∀ t ∈ e.children, IsDigest t) (finite : ∀ r, c = bound r → r.IsFinite)
    (finite' : ∀ r, e = bound r → r.IsFinite) (h : c.key = e.key) : c.erased = e.erased := by
  have marks : c.mark = e.mark := String.toList_injective (by rw [← take_key, h, take_key])
  have listed {xs ys : List String} (hx : ∀ t ∈ xs, IsDigest t) (hy : ∀ t ∈ ys, IsDigest t)
      (h : String.intercalate "," xs = String.intercalate "," ys) : xs = ys :=
    intercalate_injective (fun t ht => (hx t ht).isElement) (fun t ht => (hy t ht).isElement) h
  cases c <;> cases e <;> simp only [mark, String.reduceEq] at marks <;>
    simp only [key, String.append_assoc, String.append_right_inj, String.append_left_inj] at h
  case domain.domain d d' => cases d <;> cases d' <;> first | rfl | exact absurd h (by decide)
  case literal.literal a b => rw [Literal.expression_injective h]
  case basis.basis a b => cases a <;> cases b <;> first | rfl | exact absurd h (by decide)
  case bound.bound r s =>
    exact congrArg bound (Range.key_injective (finite r rfl) (finite' s rfl) h)
  case divisor.divisor m n =>
    have digits : (Nat.repr m).toList = (Nat.repr n).toList := congrArg String.toList h
    rw [Nat.toList_repr, Nat.toList_repr] at digits
    rw [← Decimal.valueOf_toDigits m, digits, Decimal.valueOf_toDigits]
  case patterns.patterns ps qs =>
    have sources := digests_injective _ _
        (Json.toText_injective (digests_isPlain _) (digests_isPlain _) h)
    rw [List.map_injective_iff.mpr Pattern.source_injective sources]
  case props.props p q =>
    rw [propsKey_injective (Json.toText_injective (propsKey_isPlain p) (propsKey_isPlain q) h)]
  case brand.brand a b => rw [h]
  case deferred.deferred a _ b _ => rw [erased, erased, h]
  case morph.morph x xs y ys =>
    have lists := congrArg String.toList h
    simp only [String.toList_append] at lists
    have lengths := (hc x List.mem_cons_self).1.trans (he y List.mem_cons_self).1.symm
    obtain ⟨inputs, steps⟩ := List.append_inj lists lengths
    have names := digests_injective _ _
        (Json.toText_injective (digests_isPlain _) (digests_isPlain _)
      (String.toList_injective (List.append_cancel_left steps)))
    rw [erased, erased, Step.map_nominal_inj.mpr names, String.toList_injective inputs]
  case union.union xs ys => exact congrArg union (listed hc he h)
  case intersection.intersection xs ys => exact congrArg intersection (listed hc he h)

end Constraint

namespace Node

theorem key_of (c : Constraint Node) : (of c).key = (c.map digest).key := by
  rw [key, fold_of, Constraint.map_map]
  rfl

/-- Nodes with different keys have different digests, throughout a set of nodes. -/
def Distinguished (K : Node → Prop) : Prop := ∀ a b, K a → K b → a.digest = b.digest →
    a.key = b.key

/-- Where no two keys have the same digest and numbers are finite, only nodes that are the same have
the same key. -/
theorem same_of_key {K : Node → Prop} (bounded : ∀ r, K (of (.bound r)) → r.IsFinite)
    (children : ∀ c : Constraint Node, K (of c) → ∀ m ∈ c.children, K m)
    (distinguished : Distinguished K) {a b : Node} (ha : K a) (hb : K b) (h : a.key = b.key) :
    a.same b = true := by
  induction a using inductionOn generalizing b with
  | step c ih =>
    obtain ⟨e⟩ := b
    have digests (c : Constraint Node) : ∀ t ∈ (c.map digest).children, IsDigest t := by
      rw [Constraint.children_map]
      intro t ht
      obtain ⟨m, -, rfl⟩ := List.mem_map.mp ht
      exact Digest.isDigest_ofText _
    have finite {c : Constraint Node} (hc : K (of c)) (r : Range)
        (bound : c.map digest = .bound r) : r.IsFinite := by
      cases c <;> cases bound
      exact bounded r hc
    rw [key_of, key_of] at h
    have same := Constraint.key_injective (digests c) (digests e) (finite ha) (finite hb) h
    have heads := congrArg Constraint.head same
    rw [Constraint.head_erased, Constraint.head_erased, Constraint.head_map,
      Constraint.head_map] at heads
    have parts := congrArg Constraint.children same
    rw [Constraint.children_erased, Constraint.children_erased, Constraint.children_map,
      Constraint.children_map] at parts
    rw [same_iff, ← sameThroughout_iff, sameThroughout_of]
    refine ⟨heads, ?_⟩
    rw [← List.forall₂_eq_eq_eq, List.forall₂_map_left_iff,
      List.forall₂_map_right_iff] at parts
    have inside := ((List.forall₂_and_left ..).mpr
        ⟨fun k (hk : k ∈ e.children) => hk, parts.flip⟩).flip
    refine (List.forall₂_and_left ..).mpr ⟨fun m hm => hm, inside⟩ |>.imp fun m k h => ?_
    obtain ⟨hm, hk, digest⟩ := h
    have left := children c ha m hm
    have right := children e hb k hk
    exact (sameThroughout_iff m k).mpr
      (same_iff.mp (ih m hm left right (distinguished m k left right digest)))

end Node

end SchemaAlgebra

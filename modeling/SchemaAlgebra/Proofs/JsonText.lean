import Mathlib.Data.List.Basic
import SchemaAlgebra.Json.Text

/-!
# Texts of JSON values

The text of a JSON value without numbers shows where it ends, so it is read back with
whatever follows it, and different values have different texts.
-/
namespace SchemaAlgebra.Json

/-- The character that a letter behind a backslash stands for. -/
def marked : Char → Char
  | 'n' => '\n'
  | 'r' => '\r'
  | 't' => '\t'
  | 'b' => '\x08'
  | 'f' => '\x0c'
  | x => x

theorem escape_cases (c : Char) :
    (escape c = [c] ∧ c ≠ '"' ∧ c ≠ '\\') ∨
      (∃ x, escape c = ['\\', x] ∧ x ≠ 'u' ∧ c = marked x) ∨
      c.toNat < 32 ∧ escape c =
        ['\\', 'u', '0', '0', hexDigit (c.toNat / 16), hexDigit (c.toNat % 16)] := by
  unfold escape
  split_ifs with quote backslash newline carriage tab backspace feed control
  · exact .inr (.inl ⟨'"', rfl, by decide, quote⟩)
  · exact .inr (.inl ⟨'\\', rfl, by decide, backslash⟩)
  · exact .inr (.inl ⟨'n', rfl, by decide, newline⟩)
  · exact .inr (.inl ⟨'r', rfl, by decide, carriage⟩)
  · exact .inr (.inl ⟨'t', rfl, by decide, tab⟩)
  · exact .inr (.inl ⟨'b', rfl, by decide, backspace⟩)
  · exact .inr (.inl ⟨'f', rfl, by decide, feed⟩)
  · exact .inr (.inr ⟨control, rfl⟩)
  · exact .inl ⟨rfl, quote, backslash⟩

theorem hexDigit_pair_injective : ∀ m n : Fin 32,
    hexDigit (m / 16) = hexDigit (n / 16) → hexDigit (m % 16) = hexDigit (n % 16) → m = n := by
  decide

theorem escape_append_inj {c d : Char} {s t : List Char} (h : escape c ++ s = escape d ++ t) :
    c = d ∧ s = t := by
  rcases escape_cases c with ⟨hc, quote, slash⟩ | ⟨x, hc, hx, rfl⟩ | ⟨small, hc⟩ <;>
    rcases escape_cases d with ⟨hd, quote', slash'⟩ | ⟨y, hd, hy,
      rfl⟩ | ⟨small', hd⟩ <;>
    rw [hc, hd] at h <;>
    simp only [List.cons_append, List.nil_append, List.cons.injEq, true_and] at h
  · exact h
  · exact absurd h.1 slash
  · exact absurd h.1 slash
  · exact absurd h.1.symm slash'
  · exact ⟨congrArg marked h.1, h.2⟩
  · exact absurd h.1 hx
  · exact absurd h.1.symm slash'
  · exact absurd h.1.symm hy
  · have same := hexDigit_pair_injective ⟨_, small⟩ ⟨_, small'⟩ h.1 h.2.1
    exact ⟨Char.toNat_inj.mp (Fin.mk.inj same), h.2.2⟩

theorem escape_ne_quote {c : Char} {s t : List Char} : escape c ++ s ≠ '"' :: t := by
  rcases escape_cases c with ⟨hc, quote, -⟩ | ⟨x, hc, -⟩ | ⟨-, hc⟩ <;>
    rw [hc] <;> simp_all

theorem escapes_append_inj {cs ds s t : List Char}
    (h : cs.flatMap escape ++ '"' :: s = ds.flatMap escape ++ '"' :: t) : cs = ds ∧ s = t := by
  induction cs generalizing ds with
  | nil =>
    cases ds with
    | nil => exact ⟨rfl, (List.cons.inj h).2⟩
    | cons d ds =>
      rw [List.flatMap_cons, List.append_assoc] at h
      exact absurd h.symm escape_ne_quote
  | cons c cs ih =>
    rw [List.flatMap_cons, List.append_assoc] at h
    cases ds with
    | nil => exact absurd h escape_ne_quote
    | cons d ds =>
      rw [List.flatMap_cons, List.append_assoc] at h
      obtain ⟨same, rest⟩ := escape_append_inj h
      obtain ⟨same', rest⟩ := ih rest
      exact ⟨congrArg₂ List.cons same same', rest⟩

theorem toList_quoted (text : String) :
    (quoted text).toList = '"' :: (text.toList.flatMap escape ++ ['"']) := by
  simp [quoted]

theorem quoted_append_inj {a b : String} {s t : List Char}
    (h : (quoted a).toList ++ s = (quoted b).toList ++ t) : a = b ∧ s = t := by
  simp only [toList_quoted, List.cons_append, List.append_assoc, List.nil_append, List.cons.injEq,
    true_and] at h
  obtain ⟨same, rest⟩ := escapes_append_inj h
  exact ⟨String.toList_injective same, rest⟩

mutual

/-- Made of texts and nothing else; the text of a number would not show where it ends. -/
def isPlain : Json → Bool
  | null => true
  | bool _ => false
  | number _ => false
  | string _ => true
  | array items => arePlain items
  | object entries => havePlain entries

def arePlain : List Json → Bool
  | [] => true
  | v :: r => isPlain v && arePlain r

def havePlain : List (String × Json) → Bool
  | [] => true
  | (_, v) :: r => isPlain v && havePlain r

end

theorem arePlain_iff {items : List Json} : arePlain items = true ↔
    ∀ v ∈ items, v.isPlain = true := by
  induction items with
  | nil => simp [arePlain]
  | cons v r ih => rw [arePlain, Bool.and_eq_true, ih, List.forall_mem_cons]

theorem havePlain_iff {entries : List (String × Json)} :
    havePlain entries = true ↔ ∀ e ∈ entries, e.2.isPlain = true := by
  induction entries with
  | nil => simp [havePlain]
  | cons e r ih => rw [havePlain, Bool.and_eq_true, ih, List.forall_mem_cons]

/-- The texts behind one another, each but the first behind the separator. -/
theorem toList_intercalate_cons (separator x : String) (xs : List String) :
    (String.intercalate separator (x :: xs)).toList = x.toList ++ xs.flatMap fun t =>
      separator.toList ++ t.toList := by
  rw [String.toList_intercalate]
  induction xs generalizing x with
  | nil => simp [List.intercalate]
  | cons y ys ih =>
    have next := ih y
    simp only [List.map_cons, List.intercalate, List.intersperse, List.flatten_cons] at next ⊢
    rw [next]
    simp

theorem toList_intercalate_comma (x : String) (xs : List String) :
    (String.intercalate "," (x :: xs)).toList = x.toList ++ xs.flatMap fun t => ',' :: t.toList :=
  toList_intercalate_cons "," x xs

/-- The items behind the first with the end of the array. -/
def itemTail (items : List Json) : List Char :=
  (itemTexts items).flatMap (fun t => ',' :: t.toList) ++ [']']

def entryTail (entries : List (String × Json)) : List Char :=
  (entryTexts entries).flatMap (fun t => ',' :: t.toList) ++ ['\x7d']

theorem itemTail_cons (v : Json) (r : List Json) :
    itemTail (v :: r) = ',' :: (v.toText.toList ++ itemTail r) := by
  simp [itemTail, itemTexts]

theorem entryTail_cons (k : String) (v : Json) (r : List (String × Json)) :
    entryTail ((k, v) :: r) =
      ',' :: ((quoted k).toList ++ ':' :: (v.toText.toList ++ entryTail r)) := by
  simp [entryTail, entryTexts]

theorem toText_array (v : Json) (r : List Json) :
    (toText (array (v :: r))).toList = '[' :: (v.toText.toList ++ itemTail r) := by
  simp only [toText, itemTexts, String.toList_append, toList_intercalate_comma,
    List.append_assoc, itemTail]
  rfl

theorem toText_object (k : String) (v : Json) (r : List (String × Json)) :
    (toText (object ((k, v) :: r))).toList =
      '\x7b' :: ((quoted k).toList ++ ':' :: (v.toText.toList ++ entryTail r)) := by
  have brace : "\x7b".toList = ['\x7b'] := rfl
  have colon : ":".toList = [':'] := rfl
  have closed : "\x7d".toList = ['\x7d'] := rfl
  simp only [toText, entryTexts, String.toList_append, toList_intercalate_comma, entryTail, brace,
    colon, closed, List.append_assoc, List.cons_append, List.nil_append]

theorem toText_ne_bracket {a : Json} (ha : a.isPlain = true) {s t : List Char} :
    a.toText.toList ++ s ≠ ']' :: t := by
  cases a with
  | null => simp [toText]
  | bool b => cases ha
  | number n => cases ha
  | string text => simp [toText, toList_quoted]
  | array items => simp [toText]
  | object entries => simp [toText]

/-- The first character tells the kind of a value. -/
def opening : Json → Char
  | null => 'n'
  | bool _ => 't'
  | number _ => '0'
  | string _ => '"'
  | array _ => '['
  | object _ => '\x7b'

theorem toText_opening {a : Json} (ha : a.isPlain = true) :
    ∃ r, a.toText.toList = a.opening :: r := by
  cases a with
  | null => exact ⟨_, rfl⟩
  | bool b => cases ha
  | number n => cases ha
  | string text => exact ⟨_, toList_quoted text⟩
  | array items => exact ⟨_, by rw [toText, String.append_assoc, String.toList_append]; rfl⟩
  | object entries => exact ⟨_, by rw [toText, String.append_assoc, String.toList_append]; rfl⟩

theorem opening_of_append {a b : Json} (ha : a.isPlain = true) (hb : b.isPlain = true)
    {s t : List Char} (h : a.toText.toList ++ s = b.toText.toList ++ t) :
    b.opening = a.opening := by
  obtain ⟨x, hx⟩ := toText_opening ha
  obtain ⟨y, hy⟩ := toText_opening hb
  rw [hx, hy] at h
  exact (List.cons.inj h).1.symm

theorem eq_of_opening {b : Json} :
    (b.opening = 'n' → b = null) ∧ (b.opening = '"' → ∃ x, b = string x) ∧
      (b.opening = '[' → ∃ items, b = array items) ∧
        (b.opening = '\x7b' → ∃ entries, b = object entries) := by
  cases b <;> simp [opening]

mutual

/-- The text of a value made of texts is read back with what follows it. -/
theorem toText_append_inj (a b : Json) (ha : a.isPlain = true) (hb : b.isPlain = true)
    (s t : List Char) (h : a.toText.toList ++ s = b.toText.toList ++ t) : a = b ∧ s = t := by
  have opened := opening_of_append ha hb h
  cases a with
  | null =>
    obtain rfl := eq_of_opening.1 opened
    exact ⟨rfl, List.append_cancel_left h⟩
  | bool _ => cases ha
  | number _ => cases ha
  | string x =>
    obtain ⟨y, rfl⟩ := eq_of_opening.2.1 opened
    rw [toText, toText] at h
    obtain ⟨same, rest⟩ := quoted_append_inj h
    exact ⟨congrArg string same, rest⟩
  | array items =>
    obtain ⟨others, rfl⟩ := eq_of_opening.2.2.1 opened
    obtain ⟨same, rest⟩ := array_append_inj items others ha hb s t h
    exact ⟨congrArg array same, rest⟩
  | object entries =>
    obtain ⟨others, rfl⟩ := eq_of_opening.2.2.2 opened
    obtain ⟨same, rest⟩ := object_append_inj entries others ha hb s t h
    exact ⟨congrArg object same, rest⟩

theorem array_append_inj (r q : List Json) (hr : arePlain r = true) (hq : arePlain q = true)
    (s t : List Char) (h : (toText (array r)).toList ++ s = (toText (array q)).toList ++ t) :
    r = q ∧ s = t := by
  match r, q with
  | [], [] => exact ⟨rfl, List.append_cancel_left h⟩
  | [], w :: q =>
    rw [toText_array, List.cons_append, List.append_assoc] at h
    exact absurd (List.cons.inj h).2.symm (toText_ne_bracket (Bool.and_eq_true_iff.mp hq).1)
  | v :: r, [] =>
    rw [toText_array, List.cons_append, List.append_assoc] at h
    exact absurd (List.cons.inj h).2 (toText_ne_bracket (Bool.and_eq_true_iff.mp hr).1)
  | v :: r, w :: q =>
    simp only [toText_array, List.cons_append, List.append_assoc, List.cons.injEq, true_and] at h
    obtain ⟨hv, plain⟩ := Bool.and_eq_true_iff.mp hr
    obtain ⟨hw, plain'⟩ := Bool.and_eq_true_iff.mp hq
    obtain ⟨rfl, behind⟩ := toText_append_inj v w hv hw _ _ h
    obtain ⟨rfl, rest⟩ := itemTail_append_inj r q plain plain' _ _ behind
    exact ⟨rfl, rest⟩

theorem object_append_inj (r q : List (String × Json)) (hr : havePlain r = true)
    (hq : havePlain q = true) (s t : List Char)
    (h : (toText (object r)).toList ++ s = (toText (object q)).toList ++ t) : r = q ∧ s = t := by
  match r, q with
  | [], [] => exact ⟨rfl, List.append_cancel_left h⟩
  | [], (k', w) :: q =>
    rw [toText_object, toList_quoted] at h
    exact absurd (List.cons.inj (List.cons.inj h).2).1 (by decide)
  | (k, v) :: r, [] =>
    rw [toText_object, toList_quoted] at h
    exact absurd (List.cons.inj (List.cons.inj h).2).1 (by decide)
  | (k, v) :: r, (k', w) :: q =>
    simp only [toText_object, List.cons_append, List.append_assoc, List.cons.injEq, true_and] at h
    obtain ⟨hv, plain⟩ := Bool.and_eq_true_iff.mp hr
    obtain ⟨hw, plain'⟩ := Bool.and_eq_true_iff.mp hq
    obtain ⟨rfl, value⟩ := quoted_append_inj h
    obtain ⟨rfl, behind⟩ := toText_append_inj v w hv hw _ _ (List.cons.inj value).2
    obtain ⟨rfl, rest⟩ := entryTail_append_inj r q plain plain' _ _ behind
    exact ⟨rfl, rest⟩

theorem itemTail_append_inj (r q : List Json) (hr : arePlain r = true) (hq : arePlain q = true)
    (s t : List Char) (h : itemTail r ++ s = itemTail q ++ t) : r = q ∧ s = t := by
  match r, q with
  | [], [] => exact ⟨rfl, List.append_cancel_left h⟩
  | [], w :: q =>
    rw [itemTail_cons] at h
    exact absurd (List.cons.inj h).1 (by decide)
  | v :: r, [] =>
    rw [itemTail_cons] at h
    exact absurd (List.cons.inj h).1 (by decide)
  | v :: r, w :: q =>
    simp only [itemTail_cons, List.cons_append, List.append_assoc, List.cons.injEq, true_and] at h
    obtain ⟨hv, plain⟩ := Bool.and_eq_true_iff.mp hr
    obtain ⟨hw, plain'⟩ := Bool.and_eq_true_iff.mp hq
    obtain ⟨rfl, behind⟩ := toText_append_inj v w hv hw _ _ h
    obtain ⟨rfl, rest⟩ := itemTail_append_inj r q plain plain' _ _ behind
    exact ⟨rfl, rest⟩

theorem entryTail_append_inj (r q : List (String × Json)) (hr : havePlain r = true)
    (hq : havePlain q = true) (s t : List Char) (h : entryTail r ++ s = entryTail q ++ t) :
    r = q ∧ s = t := by
  match r, q with
  | [], [] => exact ⟨rfl, List.append_cancel_left h⟩
  | [], (k', w) :: q =>
    rw [entryTail_cons] at h
    exact absurd (List.cons.inj h).1 (by decide)
  | (k, v) :: r, [] =>
    rw [entryTail_cons] at h
    exact absurd (List.cons.inj h).1 (by decide)
  | (k, v) :: r, (k', w) :: q =>
    simp only [entryTail_cons, List.cons_append, List.append_assoc, List.cons.injEq, true_and] at h
    obtain ⟨hv, plain⟩ := Bool.and_eq_true_iff.mp hr
    obtain ⟨hw, plain'⟩ := Bool.and_eq_true_iff.mp hq
    obtain ⟨rfl, value⟩ := quoted_append_inj h
    obtain ⟨rfl, behind⟩ := toText_append_inj v w hv hw _ _ (List.cons.inj value).2
    obtain ⟨rfl, rest⟩ := entryTail_append_inj r q plain plain' _ _ behind
    exact ⟨rfl, rest⟩

end

theorem toText_injective {a b : Json} (ha : a.isPlain = true) (hb : b.isPlain = true)
    (h : a.toText = b.toText) : a = b :=
  (toText_append_inj a b ha hb [] [] (by rw [h])).1

end SchemaAlgebra.Json

import Mathlib.Data.List.TakeWhile
import SchemaAlgebra.Proofs.Written

/-!
# The tokens of texts

Every token but the end takes at least one character, so the tokens of a text need no bound
on their number. What stands before a mark is scanned by itself.
-/
namespace SchemaAlgebra.Scan

theorem enclosed_length (d : Char) (text cs : List Char) :
    (enclosed d text cs).rest.length ≤ cs.length := by
  fun_induction enclosed d text cs with
  | case1 => rfl
  | case2 => exact Nat.zero_le _
  | case3 text c r ih => exact ih.trans (Nat.le_add_right _ 2)
  | case4 text r _ => exact Nat.le_succ _
  | case5 text c r _ _ _ ih => exact ih.trans (Nat.le_succ _)

theorem startingWith_length (c : Char) (r : List Char) :
    (startingWith c r).rest.length ≤ r.length := by
  have compared (s i : Comparator) : (compared s i r).rest.length ≤ r.length := by
    unfold Scan.compared
    split
    · exact Nat.le_succ _
    · exact Nat.le_refl _
  have dropped (p : Char → Bool) : (r.dropWhile p).length ≤ r.length :=
    (r.dropWhile_suffix p).length_le
  unfold startingWith
  split
  case h_9 =>
    unfold afterEquals
    split
    · exact Nat.le_succ _
    · exact Nat.le_refl _
  case h_10 =>
    have skipped : (skipBlanks r).length ≤ r.length := dropped _
    unfold afterBracket
    split
    · rename_i rest found
      rw [found] at skipped
      exact (Nat.le_succ _).trans skipped
    · exact skipped
  case h_12 =>
    unfold afterHash
    dsimp only
    split_ifs <;> exact dropped _
  all_goals first
    | exact Nat.le_refl _
    | exact compared _ _
    | exact enclosed_length _ _ _
    | exact dropped _

theorem first_length {cs : List Char} (h : (first cs).token ≠ .ok .finish) :
    (first cs).rest.length < cs.length := by
  have skipped : (skipBlanks cs).length ≤ cs.length := (cs.dropWhile_suffix _).length_le
  unfold first at h ⊢
  cases found : skipBlanks cs with
  | nil =>
    rw [found] at h
    exact absurd rfl h
  | cons c r =>
    rw [found] at skipped
    exact Nat.lt_of_le_of_lt (startingWith_length c r) skipped

/-- The tokens of the characters up to their end or the first fault. -/
def tokens (cs : List Char) : List (Except Fault Token) := upTo (cs.length + 1) cs

theorem all_eq (text : String) : all text = tokens text.toList := by
  rw [all, tokens, String.length_toList]

/-- The bound on the number of tokens does not matter if it is large enough. -/
theorem upTo_eq {n : Nat} {cs : List Char} (enough : cs.length < n) : upTo n cs = tokens cs := by
  have steady (n m : Nat) (cs : List Char) (hn : cs.length < n) (hm : cs.length < m) :
      upTo n cs = upTo m cs := by
    induction n generalizing m cs with
    | zero => omega
    | succ n ih =>
      cases m with
      | zero => omega
      | succ m =>
        simp only [upTo]
        split
        · rfl
        · rename_i t unfinished found
          have shorter : (first cs).rest.length < cs.length :=
            first_length fun finished => unfinished (by rw [finished] at found; cases found; rfl)
          rw [ih m (first cs).rest (by omega) (by omega)]
        · rfl
  exact steady n (cs.length + 1) cs enough (Nat.lt_succ_self _)

theorem tokens_cons {cs rest : List Char} {t : Token} (h : first cs = ok t rest)
    (unfinished : t ≠ .finish) : tokens cs = .ok t :: tokens rest := by
  have shorter : (first cs).rest.length < cs.length :=
    first_length (by rw [h]; exact fun finished => unfinished (by cases finished; rfl))
  rw [h] at shorter
  rw [← upTo_eq (show rest.length < cs.length from shorter)]
  simp only [tokens, upTo, h, ok]

@[simp] theorem tokens_nil : tokens [] = [.ok .finish] := rfl

theorem startingWith_word {c : Char} (unmarked : isMark c = false) (r : List Char) :
    startingWith c r = ok (.word (String.ofList (c :: r.takeWhile isWordChar)))
      (r.dropWhile isWordChar) := by
  unfold startingWith
  split <;> first | rfl | exact absurd unmarked (by decide)

/-- What is scanned of a character other than a blank does not depend on what stands before it. -/
theorem first_cons {c : Char} (visible : Text.isBlank c = false) (r : List Char) :
    first (c :: r) = startingWith c r := by
  rw [first, skipBlanks, List.dropWhile_cons_of_neg (by rw [visible]; exact Bool.false_ne_true)]

theorem enclosed_plain (d : Char) (text : List Char) {c : Char} (plain : c ≠ '\\')
    (r : List Char) : enclosed d text (c :: r) =
      if c = d then ok (.enclosed d (String.ofList text.reverse)) r else enclosed d (c :: text) r :=
  enclosed.eq_4 d text c r (fun h _ => plain h) fun _ _ h _ => plain h

theorem enclosed_escaped {d : Char} (quote : d ≠ '/') (visible : d ≠ '\\')
    (text cs rest : List Char) : enclosed d text (Literal.escaped d cs ++ d :: rest) =
      ok (.enclosed d (String.ofList (text.reverse ++ cs))) rest := by
  induction cs generalizing text with
  | nil =>
    rw [Literal.escaped, List.nil_append, List.append_nil, enclosed_plain d text visible,
      if_pos rfl]
  | cons c cs ih =>
    rw [Literal.escaped]
    split_ifs with special
    · have escape : escape d c = [c] := by
        rw [Scan.escape, if_pos]
        simpa [quote, or_comm] using special
      rw [List.cons_append, List.cons_append, enclosed.eq_3, escape, ih]
      simp
    · obtain ⟨plain, inner⟩ : c ≠ '\\' ∧ c ≠ d := by simpa using special
      rw [List.cons_append, enclosed_plain d text plain, if_neg inner, ih]
      simp

theorem delimiter_cases (text : List Char) :
    Literal.delimiter text = '\'' ∨ Literal.delimiter text = '"' := by
  rw [Literal.delimiter]
  split_ifs
  · exact .inr rfl
  · exact .inl rfl

/-- A quoted text is one token, and nothing behind it belongs to the token. -/
theorem first_quoted (text : String) (rest : List Char) :
    first ((Literal.quoted text).toList ++ rest) =
        ok (.enclosed (Literal.delimiter text.toList) text) rest := by
  obtain ⟨quote, visible, opened⟩ :
      Literal.delimiter text.toList ≠ '/' ∧ Literal.delimiter text.toList ≠ '\\' ∧
      ∀ cs, first (Literal.delimiter text.toList :: cs) = enclosed (Literal.delimiter text.toList)
        [] cs := by
    rcases delimiter_cases text.toList with single | double
    · rw [single]
      exact ⟨by decide, by decide, fun _ => rfl⟩
    · rw [double]
      exact ⟨by decide, by decide, fun _ => rfl⟩
  have scanned := enclosed_escaped quote visible [] text.toList rest
  rw [Literal.quoted, String.toList_ofList]
  simpa [opened] using scanned

/-- A word ends before a character that cannot belong to it. -/
def Ends (rest : List Char) : Prop := ∀ c ∈ rest.head?, isWordChar c = false

theorem ends_nil : Ends [] := nofun

theorem ends_cons {c : Char} (h : isWordChar c = false) (r : List Char) : Ends (c :: r) := by
  intro d hd
  cases hd
  exact h

theorem takeWhile_word {w rest : List Char} (word : ∀ c ∈ w, isWordChar c = true)
    (ends : Ends rest) :
    (w ++ rest).takeWhile isWordChar = w ∧ (w ++ rest).dropWhile isWordChar = rest := by
  rw [List.takeWhile_append_of_pos word, List.dropWhile_append_of_pos word]
  cases rest with
  | nil => simp
  | cons c r =>
    have ended := ends c rfl
    simp [ended]

/-- The characters are the tokens, whatever follows them behind a mark. -/
def Spells (cs : List Char) (ts : List Token) : Prop :=
  ∀ rest, Ends rest → tokens (cs ++ rest) = ts.map .ok ++ tokens rest

namespace Spells

theorem tokens_eq {cs : List Char} {ts : List Token} (h : Spells cs ts) :
    tokens cs = ts.map .ok ++ [.ok .finish] := by
  simpa using h [] ends_nil

theorem append {cs ds : List Char} {ts us : List Token} (h : Spells cs ts) (later : Spells ds us)
    (ends : Ends ds) (some_later : ds ≠ []) : Spells (cs ++ ds) (ts ++ us) := by
  intro rest hr
  have joint : Ends (ds ++ rest) := by
    obtain ⟨d, r, rfl⟩ := List.exists_cons_of_ne_nil some_later
    exact ends
  rw [List.append_assoc, h (ds ++ rest) joint, later rest hr, List.map_append, List.append_assoc]

theorem of_first {cs ds : List Char} {t : Token} {ts : List Token}
    (scanned : ∀ rest, first (cs ++ rest) = ok t rest) (unfinished : t ≠ .finish)
    (later : Spells ds ts) : Spells (cs ++ ds) (t :: ts) := by
  intro rest hr
  rw [List.append_assoc, tokens_cons (scanned _) unfinished, later rest hr]
  rfl

theorem word {w : List Char} (some_char : w ≠ []) (word : ∀ c ∈ w, isWordChar c = true) :
    Spells w [.word (String.ofList w)] := by
  obtain ⟨c, r, rfl⟩ := List.exists_cons_of_ne_nil some_char
  intro rest ends
  have first_char := word c List.mem_cons_self
  rw [isWordChar, Bool.and_eq_true, Bool.not_eq_true', Bool.not_eq_true'] at first_char
  obtain ⟨taken, dropped⟩ :=
    takeWhile_word (fun d hd => word d (List.mem_cons_of_mem c hd)) ends
  refine tokens_cons ?_ nofun
  rw [List.cons_append, first_cons first_char.1, startingWith_word first_char.2, taken, dropped]

theorem brand {name : String} (some_char : name ≠ "")
    (word : ∀ c ∈ name.toList, isWordChar c = true) :
    Spells ('#' :: name.toList) [.brand name] := by
  intro rest ends
  obtain ⟨taken, dropped⟩ := takeWhile_word word ends
  refine tokens_cons ?_ nofun
  change afterHash (name.toList ++ rest) = _
  have named : name.toList.isEmpty = false := by
    rw [List.isEmpty_eq_false_iff, ne_eq, String.toList_eq_nil_iff]
    exact some_char
  simp only [afterHash, taken, dropped, named, Bool.false_eq_true, if_false, String.ofList_toList]

theorem quoted (text : String) :
    ∃ d, d ≠ '/' ∧ Spells (Literal.quoted text).toList [.enclosed d text] := by
  refine ⟨Literal.delimiter text.toList, ?_, fun _ _ => tokens_cons (first_quoted text _) nofun⟩
  rcases delimiter_cases text.toList with single | double
  · rw [single]
    decide
  · rw [double]
    decide

theorem pattern [Library] {p : Pattern} (written : p.IsWritten) :
    Spells p.expression.toList [.enclosed '/' p.source] := by
  intro rest ends
  refine tokens_cons ?_ nofun
  have text : p.expression.toList ++ rest = '/' :: (p.source.toList ++ '/' :: rest) := by
    simp [Pattern.expression]
  rw [text]
  exact written.2 rest

theorem list : Spells ['[', ']'] [.list] := fun _ _ => tokens_cons (t := .list) rfl nofun

theorem comparator (c : Comparator) {ds : List Char} {ts : List Token} (later : Spells ds ts)
    (apart : ∀ d ∈ ds.head?, d ≠ '=') (some_later : ds ≠ []) :
    Spells (c.text.toList ++ ds) (.comparator c :: ts) := by
  intro rest ends
  obtain ⟨d, r, rfl⟩ := List.exists_cons_of_ne_nil some_later
  have scanned : first (c.text.toList ++ (d :: r ++ rest)) = ok (.comparator c)
      (d :: r ++ rest) := by
    have strict (strict inclusive : Comparator) :
        compared strict inclusive (d :: r ++ rest) = ok (.comparator strict) (d :: r ++ rest) := by
      rw [List.cons_append]
      unfold compared
      split
      · rename_i heq
        cases heq
        exact absurd rfl (apart _ rfl)
      · rfl
    cases c with
    | lt => exact strict _ _
    | gt => exact strict _ _
    | _ => rfl
  rw [List.append_assoc, tokens_cons scanned nofun, later rest ends]
  rfl

/-- Texts behind one another, each of them behind the same mark. -/
theorem separated {cs : List Char} {ts : List Token} (h : Spells cs ts) {c : Char} {t : Token}
    (mark : isWordChar c = false) (scanned : ∀ rest, first (c :: rest) = ok t rest)
    (unfinished : t ≠ .finish) {α : Type u} {text : α → List Char}
    {spelled : α → List Token} {later : List α}
    (each : ∀ a ∈ later, Spells (text a) (spelled a)) :
    Spells (cs ++ later.flatMap fun a => c :: text a)
      (ts ++ later.flatMap fun a => t :: spelled a) := by
  induction later generalizing cs ts with
  | nil => simpa using h
  | cons a later ih =>
    obtain ⟨next, each⟩ := List.forall_mem_cons.mp each
    have spelled : Spells ([c] ++ text a) (t :: _) := of_first scanned unfinished next
    have behind := h.append spelled (ends_cons mark _) nofun
    simpa using ih behind each

end Spells

/-- What holds of the text of a scanned token. -/
def Formed : Token → Prop
  | .word text => text ≠ "" ∧ ∀ c ∈ text.toList, isWordChar c = true
  | .brand name => name ≠ "" ∧ ∀ c ∈ name.toList, isWordChar c = true
  | .enclosed d source => d = '/' →
      ∀ rest, enclosed '/' [] (source.toList ++ '/' :: rest) = ok (.enclosed '/' source) rest
  | _ => True

theorem enclosed_delimiter {d : Char} {text cs : List Char} {t : Token}
    (h : (enclosed d text cs).token = .ok t) : ∃ source, t = .enclosed d source := by
  fun_induction enclosed d text cs with
  | case1 => cases h
  | case2 => cases h
  | case3 text c r ih => exact ih h
  | case4 text r =>
    cases h
    exact ⟨_, rfl⟩
  | case5 text c r _ _ _ ih => exact ih h

/-- The source of a regular expression is scanned again wherever it stands between slashes. -/
theorem enclosed_body {text cs : List Char} {source : String}
    (h : (enclosed '/' text cs).token = .ok (.enclosed '/' source)) :
    ∃ body, source = String.ofList (text.reverse ++ body) ∧ ∀ before rest,
      enclosed '/' before (body ++ '/' :: rest) =
        ok (.enclosed '/' (String.ofList (before.reverse ++ body))) rest := by
  generalize same : '/' = d at h
  fun_induction enclosed d text cs with
  | case1 => cases h
  | case2 => cases h
  | case3 text c r ih =>
    subst same
    obtain ⟨body, rfl, again⟩ := ih h
    refine ⟨'\\' :: c :: body, by simp [escape], fun before rest => ?_⟩
    rw [List.cons_append, List.cons_append, enclosed.eq_3, again]
    simp [escape]
  | case4 text r =>
    subst same
    cases h
    refine ⟨[], by simp, fun before rest => ?_⟩
    simp [enclosed_plain '/' before (by decide : '/' ≠ '\\')]
  | case5 text c r single double different ih =>
    subst same
    obtain ⟨body, rfl, again⟩ := ih h
    have plain : c ≠ '\\' := fun escaped => by
      cases r with
      | nil => exact single escaped rfl
      | cons x r => exact double x r escaped rfl
    refine ⟨c :: body, by simp, fun before rest => ?_⟩
    rw [List.cons_append, enclosed_plain '/' before plain, if_neg different, again]
    simp

theorem formed_startingWith {c : Char} {r : List Char} (visible : Text.isBlank c = false)
    {t : Token} (h : (startingWith c r).token = .ok t) : Formed t := by
  have taken (d : Char) (hd : d ∈ r.takeWhile isWordChar) : isWordChar d = true :=
    List.mem_takeWhile_imp hd
  have compared (s i : Comparator) (h : (compared s i r).token = .ok t) : Formed t := by
    unfold Scan.compared at h
    split at h <;> cases h <;> trivial
  have quoted (d : Char) (quote : d ≠ '/') (h : (enclosed d [] r).token = .ok t) : Formed t := by
    obtain ⟨source, rfl⟩ := enclosed_delimiter h
    exact fun slash => absurd slash quote
  unfold startingWith at h
  split at h
  case h_9 =>
    unfold afterEquals at h
    split at h <;> cases h
    trivial
  case h_10 =>
    unfold afterBracket at h
    split at h <;> cases h
    trivial
  case h_11 => cases h
  case h_12 =>
    unfold afterHash at h
    dsimp only at h
    split_ifs at h with unnamed <;> cases h
    refine ⟨fun empty => unnamed ?_, fun d hd => taken d (by simpa using hd)⟩
    rw [List.isEmpty_iff]
    simpa using congrArg String.toList empty
  case h_15 =>
    obtain ⟨source, rfl⟩ := enclosed_delimiter h
    intro _ rest
    obtain ⟨body, rfl, again⟩ := enclosed_body h
    simpa using again [] rest
  case h_16 =>
    have unmarked : isMark c = false := by
      simp only [isMark, List.contains_eq_mem, decide_eq_false_iff_not, List.mem_cons,
        List.not_mem_nil, or_false]
      grind
    cases h
    refine ⟨fun empty => by simpa using congrArg String.toList empty, fun d hd => ?_⟩
    rw [String.toList_ofList] at hd
    rcases List.mem_cons.mp hd with rfl | hd
    · rw [isWordChar, visible, unmarked]
      rfl
    · exact taken d hd
  all_goals first
    | exact compared _ _ h
    | exact quoted _ (by decide) h
    | (cases h; trivial)

theorem formed_first {cs : List Char} {t : Token} (h : (first cs).token = .ok t) : Formed t := by
  unfold first at h
  cases found : skipBlanks cs with
  | nil =>
    rw [found] at h
    cases h
    trivial
  | cons c r =>
    rw [found] at h
    refine formed_startingWith ?_ h
    have stopped := List.head?_dropWhile_not Text.isBlank cs
    rw [show cs.dropWhile Text.isBlank = c :: r from found] at stopped
    simpa using stopped

theorem formed_of_mem {n : Nat} {cs : List Char} {t : Token} (h : .ok t ∈ upTo n cs) :
    Formed t := by
  induction n generalizing cs with
  | zero => cases h
  | succ n ih =>
    simp only [upTo] at h
    split at h
    · rename_i found
      cases List.mem_singleton.mp h
      trivial
    · rename_i found
      rcases List.mem_cons.mp h with same | later
      · cases same
        exact formed_first found
      · exact ih later
    · cases List.mem_singleton.mp h

end SchemaAlgebra.Scan

namespace SchemaAlgebra.Scanner

/-- The expression of any text is scanned as one token that holds the text, and what stands behind
it is left. -/
theorem next_expression (text behind : String) : ∃ d, (d = '\'' ∨ d = '"') ∧
    (ofText ((Literal.string text).expression ++ behind)).next =
      (.ok (.enclosed d text), ofText behind) := by
  refine ⟨Literal.delimiter text.toList, Scan.delimiter_cases text.toList, ?_⟩
  have scanned := Scan.first_quoted text behind.toList
  rw [next, ofText, Literal.expression, String.toList_append, scanned]
  rfl

/-- Both quotes and a run of backslashes at the end are kept, and a quote behind is not taken in. -/
example : (ofText ((Literal.string "\"'\\\\").expression ++ "' a")).next =
    (.ok (.enclosed '\'' "\"'\\\\"), ofText "' a") := by
  rfl

end SchemaAlgebra.Scanner

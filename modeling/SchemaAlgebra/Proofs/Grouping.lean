import SchemaAlgebra.Proofs.Descent
import SchemaAlgebra.Proofs.Scanning

/-!
# Groups

A text in parentheses is scanned to the tokens of the text, whatever follows.
-/
namespace SchemaAlgebra.Scan

section

variable {cs r rest : List Char} {t : Token}

theorem skipBlanks_close (cs rest : List Char) :
    skipBlanks (cs ++ ')' :: rest) = skipBlanks cs ++ ')' :: rest := by
  rw [skipBlanks, skipBlanks, List.dropWhile_append]
  split_ifs with blank
  · rw [List.isEmpty_iff.mp blank]
    rfl
  · rfl

theorem takeWhile_close (cs rest : List Char) :
    (cs ++ ')' :: rest).takeWhile isWordChar = cs.takeWhile isWordChar ∧
    (cs ++ ')' :: rest).dropWhile isWordChar = cs.dropWhile isWordChar ++ ')' :: rest := by
  induction cs with
  | nil => exact ⟨rfl, rfl⟩
  | cons c cs ih =>
    rw [List.cons_append]
    by_cases word : isWordChar c = true
    · simp [word, ih]
    · simp [word]

theorem escapes {c : Char} (single : c = '\\' → cs = [] → False)
    (double : ∀ x r, c = '\\' → cs = x :: r → False) : c ≠ '\\' := by
  intro escaped
  cases cs with
  | nil => exact single escaped rfl
  | cons x r => exact double x r escaped rfl

theorem enclosed_append {d : Char} {text : List Char} (scanned : enclosed d text cs = ok t r)
    (rest : List Char) : enclosed d text (cs ++ rest) = ok t (r ++ rest) := by
  fun_induction enclosed d text cs with
  | case1 => cases scanned
  | case2 => cases scanned
  | case3 text c cs ih => exact ih scanned
  | case4 text cs single double =>
    cases scanned
    rw [List.cons_append, enclosed_plain d text (escapes single double), if_pos rfl]
  | case5 text c cs single double other ih =>
    rw [List.cons_append, enclosed_plain d text (escapes single double), if_neg other, ih scanned]

theorem compared_close {strict inclusive : Comparator}
    (scanned : compared strict inclusive cs = ok t r) :
    compared strict inclusive (cs ++ ')' :: rest) = ok t (r ++ ')' :: rest) := by
  unfold compared at scanned
  split at scanned
  · cases scanned
    rfl
  · rename_i other
    cases scanned
    cases cs with
    | nil => rfl
    | cons c cs =>
      rw [List.cons_append, compared.eq_2 _ _ _ fun r same => other cs (by cases same; rfl)]

theorem compared_unfinished {strict inclusive : Comparator}
    (scanned : compared strict inclusive cs = ok t r) : t ≠ .finish := by
  unfold compared at scanned
  split at scanned <;> cases scanned <;> exact nofun

theorem startingWith_close {c : Char} (scanned : startingWith c cs = ok t r) :
    startingWith c (cs ++ ')' :: rest) = ok t (r ++ ')' :: rest) := by
  obtain ⟨taken, dropped⟩ := takeWhile_close cs rest
  unfold startingWith at scanned ⊢
  split at scanned
  case h_7 => exact compared_close scanned
  case h_8 => exact compared_close scanned
  case h_9 =>
    unfold afterEquals at scanned
    split at scanned
    · cases scanned
      rfl
    · cases scanned
  case h_10 =>
    unfold afterBracket at scanned ⊢
    rw [skipBlanks_close]
    split at scanned
    · rename_i closed
      cases scanned
      rw [closed]
      rfl
    · cases scanned
  case h_11 => cases scanned
  case h_12 =>
    unfold afterHash at scanned ⊢
    rw [taken, dropped]
    dsimp only at scanned ⊢
    split_ifs at scanned with nameless
    · cases scanned
    · cases scanned
      rw [if_neg nameless]
  case h_13 => exact enclosed_append scanned _
  case h_14 => exact enclosed_append scanned _
  case h_15 => exact enclosed_append scanned _
  case h_16 =>
    cases scanned
    rw [taken, dropped]
  all_goals
    cases scanned
    rfl

theorem first_close (scanned : first cs = ok t r) (unfinished : t ≠ .finish) :
    first (cs ++ ')' :: rest) = ok t (r ++ ')' :: rest) := by
  rw [first] at scanned ⊢
  rw [skipBlanks_close]
  cases skipped : skipBlanks cs with
  | nil =>
    rw [skipped] at scanned
    cases scanned
    exact absurd rfl unfinished
  | cons c cs =>
    rw [skipped] at scanned
    exact startingWith_close scanned

theorem startingWith_unfinished {c : Char} (scanned : startingWith c cs = ok t r) :
    t ≠ .finish := by
  unfold startingWith at scanned
  have delimited {d : Char} (scanned : enclosed d [] cs = ok t r) : t ≠ .finish := by
    obtain ⟨source, rfl⟩ := enclosed_delimiter (congrArg Scan.token scanned)
    exact nofun
  split at scanned
  case h_7 => exact compared_unfinished scanned
  case h_8 => exact compared_unfinished scanned
  case h_9 =>
    unfold afterEquals at scanned
    split at scanned <;> cases scanned
    exact nofun
  case h_10 =>
    unfold afterBracket at scanned
    split at scanned <;> cases scanned
    exact nofun
  case h_12 =>
    unfold afterHash at scanned
    dsimp only at scanned
    split_ifs at scanned <;> cases scanned
    exact nofun
  case h_13 => exact delimited scanned
  case h_14 => exact delimited scanned
  case h_15 => exact delimited scanned
  all_goals
    cases scanned
    try exact nofun

theorem skipBlanks_finish (scanned : first cs = ok .finish r) : skipBlanks cs = [] := by
  rw [first] at scanned
  cases skipped : skipBlanks cs with
  | nil => rfl
  | cons c cs =>
    rw [skipped] at scanned
    exact absurd rfl (startingWith_unfinished scanned)

theorem tokens_step (cs : List Char) :
    (∃ r, first cs = ok .finish r ∧ tokens cs = [.ok .finish]) ∨
    (∃ t r, first cs = ok t r ∧ t ≠ .finish ∧ r.length < cs.length ∧
      tokens cs = .ok t :: tokens r) ∨ ∃ f, tokens cs = [.error f] := by
  cases scanned : first cs with
  | mk token r =>
    cases token with
    | error f => exact .inr (.inr ⟨f, by rw [tokens, upTo, scanned]⟩)
    | ok t =>
      by_cases finished : t = .finish
      · subst finished
        exact .inl ⟨r, rfl, by rw [tokens, upTo, scanned]⟩
      · have shorter : (first cs).rest.length < cs.length :=
          first_length (by rw [scanned]; simpa using finished)
        rw [scanned] at shorter
        exact .inr (.inl ⟨t, r, rfl, finished, shorter, tokens_cons scanned finished⟩)

theorem tokens_cases (cs : List Char) : ∃ ts : List Token, .finish ∉ ts ∧
    (tokens cs = ts.map .ok ++ [.ok .finish] ∨ ∃ f, tokens cs = ts.map .ok ++ [.error f]) := by
  induction length : cs.length using Nat.strong_induction_on generalizing cs with
  | _ length ih =>
    subst length
    rcases tokens_step cs with ⟨r, -, ended⟩ | ⟨t, r, -, unfinished, shorter,
      more⟩ | ⟨f, ended⟩
    · exact ⟨[], List.not_mem_nil, .inl ended⟩
    · obtain ⟨ts, others, ended⟩ := ih _ shorter r rfl
      rw [more]
      refine ⟨t ::
        ts, by simp [others, Ne.symm unfinished], ended.imp (fun ended => congrArg _ ended) ?_⟩
      exact fun ⟨f, ended⟩ => ⟨f, congrArg _ ended⟩
    · exact ⟨[], List.not_mem_nil, .inr ⟨f, ended⟩⟩

/-- A text in front of a closing parenthesis is scanned to its tokens. -/
theorem tokens_close {ts : List Token} (scanned : tokens cs = ts.map .ok ++ [.ok .finish])
    (unfinished : .finish ∉ ts) (rest : List Char) :
    tokens (cs ++ ')' :: rest) = ts.map .ok ++ .ok .groupClose :: tokens rest := by
  induction ts generalizing cs with
  | nil =>
    rcases tokens_step cs with ⟨r, finished, -⟩ | ⟨t, r, -, unfinished, -,
      more⟩ | ⟨f, ended⟩
    · refine tokens_cons (t := .groupClose) ?_ nofun
      rw [first, skipBlanks_close, skipBlanks_finish finished]
      rfl
    · rw [more, List.map_nil, List.nil_append] at scanned
      exact absurd (Except.ok.inj (List.cons.inj scanned).1) unfinished
    · rw [ended] at scanned
      cases scanned
  | cons t ts ih =>
    obtain ⟨different, others⟩ := List.ne_and_not_mem_of_not_mem_cons unfinished
    rcases tokens_step cs with ⟨r, -, ended⟩ | ⟨t', r, found, -, -, more⟩ | ⟨f, ended⟩
    · rw [ended] at scanned
      exact absurd (Except.ok.inj (List.cons.inj scanned).1) different
    · rw [more] at scanned
      obtain ⟨same, behind⟩ := List.cons.inj scanned
      cases same
      rw [tokens_cons (first_close found different.symm) different.symm, ih behind others]
      rfl
    · rw [ended] at scanned
      cases scanned

end

end SchemaAlgebra.Scan

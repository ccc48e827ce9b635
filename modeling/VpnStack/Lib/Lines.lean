import VpnStack.Lib.Python

/-!
# Lines and columns, as Python and as a shell read them

A shell's tools end a line at a newline, and `awk` separates columns by blanks. Python's `splitlines` and `split` know more of
both. On a text whose white space is a shell's, the two read the same.
-/

namespace Text

section Lines

variable {α : Type} [DecidableEq α]

/-- What is ended by a newline is the first of the lines. -/
theorem lines_append_cons {nl : α} {line : List α} (h : nl ∉ line) (rest : List α) :
    lines nl (line ++ nl :: rest) = line :: lines nl rest := by
  have hsplit : (line ++ nl :: rest).splitOn nl = line :: rest.splitOn nl := List.splitOn_append_cons_self_of_not_mem h rest
  obtain ⟨last, hlast⟩ : ∃ last, (rest.splitOn nl).getLast? = some last := by
    rw [← Option.isSome_iff_exists, List.getLast?_isSome]
    exact List.splitOn_ne_nil nl rest
  have hne : rest.splitOn nl ≠ [] := List.splitOn_ne_nil nl rest
  rw [lines, lines, hsplit, List.getLast?_cons, hlast, Option.getD_some]
  cases last with
  | nil => exact List.dropLast_cons_of_ne_nil hne
  | cons c cs => rfl

/-- A text with no newline is one line, if there is something in it. -/
theorem lines_of_not_mem {nl : α} {line : List α} (h : nl ∉ line) : lines nl line = if line = [] then [] else [line] := by
  rw [lines, List.splitOn_eq_singleton h]
  cases line with
  | nil => rfl
  | cons c cs => rfl

end Lines

/-- Words are the same under two notions of a separator that agree on the text. -/
theorem words_congr {α : Type} {p q : α → Bool} {t : List α} (h : ∀ c ∈ t, p c = q c) : words p t = words q t := by
  have hsplit : t.splitOnP p = t.splitOnP q := by
    induction t with
    | nil => rfl
    | cons c t ih =>
      rw [List.splitOnP_cons_eq_if_modifyHead, List.splitOnP_cons_eq_if_modifyHead, h c (List.mem_cons_self ..),
        ih fun d hd => h d (List.mem_cons_of_mem _ hd)]
  rw [words, words, hsplit]

end Text

namespace Python

/-- What breaks a line is white space. -/
theorem isSpace_of_isLineBreak {c : Char} (h : isLineBreak c = true) : isSpace c = true := by
  by_contra hspace
  rw [isLineBreak_of_not_space (by simpa using hspace)] at h
  cases h

/-- Where only newlines end lines, `splitlines` is the lines of a file. -/
theorem splitlinesFrom_eq {line t : Text} (h : ∀ c ∈ t, isLineBreak c = true → c = '\n') (hline : '\n' ∉ line) :
    splitlinesFrom false line t = Text.lines '\n' (line ++ t) := by
  induction t generalizing line with
  | nil =>
    rw [List.append_nil, Text.lines_of_not_mem hline, splitlinesFrom]
    cases line with
    | nil => rfl
    | cons c cs => rfl
  | cons c t ih =>
    have ht : ∀ d ∈ t, isLineBreak d = true → d = '\n' := fun d hd => h d (List.mem_cons_of_mem _ hd)
    by_cases hc : c = '\n'
    · subst hc
      rw [Text.lines_append_cons hline, splitlinesFrom, Bool.false_and, if_neg Bool.false_ne_true, if_pos (by decide)]
      exact congrArg (line :: ·) (ih ht (by simp))
    · have hbreak : isLineBreak c = false := by
        by_contra hbreak
        exact hc (h c (List.mem_cons_self ..) (by simpa using hbreak))
      have hline' : '\n' ∉ line ++ [c] := by
        simp only [List.mem_append, List.mem_singleton, not_or]
        exact ⟨hline, fun he => hc he.symm⟩
      rw [splitlinesFrom, Bool.false_and, if_neg Bool.false_ne_true, if_neg (by simp [hbreak]), ih ht hline', List.append_assoc,
        List.singleton_append]

/-- A text whose lines end at newlines only is split there. -/
theorem splitlines_eq_lines {t : Text} (h : ∀ c ∈ t, isLineBreak c = true → c = '\n') : splitlines t = Text.lines '\n' t :=
  splitlinesFrom_eq h (by simp)

end Python

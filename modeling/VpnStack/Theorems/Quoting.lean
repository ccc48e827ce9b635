import VpnStack.Control.Shell

/-!
# What the server's shell makes of a command line

A word is read back whole: bare where all of its characters stand for themselves, and otherwise between single quotes, which
only a single quote of its own closes, and that one is reopened at once. So a command line is one simple command of the words
it was made from.
-/

namespace VpnStack

namespace Shell

open Posix

/-! ## One word -/

/-- What the shell has of a quoted word before the quotes are removed. -/
def pieces (word : Text) : Word :=
  if bare word then word.map .bare
  else
    .mark '\'' :: (word.flatMap fun c =>
      if c = '\'' then [.mark '\'', .mark '\\', .quoted '\'', .mark '\''] else [.quoted c]) ++ [.mark '\'']

/-- Nothing is lost or added. -/
theorem quoteRemoval_pieces (word : Text) : (pieces word).quoteRemoval = word := by
  have hbare : ∀ t : Text, Word.quoteRemoval (t.map .bare) = t := by
    intro t
    induction t with
    | nil => rfl
    | cons c t ih => simpa [Word.quoteRemoval] using ih
  have hquoted : ∀ t : Text, Word.quoteRemoval (t.flatMap fun c =>
      if c = '\'' then [.mark '\'', .mark '\\', .quoted '\'', .mark '\''] else [.quoted c]) = t := by
    intro t
    induction t with
    | nil => rfl
    | cons c t ih =>
      rw [List.flatMap_cons, Word.quoteRemoval, List.flatMap_append, ← Word.quoteRemoval, ← Word.quoteRemoval, ih]
      split
      · rename_i hc
        simp [Word.quoteRemoval, hc]
      · rfl
  rw [pieces]
  split
  · exact hbare word
  · have happend : ∀ u v : Word, Word.quoteRemoval (u ++ v) = u.quoteRemoval ++ v.quoteRemoval := fun u v =>
      List.flatMap_append
    have hmark : Word.quoteRemoval [.mark '\''] = [] := rfl
    rw [← List.singleton_append, happend, happend, hquoted, hmark, List.nil_append, List.append_nil]

/-- A character that stands bare in a quoted word is one of the inert ones. -/
theorem isBare_of_mem_pieces {word : Text} {c : Char} (h : .bare c ∈ pieces word) : isBare c = true := by
  rw [pieces] at h
  split at h
  · rename_i hbare
    rw [bare, Bool.and_eq_true] at hbare
    obtain ⟨d, hd, hdc⟩ := List.mem_map.mp h
    cases hdc
    exact List.all_eq_true.mp hbare.2 c hd
  · exfalso
    rw [List.mem_append, List.mem_cons, List.mem_flatMap, List.mem_singleton] at h
    rcases h with (h | ⟨d, -, h⟩) | h
    · nomatch h
    · split at h
      · simp at h
      · simp at h
    · nomatch h

/-- What holds of the inert characters below 128 holds of all: there are no others. -/
theorem of_isBare {P : Char → Prop} (hP : ∀ n < 128, isBare (Char.ofNat n) = true → P (Char.ofNat n)) {c : Char}
    (h : isBare c = true) : P c := by
  have hlt : c.toNat < 128 := by
    simp only [isBare, Bool.or_eq_true, Bool.and_eq_true, decide_eq_true_eq] at h
    rcases h with ((h | h) | h) | h
    · omega
    · omega
    · omega
    · have hall : ∀ d ∈ ("_@%+=:,./-" : String).toList, d.toNat < 128 := by decide
      exact hall c (by simpa using h)
  have hc := hP c.toNat hlt
  rw [Char.ofNat_toNat] at hc
  exact hc h

theorem ordinary_of_isBare {c : Char} (h : isBare c = true) : ordinary c = true :=
  of_isBare (P := fun c => ordinary c = true) (by decide) h

theorem not_expanding_of_isBare {c : Char} (h : isBare c = true) : c ∉ expanding :=
  of_isBare (P := fun c => c ∉ expanding) (by decide) h

/-- Nothing in a quoted word is expanded. -/
theorem inert_pieces (word : Text) : (pieces word).Inert :=
  fun _ hc hmem => not_expanding_of_isBare (isBare_of_mem_pieces hmem) hc

/-- A single quote is replaced, and nothing else. -/
theorem substitute_quote (word : Text) :
    Template.substitute [(['\''], reopened)] word = word.flatMap fun c => if c = '\'' then reopened else [c] := by
  induction word with
  | nil => rfl
  | cons c t ih =>
    rw [List.flatMap_cons, ← ih]
    by_cases hc : c = '\''
    · subst hc
      rfl
    · rw [Template.substitute_cons_of_none, if_neg hc, List.singleton_append]
      intro p hp hpre
      obtain rfl := List.mem_singleton.mp hp
      exact hc (List.cons_prefix_cons.mp hpre).1.symm

/-- Between the quotes every character is read as itself. -/
theorem run_quoted {t : Text} (hnul : ∀ c ∈ t, c.toNat ≠ 0) (w : Word) (tokens : List Token) :
    Lexer.run ⟨.single, .word w, tokens⟩ (t.flatMap fun c => if c = '\'' then reopened else [c]) =
      some ⟨.single, .word (w ++ t.flatMap fun c =>
        if c = '\'' then [.mark '\'', .mark '\\', .quoted '\'', .mark '\''] else [.quoted c]), tokens⟩ := by
  induction t generalizing w with
  | nil => simp [Lexer.run_nil]
  | cons c t ih =>
    rw [List.flatMap_cons, List.flatMap_cons, Lexer.run_append]
    by_cases hc : c = '\''
    · -- The quote is closed, the escaped one is read outside, and the quote opens again.
      have hreopened : Lexer.run ⟨.single, .word w, tokens⟩ reopened =
          some ⟨.single, .word (w ++ [.mark '\'', .mark '\\', .quoted '\'', .mark '\'']), tokens⟩ := by
        simp [reopened, Lexer.run_cons, Lexer.run_nil, Lexer.step, Lexer.plain, Lexer.extend]
      rw [if_pos hc, if_pos hc, hreopened, Option.bind_some, ih fun d hd => hnul d (List.mem_cons_of_mem _ hd),
        List.append_assoc]
    · have hstep := Lexer.step_single (hnul c (List.mem_cons_self ..)) hc w tokens
      rw [if_neg hc, if_neg hc, Lexer.run_cons, hstep, Option.bind_some, Lexer.run_nil, Option.bind_some,
        ih fun d hd => hnul d (List.mem_cons_of_mem _ hd), List.append_assoc]

/-- A quoted word is one word under construction. -/
theorem run_shellQuote {word : Text} (hnul : ∀ c ∈ word, c.toNat ≠ 0) (tokens : List Token) :
    Lexer.run ⟨.plain, .nothing, tokens⟩ (shellQuote word) = some ⟨.plain, .word (pieces word), tokens⟩ := by
  rw [shellQuote, pieces]
  cases hbare : bare word with
  | true =>
    rw [bare, Bool.and_eq_true, Bool.not_eq_true', List.isEmpty_eq_false_iff] at hbare
    obtain ⟨hne, hall⟩ := hbare
    have hord : ∀ c ∈ word, ordinary c = true := fun c hc => ordinary_of_isBare (List.all_eq_true.mp hall c hc)
    obtain ⟨c, t, rfl⟩ := List.exists_cons_of_ne_nil hne
    have hstep := Lexer.step_ordinary (s := ⟨.plain, .nothing, tokens⟩) rfl (by simp) (hord c (List.mem_cons_self ..))
    rw [if_pos rfl, if_pos rfl, Lexer.run_cons, hstep, Option.bind_some, Lexer.extend_nothing rfl,
      Lexer.run_ordinary fun d hd => hord d (List.mem_cons_of_mem _ hd)]
    rfl
  | false =>
    have hopen : Lexer.run ⟨.plain, .nothing, tokens⟩ ['\''] = some ⟨.single, .word [.mark '\''], tokens⟩ := rfl
    have hclose : ∀ w : Word, Lexer.run ⟨.single, .word w, tokens⟩ ['\''] =
        some ⟨.plain, .word (w ++ [.mark '\'']), tokens⟩ := fun w => rfl
    rw [if_neg (by simp), if_neg (by simp), substitute_quote, List.append_assoc, Lexer.run_append, hopen, Option.bind_some,
      Lexer.run_append, run_quoted hnul, Option.bind_some, hclose]
    rfl

/-! ## The command line -/

/-- Words with blanks between are so many tokens, the last still under construction. -/
theorem run_shellCommand {argv : List Text} (hnul : ∀ w ∈ argv, ∀ c ∈ w, c.toNat ≠ 0) {word : Text}
    (hword : ∀ c ∈ word, c.toNat ≠ 0) (tokens : List Token) :
    (Lexer.run ⟨.plain, .nothing, tokens⟩ (shellCommand (word :: argv))).bind Lexer.finish =
      some (tokens ++ ((word :: argv).map fun w => .word (pieces w))) := by
  induction argv generalizing word tokens with
  | nil =>
    have hline : shellCommand [word] = shellQuote word := by simp [shellCommand]
    rw [hline, run_shellQuote hword]
    rfl
  | cons next argv ih =>
    have hline : shellCommand (word :: next :: argv) = shellQuote word ++ ' ' :: shellCommand (next :: argv) := by
      rw [shellCommand, List.map_cons, List.map_cons, List.intercalate_cons_cons, List.append_assoc]
      rfl
    rw [hline, Lexer.run_append, run_shellQuote hword, Option.bind_some, Lexer.run_cons, Lexer.step_blank, Option.bind_some,
      ih (fun w hw => hnul w (List.mem_cons_of_mem _ hw)) (hnul next (List.mem_cons_self ..)), List.append_assoc]
    rfl

/-- The words of a command line are the tokens the shell makes of it. -/
theorem lex_shellCommand {argv : List Text} (hne : argv ≠ []) (hnul : ∀ w ∈ argv, ∀ c ∈ w, c.toNat ≠ 0) :
    lex (shellCommand argv) = some ((argv.map pieces).map .word) := by
  obtain ⟨word, rest, rfl⟩ := List.exists_cons_of_ne_nil hne
  have hrun := run_shellCommand (fun w hw => hnul w (List.mem_cons_of_mem _ hw)) (hnul word (List.mem_cons_self ..)) []
  rw [lex, Lexer.start, hrun, List.map_map]
  rfl

/-- Whatever the words of an argument vector hold, the shell that parses its command line, which is what SSH carries, sees one simple
command, of those words and nothing else, provided the first is neither reserved nor has an equals sign in it. -/
theorem shellCommand_parses (argv : List Text) (hne : argv ≠ []) (hnul : ∀ w ∈ argv, ∀ c ∈ w, c.toNat ≠ 0)
    (hreserved : ∀ w ∈ argv.head?, w ∉ reservedWords) (hassign : ∀ w ∈ argv.head?, '=' ∉ w) :
    ∃ cmd : SimpleCommand, parse (shellCommand argv) = some [(cmd, [])] ∧ parse (sshExecLine argv) = some [(cmd, [])] ∧
      cmd.Runs argv := by
  obtain ⟨word, rest, rfl⟩ := List.exists_cons_of_ne_nil hne
  have hword : (pieces word).isReserved = false := by
    refine Word.isReserved_of_quoteRemoval ?_
    rw [quoteRemoval_pieces]
    exact hreserved word rfl
  have heq : Piece.bare '=' ∉ pieces word := by
    intro hmem
    have htext := Word.mem_quoteRemoval hmem
    rw [quoteRemoval_pieces] at htext
    exact hassign word rfl htext
  have hparse : parse (shellCommand (word :: rest)) = some [({ words := (word :: rest).map pieces }, [])] := by
    rw [parse, lex_shellCommand hne hnul, Option.bind_some, List.map_cons, parseFrom_command hword heq]
  refine ⟨{ words := (word :: rest).map pieces }, hparse, hparse, rfl, rfl, ?_, ?_⟩
  · intro w hw
    obtain ⟨v, -, rfl⟩ := List.mem_map.mp hw
    exact inert_pieces v
  · rw [List.map_map]
    exact (List.map_congr_left fun w _ => quoteRemoval_pieces w).trans (List.map_id _)

/-- A name with a quote, a newline and a second command in it is still one word. -/
theorem shellCommand_parses_name :
    ∃ cmd : SimpleCommand, parse (shellCommand (["vpnctl", "user", "rm", "it's\n$HOME; *"] : List Text)) = some [(cmd, [])] ∧
      parse (sshExecLine (["vpnctl", "user", "rm", "it's\n$HOME; *"] : List Text)) = some [(cmd, [])] ∧ cmd.Runs (["vpnctl", "user", "rm", "it's\n$HOME; *"] : List Text) :=
  shellCommand_parses _ (by simp) (by decide) (by decide) (by decide)

end Shell

end VpnStack

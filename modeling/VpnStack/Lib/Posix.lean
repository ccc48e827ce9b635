import VpnStack.Lib.Text

/-!
# A POSIX shell's reading of a line

How a shell breaks its input into tokens, reads simple commands from them and removes the quotes. The reader goes one
character at a time, as the standard words it, so what it makes of a text is what it makes of the first part of it and then
of the rest. Expansions are not followed: a text with an unquoted or double-quoted `$` or backquote is not read, nor one with
a compound command or a here-document.
-/

namespace Posix

/-! ## Words -/

/-- A character of a word: as it stands, quoted, or a mark that quotes others and is removed in the end. -/
inductive Piece where
  | bare (c : Char)
  | quoted (c : Char)
  | mark (c : Char)
  deriving DecidableEq, Repr

/-- A word before its quotes are removed. -/
abbrev Word := List Piece

/-- Quote removal. -/
def Word.quoteRemoval (w : Word) : Text :=
  w.flatMap fun
    | .bare c => [c]
    | .quoted c => [c]
    | .mark _ => []

/-- The characters that make a shell expand the word they stand in unquoted: patterns, a tilde and, in some, braces. -/
def expanding : List Char := ['*', '?', '[', '~', '\x7b']

/-- Nothing in the word is expanded. -/
def Word.Inert (w : Word) : Prop := ∀ c ∈ expanding, .bare c ∉ w

/-- The characters of a word none of which is quoted. -/
def Word.literal (w : Word) : Option Text :=
  w.mapM fun
    | .bare c => some c
    | .quoted _ => none
    | .mark _ => none

/-- The reserved words, those some shells have besides included. -/
def reservedWords : List Text :=
  (["!", "\x7b", "\x7d", "case", "do", "done", "elif", "else", "esac", "fi", "for", "if", "in", "then", "until", "while",
    "[[", "]]", "function", "namespace", "select", "time"] : List Text)

/-- A word the shell takes for a reserved one: no character of it is quoted. -/
def Word.isReserved (w : Word) : Bool := w.literal.any (reservedWords.contains ·)

def isDigit (c : Char) : Bool := 48 ≤ c.toNat && c.toNat ≤ 57

def isNameStart (c : Char) : Bool :=
  c = '_' || (65 ≤ c.toNat && c.toNat ≤ 90) || (97 ≤ c.toNat && c.toNat ≤ 122)

/-- The name of a variable. -/
def isName : Text → Bool
  | [] => false
  | c :: t => isNameStart c && t.all fun c => isNameStart c || isDigit c

/-! ## Tokens -/

inductive Token where
  | word (w : Word)
  | ioNumber (digits : Text)
  | operator (o : Text)
  deriving DecidableEq, Repr

/-- The operators; a newline is a token of its own. -/
def operators : List Text :=
  (["&", "|", ";", "<", ">", "(", ")", "&&", "||", ";;", "<<", ">>", "<&", ">&", "<>", ">|", "<<-"] : List Text)

/-- What the next character is read as. -/
inductive Mode where
  | plain
  | escaped
  | single
  | double
  | doubleEscaped
  | comment
  deriving DecidableEq, Repr

/-- The token under construction. -/
inductive Current where
  | nothing
  | word (w : Word)
  | operator (o : Text)
  deriving DecidableEq, Repr

structure Lexer where
  mode : Mode
  current : Current
  tokens : List Token
  deriving DecidableEq, Repr

namespace Lexer

def start : Lexer := ⟨.plain, .nothing, []⟩

/-- The token under construction ends here. -/
def delimit (s : Lexer) : Lexer :=
  match s.current with
  | .nothing => s
  | .word w => { s with current := .nothing, tokens := s.tokens ++ [.word w] }
  | .operator o => { s with current := .nothing, tokens := s.tokens ++ [.operator o] }

/-- One more piece of a word, the first of a new one where none is under construction. -/
def extend (s : Lexer) (p : Piece) : Lexer :=
  match s.current with
  | .word w => { s with current := .word (w ++ [p]) }
  | _ => { s.delimit with current := .word [p] }

def inWord (s : Lexer) : Bool :=
  match s.current with
  | .word _ => true
  | _ => false

/-- An operator begins; digits right in front of a redirection are the number of a descriptor. -/
def beginOperator (s : Lexer) (c : Char) : Lexer :=
  match s.current with
  | .word w =>
    match w.literal with
    | some digits =>
      if (c = '<' ∨ c = '>') ∧ digits.all isDigit then
        { s with current := .operator [c], tokens := s.tokens ++ [.ioNumber digits] }
      else { s.delimit with current := .operator [c] }
    | none => { s.delimit with current := .operator [c] }
  | _ => { s.delimit with current := .operator [c] }

def newline (s : Lexer) : Lexer := { s.delimit with mode := .plain, tokens := s.delimit.tokens ++ [.operator ['\n']] }

/-- The operator under construction, one character longer. -/
def longerOperator (s : Lexer) (c : Char) : Option Text :=
  match s.current with
  | .operator o => if operators.contains (o ++ [c]) then some (o ++ [c]) else none
  | _ => none

/-- Where an expansion begins; `96` is the backquote. -/
def expands (c : Char) : Bool := c = '$' || c.toNat = 96

/-- A character outside all quotes. -/
def plain (s : Lexer) (c : Char) : Option Lexer :=
  if c = '\\' then some { s with mode := .escaped }
  else if c = '\'' then some { s.extend (.mark c) with mode := .single }
  else if c = '"' then some { s.extend (.mark c) with mode := .double }
  else if expands c then none
  else
    match s.longerOperator c with
    | some o => some { s with current := .operator o }
    | none =>
      if operators.contains [c] then some (s.beginOperator c)
      else if c = '\n' then some s.newline
      else if c = ' ' ∨ c = '\t' then some s.delimit
      else if c = '#' ∧ s.inWord = false then some { s.delimit with mode := .comment }
      else some (s.extend (.bare c))

/-- The next character. A NUL is not part of any text. -/
def step (s : Lexer) (c : Char) : Option Lexer :=
  if c.toNat = 0 then none
  else
    match s.mode with
    | .plain => s.plain c
    | .escaped =>
      if c = '\n' then some { s with mode := .plain }
      else some { (s.extend (.mark '\\')).extend (.quoted c) with mode := .plain }
    | .single => some (if c = '\'' then { s.extend (.mark c) with mode := .plain } else s.extend (.quoted c))
    | .double =>
      if c = '"' then some { s.extend (.mark c) with mode := .plain }
      else if c = '\\' then some { s with mode := .doubleEscaped }
      else if expands c then none
      else some (s.extend (.quoted c))
    | .doubleEscaped =>
      -- Between double quotes a backslash quotes these only, and stays in front of anything else.
      if c = '\n' then some { s with mode := .double }
      else if c = '"' ∨ c = '\\' ∨ expands c then
        some { (s.extend (.mark '\\')).extend (.quoted c) with mode := .double }
      else some { (s.extend (.quoted '\\')).extend (.quoted c) with mode := .double }
    | .comment => some (if c = '\n' then s.newline else s)

/-- The end of the text, which may not come inside quotes. -/
def finish (s : Lexer) : Option (List Token) :=
  match s.mode with
  | .plain => some s.delimit.tokens
  | .comment => some s.delimit.tokens
  | _ => none

/-- Some characters, one after another. -/
def run (s : Lexer) (t : Text) : Option Lexer := t.foldlM step s

end Lexer

/-- Token recognition. -/
def lex (t : Text) : Option (List Token) := (Lexer.start.run t).bind Lexer.finish

/-! ## Simple commands -/

structure SimpleCommand where
  assignments : List Word := []
  words : List Word := []
  redirections : List (Text × Text × Word) := []
  deriving DecidableEq, Repr

/-- One more word of a command. Up to the command's name a word may be reserved, or assign to a variable. -/
def SimpleCommand.addWord (cmd : SimpleCommand) (w : Word) : Option SimpleCommand :=
  if cmd.words ≠ [] then some { cmd with words := cmd.words ++ [w] }
  else if cmd = {} ∧ w.isReserved then none
  else if .bare '=' ∉ w ∨ w.head? = some (.bare '=') then some { cmd with words := [w] }
  else if (Word.literal (w.takeWhile (· ≠ .bare '='))).any isName then some { cmd with assignments := cmd.assignments ++ [w] }
  else none

/-- The operators that redirect, the here-documents apart. -/
def redirecting : List Text := (["<", ">", ">>", "<&", ">&", "<>", ">|"] : List Text)

/-- The operators that end a command. -/
def separating : List Text := (["\n", ";", "&", "&&", "||", "|"] : List Text)

/-- The simple commands of a list of tokens, each with the operator that ends it; the one in front is under construction. -/
def parseFrom (cmd : SimpleCommand) : List Token → Option (List (SimpleCommand × Text))
  | [] => some (if cmd = {} then [] else [(cmd, [])])
  | .word w :: rest => (cmd.addWord w).bind fun cmd => parseFrom cmd rest
  | .ioNumber n :: .operator o :: .word w :: rest =>
    if redirecting.contains o then parseFrom { cmd with redirections := cmd.redirections ++ [(n, o, w)] } rest else none
  | .ioNumber _ :: _ => none
  | .operator o :: rest =>
    if separating.contains o then
      if cmd = {} then if o = ['\n'] then parseFrom {} rest else none else (parseFrom {} rest).map ((cmd, o) :: ·)
    else if redirecting.contains o then
      match rest with
      | .word w :: rest => parseFrom { cmd with redirections := cmd.redirections ++ [([], o, w)] } rest
      | _ => none
    else none

/-- The commands a shell sees in a text. -/
def parse (t : Text) : Option (List (SimpleCommand × Text)) := (lex t).bind (parseFrom {})

/-- A command of nothing but the given words: no assignment, no redirection, and no word that is expanded. -/
structure SimpleCommand.Runs (cmd : SimpleCommand) (argv : List Text) : Prop where
  assignments : cmd.assignments = []
  redirections : cmd.redirections = []
  inert : ∀ w ∈ cmd.words, w.Inert
  words : cmd.words.map Word.quoteRemoval = argv

/-! ## Reading -/

namespace Lexer

theorem run_append (s : Lexer) (t u : Text) : s.run (t ++ u) = (s.run t).bind fun s => s.run u := List.foldlM_append ..

theorem run_cons (s : Lexer) (c : Char) (t : Text) : s.run (c :: t) = (s.step c).bind fun s => s.run t := List.foldlM_cons ..

theorem run_nil (s : Lexer) : s.run [] = some s := rfl

theorem extend_nothing {s : Lexer} (h : s.current = .nothing) (p : Piece) : s.extend p = { s with current := .word [p] } := by
  simp [extend, delimit, h]

/-- A piece goes on with the word there is. -/
theorem extend_word {s : Lexer} {w : Word} (h : s.current = .word w) (p : Piece) :
    s.extend p = { s with current := .word (w ++ [p]) } := by
  simp [extend, h]

end Lexer

/-- A character that stands for itself in a word, whatever is around it. -/
def ordinary (c : Char) : Bool :=
  c.toNat ≠ 0 && !Lexer.expands c && !operators.contains [c] && !(['\\', '\'', '"', '\n', ' ', '\t', '#'].contains c)

namespace Lexer

/-- Outside quotes and operators, an ordinary character is one more of the word. -/
theorem step_ordinary {s : Lexer} (hmode : s.mode = .plain) (hop : ∀ o, s.current ≠ .operator o) {c : Char}
    (hc : ordinary c = true) : s.step c = some (s.extend (.bare c)) := by
  simp only [ordinary, Bool.and_eq_true, decide_eq_true_eq, Bool.not_eq_true', List.contains_eq_mem, decide_eq_false_iff_not,
    List.mem_cons, List.not_mem_nil, or_false, not_or] at hc
  obtain ⟨⟨⟨hnul, hexp⟩, hoperator⟩, hslash, hquote, hdouble, hnewline, hblank, htab, hhash⟩ := hc
  have hlonger : s.longerOperator c = none := by
    cases hcur : s.current with
    | nothing => simp [longerOperator, hcur]
    | word w => simp [longerOperator, hcur]
    | operator o => exact absurd hcur (hop o)
  simp [step, hnul, hmode, plain, hslash, hquote, hdouble, hexp, hlonger, hoperator, hnewline, hblank, htab, hhash]

/-- Ordinary characters go into the word under construction. -/
theorem run_ordinary {t : Text} (ht : ∀ c ∈ t, ordinary c = true) (w : Word) (tokens : List Token) :
    run ⟨.plain, .word w, tokens⟩ t = some ⟨.plain, .word (w ++ t.map .bare), tokens⟩ := by
  induction t generalizing w with
  | nil => simp [run_nil]
  | cons c t ih =>
    have hstep := step_ordinary (s := ⟨.plain, .word w, tokens⟩) rfl (by simp) (ht c (List.mem_cons_self ..))
    rw [run_cons, hstep, Option.bind_some, extend_word rfl, ih (fun d hd => ht d (List.mem_cons_of_mem _ hd))]
    simp

/-- What stands between single quotes is quoted, whatever it is. -/
theorem step_single {c : Char} (hnul : c.toNat ≠ 0) (hc : c ≠ '\'') (w : Word) (tokens : List Token) :
    step ⟨.single, .word w, tokens⟩ c = some ⟨.single, .word (w ++ [.quoted c]), tokens⟩ := by
  simp [step, hnul, hc, extend]

/-- A blank ends the word in front of it. -/
theorem step_blank (w : Word) (tokens : List Token) :
    step ⟨.plain, .word w, tokens⟩ ' ' = some ⟨.plain, .nothing, tokens ++ [.word w]⟩ := by
  simp [step, plain, expands, longerOperator, operators, delimit]

end Lexer

/-- Words behind a command's name are its operands, whatever they look like. -/
theorem parseFrom_words {cmd : SimpleCommand} (hcmd : cmd.words ≠ []) (ws : List Word) :
    parseFrom cmd (ws.map .word) = some [({ cmd with words := cmd.words ++ ws }, [])] := by
  induction ws generalizing cmd with
  | nil =>
    have hne : cmd ≠ {} := fun h => hcmd (by rw [h])
    simp [parseFrom, hne]
  | cons w ws ih =>
    have hadd : cmd.addWord w = some { cmd with words := cmd.words ++ [w] } := by simp [SimpleCommand.addWord, hcmd]
    rw [List.map_cons, parseFrom, hadd, Option.bind_some, ih (by simp)]
    simp

/-- Words are one command, whose name is the first of them unless that is reserved or assigns to a variable. -/
theorem parseFrom_command {w : Word} (hreserved : w.isReserved = false) (hassign : .bare '=' ∉ w) (ws : List Word) :
    parseFrom {} ((w :: ws).map .word) = some [({ words := w :: ws }, [])] := by
  have hadd : SimpleCommand.addWord {} w = some { words := [w] } := by simp [SimpleCommand.addWord, hreserved, hassign]
  rw [List.map_cons, parseFrom, hadd, Option.bind_some, parseFrom_words (by simp)]
  simp

/-- The literal text of a word is what is left of it. -/
theorem Word.quoteRemoval_of_literal {w : Word} {t : Text} (h : w.literal = some t) : w.quoteRemoval = t := by
  induction w generalizing t with
  | nil =>
    cases h
    rfl
  | cons p w ih =>
    cases p with
    | bare c =>
      obtain ⟨u, hu, rfl⟩ : ∃ u, Word.literal w = some u ∧ c :: u = t := by
        simpa [Word.literal, Option.bind_eq_some_iff] using h
      simp [Word.quoteRemoval, ← ih hu]
    | quoted c => simp [Word.literal] at h
    | mark c => simp [Word.literal] at h

/-- A word whose text is not reserved is not. -/
theorem Word.isReserved_of_quoteRemoval {w : Word} (h : w.quoteRemoval ∉ reservedWords) : w.isReserved = false := by
  cases hl : w.literal with
  | none => simp [Word.isReserved, hl]
  | some t =>
    rw [Word.quoteRemoval_of_literal hl] at h
    simp [Word.isReserved, hl, h]

/-- What stands bare in a word is in its text. -/
theorem Word.mem_quoteRemoval {w : Word} {c : Char} (h : .bare c ∈ w) : c ∈ w.quoteRemoval :=
  List.mem_flatMap.mpr ⟨_, h, List.mem_singleton.mpr rfl⟩

end Posix

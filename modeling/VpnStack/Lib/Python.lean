import VpnStack.Lib.Text

/-!
# Python strings

What the standard library's `str` methods do, as far as a program that keeps its data in plain words relies on it:
white space, `split`, `strip`, case folding, and messages that quote a value with `repr`.
-/

namespace Python

/-- `str.isspace` of one character. -/
def isSpace (c : Char) : Bool :=
  let n := c.toNat
  (9 ≤ n && n ≤ 13) || (28 ≤ n && n ≤ 32) || n == 0x85 || n == 0xa0 || n == 0x1680 || (0x2000 ≤ n && n ≤ 0x200a) ||
    n == 0x2028 || n == 0x2029 || n == 0x202f || n == 0x205f || n == 0x3000

/-- `t.split()`. -/
def split (t : Text) : List Text := Text.words isSpace t

/-- `t.strip()`. -/
def strip (t : Text) : Text := ((t.dropWhile isSpace).reverse.dropWhile isSpace).reverse

/-- A single word: something, and no white space in it. -/
def IsWord (t : Text) : Prop := t ≠ [] ∧ ∀ c ∈ t, isSpace c = false

instance (t : Text) : Decidable (IsWord t) := inferInstanceAs (Decidable (_ ∧ _))

theorem IsWord.not_space {t : Text} (h : IsWord t) : ' ' ∉ t := fun hmem => absurd (h.2 _ hmem) (by decide)

theorem IsWord.not_newline {t : Text} (h : IsWord t) : '\n' ∉ t := fun hmem => absurd (h.2 _ hmem) (by decide)

/-- Nothing is stripped of a word. -/
theorem IsWord.strip {t : Text} (h : IsWord t) : strip t = t := by
  have hdrop : ∀ s : Text, (∀ c ∈ s, isSpace c = false) → s.dropWhile isSpace = s := by
    intro s hs
    cases s with
    | nil => rfl
    | cons c cs => simp [List.dropWhile, hs c (List.mem_cons_self ..)]
  rw [Python.strip, hdrop t h.2, hdrop t.reverse (fun c hc => h.2 c (List.mem_reverse.mp hc)), List.reverse_reverse]

/-- The characters `str.splitlines` ends a line at. -/
def isLineBreak (c : Char) : Bool :=
  let n := c.toNat
  (10 ≤ n && n ≤ 13) || (28 ≤ n && n ≤ 30) || n == 0x85 || n == 0x2028 || n == 0x2029

/-- The loop of `splitlines`: whether a carriage return came last, and what it has read of the line. A newline behind a
carriage return ends no line of its own. -/
def splitlinesFrom : Bool → Text → Text → List Text
  | _, line, [] => if line.isEmpty then [] else [line]
  | cr, line, c :: rest =>
    if cr && c == '\n' then splitlinesFrom false line rest
    else if isLineBreak c then line :: splitlinesFrom (c == '\r') [] rest
    else splitlinesFrom false (line ++ [c]) rest

/-- `t.splitlines()`. -/
def splitlines (t : Text) : List Text := splitlinesFrom false [] t

/-- A line ends at its newline, and the others come behind. -/
theorem splitlinesFrom_append {line t : Text} (h : ∀ c ∈ t, isLineBreak c = false) (rest : Text) :
    splitlinesFrom false line (t ++ '\n' :: rest) = (line ++ t) :: splitlinesFrom false [] rest := by
  induction t generalizing line with
  | nil =>
    rw [List.nil_append, List.append_nil, splitlinesFrom]
    rfl
  | cons c t ih =>
    have hc := h c (List.mem_cons_self ..)
    rw [List.cons_append, splitlinesFrom, Bool.false_and, if_neg Bool.false_ne_true, if_neg (by rw [hc]; exact Bool.false_ne_true),
      ih (fun d hd => h d (List.mem_cons_of_mem _ hd)), List.append_assoc, List.singleton_append]

/-- Lines without a break in them are read back from a file of them. -/
theorem splitlines_unlines {ts : List Text} (h : ∀ t ∈ ts, ∀ c ∈ t, isLineBreak c = false) :
    splitlines (Text.unlines '\n' ts) = ts := by
  induction ts with
  | nil => rfl
  | cons t ts ih =>
    rw [splitlines, Text.unlines_cons, splitlinesFrom_append (h t (List.mem_cons_self ..)), List.nil_append]
    exact congrArg (t :: ·) (ih fun s hs => h s (List.mem_cons_of_mem _ hs))

/-- What is no white space breaks no line. -/
theorem isLineBreak_of_not_space {c : Char} (h : isSpace c = false) : isLineBreak c = false := by
  simp only [isSpace, isLineBreak, Bool.or_eq_false_iff, Bool.and_eq_false_iff, decide_eq_false_iff_not,
    beq_eq_false_iff_ne] at h ⊢
  omega

/-- `str.lower`, which on ASCII is the map of the letters. The rest of Unicode is left open. -/
structure CaseMap where
  lower : Text → Text
  lower_ascii : ∀ t : Text, (∀ c ∈ t, c.toNat ≤ 127) → lower t = t.map Char.toLower

/-- The case map that changes no other letter. -/
def CaseMap.ascii : CaseMap where
  lower t := t.map Char.toLower
  lower_ascii _ _ := rfl

/-- A message: text of its own, and values quoted with `repr`. -/
inductive Piece where
  | str (t : Text)
  | repr (t : Text)
  deriving DecidableEq, Repr

abbrev Message := List Piece

instance : Coe String Piece := ⟨fun s => .str s⟩

end Python

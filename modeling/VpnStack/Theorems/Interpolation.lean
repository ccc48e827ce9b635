import VpnStack.Dotenv

/-!
# The two readers of the settings

vpnctl and compose read the same file. They agree on a variable when the line that decides it has no comment behind an unquoted
value, and nothing inside or behind a pair of quotes; and when the environment does not set the variable to something else, which
vpnctl passes over for the host, and for an empty zone.
-/

namespace VpnStack

open Python

namespace Interpolation

/-! ## What is claimed -/

/-- Both variables of dnstt's command line are what vpnctl takes them to be. -/
def Agrees (environ : Environ) (text : Text) : Prop :=
  Compose.interpolated environ text hostVar = some ((Dotenv.get text hostVar).getD []) ∧
    Compose.interpolated environ text Dnstt.zoneVar = some (Render.dnsttZone environ text)

/-- The lines of the file. -/
def linesOf (text : Text) : List Text := text.splitOn '\n'

/-- What stands behind the equals sign of a line. -/
def raw (line : Text) : Text := (Text.cut '=' line).2.getD []

/-- The variable a line assigns. -/
def key (line : Text) : Text := strip (Text.cut '=' (withoutExport (strip line))).1

/-- The last line that assigns the variable. -/
def decisive (text k : Text) : Option Text :=
  ((linesOf text).filter fun line => isAssignment (strip line) ∧ key line = k).getLast?

/-- Only a newline, with or without a carriage return, ends a line, and a quoted value ends on its line. -/
structure Tidy (text : Text) : Prop where
  breaks : ∀ line ∈ linesOf text, ∃ t, (line = t ∨ line = t ++ ['\r']) ∧ ∀ c ∈ t, isLineBreak c = false
  quotes : ∀ line ∈ linesOf text, isAssignment (strip line) = true →
    ∀ c body, strip (raw line) = c :: body → c ∈ Dotenv.quotes → c ∈ body

/-- A quoted value is all between one pair of quotes; an unquoted one has no number sign behind white space. -/
def Plain (raw : Text) : Prop :=
  (∀ c body, strip raw = c :: body → c ∈ Dotenv.quotes → ∃ value, body = value ++ [c] ∧ c ∉ value) ∧
    ((∀ c ∈ (strip raw).head?, c ∉ Dotenv.quotes) → ∀ a s b, raw = a ++ s :: '#' :: b → isSpace s = false)

/-- The line that decides the variable, if there is one, is plain. -/
def Sound (text k : Text) : Prop := ∀ line ∈ decisive text k, Plain (raw line)

/-- The file gives the variable this value, up to one pair of quotes; or it does not set it, and the value is empty. -/
def Written (text k value : Text) : Prop :=
  match decisive text k with
  | none => value = []
  | some line => (∃ c ∈ Dotenv.quotes, strip (raw line) = c :: value ++ [c]) ∨
      strip (raw line) = value ∧ ∀ c ∈ Dotenv.quotes, ∀ t, value ≠ c :: t ++ [c]

/-- When they agree on the host. -/
def HostSound (environ : Environ) (text : Text) : Prop :=
  match environ hostVar with
  | some value => Written text hostVar value
  | none => Sound text hostVar

/-- When they agree on the zone. -/
def ZoneSound (environ : Environ) (text : Text) : Prop :=
  match environ Dnstt.zoneVar with
  | some (_ :: _) => True
  | some [] => Written text Dnstt.zoneVar []
  | none => Sound text Dnstt.zoneVar

/-! ## Trimming -/

section Strip

/-- A text is what is left of it when it is trimmed, with white space on both sides. -/
theorem exists_strip (t : Text) : ∃ a b, t = a ++ strip t ++ b ∧ (∀ c ∈ a, isSpace c = true) ∧ ∀ c ∈ b, isSpace c = true := by
  refine ⟨t.takeWhile isSpace, ((t.dropWhile isSpace).reverse.takeWhile isSpace).reverse, ?_, fun c hc =>
    List.mem_takeWhile_imp hc, fun c hc => List.mem_takeWhile_imp (List.mem_reverse.mp hc)⟩
  rw [List.append_assoc, strip, ← List.reverse_append, List.takeWhile_append_dropWhile, List.reverse_reverse,
    List.takeWhile_append_dropWhile]

/-- White space behind a text does not matter to what is dropped in front. -/
theorem dropWhile_append_space {s t : Text} (h : ∀ c ∈ s, isSpace c = true) :
    (t ++ s).dropWhile isSpace = if t.dropWhile isSpace = [] then [] else t.dropWhile isSpace ++ s := by
  induction t with
  | nil =>
    rw [List.nil_append, List.dropWhile_nil, if_pos rfl]
    exact List.dropWhile_eq_nil_iff.mpr h
  | cons c t ih =>
    rw [List.cons_append]
    cases hc : isSpace c with
    | true => rw [List.dropWhile_cons_of_pos hc, List.dropWhile_cons_of_pos hc, ih]
    | false =>
      have hneg : ¬ isSpace c = true := by rw [hc]; exact Bool.false_ne_true
      rw [List.dropWhile_cons_of_neg hneg, List.dropWhile_cons_of_neg hneg, if_neg (List.cons_ne_nil _ _), List.cons_append]

/-- White space behind a text is stripped with it. -/
theorem strip_append_space {s t : Text} (h : ∀ c ∈ s, isSpace c = true) : strip (t ++ s) = strip t := by
  rw [strip, strip, dropWhile_append_space h]
  split
  · rename_i hnil
    rw [hnil]
  · rw [List.reverse_append, List.dropWhile_append_of_pos fun c hc => h c (List.mem_reverse.mp hc)]

/-- A trimmed text begins with no white space. -/
theorem strip_head {t body : Text} {c : Char} (h : strip t = c :: body) : isSpace c = false := by
  obtain ⟨a, b, ht, -, hb⟩ := exists_strip t
  have hdrop : t.dropWhile isSpace ≠ [] := by
    intro hnil
    rw [strip, hnil] at h
    cases h
  obtain ⟨d, rest, hrest⟩ := List.exists_cons_of_ne_nil hdrop
  have hd : isSpace d = false := by
    have hhead := List.head_dropWhile_not isSpace hdrop
    simpa [hrest] using hhead
  have hsplit : t.dropWhile isSpace = strip t ++ ((t.dropWhile isSpace).reverse.takeWhile isSpace).reverse := by
    rw [strip, ← List.reverse_append, List.takeWhile_append_dropWhile, List.reverse_reverse]
  rw [hrest, h, List.cons_append] at hsplit
  obtain ⟨rfl, -⟩ := List.cons.inj hsplit
  exact hd

end Strip

/-! ## One line -/

section Line

variable {line : Text}

/-- White space behind a line does not matter to what it assigns. -/
theorem strip_raw_append {s t : Text} (hs : ∀ c ∈ s, isSpace c = true) (h : '=' ∈ t) :
    strip (raw (t ++ s)) = strip (raw t) := by
  obtain ⟨a, b, rfl, ha⟩ := List.eq_append_cons_of_mem h
  rw [raw, raw, List.append_assoc, List.cons_append, Text.cut_append_cons ha, Text.cut_append_cons ha]
  exact strip_append_space hs

/-- White space in front of a line does not matter to what it assigns. -/
theorem raw_space_append {s t : Text} (hs : ∀ c ∈ s, isSpace c = true) : raw (s ++ t) = raw t := by
  have hmem : '=' ∉ s := fun hmem => absurd (hs _ hmem) (by decide)
  rw [raw, Text.cut_append hmem]
  rfl

/-- Nothing of the value is lost when the line is trimmed first. -/
theorem strip_raw_strip (h : '=' ∈ strip line) : strip (raw (strip line)) = strip (raw line) := by
  obtain ⟨a, b, hline, ha, hb⟩ := exists_strip line
  conv_rhs => rw [hline, List.append_assoc, raw_space_append ha, strip_raw_append hb h]

/-- A value stands behind the first equals sign. -/
theorem raw_append_cons {k v : Text} (h : '=' ∉ k) : raw (k ++ '=' :: v) = v := by
  rw [raw, Text.cut_append_cons h]
  rfl

/-- The white space in front of a line is no part of its value. -/
theorem raw_dropWhile : raw (line.dropWhile isSpace) = raw line := by
  conv_rhs => rw [← List.takeWhile_append_dropWhile (p := isSpace) (l := line)]
  exact (raw_space_append fun c hc => List.mem_takeWhile_imp hc).symm

/-- `export` stands in front of the equals sign. -/
theorem raw_withoutExport (h : '=' ∈ line) : raw (withoutExport line) = raw line := by
  obtain ⟨k, v, rfl, hk⟩ := List.eq_append_cons_of_mem h
  unfold withoutExport
  split
  · rename_i hexport
    have hmark : ∃ mark : Text, '=' ∉ mark ∧ "export".toList <+: mark ∧ mark <+: k ++ '=' :: v := by
      rcases hexport with hexport | hexport
      · exact ⟨_, by decide, ⟨" ".toList, rfl⟩, hexport⟩
      · exact ⟨_, by decide, ⟨"\t".toList, rfl⟩, hexport⟩
    obtain ⟨mark, hfree, hin, hbegins⟩ := hmark
    have hkey : k ++ ['='] <+: k ++ '=' :: v := ⟨v, by simp⟩
    have hfront : mark <+: k := by
      rcases List.prefix_or_prefix_of_prefix hbegins hkey with hle | hge
      · rcases List.prefix_concat_iff.mp hle with heq | hle
        · exact absurd (heq ▸ List.mem_append_right k (List.mem_singleton_self _)) hfree
        · exact hle
      · exact absurd (hge.subset (List.mem_append_right k (List.mem_singleton_self _))) hfree
    obtain ⟨rest, rfl⟩ := hin.trans hfront
    have hdrop : ("export".toList ++ rest ++ '=' :: v).drop "export".length = rest ++ '=' :: v := by
      rw [List.append_assoc]
      exact List.drop_left
    have hrest : '=' ∉ rest := fun hmem => hk (List.mem_append_right _ hmem)
    rw [hdrop, raw_dropWhile, raw_append_cons hrest, raw_append_cons hk]
  · rfl

/-- One line, as vpnctl reads it. -/
theorem readLine_eq (line : Text) : Dotenv.readLine line =
    if isAssignment (strip line) then some (key line, Dotenv.unquote (strip (raw line))) else none := by
  unfold Dotenv.readLine
  by_cases h : isAssignment (strip line) = true
  · have hmem : '=' ∈ strip line := by
      simp only [isAssignment, Bool.and_eq_true, decide_eq_true_eq] at h
      exact h.2
    have hraw : strip ((Text.cut '=' (withoutExport (strip line))).2.getD []) = strip (raw line) :=
      (congrArg strip (raw_withoutExport hmem)).trans (strip_raw_strip hmem)
    dsimp only
    rw [if_pos h, if_pos h, hraw]
    rfl
  · dsimp only
    rw [if_neg h, if_neg h]

/-- What compose makes of a value that ends on its line. -/
def composed (raw : Text) : Text :=
  match strip raw with
  | c :: body => if c ∈ Dotenv.quotes then (Text.cut c body).1 else strip (Compose.beforeComment false raw)
  | [] => []

/-- One line, as compose reads it. -/
def composeLine (line : Text) : Option (Text × Text) :=
  if isAssignment (strip line) then some (key line, composed (raw line)) else none

/-- A value without a number sign behind white space has no comment. -/
theorem beforeComment_of_plain {t : Text} {white : Bool} (hhead : white = true → t.head? ≠ some '#')
    (h : ∀ a s b, t = a ++ s :: '#' :: b → isSpace s = false) : Compose.beforeComment white t = t := by
  induction t generalizing white with
  | nil => rfl
  | cons c t ih =>
    have hc : ¬ (c = '#' ∧ white = true) := fun hc => hhead hc.2 (congrArg some hc.1)
    rw [Compose.beforeComment, if_neg hc, ih]
    · intro hspace hmark
      obtain ⟨t', rfl⟩ : ∃ t', t = '#' :: t' := by
        cases t with
        | nil => cases hmark
        | cons d t' => exact ⟨t', by rw [Option.some_inj.mp hmark]⟩
      exact absurd hspace (by rw [h [] c t' rfl]; exact Bool.false_ne_true)
    · exact fun a s b hb => h (c :: a) s b (congrArg (c :: ·) hb)

/-- In front of a comment, the rest of the value is left out, and the number sign with it. -/
theorem beforeComment_of_comment {t a b : Text} {s : Char} {white : Bool} (ht : t = a ++ s :: '#' :: b) (hs : isSpace s = true) :
    ∃ rest, t = Compose.beforeComment white t ++ rest ∧ '#' ∈ rest := by
  induction a generalizing t white with
  | nil =>
    have hne : ¬ (s = '#' ∧ white = true) := by
      rintro ⟨rfl, -⟩
      exact absurd hs (by decide)
    refine ⟨'#' :: b, ?_, List.mem_cons_self ..⟩
    rw [ht, List.nil_append, Compose.beforeComment, if_neg hne, hs, Compose.beforeComment, if_pos ⟨rfl, rfl⟩]
    rfl
  | cons c a ih =>
    subst ht
    rw [List.cons_append, Compose.beforeComment]
    split
    · rename_i hc
      exact ⟨_, rfl, by rw [hc.1]; exact List.mem_cons_self ..⟩
    · obtain ⟨rest, hrest, hmem⟩ := @ih _ (isSpace c) rfl
      exact ⟨rest, congrArg (c :: ·) hrest, hmem⟩

/-- Trimming takes no number sign away. -/
theorem count_strip (t : Text) : (strip t).count '#' = t.count '#' := by
  obtain ⟨a, b, ht, ha, hb⟩ := exists_strip t
  have hnone : ∀ s : Text, (∀ c ∈ s, isSpace c = true) → s.count '#' = 0 := fun s hs =>
    List.count_eq_zero.mpr fun hmem => absurd (hs _ hmem) (by decide)
  conv_rhs => rw [ht]
  rw [List.count_append, List.count_append, hnone a ha, hnone b hb]
  omega

/-- An unquoted value is the same without its comment exactly if it has none. -/
theorem strip_beforeComment_iff {t : Text} : strip (Compose.beforeComment false t) = strip t ↔
    ∀ a s b, t = a ++ s :: '#' :: b → isSpace s = false := by
  refine ⟨fun h a s b ht => ?_, fun h => by rw [beforeComment_of_plain (fun hf => absurd hf Bool.false_ne_true) h]⟩
  by_contra hs
  obtain ⟨rest, hrest, hmem⟩ := @beforeComment_of_comment _ _ _ _ false ht (eq_true_of_ne_false hs)
  have hcount := congrArg (List.count '#') h
  rw [count_strip, count_strip] at hcount
  conv_rhs at hcount => rw [hrest, List.count_append]
  have hpos := List.count_pos_iff.mpr hmem
  omega

/-- Both readers make the same of a value exactly if it is plain. -/
theorem unquote_eq_composed_iff {t : Text} : Dotenv.unquote (strip t) = composed t ↔ Plain t := by
  unfold composed Plain
  cases hstrip : strip t with
  | nil =>
    refine iff_of_true rfl ⟨nofun, fun _ a s b ht => ?_⟩
    have hcount := count_strip t
    have hpos : 0 < t.count '#' := List.count_pos_iff.mpr (by rw [ht]; simp)
    rw [hstrip, List.count_nil] at hcount
    omega
  | cons c body =>
    by_cases hc : c ∈ Dotenv.quotes
    · have hfst : c ∉ (Text.cut c body).1 := by
        rcases Text.cut_cases c body with ⟨hnot, hcut⟩ | ⟨a, b, -, ha, hcut⟩
        · rw [hcut]
          exact hnot
        · rw [hcut]
          exact ha
      dsimp only
      rw [if_pos hc, Dotenv.unquote]
      constructor
      · intro h
        refine ⟨fun c' body' heq _ => ?_, fun hnot => absurd hc (hnot c rfl)⟩
        obtain ⟨rfl, rfl⟩ := List.cons.inj heq
        split at h
        · rename_i hwrap
          obtain ⟨value, hvalue⟩ := List.getLast?_eq_some_iff.mp hwrap.2.1
          refine ⟨value, hvalue, ?_⟩
          rw [← h, hvalue, List.dropLast_concat] at hfst
          exact hfst
        · rw [← h] at hfst
          exact absurd (List.mem_cons_self ..) hfst
      · rintro ⟨h, -⟩
        obtain ⟨value, rfl, hvalue⟩ := h c body rfl hc
        have hwrap : value ++ [c] ≠ [] ∧ (value ++ [c]).getLast? = some c ∧ c ∈ Dotenv.quotes :=
          ⟨by simp, by simp, hc⟩
        rw [if_pos hwrap, List.dropLast_concat, Text.cut_append_cons hvalue]
    · have hbare : Dotenv.unquote (c :: body) = c :: body := by
        rw [Dotenv.unquote, if_neg fun h => hc h.2.2]
      dsimp only
      rw [if_neg hc, hbare, ← hstrip, eq_comm, strip_beforeComment_iff, hstrip]
      refine ⟨fun h => ⟨fun c' body' heq hc' => ?_, fun _ => h⟩, fun h => h.2 fun c' hc' => ?_⟩
      · obtain ⟨rfl, rfl⟩ := List.cons.inj heq
        exact absurd hc' hc
      · obtain rfl := Option.some_inj.mp hc'
        exact hc

end Line

/-! ## The file, line by line -/

section File

/-- What ends a line: the end of the file, or a newline. -/
def EndsLine (tail : Text) : Prop := tail = [] ∨ ∃ rest, tail = '\n' :: rest

/-- A line ends where the lines of the file do. -/
theorem firstLine_append {line tail : Text} (h : '\n' ∉ line) (htail : EndsLine tail) :
    Compose.firstLine (line ++ tail) = line := by
  have hall : ∀ c ∈ line, decide (c ≠ '\n') = true := fun c hc => decide_eq_true fun heq => h (heq ▸ hc)
  rw [Compose.firstLine, List.takeWhile_append_of_pos hall]
  rcases htail with rfl | ⟨rest, rfl⟩
  · rw [List.takeWhile_nil, List.append_nil]
  · rw [List.takeWhile_cons_of_neg (by decide), List.append_nil]

/-- Behind the end of a line come the other lines. -/
theorem afterLine_append {line tail : Text} (h : '\n' ∉ line) (htail : EndsLine tail) :
    Compose.afterLine (line ++ tail) = tail.drop 1 := by
  have hall : ∀ c ∈ line, decide (c ≠ '\n') = true := fun c hc => decide_eq_true fun heq => h (heq ▸ hc)
  rw [Compose.afterLine, List.dropWhile_append_of_pos hall]
  rcases htail with rfl | ⟨rest, rfl⟩
  · rfl
  · rw [List.dropWhile_cons_of_neg (by decide)]

/-- A value that ends on its line is read from the line. -/
theorem readValue_append {raw tail : Text} (h : '\n' ∉ raw) (htail : EndsLine tail)
    (hcloses : ∀ c body, strip raw = c :: body → c ∈ Dotenv.quotes → c ∈ body) :
    Compose.readValue (raw ++ tail) = some (composed raw, tail.drop 1) := by
  obtain ⟨a, b, hraw, ha, hb⟩ := exists_strip raw
  have hline : ∀ s : Text, (∀ c ∈ s, c ∈ raw) → ∀ c ∈ s, isSpace c = true → Compose.isBlank c = true := by
    intro s hs c hc hspace
    have hne : c ≠ '\n' := fun heq => h (heq ▸ hs c hc)
    rw [Compose.isBlank, hspace, Bool.true_and]
    exact decide_eq_true hne
  have hain : ∀ c ∈ a, c ∈ raw := fun c hc => by
    rw [hraw]
    exact List.mem_append_left _ (List.mem_append_left _ hc)
  have hbin : ∀ c ∈ b, c ∈ raw := fun c hc => by
    rw [hraw]
    exact List.mem_append_right _ hc
  have hfront : (raw ++ tail).dropWhile Compose.isBlank = (strip raw ++ b ++ tail).dropWhile Compose.isBlank := by
    conv_lhs => rw [hraw]
    rw [List.append_assoc, List.append_assoc, List.append_assoc,
      List.dropWhile_append_of_pos fun c hc => hline a hain c hc (ha c hc)]
  unfold Compose.readValue composed
  rw [hfront, firstLine_append h htail, afterLine_append h htail]
  cases hstrip : strip raw with
  | nil =>
    have hplain : ∀ d s e, raw = d ++ s :: '#' :: e → isSpace s = false := by
      intro d s e hd
      have hpos : 0 < raw.count '#' := List.count_pos_iff.mpr (by rw [hd]; simp)
      have hcount := count_strip raw
      rw [hstrip, List.count_nil] at hcount
      omega
    have hvalue : strip (Compose.beforeComment false raw) = [] := (strip_beforeComment_iff.mpr hplain).trans hstrip
    rw [List.nil_append, List.dropWhile_append_of_pos fun c hc => hline b hbin c hc (hb c hc), hvalue]
    rcases htail with rfl | ⟨rest, rfl⟩
    · rfl
    · rw [List.dropWhile_cons_of_neg (by decide)]
      dsimp only
      rw [if_neg (by decide)]
  | cons c body =>
    have hc : ¬ Compose.isBlank c = true := by
      rw [Compose.isBlank, strip_head hstrip]
      exact Bool.false_ne_true
    rw [List.cons_append, List.cons_append, List.dropWhile_cons_of_neg hc]
    dsimp only
    split
    · rename_i hquote
      obtain ⟨value, after, rfl, hvalue⟩ := List.eq_append_cons_of_mem (hcloses c body hstrip hquote)
      have hafter : '\n' ∉ after ++ b := by
        intro hmem
        refine h ?_
        rw [hraw, hstrip]
        simp only [List.mem_append, List.mem_cons] at hmem ⊢
        tauto
      have htext : value ++ c :: after ++ b ++ tail = value ++ c :: (after ++ b ++ tail) := by simp
      rw [htext, Text.cut_append_cons hvalue, Text.cut_append_cons hvalue]
      dsimp only
      rw [afterLine_append hafter htail]
    · rfl

/-- The reader is at the beginning of a line. -/
theorem readFrom_append {line tail : Text} {n : Nat} (h : '\n' ∉ line) (htail : EndsLine tail) (hne : line ++ tail ≠ [])
    (hcloses : isAssignment (strip line) = true → ∀ c body, strip (raw line) = c :: body → c ∈ Dotenv.quotes → c ∈ body) :
    Compose.readFrom (n + 1) (line ++ tail) = (Compose.readFrom n (tail.drop 1)).map ((composeLine line).toList ++ ·) := by
  rw [Compose.readFrom, if_neg hne, firstLine_append h htail, afterLine_append h htail, composeLine]
  dsimp only
  split
  · rename_i hassign
    have hmem : '=' ∈ line := by
      obtain ⟨a, b, hline, -, -⟩ := exists_strip line
      simp only [isAssignment, Bool.and_eq_true, decide_eq_true_eq] at hassign
      rw [hline]
      exact List.mem_append_left _ (List.mem_append_right _ hassign.2)
    have hbehind : ((Text.cut '=' (line ++ tail)).2.getD []) = raw line ++ tail := by
      obtain ⟨k, v, rfl, hk⟩ := List.eq_append_cons_of_mem hmem
      rw [List.append_assoc, List.cons_append, Text.cut_append_cons hk, raw_append_cons hk]
      rfl
    have hraw : '\n' ∉ raw line := by
      obtain ⟨k, v, rfl, hk⟩ := List.eq_append_cons_of_mem hmem
      rw [raw_append_cons hk]
      exact fun hv => h (List.mem_append_right _ (List.mem_cons_of_mem _ hv))
    rw [hbehind, readValue_append hraw htail (hcloses hassign)]
    rfl
  · cases Compose.readFrom n (tail.drop 1) <;> rfl

/-- Compose reads a file of lines whose values end on their lines line by line. -/
theorem readFrom_lines {lines : List Text} (hnl : ∀ line ∈ lines, '\n' ∉ line)
    (hcloses : ∀ line ∈ lines, isAssignment (strip line) = true →
      ∀ c body, strip (raw line) = c :: body → c ∈ Dotenv.quotes → c ∈ body) {n : Nat}
    (hn : (['\n'].intercalate lines).length ≤ n) :
    Compose.readFrom n (['\n'].intercalate lines) = some (lines.filterMap composeLine) := by
  have hnil : ∀ n, Compose.readFrom n [] = some [] := fun n => by
    cases n <;> rfl
  have hempty : composeLine [] = none := rfl
  induction lines generalizing n with
  | nil => exact hnil n
  | cons line lines ih =>
    have hline := hnl line (List.mem_cons_self ..)
    have hvalue := hcloses line (List.mem_cons_self ..)
    have hrest := fun {n : Nat} hn => ih (fun l hl => hnl l (List.mem_cons_of_mem _ hl))
      (fun l hl => hcloses l (List.mem_cons_of_mem _ hl)) (n := n) hn
    have htail : ∃ tail, ['\n'].intercalate (line :: lines) = line ++ tail ∧ EndsLine tail ∧
        tail.drop 1 = ['\n'].intercalate lines := by
      cases lines with
      | nil => exact ⟨[], by simp, .inl rfl, rfl⟩
      | cons l ls =>
        refine ⟨'\n' :: ['\n'].intercalate (l :: ls), ?_, .inr ⟨_, rfl⟩, rfl⟩
        rw [List.intercalate_cons_cons, List.append_assoc, List.singleton_append]
    obtain ⟨tail, htext, hends, hdrop⟩ := htail
    have hcons : (line :: lines).filterMap composeLine = (composeLine line).toList ++ lines.filterMap composeLine := by
      rw [List.filterMap_cons]
      cases composeLine line <;> rfl
    rw [htext] at hn ⊢
    by_cases hne : line ++ tail = []
    · obtain ⟨rfl, rfl⟩ := List.append_eq_nil_iff.mp hne
      have hlines := hrest (n := 0) (by rw [← hdrop]; exact Nat.le_refl 0)
      rw [← hdrop, List.drop_nil, hnil] at hlines
      rw [List.append_nil, hnil, hcons, hempty, ← Option.some_inj.mp hlines]
      rfl
    · cases n with
      | zero => exact absurd (List.length_eq_zero_iff.mp (Nat.le_zero.mp hn)) hne
      | succ n =>
        have hlength : (['\n'].intercalate lines).length ≤ n := by
          rw [← hdrop, List.length_drop]
          rw [List.length_append] at hn
          have hpos : 0 < line.length + tail.length := by
            rw [← List.length_append]
            exact List.length_pos_of_ne_nil hne
          rcases hends with rfl | ⟨rest, rfl⟩
          · exact Nat.zero_le _
          · rw [List.length_cons] at hn ⊢
            omega
        rw [readFrom_append hline hends hne hvalue, hdrop, hrest hlength, hcons]
        rfl

/-- A run without a line break belongs to the line it is read on. -/
theorem splitlinesFrom_run {line t : Text} (h : ∀ c ∈ t, isLineBreak c = false) (rest : Text) :
    splitlinesFrom false line (t ++ rest) = splitlinesFrom false (line ++ t) rest := by
  induction t generalizing line with
  | nil => rw [List.nil_append, List.append_nil]
  | cons c t ih =>
    have hc := h c (List.mem_cons_self ..)
    rw [List.cons_append, splitlinesFrom, Bool.false_and, if_neg Bool.false_ne_true, if_neg (by rw [hc]; exact Bool.false_ne_true),
      ih (fun d hd => h d (List.mem_cons_of_mem _ hd)), List.append_assoc, List.singleton_append]

/-- A carriage return at the end of a line is white space to both readers. -/
theorem readLine_concat (t : Text) : Dotenv.readLine (t ++ ['\r']) = Dotenv.readLine t := by
  have hstrip : strip (t ++ ['\r']) = strip t := strip_append_space (by decide)
  simp only [Dotenv.readLine, hstrip]

/-- vpnctl reads the lines between newlines. -/
theorem splitlines_lines {lines : List Text}
    (h : ∀ line ∈ lines, ∃ t, (line = t ∨ line = t ++ ['\r']) ∧ ∀ c ∈ t, isLineBreak c = false) :
    (splitlines (['\n'].intercalate lines)).filterMap Dotenv.readLine = lines.filterMap Dotenv.readLine := by
  have hempty : Dotenv.readLine [] = none := rfl
  induction lines with
  | nil => rfl
  | cons line lines ih =>
    obtain ⟨t, hline, ht⟩ := h line (List.mem_cons_self ..)
    have hread : Dotenv.readLine line = Dotenv.readLine t := by
      rcases hline with rfl | rfl
      · rfl
      · exact readLine_concat t
    have hrest := ih fun l hl => h l (List.mem_cons_of_mem _ hl)
    cases lines with
    | nil =>
      rw [List.intercalate_singleton, splitlines, List.filterMap_cons, List.filterMap_nil, hread]
      rcases hline with rfl | rfl
      · rw [← List.append_nil line, splitlinesFrom_run ht, List.append_nil, List.nil_append, splitlinesFrom]
        cases line with
        | nil => rfl
        | cons c cs => rfl
      · rw [splitlinesFrom_run ht]
        rfl
    | cons l ls =>
      have hsplit : splitlines (['\n'].intercalate (line :: l :: ls)) = t :: splitlines (['\n'].intercalate (l :: ls)) := by
        rw [List.intercalate_cons_cons, List.append_assoc, List.singleton_append]
        rcases hline with rfl | rfl
        · exact splitlinesFrom_append ht _
        · rw [List.append_assoc, splitlines, splitlinesFrom_run ht]
          rfl
      rw [hsplit, List.filterMap_cons, List.filterMap_cons, hread, hrest]

end File

/-! ## The variables -/

section Variables

variable {text k : Text}

/-- The last line that assigns a variable decides it. -/
theorem lookup_lines (value : Text → Text) (lines : List Text) (k : Text) :
    (Dict.ofPairs (lines.filterMap fun line => if isAssignment (strip line) then some (key line, value line) else none)).lookup k =
      ((lines.filter fun line => isAssignment (strip line) ∧ key line = k).getLast?).map value := by
  induction lines using List.reverseRecOn with
  | nil => rfl
  | append_singleton lines line ih =>
    rw [List.filterMap_append, List.filter_append]
    by_cases hassign : isAssignment (strip line) = true
    · rw [List.filterMap_cons, if_pos hassign, List.filterMap_nil, Dict.ofPairs_concat, Dict.lookup_set]
      by_cases hk : key line = k
      · rw [if_pos hk.symm, List.filter_cons_of_pos (by simp [hassign, hk]), List.filter_nil, List.getLast?_append]
        rfl
      · rw [if_neg (Ne.symm hk), ih, List.filter_cons_of_neg (by simp [hk]), List.filter_nil, List.append_nil]
    · rw [List.filterMap_cons, if_neg hassign, List.filterMap_nil, List.append_nil, ih,
        List.filter_cons_of_neg (by simp [hassign]), List.filter_nil, List.append_nil]

/-- What vpnctl finds in a tidy file. -/
theorem get_eq (h : Tidy text) : Dotenv.get text k = (decisive text k).map fun line => Dotenv.unquote (strip (raw line)) := by
  have hlines : (splitlines text).filterMap Dotenv.readLine = (linesOf text).filterMap Dotenv.readLine := by
    have hsplit := splitlines_lines h.breaks
    rw [linesOf, List.intercalate_splitOn] at hsplit
    exact hsplit
  have hread : Dotenv.readLine = fun line => if isAssignment (strip line) then
      some (key line, Dotenv.unquote (strip (raw line))) else none := funext readLine_eq
  rw [Dotenv.get, Dotenv.read, hlines, hread]
  exact lookup_lines (fun line => Dotenv.unquote (strip (raw line))) (linesOf text) k

/-- What compose finds in it. -/
theorem compose_read_eq (h : Tidy text) : ∃ values, Compose.read text = some values ∧
    ∀ k, values.lookup k = (decisive text k).map fun line => composed (raw line) := by
  have hnl : ∀ line ∈ linesOf text, '\n' ∉ line := fun line hline hmem => by
    have hsep := @Text.sep_of_mem_splitOnP _ (· == '\n') _ _ hline _ hmem
    exact absurd hsep (by decide)
  have hread : Compose.readFrom text.length text = some ((linesOf text).filterMap composeLine) := by
    have hfrom := readFrom_lines hnl h.quotes (Nat.le_refl _)
    rw [linesOf, List.intercalate_splitOn] at hfrom
    exact hfrom
  refine ⟨Dict.ofPairs ((linesOf text).filterMap composeLine), by rw [Compose.read, hread]; rfl, fun k => ?_⟩
  exact lookup_lines (fun line => composed (raw line)) (linesOf text) k

/-- Left to the file, both readers agree exactly if its line is plain. -/
theorem file_agrees_iff (h : Tidy text) :
    ((Compose.read text).map fun values => (values.lookup k).getD []) = some ((Dotenv.get text k).getD []) ↔ Sound text k := by
  obtain ⟨values, hvalues, hlookup⟩ := compose_read_eq h
  rw [hvalues, Option.map_some, Option.some_inj, hlookup, get_eq h]
  unfold Sound
  cases decisive text k with
  | none => exact iff_of_true rfl fun _ hline => nomatch hline
  | some line =>
    rw [Option.map_some, Option.map_some, Option.getD_some, Option.getD_some, eq_comm, unquote_eq_composed_iff]
    exact ⟨fun hplain l hl => Option.some_inj.mp hl ▸ hplain, fun hall => hall line rfl⟩

/-- A value is wrapped, or it is as it stands. -/
theorem unquote_eq_iff {s value : Text} : Dotenv.unquote s = value ↔
    (∃ c ∈ Dotenv.quotes, s = c :: value ++ [c]) ∨ s = value ∧ ∀ c ∈ Dotenv.quotes, ∀ t, value ≠ c :: t ++ [c] := by
  have hwrapped : ∀ c ∈ Dotenv.quotes, ∀ t : Text, Dotenv.unquote (c :: t ++ [c]) = t := by
    intro c hc t
    have hwrap : t ++ [c] ≠ [] ∧ (t ++ [c]).getLast? = some c ∧ c ∈ Dotenv.quotes := ⟨by simp, by simp, hc⟩
    rw [List.cons_append, Dotenv.unquote, if_pos hwrap, List.dropLast_concat]
  by_cases hs : ∃ c ∈ Dotenv.quotes, ∃ t, s = c :: t ++ [c]
  · obtain ⟨c, hc, t, rfl⟩ := hs
    rw [hwrapped c hc t]
    constructor
    · rintro rfl
      exact .inl ⟨c, hc, rfl⟩
    · rintro (⟨c', -, heq⟩ | ⟨rfl, hno⟩)
      · obtain ⟨-, hrest⟩ := List.cons.inj heq
        exact (List.append_inj' hrest rfl).1
      · exact absurd rfl (hno c hc t)
  · have hbare : Dotenv.unquote s = s := by
      cases s with
      | nil => rfl
      | cons c rest =>
        rw [Dotenv.unquote, if_neg]
        rintro ⟨-, hlast, hc⟩
        obtain ⟨t, rfl⟩ := List.getLast?_eq_some_iff.mp hlast
        exact hs ⟨c, hc, t, rfl⟩
    rw [hbare]
    constructor
    · rintro rfl
      exact .inr ⟨rfl, fun c hc t ht => hs ⟨c, hc, t, ht⟩⟩
    · rintro (⟨c, hc, rfl⟩ | ⟨rfl, -⟩)
      · exact absurd ⟨c, hc, value, rfl⟩ hs
      · rfl

/-- vpnctl takes the variable for a value exactly where the file gives it that one. -/
theorem get_eq_iff (h : Tidy text) {value : Text} : (Dotenv.get text k).getD [] = value ↔ Written text k value := by
  rw [get_eq h, Written]
  cases decisive text k with
  | none => exact eq_comm
  | some line => exact unquote_eq_iff

/-- The readers agree on a tidy file exactly if the line that decides each variable is plain, unless the environment decides it:
then vpnctl must happen to read the host from the file, and an empty zone must be empty there. -/
theorem agrees_iff {environ : Environ} (h : Tidy text) : Agrees environ text ↔ HostSound environ text ∧ ZoneSound environ text := by
  have hhost : Compose.interpolated environ text hostVar = some ((Dotenv.get text hostVar).getD []) ↔ HostSound environ text := by
    unfold Compose.interpolated HostSound
    cases environ hostVar with
    | none => exact file_agrees_iff h
    | some value => exact Option.some_inj.trans (eq_comm.trans (get_eq_iff h))
  have hzone : Compose.interpolated environ text Dnstt.zoneVar = some (Render.dnsttZone environ text) ↔ ZoneSound environ text := by
    unfold Compose.interpolated ZoneSound Render.dnsttZone
    cases environ Dnstt.zoneVar with
    | none => exact file_agrees_iff h
    | some value =>
      cases value with
      | nil => exact Option.some_inj.trans (eq_comm.trans (get_eq_iff h))
      | cons c cs => exact iff_of_true rfl trivial
  exact and_congr hhost hzone

/-- A file as provision-host.sh begins it, with a zone. -/
def sampleFile : Text := "VPN_SERVER_HOST=203.0.113.7\nVPN_DNSTT_ZONE=\"t.example.com\"\n".toList

/-- An environment without either variable. -/
def noEnviron : Environ := fun _ => none

/-- Every line of the sample is a plain one. -/
theorem tidy_sample : Tidy sampleFile where
  breaks := by
    intro line hline
    refine ⟨line, .inl rfl, ?_⟩
    revert line
    decide
  quotes := by
    have hlines : linesOf sampleFile =
        ["VPN_SERVER_HOST=203.0.113.7".toList, "VPN_DNSTT_ZONE=\"t.example.com\"".toList, []] := by decide
    intro line hline _ c body hstrip hquote
    rw [hlines] at hline
    simp only [List.mem_cons, List.not_mem_nil, or_false] at hline
    rcases hline with rfl | rfl | rfl
    · have hvalue : strip (raw "VPN_SERVER_HOST=203.0.113.7".toList) = "203.0.113.7".toList := by decide
      rw [hvalue] at hstrip
      obtain ⟨rfl, -⟩ := List.cons.inj hstrip
      exact absurd hquote (by decide)
    · have hvalue : strip (raw "VPN_DNSTT_ZONE=\"t.example.com\"".toList) = "\"t.example.com\"".toList := by decide
      rw [hvalue] at hstrip
      obtain ⟨rfl, rfl⟩ := List.cons.inj hstrip
      decide
    · have hvalue : strip (raw []) = [] := by decide
      rw [hvalue] at hstrip
      cases hstrip

theorem agrees_sample : HostSound noEnviron sampleFile ∧ ZoneSound noEnviron sampleFile :=
  (agrees_iff tidy_sample).mp ⟨by decide, by decide⟩

/-- They disagree on a comment behind the zone, and on a zone that the environment sets to nothing. -/
theorem agrees_false : ¬ Agrees noEnviron "VPN_DNSTT_ZONE=t.example.com # ours\n".toList ∧
    ¬ Agrees (fun k => if k = Dnstt.zoneVar then some [] else none) sampleFile :=
  ⟨fun h => absurd h.2 (by decide), fun h => absurd h.2 (by decide)⟩

end Variables

end Interpolation

end VpnStack

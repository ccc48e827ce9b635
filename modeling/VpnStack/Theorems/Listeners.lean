import VpnStack.Listeners

/-!
# Where the readers of ss agree

The three programs split an output alike, so they differ in single lines only: in a line that ends before its fourth column, and in
an IPv6 loopback address without a port or with one that is no number.
-/

namespace VpnStack

open Python

namespace Listeners

/-! ## Cuts -/

/-- A text has no separator, or it is cut at the last. -/
theorem cutLast_cases (sep : Char) (t : Text) :
    (sep ∉ t ∧ Text.cutLast sep t = none) ∨ ∃ a b, t = a ++ sep :: b ∧ sep ∉ b ∧ Text.cutLast sep t = some (a, b) := by
  cases hcut : Text.cutLast sep t with
  | some ab =>
    obtain ⟨a, b⟩ := ab
    obtain ⟨ht, hb⟩ := Text.cutLast_eq_some.mp hcut
    exact .inr ⟨a, b, ht, hb, rfl⟩
  | none =>
    refine .inl ⟨fun hmem => ?_, rfl⟩
    obtain ⟨a, b, hrev, ha⟩ := List.eq_append_cons_of_mem (List.mem_reverse.mpr hmem)
    have ht : t = b.reverse ++ sep :: a.reverse := by
      rw [← List.reverse_reverse t, hrev]
      simp
    rw [ht, Text.cutLast_append_cons (by simpa using ha)] at hcut
    cases hcut

/-- What begins a text and has no separator in it begins what stands in front of the separator. -/
theorem prefix_append_cons {p a b : Text} {sep : Char} (h : sep ∉ p) : p <+: a ++ sep :: b ↔ p <+: a := by
  constructor
  · intro hp
    have ha : a ++ [sep] <+: a ++ sep :: b := by simp
    obtain hle | hle := List.prefix_or_prefix_of_prefix hp ha
    · obtain rfl | hle := List.prefix_concat_iff.mp hle
      · simp at h
      · exact hle
    · exact absurd (hle.subset (by simp)) h
  · intro hp
    exact hp.trans (List.prefix_append ..)

/-! ## Loopback addresses -/

/-- `127.` at the beginning. -/
def Loopback4 (t : Text) : Prop := "127.".toList <+: t

/-- The spellings of the IPv6 loopback address. -/
def Loopback6 (t : Text) : Prop := t = "[::1]" ∨ t = "::1"

theorem isLoopback_iff {t : Text} : isLoopback t = true ↔ Loopback4 t ∨ Loopback6 t := by
  simp [isLoopback, Loopback4, Loopback6, or_assoc]

theorem Loopback6.colon {t : Text} (h : Loopback6 t) : ':' ∈ t := by
  obtain rfl | rfl := h <;> decide

theorem Loopback6.scope {t : Text} (h : Loopback6 t) : '%' ∉ t := by
  obtain rfl | rfl := h <;> decide

theorem Loopback6.not_loopback4 {t : Text} (h : Loopback6 t) (rest : Text) : ¬ Loopback4 (t ++ rest) := by
  obtain rfl | rfl := h <;> simp [Loopback4]

/-- Two addresses with something behind them that begins with another character than theirs. -/
theorem Loopback6.tail {v v' r r' : Text} {c c' : Char} (h : Loopback6 v) (h' : Loopback6 v')
    (he : v ++ c :: r = v' ++ c' :: r') : c = c' ∧ r = r' := by
  obtain rfl | rfl := h <;> obtain rfl | rfl := h' <;> simp_all

/-- Without its scope an address is a loopback one of IPv4 exactly where it was with it. -/
theorem loopback4_cut {t : Text} : Loopback4 (Text.cut '%' t).1 ↔ Loopback4 t := by
  obtain ⟨-, hcut⟩ | ⟨a, b, rfl, -, hcut⟩ := Text.cut_cases '%' t
  · rw [hcut]
  · rw [hcut]
    exact (prefix_append_cons (by decide)).symm

/-- A decimal number has no character in it but digits. -/
theorem isDecimal_not_mem {t : Text} {c : Char} (h : isDecimal t = true) (hc : c.isDigit = false) : c ∉ t := by
  intro hmem
  simp only [isDecimal, Bool.and_eq_true, List.all_eq_true] at h
  rw [h.2 c hmem] at hc
  cases hc

/-! ## The fourth column -/

/-- What `_is_bound` takes for the address. -/
def boundHost (field : Text) : Text := (Text.cut '%' (rsplitPort field)).1

/-- What the awk program takes for it. -/
def foundHost (field : Text) : Text := subScope (subPort field)

/-- A loopback address that `_is_bound` knows: with a port of any text, or with a scope that has a colon in it or behind it. -/
theorem boundHost_loopback {field : Text} :
    isLoopback (boundHost field) = true ↔
      Loopback4 field ∨ ∃ v, Loopback6 v ∧ ((∃ r, ':' ∉ r ∧ field = v ++ ':' :: r) ∨ ∃ x, ':' ∈ x ∧ field = v ++ '%' :: x) := by
  have hfour : Loopback4 (boundHost field) ↔ Loopback4 field := by
    rw [boundHost, loopback4_cut, rsplitPort]
    obtain ⟨-, hcut⟩ | ⟨a, b, rfl, -, hcut⟩ := cutLast_cases ':' field
    · rw [hcut]
    · rw [hcut]
      exact (prefix_append_cons (by decide)).symm
  rw [isLoopback_iff, hfour]
  refine or_congr_right ⟨fun hsix => ⟨_, hsix, ?_⟩, ?_⟩
  · obtain ⟨hcolon, hlast⟩ | ⟨a, b, rfl, hb, hlast⟩ := cutLast_cases ':' field
    · have hmem : ':' ∈ field := (Text.cut_fst_prefix '%' field).subset (by simpa [boundHost, rsplitPort, hlast] using hsix.colon)
      exact absurd hmem hcolon
    · simp only [boundHost, rsplitPort, hlast]
      obtain ⟨-, hcut⟩ | ⟨c, d, rfl, -, hcut⟩ := Text.cut_cases '%' a
      · rw [hcut]
        exact .inl ⟨b, hb, rfl⟩
      · rw [hcut]
        exact .inr ⟨d ++ ':' :: b, by simp, by simp⟩
  · rintro ⟨v, hv, ⟨r, hr, rfl⟩ | ⟨x, hx, rfl⟩⟩
    · rw [boundHost, rsplitPort, Text.cutLast_append_cons hr, Text.cut_of_not_mem hv.scope]
      exact hv
    · obtain ⟨hcolon, -⟩ | ⟨a, b, rfl, hb, -⟩ := cutLast_cases ':' x
      · exact absurd hx hcolon
      · have hsplit : v ++ '%' :: (a ++ ':' :: b) = (v ++ '%' :: a) ++ ':' :: b := by simp
        rw [boundHost, rsplitPort, hsplit, Text.cutLast_append_cons hb, Text.cut_append_cons hv.scope]
        exact hv

/-- A loopback address that the awk program knows: with a number for its port, with a scope, or alone in brackets. -/
theorem foundHost_loopback {field : Text} :
    isLoopback (foundHost field) = true ↔
      Loopback4 field ∨ field = "[::1]" ∨
        ∃ v, Loopback6 v ∧ ((∃ r, isDecimal r = true ∧ field = v ++ ':' :: r) ∨ ∃ x, field = v ++ '%' :: x) := by
  have hfour : Loopback4 (foundHost field) ↔ Loopback4 field := by
    rw [foundHost, subScope, loopback4_cut, subPort]
    obtain ⟨-, hcut⟩ | ⟨a, b, rfl, -, hcut⟩ := cutLast_cases ':' field
    · rw [hcut]
    · rw [hcut]
      dsimp only
      split
      · exact (prefix_append_cons (by decide)).symm
      · rfl
  -- where the port is not cut off, the address is the column in front of its scope
  have hwhole : subPort field = field → Loopback6 (foundHost field) →
      field = "[::1]" ∨ ∃ v, Loopback6 v ∧ ((∃ r, isDecimal r = true ∧ field = v ++ ':' :: r) ∨ ∃ x, field = v ++ '%' :: x) := by
    intro hport hsix
    rw [foundHost, hport, subScope] at hsix
    obtain ⟨-, hcut⟩ | ⟨c, d, rfl, -, hcut⟩ := Text.cut_cases '%' field
    · rw [hcut] at hsix
      obtain rfl | rfl := hsix
      · exact .inl rfl
      · exact absurd hport (by decide)
    · rw [hcut] at hsix
      exact .inr ⟨c, hsix, .inr ⟨d, rfl⟩⟩
  rw [isLoopback_iff, hfour]
  refine or_congr_right ⟨fun hsix => ?_, ?_⟩
  · obtain ⟨-, hlast⟩ | ⟨a, b, hfield, hb, hlast⟩ := cutLast_cases ':' field
    · exact hwhole (by rw [subPort, hlast]) hsix
    · cases hnumber : isDecimal b with
      | false => exact hwhole (by rw [subPort, hlast]; simp [hnumber]) hsix
      | true =>
        rw [foundHost, subPort, hlast] at hsix
        simp only [hnumber, if_true, subScope] at hsix
        subst hfield
        obtain ⟨-, hcut⟩ | ⟨c, d, rfl, -, hcut⟩ := Text.cut_cases '%' a
        · rw [hcut] at hsix
          exact .inr ⟨a, hsix, .inl ⟨b, hnumber, rfl⟩⟩
        · rw [hcut] at hsix
          exact .inr ⟨c, hsix, .inr ⟨d ++ ':' :: b, by simp⟩⟩
  · rintro (rfl | ⟨v, hv, ⟨r, hr, rfl⟩ | ⟨x, rfl⟩⟩)
    · exact .inl (by decide)
    · rw [foundHost, subPort, Text.cutLast_append_cons (isDecimal_not_mem hr (by decide))]
      simp only [hr, if_true, subScope, Text.cut_of_not_mem hv.scope]
      exact hv
    · obtain ⟨hcolon, -⟩ | ⟨a, b, rfl, hb, -⟩ := cutLast_cases ':' x
      · -- the last colon is one of the address, and what follows it is no number
        obtain ⟨hnone, -⟩ | ⟨a, b, hab, hb, -⟩ := cutLast_cases ':' v
        · exact absurd hv.colon hnone
        · have hsplit : v ++ '%' :: x = a ++ ':' :: (b ++ '%' :: x) := by simp [hab]
          have hlast : Text.cutLast ':' (v ++ '%' :: x) = some (a, b ++ '%' :: x) := by
            rw [hsplit, Text.cutLast_append_cons]
            simp only [List.mem_append, List.mem_cons, not_or]
            exact ⟨hb, by decide, hcolon⟩
          have hnumber : isDecimal (b ++ '%' :: x) = false := by
            by_contra hnumber
            exact isDecimal_not_mem (c := '%') (by simpa using hnumber) (by decide) (by simp)
          rw [foundHost, subPort, hlast]
          simp only [hnumber, subScope, Bool.false_eq_true, if_false, Text.cut_append_cons hv.scope]
          exact hv
      · have hsplit : v ++ '%' :: (a ++ ':' :: b) = (v ++ '%' :: a) ++ ':' :: b := by simp
        rw [foundHost, subPort, hsplit, Text.cutLast_append_cons hb]
        dsimp only
        split
        · rw [subScope, Text.cut_append_cons hv.scope]
          exact hv
        · rw [← hsplit, subScope, Text.cut_append_cons hv.scope]
          exact hv

/-! ## Where the two differ on a column -/

/-- A loopback address, whichever way it is read. -/
def Local (field : Text) : Prop :=
  Loopback4 field ∨ field = "[::1]" ∨
    ∃ v, Loopback6 v ∧ ((∃ r, ':' ∉ r ∧ field = v ++ ':' :: r) ∨ ∃ x, field = v ++ '%' :: x)

/-- An IPv6 loopback address with a port that is no number. -/
def Unnumbered (field : Text) : Prop := ∃ v r, Loopback6 v ∧ ':' ∉ r ∧ isDecimal r = false ∧ field = v ++ ':' :: r

/-- An IPv6 loopback address without a port. -/
def Unported (field : Text) : Prop := field = "[::1]" ∨ ∃ v x, Loopback6 v ∧ ':' ∉ x ∧ field = v ++ '%' :: x

/-- Both programs take the column for something else exactly where it is no loopback address. -/
theorem not_local_iff {field : Text} :
    ¬ Local field ↔ isLoopback (boundHost field) = false ∧ isLoopback (foundHost field) = false := by
  rw [← Bool.not_eq_true, ← Bool.not_eq_true, boundHost_loopback, foundHost_loopback, ← not_or]
  refine not_congr ⟨?_, ?_⟩
  · rintro (h | h | ⟨v, hv, h | ⟨x, h⟩⟩)
    · exact .inl (.inl h)
    · exact .inr (.inr (.inl h))
    · exact .inl (.inr ⟨v, hv, .inl h⟩)
    · exact .inr (.inr (.inr ⟨v, hv, .inr ⟨x, h⟩⟩))
  · rintro ((h | ⟨v, hv, h | ⟨x, -, h⟩⟩) | (h | h | ⟨v, hv, ⟨r, hr, h⟩ | h⟩))
    · exact .inl h
    · exact .inr (.inr ⟨v, hv, .inl h⟩)
    · exact .inr (.inr ⟨v, hv, .inr ⟨x, h⟩⟩)
    · exact .inl h
    · exact .inr (.inl h)
    · exact .inr (.inr ⟨v, hv, .inl ⟨r, isDecimal_not_mem hr (by decide), h⟩⟩)
    · exact .inr (.inr ⟨v, hv, .inr h⟩)

theorem Loopback6.not_bracketed {v : Text} (h : Loopback6 v) (c : Char) (r : Text) : "[::1]".toList ≠ v ++ c :: r := by
  obtain rfl | rfl := h <;> simp

/-- `_is_bound` alone takes the column for a loopback address exactly where its port is no number. -/
theorem unnumbered_iff {field : Text} :
    Unnumbered field ↔ isLoopback (boundHost field) = true ∧ isLoopback (foundHost field) = false := by
  rw [← Bool.not_eq_true, boundHost_loopback, foundHost_loopback]
  constructor
  · rintro ⟨v, r, hv, hr, hnumber, rfl⟩
    refine ⟨.inr ⟨v, hv, .inl ⟨r, hr, rfl⟩⟩, ?_⟩
    rintro (h | h | ⟨v', hv', ⟨r', hr', h⟩ | ⟨x, h⟩⟩)
    · exact hv.not_loopback4 _ h
    · exact hv.not_bracketed _ _ h.symm
    · obtain ⟨-, rfl⟩ := hv.tail hv' h
      rw [hnumber] at hr'
      cases hr'
    · exact absurd (hv.tail hv' h).1 (by decide)
  · rintro ⟨h | ⟨v, hv, ⟨r, hr, rfl⟩ | ⟨x, -, rfl⟩⟩, hnot⟩
    · exact absurd (.inl h) hnot
    · refine ⟨v, r, hv, hr, ?_, rfl⟩
      by_contra hnumber
      exact hnot (.inr (.inr ⟨v, hv, .inl ⟨r, by simpa using hnumber, rfl⟩⟩))
    · exact absurd (.inr (.inr ⟨v, hv, .inr ⟨x, rfl⟩⟩)) hnot

/-- The awk program alone takes the column for a loopback address exactly where it has no port. -/
theorem unported_iff {field : Text} :
    Unported field ↔ isLoopback (boundHost field) = false ∧ isLoopback (foundHost field) = true := by
  rw [← Bool.not_eq_true, boundHost_loopback, foundHost_loopback]
  constructor
  · rintro (rfl | ⟨v, x, hv, hx, rfl⟩)
    · refine ⟨?_, .inr (.inl rfl)⟩
      rintro (h | ⟨v, hv, ⟨r, -, h⟩ | ⟨x, -, h⟩⟩)
      · exact absurd h (by simp [Loopback4])
      · exact hv.not_bracketed _ _ h
      · exact hv.not_bracketed _ _ h
    · refine ⟨?_, .inr (.inr ⟨v, hv, .inr ⟨x, rfl⟩⟩)⟩
      rintro (h | ⟨v', hv', ⟨r, -, h⟩ | ⟨x', hx', h⟩⟩)
      · exact hv.not_loopback4 _ h
      · exact absurd (hv.tail hv' h).1 (by decide)
      · obtain ⟨-, rfl⟩ := hv.tail hv' h
        exact hx hx'
  · rintro ⟨hnot, h | h | ⟨v, hv, ⟨r, hr, rfl⟩ | ⟨x, rfl⟩⟩⟩
    · exact absurd (.inl h) hnot
    · exact .inl h
    · exact absurd (.inr ⟨v, hv, .inl ⟨r, isDecimal_not_mem hr (by decide), rfl⟩⟩) hnot
    · refine .inr ⟨v, x, hv, fun hx => ?_, rfl⟩
      exact hnot (.inr ⟨v, hv, .inr ⟨x, hx, rfl⟩⟩)

/-! ## The lines of an output -/

/-- The characters of a line are those of the text. -/
theorem mem_of_mem_lines {t line : Text} (h : line ∈ Text.lines '\n' t) {c : Char} (hc : c ∈ line) : c ∈ t := by
  have hmem : line ∈ t.splitOn '\n' := by
    simp only [Text.lines] at h
    split at h
    · exact List.dropLast_subset _ h
    · exact h
  have hall := Text.mem_intercalate (s := '\n') hmem hc
  rwa [List.intercalate_splitOn '\n'] at hall

/-- Python and awk split a line of `ss` into the same columns. -/
theorem Output.columns (out : Output) {line : Text} (h : line ∈ Text.lines '\n' out.text) :
    Text.words awkBlank line = split line := by
  refine Text.words_congr fun c hc => ?_
  cases hspace : isSpace c with
  | true =>
    obtain rfl | rfl | rfl := out.blank c (mem_of_mem_lines h hc) hspace <;> rfl
  | false =>
    by_contra hblank
    simp only [awkBlank, Bool.not_eq_false, Bool.or_eq_true, beq_iff_eq] at hblank
    obtain (rfl | rfl) | rfl := hblank <;> cases hspace

/-- The lines of an output end at newlines only. -/
theorem Output.splitlines (out : Output) : Python.splitlines out.text = Text.lines '\n' out.text := by
  refine splitlines_eq_lines fun c hc hbreak => ?_
  obtain rfl | rfl | rfl := out.blank c hc (isSpace_of_isLineBreak hbreak)
  · cases hbreak
  · cases hbreak
  · rfl

/-- Two tests find something in a list alike, when both find one element, or when each that only one of them finds comes with one that
only the other does. -/
theorem any_eq_any_iff {α : Type} {p q : α → Bool} {l : List α} :
    l.any p = l.any q ↔
      (∃ a ∈ l, p a = true ∧ q a = true) ∨
        ((∃ a ∈ l, p a = false ∧ q a = true) ↔ ∃ a ∈ l, p a = true ∧ q a = false) := by
  rw [Bool.eq_iff_iff, List.any_eq_true, List.any_eq_true]
  constructor
  · intro h
    by_cases hboth : ∃ a ∈ l, p a = true ∧ q a = true
    · exact .inl hboth
    · push Not at hboth
      refine .inr ⟨?_, ?_⟩
      · rintro ⟨a, ha, -, hq⟩
        obtain ⟨b, hb, hp⟩ := h.mpr ⟨a, ha, hq⟩
        exact ⟨b, hb, hp, by simpa using hboth b hb hp⟩
      · rintro ⟨a, ha, hp, -⟩
        obtain ⟨b, hb, hq⟩ := h.mp ⟨a, ha, hp⟩
        refine ⟨b, hb, ?_, hq⟩
        by_contra hpb
        exact hboth b hb (by simpa using hpb) hq
  · rintro (⟨a, ha, hp, hq⟩ | h)
    · exact ⟨fun _ => ⟨a, ha, hq⟩, fun _ => ⟨a, ha, hp⟩⟩
    · constructor
      · rintro ⟨a, ha, hp⟩
        cases hq : q a with
        | true => exact ⟨a, ha, hq⟩
        | false =>
          obtain ⟨b, hb, -, hqb⟩ := h.mpr ⟨a, ha, hp, hq⟩
          exact ⟨b, hb, hqb⟩
      · rintro ⟨a, ha, hq⟩
        cases hp : p a with
        | true => exact ⟨a, ha, hp⟩
        | false =>
          obtain ⟨b, hb, hpb, -⟩ := h.mp ⟨a, ha, hp, hq⟩
          exact ⟨b, hb, hpb⟩

/-- The fourth column of a line, if it is there and such. -/
def Fourth (kind : Text → Prop) (line : Text) : Prop := ∃ field, (split line)[3]? = some field ∧ kind field

/-- A line that ends before its fourth column. -/
def Short (line : Text) : Prop := (split line).length < 4

/-- The three verdicts are one exactly if some line shows a listener beyond doubt, or if lines that only awk counts (the short, and the
loopback address with a port that is no number) come only together with lines that only Python counts (the loopback address without a
port). -/
theorem verdicts_agree_iff (out : Output) :
    (isBound out.text = served out.text ∧ isBound out.text = portsBoundServed out.text) ↔
      (∃ line ∈ Text.lines '\n' out.text, Fourth (¬ Local ·) line) ∨
        ((∃ line ∈ Text.lines '\n' out.text, Short line ∨ Fourth Unnumbered line) ↔
          ∃ line ∈ Text.lines '\n' out.text, Fourth Unported line) := by
  have hlines : isBound out.text = (Text.lines '\n' out.text).any boundBy := by rw [isBound, out.splitlines]
  have hline : ∀ line ∈ Text.lines '\n' out.text,
      (boundBy line = true ∧ foundBy line = true ↔ Fourth (¬ Local ·) line) ∧
      (boundBy line = false ∧ foundBy line = true ↔ Short line ∨ Fourth Unnumbered line) ∧
      (boundBy line = true ∧ foundBy line = false ↔ Fourth Unported line) := by
    intro line hmem
    rw [boundBy, foundBy, out.columns hmem]
    cases hfield : (split line)[3]? with
    | none =>
      have hshort : Short line := Nat.lt_succ_of_le (List.getElem?_eq_none_iff.mp hfield)
      have hempty : isLoopback (subScope (subPort [])) = false := by decide
      simp [Fourth, hfield, hshort, hempty]
    | some field =>
      have hlong : ¬ Short line := by
        have := (List.getElem?_eq_some_iff.mp hfield).1
        simp only [Short]
        omega
      have hhost : (Text.cut '%' (rsplitPort field)).1 = boundHost field := rfl
      have hhost' : subScope (subPort field) = foundHost field := rfl
      simp [Fourth, hfield, hlong, hhost, hhost', not_local_iff, unnumbered_iff, unported_iff]
  rw [show portsBoundServed out.text = served out.text from rfl, and_self, hlines, served, any_eq_any_iff]
  refine or_congr ?_ (iff_congr ?_ ?_)
  · exact exists_congr fun line => and_congr_right fun hmem => (hline line hmem).1
  · exact exists_congr fun line => and_congr_right fun hmem => (hline line hmem).2.1
  · exact exists_congr fun line => and_congr_right fun hmem => (hline line hmem).2.2

/-- One truncated line: awk finds a listener, and Python none. -/
theorem verdicts_truncated :
    ¬ ∀ out : Output, isBound out.text = served out.text ∧ isBound out.text = portsBoundServed out.text := by
  intro h
  have htruncated := h ⟨"LISTEN 0 4096\n", by decide⟩
  exact absurd htruncated.1 (by decide)

end Listeners

end VpnStack

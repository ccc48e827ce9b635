import VpnStack.Lib.Text

/-!
# Dart strings

What the core library does with a string, as far as a program that reads short lines relies on it. A string is a list of
characters here; where code units count, they are those of its UTF-16.
-/

namespace Dart

/-- What `trim` takes for white space. -/
def isSpace (c : Char) : Bool :=
  let n := c.toNat
  (9 ≤ n && n ≤ 13) || n == 32 || n == 0x85 || n == 0xa0 || n == 0x1680 || (0x2000 ≤ n && n ≤ 0x200a) || n == 0x2028 ||
    n == 0x2029 || n == 0x202f || n == 0x205f || n == 0x3000 || n == 0xfeff

/-- `t.trim()`. -/
def trim (t : Text) : Text := ((t.dropWhile isSpace).reverse.dropWhile isSpace).reverse

/-- The code units of a string: two for a character outside the basic plane. -/
def codeUnits (t : Text) : List Nat :=
  t.flatMap fun c =>
    if c.toNat < 0x10000 then [c.toNat] else [0xd800 + (c.toNat - 0x10000) / 0x400, 0xdc00 + (c.toNat - 0x10000) % 0x400]

/-- `t.length`. -/
def length (t : Text) : Nat := (codeUnits t).length

/-- `sort()`, which compares strings by their code units. -/
def sort (ts : List Text) : List Text := ts.insertionSort fun s t => codeUnits s ≤ codeUnits t

/-- `t.indexOf(mark)`. -/
def indexOf (mark : Text) : Text → Option Nat
  | [] => if mark = [] then some 0 else none
  | c :: t => if mark <+: c :: t then some 0 else (indexOf mark t).map (· + 1)

/-- `toLowerCase`, which on ASCII is the map of the letters. The rest of Unicode is left open. -/
structure CaseMap where
  toLowerCase : Text → Text
  toLowerCase_ascii : ∀ t : Text, (∀ c ∈ t, c.toNat ≤ 127) → toLowerCase t = t.map Char.toLower

/-- The lower case of the ASCII letters, with every other character as it is. -/
def asciiLower (t : Text) : Text := t.map Char.toLower

/-- The case map that changes no other letter. -/
def CaseMap.ascii : CaseMap where
  toLowerCase := asciiLower
  toLowerCase_ascii _ _ := rfl

/-- The digits of a base, as a number; there is at least one. -/
def digits (base : Nat) (value : Char → Option Nat) : Text → Option Nat
  | [] => none
  | t => t.foldl (fun n c => n.bind fun n => (value c).map (base * n + ·)) (some 0)

def decimal (c : Char) : Option Nat := if 48 ≤ c.toNat ∧ c.toNat ≤ 57 then some (c.toNat - 48) else none

def hexadecimal (c : Char) : Option Nat :=
  let n := c.toNat
  if 48 ≤ n ∧ n ≤ 57 then some (n - 48)
  else if 65 ≤ n ∧ n ≤ 70 then some (n - 55)
  else if 97 ≤ n ∧ n ≤ 102 then some (n - 87)
  else none

/-- The part of a numeral behind its sign: sixteen hexadecimal digits wrap around. -/
def magnitude (negative : Bool) : Text → Option Int
  | '0' :: 'x' :: h => (digits 16 hexadecimal h).bind fun n => if n < 2 ^ 64 then some (wrapped n) else none
  | '0' :: 'X' :: h => (digits 16 hexadecimal h).bind fun n => if n < 2 ^ 64 then some (wrapped n) else none
  | d => (digits 10 decimal d).bind fun n =>
    if n < 2 ^ 63 then some (if negative then -n else n) else if negative ∧ n = 2 ^ 63 then some (-n) else none
where
  wrapped (n : Nat) : Int :=
    let value : Int := if n < 2 ^ 63 then n else (n : Int) - 2 ^ 64
    if negative then -value else value

/-- `int.tryParse(t)`. -/
def intTryParse (t : Text) : Option Int :=
  match trim t with
  | '-' :: rest => magnitude true rest
  | '+' :: rest => magnitude false rest
  | rest => magnitude false rest

/-! ## Trimming -/

/-- A text that begins and ends with something else is left as it is. -/
theorem trim_eq_self {t : Text} (hfirst : ∀ c ∈ t.head?, isSpace c = false) (hlast : ∀ c ∈ t.getLast?, isSpace c = false) :
    trim t = t := by
  have hdrop : ∀ {s : Text}, (∀ c ∈ s.head?, isSpace c = false) → s.dropWhile isSpace = s := by
    intro s hs
    cases s with
    | nil => rfl
    | cons c s => simp [List.dropWhile, hs c rfl]
  rw [trim, hdrop hfirst, hdrop (by rwa [List.head?_reverse]), List.reverse_reverse]

/-- White space around a text is lost, and the text that begins and ends with something else stays. -/
theorem trim_append {before t after : Text} (hbefore : ∀ c ∈ before, isSpace c = true) (hafter : ∀ c ∈ after, isSpace c = true)
    (hfirst : ∀ c ∈ t.head?, isSpace c = false) (hlast : ∀ c ∈ t.getLast?, isSpace c = false) (hne : t ≠ []) :
    trim (before ++ (t ++ after)) = t := by
  have hdrop : ∀ {s r : Text}, s ≠ [] → (∀ c ∈ s.head?, isSpace c = false) → (s ++ r).dropWhile isSpace = s ++ r := by
    intro s r hs h
    obtain ⟨c, s, rfl⟩ := List.exists_cons_of_ne_nil hs
    simp [h c rfl]
  have hreverse : t.reverse ≠ [] := fun h => hne (List.reverse_eq_nil_iff.mp h)
  rw [trim, List.dropWhile_append_of_pos hbefore, hdrop hne hfirst, List.reverse_append,
    List.dropWhile_append_of_pos (fun c hc => hafter c (List.mem_reverse.mp hc)), ← List.append_nil t.reverse,
    hdrop hreverse (by rwa [List.head?_reverse]), List.append_nil, List.reverse_reverse]

/-- What is left begins with something else. -/
theorem isSpace_of_head_trim {t : Text} {c : Char} (h : c ∈ (trim t).head?) : isSpace c = false := by
  have hbegins : trim t <+: t.dropWhile isSpace := List.rdropWhile_prefix isSpace _
  obtain ⟨s, hs⟩ := List.head?_eq_some_iff.mp h
  obtain ⟨rest, hrest⟩ := hbegins
  rw [hs] at hrest
  have hhead := List.head?_dropWhile_not isSpace t
  rw [← hrest] at hhead
  exact hhead

/-- Nothing more is lost the second time. -/
theorem trim_trim (t : Text) : trim (trim t) = trim t := by
  have hfirst : (trim t).dropWhile isSpace = trim t := by
    cases h : trim t with
    | nil => rfl
    | cons c s => simp [List.dropWhile, isSpace_of_head_trim (t := t) (c := c) (by rw [h]; rfl)]
  have htrim : trim (trim t) = ((trim t).dropWhile isSpace).rdropWhile isSpace := rfl
  rw [htrim, hfirst]
  exact List.rdropWhile_idempotent isSpace (t.dropWhile isSpace)

/-- White space in front is lost. -/
theorem trim_append_left {before : Text} (h : ∀ c ∈ before, isSpace c = true) (t : Text) : trim (before ++ t) = trim t := by
  rw [trim, trim, List.dropWhile_append_of_pos h]

/-- White space behind is lost. -/
theorem trim_append_right {after : Text} (h : ∀ c ∈ after, isSpace c = true) (t : Text) : trim (t ++ after) = trim t := by
  have hafter : after.reverse.dropWhile isSpace = [] :=
    List.dropWhile_eq_nil_iff.mpr fun c hc => h c (List.mem_reverse.mp hc)
  rw [trim, trim, List.dropWhile_append]
  split
  · rename_i hempty
    rw [List.isEmpty_iff.mp hempty, List.dropWhile_eq_nil_iff.mpr h]
  · rw [List.reverse_append, List.dropWhile_append, hafter]
    rfl

/-- A text that is cut short at something else than white space can as well be trimmed before it is cut. -/
theorem trim_takeWhile {p : Char → Bool} (hp : ∀ c, isSpace c = true → p c = true) (t : Text) :
    trim ((trim t).takeWhile p) = trim (t.takeWhile p) := by
  have hbefore : ∀ c ∈ t.takeWhile isSpace, isSpace c = true := fun c hc => List.mem_takeWhile_imp hc
  have hafter : ∀ c ∈ (t.dropWhile isSpace).rtakeWhile isSpace, isSpace c = true := fun c hc => List.mem_rtakeWhile_imp hc
  have hsplit : t = t.takeWhile isSpace ++ (trim t ++ (t.dropWhile isSpace).rtakeWhile isSpace) := by
    have htrim : trim t = (t.dropWhile isSpace).rdropWhile isSpace := rfl
    rw [htrim, List.rdropWhile_append_rtakeWhile, List.takeWhile_append_dropWhile]
  have hcut : t.takeWhile p =
      t.takeWhile isSpace ++ (trim t ++ (t.dropWhile isSpace).rtakeWhile isSpace).takeWhile p := by
    conv_lhs => rw [hsplit]
    exact List.takeWhile_append_of_pos fun c hc => hp c (hbefore c hc)
  rw [hcut, trim_append_left hbefore, List.takeWhile_append]
  split
  · rename_i hall
    have hwhole : (trim t).takeWhile p = trim t := List.IsPrefix.eq_of_length (List.takeWhile_prefix p) hall
    rw [List.takeWhile_eq_self_iff.mpr fun c hc => hp c (hafter c hc), trim_append_right hafter, hwhole]
  · rfl

/-- The empty text alone has no code units. -/
theorem length_eq_zero {t : Text} : length t = 0 ↔ t = [] := by
  constructor
  · intro h
    cases t with
    | nil => rfl
    | cons c t =>
      rw [length, codeUnits, List.flatMap_cons, List.length_append] at h
      split at h <;> simp at h
  · rintro rfl
    rfl

/-- Only white space is lost. -/
theorem mem_trim {t : Text} {c : Char} (hc : isSpace c = false) (h : c ∈ t) : c ∈ trim t := by
  have hdrop : ∀ {s : Text}, c ∈ s → c ∈ s.dropWhile isSpace := by
    intro s hs
    rcases List.mem_append.mp (List.takeWhile_append_dropWhile (p := isSpace) (l := s) ▸ hs) with h | h
    · rw [List.mem_takeWhile_imp h] at hc
      nomatch hc
    · exact h
  rw [trim, List.mem_reverse]
  exact hdrop (List.mem_reverse.mpr (hdrop h))

/-! ## Code units -/

/-- Where every code unit is small, they are the characters. -/
theorem codeUnits_of_forall_lt {t : Text} (h : ∀ n ∈ codeUnits t, n < 128) : codeUnits t = t.map Char.toNat := by
  induction t with
  | nil => rfl
  | cons c t ih =>
    have hcons : codeUnits (c :: t) = (if c.toNat < 0x10000 then [c.toNat]
      else [0xd800 + (c.toNat - 0x10000) / 0x400, 0xdc00 + (c.toNat - 0x10000) % 0x400]) ++ codeUnits t := rfl
    rw [hcons] at h ⊢
    have hrest := ih fun n hn => h n (List.mem_append_right _ hn)
    by_cases hc : c.toNat < 0x10000
    · rw [if_pos hc, hrest]
      rfl
    · have hpair := h (0xd800 + (c.toNat - 0x10000) / 0x400) (by simp [hc])
      omega

/-- ASCII text has one code unit for each character. -/
theorem codeUnits_ascii {t : Text} (h : ∀ c ∈ t, c.toNat ≤ 127) : codeUnits t = t.map Char.toNat := by
  induction t with
  | nil => rfl
  | cons c t ih =>
    have hc := h c (List.mem_cons_self ..)
    have hsmall : c.toNat < 0x10000 := by omega
    have hrest := ih fun d hd => h d (List.mem_cons_of_mem _ hd)
    simp only [codeUnits, List.flatMap_cons, if_pos hsmall, List.map_cons, List.singleton_append] at hrest ⊢
    rw [hrest]

/-! ## Numerals -/

/-- Digits behind one that is none are not read. -/
theorem foldl_digits_none {base : Nat} {value : Char → Option Nat} (t : Text) :
    t.foldl (fun n c => n.bind fun n => (value c).map (base * n + ·)) none = none := by
  induction t with
  | nil => rfl
  | cons c t ih => exact ih

/-- A text with another character in it is no number. -/
theorem digits_eq_none {base : Nat} {value : Char → Option Nat} {t : Text} {c : Char} (hc : value c = none) (h : c ∈ t) :
    digits base value t = none := by
  have hfold : ∀ {s : Text} (n : Option Nat), c ∈ s →
      s.foldl (fun n c => n.bind fun n => (value c).map (base * n + ·)) n = none := by
    intro s
    induction s with
    | nil => exact nofun
    | cons d s ih =>
      intro n hs
      rcases List.mem_cons.mp hs with rfl | hs
      · rw [List.foldl_cons, hc]
        have hnone : (n.bind fun n => (none : Option Nat).map (base * n + ·)) = none := by cases n <;> rfl
        rw [hnone]
        exact foldl_digits_none s
      · exact ih _ hs
  cases t with
  | nil => nomatch h
  | cons d t => exact hfold _ h

/-- A text with a colon in it is no magnitude. -/
theorem magnitude_eq_none {negative : Bool} {t : Text} (h : ':' ∈ t) : magnitude negative t = none := by
  unfold magnitude
  split
  · rw [digits_eq_none (c := ':') rfl (by simpa using h), Option.bind_none]
  · rw [digits_eq_none (c := ':') rfl (by simpa using h), Option.bind_none]
  · rw [digits_eq_none rfl h, Option.bind_none]

/-- A colon is in no numeral. -/
theorem intTryParse_eq_none {t : Text} (h : ':' ∈ t) : intTryParse t = none := by
  have hmem := mem_trim (c := ':') rfl h
  unfold intTryParse
  split
  · rename_i rest heq
    rw [heq] at hmem
    exact magnitude_eq_none (by simpa using hmem)
  · rename_i rest heq
    rw [heq] at hmem
    exact magnitude_eq_none (by simpa using hmem)
  · exact magnitude_eq_none hmem

/-- A decimal digit has its value. -/
theorem decimal_of_isDigit {c : Char} (h : c.isDigit = true) : decimal c = some (c.toNat - 48) := by
  simp only [Char.isDigit, Bool.and_eq_true, decide_eq_true_eq] at h
  have h₁ : 48 ≤ c.toNat := UInt32.le_iff_toNat_le.mp h.1
  have h₂ : c.toNat ≤ 57 := UInt32.le_iff_toNat_le.mp h.2
  exact if_pos ⟨h₁, h₂⟩

/-- Decimal digits are the number they spell. -/
theorem digits_ofDigitChars {t : Text} (h : ∀ c ∈ t, c.isDigit = true) (hne : t ≠ []) :
    digits 10 decimal t = some (Nat.ofDigitChars 10 t 0) := by
  have hfold : ∀ {s : Text} (n : Nat), (∀ c ∈ s, c.isDigit = true) →
      s.foldl (fun n c => n.bind fun n => (decimal c).map (10 * n + ·)) (some n) = some (Nat.ofDigitChars 10 s n) := by
    intro s
    induction s with
    | nil => intro n _; rfl
    | cons c s ih =>
      intro n hs
      rw [List.foldl_cons, Option.bind_some, decimal_of_isDigit (hs c (List.mem_cons_self ..)), Option.map_some,
        ih _ fun d hd => hs d (List.mem_cons_of_mem _ hd), Nat.ofDigitChars_cons]
      rfl
  obtain ⟨c, s, rfl⟩ := List.exists_cons_of_ne_nil hne
  exact hfold 0 h

/-- No digit is white space. -/
theorem isSpace_of_isDigit {c : Char} (h : c.isDigit = true) : isSpace c = false := by
  have hall : ∀ n < 128, (Char.ofNat n).isDigit = true → isSpace (Char.ofNat n) = false := by decide
  have hlt : c.toNat < 128 := by
    simp only [Char.isDigit, Bool.and_eq_true, decide_eq_true_eq] at h
    have h₂ : c.toNat ≤ 57 := UInt32.le_iff_toNat_le.mp h.2
    omega
  have hc := hall c.toNat hlt
  rw [Char.ofNat_toNat] at hc
  exact hc h

/-- Digits are read as the number they spell. -/
theorem intTryParse_digits {t : Text} (hdigit : ∀ c ∈ t, c.isDigit = true) (hne : t ≠ []) (h : Nat.ofDigitChars 10 t 0 < 2 ^ 63) :
    intTryParse t = some (Nat.ofDigitChars 10 t 0 : Int) := by
  have hread := digits_ofDigitChars hdigit hne
  have htrim : trim t = t := trim_eq_self (fun c hc => isSpace_of_isDigit (hdigit c (List.mem_of_mem_head? hc)))
    fun c hc => isSpace_of_isDigit (hdigit c (List.mem_of_getLast? hc))
  -- no sign and no base stands in front of digits
  have hother : ∀ c : Char, c.isDigit = false → c ∉ t := fun c hc hmem => by
    rw [hdigit c hmem] at hc
    nomatch hc
  have hmagnitude : magnitude false t = some (Nat.ofDigitChars 10 t 0 : Int) := by
    unfold magnitude
    split
    · exact absurd (by simp) (hother 'x' rfl)
    · exact absurd (by simp) (hother 'X' rfl)
    · rw [hread, Option.bind_some, if_pos h]
      rfl
  rw [intTryParse, htrim]
  split
  · exact absurd (List.mem_cons_self ..) (hother '-' rfl)
  · exact absurd (List.mem_cons_self ..) (hother '+' rfl)
  · exact hmagnitude

/-- A number is read as it is written. -/
theorem intTryParse_toDigits {n : Nat} (h : n < 2 ^ 63) : intTryParse (Nat.toDigits 10 n) = some (n : Int) := by
  have hdigit : ∀ c ∈ Nat.toDigits 10 n, c.isDigit = true := fun c hc => Nat.isDigit_of_mem_toDigits (by decide) (by decide) hc
  have hread := intTryParse_digits hdigit Nat.toDigits_ne_nil (Nat.ofDigitChars_ten_toDigits.symm ▸ h)
  rwa [Nat.ofDigitChars_ten_toDigits] at hread

end Dart

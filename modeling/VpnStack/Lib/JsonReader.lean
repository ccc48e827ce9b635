import VpnStack.Lib.Json

/-!
# Reading JSON

A reader of JSON text, by recursive descent: white space between tokens, string literals with their escapes and surrogate
pairs, numbers. What `Json.dumps` writes is read back as the value it was written from.
-/

namespace Json

/-! ## Tokens -/

def isWhite (c : Char) : Bool := c == ' ' || c == '\n' || c == '\r' || c == '\t'

def skipWhite (s : Text) : Text := s.dropWhile isWhite

/-- The value of a hexadecimal digit. -/
def hexDigit (c : Char) : Option Nat :=
  if '0' ≤ c ∧ c ≤ '9' then some (c.toNat - 48)
  else if 'a' ≤ c ∧ c ≤ 'f' then some (c.toNat - 87)
  else if 'A' ≤ c ∧ c ≤ 'F' then some (c.toNat - 55)
  else none

/-- The four digits behind `\u`. -/
def readHex4 : Text → Option (Nat × Text)
  | a :: b :: c :: d :: s =>
    match hexDigit a, hexDigit b, hexDigit c, hexDigit d with
    | some a, some b, some c, some d => some (a * 16 ^ 3 + b * 16 ^ 2 + c * 16 + d, s)
    | _, _, _, _ => none
  | _ => none

/-- A code unit as a character, with the low surrogate behind it where it is a high one. -/
def readUnit (n : Nat) (s : Text) : Option (Char × Text) :=
  if 0xd800 ≤ n ∧ n < 0xdc00 then
    match s with
    | '\\' :: 'u' :: s =>
      match readHex4 s with
      | some (m, s) => if 0xdc00 ≤ m ∧ m < 0xe000 then some (Char.ofNat (0x10000 + (n - 0xd800) * 0x400 + (m - 0xdc00)), s)
                       else none
      | none => none
    | _ => none
  else if 0xdc00 ≤ n ∧ n < 0xe000 then none
  else some (Char.ofNat n, s)

/-- A character behind a backslash. -/
def readEscape : Text → Option (Char × Text)
  | '"' :: s => some ('"', s)
  | '\\' :: s => some ('\\', s)
  | '/' :: s => some ('/', s)
  | 'n' :: s => some ('\n', s)
  | 'r' :: s => some ('\r', s)
  | 't' :: s => some ('\t', s)
  | 'f' :: s => some ('\x0c', s)
  | 'b' :: s => some ('\x08', s)
  | 'u' :: s =>
    match readHex4 s with
    | some (n, s) => readUnit n s
    | none => none
  | _ => none

/-- A string literal, behind its opening quote. -/
def readString : Nat → Text → Option (Text × Text)
  | 0, _ => none
  | _ + 1, [] => none
  | n + 1, c :: s =>
    if c = '"' then some ([], s)
    else if c = '\\' then
      match readEscape s with
      | some (d, s) => (readString n s).map fun r => (d :: r.1, r.2)
      | none => none
    else if c < ' ' then none
    else (readString n s).map fun r => (c :: r.1, r.2)

/-- A number, by its literal. -/
def number (t : Text) : Option Json :=
  if hnumber : isNumber t = true then
    if hnatural : t.all Char.isDigit = true then some (.num (Nat.ofDigitChars 10 t 0))
    else if hchars : t.all isNumberChar = true then some (.other ⟨t, hchars, hnumber, Bool.eq_false_iff.mpr hnatural⟩)
    else none
  else none

/-- A number, which goes as far as the characters of one do. -/
def readNumber (s : Text) : Option (Json × Text) :=
  (number (s.takeWhile isNumberChar)).map fun v => (v, s.dropWhile isNumberChar)

/-! ## Values -/

mutual

/-- A value. The number bounds the depth of the recursion. -/
def readValue : Nat → Text → Option (Json × Text)
  | 0, _ => none
  | n + 1, s =>
    match skipWhite s with
    | 'n' :: 'u' :: 'l' :: 'l' :: s => some (.null, s)
    | 't' :: 'r' :: 'u' :: 'e' :: s => some (.bool true, s)
    | 'f' :: 'a' :: 'l' :: 's' :: 'e' :: s => some (.bool false, s)
    | '"' :: s => (readString s.length s).map fun r => (.str r.1, r.2)
    | '[' :: s =>
      match skipWhite s with
      | ']' :: s => some (.arr [], s)
      | _ => (readItems n s).map fun r => (.arr r.1, r.2)
    | '\x7b' :: s =>
      match skipWhite s with
      | '\x7d' :: s => some (.obj [], s)
      | _ => (readMembers n s).map fun r => (.obj r.1, r.2)
    | s => readNumber s

/-- The items of an array, and its closing bracket. -/
def readItems : Nat → Text → Option (List Json × Text)
  | 0, _ => none
  | n + 1, s =>
    match readValue n s with
    | none => none
    | some (v, s) =>
      match skipWhite s with
      | ',' :: s => (readItems n s).map fun r => (v :: r.1, r.2)
      | ']' :: s => some ([v], s)
      | _ => none

/-- The members of an object, and its closing brace. -/
def readMembers : Nat → Text → Option (List (Text × Json) × Text)
  | 0, _ => none
  | n + 1, s =>
    match skipWhite s with
    | '"' :: s =>
      match readString s.length s with
      | none => none
      | some (key, s) =>
        match skipWhite s with
        | ':' :: s =>
          match readValue n s with
          | none => none
          | some (v, s) =>
            match skipWhite s with
            | ',' :: s => (readMembers n s).map fun r => ((key, v) :: r.1, r.2)
            | '\x7d' :: s => some ([(key, v)], s)
            | _ => none
        | _ => none
    | _ => none

end

/-- `json.loads`. -/
def loads (s : Text) : Option Json :=
  match readValue (2 * s.length) s with
  | some (v, rest) => if skipWhite rest = [] then some v else none
  | none => none

/-! ## Members -/

/-- The member of that name; the last one, as a dictionary keeps it. -/
def get (v : Json) (key : String) : Option Json :=
  match v with
  | .obj members => (members.reverse.find? fun m => m.1 == key.toList).map (·.2)
  | _ => none

/-- The items of an array. -/
def items (v : Option Json) : List Json :=
  match v with
  | some (.arr items) => items
  | _ => []

/-- A string. -/
def text : Json → Option Text
  | .str t => some t
  | _ => none

/-! ## What was written is read back -/

/-- The line breaks of the writer are skipped. -/
theorem skipWhite_newline (level : Nat) (s : Text) : skipWhite (newline level ++ s) = skipWhite s := by
  have hspaces : ∀ k, skipWhite (List.replicate k ' ' ++ s) = skipWhite s := by
    intro k
    induction k with
    | zero => rfl
    | succ k ih => exact ih
  exact hspaces (2 * level)

theorem hexDigit_digitChar : ∀ d < 16, hexDigit (Nat.digitChar d) = some d := by decide

/-- Four hexadecimal digits are read as they are written. -/
theorem readHex4_hex4 {n : Nat} (h : n < 0x10000) (s : Text) : readHex4 (hex4 n ++ s) = some (n, s) := by
  have hdigit : ∀ k, hexDigit (Nat.digitChar (k % 16)) = some (k % 16) := fun k =>
    hexDigit_digitChar _ (Nat.mod_lt _ (by decide))
  simp only [hex4, List.map_cons, List.map_nil, List.cons_append, List.nil_append, readHex4, hdigit]
  congr 2
  omega

/-- No character is a surrogate. -/
theorem toNat_valid (c : Char) : c.toNat < 0xd800 ∨ 0xdfff < c.toNat ∧ c.toNat < 0x110000 := c.valid

/-- A code unit that is no half of a pair is a character. -/
theorem readUnit_self {c : Char} (h : c.toNat < 0x10000) (s : Text) : readUnit c.toNat s = some (c, s) := by
  have hvalid := toNat_valid c
  have hhigh : ¬ (0xd800 ≤ c.toNat ∧ c.toNat < 0xdc00) := by omega
  have hlow : ¬ (0xdc00 ≤ c.toNat ∧ c.toNat < 0xe000) := by omega
  unfold readUnit
  rw [if_neg hhigh, if_neg hlow, Char.ofNat_toNat]

/-- A pair of escaped halves is one character. -/
theorem readUnit_pair {high low : Nat} (hhigh : 0xd800 ≤ high ∧ high < 0xdc00) (hlow : 0xdc00 ≤ low ∧ low < 0xe000) (s : Text) :
    readUnit high ('\\' :: 'u' :: (hex4 low ++ s)) =
      some (Char.ofNat (0x10000 + (high - 0xd800) * 0x400 + (low - 0xdc00)), s) := by
  have hread := readHex4_hex4 (n := low) (by omega) s
  simp only [readUnit, if_pos hhigh, hread, if_pos hlow]

/-- A character that is escaped as a code unit is read back. -/
theorem readEscape_unit {c : Char} (h : c.toNat < 0x10000) (s : Text) :
    readEscape ('u' :: (hex4 c.toNat ++ s)) = some (c, s) := by
  rw [readEscape, readHex4_hex4 h]
  exact readUnit_self h s

/-- A character that is escaped as two code units is read back. -/
theorem readEscape_pair {c : Char} (h : ¬ c.toNat < 0x10000) (s : Text) :
    readEscape ('u' :: (hex4 (0xd800 + (c.toNat - 0x10000) / 0x400) ++ '\\' :: 'u' ::
      (hex4 (0xdc00 + (c.toNat - 0x10000) % 0x400) ++ s))) = some (c, s) := by
  have hvalid := toNat_valid c
  have hdiv : (c.toNat - 0x10000) / 0x400 < 0x400 := by omega
  have hmod : (c.toNat - 0x10000) % 0x400 < 0x400 := Nat.mod_lt _ (by decide)
  have hsum : 0x10000 + (c.toNat - 0x10000) / 0x400 * 0x400 + (c.toNat - 0x10000) % 0x400 = c.toNat := by omega
  generalize (c.toNat - 0x10000) / 0x400 = a at hdiv hsum ⊢
  generalize (c.toNat - 0x10000) % 0x400 = b at hmod hsum ⊢
  rw [readEscape, readHex4_hex4 (by omega)]
  dsimp only
  rw [readUnit_pair ⟨by omega, by omega⟩ ⟨by omega, by omega⟩, Nat.add_sub_cancel_left, Nat.add_sub_cancel_left, hsum,
    Char.ofNat_toNat]

/-- A character is read back from its escape. -/
theorem readString_escape (c : Char) (n : Nat) (s : Text) :
    readString (n + 1) (escape c ++ s) = (readString n s).map fun r => (c :: r.1, r.2) := by
  have hback : ∀ t, readEscape t = some (c, s) →
      readString (n + 1) ('\\' :: t) = (readString n s).map fun r => (c :: r.1, r.2) := by
    intro t ht
    rw [readString, if_neg (by decide), if_pos rfl, ht]
  unfold escape
  split
  iterate 7 exact hback _ rfl
  rename_i hquote hslash _ _ _ _ _
  split
  · rename_i hplain
    have hlt : ¬ c < ' ' := by simpa using hplain.1
    rw [List.singleton_append, readString, if_neg hquote, if_neg hslash, if_neg hlt]
  · split
    · rename_i hsmall
      exact hback _ (readEscape_unit hsmall s)
    · rename_i hlarge
      have hpair := hback _ (readEscape_pair hlarge s)
      simpa only [List.cons_append, List.append_assoc] using hpair

/-- A text is read back from its literal. -/
theorem readString_quote (t : Text) {n : Nat} (h : t.length < n) (s : Text) :
    readString n (t.flatMap escape ++ '"' :: s) = some (t, s) := by
  induction t generalizing n with
  | nil =>
    obtain ⟨n, rfl⟩ : ∃ m, n = m + 1 := ⟨n - 1, by omega⟩
    rfl
  | cons c t ih =>
    obtain ⟨n, rfl⟩ : ∃ m, n = m + 1 := ⟨n - 1, by omega⟩
    rw [List.flatMap_cons, List.append_assoc, readString_escape, ih (by simpa using h)]
    rfl

/-- A literal is no shorter than its text. -/
theorem length_le_flatMap_escape (t : Text) : t.length ≤ (t.flatMap escape).length := by
  have hone : ∀ c, 1 ≤ (escape c).length := by
    intro c
    unfold escape
    split
    iterate 7 decide
    split
    · simp
    · split <;> simp [hex4]
  induction t with
  | nil => exact Nat.le_refl _
  | cons c t ih =>
    have hc := hone c
    rw [List.flatMap_cons, List.length_append, List.length_cons]
    omega

/-- A string literal is read back, behind its opening quote. -/
theorem readString_literal (t s : Text) :
    readString (t.flatMap escape ++ '"' :: s).length (t.flatMap escape ++ '"' :: s) = some (t, s) := by
  refine readString_quote t ?_ s
  have hlen := length_le_flatMap_escape t
  rw [List.length_append, List.length_cons]
  omega

/-- What may stand behind a value: nothing, or what is part of no number. -/
def Ended (s : Text) : Prop := ∀ c ∈ s.head?, isNumberChar c = false

theorem isNumberChar_of_isDigit {c : Char} (h : c.isDigit = true) : isNumberChar c = true := by simp [isNumberChar, h]

/-- The literal of a number is read to its end. -/
theorem readNumber_literal {t : Text} (ht : ∀ c ∈ t, isNumberChar c = true) {s : Text} (hs : Ended s) :
    readNumber (t ++ s) = (number t).map fun v => (v, s) := by
  have hstop : s.takeWhile isNumberChar = [] ∧ s.dropWhile isNumberChar = s := by
    cases s with
    | nil => exact ⟨rfl, rfl⟩
    | cons c s => simp [hs c rfl]
  have htake : (t ++ s).takeWhile isNumberChar = t := by
    rw [List.takeWhile_append_of_pos ht, hstop.1, List.append_nil]
  have hdrop : (t ++ s).dropWhile isNumberChar = s := by
    rw [List.dropWhile_append_of_pos ht, hstop.2]
  rw [readNumber, htake, hdrop]

theorem digits_toDigits (k : Nat) : ∀ c ∈ Nat.toDigits 10 k, c.isDigit = true :=
  fun c hc => Nat.isDigit_of_mem_toDigits (by decide) (by decide) hc

/-- A positive number has no zero in front. -/
theorem head_toDigits {k : Nat} (hk : 0 < k) : (Nat.toDigits 10 k).head? ≠ some '0' := by
  induction k using Nat.strongRecOn with
  | ind k ih =>
    by_cases hlt : k < 10
    · rw [Nat.toDigits_of_lt_base hlt]
      have hdigit : ∀ d < 10, 0 < d → [Nat.digitChar d].head? ≠ some '0' := by decide
      exact hdigit k hlt hk
    · rw [Nat.toDigits_of_base_le (by decide) (by omega), List.head?_append_of_ne_nil _ Nat.toDigits_ne_nil]
      exact ih (k / 10) (by omega) (by omega)

/-- The digits of a natural number are a whole part. -/
theorem isWhole_toDigits (k : Nat) : isWhole (Nat.toDigits 10 k) = true := by
  rcases Nat.eq_zero_or_pos k with rfl | hk
  · decide
  · have hdigits := digits_toDigits k
    have hhead := head_toDigits hk
    obtain ⟨c, t, hc⟩ := List.exists_cons_of_ne_nil (Nat.toDigits_ne_nil (n := k) (b := 10))
    rw [hc] at hdigits hhead ⊢
    have hne : c ≠ '0' := fun h => hhead (by rw [h]; rfl)
    unfold isWhole
    split
    · rename_i heq
      nomatch heq
    · rename_i heq
      exact absurd (List.cons.inj heq).1 hne
    · exact List.all_eq_true.mpr hdigits

/-- The digits of a natural number are read back as it. -/
theorem number_toDigits (k : Nat) : number (Nat.toDigits 10 k) = some (.num k) := by
  have hdigits := digits_toDigits k
  have hall : (Nat.toDigits 10 k).all Char.isDigit = true := List.all_eq_true.mpr hdigits
  have hhead : (Nat.toDigits 10 k).head? ≠ some '-' := by
    intro h
    have hdash := hdigits '-' (List.mem_of_mem_head? h)
    exact absurd hdash (by decide)
  have htake : (Nat.toDigits 10 k).takeWhile Char.isDigit = Nat.toDigits 10 k := List.takeWhile_eq_self_iff.mpr hdigits
  have hdrop : (Nat.toDigits 10 k).dropWhile Char.isDigit = [] := List.dropWhile_eq_nil_iff.mpr hdigits
  have hnumber : isNumber (Nat.toDigits 10 k) = true := by
    simp only [isNumber, if_neg hhead, htake, hdrop, isWhole_toDigits, isTail, Bool.and_self]
  rw [number, dif_pos hnumber, dif_pos hall, Nat.ofDigitChars_ten_toDigits]

theorem number_numeral (n : Numeral) : number n.literal = some (.other n) := by
  rw [number, dif_pos n.number, dif_neg (by simp [n.notNatural]), dif_pos n.chars]

/-- White space in front of a value does not matter. -/
theorem readValue_newline (n level : Nat) (s : Text) : readValue n (newline level ++ s) = readValue n s := by
  cases n with
  | zero => rfl
  | succ n => rw [readValue, readValue, skipWhite_newline]

/-- No character of a number is white space. -/
theorem isWhite_of_isNumberChar {c : Char} (h : isNumberChar c = true) : isWhite c = false := by
  simp only [isWhite, Bool.or_eq_false_iff, beq_eq_false_iff_ne]
  refine ⟨⟨⟨?_, ?_⟩, ?_⟩, ?_⟩ <;> (rintro rfl; exact absurd h (by decide))

/-- A number is read where nothing else begins with a character of one. -/
theorem readValue_number {t : Text} (ht : ∀ c ∈ t, isNumberChar c = true) (hne : t ≠ []) (n : Nat) {s : Text} (hs : Ended s) :
    readValue (n + 1) (t ++ s) = (number t).map fun v => (v, s) := by
  have hnum := readNumber_literal ht hs
  obtain ⟨d, ds, rfl⟩ := List.exists_cons_of_ne_nil hne
  have hchar : isNumberChar d = true := ht d (List.mem_cons_self ..)
  have hwhite : skipWhite (d :: ds ++ s) = d :: ds ++ s := by
    rw [skipWhite, List.cons_append, List.dropWhile_cons_of_neg (by simp [isWhite_of_isNumberChar hchar])]
  rw [readValue, hwhite]
  rw [List.cons_append] at hnum ⊢
  split
  iterate 6
    rename_i heq
    obtain ⟨rfl, -⟩ := List.cons.inj heq
    exact absurd hchar (by decide)
  exact hnum

theorem numberChars_toDigits (k : Nat) : ∀ c ∈ Nat.toDigits 10 k, isNumberChar c = true :=
  fun c hc => isNumberChar_of_isDigit (digits_toDigits k c hc)

/-- A numeral is written as something. -/
theorem Numeral.ne_nil (n : Numeral) : n.literal ≠ [] := by
  intro h
  have hnumber := n.number
  rw [h] at hnumber
  nomatch hnumber

/-! ## Arrays and objects -/

/-- A list that does not end at once is read item by item. -/
theorem readValue_items {n : Nat} {t : Text} (h : ∀ rest, skipWhite t ≠ ']' :: rest) :
    readValue (n + 1) ('[' :: t) = (readItems n t).map fun r => (.arr r.1, r.2) := by
  have hopen : skipWhite ('[' :: t) = '[' :: t := rfl
  simp only [readValue, hopen]

/-- An object that does not end at once is read member by member. -/
theorem readValue_members {n : Nat} {t : Text} (h : ∀ rest, skipWhite t ≠ '\x7d' :: rest) :
    readValue (n + 1) ('\x7b' :: t) = (readMembers n t).map fun r => (.obj r.1, r.2) := by
  have hopen : skipWhite ('\x7b' :: t) = '\x7b' :: t := rfl
  simp only [readValue, hopen]

/-- What is written begins with no white space, and not with a closing bracket. -/
theorem write_cons (level : Nat) (v : Json) : ∃ c t, write level v = c :: t ∧ isWhite c = false ∧ c ≠ ']' := by
  cases v with
  | null => exact ⟨_, _, rfl, rfl, by decide⟩
  | bool b => cases b <;> exact ⟨_, _, rfl, rfl, by decide⟩
  | num k =>
    obtain ⟨d, ds, hd⟩ := List.exists_cons_of_ne_nil (Nat.toDigits_ne_nil (n := k) (b := 10))
    have hdigit : isNumberChar d = true := numberChars_toDigits k d (hd ▸ List.mem_cons_self ..)
    refine ⟨d, ds, hd, isWhite_of_isNumberChar hdigit, ?_⟩
    rintro rfl
    exact absurd hdigit (by decide)
  | other k =>
    obtain ⟨d, ds, hd⟩ := List.exists_cons_of_ne_nil k.ne_nil
    have hchar : isNumberChar d = true := List.all_eq_true.mp k.chars d (hd ▸ List.mem_cons_self ..)
    refine ⟨d, ds, hd, isWhite_of_isNumberChar hchar, ?_⟩
    rintro rfl
    exact absurd hchar (by decide)
  | str t => exact ⟨_, _, rfl, rfl, by decide⟩
  | arr vs => cases vs <;> exact ⟨_, _, rfl, rfl, by decide⟩
  | obj ms => cases ms <;> exact ⟨_, _, rfl, rfl, by decide⟩

/-- The text of the items, up to the closing bracket. -/
def itemsText (level : Nat) (v : Json) (vs : List Json) (s : Text) : Text :=
  newline (level + 1) ++ (write (level + 1) v ++ (writeItems level vs ++ (newline level ++ ']' :: s)))

/-- The text of the members, up to the closing brace. -/
def membersText (level : Nat) (m : Text × Json) (ms : List (Text × Json)) (s : Text) : Text :=
  newline (level + 1) ++ (writeMember level m ++ (writeMembers level ms ++ (newline level ++ '\x7d' :: s)))

/-- A list with an item in it does not end at once. -/
theorem skipWhite_itemsText (level : Nat) (v : Json) (vs : List Json) (s rest : Text) :
    skipWhite (itemsText level v vs s) ≠ ']' :: rest := by
  obtain ⟨c, t, hc, hwhite, hne⟩ := write_cons (level + 1) v
  rw [itemsText, skipWhite_newline, hc, skipWhite, List.cons_append, List.dropWhile_cons_of_neg (by simp [hwhite])]
  exact fun h => hne (List.cons.inj h).1

/-- The value of a member is written in less than the member is. -/
theorem writeMember_length (level : Nat) (m : Text × Json) : (write (level + 1) m.2).length < (writeMember level m).length := by
  obtain ⟨key, v⟩ := m
  simp only [writeMember, List.length_append, List.length_cons]
  omega

/-- A member begins with its quote, behind the white space in front. -/
theorem skipWhite_member (level : Nat) (m : Text × Json) (t : Text) :
    skipWhite (newline (level + 1) ++ (writeMember level m ++ t)) =
      '"' :: (m.1.flatMap escape ++ '"' :: ':' :: ' ' :: (write (level + 1) m.2 ++ t)) := by
  have htext : writeMember level m ++ t = '"' :: (m.1.flatMap escape ++ '"' :: ':' :: ' ' :: (write (level + 1) m.2 ++ t)) := by
    obtain ⟨key, v⟩ := m
    simp [writeMember, quote]
  rw [skipWhite_newline, htext]
  rfl

/-- What follows the last item ends a number. -/
theorem ended_items (level : Nat) (vs : List Json) (s : Text) : Ended (writeItems level vs ++ (newline level ++ s)) := by
  cases vs with
  | nil => rintro c ⟨⟩; rfl
  | cons v vs => rintro c ⟨⟩; rfl

/-- What follows the last member ends a number. -/
theorem ended_members (level : Nat) (ms : List (Text × Json)) (s : Text) :
    Ended (writeMembers level ms ++ (newline level ++ s)) := by
  cases ms with
  | nil => rintro c ⟨⟩; rfl
  | cons m ms => rintro c ⟨⟩; rfl

/-- Behind an item the array goes on, or it is closed. -/
theorem readItems_step {n level : Nat} {v : Json} {vs : List Json} {s : Text}
    (hv : readValue n (write (level + 1) v ++ (writeItems level vs ++ (newline level ++ ']' :: s))) =
      some (v, writeItems level vs ++ (newline level ++ ']' :: s)))
    (hvs : ∀ v' vs', vs = v' :: vs' → readItems n (itemsText level v' vs' s) = some (v' :: vs', s)) :
    readItems (n + 1) (itemsText level v vs s) = some (v :: vs, s) := by
  rw [readItems, itemsText, readValue_newline, hv]
  dsimp only
  cases vs with
  | nil =>
    have hclose : skipWhite (writeItems level [] ++ (newline level ++ ']' :: s)) = ']' :: s := by
      rw [writeItems, List.nil_append, skipWhite_newline]
      rfl
    rw [hclose]
    rfl
  | cons v' vs' =>
    have hcomma : skipWhite (writeItems level (v' :: vs') ++ (newline level ++ ']' :: s)) = ',' :: itemsText level v' vs' s := by
      simp only [writeItems, List.cons_append, List.append_assoc, itemsText]
      rfl
    rw [hcomma]
    change (readItems n (itemsText level v' vs' s)).map _ = _
    rw [hvs v' vs' rfl]
    rfl

/-- Behind a member the object goes on, or it is closed. -/
theorem readMembers_step {n level : Nat} {m : Text × Json} {ms : List (Text × Json)} {s : Text}
    (hv : readValue n (write (level + 1) m.2 ++ (writeMembers level ms ++ (newline level ++ '\x7d' :: s))) =
      some (m.2, writeMembers level ms ++ (newline level ++ '\x7d' :: s)))
    (hms : ∀ m' ms', ms = m' :: ms' → readMembers n (membersText level m' ms' s) = some (m' :: ms', s)) :
    readMembers (n + 1) (membersText level m ms s) = some (m :: ms, s) := by
  have hspace : readValue n (' ' :: (write (level + 1) m.2 ++ (writeMembers level ms ++ (newline level ++ '\x7d' :: s)))) =
      some (m.2, writeMembers level ms ++ (newline level ++ '\x7d' :: s)) := by
    refine Eq.trans ?_ hv
    cases n with
    | zero => rfl
    | succ n =>
      rw [readValue, readValue]
      rfl
  have hcolon : ∀ t : Text, skipWhite (':' :: t) = ':' :: t := fun t => rfl
  simp only [readMembers, membersText, skipWhite_member, readString_literal, hcolon, hspace]
  cases ms with
  | nil =>
    have hclose : skipWhite (writeMembers level [] ++ (newline level ++ '\x7d' :: s)) = '\x7d' :: s := by
      rw [writeMembers, List.nil_append, skipWhite_newline]
      rfl
    rw [hclose]
    rfl
  | cons m' ms' =>
    have hcomma : skipWhite (writeMembers level (m' :: ms') ++ (newline level ++ '\x7d' :: s)) =
        ',' :: membersText level m' ms' s := by
      simp only [writeMembers, List.cons_append, List.append_assoc, membersText]
      rfl
    rw [hcomma]
    change (readMembers n (membersText level m' ms' s)).map _ = _
    rw [hms m' ms' rfl]
    rfl

/-! ## The round trip -/

/-- By induction on the bound: a value, the items of an array and the members of an object are read back when the bound is
twice their length. -/
theorem read_write (n : Nat) :
    (∀ (v : Json) (level : Nat) (s : Text), 2 * (write level v).length ≤ n → Ended s →
      readValue n (write level v ++ s) = some (v, s)) ∧
    (∀ (v : Json) (vs : List Json) (level : Nat) (s : Text),
      2 * ((write (level + 1) v).length + (writeItems level vs).length) + 1 ≤ n →
      readItems n (itemsText level v vs s) = some (v :: vs, s)) ∧
    (∀ (m : Text × Json) (ms : List (Text × Json)) (level : Nat) (s : Text),
      2 * ((writeMember level m).length + (writeMembers level ms).length) + 1 ≤ n →
      readMembers n (membersText level m ms s) = some (m :: ms, s)) := by
  induction n with
  | zero =>
    refine ⟨fun v level s h => ?_, fun v vs level s h => by omega, fun m ms level s h => by omega⟩
    obtain ⟨c, t, hc, -⟩ := write_cons level v
    rw [hc, List.length_cons] at h
    omega
  | succ n ih =>
    obtain ⟨ihv, ihi, ihm⟩ := ih
    refine ⟨fun v level s h hs => ?_, fun v vs level s h => ?_, fun m ms level s h => ?_⟩
    · cases v with
      | null => rfl
      | bool b => cases b <;> rfl
      | num k =>
        rw [write, readValue_number (numberChars_toDigits k) Nat.toDigits_ne_nil n hs, number_toDigits]
        rfl
      | other k =>
        rw [write, readValue_number (List.all_eq_true.mp k.chars) k.ne_nil n hs, number_numeral]
        rfl
      | str t =>
        have hlit := readString_literal t s
        have hquote : quote t ++ s = '"' :: (t.flatMap escape ++ '"' :: s) := by simp [quote]
        rw [write, hquote, readValue]
        change (readString _ (t.flatMap escape ++ '"' :: s)).map _ = _
        rw [hlit]
        rfl
      | arr vs =>
        cases vs with
        | nil => rfl
        | cons v vs =>
          have htext : write level (.arr (v :: vs)) ++ s = '[' :: itemsText level v vs s := by simp [write, itemsText]
          have hlen : 2 * ((write (level + 1) v).length + (writeItems level vs).length) + 1 ≤ n := by
            simp only [write, List.length_cons, List.length_append] at h
            omega
          rw [htext, readValue_items (skipWhite_itemsText level v vs s), ihi v vs level s hlen]
          rfl
      | obj ms =>
        cases ms with
        | nil => rfl
        | cons m ms =>
          have htext : write level (.obj (m :: ms)) ++ s = '\x7b' :: membersText level m ms s := by simp [write, membersText]
          have hlen : 2 * ((writeMember level m).length + (writeMembers level ms).length) + 1 ≤ n := by
            simp only [write, List.length_cons, List.length_append] at h
            omega
          have hopen : ∀ rest, skipWhite (membersText level m ms s) ≠ '\x7d' :: rest := by
            intro rest
            rw [membersText, skipWhite_member]
            exact fun h => absurd (List.cons.inj h).1 (by decide)
          rw [htext, readValue_members hopen, ihm m ms level s hlen]
          rfl
    · refine readItems_step (ihv v _ _ (by omega) (ended_items level vs _)) fun v' vs' hvs => ihi v' vs' level s ?_
      subst hvs
      simp only [writeItems, List.length_cons, List.length_append] at h
      omega
    · refine readMembers_step (ihv m.2 _ _ ?_ (ended_members level ms _)) fun m' ms' hms => ihm m' ms' level s ?_
      · have hlen := writeMember_length level m
        omega
      · subst hms
        simp only [writeMembers, List.length_cons, List.length_append] at h
        omega

/-- What is written is read back, with white space behind it. -/
theorem loads_dumps (v : Json) {space : Text} (h : ∀ c ∈ space, isWhite c = true) : loads (dumps v ++ space) = some v := by
  have hnone : skipWhite space = [] := List.dropWhile_eq_nil_iff.mpr h
  have hended : Ended space := by
    intro c hc
    have hwhite := h c (List.mem_of_mem_head? hc)
    simp only [isWhite, Bool.or_eq_true, beq_iff_eq] at hwhite
    rcases hwhite with ((rfl | rfl) | rfl) | rfl <;> rfl
  have hread := (read_write (2 * (dumps v ++ space).length)).1 v 0 space ?_ hended
  · rw [loads]
    change (match readValue _ (write 0 v ++ space) with | some (v, rest) => _ | none => _) = _
    rw [hread]
    exact if_pos hnone
  · rw [dumps, List.length_append]
    omega

end Json

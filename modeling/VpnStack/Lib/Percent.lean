import VpnStack.Lib.Text

/-!
# Percent encoding

`urllib.parse.quote` and Dart's `Uri.decodeComponent`: the one writes every byte outside a set of safe ones as an escape, the
other reads escapes and refuses what is not ASCII. What the bytes spell is UTF-8, without the mark that may stand in front.
-/

namespace Percent

/-! ## Escapes -/

/-- An upper case digit. -/
def hexDigit (n : Nat) : Char := if n < 10 then Char.ofNat (48 + n) else Char.ofNat (55 + n)

/-- A digit of either case. -/
def hexValue (c : Char) : Option Nat :=
  let n := c.toNat
  if 48 ≤ n ∧ n ≤ 57 then some (n - 48)
  else if 65 ≤ n ∧ n ≤ 70 then some (n - 55)
  else if 97 ≤ n ∧ n ≤ 102 then some (n - 87)
  else none

theorem hexValue_hexDigit : ∀ n < 16, hexValue (hexDigit n) = some n := by decide

/-- What `quote` leaves as it is: letters, digits, `_.-~` and, by default, the slash. -/
def isSafe (n : Nat) : Bool :=
  (48 ≤ n && n ≤ 57) || (65 ≤ n && n ≤ 90) || (97 ≤ n && n ≤ 122) || n == 95 || n == 46 || n == 45 || n == 126 || n == 47

/-- The unreserved characters: letters, digits and `-._~`. -/
def isUnreserved (n : Nat) : Bool := isSafe n && n != 47

/-- A byte of the encoding. -/
def escape (safe : Nat → Bool) (b : UInt8) : Text :=
  if safe b.toNat then [Char.ofNat b.toNat] else ['%', hexDigit (b.toNat / 16), hexDigit (b.toNat % 16)]

/-- A text with every byte of its UTF-8 that is not safe as an escape. -/
def quoteWith (safe : Nat → Bool) (t : Text) : Text := (Text.encode t).flatMap (escape safe)

/-- `quote(t)`. -/
def quote (t : Text) : Text := quoteWith isSafe t

/-- A text as a component of a URI: only the unreserved characters stand for themselves. -/
def encodeComponent (t : Text) : Text := quoteWith isUnreserved t

/-- The bytes of a component. -/
def unescape : Text → Option Bytes
  | [] => some []
  | '%' :: a :: b :: rest =>
    match hexValue a, hexValue b with
    | some x, some y => (unescape rest).map (UInt8.ofNat (16 * x + y) :: ·)
    | _, _ => none
  | '%' :: _ => none
  | c :: rest => if c.toNat ≤ 127 then (unescape rest).map (UInt8.ofNat c.toNat :: ·) else none

/-- The decoder of UTF-8 passes by a byte order mark in front. -/
def skipMark (b : Bytes) : Bytes := if b.take 3 = [0xEF, 0xBB, 0xBF] then b.drop 3 else b

/-- `Uri.decodeComponent`. -/
def decodeComponent (t : Text) : Option Text := (unescape t).bind fun b => Text.decode (skipMark b)

/-! ## Texts without escapes -/

/-- A character that is no percent sign stands for itself. -/
theorem unescape_cons {c : Char} (hc : c ≠ '%') (ha : c.toNat ≤ 127) (rest : Text) :
    unescape (c :: rest) = (unescape rest).map (UInt8.ofNat c.toNat :: ·) := by
  rw [unescape]
  · exact if_pos ha
  · rintro a b rest' rfl -
    exact hc rfl
  · rintro rfl
    exact hc rfl

/-- ASCII without a percent sign stands for itself. -/
theorem unescape_plain {t : Text} (h : ∀ c ∈ t, c.toNat ≤ 127 ∧ c ≠ '%') : unescape t = some (Text.encode t) := by
  induction t with
  | nil => rfl
  | cons c t ih =>
    obtain ⟨ha, hc⟩ := h c (List.mem_cons_self ..)
    rw [unescape_cons hc ha, ih fun d hd => h d (List.mem_cons_of_mem _ hd), Text.encode_cons, Text.utf8EncodeChar_of_ascii ha]
    rfl

/-- ASCII text does not begin with a byte order mark. -/
theorem skipMark_ascii {t : Text} (h : ∀ c ∈ t, c.toNat ≤ 127) : skipMark (Text.encode t) = Text.encode t := by
  rw [skipMark, if_neg]
  intro hmark
  cases t with
  | nil => nomatch hmark
  | cons c t =>
    have ha := h c (List.mem_cons_self ..)
    rw [Text.encode_cons, Text.utf8EncodeChar_of_ascii ha, List.singleton_append, List.take_succ_cons] at hmark
    have hb := congrArg UInt8.toNat (List.cons.inj hmark).1
    rw [UInt8.toNat_ofNat'] at hb
    have hef : (0xEF : UInt8).toNat = 239 := rfl
    omega

/-- ASCII text without percent signs is decoded to itself. -/
theorem decodeComponent_plain {t : Text} (h : ∀ c ∈ t, c.toNat ≤ 127 ∧ c ≠ '%') : decodeComponent t = some t := by
  rw [decodeComponent, unescape_plain h, Option.bind_some, skipMark_ascii fun c hc => (h c hc).1, Text.decode_encode]

/-- A digit is ASCII. -/
theorem ascii_of_hexValue {c : Char} {n : Nat} (h : hexValue c = some n) : c.toNat ≤ 127 := by
  simp only [hexValue] at h
  split_ifs at h <;> omega

/-! ## What a text spells -/

/-- Every percent sign stands in front of two hexadecimal digits, and these are the bytes the text spells: an escape stands for its
byte, any other character for itself. -/
inductive Escaped : Text → Bytes → Prop
  | nil : Escaped [] []
  | escape {a b : Char} {x y : Nat} {rest : Text} {bytes : Bytes} (ha : hexValue a = some x) (hb : hexValue b = some y)
      (h : Escaped rest bytes) : Escaped ('%' :: a :: b :: rest) (UInt8.ofNat (16 * x + y) :: bytes)
  | char {c : Char} {rest : Text} {bytes : Bytes} (hc : c ≠ '%') (h : Escaped rest bytes) :
      Escaped (c :: rest) (String.utf8EncodeChar c ++ bytes)

/-- The escapes of a text are well-formed, and what it spells is the UTF-8 of this one. -/
def Spells (t s : Text) : Prop := Escaped t (Text.encode s)

/-- A text stands for one string of bytes at most. -/
theorem Escaped.unique {t : Text} {b b' : Bytes} (h : Escaped t b) (h' : Escaped t b') : b = b' := by
  induction h generalizing b' with
  | nil => cases h'; rfl
  | escape ha hb h ih =>
    cases h' with
    | escape ha' hb' h' =>
      obtain rfl := Option.some_inj.mp (ha.symm.trans ha')
      obtain rfl := Option.some_inj.mp (hb.symm.trans hb')
      rw [ih h']
    | char hc h' => exact absurd rfl hc
  | char hc h ih =>
    cases h' with
    | escape ha' hb' h' => exact absurd rfl hc
    | char hc' h' => rw [ih h']

/-- A text spells one other at most. -/
theorem Spells.unique {t s s' : Text} (h : Spells t s) (h' : Spells t s') : s = s' := Text.encode_injective (Escaped.unique h h')

/-- A text without percent signs spells itself. -/
theorem spells_self {t : Text} (h : '%' ∉ t) : Spells t t := by
  induction t with
  | nil => exact .nil
  | cons c t ih =>
    rw [List.mem_cons, not_or] at h
    exact .char (Ne.symm h.1) (ih h.2)

/-- What the decoder takes for the bytes of a component: those it spells, if it is ASCII. -/
theorem unescape_iff {t : Text} {b : Bytes} : unescape t = some b ↔ (∀ c ∈ t, c.toNat ≤ 127) ∧ Escaped t b := by
  constructor
  · intro h
    induction t using unescape.induct generalizing b with
    | case1 =>
      obtain rfl := Option.some_inj.mp h
      exact ⟨List.forall_mem_nil _, .nil⟩
    | case2 a c rest x y hy hx ih =>
      rw [unescape, hx, hy] at h
      obtain ⟨b₁, hb₁, rfl⟩ := Option.map_eq_some_iff.mp h
      obtain ⟨hascii, hrest⟩ := ih hb₁
      refine ⟨?_, .escape hx hy hrest⟩
      exact List.forall_mem_cons.mpr ⟨by decide, List.forall_mem_cons.mpr ⟨ascii_of_hexValue hx,
        List.forall_mem_cons.mpr ⟨ascii_of_hexValue hy, hascii⟩⟩⟩
    | case3 a c rest hbad =>
      rw [unescape] at h
      split at h
      · rename_i x y hx hy
        exact absurd hy (hbad x y hx)
      · cases h
    | case4 rest hshort =>
      rw [unescape] at h
      · cases h
      · exact hshort
    | case5 c rest hlong hc ha ih =>
      have hne : c ≠ '%' := fun heq => hc heq
      rw [unescape_cons hne ha] at h
      obtain ⟨b₁, hb₁, rfl⟩ := Option.map_eq_some_iff.mp h
      obtain ⟨hascii, hrest⟩ := ih hb₁
      refine ⟨List.forall_mem_cons.mpr ⟨ha, hascii⟩, ?_⟩
      have hchar := Escaped.char hne hrest
      rwa [Text.utf8EncodeChar_of_ascii ha] at hchar
    | case6 c rest hlong hc ha =>
      rw [unescape] at h
      · rw [if_neg ha] at h
        cases h
      · exact hlong
      · exact hc
  · rintro ⟨hascii, h⟩
    induction h with
    | nil => rfl
    | escape ha hb h ih =>
      rw [unescape, ha, hb]
      dsimp only
      rw [ih fun c hc => hascii c (by simp [hc]), Option.map_some]
    | char hc h ih =>
      obtain ⟨ha, hascii⟩ := List.forall_mem_cons.mp hascii
      rw [unescape_cons hc ha, ih hascii, Option.map_some, Text.utf8EncodeChar_of_ascii ha]
      rfl

/-- Only the empty text spells nothing. -/
theorem eq_nil_of_spells_nil {t : Text} (h : Spells t []) : t = [] := by
  replace h : Escaped t (Text.encode []) := h
  generalize hb : Text.encode [] = b at h
  cases h with
  | nil => rfl
  | escape ha hb' h => cases hb
  | char hc h =>
    have hnil := (List.append_eq_nil_iff.mp hb.symm).1
    exact absurd hnil String.utf8EncodeChar_ne_nil

/-! ## What decoding can give -/

/-- An escape is shorter than it is written, and the rest of an ASCII text as long. -/
theorem Escaped.length {t : Text} {b : Bytes} (h : Escaped t b) (hascii : ∀ c ∈ t, c.toNat ≤ 127) :
    b.length ≤ t.length ∧ (b.length = t.length → ∀ c ∈ t, c.toNat ≤ 127 ∧ c ≠ '%') := by
  induction h with
  | nil => exact ⟨Nat.le_refl _, fun _ => List.forall_mem_nil _⟩
  | escape ha hb h ih =>
    have hle := (ih fun c hc => hascii c (by simp [hc])).1
    simp only [List.length_cons]
    exact ⟨by omega, fun heq => by omega⟩
  | char hc h ih =>
    obtain ⟨ha, hascii⟩ := List.forall_mem_cons.mp hascii
    obtain ⟨hle, hall⟩ := ih hascii
    rw [Text.utf8EncodeChar_of_ascii ha]
    simp only [List.length_append, List.length_cons, List.length_nil]
    exact ⟨by omega, fun heq => List.forall_mem_cons.mpr ⟨⟨ha, hc⟩, hall (by omega)⟩⟩

/-- What the decoder takes for the bytes of a component is no longer than the component. -/
theorem length_unescape {t : Text} {b : Bytes} (h : unescape t = some b) :
    b.length ≤ t.length ∧ (b.length = t.length → ∀ c ∈ t, c.toNat ≤ 127 ∧ c ≠ '%') :=
  have hspelt := unescape_iff.mp h
  hspelt.2.length hspelt.1

/-- Without its mark a string of bytes is no longer. -/
theorem length_skipMark (b : Bytes) : (skipMark b).length ≤ b.length := by
  unfold skipMark
  split
  · rw [List.length_drop]
    omega
  · exact Nat.le_refl _

/-- A component is never longer when it is decoded, and as long only when it has no escape. -/
theorem length_decodeComponent {t s : Text} (h : decodeComponent t = some s) :
    s.length ≤ t.length ∧ (s.length = t.length → ∀ c ∈ t, c.toNat ≤ 127 ∧ c ≠ '%') := by
  obtain ⟨b, hb, hs⟩ := Option.bind_eq_some_iff.mp h
  obtain ⟨hle, hall⟩ := length_unescape hb
  have hencode : s.length ≤ (skipMark b).length := Text.encode_of_decode hs ▸ Text.length_le_encode s
  have hmark := length_skipMark b
  exact ⟨by omega, fun heq => hall (by omega)⟩

/-- It stands for itself exactly when it is ASCII without a percent sign. -/
theorem decodeComponent_self {t : Text} : decodeComponent t = some t ↔ ∀ c ∈ t, c.toNat ≤ 127 ∧ c ≠ '%' :=
  ⟨fun h => (length_decodeComponent h).2 rfl, decodeComponent_plain⟩

/-! ## The round trip -/

/-- A code below the surrogates is that of its character. -/
theorem toNat_ofNat {n : Nat} (h : n < 0xD800) : (Char.ofNat n).toNat = n := by
  rw [Char.ofNat, dif_pos (Or.inl h)]
  rfl

/-- What is left as it is is ASCII, and no percent sign. -/
theorem isSafe_ascii {n : Nat} (h : isSafe n = true) : n ≤ 127 ∧ n ≠ 37 := by
  simp only [isSafe, Bool.or_eq_true, Bool.and_eq_true, decide_eq_true_eq, beq_iff_eq] at h
  omega

theorem isSafe_of_isUnreserved {n : Nat} (h : isUnreserved n = true) : isSafe n = true := (Bool.and_eq_true_iff.mp h).1

section Quote

variable {safe : Nat → Bool} (hsafe : ∀ n, safe n = true → isSafe n = true)

include hsafe

/-- An escaped byte is read back as the byte. -/
theorem unescape_escape (b : UInt8) (rest : Text) : unescape (escape safe b ++ rest) = (unescape rest).map (b :: ·) := by
  have hb := b.toNat_lt
  unfold escape
  split
  · rename_i h
    have hsmall := isSafe_ascii (hsafe _ h)
    have hcode : (Char.ofNat b.toNat).toNat = b.toNat := toNat_ofNat (by omega)
    have hpercent : ('%' : Char).toNat = 37 := rfl
    have hne : Char.ofNat b.toNat ≠ '%' := fun h => hsmall.2 (by rw [← hcode, h, hpercent])
    rw [List.singleton_append, unescape_cons hne (by omega), hcode, UInt8.ofNat_toNat]
  · simp only [List.cons_append, List.nil_append]
    rw [unescape, hexValue_hexDigit _ (by omega), hexValue_hexDigit _ (by omega)]
    have hsum : 16 * (b.toNat / 16) + b.toNat % 16 = b.toNat := by omega
    simp only [hsum, UInt8.ofNat_toNat]

/-- A quoted text is read back as its bytes. -/
theorem unescape_quoteWith (t : Text) : unescape (quoteWith safe t) = some (Text.encode t) := by
  unfold quoteWith
  induction Text.encode t with
  | nil => rfl
  | cons b bs ih => rw [List.flatMap_cons, unescape_escape hsafe, ih, Option.map_some]

end Quote

/-- A byte order mark in front of a file is a character of it. -/
theorem mark_of_encode {t : Text} (h : (Text.encode t).take 3 = [0xEF, 0xBB, 0xBF]) :
    ∃ s, t = '\uFEFF' :: s ∧ (Text.encode t).drop 3 = Text.encode s := by
  cases t with
  | nil => nomatch h
  | cons c t =>
    have hmark : String.utf8EncodeChar '\uFEFF' = [0xEF, 0xBB, 0xBF] := by decide
    have hc : c = '\uFEFF' := by
      rw [Text.encode_cons] at h
      have hv : c.val.toNat = c.toNat := rfl
      simp only [String.utf8EncodeChar, hv] at h
      split_ifs at h with h₁ h₂ h₃
      all_goals
        simp only [List.cons_append, List.nil_append, List.take_succ_cons, List.take_zero, List.cons.injEq] at h
        have h₀ := congrArg UInt8.toNat h.1
        rw [UInt8.toNat_ofNat'] at h₀
        have hef : (0xEF : UInt8).toNat = 239 := rfl
      · omega
      · omega
      · have hbb := congrArg UInt8.toNat h.2.1
        have hbf := congrArg UInt8.toNat h.2.2.1
        rw [UInt8.toNat_ofNat'] at hbb hbf
        have hbb' : (0xBB : UInt8).toNat = 187 := rfl
        have hbf' : (0xBF : UInt8).toNat = 191 := rfl
        refine Char.toNat_inj.mp ?_
        have hfeff : ('\uFEFF' : Char).toNat = 0xFEFF := rfl
        omega
      · omega
    subst hc
    refine ⟨t, rfl, ?_⟩
    rw [Text.encode_cons, hmark]
    rfl

/-- A text as it is decoded when it was quoted: without a byte order mark in front. -/
def unmarked (t : Text) : Text := if t.head? = some '\uFEFF' then t.tail else t

/-- Nothing else is lost. -/
theorem unmarked_eq_self {t : Text} : unmarked t = t ↔ t.head? ≠ some '\uFEFF' := by
  unfold unmarked
  split
  · rename_i h
    obtain ⟨s, rfl⟩ := List.head?_eq_some_iff.mp h
    refine ⟨fun heq => ?_, fun hne => absurd rfl hne⟩
    have hlen := congrArg List.length heq
    rw [List.tail_cons, List.length_cons] at hlen
    omega
  · rename_i h
    exact ⟨fun _ => h, fun _ => rfl⟩

/-- The bytes of a text without their mark are those of the text without its own. -/
theorem decode_skipMark_encode (t : Text) : Text.decode (skipMark (Text.encode t)) = some (unmarked t) := by
  rw [skipMark]
  split
  · rename_i h
    obtain ⟨s, rfl, hs⟩ := mark_of_encode h
    rw [hs, Text.decode_encode]
    rfl
  · rename_i h
    rw [Text.decode_encode, unmarked_eq_self.mpr]
    intro hhead
    obtain ⟨s, rfl⟩ := List.head?_eq_some_iff.mp hhead
    have hmark : String.utf8EncodeChar '\uFEFF' = [0xEF, 0xBB, 0xBF] := by decide
    exact h (by rw [Text.encode_cons, hmark]; rfl)

/-- Bytes that are UTF-8 without their mark are so with it. -/
theorem exists_encode_of_skipMark {b : Bytes} {t : Text} (h : Text.decode (skipMark b) = some t) : ∃ s, b = Text.encode s := by
  have hbytes := Text.encode_of_decode h
  unfold skipMark at hbytes
  split at hbytes
  · rename_i hmark
    refine ⟨'\uFEFF' :: t, ?_⟩
    have hfeff : String.utf8EncodeChar '\uFEFF' = [0xEF, 0xBB, 0xBF] := by decide
    rw [Text.encode_cons, hfeff, hbytes, ← hmark, List.take_append_drop]
  · exact ⟨t, hbytes.symm⟩

/-- `Uri.decodeComponent` reads what an ASCII text spells, without a byte order mark in front. -/
theorem decodeComponent_iff {t s : Text} :
    decodeComponent t = some s ↔ (∀ c ∈ t, c.toNat ≤ 127) ∧ ∃ u, Spells t u ∧ unmarked u = s := by
  rw [decodeComponent, Option.bind_eq_some_iff]
  constructor
  · rintro ⟨b, hb, hs⟩
    obtain ⟨u, rfl⟩ := exists_encode_of_skipMark hs
    obtain ⟨hascii, hescaped⟩ := unescape_iff.mp hb
    exact ⟨hascii, u, hescaped, Option.some_inj.mp ((decode_skipMark_encode u).symm.trans hs)⟩
  · rintro ⟨hascii, u, hspells, rfl⟩
    exact ⟨_, unescape_iff.mpr ⟨hascii, hspells⟩, decode_skipMark_encode u⟩

/-- Nothing is left without the mark of a text that is no more than one. -/
theorem unmarked_eq_nil {t : Text} : unmarked t = [] ↔ t = [] ∨ t = ['\uFEFF'] := by
  unfold unmarked
  split
  · rename_i h
    obtain ⟨s, rfl⟩ := List.head?_eq_some_iff.mp h
    simp
  · rename_i h
    refine ⟨.inl, fun ht => ht.resolve_right ?_⟩
    rintro rfl
    exact h rfl

section Decode

variable {safe : Nat → Bool} (hsafe : ∀ n, safe n = true → isSafe n = true)

include hsafe

/-- What was quoted is decoded, but for a byte order mark in front. -/
theorem decodeComponent_quoteWith (t : Text) : decodeComponent (quoteWith safe t) = some (unmarked t) := by
  rw [decodeComponent, unescape_quoteWith hsafe, Option.bind_some, decode_skipMark_encode]

/-- A quoted text is ASCII, and has none of the characters that separate the parts of a URI. -/
theorem mem_quoteWith {t : Text} {c : Char} (h : c ∈ quoteWith safe t) : c = '%' ∨ safe c.toNat = true ∨ ∃ n < 16, c = hexDigit n := by
  obtain ⟨b, -, hc⟩ := List.mem_flatMap.mp h
  have hb := b.toNat_lt
  unfold escape at hc
  split at hc
  · rename_i h
    have hsmall := isSafe_ascii (hsafe _ h)
    rw [List.mem_singleton.mp hc, toNat_ofNat (by omega)]
    exact .inr (.inl h)
  · simp only [List.mem_cons, List.not_mem_nil, or_false] at hc
    rcases hc with rfl | rfl | rfl
    · exact .inl rfl
    · exact .inr (.inr ⟨_, by omega, rfl⟩)
    · exact .inr (.inr ⟨_, by omega, rfl⟩)

end Decode

/-- A quoted text is decoded to itself, without the mark in front. -/
theorem decodeComponent_quote (t : Text) : decodeComponent (quote t) = some (unmarked t) := decodeComponent_quoteWith (fun _ h => h) t

/-- An encoded component is decoded to itself, without the mark in front. -/
theorem decodeComponent_encodeComponent (t : Text) : decodeComponent (encodeComponent t) = some (unmarked t) :=
  decodeComponent_quoteWith (fun _ h => isSafe_of_isUnreserved h) t

/-- What is quoted is made of percent signs and safe characters. -/
theorem mem_quote {t : Text} {c : Char} (h : c ∈ quote t) : c = '%' ∨ isSafe c.toNat := by
  have hdigit : ∀ n < 16, isSafe (hexDigit n).toNat = true := by decide
  rcases mem_quoteWith (fun _ h => h) h with heq | hsafe | ⟨n, hn, rfl⟩
  · exact .inl heq
  · exact .inr hsafe
  · exact .inr (hdigit n hn)

/-- A component is made of unreserved characters and percent signs. -/
theorem mem_encodeComponent {t : Text} {c : Char} (h : c ∈ encodeComponent t) : c = '%' ∨ isUnreserved c.toNat := by
  have hdigit : ∀ n < 16, isUnreserved (hexDigit n).toNat = true := by decide
  rcases mem_quoteWith (fun _ h => isSafe_of_isUnreserved h) h with heq | hsafe | ⟨n, hn, rfl⟩
  · exact .inl heq
  · exact .inr hsafe
  · exact .inr (hdigit n hn)

/-- The empty text alone is quoted as nothing. -/
theorem quoteWith_eq_nil {safe : Nat → Bool} {t : Text} : quoteWith safe t = [] ↔ t = [] := by
  constructor
  · intro h
    cases t with
    | nil => rfl
    | cons c t =>
      obtain ⟨b, bs, hb⟩ := List.exists_cons_of_ne_nil (String.utf8EncodeChar_ne_nil (c := c))
      rw [quoteWith, Text.encode_cons, hb, List.cons_append, List.flatMap_cons] at h
      have hescape := (List.append_eq_nil_iff.mp h).1
      unfold escape at hescape
      split at hescape <;> nomatch hescape
  · rintro rfl
    rfl

end Percent

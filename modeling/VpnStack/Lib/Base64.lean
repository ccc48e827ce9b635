import VpnStack.Lib.Text

/-!
# Bytes as text

Base64 in both its alphabets, and hexadecimal. The encoder cuts three bytes into four sextets; the decoder is the forgiving one,
which passes by what is not a digit and stops at the padding.
-/

namespace Base64

/-! ## Digits -/

/-- The digits, the last two of which tell the alphabets apart. -/
def digitWith (sixtyTwo sixtyThree : Char) (n : Nat) : Char :=
  if n < 26 then Char.ofNat (65 + n)
  else if n < 52 then Char.ofNat (71 + n)
  else if n < 62 then Char.ofNat (n - 4)
  else if n = 62 then sixtyTwo
  else sixtyThree

def digit : Nat → Char := digitWith '+' '/'

def urlDigit : Nat → Char := digitWith '-' '_'

/-- What a digit of the standard alphabet stands for. -/
def value (c : Char) : Option Nat :=
  let n := c.toNat
  if 65 ≤ n ∧ n ≤ 90 then some (n - 65)
  else if 97 ≤ n ∧ n ≤ 122 then some (n - 71)
  else if 48 ≤ n ∧ n ≤ 57 then some (n + 4)
  else if c = '+' then some 62
  else if c = '/' then some 63
  else none

/-- From the alphabet of file names to the standard one. -/
def ofUrl (c : Char) : Char := if c = '-' then '+' else if c = '_' then '/' else c

theorem value_ofUrl_urlDigit : ∀ n < 64, value (ofUrl (urlDigit n)) = some n := by decide

theorem ofUrl_urlDigit_ne_pad : ∀ n < 64, ofUrl (urlDigit n) ≠ '=' := by decide

theorem urlDigit_ascii : ∀ n < 64, (urlDigit n).toNat ≤ 127 := by decide

theorem digit_ascii : ∀ n < 64, (digit n).toNat ≤ 127 := by decide

/-! ## Encoding -/

/-- The sextets of some bytes, the last one filled up with zeros. -/
def sextets : Bytes → List Nat
  | a :: b :: c :: rest =>
    a.toNat / 4 :: (a.toNat % 4 * 16 + b.toNat / 16) :: (b.toNat % 16 * 4 + c.toNat / 64) :: c.toNat % 64 :: sextets rest
  | [a, b] => [a.toNat / 4, a.toNat % 4 * 16 + b.toNat / 16, b.toNat % 16 * 4]
  | [a] => [a.toNat / 4, a.toNat % 4 * 16]
  | [] => []

/-- A sextet has six bits. -/
theorem sextet_lt {b : Bytes} : ∀ n ∈ sextets b, n < 64 := by
  induction b using sextets.induct with
  | case1 a b c rest ih =>
    have ha := a.toNat_lt
    have hb := b.toNat_lt
    intro n hn
    simp only [sextets, List.mem_cons] at hn
    rcases hn with rfl | rfl | rfl | rfl | hn
    · omega
    · omega
    · have hc := c.toNat_lt
      omega
    · omega
    · exact ih n hn
  | case2 a b =>
    have ha := a.toNat_lt
    have hb := b.toNat_lt
    intro n hn
    simp only [sextets, List.mem_cons, List.not_mem_nil, or_false] at hn
    omega
  | case3 a =>
    have ha := a.toNat_lt
    intro n hn
    simp only [sextets, List.mem_cons, List.not_mem_nil, or_false] at hn
    omega
  | case4 => simp [sextets]

/-- Three bytes make four digits, and what is left over a digit more than it has bytes. -/
theorem length_sextets (b : Bytes) : (sextets b).length = (4 * b.length + 2) / 3 := by
  induction b using sextets.induct with
  | case1 a b c rest ih =>
    simp only [sextets, List.length_cons, ih]
    omega
  | case2 a b => simp [sextets]
  | case3 a => simp [sextets]
  | case4 => rfl

/-- `base64.urlsafe_b64encode(raw).rstrip(b"=")`. -/
def urlEncode (b : Bytes) : Text := (sextets b).map urlDigit

/-- `base64.b64encode`. -/
def encode (b : Bytes) : Text := (sextets b).map digit ++ List.replicate ((3 - b.length % 3) % 3) '='

/-- Four digits are written for three bytes, and no padding. -/
theorem length_urlEncode (b : Bytes) : (urlEncode b).length = (4 * b.length + 2) / 3 := by
  rw [urlEncode, List.length_map, length_sextets]

/-- What is encoded is made of digits. -/
theorem mem_urlEncode {b : Bytes} {c : Char} (hc : c ∈ urlEncode b) : ∃ n < 64, c = urlDigit n := by
  obtain ⟨n, hn, rfl⟩ := List.mem_map.mp hc
  exact ⟨n, sextet_lt n hn, rfl⟩

/-- What is encoded in the standard alphabet is ASCII. -/
theorem encode_ascii {b : Bytes} : ∀ c ∈ encode b, c.toNat ≤ 127 := by
  intro c hc
  rcases List.mem_append.mp hc with hc | hc
  · obtain ⟨n, hn, rfl⟩ := List.mem_map.mp hc
    exact digit_ascii n (sextet_lt n hn)
  · rw [List.eq_of_mem_replicate hc]
    decide

/-! ## Decoding -/

/-- The loop of `binascii.a2b_base64`: the place in a group of four, the bits that are left from the digit before, and how much
padding it has seen. -/
def decodeFrom (quad left pads : Nat) : Text → Option Bytes
  | [] => if quad = 0 then some [] else none
  | c :: rest =>
    if c = '=' then
      if quad ≥ 2 then if quad + (pads + 1) ≥ 4 then some [] else decodeFrom quad left (pads + 1) rest
      else decodeFrom quad left pads rest
    else
      match value c with
      | none => decodeFrom quad left pads rest
      | some v =>
        match quad with
        | 0 => decodeFrom 1 v 0 rest
        | 1 => (decodeFrom 2 (v % 16) 0 rest).map (UInt8.ofNat (left * 4 + v / 16) :: ·)
        | 2 => (decodeFrom 3 (v % 4) 0 rest).map (UInt8.ofNat (left * 16 + v / 4) :: ·)
        | _ => (decodeFrom 0 0 0 rest).map (UInt8.ofNat (left * 64 + v) :: ·)

/-- `base64.urlsafe_b64decode(s + padding)`, with the padding `s` lacks. -/
def urlDecode (s : Text) : Option Bytes :=
  if ∀ c ∈ s, c.toNat ≤ 127 then
    decodeFrom 0 0 0 ((s ++ List.replicate ((4 - s.length % 4) % 4) '=').map ofUrl)
  else none

section Digits

variable {n : Nat} (hn : n < 64) {left pads : Nat} {rest : Text}

include hn

/-- The first digit of four is kept whole. -/
theorem decodeFrom_zero : decodeFrom 0 left pads (ofUrl (urlDigit n) :: rest) = decodeFrom 1 n 0 rest := by
  rw [decodeFrom, if_neg (ofUrl_urlDigit_ne_pad n hn), value_ofUrl_urlDigit n hn]
  rfl

/-- The second makes the first byte full, and leaves four bits. -/
theorem decodeFrom_one : decodeFrom 1 left pads (ofUrl (urlDigit n) :: rest) =
    (decodeFrom 2 (n % 16) 0 rest).map (UInt8.ofNat (left * 4 + n / 16) :: ·) := by
  rw [decodeFrom, if_neg (ofUrl_urlDigit_ne_pad n hn), value_ofUrl_urlDigit n hn]
  rfl

/-- The third makes the second byte full, and leaves two bits. -/
theorem decodeFrom_two : decodeFrom 2 left pads (ofUrl (urlDigit n) :: rest) =
    (decodeFrom 3 (n % 4) 0 rest).map (UInt8.ofNat (left * 16 + n / 4) :: ·) := by
  rw [decodeFrom, if_neg (ofUrl_urlDigit_ne_pad n hn), value_ofUrl_urlDigit n hn]
  rfl

/-- The fourth makes the third byte full. -/
theorem decodeFrom_three : decodeFrom 3 left pads (ofUrl (urlDigit n) :: rest) =
    (decodeFrom 0 0 0 rest).map (UInt8.ofNat (left * 64 + n) :: ·) := by
  rw [decodeFrom, if_neg (ofUrl_urlDigit_ne_pad n hn), value_ofUrl_urlDigit n hn]
  rfl

end Digits

/-- A byte put together again from the bits it was cut into. -/
theorem ofNat_eq {m : Nat} {a : UInt8} (h : m = a.toNat) : UInt8.ofNat m = a := by rw [h, UInt8.ofNat_toNat]

/-- The digits of some bytes, with the padding of their last group, are read as these bytes. -/
theorem decodeFrom_sextets (b : Bytes) :
    decodeFrom 0 0 0 (((sextets b).map fun n => ofUrl (urlDigit n)) ++ List.replicate ((4 - (sextets b).length % 4) % 4) '=') =
      some b := by
  induction b using sextets.induct with
  | case1 a b c rest ih =>
    have ha := a.toNat_lt
    have hb := b.toNat_lt
    have hc := c.toNat_lt
    have hlength : (4 - (sextets (a :: b :: c :: rest)).length % 4) % 4 = (4 - (sextets rest).length % 4) % 4 := by
      simp only [sextets, List.length_cons]
      omega
    rw [hlength]
    simp only [sextets, List.map_cons, List.cons_append]
    rw [decodeFrom_zero (by omega), decodeFrom_one (by omega), decodeFrom_two (by omega), decodeFrom_three (by omega), ih,
      ofNat_eq (a := a) (by omega), ofNat_eq (a := b) (by omega), ofNat_eq (a := c) (by omega)]
    rfl
  | case2 a b =>
    have ha := a.toNat_lt
    have hb := b.toNat_lt
    have hlength : (4 - (sextets [a, b]).length % 4) % 4 = 1 := by simp [sextets]
    have hpad : ∀ left, decodeFrom 3 left 0 ['='] = some [] := fun _ => rfl
    rw [hlength]
    simp only [sextets, List.map_cons, List.map_nil, List.cons_append, List.nil_append, List.replicate]
    rw [decodeFrom_zero (by omega), decodeFrom_one (by omega), decodeFrom_two (by omega), hpad, ofNat_eq (a := a) (by omega),
      ofNat_eq (a := b) (by omega)]
    rfl
  | case3 a =>
    have ha := a.toNat_lt
    have hlength : (4 - (sextets [a]).length % 4) % 4 = 2 := by simp [sextets]
    have hpad : ∀ left, decodeFrom 2 left 0 ['=', '='] = some [] := fun _ => rfl
    rw [hlength]
    simp only [sextets, List.map_cons, List.map_nil, List.cons_append, List.nil_append, List.replicate]
    rw [decodeFrom_zero (by omega), decodeFrom_one (by omega), hpad, ofNat_eq (a := a) (by omega)]
    rfl
  | case4 => rfl

/-- What was encoded is decoded. -/
theorem urlDecode_urlEncode (b : Bytes) : urlDecode (urlEncode b) = some b := by
  have hascii : ∀ c ∈ urlEncode b, c.toNat ≤ 127 := by
    intro c hc
    obtain ⟨n, hn, rfl⟩ := mem_urlEncode hc
    exact urlDigit_ascii n hn
  have hpad : ofUrl '=' = '=' := rfl
  rw [urlDecode, if_pos hascii, List.map_append, List.map_replicate, hpad, urlEncode, List.length_map, List.map_map]
  exact decodeFrom_sextets b

/-! ## The strict decoder -/

/-- What a digit of either alphabet stands for. -/
def eitherValue (c : Char) : Option Nat := value (ofUrl c)

/-- So many padding marks, each an equals sign or that percent-encoded, and nothing behind them. -/
def isPadding : Nat → Text → Bool
  | 0, rest => rest.isEmpty
  | n + 1, '=' :: rest => isPadding n rest
  | n + 1, '%' :: '3' :: d :: rest => (d == 'D' || d == 'd') && isPadding n rest
  | _, _ => false

/-- What a group of two digits ends with. -/
def endTwo (x y : Nat) (rest : Text) : Option Bytes :=
  if y % 16 = 0 ∧ isPadding 2 rest then some [UInt8.ofNat (x * 4 + y / 16)] else none

/-- What a group of three digits ends with. -/
def endThree (x y z : Nat) (rest : Text) : Option Bytes :=
  if z % 4 = 0 ∧ isPadding 1 rest then some [UInt8.ofNat (x * 4 + y / 16), UInt8.ofNat (y % 16 * 16 + z / 4)] else none

/-- `base64Decode` of dart:convert: groups of four digits, the last of which may be padded. -/
def strictDecode : Text → Option Bytes
  | [] => some []
  | a :: b :: c :: d :: rest =>
    match eitherValue a, eitherValue b, eitherValue c, eitherValue d with
    | some x, some y, some z, some u => (strictDecode rest).map ([UInt8.ofNat (x * 4 + y / 16), UInt8.ofNat (y % 16 * 16 + z / 4),
        UInt8.ofNat (z % 4 * 64 + u)] ++ ·)
    | some x, some y, some z, none => endThree x y z (d :: rest)
    | some x, some y, none, _ => endTwo x y (c :: d :: rest)
    | _, _, _, _ => none
  | _ => none

theorem eitherValue_digit : ∀ n < 64, eitherValue (digit n) = some n := by decide

/-- What was encoded passes the strict decoder. -/
theorem strictDecode_encode (b : Bytes) : strictDecode (encode b) = some b := by
  have hpad : eitherValue '=' = none := by decide
  have hmarks : isPadding 2 ['=', '='] = true ∧ isPadding 1 ['='] = true := by decide
  unfold encode
  induction b using sextets.induct with
  | case1 a b c rest ih =>
    have ha := a.toNat_lt
    have hb := b.toNat_lt
    have hc := c.toNat_lt
    have hlength : (3 - (a :: b :: c :: rest).length % 3) % 3 = (3 - rest.length % 3) % 3 := by
      simp only [List.length_cons]
      omega
    rw [hlength]
    simp only [sextets, List.map_cons, List.cons_append, strictDecode]
    rw [eitherValue_digit _ (by omega), eitherValue_digit _ (by omega), eitherValue_digit _ (by omega),
      eitherValue_digit _ (by omega), ih]
    dsimp only [Option.map]
    rw [ofNat_eq (a := a) (by omega), ofNat_eq (a := b) (by omega), ofNat_eq (a := c) (by omega)]
    rfl
  | case2 a b =>
    have ha := a.toNat_lt
    have hb := b.toNat_lt
    have hlength : (3 - [a, b].length % 3) % 3 = 1 := rfl
    rw [hlength]
    simp only [sextets, List.map_cons, List.map_nil, List.cons_append, List.nil_append, List.replicate, strictDecode]
    rw [eitherValue_digit _ (by omega), eitherValue_digit _ (by omega), eitherValue_digit _ (by omega), hpad]
    dsimp only
    rw [endThree, if_pos ⟨by omega, hmarks.2⟩, ofNat_eq (a := a) (by omega), ofNat_eq (a := b) (by omega)]
  | case3 a =>
    have ha := a.toNat_lt
    have hlength : (3 - [a].length % 3) % 3 = 2 := rfl
    rw [hlength]
    simp only [sextets, List.map_cons, List.map_nil, List.cons_append, List.nil_append, List.replicate, strictDecode]
    rw [eitherValue_digit _ (by omega), eitherValue_digit _ (by omega), hpad]
    dsimp only
    rw [endTwo, if_pos ⟨by omega, hmarks.1⟩, ofNat_eq (a := a) (by omega)]
  | case4 => rfl

end Base64

namespace Hex

def lower (n : Nat) : Char := if n < 10 then Char.ofNat (48 + n) else Char.ofNat (87 + n)

def upper (n : Nat) : Char := if n < 10 then Char.ofNat (48 + n) else Char.ofNat (55 + n)

/-- Two digits a byte. -/
def encode (digit : Nat → Char) (b : Bytes) : Text := b.flatMap fun x => [digit (x.toNat / 16), digit (x.toNat % 16)]

/-- What is encoded is made of digits. -/
theorem mem_encode {digit : Nat → Char} {b : Bytes} {c : Char} (hc : c ∈ encode digit b) : ∃ n < 16, c = digit n := by
  obtain ⟨x, -, hc⟩ := List.mem_flatMap.mp hc
  have hx := x.toNat_lt
  simp only [List.mem_cons, List.not_mem_nil, or_false] at hc
  rcases hc with rfl | rfl
  · exact ⟨_, by omega, rfl⟩
  · exact ⟨_, by omega, rfl⟩

/-- Two digits are written for a byte. -/
theorem length_encode (digit : Nat → Char) (b : Bytes) : (encode digit b).length = 2 * b.length := by
  induction b with
  | nil => rfl
  | cons x b ih =>
    have hcons : encode digit (x :: b) = digit (x.toNat / 16) :: digit (x.toNat % 16) :: encode digit b := rfl
    rw [hcons, List.length_cons, List.length_cons, ih, List.length_cons]
    omega

end Hex

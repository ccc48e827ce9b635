import VpnStack.Lib.JsonReader
import VpnStack.Lib.Fallible

/-!
# The json module of Python

`json.loads` and `json.dumps(value, indent=2)` as the interpreter runs them. They go beyond JSON: half of a surrogate pair may be escaped
alone, NaN and the infinities are numbers, an integer of too many digits raises a `ValueError` where it is met, and what is nested too
deep a `RecursionError`. What is written is read back as it was, unless a string has two halves of a pair side by side.
-/

namespace PyJson

open Json (skipWhite readHex4 hex4 newline isWhite isNumberChar Ended)

/-! ## Strings -/

/-- A string: code points, which may be halves of surrogate pairs. -/
abbrev Str := List (Fin 0x110000)

theorem toNat_lt (c : Char) : c.toNat < 0x110000 := by
  have hvalid := Json.toNat_valid c
  omega

/-- The code point of a character. -/
def point (c : Char) : Fin 0x110000 := ⟨c.toNat, toNat_lt c⟩

/-- The string of a text. -/
def ofText (t : Text) : Str := t.map point

instance : Coe String Str := ⟨fun s => ofText s.toList⟩

/-- The first half of a surrogate pair. -/
abbrev High (n : Nat) : Prop := 0xd800 ≤ n ∧ n < 0xdc00

/-- The second half of one. -/
abbrev Low (n : Nat) : Prop := 0xdc00 ≤ n ∧ n < 0xe000

/-- No first half stands in front of a second one. -/
def Joined (t : Str) : Prop := t.IsChain fun a b : Fin 0x110000 => ¬ (High a ∧ Low b)

/-! ## Values -/

/-- A value. A float is told by how it is written. The names of a dictionary are distinct. -/
inductive Value where
  | null
  | bool (b : Bool)
  | int (n : Int)
  | float (written : Text)
  | str (t : Str)
  | arr (items : List Value)
  | obj (members : List (Str × Value))

instance : Coe String Value := ⟨fun s => .str s⟩

/-- What `json.loads` raises. -/
inductive Failure where
  /-- `JSONDecodeError`. -/
  | decode
  | valueError
  | recursionError
  deriving DecidableEq, Repr

/-- What the interpreter decides: how many arrays and objects deep the scanner goes before a `RecursionError`, and how the float is
written that a literal is read as. -/
structure Scanner where
  nesting : Nat
  float : Text → Text

/-- `d[key] = v` -/
def set (members : List (Str × Value)) (key : Str) (v : Value) : List (Str × Value) :=
  if members.any (·.1 = key) then members.map fun m => if m.1 = key then (key, v) else m else members ++ [(key, v)]

/-- The dictionary of the members of an object, the last of a name in the place of the first. -/
def dict (members : List (Str × Value)) : List (Str × Value) := members.foldl (fun d m => set d m.1 m.2) []

/-- `data.get(key)` -/
def Value.get (v : Value) (key : Str) : Option Value :=
  match v with
  | .obj members => members.lookup key
  | _ => none

/-! ## Reading strings -/

/-- The code unit behind `\u`. A first half with a second one escaped behind it is one code point with it. -/
def readUnit (n : Nat) (s : Text) : Option (Fin 0x110000 × Text) :=
  if High n then
    match s with
    | '\\' :: 'u' :: t =>
      match readHex4 t with
      | some (m, t) =>
        if Low m then some (Fin.ofNat _ (0x10000 + (n - 0xd800) * 0x400 + (m - 0xdc00)), t) else some (Fin.ofNat _ n, s)
      | none => none
    | _ => some (Fin.ofNat _ n, s)
  else some (Fin.ofNat _ n, s)

/-- A code point behind a backslash. -/
def readEscape : Text → Option (Fin 0x110000 × Text)
  | '"' :: s => some (point '"', s)
  | '\\' :: s => some (point '\\', s)
  | '/' :: s => some (point '/', s)
  | 'n' :: s => some (point '\n', s)
  | 'r' :: s => some (point '\r', s)
  | 't' :: s => some (point '\t', s)
  | 'f' :: s => some (point '\x0c', s)
  | 'b' :: s => some (point '\x08', s)
  | 'u' :: s =>
    match readHex4 s with
    | some (n, s) => readUnit n s
    | none => none
  | _ => none

/-- A string literal, behind its opening quote. The number bounds how much is read. -/
def readString : Nat → Text → Option (Str × Text)
  | 0, _ => none
  | _ + 1, [] => none
  | n + 1, c :: s =>
    if c = '"' then some ([], s)
    else if c = '\\' then
      match readEscape s with
      | some (p, s) => (readString n s).map fun r => (p :: r.1, r.2)
      | none => none
    else if c < ' ' then none
    else (readString n s).map fun r => (point c :: r.1, r.2)

/-- A literal that is none is a decoding error. -/
def literal (s : Text) : Except Failure (Str × Text) :=
  match readString s.length s with
  | some r => .ok r
  | none => .error .decode

/-! ## Reading numbers -/

/-- The digits of an integer that no number is made of. -/
def intMaxStrDigits : Nat := 4300

/-- A whole part: a zero alone, or digits with no zero in front. -/
def splitWhole : Text → Option (Text × Text)
  | [] => none
  | '0' :: s => some (['0'], s)
  | s => if s.takeWhile Char.isDigit = [] then none else some (s.takeWhile Char.isDigit, s.dropWhile Char.isDigit)

/-- A fraction, if there is one. -/
def splitFraction : Text → Text × Text
  | '.' :: s => if s.takeWhile Char.isDigit = [] then ([], '.' :: s) else ('.' :: s.takeWhile Char.isDigit, s.dropWhile Char.isDigit)
  | s => ([], s)

/-- An exponent, if there is one. -/
def splitExponent : Text → Text × Text
  | [] => ([], [])
  | e :: s =>
    let sign := if s.head? = some '+' ∨ s.head? = some '-' then s.take 1 else []
    let unsigned := s.drop sign.length
    if (e = 'e' ∨ e = 'E') ∧ unsigned.takeWhile Char.isDigit ≠ [] then
      (e :: sign ++ unsigned.takeWhile Char.isDigit, unsigned.dropWhile Char.isDigit)
    else ([], e :: s)

/-- The longest number in front: an integer if it has neither a fraction nor an exponent. -/
def readNumber (float : Text → Text) (s : Text) : Except Failure (Value × Text) :=
  let sign := if s.head? = some '-' then ['-'] else []
  match splitWhole (s.drop sign.length) with
  | none => .error .decode
  | some (whole, s) =>
    let fraction := splitFraction s
    let exponent := splitExponent fraction.2
    if fraction.1 ≠ [] ∨ exponent.1 ≠ [] then .ok (.float (float (sign ++ whole ++ fraction.1 ++ exponent.1)), exponent.2)
    else if intMaxStrDigits < whole.length then .error .valueError
    else .ok (.int (if sign = [] then Nat.ofDigitChars 10 whole 0 else -(Nat.ofDigitChars 10 whole 0 : Int)), s)

/-! ## Reading values -/

section Lists

variable {α : Type} (item : Text → Except Failure (α × Text)) (close : Char)

/-- Items with a comma between two of them, and the mark that closes them. The number bounds how many there are. -/
def readList : Nat → Text → Except Failure (List α × Text)
  | 0, _ => .error .decode
  | n + 1, s =>
    (item s).bind fun r =>
      match skipWhite r.2 with
      | [] => .error .decode
      | c :: s =>
        if c = close then .ok ([r.1], s)
        else if c = ',' then (readList n (skipWhite s)).map fun q => (r.1 :: q.1, q.2)
        else .error .decode

/-- What stands behind the mark that opens a list. -/
def readBody (s : Text) : Except Failure (List α × Text) :=
  if (skipWhite s).head? = some close then .ok ([], (skipWhite s).tail) else readList item close s.length (skipWhite s)

end Lists

/-- A member of an object: a name, a colon and a value. -/
def readMember (value : Text → Except Failure (Value × Text)) : Text → Except Failure ((Str × Value) × Text)
  | '"' :: s =>
    (literal s).bind fun k =>
      match skipWhite k.2 with
      | ':' :: s => (value (skipWhite s)).map fun r => ((k.1, r.1), r.2)
      | _ => .error .decode
  | _ => .error .decode

/-- The words that are values. -/
def words : List (Text × Value) :=
  [("null", .null), ("true", .bool true), ("false", .bool false), ("NaN", .float "NaN"), ("Infinity", .float "Infinity"),
    ("-Infinity", .float "-Infinity")]

/-- An array or an object is entered where there is something that reads the values in it. -/
def enter {α : Type} : Option α → Except Failure α
  | none => .error .recursionError
  | some value => .ok value

/-- `scan_once`, with what reads the values inside an array or an object, if one may be entered. -/
def scanOnce (float : Text → Text) (inner : Option (Text → Except Failure (Value × Text))) (s : Text) :
    Except Failure (Value × Text) :=
  match s with
  | '"' :: t => (literal t).map fun r => (.str r.1, r.2)
  | '[' :: t => (enter inner).bind fun value => (readBody value ']' t).map fun r => (.arr r.1, r.2)
  | '\x7b' :: t => (enter inner).bind fun value => (readBody (readMember value) '\x7d' t).map fun r => (.obj (dict r.1), r.2)
  | _ =>
    match words.find? fun w => w.1.isPrefixOf s with
    | some w => .ok (w.2, s.drop w.1.length)
    | none => readNumber float s

/-- A value that goes no deeper than this. -/
def scan (float : Text → Text) : Nat → Text → Except Failure (Value × Text)
  | 0 => scanOnce float none
  | d + 1 => scanOnce float (some (scan float d))

/-- `json.loads`. -/
def loads (scanner : Scanner) (s : Text) : Except Failure Value :=
  (scan scanner.float scanner.nesting (skipWhite s)).bind fun r => if skipWhite r.2 = [] then .ok r.1 else .error .decode

/-! ## Writing -/

/-- A code point in a string literal. Half of a pair is written as the code unit it is. -/
def escape (p : Fin 0x110000) : Text :=
  if High p ∨ Low p then '\\' :: 'u' :: hex4 p else Json.escape (Char.ofNat p)

/-- A string literal. -/
def quote (t : Str) : Text := '"' :: t.flatMap escape ++ ['"']

/-- `int.__repr__`. -/
def digits (n : Int) : Text := if n < 0 then '-' :: Nat.toDigits 10 n.natAbs else Nat.toDigits 10 n.natAbs

mutual

/-- A value at a level of indentation. -/
def write (level : Nat) : Value → Text
  | .null => "null".toList
  | .bool true => "true".toList
  | .bool false => "false".toList
  | .int n => digits n
  | .float t => t
  | .str t => quote t
  | .arr [] => "[]".toList
  | .arr (v :: vs) => '[' :: newline (level + 1) ++ write (level + 1) v ++ writeItems level vs ++ newline level ++ [']']
  | .obj [] => "\x7b\x7d".toList
  | .obj (m :: ms) => '\x7b' :: newline (level + 1) ++ writeMember level m ++ writeMembers level ms ++ newline level ++ ['\x7d']

/-- The items behind the first, each on a line of its own. -/
def writeItems (level : Nat) : List Value → Text
  | [] => []
  | v :: vs => ',' :: newline (level + 1) ++ write (level + 1) v ++ writeItems level vs

def writeMember (level : Nat) : Str × Value → Text
  | (key, v) => quote key ++ ':' :: ' ' :: write (level + 1) v

/-- The members behind the first. -/
def writeMembers (level : Nat) : List (Str × Value) → Text
  | [] => []
  | m :: ms => ',' :: newline (level + 1) ++ writeMember level m ++ writeMembers level ms

end

/-- `json.dumps(value, indent=2)`. -/
def dumps (v : Value) : Text := write 0 v

/-! ## What is read of a string is joined -/

/-- Four hexadecimal digits are a code unit. -/
theorem readHex4_lt {s t : Text} {n : Nat} (h : readHex4 s = some (n, t)) : n < 0x10000 := by
  have hdigit : ∀ {c : Char} {d : Nat}, Json.hexDigit c = some d → d < 16 := by
    intro c d hd
    have hle : ∀ {a b : Char}, a ≤ b ↔ a.toNat ≤ b.toNat := Iff.rfl
    simp only [Json.hexDigit, hle] at hd
    split at hd
    · rename_i hc
      obtain rfl := Option.some_inj.mp hd
      have h9 : '9'.toNat = 57 := rfl
      omega
    · split at hd
      · rename_i hc
        obtain rfl := Option.some_inj.mp hd
        have hf : 'f'.toNat = 102 := rfl
        omega
      · split at hd
        · rename_i hc
          obtain rfl := Option.some_inj.mp hd
          have hf : 'F'.toNat = 70 := rfl
          omega
        · cases hd
  unfold readHex4 at h
  split at h
  · split at h
    · rename_i ha hb hc hd
      obtain ⟨rfl, -⟩ := Prod.mk.inj (Option.some_inj.mp h)
      have ha := hdigit ha
      have hb := hdigit hb
      have hc := hdigit hc
      have hd := hdigit hd
      omega
    · cases h
  · cases h

/-- A second half of a pair is escaped in front. -/
def LowFirst (s : Text) : Prop := ∃ t m rest, s = '\\' :: 'u' :: t ∧ readHex4 t = some (m, rest) ∧ Low m

theorem val_ofNat {n : Nat} (h : n < 0x110000) : (Fin.ofNat 0x110000 n : Nat) = n := Nat.mod_eq_of_lt h

/-- What a code unit is read as: itself, with no second half behind a first, or a code point beyond them. -/
theorem readUnit_eq_some {n : Nat} {s rest : Text} {p : Fin 0x110000} (hn : n < 0x10000) (h : readUnit n s = some (p, rest)) :
    (p : Nat) = n ∧ (High n → ¬ LowFirst rest) ∨ High n ∧ 0x10000 ≤ (p : Nat) := by
  have hself := val_ofNat (n := n) (by omega)
  unfold readUnit at h
  split at h
  · rename_i hhigh
    split at h
    · rename_i t
      split at h
      · rename_i m t' hread
        split at h
        · rename_i hlow
          obtain ⟨rfl, -⟩ := Prod.mk.inj (Option.some_inj.mp h)
          refine .inr ⟨hhigh, ?_⟩
          rw [val_ofNat (by omega)]
          omega
        · rename_i hlow
          obtain ⟨rfl, rfl⟩ := Prod.mk.inj (Option.some_inj.mp h)
          refine .inl ⟨hself, fun _ => ?_⟩
          rintro ⟨t₂, m₂, rest, heq, hread₂, hlow₂⟩
          obtain rfl : t = t₂ := by simpa using heq
          obtain ⟨rfl, -⟩ := Prod.mk.inj (Option.some_inj.mp (hread.symm.trans hread₂))
          exact hlow hlow₂
      · cases h
    · rename_i hother
      obtain ⟨rfl, rfl⟩ := Prod.mk.inj (Option.some_inj.mp h)
      refine .inl ⟨hself, fun _ => ?_⟩
      rintro ⟨t, -, -, rfl, -⟩
      exact hother t rfl
  · rename_i hhigh
    obtain ⟨rfl, rfl⟩ := Prod.mk.inj (Option.some_inj.mp h)
    exact .inl ⟨hself, fun hhigh' => absurd hhigh' hhigh⟩

/-- A character is no half of a pair. -/
theorem not_half_point (c : Char) : ¬ High (point c) ∧ ¬ Low (point c) := by
  have hvalid := Json.toNat_valid c
  simp only [point]
  omega

/-- A text has no halves of surrogate pairs, so none to be joined. -/
theorem joined_ofText (t : Text) : Joined (ofText t) := by
  induction t with
  | nil => exact .nil
  | cons c t ih => exact List.isChain_cons.mpr ⟨fun q _ hpair => (not_half_point c).1 hpair.1, ih⟩

/-- What is read behind a backslash: a first half has no second one escaped behind it, and a second one is an escape. -/
theorem readEscape_half {s rest : Text} {p : Fin 0x110000} (h : readEscape s = some (p, rest)) :
    (High p → ¬ LowFirst rest) ∧ (Low p → LowFirst ('\\' :: s)) := by
  have hplain : ∀ {c : Char}, point c = p → (High p → ¬ LowFirst rest) ∧ (Low p → LowFirst ('\\' :: s)) := by
    rintro c rfl
    exact ⟨fun hhigh => absurd hhigh (not_half_point c).1, fun hlow => absurd hlow (not_half_point c).2⟩
  unfold readEscape at h
  split at h
  iterate 8 exact hplain (Prod.mk.inj (Option.some_inj.mp h)).1
  · split at h
    · rename_i s n t hread
      rcases readUnit_eq_some (readHex4_lt hread) h with ⟨hp, hfirst⟩ | ⟨hhigh, hp⟩
      · rw [hp]
        exact ⟨hfirst, fun hlow => ⟨_, _, _, rfl, hread, hlow⟩⟩
      · exact ⟨fun h => by omega, fun h => by omega⟩
    · cases h
  · cases h

/-- A string that is read is joined, and begins with a second half only where one is escaped. -/
theorem readString_joined {n : Nat} {s rest : Text} {t : Str} (h : readString n s = some (t, rest)) :
    Joined t ∧ ∀ p ∈ t.head?, Low p → LowFirst s := by
  induction n generalizing s t rest with
  | zero => cases h
  | succ n ih =>
    cases s with
    | nil => cases h
    | cons c s =>
      simp only [readString] at h
      split at h
      · obtain ⟨rfl, -⟩ := Prod.mk.inj (Option.some_inj.mp h)
        exact ⟨.nil, by rintro p ⟨⟩⟩
      · split at h
        · rename_i hslash
          subst hslash
          split at h
          · rename_i p s' hescape
            obtain ⟨⟨t, rest'⟩, hread, heq⟩ := Option.map_eq_some_iff.mp h
            obtain ⟨rfl, -⟩ := Prod.mk.inj heq
            obtain ⟨hjoined, hhead⟩ := ih hread
            obtain ⟨hhigh, hlow⟩ := readEscape_half hescape
            refine ⟨List.isChain_cons.mpr ⟨fun q hq => ?_, hjoined⟩, ?_⟩
            · rintro ⟨hp, hq'⟩
              exact hhigh hp (hhead q hq hq')
            · rintro q ⟨⟩
              exact hlow
          · cases h
        · split at h
          · cases h
          · obtain ⟨⟨t, rest'⟩, hread, heq⟩ := Option.map_eq_some_iff.mp h
            obtain ⟨rfl, -⟩ := Prod.mk.inj heq
            obtain ⟨hjoined, -⟩ := ih hread
            refine ⟨List.isChain_cons.mpr ⟨fun q _ hpair => (not_half_point c).1 hpair.1, hjoined⟩, ?_⟩
            rintro q ⟨⟩ hlow
            exact absurd hlow (not_half_point c).2

/-- What is read of a string literal is joined. -/
theorem literal_joined {s rest : Text} {t : Str} (h : literal s = .ok (t, rest)) : Joined t := by
  unfold literal at h
  split at h
  · rename_i r hread
    obtain rfl := Except.ok.inj h
    exact (readString_joined hread).1
  · cases h

/-- A value whose strings are joined. -/
inductive Value.Joined : Value → Prop
  | null : Value.null.Joined
  | bool (b : Bool) : (Value.bool b).Joined
  | int (n : Int) : (Value.int n).Joined
  | float (t : Text) : (Value.float t).Joined
  | str {t : Str} (h : PyJson.Joined t) : (Value.str t).Joined
  | arr {items : List Value} (h : ∀ v ∈ items, v.Joined) : (Value.arr items).Joined
  | obj {members : List (Str × Value)} (hkeys : ∀ m ∈ members, PyJson.Joined m.1) (h : ∀ m ∈ members, m.2.Joined) :
      (Value.obj members).Joined

/-- What holds of every item that is read holds of what is read of a list. -/
theorem readList_forall {α : Type} {item : Text → Except Failure (α × Text)} {close : Char} {P : α → Prop}
    (hitem : ∀ s r, item s = .ok r → P r.1) {n : Nat} {s : Text} {r : List α × Text} (h : readList item close n s = .ok r) :
    ∀ a ∈ r.1, P a := by
  induction n generalizing s r with
  | zero => cases h
  | succ n ih =>
    obtain ⟨⟨a, t⟩, ha, h⟩ := Except.bind_eq_ok.mp h
    have hfirst := hitem s _ ha
    dsimp only at h
    split at h
    · cases h
    · split at h
      · obtain rfl := Except.ok.inj h
        exact List.forall_mem_singleton.mpr hfirst
      · split at h
        · obtain ⟨q, hq, rfl⟩ := Except.map_eq_ok.mp h
          exact List.forall_mem_cons.mpr ⟨hfirst, ih hq⟩
        · cases h

/-- What is so of every item that is read is so of the list. -/
theorem readBody_forall {α : Type} {item : Text → Except Failure (α × Text)} {close : Char} {P : α → Prop}
    (hitem : ∀ s r, item s = .ok r → P r.1) {s : Text} {r : List α × Text} (h : readBody item close s = .ok r) : ∀ a ∈ r.1, P a := by
  unfold readBody at h
  split at h
  · obtain rfl := Except.ok.inj h
    exact List.forall_mem_nil _
  · exact readList_forall hitem h

/-- The name and the value of a member are joined. -/
theorem readMember_joined {value : Text → Except Failure (Value × Text)} (hvalue : ∀ s r, value s = .ok r → r.1.Joined) {s : Text}
    {r : (Str × Value) × Text} (h : readMember value s = .ok r) : Joined r.1.1 ∧ r.1.2.Joined := by
  unfold readMember at h
  split at h
  · obtain ⟨⟨key, t⟩, hkey, h⟩ := Except.bind_eq_ok.mp h
    dsimp only at h
    split at h
    · obtain ⟨v, hv, rfl⟩ := Except.map_eq_ok.mp h
      exact ⟨literal_joined hkey, hvalue _ _ hv⟩
    · cases h
  · cases h

/-- A member of a dictionary is one of those it is made of. -/
theorem mem_of_mem_dict {members : List (Str × Value)} {m : Str × Value} (h : m ∈ dict members) : m ∈ members := by
  have hset : ∀ {d : List (Str × Value)} {key : Str} {v : Value}, m ∈ set d key v → m ∈ d ∨ m = (key, v) := by
    intro d key v hm
    unfold set at hm
    split at hm
    · obtain ⟨m', hm', rfl⟩ := List.mem_map.mp hm
      split
      · exact .inr rfl
      · exact .inl hm'
    · exact (List.mem_append.mp hm).imp id List.mem_singleton.mp
  have hfold : ∀ (members : List (Str × Value)) (d : List (Str × Value)), m ∈ members.foldl (fun d m => set d m.1 m.2) d → m ∈ d ∨ m ∈ members := by
    intro members
    induction members with
    | nil => exact fun d => .inl
    | cons m' members ih =>
      intro d hm
      rcases ih (set d m'.1 m'.2) hm with hm | hm
      · exact (hset hm).imp id fun heq => by rw [heq]; exact List.mem_cons_self ..
      · exact .inr (List.mem_cons_of_mem _ hm)
  exact (hfold members [] h).resolve_left List.not_mem_nil

/-- A number has no strings in it. -/
theorem readNumber_joined {float : Text → Text} {s : Text} {r : Value × Text} (h : readNumber float s = .ok r) : r.1.Joined := by
  simp only [readNumber] at h
  split at h
  · cases h
  · split at h
    · obtain rfl := Except.ok.inj h
      exact .float _
    · split at h
      · cases h
      · obtain rfl := Except.ok.inj h
        exact .int _

/-- A value is joined where those inside it are. -/
theorem scanOnce_joined {float : Text → Text} {inner : Option (Text → Except Failure (Value × Text))}
    (hinner : ∀ value ∈ inner, ∀ s r, value s = .ok r → r.1.Joined) {s : Text} {r : Value × Text} (h : scanOnce float inner s = .ok r) :
    r.1.Joined := by
  have henter : ∀ {value}, enter inner = .ok value → inner = some value := by
    intro value hvalue
    cases inner with
    | none => cases hvalue
    | some v => exact congrArg some (Except.ok.inj hvalue)
  unfold scanOnce at h
  split at h
  · obtain ⟨⟨t, rest⟩, ht, rfl⟩ := Except.map_eq_ok.mp h
    exact .str (literal_joined ht)
  · obtain ⟨value, hvalue, h⟩ := Except.bind_eq_ok.mp h
    obtain ⟨⟨items, rest⟩, hitems, rfl⟩ := Except.map_eq_ok.mp h
    exact .arr (readBody_forall (hinner value (henter hvalue)) hitems)
  · obtain ⟨value, hvalue, h⟩ := Except.bind_eq_ok.mp h
    obtain ⟨⟨members, rest⟩, hmembers, rfl⟩ := Except.map_eq_ok.mp h
    have hjoined := readBody_forall (P := fun m => Joined m.1 ∧ m.2.Joined)
      (fun s r => readMember_joined (hinner value (henter hvalue))) hmembers
    exact .obj (fun m hm => (hjoined m (mem_of_mem_dict hm)).1) fun m hm => (hjoined m (mem_of_mem_dict hm)).2
  · split at h
    · rename_i w hw
      obtain rfl := Except.ok.inj h
      have hmem := List.mem_of_find?_eq_some hw
      simp only [words, List.mem_cons, List.not_mem_nil, or_false] at hmem
      obtain rfl | rfl | rfl | rfl | rfl | rfl := hmem
      · exact .null
      · exact .bool true
      · exact .bool false
      · exact .float _
      · exact .float _
      · exact .float _
    · exact readNumber_joined h

/-- Whatever is read is joined, however deep it goes. -/
theorem scan_joined {float : Text → Text} {d : Nat} {s : Text} {r : Value × Text} (h : scan float d s = .ok r) : r.1.Joined := by
  induction d generalizing s r with
  | zero => exact scanOnce_joined (fun value hvalue => by cases hvalue) h
  | succ d ih =>
    refine scanOnce_joined (fun value hvalue => ?_) h
    obtain rfl := Option.some_inj.mp (Option.mem_def.mp hvalue)
    exact fun s r => ih

/-- The strings of what is read are joined. -/
theorem loads_joined {scanner : Scanner} {s : Text} {v : Value} (h : loads scanner s = .ok v) : v.Joined := by
  obtain ⟨r, hr, h⟩ := Except.bind_eq_ok.mp h
  split at h
  · obtain rfl := Except.ok.inj h
    exact scan_joined hr
  · cases h

/-! ## What was written is read back -/

/-- A code unit that is no first half, or has no second one escaped behind it, is itself. -/
theorem readUnit_self {p : Fin 0x110000} {s : Text} (h : ¬ High p ∨ ∀ t, s = '\\' :: 'u' :: t → ∃ m r, readHex4 t = some (m, r) ∧ ¬ Low m) :
    readUnit p s = some (p, s) := by
  have hself : Fin.ofNat 0x110000 (p : Nat) = p := Fin.ext (Nat.mod_eq_of_lt p.isLt)
  unfold readUnit
  split
  · rename_i hhigh
    split
    · rename_i t
      obtain ⟨m, r, hread, hlow⟩ := h.resolve_left (not_not.mpr hhigh) t rfl
      rw [hread]
      dsimp only
      rw [if_neg hlow, hself]
    · rw [hself]
  · rw [hself]

/-- A pair of escaped halves is one code point. -/
theorem readUnit_pair {high low : Nat} (hhigh : High high) (hlow : Low low) (s : Text) :
    readUnit high ('\\' :: 'u' :: (hex4 low ++ s)) =
      some (Fin.ofNat _ (0x10000 + (high - 0xd800) * 0x400 + (low - 0xdc00)), s) := by
  have hread := Json.readHex4_hex4 (n := low) (by omega) s
  simp only [readUnit, if_pos hhigh, hread, if_pos hlow]

/-- How a character is escaped: as itself, behind a backslash, as a code unit or as two. -/
theorem escape_cases (c : Char) :
    (∃ d, Json.escape c = ['\\', d] ∧ d ≠ 'u' ∧ ∀ s, readEscape (d :: s) = some (point c, s)) ∨
    (Json.escape c = [c] ∧ c ≠ '"' ∧ c ≠ '\\' ∧ ¬ c < ' ') ∨
    (c.toNat < 0x10000 ∧ Json.escape c = '\\' :: 'u' :: hex4 c.toNat) ∨
    ¬ c.toNat < 0x10000 ∧ Json.escape c =
      '\\' :: 'u' :: (hex4 (0xd800 + (c.toNat - 0x10000) / 0x400) ++ '\\' :: 'u' :: hex4 (0xdc00 + (c.toNat - 0x10000) % 0x400)) := by
  unfold Json.escape
  split
  iterate 7 exact .inl ⟨_, rfl, by decide, fun s => rfl⟩
  rename_i hquote hslash _ _ _ _ _
  split
  · rename_i hplain
    exact .inr (.inl ⟨rfl, hquote, hslash, by simpa using hplain.1⟩)
  · split
    · rename_i hsmall
      exact .inr (.inr (.inl ⟨hsmall, rfl⟩))
    · rename_i hlarge
      exact .inr (.inr (.inr ⟨hlarge, by simp⟩))

/-- What is no half of a pair is a character. -/
theorem eq_point {p : Fin 0x110000} (h : ¬ (High p ∨ Low p)) : ∃ c, p = point c := by
  have hvalid : (p : Nat).isValidChar := by
    have hlt := p.isLt
    simp only [Nat.isValidChar]
    omega
  exact ⟨Char.ofNatAux p hvalid, Fin.ext rfl⟩

/-- The code point of a character is written as the character is in JSON. -/
theorem escape_point (c : Char) : escape (point c) = Json.escape c := by
  have hhalf := not_half_point c
  rw [escape, if_neg (not_or.mpr hhalf)]
  exact congrArg Json.escape (Char.ofNat_toNat c)

/-- What stands behind a first half does not begin with a second one, unless the string does. -/
theorem escape_not_low {q : Fin 0x110000} (hq : ¬ Low q) {s t : Text} (h : escape q ++ s = '\\' :: 'u' :: t) :
    ∃ m r, readHex4 t = some (m, r) ∧ ¬ Low m := by
  by_cases hhalf : High q ∨ Low q
  · rw [escape, if_pos hhalf] at h
    obtain rfl : hex4 q ++ s = t := by simpa using h
    exact ⟨q, s, Json.readHex4_hex4 (by omega) s, hq⟩
  · obtain ⟨c, rfl⟩ := eq_point hhalf
    rw [escape_point] at h
    rcases escape_cases c with ⟨d, heq, hd, -⟩ | ⟨heq, -, hslash, -⟩ | ⟨hsmall, heq⟩ | ⟨hlarge, heq⟩
    · rw [heq] at h
      exact absurd (List.cons.inj (List.cons.inj h).2).1 hd
    · rw [heq] at h
      exact absurd (List.cons.inj h).1 hslash
    · rw [heq] at h
      obtain rfl : hex4 c.toNat ++ s = t := by simpa using h
      exact ⟨_, s, Json.readHex4_hex4 hsmall s, hq⟩
    · rw [heq] at h
      have hlt := toNat_lt c
      obtain rfl := (List.cons.inj (List.cons.inj h).2).2
      rw [List.append_eq, List.append_assoc]
      exact ⟨_, _, Json.readHex4_hex4 (by omega) _, by omega⟩

/-- An escape of four digits is read as its code unit. -/
theorem readEscape_unit {n : Nat} (h : n < 0x10000) (s : Text) : readEscape ('u' :: (hex4 n ++ s)) = readUnit n s := by
  have hread := Json.readHex4_hex4 h s
  simp only [readEscape, hread]

/-- A code point is read back from its escape, where no second half is escaped behind a first. -/
theorem readString_escape {p : Fin 0x110000} {s : Text}
    (h : ¬ High p ∨ ∀ t, s = '\\' :: 'u' :: t → ∃ m r, readHex4 t = some (m, r) ∧ ¬ Low m) (n : Nat) :
    readString (n + 1) (escape p ++ s) = (readString n s).map fun r => (p :: r.1, r.2) := by
  have hback : ∀ t, readEscape t = some (p, s) → readString (n + 1) ('\\' :: t) = (readString n s).map fun r => (p :: r.1, r.2) := by
    intro t ht
    rw [readString, if_neg (by decide), if_pos rfl, ht]
  by_cases hhalf : High p ∨ Low p
  · rw [escape, if_pos hhalf]
    exact hback _ ((readEscape_unit (by omega) s).trans (readUnit_self h))
  · obtain ⟨c, rfl⟩ := eq_point hhalf
    rw [escape_point]
    rcases escape_cases c with ⟨d, heq, -, hread⟩ | ⟨heq, hquote, hslash, hspace⟩ | ⟨hsmall, heq⟩ | ⟨hlarge, heq⟩
    · rw [heq]
      exact hback _ (hread s)
    · rw [heq, List.singleton_append, readString, if_neg hquote, if_neg hslash, if_neg hspace]
    · rw [heq]
      exact hback _ ((readEscape_unit hsmall s).trans (readUnit_self h))
    · have hlt := toNat_lt c
      have hpoint : 0x10000 + (0xd800 + (c.toNat - 0x10000) / 0x400 - 0xd800) * 0x400 +
          (0xdc00 + (c.toNat - 0x10000) % 0x400 - 0xdc00) = (point c : Nat) := by
        have hval : (point c : Nat) = c.toNat := rfl
        omega
      have hpair := hback _ ((readEscape_unit (by omega) _).trans ((readUnit_pair (by omega) (by omega) s).trans
        (congrArg some (congrArg (·, s) (Fin.ext ((val_ofNat (by omega)).trans hpoint))))))
      rw [heq]
      simpa only [List.cons_append, List.append_assoc] using hpair

/-- A joined string is read back from its literal. -/
theorem readString_quote {t : Str} (h : Joined t) {n : Nat} (hn : t.length < n) (s : Text) :
    readString n (t.flatMap escape ++ '"' :: s) = some (t, s) := by
  induction t generalizing n with
  | nil =>
    obtain ⟨n, rfl⟩ : ∃ m, n = m + 1 := ⟨n - 1, by omega⟩
    rfl
  | cons p t ih =>
    obtain ⟨n, rfl⟩ : ∃ m, n = m + 1 := ⟨n - 1, by omega⟩
    obtain ⟨hhead, hjoined⟩ := List.isChain_cons.mp h
    have hbehind : ¬ High p ∨ ∀ u, t.flatMap escape ++ '"' :: s = '\\' :: 'u' :: u → ∃ m r, readHex4 u = some (m, r) ∧ ¬ Low m := by
      by_cases hhigh : High p
      · refine .inr fun u hu => ?_
        cases t with
        | nil => cases hu
        | cons q t =>
          rw [List.flatMap_cons, List.append_assoc] at hu
          exact escape_not_low (fun hlow => hhead q rfl ⟨hhigh, hlow⟩) hu
      · exact .inl hhigh
    rw [List.flatMap_cons, List.append_assoc, readString_escape hbehind, ih hjoined (by simpa using hn)]
    rfl

/-- Items that are each written as something are no more than what is written. -/
theorem length_le_flatMap {α : Type} {f : α → Text} (h : ∀ a, f a ≠ []) (l : List α) : l.length ≤ (l.flatMap f).length := by
  induction l with
  | nil => exact Nat.le_refl _
  | cons a l ih =>
    have ha := List.length_pos_of_ne_nil (h a)
    rw [List.flatMap_cons, List.length_append, List.length_cons]
    omega

theorem escape_ne_nil (p : Fin 0x110000) : escape p ≠ [] := by
  by_cases hhalf : High p ∨ Low p
  · rw [escape, if_pos hhalf]
    exact List.cons_ne_nil _ _
  · obtain ⟨c, rfl⟩ := eq_point hhalf
    rw [escape_point]
    rcases escape_cases c with ⟨d, heq, -⟩ | ⟨heq, -⟩ | ⟨-, heq⟩ | ⟨-, heq⟩ <;> rw [heq] <;> exact List.cons_ne_nil _ _

/-- A joined string is read back from its literal, behind the opening quote. -/
theorem literal_quote {t : Str} (h : Joined t) (s : Text) : literal (t.flatMap escape ++ '"' :: s) = .ok (t, s) := by
  have hlen := length_le_flatMap escape_ne_nil t
  rw [literal, readString_quote h]
  rw [List.length_append, List.length_cons]
  omega

/-! ### Numbers -/

/-- The digits of a natural number are the whole part they are written as. -/
theorem splitWhole_toDigits (k : Nat) {s : Text} (hs : Ended s) : splitWhole (Nat.toDigits 10 k ++ s) = some (Nat.toDigits 10 k, s) := by
  rcases Nat.eq_zero_or_pos k with rfl | hk
  · rfl
  · have hdigits := Json.digits_toDigits k
    have hhead := Json.head_toDigits hk
    have hne := Nat.toDigits_ne_nil (n := k) (b := 10)
    have hstop : s.takeWhile Char.isDigit = [] ∧ s.dropWhile Char.isDigit = s := by
      cases s with
      | nil => exact ⟨rfl, rfl⟩
      | cons c s =>
        have hc : c.isDigit = false := Bool.eq_false_iff.mpr fun h => by
          have hnumber := hs c rfl
          rw [Json.isNumberChar_of_isDigit h] at hnumber
          cases hnumber
        simp [hc]
    have htake : (Nat.toDigits 10 k ++ s).takeWhile Char.isDigit = Nat.toDigits 10 k := by
      rw [List.takeWhile_append_of_pos hdigits, hstop.1, List.append_nil]
    have hdrop : (Nat.toDigits 10 k ++ s).dropWhile Char.isDigit = s := by
      rw [List.dropWhile_append_of_pos hdigits, hstop.2]
    generalize Nat.toDigits 10 k = t at hhead hne htake hdrop
    unfold splitWhole
    split
    · rename_i heq
      exact absurd (List.append_eq_nil_iff.mp heq).1 hne
    · rename_i heq
      cases t with
      | nil => exact absurd rfl hne
      | cons c t => exact absurd (congrArg some (List.cons.inj heq).1) hhead
    · rw [htake, hdrop, if_neg hne]

/-- No fraction is read of what ends a number. -/
theorem splitFraction_ended {s : Text} (hs : Ended s) : splitFraction s = ([], s) := by
  unfold splitFraction
  split
  · exact absurd (hs '.' rfl) (by decide)
  · rfl

/-- No exponent is read of what ends a number. -/
theorem splitExponent_ended {s : Text} (hs : Ended s) : splitExponent s = ([], s) := by
  cases s with
  | nil => rfl
  | cons e s =>
    have he : ¬ (e = 'e' ∨ e = 'E') := by
      rintro (rfl | rfl)
      · exact absurd (hs 'e' rfl) (by decide)
      · exact absurd (hs 'E' rfl) (by decide)
    simp only [splitExponent, he, false_and, if_false]

/-- An integer is read back, if it has not too many digits. -/
theorem readNumber_digits (float : Text → Text) {n : Int} (hn : (Nat.toDigits 10 n.natAbs).length ≤ intMaxStrDigits) {s : Text}
    (hs : Ended s) : readNumber float (digits n ++ s) = .ok (.int n, s) := by
  have hhead : (Nat.toDigits 10 n.natAbs ++ s).head? ≠ some '-' := by
    rw [List.head?_append_of_ne_nil _ Nat.toDigits_ne_nil]
    exact fun h => absurd (Json.digits_toDigits _ '-' (List.mem_of_mem_head? h)) (by decide)
  have hwhole := splitWhole_toDigits n.natAbs hs
  have hrest := splitFraction_ended hs
  have hend := splitExponent_ended hs
  have hnone : ¬ (([] : Text) ≠ [] ∨ ([] : Text) ≠ []) := by simp
  have hlong : ¬ intMaxStrDigits < (Nat.toDigits 10 n.natAbs).length := by omega
  unfold readNumber digits
  split
  · rename_i hneg
    simp only [List.cons_append, List.head?_cons, if_true, List.length_singleton, List.drop_one, List.tail_cons, hwhole, hrest, hend,
      if_neg hnone, if_neg hlong, List.cons_ne_nil, if_false, Nat.ofDigitChars_ten_toDigits]
    congr 3
    omega
  · rename_i hneg
    simp only [List.length_nil, List.drop_zero, hwhole, hrest, hend, if_neg hnone, if_neg hlong, if_true,
      Nat.ofDigitChars_ten_toDigits]
    congr 3
    omega

/-- No word begins like an integer. -/
theorem find_words_digits (n : Int) (s : Text) : (words.find? fun w => w.1.isPrefixOf (digits n ++ s)) = none := by
  have hwords : ∀ w ∈ words.map (·.1), w.head?.any (fun c => !c.isDigit) = true ∧
      (w.head? = some '-' → w.tail.head?.any (fun c => !c.isDigit) = true) := by decide
  obtain ⟨d, u, hd⟩ := List.exists_cons_of_ne_nil (Nat.toDigits_ne_nil (n := n.natAbs) (b := 10))
  have hdigit : d.isDigit = true := Json.digits_toDigits n.natAbs d (hd ▸ List.mem_cons_self ..)
  rw [List.find?_eq_none]
  intro w hw hprefix
  obtain ⟨hfirst, hsecond⟩ := hwords w.1 (List.mem_map_of_mem hw)
  rw [List.isPrefixOf_iff_prefix, digits, hd] at hprefix
  cases hc : w.1 with
  | nil =>
    rw [hc] at hfirst
    cases hfirst
  | cons c t =>
    rw [hc] at hfirst hsecond hprefix
    split at hprefix
    · obtain ⟨rfl, htail⟩ := List.cons_prefix_cons.mp hprefix
      cases t with
      | nil => cases hsecond rfl
      | cons e t =>
        obtain ⟨rfl, -⟩ := List.cons_prefix_cons.mp htail
        simpa [hdigit] using hsecond rfl
    · obtain ⟨rfl, -⟩ := List.cons_prefix_cons.mp hprefix
      simp [hdigit] at hfirst

/-! ### Lists -/

/-- Nothing is skipped of what this text begins with. -/
def Begins (t : Text) : Prop := ∃ c u, t = c :: u ∧ isWhite c = false ∧ c ≠ ']'

/-- Nothing is skipped in front of it. -/
theorem Begins.skipWhite {t : Text} (h : Begins t) (s : Text) : skipWhite (t ++ s) = t ++ s := by
  obtain ⟨c, u, rfl, hwhite, -⟩ := h
  rw [Json.skipWhite, List.cons_append, List.dropWhile_cons_of_neg (by simp [hwhite])]

section Lists

variable {α : Type} {item : Text → Except Failure (α × Text)} {close : Char} {w : α → Text}

/-- What is written between an item and the mark that closes the list. -/
def listTail (level : Nat) (w : α → Text) (close : Char) (as : List α) (s : Text) : Text :=
  as.flatMap (fun b => ',' :: (newline (level + 1) ++ w b)) ++ (newline level ++ close :: s)

/-- What follows an item ends a number. -/
theorem ended_listTail (level : Nat) (as : List α) (s : Text) : Ended (listTail level w close as s) := by
  cases as with
  | nil => rintro c ⟨⟩; rfl
  | cons a as => rintro c ⟨⟩; rfl

/-- Items that are read back one by one are read back as a list. -/
theorem readList_tail (hclose : isWhite close = false ∧ close ≠ ',') {level : Nat} {s : Text} {a : α} {as : List α}
    (hitem : ∀ b ∈ a :: as, Begins (w b) ∧ ∀ rest, Ended rest → item (w b ++ rest) = .ok (b, rest)) {n : Nat} (hn : as.length < n) :
    readList item close n (w a ++ listTail level w close as s) = .ok (a :: as, s) := by
  induction as generalizing a n with
  | nil =>
    obtain ⟨n, rfl⟩ : ∃ m, n = m + 1 := ⟨n - 1, by omega⟩
    have hskip : skipWhite (listTail level w close [] s) = close :: s := by
      rw [listTail, List.flatMap_nil, List.nil_append, Json.skipWhite_newline, Json.skipWhite,
        List.dropWhile_cons_of_neg (by simp [hclose.1])]
    rw [readList, (hitem a (List.mem_cons_self ..)).2 _ (ended_listTail level [] s)]
    simp only [Except.bind, hskip, if_true]
  | cons b as ih =>
    obtain ⟨n, rfl⟩ : ∃ m, n = m + 1 := ⟨n - 1, by omega⟩
    have hb := hitem b (List.mem_cons_of_mem _ (List.mem_cons_self ..))
    have hskip : skipWhite (listTail level w close (b :: as) s) = ',' :: (newline (level + 1) ++ (w b ++ listTail level w close as s)) := by
      simp only [listTail, List.flatMap_cons, List.cons_append, List.append_assoc]
      rfl
    have hnext : skipWhite (newline (level + 1) ++ (w b ++ listTail level w close as s)) = w b ++ listTail level w close as s := by
      rw [Json.skipWhite_newline, hb.1.skipWhite]
    rw [readList, (hitem a (List.mem_cons_self ..)).2 _ (ended_listTail level (b :: as) s)]
    simp only [Except.bind, hskip, Ne.symm hclose.2, if_false, if_true, hnext,
      ih (fun c hc => hitem c (List.mem_cons_of_mem _ hc)) (show as.length < n by simpa using hn)]
    rfl

/-- So they are behind the mark that opens the list. -/
theorem readBody_written (hclose : isWhite close = false ∧ close ≠ ',') {level : Nat} {s : Text} {a : α} {as : List α}
    (hne : (w a).head? ≠ some close)
    (hitem : ∀ b ∈ a :: as, Begins (w b) ∧ ∀ rest, Ended rest → item (w b ++ rest) = .ok (b, rest)) :
    readBody item close (newline (level + 1) ++ (w a ++ listTail level w close as s)) = .ok (a :: as, s) := by
  have ha := (hitem a (List.mem_cons_self ..)).1
  have hskip : skipWhite (newline (level + 1) ++ (w a ++ listTail level w close as s)) = w a ++ listTail level w close as s := by
    rw [Json.skipWhite_newline, ha.skipWhite]
  have hfirst : (w a ++ listTail level w close as s).head? ≠ some close := by
    obtain ⟨c, u, hc, -⟩ := ha
    rw [hc] at hne ⊢
    exact hne
  have hlen := length_le_flatMap (fun b => List.cons_ne_nil ',' (newline (level + 1) ++ w b)) as
  rw [readBody, hskip, if_neg hfirst]
  refine readList_tail hclose hitem ?_
  rw [listTail]
  simp only [List.length_append]
  have hnew : 1 ≤ (newline (level + 1)).length := Nat.le_add_left ..
  omega

end Lists

/-! ### The round trip -/

/-- A value that is read back where values may go this deep: its strings are joined, its integers not too long, the names of its
dictionaries distinct, and it has no floats. -/
inductive Fits : Nat → Value → Prop
  | null (d : Nat) : Fits d .null
  | bool (d : Nat) (b : Bool) : Fits d (.bool b)
  | int (d : Nat) {n : Int} (h : (Nat.toDigits 10 n.natAbs).length ≤ intMaxStrDigits) : Fits d (.int n)
  | str (d : Nat) {t : Str} (h : Joined t) : Fits d (.str t)
  | arr {d : Nat} {items : List Value} (h : ∀ v ∈ items, Fits d v) : Fits (d + 1) (.arr items)
  | obj {d : Nat} {members : List (Str × Value)} (hnames : (members.map (·.1)).Nodup) (hkeys : ∀ m ∈ members, Joined m.1)
      (h : ∀ m ∈ members, Fits d m.2) : Fits (d + 1) (.obj members)

/-- A value fits where values may go deeper. -/
theorem Fits.mono {d d' : Nat} {v : Value} (h : Fits d v) (hle : d ≤ d') : Fits d' v := by
  induction h generalizing d' with
  | null d => exact .null _
  | bool d b => exact .bool _ b
  | int d h => exact .int _ h
  | str d h => exact .str _ h
  | arr h ih =>
    obtain ⟨e, rfl⟩ : ∃ e, d' = e + 1 := ⟨d' - 1, by omega⟩
    exact .arr fun v hv => ih v hv (by omega)
  | obj hnames hkeys h ih =>
    obtain ⟨e, rfl⟩ : ∃ e, d' = e + 1 := ⟨d' - 1, by omega⟩
    exact .obj hnames hkeys fun m hm => ih m hm (by omega)

/-- A dictionary is made of distinct names as they stand. -/
theorem dict_of_nodup {members : List (Str × Value)} (h : (members.map (·.1)).Nodup) : dict members = members := by
  have hfold : ∀ (members d : List (Str × Value)), ((d ++ members).map (·.1)).Nodup →
      members.foldl (fun d m => set d m.1 m.2) d = d ++ members := by
    intro members
    induction members with
    | nil => exact fun d _ => (List.append_nil d).symm
    | cons m members ih =>
      intro d hnodup
      have hnew : d.any (fun m' => decide (m'.1 = m.1)) = false := by
        rw [List.any_eq_false]
        intro m' hm' heq
        rw [List.map_append, List.nodup_append] at hnodup
        exact hnodup.2.2 m'.1 (List.mem_map_of_mem hm') m.1 (List.mem_cons_self ..) (of_decide_eq_true heq)
      have hset : set d m.1 m.2 = d ++ [m] := by
        rw [set, hnew]
        rfl
      rw [List.foldl_cons, hset, ih _ (by simpa using hnodup), List.append_assoc]
      rfl
  exact hfold members [] h

/-- The items behind the first are written one by one. -/
theorem writeItems_eq (level : Nat) (vs : List Value) :
    writeItems level vs = vs.flatMap fun v => ',' :: (newline (level + 1) ++ write (level + 1) v) := by
  induction vs with
  | nil => rw [writeItems, List.flatMap_nil]
  | cons v vs ih => rw [writeItems, List.flatMap_cons, ih]; rfl

/-- The members behind the first are written one by one. -/
theorem writeMembers_eq (level : Nat) (ms : List (Str × Value)) :
    writeMembers level ms = ms.flatMap fun m => ',' :: (newline (level + 1) ++ writeMember level m) := by
  induction ms with
  | nil => rw [writeMembers, List.flatMap_nil]
  | cons m ms ih => rw [writeMembers, List.flatMap_cons, ih]; rfl

/-- An integer begins with its sign or a digit. -/
theorem begins_digits (n : Int) : Begins (digits n) := by
  unfold digits
  split
  · exact ⟨'-', _, rfl, rfl, by decide⟩
  · obtain ⟨d, u, hd⟩ := List.exists_cons_of_ne_nil (Nat.toDigits_ne_nil (n := n.natAbs) (b := 10))
    have hdigit := Json.numberChars_toDigits n.natAbs d (hd ▸ List.mem_cons_self ..)
    refine ⟨d, u, hd, Json.isWhite_of_isNumberChar hdigit, ?_⟩
    rintro rfl
    exact absurd hdigit (by decide)

/-- A value that fits begins with something that is not skipped. -/
theorem Fits.begins {d : Nat} {v : Value} (h : Fits d v) (level : Nat) : Begins (write level v) := by
  cases h with
  | null => exact ⟨_, _, rfl, rfl, by decide⟩
  | bool d b => cases b <;> exact ⟨_, _, rfl, rfl, by decide⟩
  | int => exact begins_digits _
  | str => exact ⟨_, _, rfl, rfl, by decide⟩
  | @arr d items => cases items <;> exact ⟨_, _, rfl, rfl, by decide⟩
  | @obj d members => cases members <;> exact ⟨_, _, rfl, rfl, by decide⟩

/-- A member is its name in quotes, a colon, a blank and its value. -/
theorem writeMember_eq (level : Nat) (m : Str × Value) :
    writeMember level m = '"' :: (m.1.flatMap escape ++ '"' :: ':' :: ' ' :: write (level + 1) m.2) := by
  obtain ⟨key, v⟩ := m
  simp [writeMember, quote]

theorem begins_member (level : Nat) (m : Str × Value) : Begins (writeMember level m) :=
  ⟨'"', _, writeMember_eq level m, rfl, by decide⟩

/-- A string is read back, whatever reads what is inside of arrays and objects. -/
theorem scanOnce_quote (float : Text → Text) (inner : Option (Text → Except Failure (Value × Text))) {t : Str} (h : Joined t) (s : Text) :
    scanOnce float inner (quote t ++ s) = .ok (.str t, s) := by
  have hquote : quote t ++ s = '"' :: (t.flatMap escape ++ '"' :: s) := by simp [quote]
  rw [hquote, scanOnce, literal_quote h]
  rfl

/-- So is an integer. -/
theorem scanOnce_digits (float : Text → Text) (inner : Option (Text → Except Failure (Value × Text))) {n : Int}
    (h : (Nat.toDigits 10 n.natAbs).length ≤ intMaxStrDigits) {s : Text} (hs : Ended s) :
    scanOnce float inner (digits n ++ s) = .ok (.int n, s) := by
  have hmarks : ∀ c ∈ (digits n ++ s).head?, isNumberChar c = true := by
    unfold digits
    split
    · rintro c ⟨⟩
      rfl
    · obtain ⟨d, u, hd⟩ := List.exists_cons_of_ne_nil (Nat.toDigits_ne_nil (n := n.natAbs) (b := 10))
      rw [hd]
      rintro c ⟨⟩
      exact Json.numberChars_toDigits n.natAbs d (hd ▸ List.mem_cons_self ..)
  have hwords := find_words_digits n s
  have hnumber := readNumber_digits float h hs
  generalize digits n ++ s = text at hmarks hwords hnumber
  unfold scanOnce
  split
  iterate 3 exact absurd (hmarks _ rfl) (by decide)
  rw [hwords]
  exact hnumber

/-- One step of the scanner, whatever its depth. -/
theorem scan_eq (float : Text → Text) (d : Nat) : ∃ inner, scan float d = scanOnce float inner := by
  cases d with
  | zero => exact ⟨_, rfl⟩
  | succ d => exact ⟨_, rfl⟩

/-- A member is read back where its value is. -/
theorem readMember_write {value : Text → Except Failure (Value × Text)} {level : Nat} {m : Str × Value} (hkey : Joined m.1)
    (hbegins : Begins (write (level + 1) m.2)) {rest : Text}
    (hvalue : value (write (level + 1) m.2 ++ rest) = .ok (m.2, rest)) :
    readMember value (writeMember level m ++ rest) = .ok (m, rest) := by
  have htext : writeMember level m ++ rest =
      '"' :: (m.1.flatMap escape ++ '"' :: ':' :: ' ' :: (write (level + 1) m.2 ++ rest)) := by
    rw [writeMember_eq]
    simp
  have hcolon : ∀ t : Text, skipWhite (':' :: t) = ':' :: t := fun t => rfl
  have hspace : skipWhite (' ' :: (write (level + 1) m.2 ++ rest)) = write (level + 1) m.2 ++ rest := hbegins.skipWhite rest
  rw [htext, readMember, literal_quote hkey]
  simp only [Except.bind, hcolon, hspace, hvalue]
  rfl

/-- A value is read back, where nothing of a number stands behind it. -/
theorem Fits.scan {float : Text → Text} {d : Nat} {v : Value} (h : Fits d v) (level : Nat) {s : Text} (hs : Ended s) :
    scan float d (write level v ++ s) = .ok (v, s) := by
  induction h generalizing level s with
  | null d =>
    obtain ⟨inner, hscan⟩ := scan_eq float d
    rw [hscan]
    rfl
  | bool d b =>
    obtain ⟨inner, hscan⟩ := scan_eq float d
    rw [hscan]
    cases b <;> rfl
  | int d h =>
    obtain ⟨inner, hscan⟩ := scan_eq float d
    rw [hscan, write]
    exact scanOnce_digits float inner h hs
  | str d h =>
    obtain ⟨inner, hscan⟩ := scan_eq float d
    rw [hscan, write]
    exact scanOnce_quote float inner h s
  | @arr d items h ih =>
    cases items with
    | nil => rfl
    | cons v vs =>
      have htext : write level (.arr (v :: vs)) ++ s =
          '[' :: (newline (level + 1) ++ (write (level + 1) v ++ listTail level (write (level + 1)) ']' vs s)) := by
        simp [write, listTail, writeItems_eq]
      have hfirst : (write (level + 1) v).head? ≠ some ']' := by
        obtain ⟨c, u, hc, -, hne⟩ := (h v (List.mem_cons_self ..)).begins (level + 1)
        rw [hc]
        exact fun heq => hne (Option.some_inj.mp heq)
      have hbody : readBody (PyJson.scan float d) ']'
          (newline (level + 1) ++ (write (level + 1) v ++ listTail level (write (level + 1)) ']' vs s)) = .ok (v :: vs, s) :=
        readBody_written ⟨rfl, by decide⟩ hfirst fun b hb =>
          ⟨(h b hb).begins (level + 1), fun rest hrest => ih b hb (level + 1) hrest⟩
      rw [htext, PyJson.scan, scanOnce]
      simp only [enter, Except.bind, hbody]
      rfl
  | @obj d members hnames hkeys h ih =>
    cases members with
    | nil => rfl
    | cons m ms =>
      have htext : write level (.obj (m :: ms)) ++ s =
          '\x7b' :: (newline (level + 1) ++ (writeMember level m ++ listTail level (writeMember level) '\x7d' ms s)) := by
        simp [write, listTail, writeMembers_eq]
      have hfirst : (writeMember level m).head? ≠ some '\x7d' := by
        rw [writeMember_eq]
        exact fun heq => absurd (Option.some_inj.mp heq) (by decide)
      have hbody : readBody (readMember (PyJson.scan float d)) '\x7d'
          (newline (level + 1) ++ (writeMember level m ++ listTail level (writeMember level) '\x7d' ms s)) = .ok (m :: ms, s) :=
        readBody_written ⟨rfl, by decide⟩ hfirst fun b hb => ⟨begins_member level b, fun rest hrest =>
          readMember_write (hkeys b hb) ((h b hb).begins (level + 1)) (ih b hb (level + 1) hrest)⟩
      rw [htext, PyJson.scan, scanOnce]
      simp only [enter, Except.bind, hbody, Except.map, dict_of_nodup hnames]

/-- What is written is read back, with white space behind it. -/
theorem loads_dumps {scanner : Scanner} {v : Value} (h : Fits scanner.nesting v) {space : Text}
    (hspace : ∀ c ∈ space, isWhite c = true) : loads scanner (dumps v ++ space) = .ok v := by
  have hnone : skipWhite space = [] := List.dropWhile_eq_nil_iff.mpr hspace
  have hended : Ended space := by
    intro c hc
    have hwhite := hspace c (List.mem_of_mem_head? hc)
    simp only [isWhite, Bool.or_eq_true, beq_iff_eq] at hwhite
    rcases hwhite with ((rfl | rfl) | rfl) | rfl <;> rfl
  rw [loads, dumps, (h.begins 0).skipWhite, h.scan 0 hended]
  exact if_pos hnone

end PyJson

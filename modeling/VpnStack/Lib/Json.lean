import VpnStack.Lib.Text

/-!
# JSON documents

JSON values and the text `json.dumps(value, indent=2)` writes for them: one item a line, everything outside printable ASCII
escaped.
-/

namespace Json

/-! ## Numbers -/

/-- The characters a number is written with. -/
def isNumberChar (c : Char) : Bool := c.isDigit || c == '-' || c == '+' || c == '.' || c == 'e' || c == 'E'

/-- One digit or more, with no zero in front of another. -/
def isWhole : Text → Bool
  | [] => false
  | '0' :: t => t.isEmpty
  | t => t.all Char.isDigit

/-- A part of a number behind its mark, which is not empty where there is one. -/
def isPart (t : Text) : Bool := !t.isEmpty && t.all Char.isDigit

/-- What stands behind the whole part: a fraction, an exponent, both or neither. -/
def isTail : Text → Bool
  | [] => true
  | '.' :: t =>
    isPart (t.takeWhile Char.isDigit) &&
      match t.dropWhile Char.isDigit with
      | [] => true
      | e :: rest => (e == 'e' || e == 'E') && isPart (if rest.head? = some '-' ∨ rest.head? = some '+' then rest.tail else rest)
  | e :: rest => (e == 'e' || e == 'E') && isPart (if rest.head? = some '-' ∨ rest.head? = some '+' then rest.tail else rest)

/-- The literal of a number. -/
def isNumber (t : Text) : Bool :=
  let unsigned := if t.head? = some '-' then t.tail else t
  isWhole (unsigned.takeWhile Char.isDigit) && isTail (unsigned.dropWhile Char.isDigit)

/-- A number that is not natural, as its literal: `-3`, `2.5`, `1e9`. -/
structure Numeral where
  literal : Text
  chars : literal.all isNumberChar = true
  number : isNumber literal = true
  notNatural : literal.all Char.isDigit = false
  deriving DecidableEq

end Json

/-- A JSON value. -/
inductive Json where
  | null
  | bool (b : Bool)
  | num (n : Nat)
  | other (n : Json.Numeral)
  | str (t : Text)
  | arr (items : List Json)
  | obj (members : List (Text × Json))

namespace Json

instance : Coe String Json := ⟨fun s => .str s.toList⟩

/-! ## Writing -/

/-- The four digits of `\uXXXX`. -/
def hex4 (n : Nat) : Text := [16 ^ 3, 16 ^ 2, 16, 1].map fun p => Nat.digitChar (n / p % 16)

/-- A character inside a string literal, as `ensure_ascii` writes it: a pair of surrogates above U+FFFF. -/
def escape (c : Char) : Text :=
  match c with
  | '"' => ['\\', '"']
  | '\\' => ['\\', '\\']
  | '\n' => ['\\', 'n']
  | '\r' => ['\\', 'r']
  | '\t' => ['\\', 't']
  | '\x0c' => ['\\', 'f']
  | '\x08' => ['\\', 'b']
  | c =>
    if ' ' ≤ c ∧ c ≤ '~' then [c]
    else if c.toNat < 0x10000 then '\\' :: 'u' :: hex4 c.toNat
    else '\\' :: 'u' :: hex4 (0xd800 + (c.toNat - 0x10000) / 0x400) ++ '\\' :: 'u' :: hex4 (0xdc00 + (c.toNat - 0x10000) % 0x400)

/-- A string literal. -/
def quote (t : Text) : Text := '"' :: t.flatMap escape ++ ['"']

/-- A new line at a level of indentation. -/
def newline (level : Nat) : Text := '\n' :: List.replicate (2 * level) ' '

mutual

/-- A value at a level of indentation. -/
def write (level : Nat) : Json → Text
  | .null => "null".toList
  | .bool true => "true".toList
  | .bool false => "false".toList
  | .num n => Nat.toDigits 10 n
  | .other n => n.literal
  | .str t => quote t
  | .arr [] => "[]".toList
  | .arr (v :: vs) => '[' :: newline (level + 1) ++ write (level + 1) v ++ writeItems level vs ++ newline level ++ [']']
  | .obj [] => "\x7b\x7d".toList
  | .obj (m :: ms) => '\x7b' :: newline (level + 1) ++ writeMember level m ++ writeMembers level ms ++ newline level ++ ['\x7d']

/-- The items behind the first, each on a line of its own. -/
def writeItems (level : Nat) : List Json → Text
  | [] => []
  | v :: vs => ',' :: newline (level + 1) ++ write (level + 1) v ++ writeItems level vs

def writeMember (level : Nat) : Text × Json → Text
  | (key, v) => quote key ++ ':' :: ' ' :: write (level + 1) v

/-- The members behind the first. -/
def writeMembers (level : Nat) : List (Text × Json) → Text
  | [] => []
  | m :: ms => ',' :: newline (level + 1) ++ writeMember level m ++ writeMembers level ms

end

/-- `json.dumps(value, indent=2)`. -/
def dumps (v : Json) : Text := write 0 v

example : dumps (.obj [("a".toList, .arr [.num 12, "x\"é"]), ("b".toList, .arr [])]) =
    "\x7b\n  \"a\": [\n    12,\n    \"x\\\"\\u00e9\"\n  ],\n  \"b\": []\n\x7d".toList := by decide

end Json

import VpnStack.Lib.JsonPrefix
import VpnStack.Lib.Dart
import VpnStack.Lib.Dict

/-!
# Dart and JSON

`jsonEncode`, which leaves out all white space and escapes no more than it must; `jsonDecode`, whose objects are maps; and Dart's
integers among the numbers of JSON: a literal without a fraction and an exponent is one where it fits in 64 bits.
-/

namespace Json

/-- A negative number as a literal. -/
def Numeral.negative (n : Nat) : Numeral where
  literal := '-' :: Nat.toDigits 10 (n + 1)
  chars := by
    rw [List.all_cons, List.all_eq_true.mpr (numberChars_toDigits (n + 1))]
    rfl
  number := by
    have hdigits := digits_toDigits (n + 1)
    have htake : (Nat.toDigits 10 (n + 1)).takeWhile Char.isDigit = Nat.toDigits 10 (n + 1) :=
      List.takeWhile_eq_self_iff.mpr hdigits
    have hdrop : (Nat.toDigits 10 (n + 1)).dropWhile Char.isDigit = [] := List.dropWhile_eq_nil_iff.mpr hdigits
    simp [isNumber, htake, hdrop, isWhole_toDigits, isTail]
  notNatural := rfl

/-- The value of an integer. -/
def ofInt : Int → Json
  | .ofNat n => .num n
  | .negSucc n => .other (.negative n)

end Json

namespace Dart

/-- A number that `jsonDecode` makes an `int` of. -/
def asInt : Json → Option Int
  | .num n => if n < 2 ^ 63 then some n else none
  | .other n =>
    match n.literal with
    | '-' :: digits =>
      if digits.all Char.isDigit ∧ Nat.ofDigitChars 10 digits 0 ≤ 2 ^ 63 then some (-(Nat.ofDigitChars 10 digits 0 : Int)) else none
    | _ => none
  | _ => none

/-- A character inside a string literal. -/
def jsonEscape (c : Char) : Text :=
  match c with
  | '"' => ['\\', '"']
  | '\\' => ['\\', '\\']
  | '\n' => ['\\', 'n']
  | '\r' => ['\\', 'r']
  | '\t' => ['\\', 't']
  | '\x0c' => ['\\', 'f']
  | '\x08' => ['\\', 'b']
  | c => if c < ' ' then '\\' :: 'u' :: Json.hex4 c.toNat else [c]

def jsonQuote (t : Text) : Text := '"' :: t.flatMap jsonEscape ++ ['"']

mutual

/-- `jsonEncode(value)`. -/
def jsonEncode : Json → Text
  | .null => "null".toList
  | .bool true => "true".toList
  | .bool false => "false".toList
  | .num n => Nat.toDigits 10 n
  | .other n => n.literal
  | .str t => jsonQuote t
  | .arr [] => "[]".toList
  | .arr (v :: vs) => '[' :: jsonEncode v ++ jsonItems vs ++ [']']
  | .obj [] => "\x7b\x7d".toList
  | .obj (m :: ms) => '\x7b' :: jsonMember m ++ jsonMembers ms ++ ['\x7d']

def jsonItems : List Json → Text
  | [] => []
  | v :: vs => ',' :: jsonEncode v ++ jsonItems vs

def jsonMember : Text × Json → Text
  | (key, v) => jsonQuote key ++ ':' :: jsonEncode v

def jsonMembers : List (Text × Json) → Text
  | [] => []
  | m :: ms => ',' :: jsonMember m ++ jsonMembers ms

end

/-! ## Reading -/

mutual

/-- An object as a map: a key that comes again keeps its place and has the later value. -/
def asMaps : Json → Json
  | .arr items => .arr (asMapsItems items)
  | .obj members => .obj (Dict.ofPairs (asMapsMembers members))
  | v => v

def asMapsItems : List Json → List Json
  | [] => []
  | v :: vs => asMaps v :: asMapsItems vs

def asMapsMembers : List (Text × Json) → List (Text × Json)
  | [] => []
  | (key, v) :: ms => (key, asMaps v) :: asMapsMembers ms

end

/-- `jsonDecode(text)`, or none where it throws a `FormatException`. -/
def jsonDecode (t : Text) : Option Json := (Json.loads t).map asMaps

/-- What is white in JSON is white in Dart. -/
theorem isSpace_of_isWhite {c : Char} (h : Json.isWhite c = true) : isSpace c = true := by
  simp only [Json.isWhite, Bool.or_eq_true, beq_iff_eq] at h
  rcases h with ((rfl | rfl) | rfl) | rfl <;> rfl

/-- `trim` takes no part of an object away, though it takes more than JSON's white space. -/
theorem jsonDecode_trim {t : Text} {members : List (Text × Json)} (h : jsonDecode t = some (.obj members)) :
    jsonDecode (trim t) = some (.obj members) := by
  obtain ⟨v, hloads, hv⟩ := Option.map_eq_some_iff.mp h
  cases v with
  | obj ms =>
    obtain ⟨before, body, after, rfl, hbefore, hafter, hown⟩ := Json.loads_obj hloads
    have htrim : trim (before ++ ('\x7b' :: (body ++ ['\x7d']) ++ after)) = '\x7b' :: (body ++ ['\x7d']) := by
      refine trim_append (fun c hc => isSpace_of_isWhite (hbefore c hc)) (fun c hc => isSpace_of_isWhite (hafter c hc)) ?_ ?_
        (List.cons_ne_nil _ _)
      · rintro c hc
        obtain rfl : '\x7b' = c := by simpa using hc
        rfl
      · rintro c hc
        rw [← List.cons_append, List.getLast?_concat] at hc
        obtain rfl : '\x7d' = c := by simpa using hc
        rfl
    rw [htrim, jsonDecode, hown]
    exact congrArg some hv
  | null => nomatch hv
  | bool b => nomatch hv
  | num n => nomatch hv
  | other n => nomatch hv
  | str t => nomatch hv
  | arr items => nomatch hv

end Dart

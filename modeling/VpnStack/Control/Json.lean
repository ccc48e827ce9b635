import VpnStack.Lib.DartJson
import VpnStack.Lib.Base64

/-!
# `control/json.dart`

How the app reads a payload: each field by its name and its type, and every refusal says where it is.
-/

namespace VpnStack

namespace Control

/-- A `Map<String, Object?>`: no two of its keys are equal, and they are in the order they came in. -/
abbrev JsonMap := List (Text × Json)

/-- A payload this app cannot read: a field is missing, is not of the type it should be or is not base64, or nobody here knows
it. Of a text that is not base64 the reason quotes what `dart:convert` says of it. -/
inductive PayloadException where
  | format (reason : Text)
  | notBase64 (path text : Text)
  | unknownField (location field : Text)
  deriving DecidableEq, Repr

/-- What is read, or why it is refused. -/
abbrev Decoded (α : Type) := Except PayloadException α

/-- `jsonPath`. -/
def jsonPath (location key : Text) : Text := if location = [] then key else location ++ '.' :: key

/-- The location of an item of a list. -/
def itemPath (path : Text) (i : Nat) : Text := path ++ '[' :: Nat.toDigits 10 i ++ [']']

/-- `_describe`. -/
def describe : Json → Text
  | .null => "null"
  | .str _ => "a string"
  | .bool _ => "a boolean"
  | .num _ => "a number"
  | .other _ => "a number"
  | .arr _ => "a list"
  | .obj _ => "an object"

/-- `_wrongType`. -/
def wrongType {α : Type} (path expected : Text) (got : Json) : Decoded α :=
  .error (.format (path ++ (": expected " : Text) ++ expected ++ (", got " : Text) ++ describe got))

/-- `_present`. -/
def present (json : JsonMap) (key location : Text) : Decoded Json :=
  match json.lookup key with
  | some value => .ok value
  | none => .error (.format (jsonPath location key ++ (" is missing" : Text)))

def asObject (value : Json) (location : Text) : Decoded JsonMap :=
  match value with
  | .obj members => .ok members
  | _ => wrongType (if location = [] then "the payload" else location) "an object" value

def asList (value : Json) (location : Text) : Decoded (List Json) :=
  match value with
  | .arr items => .ok items
  | _ => wrongType location "a list" value

def asString (value : Json) (path : Text) : Decoded Text :=
  match value with
  | .str t => .ok t
  | _ => wrongType path "a string" value

/-- `_strings`. -/
def strings (value : Json) (path : Text) : Decoded (List Text) := do
  let raw ← asList value path
  raw.zipIdx.mapM fun item => asString item.1 (itemPath path item.2)

section Fields

variable (json : JsonMap) (key location : Text)

def readString : Decoded Text := do
  let value ← present json key location
  asString value (jsonPath location key)

def readNullableString : Decoded (Option Text) :=
  match json.lookup key with
  | none => .ok none
  | some .null => .ok none
  | some (.str t) => .ok (some t)
  | some value => wrongType (jsonPath location key) "a string or null" value

def readNullableBool : Decoded (Option Bool) :=
  match json.lookup key with
  | none => .ok none
  | some .null => .ok none
  | some (.bool b) => .ok (some b)
  | some value => wrongType (jsonPath location key) "a boolean or null" value

def readBool : Decoded Bool := do
  let value ← present json key location
  match value with
  | .bool b => .ok b
  | _ => wrongType (jsonPath location key) "a boolean" value

/-- `readInt`: `3.0` is no integer. -/
def readInt : Decoded Int := do
  let value ← present json key location
  match Dart.asInt value with
  | some n => .ok n
  | none => wrongType (jsonPath location key) "an integer" value

def readStringList : Decoded (List Text) := do
  let value ← present json key location
  strings value (jsonPath location key)

def readNullableStringList : Decoded (Option (List Text)) :=
  match json.lookup key with
  | none => .ok none
  | some .null => .ok none
  | some value => some <$> strings value (jsonPath location key)

def readObject : Decoded JsonMap := do
  let value ← present json key location
  asObject value (jsonPath location key)

def readList : Decoded (List Json) := do
  let value ← present json key location
  asList value (jsonPath location key)

/-- `readBase64`: what is not base64 is refused by the name of the field. -/
def readBase64 : Decoded Bytes := do
  let text ← readString json key location
  match Base64.strictDecode text with
  | some bytes => .ok bytes
  | none => .error (.notBase64 (jsonPath location key) text)

end Fields

/-- `rejectUnknown`: the first key that is not known is refused. -/
def rejectUnknown (json : JsonMap) (known : List Text) (location : Text) : Decoded Unit :=
  match json.find? fun member => member.1 ∉ known with
  | some member => .error (.unknownField location member.1)
  | none => .ok ()

/-! ## What is there is read -/

/-- The JSON of a list of strings. -/
def ofTexts (ts : List Text) : Json := .arr (ts.map .str)

section Reads

variable {json : JsonMap} {key location : Text}

/-- A list of texts is read back as it was written. -/
theorem strings_ofTexts (ts : List Text) (path : Text) : strings (ofTexts ts) path = .ok ts := by
  have hitems : ∀ (ts : List Text) (n : Nat),
      ((ts.map Json.str).zipIdx n).mapM (fun item => asString item.1 (itemPath path item.2)) = (.ok ts : Decoded _) := by
    intro ts
    induction ts with
    | nil => exact fun _ => rfl
    | cons t ts ih =>
      intro n
      rw [List.map_cons, List.zipIdx_cons, List.mapM_cons, ih]
      rfl
  exact hitems ts 0

/-- A text under the key is read. -/
theorem readString_of_lookup {t : Text} (h : json.lookup key = some (.str t)) : readString json key location = .ok t := by
  rw [readString, present, h]
  rfl

/-- Bytes that were encoded under the key are read back. -/
theorem readBase64_of_lookup {b : Bytes} (h : json.lookup key = some (.str (Base64.encode b))) :
    readBase64 json key location = .ok b := by
  rw [readBase64, readString_of_lookup h]
  change (match Base64.strictDecode (Base64.encode b) with
    | some bytes => Except.ok bytes
    | none => _) = _
  rw [Base64.strictDecode_encode]

/-- A boolean under the key is read. -/
theorem readBool_of_lookup {b : Bool} (h : json.lookup key = some (.bool b)) : readBool json key location = .ok b := by
  rw [readBool, present, h]
  rfl

/-- A list of texts under the key is read. -/
theorem readStringList_of_lookup {ts : List Text} (h : json.lookup key = some (ofTexts ts)) :
    readStringList json key location = .ok ts := by
  rw [readStringList, present, h]
  exact strings_ofTexts ts _

/-- A list under the key is read. -/
theorem readList_of_lookup {items : List Json} (h : json.lookup key = some (.arr items)) :
    readList json key location = .ok items := by
  rw [readList, present, h]
  rfl

/-- An object under the key is read. -/
theorem readObject_of_lookup {m : JsonMap} (h : json.lookup key = some (.obj m)) : readObject json key location = .ok m := by
  rw [readObject, present, h]
  rfl

theorem readNullableString_of_lookup {t : Text} (h : json.lookup key = some (.str t)) :
    readNullableString json key location = .ok (some t) := by rw [readNullableString, h]

theorem readNullableString_of_absent (h : json.lookup key = none) : readNullableString json key location = .ok none := by
  rw [readNullableString, h]

/-- The JSON of a verdict: true, false or null. -/
def ofVerdict : Option Bool → Json
  | none => .null
  | some b => .bool b

/-- A verdict under the key is read, null included. -/
theorem readNullableBool_of_lookup {b : Option Bool} (h : json.lookup key = some (ofVerdict b)) :
    readNullableBool json key location = .ok b := by
  rw [readNullableBool, h]
  cases b <;> rfl

theorem readNullableBool_of_absent (h : json.lookup key = none) : readNullableBool json key location = .ok none := by
  rw [readNullableBool, h]

/-- The JSON of a list of strings, or null. -/
def ofNullableTexts : Option (List Text) → Json
  | none => .null
  | some ts => ofTexts ts

/-- A list of texts under the key is read, null included. -/
theorem readNullableStringList_of_lookup {ts : Option (List Text)} (h : json.lookup key = some (ofNullableTexts ts)) :
    readNullableStringList json key location = .ok ts := by
  rw [readNullableStringList, h]
  cases ts with
  | none => rfl
  | some ts =>
    change some <$> strings (ofTexts ts) _ = _
    rw [strings_ofTexts]
    rfl

theorem readNullableStringList_of_absent (h : json.lookup key = none) :
    readNullableStringList json key location = .ok none := by rw [readNullableStringList, h]

/-- Nothing is rejected where every key is known. -/
theorem rejectUnknown_ok {known : List Text} (h : ∀ member ∈ json, member.1 ∈ known) :
    rejectUnknown json known location = .ok () := by
  have hnone : (json.find? fun member => member.1 ∉ known) = none := List.find?_eq_none.mpr fun member hmember hnot =>
    of_decide_eq_true hnot (h member hmember)
  rw [rejectUnknown, hnone]

end Reads

end Control

end VpnStack

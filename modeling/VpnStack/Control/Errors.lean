import VpnStack.Control.Models

/-!
# `control/errors.dart` and the commands of `control/vpnctl.dart`

What the app says of an answer it cannot read: what was wrong and where, and the shape of the payload in place of its bytes. A
message is a list of UTF-16 code units here, because the shape is cut at a number of them.
-/

namespace VpnStack

namespace Control

/-! ## The shape -/

/-- `_maxDepth`. -/
def maxDepth : Nat := 6

/-- `_maxElements`. -/
def maxElements : Nat := 4

/-- `_maxKeys`. -/
def maxKeys : Nat := 20

/-- `_maxShape`. -/
def maxShape : Nat := 1200

/-- What is said of the items that are not shown. -/
def elided (limit length : Nat) : List Text :=
  if limit < length then [("…+" : Text) ++ Nat.toDigits 10 (length - limit) ++ (" more" : Text)] else []

/-- What stands in a list or an object, unless that stands too deep. -/
def nested (depth : Nat) (opening closing : Char) (parts : List Text) : Text :=
  if maxDepth ≤ depth then "…" else opening :: (", ".toList).intercalate parts ++ [closing]

/-- A value that holds no others. -/
def sketchScalar : Json → Text
  | .null => "null"
  | .bool _ => "boolean"
  | .num _ => "number"
  | .other _ => "number"
  | .str t => ("string(" : Text) ++ Nat.toDigits 10 (Dart.length t) ++ [')']
  | _ => []

mutual

/-- `_sketch`. -/
def sketch (depth : Nat) : Json → Text
  | .arr items => nested depth '[' ']' (sketchItems (depth + 1) maxElements items ++ elided maxElements items.length)
  | .obj members => nested depth '\x7b' '\x7d' (sketchMembers (depth + 1) maxKeys members ++ elided maxKeys members.length)
  | v => sketchScalar v

/-- The first items. -/
def sketchItems (depth : Nat) (shown : Nat) : List Json → List Text
  | [] => []
  | v :: vs => if shown = 0 then [] else sketch depth v :: sketchItems depth (shown - 1) vs

/-- The first members. -/
def sketchMembers (depth : Nat) (shown : Nat) : List (Text × Json) → List Text
  | [] => []
  | (key, v) :: ms =>
    if shown = 0 then [] else (key ++ ':' :: ' ' :: sketch depth v) :: sketchMembers depth (shown - 1) ms

end

/-- `_shapeOf`. -/
def shapeOf (decoded : Json) : List Nat :=
  let shape := Dart.codeUnits (sketch 0 decoded)
  if shape.length ≤ maxShape then shape
  else shape.take maxShape ++
    Dart.codeUnits (("… [shape truncated, " : Text) ++ Nat.toDigits 10 shape.length ++ (" characters]" : Text))

/-! ## What stands before the payload -/

/-- `\S`, to which one character is no white space that `trim` takes for one. -/
def isNonSpace (c : Char) : Bool := !Dart.isSpace c || c.toNat == 0x85

/-- `[A-Za-z0-9+.\-]`. -/
def isSchemeChar (c : Char) : Bool := c.isAlphanum || c == '+' || c == '.' || c == '-'

/-- `[A-Za-z0-9+/=_-]`. -/
def isTokenChar (c : Char) : Bool := c.isAlphanum || c == '+' || c == '/' || c == '=' || c == '_' || c == '-'

/-- A match of `[A-Za-z][A-Za-z0-9+.\-]*://\S+` where the text begins: its scheme, and what stands behind it. -/
def uriAt : Text → Option (Text × Text)
  | [] => none
  | c :: t =>
    if c.isAlpha then
      match t.dropWhile isSchemeChar with
      | ':' :: '/' :: '/' :: rest =>
        if rest.takeWhile isNonSpace = [] then none else some (c :: t.takeWhile isSchemeChar, rest.dropWhile isNonSpace)
      | _ => none
    else none

/-- Every link is cut behind its scheme. -/
def clipUris : Nat → Text → Text
  | 0, t => t
  | _ + 1, [] => []
  | n + 1, c :: t =>
    match uriAt (c :: t) with
    | some (scheme, rest) => scheme ++ ("://…" : Text) ++ clipUris n rest
    | none => c :: clipUris n t

/-- Every run that could be a secret is replaced by its length. -/
def clipRuns : Nat → Text → Text
  | 0, t => t
  | _ + 1, [] => []
  | n + 1, c :: t =>
    let run := (c :: t).takeWhile isTokenChar
    if 32 ≤ run.length then
      ("…[" : Text) ++ Nat.toDigits 10 run.length ++ (" characters]" : Text) ++ clipRuns n ((c :: t).dropWhile isTokenChar)
    else c :: clipRuns n t

/-- `_clipTokens`. -/
def clipTokens (t : Text) : Text :=
  let noUris := clipUris t.length t
  clipRuns noUris.length noUris

/-- The text in front of the first opening brace, or all of it. -/
def beforeBrace (t : Text) : Text := t.takeWhile fun c => c ≠ '\x7b'

/-- `_beforePayload`. -/
def beforePayload (t : Text) : Text := clipTokens (Dart.trim (beforeBrace t))

/-! ## The messages -/

/-- `VpnctlProtocolError._describe`. -/
def VpnctlProtocolError.describe (reason raw : Text) : List Nat :=
  let trimmed := Dart.trim raw
  if trimmed = [] then Dart.codeUnits (reason ++ (" (stdout was empty)" : Text))
  else
    let unparsed :=
      let before := beforePayload trimmed
      if before = [] then
        Dart.codeUnits (reason ++ (" (stdout was " : Text) ++ Nat.toDigits 10 (Dart.length trimmed) ++
          (" characters that begin like a payload and do not parse as one, so they are not shown: a damaged `user export` " ++
            "answer still starts with a live URI)").toList)
      else Dart.codeUnits (reason ++ ("\nbefore the payload, stdout carried: " : Text) ++ before)
    match Dart.jsonDecode trimmed with
    | none => unparsed
    | some .null => unparsed
    | some decoded => Dart.codeUnits (reason ++ ("\npayload shape: " : Text)) ++ shapeOf decoded

/-- `VpnctlSchemaError._unread`. -/
def unread : Text := "What the command did is in an answer this app cannot read."

/-- What was wrong, where the answer could not be read. `complaint` is what `dart:convert` says of a text that is not base64. -/
def VpnctlError.reason? (complaint : Text → Text) : VpnctlError → Option Text
  | .protocol reason => some reason
  | .notBase64 path text => some (path ++ (": not valid base64 (" : Text) ++ complaint text ++ [')'])
  | .schemaMismatch serverSchema =>
    some (("the server answers --json schema " : Text) ++ (toString serverSchema).toList ++ (" and this app understands " : Text) ++
      Nat.toDigits 10 vpnctlSchema ++
      (if (vpnctlSchema : Int) < serverSchema then (". The server is newer than the app -- update the app. " : Text)
       else (". The server is older than the app -- deploy the matching version. " : Text)) ++ unread)
  | .unknownField location field =>
    some (location ++ (" has a field this app does not know (" : Text) ++ field ++
      ("). The server is newer than the app -- update the app. " : Text) ++ unread)
  | .busy => none
  | .unparsed _ => none
  | .command _ _ => none

/-! ## The commands -/

/-- The commands the app runs, by the answer they are read as. -/
inductive Subcommand where
  | status
  | listUsers
  | mutateUser
  | setUserEnabled
  | exportUser
  | listProtocols
  | setProtocol
  | apply
  deriving DecidableEq, Repr

def Subcommand.Answer : Subcommand → Type
  | .status => ServerStatus
  | .listUsers => List VpnUser
  | .mutateUser => UserMutation
  | .setUserEnabled => UserEnablement
  | .exportUser => ShareBundle
  | .listProtocols => List ProtocolEntry
  | .setProtocol => ProtocolToggle
  | .apply => ApplyResult

def Subcommand.fromJson : (c : Subcommand) → JsonMap → Decoded c.Answer
  | .status => ServerStatus.fromJson
  | .listUsers => readRows VpnUser.fromJson "users"
  | .mutateUser => UserMutation.fromJson
  | .setUserEnabled => UserEnablement.fromJson
  | .exportUser => ShareBundle.fromJson
  | .listProtocols => readRows ProtocolEntry.fromJson "protocols"
  | .setProtocol => ProtocolToggle.fromJson
  | .apply => fun body => ApplyResult.fromJson body [] []

/-- `user export` hands out what there is though some of it failed. -/
def Subcommand.allowNotOk (c : Subcommand) : Bool := c = .exportUser

/-- A call of a command, which printed `stdout` and exited with that status. -/
def Subcommand.call (c : Subcommand) (exitCode : Int) (stdout : Text) : Except VpnctlError c.Answer := do
  let body ← unwrap exitCode (Dart.jsonDecode stdout) c.allowNotOk
  parse body c.fromJson

/-- The message of the `VpnctlProtocolError` or `VpnctlSchemaError` that is thrown at an answer with exit status 0, if one is. -/
def Subcommand.message (complaint : Text → Text) (c : Subcommand) (stdout : Text) : Option (List Nat) :=
  match c.call 0 stdout with
  | .ok _ => none
  | .error e => (e.reason? complaint).map fun reason => VpnctlProtocolError.describe reason stdout

end Control

end VpnStack

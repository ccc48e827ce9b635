import VpnStack.Control.Json
import VpnStack.Lib.Dart

/-!
# `control/models.dart` and `control/vpnctl.dart`

What the app makes of the answers of `vpnctl`. A receipt of a command that applies is printed when the command has done its work,
so a key the app does not know is named and not refused; everywhere else it is refused.
-/

namespace VpnStack

namespace Control

/-! ## The envelope -/

/-- `vpnctlSchema`. -/
def vpnctlSchema : Nat := 1

/-- `lockConflictExit`. -/
def lockConflictExit : Int := 75

/-- What a call of `vpnctl` throws. -/
inductive VpnctlError where
  | busy
  | unparsed (exitCode : Int)
  | protocol (reason : Text)
  | notBase64 (path text : Text)
  | schemaMismatch (serverSchema : Int)
  | command (exitCode : Int) (error : Json)
  | unknownField (location field : Text)

/-- The message of a command that failed and sent none. -/
def silentFailure (exitCode : Int) : Text :=
  if exitCode ≠ 0 then (("exited " : String) ++ toString exitCode ++ " without saying why").toList
  else "reported failure without saying why"

/-- The members `_run` takes off an answer. -/
def envelopeKeys : List Text := ["schema", "ok", "error"]

/-- `_run`, behind the session and `_decode`: the payload without `schema`, `ok` and `error`. -/
def unwrap (exitCode : Int) (decoded : Option Json) (allowNotOk : Bool) : Except VpnctlError JsonMap :=
  if exitCode = lockConflictExit then .error .busy
  else match decoded with
    | some (.obj decoded) =>
      match (decoded.lookup "schema".toList).bind Dart.asInt with
      | some schema =>
        if schema ≠ vpnctlSchema then .error (.schemaMismatch schema)
        else match decoded.lookup "ok".toList with
          | some (.bool ok) =>
            let error := (decoded.lookup "error".toList).getD .null
            match error with
            | .null =>
              if exitCode ≠ 0 ∨ (!ok ∧ !allowNotOk) then .error (.command exitCode (.str (silentFailure exitCode)))
              else .ok (decoded.filter fun member => member.1 ∉ envelopeKeys)
            | error => .error (.command exitCode error)
          | _ => .error (.protocol "\"ok\" is missing or is not a boolean")
      | none => .error (.protocol "no \"schema\" field: this is not a vpnctl --json envelope")
    | _ =>
      if exitCode ≠ 0 then .error (.unparsed exitCode)
      else .error (.protocol ("exited 0 but stdout is not a JSON object, so this is not a vpnctl --json answer"))

/-- `_run` on what `vpnctl` prints, whose objects have no key twice and are maps as they stand. -/
def run (exitCode : Int) (stdout : Text) (allowNotOk : Bool) : Except VpnctlError JsonMap :=
  unwrap exitCode (Json.loads stdout) allowNotOk

/-- `_parse`. -/
def parse {α : Type} (body : JsonMap) (fromJson : JsonMap → Decoded α) : Except VpnctlError α :=
  match fromJson body with
  | .ok a => .ok a
  | .error (.unknownField location field) =>
    .error (.unknownField (if location = [] then "the payload" else location) field)
  | .error (.format reason) => .error (.protocol reason)
  | .error (.notBase64 path text) => .error (.notBase64 path text)

/-! ## `Ikev2Reconcile` -/

structure Ikev2Reconcile where
  added : List Text
  revoked : List Text
  failed : List Text
  skipped : Option Text
  error : Option Text
  deriving DecidableEq, Repr

/-- `Ikev2Reconcile.fromJson`. -/
def Ikev2Reconcile.fromJson (json : JsonMap) (location : Text) : Decoded Ikev2Reconcile :=
  if "skipped".toList ∈ json.map (·.1) then do
    rejectUnknown json ["skipped", "error"] location
    let skipped ← readString json "skipped" location
    let error ← readNullableString json "error" location
    return ⟨[], [], [], some skipped, error⟩
  else do
    rejectUnknown json ["added", "revoked", "failed"] location
    let added ← readStringList json "added" location
    let revoked ← readStringList json "revoked" location
    let failed ← readStringList json "failed" location
    return ⟨added, revoked, failed, none, none⟩

/-! ## `ApplyResult` -/

structure ApplyResult where
  rendered : Text
  enabledProtocols : List Text
  restarted : Bool
  configChanged : Option (List Text)
  convergePending : Bool
  teardown : Option Text
  ready : Option (List Text)
  portsReady : Option Bool
  firewall : Option (List Text)
  ikev2Forwarding : Option Text
  ikev2Reconcile : Option Ikev2Reconcile
  unknownKeys : List Text
  deriving DecidableEq, Repr

/-- `ApplyResult.keys`. -/
def ApplyResult.keys : List Text :=
  ["rendered", "enabled_protocols", "restarted", "config_changed", "converge_pending", "teardown", "ready", "ports_ready",
    "firewall", "ikev2_forwarding", "ikev2_reconcile"]

/-- The keys of a payload that neither `apply` nor the enclosing command has, sorted. -/
def unknown (json : JsonMap) (consumed : List Text) : List Text :=
  Dart.sort ((json.map (·.1)).filter fun key => key ∉ ApplyResult.keys ∧ key ∉ consumed)

/-- The field `ikev2_reconcile`. -/
def ApplyResult.readReconcile (json : JsonMap) (location : Text) : Decoded (Option Ikev2Reconcile) :=
  if "ikev2_reconcile".toList ∈ json.map (·.1) then do
    let object ← readObject json "ikev2_reconcile" location
    some <$> Ikev2Reconcile.fromJson object (jsonPath location "ikev2_reconcile")
  else pure none

/-- `ApplyResult.fromJson`. -/
def ApplyResult.fromJson (json : JsonMap) (consumed : List Text) (location : Text) : Decoded ApplyResult := do
  let rendered ← readString json "rendered" location
  let enabledProtocols ← readStringList json "enabled_protocols" location
  let restarted ← readBool json "restarted" location
  let configChanged ← readNullableStringList json "config_changed" location
  let convergePending ← readBool json "converge_pending" location
  let teardown ← readNullableString json "teardown" location
  let ready ← readNullableStringList json "ready" location
  let portsReady ← readNullableBool json "ports_ready" location
  let firewall ← readNullableStringList json "firewall" location
  let ikev2Forwarding ← readNullableString json "ikev2_forwarding" location
  let ikev2Reconcile ← readReconcile json location
  return { rendered, enabledProtocols, restarted, configChanged, convergePending, teardown, ready, portsReady, firewall,
           ikev2Forwarding, ikev2Reconcile, unknownKeys := unknown json consumed }

/-! ## The receipts -/

structure UserMutation where
  user : Text
  apply : ApplyResult

def UserMutation.fromJson (json : JsonMap) : Decoded UserMutation := do
  let user ← readString json "user" []
  let apply ← ApplyResult.fromJson json ["user"] []
  return ⟨user, apply⟩

structure UserEnablement where
  user : Text
  enabled : Bool
  apply : ApplyResult

def UserEnablement.fromJson (json : JsonMap) : Decoded UserEnablement := do
  let user ← readString json "user" []
  let enabled ← readBool json "enabled" []
  let apply ← ApplyResult.fromJson json ["user", "enabled"] []
  return ⟨user, enabled, apply⟩

structure ProtocolToggle where
  changed : Bool
  apply : Option ApplyResult

/-- `ProtocolToggle.fromJson`: without a change there is no result of `apply`. -/
def ProtocolToggle.fromJson (json : JsonMap) : Decoded ProtocolToggle := do
  let changed ← readBool json "changed" []
  if changed then do
    let apply ← ApplyResult.fromJson json ["changed"] []
    return ⟨true, some apply⟩
  else do
    rejectUnknown json ["changed"] []
    return ⟨false, none⟩

/-! ## What is listed -/

structure ServerStatus where
  stateDir : Text
  isServer : Bool
  rendered : Option Text
  enabled : List Text
  revokePending : List Text
  users : Int
  usersEnabled : Int
  ikev2Running : Bool

def ServerStatus.fromJson (json : JsonMap) : Decoded ServerStatus := do
  rejectUnknown json ["state_dir", "is_server", "rendered", "enabled", "revoke_pending", "users", "users_enabled", "ikev2_running"] []
  let stateDir ← readString json "state_dir" []
  let isServer ← readBool json "is_server" []
  let rendered ← readNullableString json "rendered" []
  let enabled ← readStringList json "enabled" []
  let revokePending ← readStringList json "revoke_pending" []
  let users ← readInt json "users" []
  let usersEnabled ← readInt json "users_enabled" []
  let ikev2Running ← readBool json "ikev2_running" []
  return ⟨stateDir, isServer, rendered, enabled, revokePending, users, usersEnabled, ikev2Running⟩

structure UserSecrets where
  vlessUuid : Text
  hysteria2Password : Text
  l2tpPassword : Text

/-- The keys of the credentials of a user. -/
def UserSecrets.names : List Text := ["vless_uuid", "hysteria2_password", "l2tp_password"]

/-- `UserSecrets.fromJson`: all three or none. -/
def UserSecrets.fromJson (json : JsonMap) (location : Text) : Decoded (Option UserSecrets) :=
  let missing := UserSecrets.names.filter fun name => name ∉ json.map (·.1)
  if missing = UserSecrets.names then pure none
  else if missing ≠ [] then
    .error (.format ((if location = [] then ("the user row" : Text) else location) ++
      (": has some credentials but not others (missing " : Text) ++ (", ".toList).intercalate missing ++ [')']))
  else do
    let vlessUuid ← readString json "vless_uuid" location
    let hysteria2Password ← readString json "hysteria2_password" location
    let l2tpPassword ← readString json "l2tp_password" location
    return some ⟨vlessUuid, hysteria2Password, l2tpPassword⟩

/-- `VpnUser`, a row of `user list`. -/
structure VpnUser where
  name : Text
  enabled : Bool
  ikev2Provisioned : Bool
  createdAt : Text
  secrets : Option UserSecrets

def VpnUser.fromJson (json : JsonMap) (location : Text) : Decoded VpnUser := do
  rejectUnknown json ["name", "enabled", "ikev2_provisioned", "created_at", "vless_uuid", "hysteria2_password", "l2tp_password"]
    location
  let name ← readString json "name" location
  let enabled ← readBool json "enabled" location
  let ikev2Provisioned ← readBool json "ikev2_provisioned" location
  let createdAt ← readString json "created_at" location
  let secrets ← UserSecrets.fromJson json location
  return ⟨name, enabled, ikev2Provisioned, createdAt, secrets⟩

/-- `ProtocolEntry`, a row of `protocol list`. -/
structure ProtocolEntry where
  name : Text
  enabled : Bool
  ports : List Text
  kind : Text
  summary : Text
  notes : Text

def ProtocolEntry.fromJson (json : JsonMap) (location : Text) : Decoded ProtocolEntry := do
  rejectUnknown json ["name", "enabled", "ports", "kind", "summary", "notes"] location
  let name ← readString json "name" location
  let enabled ← readBool json "enabled" location
  let ports ← readStringList json "ports" location
  let kind ← readString json "kind" location
  let summary ← readString json "summary" location
  let notes ← readString json "notes" location
  return ⟨name, enabled, ports, kind, summary, notes⟩

/-- The rows of a list that is the whole payload. -/
def readRows {α : Type} (fromJson : JsonMap → Text → Decoded α) (key : Text) (body : JsonMap) : Decoded (List α) := do
  rejectUnknown body [key] []
  let rows ← readList body key []
  rows.zipIdx.mapM fun row => do
    let json ← asObject row.1 (itemPath key row.2)
    fromJson json (itemPath key row.2)

/-! ## `ShareBundle` -/

/-- One deliverable, in one of three shapes. -/
inductive ShareItem where
  | uri (label uri : Text) (qrPng : Option Bytes)
  | file (label filename : Text) (content : Bytes)
  | fields (label : Text) (fields : List (Text × Text))
  deriving DecidableEq, Repr

/-- The refusal of an item in no shape, or in two. -/
def notOneShape (location : Text) (shapes : Nat) : PayloadException :=
  .format ((if location = [] then ("the share item" : Text) else location) ++
    (": expected exactly one of uri, filename or fields, got " : Text) ++ Nat.toDigits 10 shapes ++
    (". Rendering it as any one of them would be a guess." : Text))

/-- One row of a settings form. -/
def readRow (path : Text) (row : Json) : Decoded (Text × Text) := do
  let pair ← asList row path
  match pair with
  | [.str setting, .str value] => return (setting, value)
  | [_, _] => .error (.format (path ++ (": expected two strings" : Text)))
  | pair => .error (.format (path ++ (": expected a [setting, value] pair, got " : Text) ++ Nat.toDigits 10 pair.length ++
      (" element(s)" : Text)))

/-- The picture, which may be missing. -/
def readPng (json : JsonMap) (location : Text) : Decoded (Option Bytes) :=
  if "png_b64".toList ∈ json.map (·.1) then some <$> readBase64 json "png_b64" location else pure none

def ShareItem.readUri (json : JsonMap) (location : Text) : Decoded ShareItem := do
  rejectUnknown json ["label", "uri", "png_b64"] location
  let label ← readString json "label" location
  let uri ← readString json "uri" location
  let png ← readPng json location
  return .uri label uri png

def ShareItem.readFile (json : JsonMap) (location : Text) : Decoded ShareItem := do
  rejectUnknown json ["label", "filename", "b64"] location
  let label ← readString json "label" location
  let filename ← readString json "filename" location
  let content ← readBase64 json "b64" location
  return .file label filename content

def ShareItem.readFields (json : JsonMap) (location : Text) : Decoded ShareItem := do
  rejectUnknown json ["label", "fields"] location
  let rows ← readList json "fields" location
  let fields ← rows.zipIdx.mapM fun row => readRow (itemPath (jsonPath location "fields") row.2) row.1
  let label ← readString json "label" location
  return .fields label fields

/-- `ShareItem.fromJson`: the shape is told by the one key of three that is there. -/
def ShareItem.fromJson (json : JsonMap) (location : Text) : Decoded ShareItem :=
  let has := fun key : String => decide (key.toList ∈ json.map (·.1))
  match has "uri", has "filename", has "fields" with
  | true, false, false => ShareItem.readUri json location
  | false, true, false => ShareItem.readFile json location
  | false, false, true => ShareItem.readFields json location
  | a, b, c => .error (notOneShape location ([a, b, c].count true))

/-- The URI of an item that is one. -/
def ShareItem.uri? : ShareItem → Option Text
  | .uri _ text _ => some text
  | .file .. => none
  | .fields .. => none

/-- What one person is handed, by protocol, in the order the server sent it. -/
structure ShareBundle where
  user : Text
  host : Text
  byProtocol : List (Text × List ShareItem)
  failed : List Text
  deriving DecidableEq, Repr

/-- The items of one protocol. -/
def readItems (path : Text) (value : Json) : Decoded (List ShareItem) := do
  let items ← asList value path
  items.zipIdx.mapM fun item => do
    let json ← asObject item.1 (itemPath path item.2)
    ShareItem.fromJson json (itemPath path item.2)

def ShareBundle.fromJson (json : JsonMap) : Decoded ShareBundle := do
  rejectUnknown json ["user", "host", "protocols", "failed"] []
  let raw ← readObject json "protocols" []
  let byProtocol ← raw.mapM fun member => do
    let items ← readItems (jsonPath "protocols" member.1) member.2
    return (member.1, items)
  let user ← readString json "user" []
  let host ← readString json "host" []
  let failed ← readStringList json "failed" []
  return ⟨user, host, byProtocol, failed⟩

/-- `importUris`. -/
def ShareBundle.importUris (bundle : ShareBundle) : List Text :=
  bundle.byProtocol.flatMap fun entry => entry.2.filterMap ShareItem.uri?

end Control

end VpnStack

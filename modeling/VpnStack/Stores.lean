import VpnStack.Protocols
import VpnStack.Lib.PyJson

/-!
# users.json and state.json

The two files that commands read and write whole: `load` and `save` of `users_store.py` and of `state.py`. Python checks no types, so
what is loaded has whatever the file had under the name of a field.
-/

namespace VpnStack

namespace Stores

open PyJson (Str Value Failure)

/-! ## What both read -/

/-- The interpreter that runs the commands: its scanner goes deeper than either file is nested. -/
structure Interpreter extends PyJson.Scanner where
  deep : 3 ≤ nesting

/-- `json.loads(path.read_text())`. What is not UTF-8 is a `UnicodeDecodeError`, which is caught where a `JSONDecodeError` is. The line
ends that `read_text` translates are white space either way, and in no string. -/
def readJson (py : Interpreter) (file : Bytes) : Except Failure Value :=
  match Text.decode file with
  | none => .error .decode
  | some text => PyJson.loads py.toScanner text

/-- `json.dumps(payload, indent=2) + "\n"`, as the bytes of the file. -/
def writeJson (payload : Value) : Bytes := Text.encode (PyJson.dumps payload ++ ['\n'])

/-- A value that is an `int` for Python, where `true` is one. -/
def asInt : Value → Option Int
  | .int n => some n
  | .bool b => some (if b then 1 else 0)
  | _ => none

/-- `data.get("schema_version", SCHEMA_VERSION)` -/
def schemaVersion (schema : Nat) (data : Value) : Value := (data.get "schema_version").getD (.int schema)

/-- `isinstance(version, int) and version <= SCHEMA_VERSION` -/
def schemaOk (schema : Nat) (data : Value) : Bool :=
  match asInt (schemaVersion schema data) with
  | none => false
  | some version => decide (version ≤ schema)

/-- The names of fields, as the keys they are in a file. -/
def keys (fields : List String) : List Str := fields.map fun field => PyJson.ofText field.toList

/-! ## `users_store.py` -/

namespace UsersStore

def schema : Nat := 2

/-- A `User`, whose fields have the types they are declared with. -/
structure User where
  name : Str
  vlessUuid : Str
  hysteria2Password : Str
  l2tpPassword : Str
  ikev2Provisioned : Bool
  enabled : Bool
  createdAt : Str
  dnsttPassword : Str

/-- A `User` as it is made of a record, with what the record has. -/
structure Record where
  name : Value
  vlessUuid : Value
  hysteria2Password : Value
  l2tpPassword : Value
  ikev2Provisioned : Value
  enabled : Value
  createdAt : Value
  dnsttPassword : Value

/-- The record of a user. -/
def Record.ofUser (u : User) : Record where
  name := .str u.name
  vlessUuid := .str u.vlessUuid
  hysteria2Password := .str u.hysteria2Password
  l2tpPassword := .str u.l2tpPassword
  ikev2Provisioned := .bool u.ikev2Provisioned
  enabled := .bool u.enabled
  createdAt := .str u.createdAt
  dnsttPassword := .str u.dnsttPassword

/-- `asdict(u)` -/
def Record.toJson (r : Record) : Value :=
  .obj [("name", r.name), ("vless_uuid", r.vlessUuid), ("hysteria2_password", r.hysteria2Password), ("l2tp_password", r.l2tpPassword),
    ("ikev2_provisioned", r.ikev2Provisioned), ("enabled", r.enabled), ("created_at", r.createdAt), ("dnstt_password", r.dnsttPassword)]

/-- The names of the fields. -/
def known : List String :=
  ["name", "vless_uuid", "hysteria2_password", "l2tp_password", "ikev2_provisioned", "enabled", "created_at", "dnstt_password"]

/-- `_REQUIRED_FIELDS` -/
def requiredFields : List String :=
  ["name", "vless_uuid", "hysteria2_password", "l2tp_password", "ikev2_provisioned", "enabled", "created_at"]

/-- `UsersError`. The sentence of an error is told by what it is made of. -/
inductive UsersError where
  | unreadable
  | noUsers
  | newer (version : Value)
  | noObject (entry : Value)
  | unknown (name : Option Value) (fields : List Str)
  | missing (name : Option Value) (field : String)

/-- What `load` raises. -/
inductive Error where
  | users (e : UsersError)
  /-- An error of `json.loads` that is not caught. -/
  | escaped (failure : Failure)

/-- `sorted(set(u) - known)` -/
def unknownFields (members : List (Str × Value)) : List Str :=
  ((members.map (·.1)).filter fun key => key ∉ keys known).insertionSort fun a b => a.map Fin.val ≤ b.map Fin.val

/-- A record with the defaults of `setdefault` in it. -/
def withDefaults (members : List (Str × Value)) (field : String) : Option Value :=
  ((Value.obj members).get field).or
    (if field = "ikev2_provisioned" then some (.bool false)
     else if field = "enabled" then some (.bool true)
     else if field = "dnstt_password" then some (.str [])
     else none)

/-- `User(**u)` -/
def recordOf (members : List (Str × Value)) : Record :=
  let field (key : String) := (withDefaults members key).getD .null
  { name := field "name", vlessUuid := field "vless_uuid", hysteria2Password := field "hysteria2_password",
    l2tpPassword := field "l2tp_password", ikev2Provisioned := field "ikev2_provisioned", enabled := field "enabled",
    createdAt := field "created_at", dnsttPassword := field "dnstt_password" }

/-- One turn of the loop of `load`. -/
def readUser : Value → Except Error Record
  | .obj members =>
    if unknownFields members ≠ [] then .error (.users (.unknown ((Value.obj members).get "name") (unknownFields members)))
    else
      match requiredFields.find? fun field => (withDefaults members field).isNone with
      | some field => .error (.users (.missing ((Value.obj members).get "name") field))
      | none => .ok (recordOf members)
  | entry => .error (.users (.noObject entry))

/-- `load` behind `json.loads`. -/
def loadData (data : Value) : Except Error (List Record) :=
  match data.get "users" with
  | some (.arr users) =>
    if schemaOk schema data then users.mapM readUser else .error (.users (.newer (schemaVersion schema data)))
  | _ => .error (.users .noUsers)

/-- `load` -/
def load (py : Interpreter) : Option Bytes → Except Error (List Record)
  | none => .ok []
  | some file =>
    match readJson py file with
    | .ok data => loadData data
    | .error .decode => .error (.users .unreadable)
    | .error failure => .error (.escaped failure)

/-- What `save` writes. -/
def payload (users : List Record) : Value :=
  .obj [("schema_version", .int schema), ("users", .arr (users.map Record.toJson))]

/-- The file that `save` leaves. -/
def save (users : List Record) : Bytes := writeJson (payload users)

end UsersStore

/-! ## `state.py` -/

namespace StateStore

def schema : Nat := 1

/-- A `State`, whose fields have the types they are declared with. -/
structure State where
  enabled : List Str
  revokePending : List Str
  lastApplied : List Str
  convergePending : Bool

/-- `default` -/
def State.default (cases : Python.CaseMap) : State :=
  let state := VpnStack.State.default cases
  { enabled := keys state.enabled, revokePending := state.revokePending.map PyJson.ofText, lastApplied := keys state.lastApplied,
    convergePending := state.convergePending }

/-- A `State` as it is made of the file. -/
structure Record where
  enabled : Value
  revokePending : Value
  lastApplied : Value
  convergePending : Value

def strings (names : List Str) : Value := .arr (names.map .str)

/-- The record of a state. -/
def Record.ofState (s : State) : Record where
  enabled := strings s.enabled
  revokePending := strings s.revokePending
  lastApplied := strings s.lastApplied
  convergePending := .bool s.convergePending

/-- `StateError`. The sentence of an error is told by what it is made of. -/
inductive StateError where
  | unreadable
  | noObject
  | newer (version : Value)

/-- What `load` raises. -/
inductive Error where
  | state (e : StateError)
  /-- An error of `json.loads` that is not caught. -/
  | escaped (failure : Failure)

/-- `State(…)`, each field with its default where the file has none. -/
def recordOf (data : Value) : Record where
  enabled := (data.get "enabled").getD (.arr [])
  revokePending := (data.get "revoke_pending").getD (.arr [])
  lastApplied := (data.get "last_applied").getD (.arr [])
  convergePending := (data.get "converge_pending").getD (.bool false)

/-- `load_or_default` behind `json.loads`. -/
def loadData : Value → Except Error Record
  | .obj members =>
    if schemaOk schema (.obj members) then .ok (recordOf (.obj members))
    else .error (.state (.newer (schemaVersion schema (.obj members))))
  | _ => .error (.state .noObject)

/-- `load_or_default`: the state, and whether it is the default one. -/
def loadOrDefault (cases : Python.CaseMap) (py : Interpreter) : Option Bytes → Except Error (Record × Bool)
  | none => .ok (.ofState (State.default cases), true)
  | some file =>
    match readJson py file with
    | .ok data => (loadData data).map (·, false)
    | .error .decode => .error (.state .unreadable)
    | .error failure => .error (.escaped failure)

/-- `load` -/
def load (cases : Python.CaseMap) (py : Interpreter) (file : Option Bytes) : Except Error Record :=
  (loadOrDefault cases py file).map (·.1)

/-- What `save` writes. -/
def payload (s : Record) : Value :=
  .obj [("schema_version", .int schema), ("enabled", s.enabled), ("revoke_pending", s.revokePending),
    ("last_applied", s.lastApplied), ("converge_pending", s.convergePending)]

/-- The file that `save` leaves. -/
def save (s : Record) : Bytes := writeJson (payload s)

end StateStore

end Stores

end VpnStack

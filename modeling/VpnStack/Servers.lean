import VpnStack.Firewall
import VpnStack.Lib.DartJson
import VpnStack.Lib.Optimistic

/-!
# The servers the app knows

`ServerProfile` of `ui/ports.dart`, `SecureServerStore` of `ui/server_store.dart` and `ServersModel` of `ui/models.dart`. The
list is stored whole, as one text under one key. An operation changes the list in memory, saves it, and puts back the list it
found when the save fails; what the store cannot read it refuses, and the model keeps the list it had.
-/

namespace VpnStack

open Firewall (HostKey)

namespace Servers

/-! ## A record -/

/-- A `DateTime`, which the app carries and does no arithmetic on. -/
structure DateTime where
  microsecondsSinceEpoch : Int
  isUtc : Bool
  deriving DecidableEq, Repr

/-- How dates are written and read, which is left open. -/
structure Dates where
  toIso8601String : DateTime → Text
  tryParse : Text → Option DateTime

structure ServerProfile where
  id : Text
  label : Text
  host : Text
  sshUser : Text := "root"
  sshPort : Int := 22
  provisionedAt : Option DateTime := none
  hostKey : Option HostKey := none
  deriving DecidableEq, Repr

/-- What `load` throws: a `FormatException`, the one of `jsonDecode`, a failed cast or null check, or what the platform throws. -/
inductive LoadError where
  | format (message : Text)
  | malformed
  | type
  | storage
  deriving DecidableEq, Repr

abbrev Loaded (α : Type) := Except LoadError α

/-- `json[key]`. -/
def member (json : Json) (key : String) : Json := (json.get key).getD .null

/-- `as String?` -/
def asText : Json → Loaded (Option Text)
  | .null => .ok none
  | .str t => .ok (some t)
  | _ => .error .type

/-- `! as String` -/
def text : Json → Loaded Text
  | .str t => .ok t
  | _ => .error .type

/-- `as int?` -/
def asInt : Json → Loaded (Option Int)
  | .null => .ok none
  | v =>
    match Dart.asInt v with
    | some n => .ok (some n)
    | none => .error .type

/-- `SshHostKey.fromJson`. -/
def hostKeyFromJson (json : Json) : Option HostKey :=
  match member json "algorithm", member json "blob", member json "fingerprint" with
  | .str algorithm, .str blob, .str fingerprint =>
    if algorithm.isEmpty || blob.isEmpty || fingerprint.isEmpty then none
    else some ⟨.ofList algorithm, .ofList blob, .ofList fingerprint⟩
  | _, _, _ => none

/-- `_readHostKey`: no pin is no pin, and a damaged one is refused. -/
def readHostKey (stored : Json) (id : Text) : Loaded (Option HostKey) :=
  match stored with
  | .null => .ok none
  | .obj members =>
    match hostKeyFromJson (.obj members) with
    | some key => .ok (some key)
    | none => .error (.format ("the saved server \"".toList ++ id ++
        "\" has a damaged pinned host key: a stored host key needs a non-empty algorithm, blob and fingerprint".toList))
  | _ => .error (.format ("the saved server \"".toList ++ id ++ "\" has a host_key that is not an object".toList))

/-- `ServerProfile.fromJson`. -/
def ServerProfile.fromJson (dates : Dates) (json : Json) : Loaded ServerProfile := do
  let at' ← asText (member json "provisioned_at")
  let id ← text (member json "id")
  let label ← text (member json "label")
  let host ← text (member json "host")
  let sshUser ← asText (member json "ssh_user")
  let sshPort ← asInt (member json "ssh_port")
  let hostKey ← readHostKey (member json "host_key") id
  return { id, label, host, sshUser := sshUser.getD "root".toList, sshPort := sshPort.getD 22,
           provisionedAt := at'.bind dates.tryParse, hostKey }

def hostKeyToJson (key : HostKey) : Json :=
  .obj [("algorithm".toList, key.algorithm), ("blob".toList, key.blob), ("fingerprint".toList, key.fingerprint)]

/-- `toJson`. -/
def ServerProfile.toJson (dates : Dates) (s : ServerProfile) : Json :=
  .obj [("id".toList, .str s.id), ("label".toList, .str s.label), ("host".toList, .str s.host),
    ("ssh_user".toList, .str s.sshUser), ("ssh_port".toList, .ofInt s.sshPort),
    ("provisioned_at".toList, (s.provisionedAt.map fun d => Json.str (dates.toIso8601String d)).getD .null),
    ("host_key".toList, (s.hostKey.map hostKeyToJson).getD .null)]

/-! ## `SecureServerStore` -/

/-- `_schema`. -/
def schema : Int := 2

/-- `as List<Object?>?` -/
def asRows : Json → Loaded (List Json)
  | .null => .ok []
  | .arr rows => .ok rows
  | _ => .error .type

/-- `e! as Map<String, Object?>`, and the record in it. -/
def readRow (dates : Dates) : Json → Loaded ServerProfile
  | .obj members => ServerProfile.fromJson dates (.obj members)
  | _ => .error .type

/-- An integer in a message. -/
def printed (n : Int) : Text := (toString n).toList

/-- The list in a decoded blob, unless it is newer than this build of the app. -/
def readList (dates : Dates) : Json → Loaded (List ServerProfile)
  | .obj members => do
    let found ← asInt (member (.obj members) "schema")
    if schema < found.getD 0 then
      .error (.format ("the saved server list is schema ".toList ++ printed (found.getD 0) ++ " and this build understands ".toList ++
        printed schema ++ (". The list was written by a newer version of the app -- this code is older than the data, and a " ++
        "record it cannot read whole is a record it must not write back: a pinned host key or a credential dropped on the way " ++
        "through is one this build would never know it lost. Update the app. Nothing was changed.").toList))
    else do
      let rows ← asRows (member (.obj members) "servers")
      rows.mapM (readRow dates)
  | _ => .error (.format ("the saved server list is not an object; it was written by something other than this app and is not " ++
      "being guessed at").toList)

/-- `load`. -/
def load (dates : Dates) : Option Text → Loaded (List ServerProfile)
  | none => .ok []
  | some raw =>
    if Dart.trim raw = [] then .ok []
    else
      match Json.loads raw with
      | some decoded => readList dates decoded
      | none => .error .malformed

/-- The text `save` writes. -/
def blobOf (dates : Dates) (servers : List ServerProfile) : Text :=
  Dart.jsonEncode (.obj [("schema".toList, .ofInt schema), ("servers".toList, .arr (servers.map (·.toJson dates)))])

/-! ## `ServersModel` -/

/-- The operations that change the list. -/
inductive Op where
  | add (server : ServerProfile)
  | remove (id : Text)
  | markProvisioned (id : Text) (now : DateTime)
  | rememberHostKey (id : Text) (key : HostKey)
  | forgetHostKey (id : Text)
  deriving DecidableEq, Repr

/-- The record of one server changed. -/
def updated (id : Text) (f : ServerProfile → ServerProfile) (servers : List ServerProfile) : List ServerProfile :=
  servers.map fun s => if s.id = id then f s else s

/-- The list `_mutate` is called with. -/
def Op.next : Op → List ServerProfile → List ServerProfile
  | .add server, servers => servers ++ [server]
  | .remove id, servers => servers.filter fun s => s.id ≠ id
  | .markProvisioned id now, servers => updated id (fun s => { s with provisionedAt := some now }) servers
  | .rememberHostKey id key, servers => updated id (fun s => { s with hostKey := some key }) servers
  | .forgetHostKey id, servers => updated id (fun s => { s with hostKey := none }) servers

/-- `byId`. -/
def byId (id : Text) (servers : List ServerProfile) : Option ServerProfile := servers.find? fun s => s.id = id

/-- Whether the operation calls `_mutate`: a key is not remembered for a server that is not there. -/
def Op.saves : Op → List ServerProfile → Bool
  | .rememberHostKey id _, servers => (byId id servers).isSome
  | _, _ => true

/-- What `_error` is about. -/
inductive Failure where
  | load (e : LoadError)
  | save
  deriving DecidableEq, Repr

/-- The model and its store. `cell` has the list in memory and the saves that are under way or over, `loads` what each load
that is under way has read, if it has. -/
structure State where
  cell : Optimistic.State Op (List ServerProfile)
  loading : Bool := false
  error : Option Failure := none
  blob : Option Text
  loads : List (Option (Loaded (Option Text))) := []
  deriving DecidableEq, Repr

/-- `servers`. -/
def State.servers (s : State) : List ServerProfile := s.cell.memory

inductive Action where
  /-- An operation is called. -/
  | call (op : Op)
  /-- The oldest save that is under way reaches the store, which takes it or throws. -/
  | write (ok : Bool)
  /-- The answer to a save comes back. -/
  | answer (i : Nat)
  /-- `load` is called. -/
  | load
  /-- A load reads the store, which answers or throws. -/
  | read (i : Nat) (ok : Bool)
  /-- What a load has read comes back. -/
  | loaded (i : Nat)
  deriving DecidableEq, Repr

/-- What `load` makes of the answer of the store. -/
def State.finishLoad (dates : Dates) (s : State) (raw : Loaded (Option Text)) : State :=
  match raw.bind (Servers.load dates) with
  | .ok servers => { s with cell := { s.cell with memory := servers }, loading := false }
  | .error e => { s with error := some (.load e), loading := false }

/-- Whether an answer says that a save failed. -/
def State.failedSave (s : State) (i : Nat) : Bool := (s.cell.sent[i]?.map (fun c => !c.ok)).getD false

def step (dates : Dates) (s : State) : Action → Option State
  | .call op =>
    if op.saves s.servers then
      (Optimistic.step Op.next s.cell (.start op)).map fun cell => { s with cell, error := none }
    else some s
  | .write ok =>
    (Optimistic.step Op.next s.cell (.write ok)).map fun cell =>
      { s with cell, blob := if ok then s.cell.queue.head?.map fun save => blobOf dates save.next else s.blob }
  | .answer i =>
    (Optimistic.step Op.next s.cell (.answer i)).map fun cell =>
      { s with cell, error := if s.failedSave i then some .save else s.error }
  | .load => some { s with loading := true, error := none, loads := s.loads ++ [none] }
  | .read i ok =>
    match s.loads[i]? with
    | some none => some { s with loads := s.loads.set i (some (if ok then .ok s.blob else .error .storage)) }
    | _ => none
  | .loaded i =>
    match s.loads[i]? with
    | some (some raw) => some (State.finishLoad dates { s with loads := s.loads.eraseIdx i } raw)
    | _ => none

end Servers

end VpnStack

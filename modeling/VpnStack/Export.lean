import VpnStack.Share
import VpnStack.Dotenv
import VpnStack.Payload
import VpnStack.Commands

/-!
# `vpnctl user export`

`cmd_user_export` with what it reads: the users and the state, the settings, the snapshot of the keyring, and the bundles that are
copied out of the IKEv2 container. It writes nothing. The `protocols` object of its payload has the protocols in the order in
which state.json lists them.
-/

namespace VpnStack

open Python
open Control (JsonMap ofTexts)

/-! ## The bundles of the container -/

namespace Ikev2Ctl

/-- `_CLIENT_FILES`: the suffix in the container, that of the download, and for which platform it is. -/
def clientFiles : List (String × String × String) :=
  [(".p12", "-ikev2.p12", "Windows/Linux"), (".sswan", "-ikev2.sswan", "Android, strongSwan app"),
    (".mobileconfig", "-ikev2.mobileconfig", "iOS/macOS")]

/-- `bundle_label`. -/
def bundleLabel (filename : Text) : String :=
  match clientFiles.find? fun f => f.2.1.toList <:+ filename with
  | some f => f.2.2
  | none => "client profile"

/-- `export_client`, when `ikev2.sh --exportclient` said whether it worked, and what `cat` then reads of each file. -/
def exportClient (exported : Bool) (cat : Text → Option Bytes) (name : Text) : Option (List (Text × Bytes)) :=
  let read := fun f : String × String × String =>
    match cat (name ++ f.1.toList) with
    | some (b :: bs) => some (name ++ f.2.1.toList, b :: bs)
    | _ => none
  let bundles := clientFiles.filterMap read
  if exported ∧ bundles ≠ [] then some bundles else none

end Ikev2Ctl

/-! ## `export.py` -/

namespace Export

/-- `resolve_host`. -/
def resolveHost (settings : Text) : Option Text → Except Exc Text
  | some (c :: cs) => .ok (c :: cs)
  | _ =>
    match Dotenv.get settings hostVar with
    | some (c :: cs) => .ok (c :: cs)
    | _ => .error (die ["No server host known. Pass --host <ip-or-domain>, or set VPN_SERVER_HOST=... in ", envFile, "."])

/-! ## `cmd_user_export` -/

/-- What is outside the keyring and the state: the curve and the certificates, the settings, the picture of a URI, and the IKEv2
container. -/
structure Edge where
  x25519 : X25519
  x509 : X509
  settings : Text
  pngBytes : Text → Bytes
  exported : Text → Bool
  cat : Text → Option Bytes

/-- What is printed for one item. -/
def itemJson (edge : Edge) (name : String) (item : ShareItem) : Except Exc JsonMap :=
  let label := ("label".toList, Json.str item.label.toList)
  match item.uri, item.fields, item.filename with
  | some (c :: cs), _, _ =>
    .ok [label, ("uri".toList, .str (c :: cs)), ("png_b64".toList, .str (Base64.encode (edge.pngBytes (c :: cs))))]
  | _, f :: fs, _ => .ok [label, ("fields".toList, .arr ((f :: fs).map fun field => ofTexts [field.1, field.2]))]
  | _, [], some (c :: cs) =>
    .ok [("filename".toList, .str (c :: cs)), label, ("b64".toList, .str (Base64.encode (item.content.getD [])))]
  | _, _, _ => .error (.renderError ["[", name, "] share item ", .repr item.label.toList,
      " is in no shape this command knows how to emit"])

/-- What is printed for one bundle of the container. -/
def bundleJson (bundle : Text × Bytes) : JsonMap :=
  [("filename".toList, .str bundle.1), ("label".toList, .str (Ikev2Ctl.bundleLabel bundle.1).toList),
    ("b64".toList, .str (Base64.encode bundle.2))]

/-- The payload as it grows, with what is left out of it. -/
structure Collected where
  payload : List (String × List JsonMap) := []
  failures : List String := []
  notes : List Text := []

/-- How a protocol is shared: by its `share`, or, without one, by what its container exports. -/
def sharing (edge : Edge) (proto : Protocol) : Option (Secrets → User → Text → Except Exc (List ShareItem)) :=
  if proto.name = "vless-reality" then some (VlessReality.share edge.x25519)
  else if proto.name = "hysteria2" then some (Hysteria2.share edge.x509)
  else if proto.name = "dnstt" then some Dnstt.share
  else none

section Loop

variable (edge : Edge) (secrets : Secrets) (user : User) (host : Text) (c : Collected) (name : String)

/-- A protocol whose bundles are copied out of its container. -/
def fromContainer : Collected :=
  if user.ikev2Provisioned then
    match Ikev2Ctl.exportClient (edge.exported user.name) edge.cat user.name with
    | some bundles => { c with payload := Dict.set c.payload name (bundles.map bundleJson) }
    | none => { c with failures := c.failures ++ [name], notes := c.notes ++ [name.toList ++ ": export failed".toList] }
  else { c with notes := c.notes ++ [name.toList ++ ": no certificate provisioned".toList] }

/-- A protocol with items of its own. -/
def fromItems (share : Secrets → User → Text → Except Exc (List ShareItem)) : Except Exc Collected := do
  let items ← share secrets user host
  let emitted ← items.mapM (itemJson edge name)
  return { c with payload := Dict.set c.payload name emitted }

/-- One turn of the loop. -/
def collect (py : CaseMap) : Except Exc Collected := do
  let proto ← getProtocol py name
  match sharing edge proto with
  | some share => fromItems edge secrets user host c name share
  | none => return fromContainer edge user c name

end Loop

/-- What the command prints. -/
structure Exported where
  user : Text
  host : Text
  protocols : List (String × List JsonMap)
  failed : List String

/-- Nothing was collected. -/
def nothingToExport (user : User) (notes : List Text) : Exc :=
  die ["nothing to export for ", .repr user.name, ": ",
    .str (if notes = [] then "no protocol is enabled".toList else "; ".toList.intercalate notes)]

/-- `cmd_user_export`. -/
def userExport (py : CaseMap) (edge : Edge) (users : List User) (st : State) (secrets : Secrets) (name : Text) (protocol : String)
    (explicitHost : Option Text) : Except Exc Exported :=
  match Users.find py users name with
  | none => .error (die ["No such user: ", .repr name])
  | some user => do
    let names := if protocol = "all" then st.enabled else [protocol]
    let host ← resolveHost edge.settings explicitHost
    let c ← names.foldlM (fun c name => collect edge secrets user host c name py) {}
    Except.raiseIf (∀ entry ∈ c.payload, entry.2 = []) (nothingToExport user c.notes)
    return ⟨user.name, host, c.payload, c.failures⟩

/-- What is handed to `emit`. -/
def Exported.data (e : Exported) : JsonMap :=
  [("user".toList, .str e.user), ("host".toList, .str e.host),
    ("protocols".toList, .obj (e.protocols.map fun entry => (entry.1.toList, .arr (entry.2.map .obj)))),
    ("failed".toList, ofTexts (e.failed.map String.toList))]

/-- The stdout of the command. -/
def Exported.stdout (e : Exported) : Text := Payload.emit (e.failed = []) e.data

/-- The snapshot of a server's keyring and zone. -/
def snapshotOf (w : World) : Secrets :=
  if w.zone = [] then ⟨w.keyring⟩ else ⟨fun name => if name = Dnstt.zoneKey then some (Text.encode w.zone) else w.keyring name⟩

/-- The command on a server. -/
def exportOn (py : CaseMap) (edge : Edge) (w : World) (name : Text) (protocol : String) (explicitHost : Option Text) :
    Except Exc Exported :=
  userExport py edge w.users (w.state.getD (State.default py)) (snapshotOf w) name protocol explicitHost

end Export

end VpnStack

import VpnStack.Protocols
import VpnStack.Bootstrap
import VpnStack.Lib.Percent

/-!
# Share links

The `share` functions of the protocols: what a person is handed for one. For two of them it is one URI, in which the name and the
SPKI pin are quoted and the rest is put together as it is; for dnstt it is settings for a form. IKEv2's files come out of its
container.
-/

namespace VpnStack

open Python

/-- An item of a share bundle: a file, a URI, or settings for a form. -/
structure ShareItem where
  label : String
  filename : Option Text := none
  uri : Option Text := none
  content : Option Bytes := none
  fields : List (Text × Text) := []
  deriving DecidableEq, Repr

/-- What `cryptography` and `hashlib` make of a certificate: the SHA-256 of the whole and that of its public key. Neither is there
for what is no certificate. -/
structure X509 where
  fingerprint : Bytes → Option Bytes
  spkiSha256 : Bytes → Option Bytes

namespace VlessReality

/-- The public half, or, for a keyring older than the file, what it is derived to be. -/
def publicKey (x : X25519) (secrets : Secrets) : Except Exc Text :=
  if secrets.has "reality.pub" then secrets.text "reality.pub"
  else do
    let key ← secrets.text "reality.key"
    RealityKey.derivePublicKey x key

def share (x : X25519) (secrets : Secrets) (user : User) (host : Text) : Except Exc (List ShareItem) := do
  let pbk ← publicKey x secrets
  let shortId ← secrets.text "reality.short_id"
  let uri : Text := "vless://" ++ user.vlessUuid ++ "@" ++ host ++ ":" ++ toString port ++
    ("?encryption=none&flow=xtls-rprx-vision&security=reality" ++ ("&sni=" ++ masquerade) ++ "&fp=chrome&pbk=") ++ pbk ++
    "&sid=" ++ shortId ++ "&type=tcp&headerType=none" ++ "#" ++ Percent.quote user.name
  return [{ label := "VLESS + REALITY", uri := some uri }]

end VlessReality

namespace Hysteria2

/-- `_fingerprint`. -/
def fingerprint (x : X509) (certPem : Bytes) : Except Exc Text :=
  match x.fingerprint certPem with
  | none => .error .valueError
  | some digest => .ok ([':'].intercalate (digest.map fun b => Hex.encode Hex.upper [b]))

/-- `_spki_sha256`. -/
def spkiSha256 (x : X509) (certPem : Bytes) : Except Exc Text :=
  match x.spkiSha256 certPem with
  | none => .error .valueError
  | some digest => .ok (Base64.encode digest)

def share (x : X509) (secrets : Secrets) (user : User) (host : Text) : Except Exc (List ShareItem) := do
  let obfs ← secrets.text "hysteria2.obfs"
  let crt ← secrets.raw "hysteria2.crt"
  let pin ← fingerprint x crt
  let spki ← spkiSha256 x crt
  let uri : Text := "hysteria2://" ++ user.hysteria2Password ++ "@" ++ host ++ ":" ++ toString port ++
    "?obfs=salamander&obfs-password=" ++ obfs ++ ("&sni=" ++ masquerade ++ "&pinSHA256=") ++ pin ++
    "&spki=" ++ Percent.quote spki ++ "#" ++ Percent.quote user.name
  return [{ label := "Hysteria2", uri := some uri }]

end Hysteria2

namespace Ikev2

/-- The bundles are copied out of the container. -/
def share (_ : Secrets) (_ : User) (_ : Text) : Except Exc (List ShareItem) := .ok []

end Ikev2

namespace Dnstt

/-- The public key, which is not there before it was made. -/
def publicKey (secrets : Secrets) : Except Exc Text :=
  if secrets.has "dnstt.server.pub" then secrets.text "dnstt.server.pub" else .ok "<not generated>".toList

/-- The two forms: for a phone, and for a laptop. -/
def cards (zone pub : Text) (user : User) : List ShareItem :=
  let password := if user.dnsttPassword = [] then "<none issued -- see dnstt/SETUP.md>".toList else user.dnsttPassword
  let phone : List (Text × Text) := [("Nameserver / domain", zone), ("Public key", pub),
    ("DNS resolver", "the blocked network's OWN resolver, :53, plain UDP"), ("SSH username", user.name), ("SSH password", password)]
  let laptop : List (Text × Text) := [
    ("1. open the tunnel", "dnstt-client -udp <resolver>:53 -pubkey " ++ pub ++ (" " : Text) ++ zone ++ (" 127.0.0.1:7000" : Text)),
    ("2. SOCKS through it", "ssh -N -D 1080 -p 7000 " ++ user.name ++ ("@127.0.0.1" : Text)),
    ("then", "point the browser at socks5://127.0.0.1:1080")]
  [{ label := "dnstt — phone (HTTP Injector / AnyBridge, mode DNSTT → SSH)", fields := phone },
    { label := "dnstt — laptop (two commands)", fields := laptop }]

def share (secrets : Secrets) (user : User) (_ : Text) : Except Exc (List ShareItem) := do
  let zone ← zone secrets
  Except.raiseIf (zone = []) (.renderError noZone)
  let pub ← publicKey secrets
  return cards zone pub user

end Dnstt

end VpnStack

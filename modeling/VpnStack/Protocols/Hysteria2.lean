import VpnStack.Protocols.Basic
import VpnStack.Lib.Json

/-!
# Hysteria2

`protocols/hysteria2.py`: an inbound of sing-box with its certificate beside it. A user is let in by their password.
-/

namespace VpnStack

open Python

namespace Hysteria2

def port : Nat := 20443

def masquerade : String := "bing.com"

def tag : String := "hysteria2-in"

/-- The members of the inbound, in the order they are written. -/
def inbound (obfs : Text) (users : List User) : Json :=
  .obj [("type", "hysteria2"), ("tag", tag), ("listen", "::"), ("listen_port", .num port), ("up_mbps", .num 100),
    ("down_mbps", .num 100), ("ignore_client_bandwidth", .bool false),
    ("obfs", .obj [("type", "salamander"), ("password", .str obfs)]),
    ("users", .arr ((enabledUsers users).map fun u =>
      .obj [("name", .str u.name), ("password", .str u.hysteria2Password)])),
    ("tls", .obj [("enabled", .bool true), ("server_name", masquerade),
      ("certificate_path", "/etc/sing-box/certs/certificate.pem"), ("key_path", "/etc/sing-box/certs/private.key")]),
    ("masquerade", "https://www." ++ masquerade)]

def render (secrets : Secrets) (users : List User) : Except Exc Tree := do
  let obfs ← secrets.text "hysteria2.obfs"
  let body := Json.dumps (.obj [("inbounds", .arr [inbound obfs users])]) ++ ['\n']
  let crt ← secrets.raw "hysteria2.crt"
  let key ← secrets.raw "hysteria2.key"
  return [("sing-box/20_hysteria2.json", Text.encode body), ("sing-box/certs/certificate.pem", crt),
    ("sing-box/certs/private.key", key)]

def protocol : Protocol where
  name := "hysteria2"
  kind := .singbox
  order := 20
  ports := [⟨port, .udp⟩]
  secretNames := ["hysteria2.crt", "hysteria2.key", "hysteria2.obfs"]
  defaultEnabled := true
  composeProfile := none
  composeServices := []
  render := render

/-- What `render` returned is one fragment with the inbound of the users, and the certificate with its key. -/
theorem render_eq_ok {secrets : Secrets} {users : List User} {tree : Tree} (h : render secrets users = .ok tree) :
    ∃ obfs crt key, tree = [("sing-box/20_hysteria2.json".toList,
        Text.encode (Json.dumps (.obj [("inbounds", .arr [inbound obfs users])]) ++ ['\n'])),
      ("sing-box/certs/certificate.pem".toList, crt), ("sing-box/certs/private.key".toList, key)] := by
  simp only [render, Except.bind_eq_ok, Except.pure_eq_ok] at h
  obtain ⟨obfs, -, crt, -, key, -, rfl⟩ := h
  exact ⟨obfs, crt, key, rfl⟩

end Hysteria2

end VpnStack

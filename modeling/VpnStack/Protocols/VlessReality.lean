import VpnStack.Protocols.Basic
import VpnStack.Lib.Json

/-!
# VLESS and REALITY

`protocols/vless_reality.py`: an inbound of sing-box, in a fragment of its own. A user is let in by their uuid.
-/

namespace VpnStack

open Python

namespace VlessReality

def port : Nat := 10443

/-- The host the handshake is fronted by. -/
def masquerade : String := "www.apple.com"

def tag : String := "vless-in"

/-- The members of the inbound, in the order they are written. -/
def inbound (key shortId : Text) (users : List User) : Json :=
  .obj [("type", "vless"), ("tag", tag), ("listen", "::"), ("listen_port", .num port),
    ("users", .arr ((enabledUsers users).map fun u =>
      .obj [("name", .str u.name), ("uuid", .str u.vlessUuid), ("flow", "xtls-rprx-vision")])),
    ("tls", .obj [("enabled", .bool true), ("server_name", masquerade),
      ("reality", .obj [("enabled", .bool true),
        ("handshake", .obj [("server", masquerade), ("server_port", .num 443)]),
        ("private_key", .str key),
        ("short_id", .arr [.str shortId])])])]

def render (secrets : Secrets) (users : List User) : Except Exc Tree := do
  let key ← secrets.text "reality.key"
  let shortId ← secrets.text "reality.short_id"
  let body := Json.dumps (.obj [("inbounds", .arr [inbound key shortId users])]) ++ ['\n']
  return [("sing-box/10_vless-reality.json", Text.encode body)]

def protocol : Protocol where
  name := "vless-reality"
  kind := .singbox
  order := 10
  ports := [⟨port, .tcp⟩]
  secretNames := ["reality.key", "reality.short_id"]
  defaultEnabled := true
  composeProfile := none
  composeServices := []
  render := render

/-- What `render` returned is one fragment with the inbound of the users. -/
theorem render_eq_ok {secrets : Secrets} {users : List User} {tree : Tree} (h : render secrets users = .ok tree) :
    ∃ key shortId, tree = [("sing-box/10_vless-reality.json".toList,
      Text.encode (Json.dumps (.obj [("inbounds", .arr [inbound key shortId users])]) ++ ['\n']))] := by
  simp only [render, Except.bind_eq_ok, Except.pure_eq_ok] at h
  obtain ⟨key, -, shortId, -, rfl⟩ := h
  exact ⟨key, shortId, rfl⟩

end VlessReality

end VpnStack

import VpnStack.Protocols.Basic

/-!
# The DNS tunnel

`protocols/dnstt.py`: the key of the tunnel, and the login list of the sshd behind it, one `name:password` a line for every
enabled user who has a dnstt password. The zone is deployment config that compose reads itself; a missing one is only said
out loud.
-/

namespace VpnStack

open Python

namespace Dnstt

/-- `ZONE_KEY`, under which `render.snapshot` puts the delegated zone. -/
def zoneKey : String := "dnstt.zone"

/-- `ZONE_VAR`. -/
def zoneVar : String := "VPN_DNSTT_ZONE"

/-- `NO_ZONE`. -/
def noZone : Message :=
  ["dnstt has no zone. Set ", zoneVar, "=<your delegated zone> in ", envFile, " -- compose.yml reads the same variable -- ",
    "and delegate that zone NS to this host. See dnstt/SETUP.md."]

def socksAddr : String := "127.0.0.1:7300"

def permitOpen : List String := ["any"]

/-- The port of `EXIT`, the sshd the tunnel hands its stream to. -/
def exitPort : String := "2222"

/-- The zone as the snapshot carries it. Absent and empty are the same thing. -/
def zone (secrets : Secrets) : Except Exc Text := if secrets.has zoneKey then secrets.text zoneKey else .ok []

/-- The users who get a login. -/
def issuedUsers (users : List User) : List User := users.filter fun u => u.enabled && !u.dnsttPassword.isEmpty

/-- The refusal of a name the login list, or the container, could not carry. -/
def nameError (error : Message) : Exc :=
  .renderError ([(usersJson : Piece), " names a user this cannot render into the dnstt login list. "] ++ error ++
    [(" Remove and re-add that user: `user rm` writes users.json before it applies, so the command that fixes this is " :
      Piece), "not blocked by it."])

/-- The refusal of a password that would end its line. -/
def passwordError (name : Text) : Exc :=
  .renderError [usersJson, ": the dnstt password for ", .repr name,
    " contains a newline, which would split one login line into two. Re-add the user."]

/-- The refusal of an empty list. -/
def noLogins : Exc :=
  .renderError ["dnstt is enabled but no enabled user has a dnstt login, so the rendered login list would be empty -- ",
    "dnstt-sshd exits 1 on that and compose restarts it forever, unseen, because it binds loopback only. Add or enable a ",
    "user, set dnstt_password in ", usersJson, " for one who predates the field, or turn dnstt off."]

/-- One line of the login list. -/
def login (u : User) : Text := u.name ++ ':' :: u.dnsttPassword

def render (py : CaseMap) (secrets : Secrets) (users : List User) : Except Exc Tree := do
  let _ ← zone secrets
  let issued := issuedUsers users
  issued.forM fun user => do
    Except.refuse ((Users.unrenderableName user.name).or (Users.reservedName py user.name)) nameError
    Except.raiseIf ('\n' ∈ user.dnsttPassword ∨ '\r' ∈ user.dnsttPassword) (passwordError user.name)
  let logins := Text.unlines '\n' (issued.map login)
  Except.raiseIf (logins = []) noLogins
  let env : Text := Text.unlines '\n' ["SSH_PORT=" ++ exitPort, "SOCKS_EXIT=" ++ socksAddr,
    "PERMIT_OPEN=" ++ " ".intercalate permitOpen]
  let key ← secrets.raw "dnstt.server.key"
  return [("dnstt/server.key", key), ("dnstt-sshd/logins", Text.encode logins), ("dnstt.env", Text.encode env)]

def protocol (py : CaseMap) : Protocol where
  name := "dnstt"
  kind := .compose
  order := 40
  ports := [⟨53, .udp⟩]
  secretNames := ["dnstt.server.key"]
  defaultEnabled := false
  composeProfile := some "dnstt"
  composeServices := [.dnstt, .dnsttSshd, .dnsttSocks]
  render := render py

/-- The files `render` returns: the key, the login list and the settings of the sshd. -/
theorem render_files {py : CaseMap} {secrets : Secrets} {users : List User} {tree : Tree}
    (h : render py secrets users = .ok tree) : ∃ key env, tree = [("dnstt/server.key".toList, key),
      ("dnstt-sshd/logins".toList, Text.encode (Text.unlines '\n' ((issuedUsers users).map login))), ("dnstt.env".toList, env)] := by
  simp only [render, Except.bind_eq_ok, Except.pure_eq_ok] at h
  obtain ⟨_, -, _, -, _, -, key, -, rfl⟩ := h
  exact ⟨key, _, rfl⟩

/-- Their names. -/
theorem render_names {py : CaseMap} {secrets : Secrets} {users : List User} {tree : Tree}
    (h : render py secrets users = .ok tree) :
    tree.map (·.1) = ["dnstt/server.key".toList, "dnstt-sshd/logins".toList, "dnstt.env".toList] := by
  obtain ⟨key, env, rfl⟩ := render_files h
  rfl

/-- What `render` returned is the login list of the users it issues logins to, every one of them checked. -/
theorem render_eq_ok {py : CaseMap} {secrets : Secrets} {users : List User} {tree : Tree}
    (h : render py secrets users = .ok tree) :
    tree.lookup "dnstt-sshd/logins".toList = some (Text.encode (Text.unlines '\n' ((issuedUsers users).map login))) ∧
      issuedUsers users ≠ [] ∧
      ∀ u ∈ issuedUsers users, Users.nameRe u.name = true ∧ Users.reservedName py u.name = none ∧
        '\n' ∉ u.dnsttPassword := by
  simp only [render, Except.bind_eq_ok, Except.forM_eq_ok, Except.refuse_eq_ok, Except.raiseIf_eq_ok, Except.pure_eq_ok,
    Option.or_eq_none_iff, Users.unrenderableName_eq_none] at h
  obtain ⟨_, -, ⟨⟩, hchecked, ⟨⟩, hlogins, key, -, rfl⟩ := h
  refine ⟨rfl, ?_, fun u hu => ?_⟩
  · intro hnil
    rw [hnil] at hlogins
    exact hlogins rfl
  · obtain ⟨⟨⟩, ⟨hname, hreserved⟩, hpassword⟩ := hchecked u hu
    exact ⟨hname, hreserved, fun hmem => hpassword (.inl hmem)⟩

/-- A user who is issued a login has a password. -/
theorem mem_issuedUsers {users : List User} {u : User} (h : u ∈ issuedUsers users) : u.dnsttPassword ≠ [] := by
  have hu := (List.mem_filter.mp h).2
  rw [Bool.and_eq_true, Bool.not_eq_true', List.isEmpty_eq_false_iff] at hu
  exact hu.2

end Dnstt

end VpnStack

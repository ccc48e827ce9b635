import VpnStack.Protocols.Basic

/-!
# IKEv2, L2TP and Cisco IPsec

`protocols/ikev2.py`: the environment file of the IPsec container. The L2TP users and their passwords go into it as two
lists separated by spaces, which the container pairs by position.
-/

namespace VpnStack

open Python

namespace Ikev2

/-- The refusal of a name the two lists could not carry. -/
def nameError (error : Message) : Exc :=
  .renderError ([(usersJson : Piece), " names a user this cannot render. "] ++ error ++
    [(" Remove and re-add that user: `user rm` writes users.json before it applies, so the command that fixes this is " :
      Piece), "not blocked by it."])

/-- The refusal of a password that is not one word. -/
def passwordError (name : Text) : Exc :=
  .renderError [usersJson, ": the L2TP password for ", .repr name,
    " contains whitespace (or is empty). VPN_ADDL_USERS and VPN_ADDL_PASSWORDS are two space-separated lists paired by ",
    "position, so this would hand every later user somebody else's password. Re-add the user."]

/-- The lines of `ikev2.env`. -/
def envLines (psk primaryUser primaryPassword : Text) (enabled : List User) : List Text :=
  ["VPN_IPSEC_PSK=" ++ psk,
   "VPN_USER=" ++ primaryUser,
   "VPN_PASSWORD=" ++ primaryPassword,
   "VPN_ADDL_USERS=" ++ [' '].intercalate (enabled.map (·.name)),
   "VPN_ADDL_PASSWORDS=" ++ [' '].intercalate (enabled.map (·.l2tpPassword))]

def render (secrets : Secrets) (users : List User) : Except Exc Tree := do
  let enabled := enabledUsers users
  enabled.forM fun user => Except.refuse (Users.unrenderableName user.name) nameError
  enabled.forM fun user => Except.raiseIf ((split user.l2tpPassword).length ≠ 1) (passwordError user.name)
  let psk ← secrets.text "ipsec.psk"
  let primaryUser ← secrets.text "ipsec.primary_user"
  let primaryPassword ← secrets.text "ipsec.primary_password"
  let lines := envLines psk primaryUser primaryPassword enabled
  return [("ikev2.env", Text.encode (['\n'].intercalate lines ++ ['\n']))]

def protocol : Protocol where
  name := "ikev2"
  kind := .compose
  order := 30
  ports := [⟨500, .udp⟩, ⟨4500, .udp⟩, ⟨1701, .udp⟩]
  secretNames := ["ipsec.psk", "ipsec.primary_user", "ipsec.primary_password"]
  defaultEnabled := true
  composeProfile := some "ikev2"
  composeServices := [.ikev2]
  render := render

/-- What `render` returned, and why it did. -/
theorem render_eq_ok {secrets : Secrets} {users : List User} {tree : Tree} :
    render secrets users = .ok tree ↔
      (∀ u ∈ enabledUsers users, Users.nameRe u.name = true ∧ (split u.l2tpPassword).length = 1) ∧
        ∃ psk primaryUser primaryPassword, secrets.text "ipsec.psk" = .ok psk ∧
          secrets.text "ipsec.primary_user" = .ok primaryUser ∧
          secrets.text "ipsec.primary_password" = .ok primaryPassword ∧
          tree = [("ikev2.env".toList, Text.encode
            (Text.unlines '\n' (envLines psk primaryUser primaryPassword (enabledUsers users))))] := by
  have hfile : ∀ psk primaryUser primaryPassword,
      ['\n'].intercalate (envLines psk primaryUser primaryPassword (enabledUsers users)) ++ ['\n'] =
        Text.unlines '\n' (envLines psk primaryUser primaryPassword (enabledUsers users)) := by
    intro psk primaryUser primaryPassword
    simp [envLines, List.intercalate, Text.unlines]
  simp only [render, Except.bind_eq_ok, Except.forM_eq_ok, Except.refuse_eq_ok, Except.raiseIf_eq_ok, Except.pure_eq_ok,
    Users.unrenderableName_eq_none, hfile, not_not]
  constructor
  · rintro ⟨⟨⟩, hnames, ⟨⟩, hpasswords, psk, hpsk, primaryUser, huser, primaryPassword, hpassword, rfl⟩
    exact ⟨fun u hu => ⟨hnames u hu, hpasswords u hu⟩, psk, primaryUser, primaryPassword, hpsk, huser, hpassword, rfl⟩
  · rintro ⟨hall, psk, primaryUser, primaryPassword, hpsk, huser, hpassword, rfl⟩
    exact ⟨(), fun u hu => (hall u hu).1, (), fun u hu => (hall u hu).2, psk, hpsk, primaryUser, huser, primaryPassword,
      hpassword, rfl⟩

end Ikev2

end VpnStack

import VpnStack.Ikev2Pool

/-!
# The pool of `scripts/smoke.sh`

`ikev2_pool` derives in shell the network that `pool_network` derives in Python, from the same two answers of the container. What
`sed`, `grep` and `bash` call white space is that of ASCII.
-/

namespace VpnStack

open Python Ikev2Ctl

namespace Smoke

/-- `[[:space:]]` -/
def isSpace (c : Char) : Bool := c = ' ' || (9 ≤ c.toNat && c.toNat ≤ 13)

/-- `sed -n 's/^[[:space:]]*rightaddresspool=//p' | head -1`: what stands behind the first match, none where there is none. -/
def sedLine (conf : Text) : Option Text :=
  (Text.lines '\n' conf).findSome? fun line =>
    let line := line.dropWhile isSpace
    if "rightaddresspool=".toList <+: line then some (line.drop "rightaddresspool=".toList.length) else none

/-- `[0-9]+(\.[0-9]+){n}`, from the beginning of the text. -/
def dotted : Nat → Text → Bool
  | 0, s => (s.head?.map Char.isDigit).getD false
  | n + 1, s =>
    (s.head?.map Char.isDigit).getD false && (s.dropWhile Char.isDigit).head? == some '.' &&
      dotted n (s.dropWhile Char.isDigit).tail

/-- `grep -E '^[[:space:]]*[0-9]+(\.[0-9]+){3}'` -/
def looksIpv4 (entry : Text) : Bool := dotted 3 (entry.dropWhile isSpace)

/-- `${entry//[[:space:]]/}` -/
def noSpaces (entry : Text) : Text := entry.filter fun c => !isSpace c

/-- The entry that is asked about: the first that looks like IPv4, or nothing. -/
def poolEntry (line : Text) : Text := noSpaces (((line.splitOn ',').find? looksIpv4).getD [])

/-- `covering_net`. The script has the loop of `_covering_net` as it is, behind a check that there is something. -/
def coveringNet (v6 : Ipv6) (entry : Text) : Option Text := if entry = [] then none else Ikev2Ctl.coveringNet v6 entry

/-- `valid_net`, which prints a network of either family. -/
def validNet (v6 : Ipv6) (net : Text) : Option Text :=
  if net = [] then none
  else
    (ipNetwork v6 net).map fun
      | .v4 n => n.text
      | .v6 t => t

/-- `printenv VPN_XAUTH_NET | tr -d '\r' | head -1` -/
def xauthLine (value : Text) : Text := (Text.lines '\n' (value.filter (· ≠ '\r'))).head?.getD []

/-- `ikev2_pool` behind its test of `VPN_XAUTH_NET`. -/
def xauthPool (v6 : Ipv6) (xauthNet : Option Text) (why : List Piece) : Text × List Piece :=
  let v := xauthLine (xauthNet.getD [])
  if v = [] then (ipv4NetDefault, "image default, " :: why)
  else
    match validNet v6 v with
    | some net => (net, ["VPN_XAUTH_NET"])
    | none => (ipv4NetDefault, ["image default, ", "VPN_XAUTH_NET=", .str v, " does not parse as a network"])

/-- `ikev2_pool`, where `python3` is there: the network and its provenance. -/
def ikev2Pool (v6 : Ipv6) (conf xauthNet : Option Text) : Text × List Piece :=
  let line := (sedLine (conf.getD [])).getD []
  if line = [] then xauthPool v6 xauthNet ["container unreadable"]
  else
    match coveringNet v6 (poolEntry line) with
    | some net => (net, ["conn ikev2-cp rightaddresspool"])
    | none => xauthPool v6 xauthNet ["conn ikev2-cp gave an unusable pool"]

end Smoke

end VpnStack

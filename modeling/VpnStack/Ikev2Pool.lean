import VpnStack.Lib.Ipv4
import VpnStack.Lib.Python

/-!
# The pool of `vpnctl/ikev2ctl.py`

Which network the addresses of IKEv2 clients are taken from: read from the container's `ikev2.conf`, or from its `VPN_XAUTH_NET`,
or else the image's default. IPv6 is out of scope here as it is there: of that family only what `ipaddress` accepts is told.
-/

namespace VpnStack

open Python

/-- What `ipaddress` makes of a text that is no IPv4: whether it is an IPv6 address, and the canonical text of an IPv6 network. -/
structure Ipv6 where
  address : Text → Bool
  network : Text → Option Text

/-- The reader that accepts no IPv6. -/
def Ipv6.sample : Ipv6 := ⟨fun _ => false, fun _ => none⟩

namespace Ikev2Ctl

inductive Address where
  | v4 (a : Ip4)
  | v6
  deriving DecidableEq

inductive Network where
  | v4 (n : Ip4Network)
  | v6 (text : Text)

variable (v6 : Ipv6)

/-- `ipaddress.ip_address`; none where it raises `ValueError`. -/
def ipAddress (t : Text) : Option Address :=
  match Ip4.parse t with
  | some a => some (.v4 a)
  | none => if v6.address t then some .v6 else none

/-- `ipaddress.ip_network(t, strict=False)`; none where it raises `ValueError`. -/
def ipNetwork (t : Text) : Option Network :=
  match Ip4Network.parse t with
  | some n => some (.v4 n)
  | none => (v6.network t).map .v6

/-- The parts of an entry that are not empty. -/
def bounds (entry : Text) : List Text := (((strip entry).splitOn '-').map strip).filter (· ≠ [])

/-- The two ends of an entry: of a block when it is one and has a slash, and else of its first and its last part. -/
def firstAndLast (entry : Text) : Option (Address × Address) :=
  match bounds entry with
  | [] => none
  | b :: more =>
    if more = [] ∧ '/' ∈ b then
      (ipNetwork v6 b).map fun
        | .v4 n => (.v4 n.first, .v4 n.last)
        | .v6 _ => (.v6, .v6)
    else do
      let first ← ipAddress v6 b
      let last ← ipAddress v6 ((b :: more).getLast (List.cons_ne_nil _ _))
      return (first, last)

/-- `_covering_net` before it prints, with a bound on how often the loop tests its condition. None says that the bound did not
suffice. -/
def coveringIn (fuel : Nat) (entry : Text) : Option (Option Ip4Network) :=
  match firstAndLast v6 entry with
  | some (.v4 first, .v4 last) =>
    if last.number < first.number then some none
    else (Ip4Network.widen last fuel (Ip4Network.firstSummary first last)).map some
  | _ => some none

/-- `_covering_net`. A network has at most 32 above it, so the loop's condition is tested at most 33 times. -/
def coveringNet (entry : Text) : Option Text := (coveringIn v6 33 entry).join.map Ip4Network.text

/-- What stands behind the first `rightaddresspool=`. -/
def rightaddresspool (conf : Text) : Option Text :=
  (splitlines conf).findSome? fun line =>
    if "rightaddresspool=".toList <+: strip line then some ((strip line).drop "rightaddresspool=".toList.length) else none

def ipv4NetDefault : Text := "192.168.43.0/24"

/-- The end of `pool_network`: the container's `VPN_XAUTH_NET`, or the default with the reason for it. -/
def xauthNetwork (xauthNet : Option Text) (why : List Piece) : Text × List Piece :=
  match xauthNet.filter (· ≠ []) with
  | none => (ipv4NetDefault, "image default -- " :: why)
  | some net =>
    match ipNetwork v6 (strip net) with
    | none => (ipv4NetDefault, ["image default -- ", "VPN_XAUTH_NET=", .repr (strip net), " does not parse as a network"])
    | some (.v4 block) => (block.text, ["VPN_XAUTH_NET"])
    | some (.v6 _) => (ipv4NetDefault, ["image default -- ", "VPN_XAUTH_NET=", .repr (strip net), " is not IPv4"])

/-- What `pool_network` says of a network it has from the pool. -/
def confProvenance : List Piece := ["conn ikev2-cp rightaddresspool"]

/-- `pool_network`. -/
def poolNetwork (conf xauthNet : Option Text) : Text × List Piece :=
  match conf.filter (· ≠ []) with
  | none => xauthNetwork v6 xauthNet ["container config unreadable"]
  | some conf =>
    match rightaddresspool conf with
    | none => xauthNetwork v6 xauthNet ["ikev2.conf names no rightaddresspool"]
    | some pool =>
      match (pool.splitOn ',').findSome? (coveringNet v6) with
      | some net => (net, confProvenance)
      | none => xauthNetwork v6 xauthNet ["conn ikev2-cp offers no IPv4 pool"]

end Ikev2Ctl

end VpnStack

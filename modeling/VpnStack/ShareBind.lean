import VpnStack.Basic
import VpnStack.Lib.Ipv4

/-!
# Where the page of share.py listens

`pick_bind` says which address the page is served on, and the socket which addresses of the machine answer then. The first asks
`ipaddress` whether an address is private, and `ipaddress` calls every block private that is not to be reached over the internet.
-/

namespace VpnStack

open Python

namespace ShareBind

/-- The block that `a.b.c.d/p` writes. -/
def network (a b c d : Fin 256) (p : Fin 33) : Ip4Network := Ip4Network.block (Ip4.ofOctets a b c d) p.val (Nat.le_of_lt_succ p.isLt)

/-- `IPv4Address._private_networks` -/
def privateNetworks : List Ip4Network :=
  [network 0 0 0 0 8, network 10 0 0 0 8, network 127 0 0 0 8, network 169 254 0 0 16, network 172 16 0 0 12, network 192 0 0 0 24,
    network 192 0 0 170 31, network 192 0 2 0 24, network 192 168 0 0 16, network 198 18 0 0 15, network 198 51 100 0 24,
    network 203 0 113 0 24, network 240 0 0 0 4, network 255 255 255 255 32]

/-- `IPv4Address._private_networks_exceptions` -/
def privateExceptions : List Ip4Network := [network 192 0 0 9 32, network 192 0 0 10 32]

def within (blocks : List Ip4Network) (a : Ip4) : Bool := blocks.any fun n => decide (n.Contains a)

/-- `IPv4Address.is_private` -/
def isPrivate (a : Ip4) : Bool := within privateNetworks a && !within privateExceptions a

/-- `0.0.0.0`, which a socket takes for every address of the machine. -/
def unspecified : Ip4 := Ip4.ofOctets 0 0 0 0

/-- The machine: what its name resolves to, none where that fails, the address its routing table answers a probe with, and the
addresses it has. -/
structure Host where
  resolved : Option (List Ip4)
  probe : Option Ip4
  addresses : List Ip4

/-- `local_addresses` before it filters: each address once, and that of the probe in front of the others. -/
def found (resolved : List Ip4) (probe : Option Ip4) : List Ip4 :=
  let names := resolved.foldl (fun found a => if a ∈ found then found else found ++ [a]) []
  match probe with
  | none => names
  | some a => if a ∈ names then names else a :: names

/-- `local_addresses` -/
def localAddresses (host : Host) : Except Exc (List Ip4) :=
  match host.resolved with
  | none => .error .osError
  | some resolved => .ok ((found resolved host.probe).filter isPrivate)

/-- `pick_bind`. Of a text that is no IPv4 address, the parameter says whether it is a private IPv6 one. -/
def pickBind (v6Private : Text → Option Bool) (explicit : Option Text) (host : Host) : Except Exc Text :=
  match explicit.filter (· ≠ []) with
  | some explicit =>
    match (Ip4.parse explicit).map isPrivate <|> v6Private explicit with
    | none => .error .valueError
    | some true => .ok explicit
    | some false => .error (die ["refusing to bind ", .str explicit, ": not a private address.\n",
        "This page serves live credentials and must stay on your LAN."])
  | none =>
    match localAddresses host with
    | .error e => .error e
    | .ok [] => .error (die ["no private (RFC1918) address found on this machine.\n",
        "Connect to the same network as the device, or pass --bind <addr>."])
    | .ok (a :: _) => .ok a.text

/-- The addresses at which the page is reached: the server has an IPv4 socket, which listens on the one address of the machine it
was bound to, or on all of them. -/
def Answers (host : Host) (bind : Text) (a : Ip4) : Prop :=
  ∃ b, Ip4.parse bind = some b ∧ a ∈ host.addresses ∧ (b = unspecified ∨ a = b)

/-- What the page may be reached at: RFC1918, loopback and link-local. -/
def lan : List Ip4Network :=
  [network 10 0 0 0 8, network 172 16 0 0 12, network 192 168 0 0 16, network 127 0 0 0 8, network 169 254 0 0 16]

/-- The private blocks that are no local network. -/
def reserved : List Ip4Network :=
  [network 0 0 0 0 8, network 192 0 0 0 24, network 192 0 2 0 24, network 198 18 0 0 15, network 198 51 100 0 24,
    network 203 0 113 0 24, network 240 0 0 0 4]

end ShareBind

end VpnStack

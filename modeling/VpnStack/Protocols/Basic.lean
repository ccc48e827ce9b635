import VpnStack.Users
import VpnStack.Lib.Fallible

/-!
# What a protocol is

`secrets_store.Secrets` and the `Protocol` record of the registry: the ports a protocol claims, the secrets it needs, the
containers that serve it, and how it renders its files from the keyring and the users. A renderer is pure, and may raise.
-/

namespace VpnStack

open Python

/-! ## The keyring -/

/-- A snapshot of the keyring: the contents of each secret's file. -/
structure Secrets where
  values : String → Option Bytes

namespace Secrets

def raw (secrets : Secrets) (name : String) : Except Exc Bytes :=
  match secrets.values name with
  | some b => .ok b
  | none => .error (.missingSecret ["secret ", .repr name.toList, " is missing from the keyring (expected ",
      secretsDir ++ "/" ++ name, "). Run `vpnctl bootstrap`."])

/-- The secret as text, without the white space around it. -/
def text (secrets : Secrets) (name : String) : Except Exc Text := do
  let b ← secrets.raw name
  match Text.decode b with
  | some t => .ok (strip t)
  | none => .error .unicodeDecodeError

def has (secrets : Secrets) (name : String) : Bool := (secrets.values name).isSome

end Secrets

/-! ## The registry's record -/

/-- Where a protocol runs: an inbound merged into the sing-box config, or a container of its own. -/
inductive Kind where
  | singbox
  | compose
  deriving DecidableEq, Repr

inductive Transport where
  | tcp
  | udp
  deriving DecidableEq, Repr

structure Port where
  number : Nat
  proto : Transport
  deriving DecidableEq, Repr

/-- The services of compose.yml. -/
inductive Service where
  | singBox
  | ikev2
  | dnstt
  | dnsttSshd
  | dnsttSocks
  deriving DecidableEq, Repr

/-- Rendered files, by their path in the tree, in the order they were written. -/
abbrev Tree := List (Text × Bytes)

structure Protocol where
  name : String
  kind : Kind
  order : Nat
  ports : List Port
  secretNames : List String
  defaultEnabled : Bool
  composeProfile : Option String
  composeServices : List Service
  render : Secrets → List User → Except Exc Tree

/-- The users a renderer serves. -/
def enabledUsers (users : List User) : List User := users.filter (·.enabled)

end VpnStack

import VpnStack.Basic
import VpnStack.Ikev2Pool
import VpnStack.Lib.Script

/-!
# The forwarding of `vpnctl/ikev2ctl.py`

The accept pair in the `FORWARD` chain that IKEv2 clients need, how it is ensured and how it is taken out again. Each `iptables`
is one call. `-C` answers whether the rule is in the chain; the other two may fail, and then leave the chain as it is.
-/

namespace VpnStack

open Python Interaction Ikev2Ctl

namespace Forwarding

/-- A rule, as the arguments it was made with. -/
abbrev Rule := List Text

/-- The calls on the `FORWARD` chain: `-C`, `-I` in front of the others, and `-D` of the first copy. -/
inductive Op where
  | check (rule : Rule)
  | insert (rule : Rule)
  | delete (rule : Rule)
  deriving DecidableEq, Repr

/-- Whether it succeeded, and what it wrote. -/
abbrev Ans (_ : Op) : Type := Bool × Text

abbrev Cmd (α : Type) := Script Exc Op Ans α

def call (o : Op) : Cmd (Bool × Text) := Script.op o

/-- `_forward_rules`: both directions. -/
def forwardRules (iface net : Text) : List Rule :=
  [["-i", iface, "-d", net, "-m", "conntrack", "--ctstate", "RELATED,ESTABLISHED", "-j", "ACCEPT"],
    ["-s", net, "-o", iface, "-j", "ACCEPT"]]

/-- The loop of `ensure_ipv4_forwarding`: the output of the insertion that failed, if one did. -/
def ensureRules : List Rule → Cmd (Option Text)
  | [] => return none
  | rule :: rules => do
    let check ← call (.check rule)
    if check.1 then ensureRules rules
    else
      let add ← call (.insert rule)
      if add.1 then ensureRules rules else return some (strip add.2)

/-- `ensure_ipv4_forwarding`, from what the machine and the container have answered. -/
def ensureIpv4Forwarding (v6 : Ipv6) (iface conf xauthNet : Option Text) : Cmd (Bool × List Piece) :=
  match iface with
  | none => return (false, ["could not determine default network interface"])
  | some iface => do
    let (net, provenance) := poolNetwork v6 conf xauthNet
    match ← ensureRules (forwardRules iface net) with
    | some output => return (false, [.str output])
    | none =>
      let done : List Piece := ["IKEv2 IPv4 FORWARD rules ensured on ", .str iface, " for ", .str net, " ("]
      return (true, done ++ provenance ++ [(")" : Piece)])

/-- The copies of one rule that are removed at most. -/
def removalBound : Nat := 8

/-- The inner loop of `remove_ipv4_forwarding`: how many copies were removed, or the output of the deletion that failed. -/
def removeCopies (rule : Rule) : Nat → Nat → Cmd (Except Text Nat)
  | 0, removed => return .ok removed
  | bound + 1, removed => do
    let check ← call (.check rule)
    if check.1 then
      let delete ← call (.delete rule)
      if delete.1 then removeCopies rule bound (removed + 1) else return .error (strip delete.2)
    else return .ok removed

/-- The outer loop of `remove_ipv4_forwarding`. -/
def removeRules : List Rule → Nat → Cmd (Except Text Nat)
  | [], removed => return .ok removed
  | rule :: rules, removed => do
    match ← removeCopies rule removalBound removed with
    | .error output => return .error output
    | .ok removed => removeRules rules removed

/-- `remove_ipv4_forwarding`. -/
def removeIpv4Forwarding (v6 : Ipv6) (iface conf xauthNet : Option Text) : Cmd (Bool × List Piece) :=
  match iface with
  | none => return (false, ["could not determine default network interface"])
  | some iface => do
    let (net, provenance) := poolNetwork v6 conf xauthNet
    match ← removeRules (forwardRules iface net) 0 with
    | .error output => return (false, [.str output])
    | .ok removed =>
      let done : List Piece := if removed = 0 then ["no IKEv2 IPv4 FORWARD rules to remove for ", .str net, " ("]
        else ["removed ", .str (Nat.toDigits 10 removed), " IKEv2 IPv4 FORWARD rule(s) on ", .str iface, " for ", .str net, " ("]
      return (true, done ++ provenance ++ [(")" : Piece)])

/-- What a call meets: whether it works, what it writes, and whether it is interrupted. -/
structure Choice where
  fault : Fault Exc := .none
  ok : Bool := true
  out : Text := []

/-- What `iptables` does with the chain. -/
def exec : (o : Op) → Choice → List Rule → Ans o × List Rule
  | .check rule, c, chain => ((decide (rule ∈ chain), c.out), chain)
  | .insert rule, c, chain => ((c.ok, c.out), if c.ok then rule :: chain else chain)
  | .delete rule, c, chain => ((c.ok && decide (rule ∈ chain), c.out), if c.ok then chain.erase rule else chain)

def iptables : ScriptMachine Exc Op Ans (List Rule) Choice := withFaults exec Choice.fault

end Forwarding

end VpnStack

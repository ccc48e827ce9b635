import VpnStack.Protocols
import VpnStack.Lib.Dict
import VpnStack.Lib.Script

/-!
# `vpnctl/firewall.py`

The firewall against the enabled protocols: read `ufw status` once, allow what is wanted and not there, and delete what is
tagged and not wanted. The rules vpnctl added carry its tag in their comment.
-/

namespace VpnStack

open Python Interaction

namespace Ufw

/-- `SSH_TAG`, the door this tool came in through. -/
def sshTag : Text := "ssh"

/-- `SSH_RULE`. -/
def sshRule : Text := "22/tcp"

/-- `TAG`. -/
def tag : Text := "vpn-stack"

/-! ## The lines of `ufw status` -/

/-- `^(\S+)\s+ALLOW`: the rule of a line, and what stands behind the action. -/
def allowed (line : Text) : Option (Text × Text) :=
  let rule := line.takeWhile fun c => !isSpace c
  let rest := line.dropWhile fun c => !isSpace c
  if rule = [] then none
  else ((rest.dropWhile isSpace).dropPrefix? "ALLOW".toList).map fun rest => (rule, rest)

/-- `#\s*vpn-stack:`, where the text starts: what stands behind it. -/
def afterTag : Text → Option Text
  | '#' :: rest => (rest.dropWhile isSpace).dropPrefix? (tag ++ [':'])
  | _ => none

/-- `.*#\s*vpn-stack:(\S+)`: the name behind the last tag that has one. -/
def lastTag : Text → Option Text
  | [] => none
  | c :: rest =>
    match lastTag rest with
    | some name => some name
    | none => ((afterTag (c :: rest)).map fun rest => rest.takeWhile fun c => !isSpace c).filter (!·.isEmpty)

/-- Whether `#\s*vpn-stack:` is found in the text. -/
def mentionsTag : Text → Bool
  | [] => false
  | c :: rest => (afterTag (c :: rest)).isSome || mentionsTag rest

/-- `^(\S+)\s+ALLOW\s+.*#\s*vpn-stack:(\S+)`. -/
def taggedLine (line : Text) : Option (Text × Text) :=
  match allowed line with
  | some (rule, c :: rest) => if isSpace c then (lastTag rest).map fun name => (rule, name) else none
  | _ => none

/-- `^(\S+)\s+ALLOW\s+Anywhere\s*(#.*)?$`: the rule and the comment. -/
def anywhereLine (line : Text) : Option (Text × Text) :=
  match allowed line with
  | some (rule, c :: rest) =>
    if isSpace c then
      match ((rest.dropWhile isSpace).dropPrefix? "Anywhere".toList).map (·.dropWhile isSpace) with
      | some [] => some (rule, [])
      | some ('#' :: comment) => some (rule, '#' :: comment)
      | _ => none
    else none
  | _ => none

/-- `_tagged`: `{port/proto: protocol name}`. Of the lines with one rule the last one counts. -/
def tagged (lines : List Text) : List (Text × Text) := Dict.ofPairs (lines.filterMap taggedLine)

/-- `_untagged`: the rules that are allowed from anywhere, and not by this tool. -/
def untagged (lines : List Text) : List Text :=
  lines.filterMap fun line => match anywhereLine line with
    | some (rule, comment) => if mentionsTag comment then none else some rule
    | none => none

/-- `desired`. -/
def desired (enabled : List Protocol) : Except Exc (List (Text × Text)) :=
  if enabled.any (fun proto => proto.name.toList = sshTag) then .error .valueError
  else .ok (Dict.ofPairs (enabled.flatMap fun proto => proto.ports.map fun port => (port.text.toList, proto.name.toList)))

/-- `sorted(d.items())`, by rule and name. -/
def sortedItems (d : List (Text × Text)) : List (Text × Text) :=
  d.insertionSort fun a b => a.1 < b.1 ∨ a.1 = b.1 ∧ a.2 ≤ b.2

/-! ## The programs it runs -/

inductive Op where
  | which
  | ufw (args : List Text)
  deriving DecidableEq, Repr

/-- Whether it succeeded, and for `ufw` what it wrote. -/
@[reducible] def Ans : Op → Type
  | .which => Bool
  | .ufw _ => Bool × Text

abbrev Cmd (α : Type) := Script Exc Op Ans α

/-- One call. -/
abbrev call (o : Op) : Cmd (Ans o) := Script.op o

/-- `_ufw`. -/
def ufw (args : List Text) : Cmd (Bool × Text) := do
  let result : Bool × Text ← call (.ufw args)
  return (result.1, strip result.2)

/-- `available`. -/
def available : Cmd Bool := call .which

/-- `_status_lines`: `ufw status` as lines, or none of them. -/
def statusLines : Cmd (List Text) := do
  let (ok, output) ← ufw ["status"]
  return if ok then splitlines output else []

/-- The arguments that open a rule. -/
def allowArgs (rule name : Text) : List Text := ["allow", rule, "comment", tag ++ [':'] ++ name]

/-- The arguments that delete a rule. -/
def deleteArgs (rule : Text) : List Text := ["--force", "delete", "allow", rule]

/-! ## `reconcile` -/

/-- The loop over what is wanted: whether it came to its end, and what is reported so far. -/
def addRules (have_ : List (Text × Text)) (byHand : List Text) (dryRun : Bool) :
    List (Text × Text) → List Text → Cmd (Bool × List Text)
  | [], actions => pure (true, actions)
  | (rule, name) :: rest, actions =>
    if rule ∈ have_.map (·.1) then addRules have_ byHand dryRun rest actions
    else if rule ∈ byHand then
      addRules have_ byHand dryRun rest (actions ++ ["~ ".toList ++ rule ++ " already allowed by hand and untagged, left alone (".toList ++
        name ++ " is served; tag it ".toList ++ tag ++ ":".toList ++ name ++ " to hand it over)".toList])
    else
      let actions := actions ++ ["+ allow ".toList ++ rule ++ " (".toList ++ name ++ ")".toList]
      if dryRun then addRules have_ byHand dryRun rest actions
      else do
        let (ok, out) ← ufw (allowArgs rule name)
        if ok then addRules have_ byHand dryRun rest actions
        else return (false, actions ++ ["FAILED: ".toList ++ out])

/-- The loop over what is tagged. -/
def deleteRules (want : List (Text × Text)) (dryRun : Bool) : List (Text × Text) → List Text → Cmd (Bool × List Text)
  | [], actions => pure (true, actions)
  | (rule, name) :: rest, actions =>
    if rule ∈ want.map (·.1) then deleteRules want dryRun rest actions
    else if name = sshTag ∨ rule = sshRule then
      let why := if name = sshTag then "tagged ".toList ++ tag ++ ":".toList ++ sshTag
        else "the default ssh port, tagged ".toList ++ tag ++ ":".toList ++ name
      deleteRules want dryRun rest
        (actions ++ ["! refusing to remove ".toList ++ rule ++ " (".toList ++ why ++ " -- the only way back in)".toList])
    else
      let actions := actions ++ ["- delete ".toList ++ rule ++ " (was ".toList ++ name ++ ")".toList]
      if dryRun then deleteRules want dryRun rest actions
      else do
        let (ok, out) ← ufw (deleteArgs rule)
        if ok then deleteRules want dryRun rest actions
        else return (false, actions ++ ["FAILED: ".toList ++ out])

/-- `reconcile`: whether the firewall is as the protocols want it, and what was done. -/
def reconcile (enabled : List Protocol) (dryRun : Bool) : Cmd (Bool × List Text) := do
  let there ← available
  if there then do
    let want ← Script.lift (desired enabled)
    -- one read of `ufw status`, two views of it
    let status ← statusLines
    let (ok, actions) ← addRules (tagged status) (untagged status) dryRun (sortedItems want) []
    if ok then do
      let (ok, actions) ← deleteRules want dryRun (sortedItems (tagged status)) actions
      if ok then return (true, if actions = [] then ["firewall already matches the enabled set".toList] else actions)
      else return (false, actions)
    else return (false, actions)
  else return (true, ["ufw not installed, skipping firewall reconciliation".toList])

/-! ## The machine -/

/-- The box the firewall is on: whether it has `ufw`, and what `ufw status` answers. -/
structure Box where
  installed : Bool
  status : Bool × Text

/-- What the outside decides at a call: whether it is interrupted, whether it succeeds, and what it writes. -/
structure Choice where
  fault : Fault Exc := .none
  ok : Bool := true
  out : Text := []
  deriving DecidableEq, Repr

/-- What a program answers. -/
def exec : (o : Op) → Choice → Box → Ans o × Box
  | .which, _, box => (box.installed, box)
  | .ufw args, c, box => (if args = ["status".toList] then box.status else (c.ok, c.out), box)

def machine : ScriptMachine Exc Op Ans Box Choice := withFaults exec Choice.fault

/-- The lines `reconcile` reads. -/
def Box.lines (box : Box) : List Text := if box.status.1 then splitlines (strip box.status.2) else []

end Ufw

end VpnStack

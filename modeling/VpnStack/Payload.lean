import VpnStack.Apply
import VpnStack.Control.Json

/-!
# What a command prints with `--json`

`cli.emit`, and the payloads of the commands that apply. The result of `apply` grows as it goes: what only a converge does is
absent from one that rendered and stopped.
-/

namespace VpnStack

open Control (JsonMap ofTexts ofNullableTexts ofVerdict)

namespace Payload

/-- `SCHEMA`. -/
def schema : Nat := 1

/-- `emit(ok, **data)`: one JSON object and a newline. -/
def emit (ok : Bool) (data : JsonMap) : Text :=
  Json.dumps (.obj (("schema".toList, .num schema) :: ("ok".toList, .bool ok) :: data)) ++ ['\n']

/-- The name of a service in compose.yml. -/
def serviceName : Service → Text
  | .dnstt => "dnstt"
  | .dnsttSocks => "dnstt-socks"
  | .dnsttSshd => "dnstt-sshd"
  | .ikev2 => "ikev2"
  | .singBox => "sing-box"

/-- Why a reconcile was skipped. -/
inductive Skipped where
  | notRunning
  | listFailed (listing : Text)

/-- The texts of a result: the name of the candidate, and what each step says for a person. -/
structure Prose where
  candidate : Text
  teardown : Text
  ready : List Text
  firewall : List Text
  skipped : Option Skipped
  forwarding : Text

/-- What `reconcile_ikev2` returns. -/
def reconcileResult : Option Reconciled → Option Skipped → Option JsonMap
  | some r, _ => some [("added", ofTexts r.added), ("revoked", ofTexts r.revoked), ("failed", ofTexts r.failed)]
  | none, some .notRunning => some [("skipped", .str "ikev2 container not running")]
  | none, some (.listFailed listing) => some [("skipped", .str "listclients failed"), ("error", .str listing)]
  | none, none => none

/-- What a converge adds to the result of `apply`. -/
def convergeResult (r : ApplyResult) (prose : Prose) : JsonMap :=
  let before : JsonMap :=
    [("teardown", .str prose.teardown), ("teardown_ok", ofVerdict r.teardownOk), ("ready", ofTexts prose.ready),
      ("ports_ready", ofVerdict r.portsReady), ("not_running", ofNullableTexts (r.notRunning.map (·.map serviceName))),
      ("firewall", ofTexts prose.firewall), ("firewall_ok", ofVerdict r.firewallOk)]
  let reconcile : JsonMap := match reconcileResult r.ikev2Reconcile prose.skipped with
    | some result => [("ikev2_reconcile", .obj result)]
    | none => []
  let after : JsonMap := [("ikev2_forwarding", .str prose.forwarding), ("forwarding_ok", ofVerdict r.forwardingOk)]
  before ++ reconcile ++ after

/-- The result of `apply`, as the dictionary it is. -/
def applyResult (r : ApplyResult) (prose : Prose) : JsonMap :=
  let rendered : JsonMap :=
    [("rendered", .str prose.candidate), ("enabled_protocols", ofTexts (r.enabledProtocols.map (·.toList))),
      ("restarted", .bool r.restarted), ("config_changed", ofNullableTexts (r.configChanged.map (·.map serviceName))),
      ("converge_pending", .bool r.convergePending)]
  if r.restarted then rendered ++ convergeResult r prose else rendered

/-- A payload of a command that applies. -/
inductive Receipt where
  | apply (result : ApplyResult) (prose : Prose)
  | userAdd (user : Text) (result : ApplyResult) (prose : Prose)
  | userRm (user : Text) (result : ApplyResult) (prose : Prose)
  | setEnabled (user : Text) (enabled : Bool) (result : ApplyResult) (prose : Prose)
  | setProtocol (result : Option (ApplyResult × Prose))

/-- What the commands hand to `emit`. -/
def Receipt.data : Receipt → JsonMap
  | .apply result prose => applyResult result prose
  | .userAdd user result prose => ("user".toList, .str user) :: applyResult result prose
  | .userRm user result prose => ("user".toList, .str user) :: applyResult result prose
  | .setEnabled user enabled result prose => ("user".toList, .str user) :: ("enabled".toList, .bool enabled) :: applyResult result prose
  | .setProtocol none => [("changed".toList, .bool false)]
  | .setProtocol (some (result, prose)) => ("changed".toList, .bool true) :: applyResult result prose

/-- The stdout of the command. -/
def Receipt.stdout (receipt : Receipt) : Text := emit true receipt.data

/-- The result of `apply` in it, if there is one. -/
def Receipt.applied : Receipt → Option (ApplyResult × Prose)
  | .apply result prose => some (result, prose)
  | .userAdd _ result prose => some (result, prose)
  | .userRm _ result prose => some (result, prose)
  | .setEnabled _ _ result prose => some (result, prose)
  | .setProtocol result => result

/-- The command converged. -/
def Receipt.Converged (receipt : Receipt) : Prop := ∃ a ∈ receipt.applied, a.1.restarted = true

end Payload

end VpnStack

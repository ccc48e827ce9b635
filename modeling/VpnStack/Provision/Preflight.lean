import VpnStack.Provision.Commands
import VpnStack.Firewall
import VpnStack.Lib.Dart
import VpnStack.Lib.Dict

/-!
# The preflight of a provisioning

`steps.dart` and `provisioner.dart`: the list of steps, of which the first asks the server who it is and whether it carries
credentials, and a later one mints the keyring. The steps between them are left open, and so is the server, which may answer
anything. Reports to the screen are left out.
-/

namespace VpnStack

namespace Preflight

open Firewall (CommandResult valueOf trim)

open Provision (ProvisionConfig lockConflictExit decimal)

/-- The programs that the two steps send. -/
inductive Program where
  | whoami
  | osRelease
  | provisionedProbe
  | hostCode
  | vpnctlReady
  deriving DecidableEq

/-- What a step throws. The sentence of an error is told by what it is made of, except where the step writes it. -/
inductive Failure where
  /-- A `HostKeyError`, or a `ProvisionTransportError` of the first connection. -/
  | opening (cause : Text)
  /-- `ProvisionTransportError` -/
  | transport (step : String)
  /-- `ProvisionCommandError` -/
  | command (step what : String) (exitCode : Int) (output : Text)
  /-- `LockBusyError` -/
  | lockBusy (step what : String)
  /-- `UnsupportedHostError` -/
  | unsupportedHost (step : String) (message : Text)
  /-- `AlreadyProvisionedError` -/
  | alreadyProvisioned (step : String) (evidence : List Text)
  /-- What another step throws. -/
  | other (cause : Text)

/-- A server with its connection: what `openPrimary` and a program come to in a world, and the world they leave. There is no result
where the transport threw. -/
structure Server (W : Type) where
  openPrimary : W → Except Text Unit × W
  run : Program → W → Option CommandResult × W

/-- The body of a step. -/
abbrev Body (W α : Type) := EStateM Failure W α

section Context

variable {W : Type} (server : Server W) (step : String)

/-- `ctx.openPrimary` -/
def openPrimary : Body W Unit := fun w =>
  match server.openPrimary w with
  | (.ok (), w) => .ok () w
  | (.error cause, w) => .error (.opening cause) w

/-- `ctx.run` -/
def run (program : Program) : Body W CommandResult := fun w =>
  match server.run program w with
  | (some result, w) => .ok result w
  | (none, w) => .error (.transport step) w

/-- `ctx.runChecked` -/
def runChecked (program : Program) (what : String) : Body W CommandResult := do
  let result ← run server step program
  if result.ok then return result
  else throw (.command step what result.exitCode result.combined)

/-- `ctx.runVpnctl` -/
def runVpnctl (program : Program) (what : String) : Body W CommandResult := do
  let result ← run server step program
  if result.exitCode = lockConflictExit then throw (.lockBusy step what)
  else if result.ok then return result
  else throw (.command step what result.exitCode result.combined)

end Context

/-! ## `steps.dart` -/

/-- A value without the quotes around it. -/
def unquoted (value : Text) : Text :=
  if 2 ≤ value.length ∧ (value.head? = some '"' ∧ value.getLast? = some '"' ∨ value.head? = some '\'' ∧ value.getLast? = some '\'') then
    value.tail.dropLast
  else value

/-- `parseOsRelease` -/
def parseOsRelease (text : Text) : List (Text × Text) :=
  (text.splitOn '\n').foldl (fun out raw =>
    let line := trim raw
    if line = [] ∨ line.head? = some '#' then out
    else
      match Text.cut '=' line with
      | (key, some value) => if key = [] then out else Dict.set out (trim key) (unquoted (trim value))
      | (_, none) => out) []

/-- `release[key]` -/
def field (release : List (Text × Text)) (key : Text) : Option Text := release.lookup key

/-- `debianish` -/
def debianish (release : List (Text × Text)) : Bool :=
  let id : Text := (field release "ID").getD []
  let like : List Text := ((field release "ID_LIKE").getD []).splitOn ' '
  decide (id = "debian" ∨ id = "ubuntu" ∨ "debian".toList ∈ like ∨ "ubuntu".toList ∈ like)

/-- `valuesOf` -/
def valuesOf (output key : Text) : List Text :=
  ((output.splitOn '\n').map trim).filterMap fun line =>
    if (key ++ ['=']).isPrefixOf line then some (trim (line.drop (key.length + 1))) else none

/-- `'secrets'` as a number, which is zero where there is none. -/
def secrets (stdout : Text) : Int := (Dart.intTryParse ((valueOf stdout "secrets").getD [])).getD 0

/-- `evidence`: what the probe found of an earlier install. -/
def evidence (config : ProvisionConfig) (stdout : Text) : List Text :=
  (if valueOf stdout "users_file" = some "yes".toList then [config.stateDir ++ "/users.json exists".toList] else []) ++
    if secrets stdout > 0 then
      [decimal (secrets stdout) ++ " secrets in ".toList ++ config.stateDir ++ "/secrets".toList]
    else []

section Steps

variable {W : Type} (config : ProvisionConfig) (server : Server W)

/-- `if (…) throw …` -/
def refuseIf (c : Prop) [Decidable c] (failure : Failure) : Body W Unit := if c then throw failure else pure ()

/-- The refusal of another user than root. -/
def notRoot (uid : Text) : Failure :=
  .unsupportedHost "preflight" ("this connects as uid ".toList ++ uid ++
    (", not root. vpnctl drives docker, iptables and ufw and writes /etc/vpn-stack, so it needs root. " ++
      "Connect as root, or as a user whose shell is root.").toList)

/-- The refusal of another system than Debian. -/
def notDebian (release : List (Text × Text)) : Failure :=
  let id := (field release "ID").getD []
  let named := (field release "PRETTY_NAME").getD (if id = [] then "a system with no readable /etc/os-release".toList else id)
  .unsupportedHost "preflight" ("this is ".toList ++ named ++
    (". Provisioning installs docker from an apt repository and drives ufw, so it needs Debian or Ubuntu. Everything " ++
      "after the install works anywhere docker does -- install docker and ufw yourself and this will leave both alone.").toList)

/-- `preflight` -/
def preflight : Body W Unit := do
  openPrimary server
  let who ← runChecked server "preflight" .whoami "asking who we are"
  refuseIf (trim who.stdout ≠ "0") (notRoot (trim who.stdout))
  let os ← runChecked server "preflight" .osRelease "reading /etc/os-release"
  refuseIf (debianish (parseOsRelease os.stdout) = false) (notDebian (parseOsRelease os.stdout))
  let probe ← runChecked server "preflight" .provisionedProbe "looking for an existing install"
  refuseIf (evidence config probe.stdout ≠ []) (.alreadyProvisioned "preflight" (evidence config probe.stdout))

/-- `bootstrapKeyring` -/
def bootstrapKeyring : Body W Unit := do
  let _ ← runChecked server "bootstrap" .hostCode ("running " ++ String.ofList config.hostScriptPath ++ " code")
  let _ ← runVpnctl server "bootstrap" .vpnctlReady "checking vpnctl runs"

/-- `ProvisionStep` -/
structure Step (W : Type) where
  name : String
  run : Body W Unit

/-- `provisionSteps`, with the bodies of the other steps. -/
def provisionSteps (rest : String → Body W Unit) : List (Step W) :=
  [⟨"preflight", preflight config server⟩, ⟨"docker", rest "docker"⟩, ⟨"clone", rest "clone"⟩, ⟨"host", rest "host"⟩,
    ⟨"firewall", rest "firewall"⟩, ⟨"bootstrap", bootstrapKeyring config server⟩, ⟨"apply", rest "apply"⟩,
    ⟨"readiness", rest "readiness"⟩, ⟨"verify", rest "verify"⟩]

end Steps

/-! ## `provisioner.dart` -/

/-- What is left of a run: the steps that were begun, those that completed, and what the run threw. -/
structure Outcome where
  begun : List String
  done : List String
  thrown : Option Failure

/-- `Provisioner.run`: one step after another, until one throws. -/
def runSteps {W : Type} : List (Step W) → W → Outcome
  | [], _ => ⟨[], [], none⟩
  | step :: steps, w =>
    match step.run w with
    | .error failure _ => ⟨[step.name], [], some failure⟩
    | .ok _ w =>
      let outcome := runSteps steps w
      ⟨step.name :: outcome.begun, step.name :: outcome.done, outcome.thrown⟩

end Preflight

end VpnStack

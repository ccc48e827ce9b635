import VpnStack.Lib.Script
import VpnStack.Lib.Text

/-!
# The firewall step of the app

Provisioning arms a timer on the server that switches the firewall off, switches the firewall on, and disarms the timer only
once a new connection has come through the new rules. What the step talks to is outside: the connector, the sessions of the
connections it opens, the human who is asked about a host key, and the screen. Each of them may answer anything, and may
throw.
-/

namespace VpnStack

open Interaction

namespace Firewall

/-! ## The transport's seam -/

/-- `SshHostKey`. -/
structure HostKey where
  algorithm : String
  blob : String
  fingerprint : String
  deriving DecidableEq, Repr

/-- `sameKeyAs`. -/
def HostKey.sameKeyAs (k other : HostKey) : Bool := k.algorithm = other.algorithm && k.blob = other.blob

/-- `SshConnection`. A connector may hand the same object back, so two connections with one `transportId` need not be one. -/
structure Connection where
  object : Nat
  transportId : String
  hostKey : HostKey
  deriving DecidableEq, Repr

/-- `CommandResult`. -/
structure CommandResult where
  exitCode : Int
  stdout : Text
  stderr : Text
  deriving DecidableEq, Repr

/-- `ok`. -/
def CommandResult.ok (r : CommandResult) : Bool := r.exitCode = 0

/-- The characters `String.trim` of Dart takes off: Unicode's white space and the byte order mark. -/
def isWhitespace (c : Char) : Bool :=
  (9 ≤ c.toNat && c.toNat ≤ 13) || c.toNat = 0x20 || c.toNat = 0x85 || c.toNat = 0xA0 || c.toNat = 0x1680 ||
    (0x2000 ≤ c.toNat && c.toNat ≤ 0x200A) || c.toNat = 0x2028 || c.toNat = 0x2029 || c.toNat = 0x202F ||
    c.toNat = 0x205F || c.toNat = 0x3000 || c.toNat = 0xFEFF

/-- `String.trim`. -/
def trim (t : Text) : Text := ((t.dropWhile isWhitespace).reverse.dropWhile isWhitespace).reverse

/-- `combined`: both streams, for a failure report. -/
def CommandResult.combined (r : CommandResult) : Text :=
  ['\n'].intercalate ([trim r.stdout, trim r.stderr].filter fun t => !t.isEmpty)

/-- `valueOf`: the first `key=value` line of a program's output. -/
def valueOf (output key : Text) : Option Text :=
  ((output.splitOn '\n').map trim).findSome? fun line =>
    if (key ++ ['=']).isPrefixOf line then some (trim (line.drop (key.length + 1))) else none

/-- The programs of `commands.dart` this step sends. -/
inductive Program where
  | armDeadman
  | enableUfw
  | disarmDeadman
  deriving DecidableEq, Repr

/-- What is run on a connection: `proveCommand`, which is `true`, or `sh -c` of a program. -/
inductive Argv where
  | prove
  | sh (program : Program)
  deriving DecidableEq, Repr

mutual

/-- What may be thrown. The sentences of an error are told by what they are made of. -/
inductive Error where
  /-- `ProvisionTransportError`. -/
  | transport (step : String) (cause : Error) (what : Option String)
  /-- `ProvisionCommandError`. -/
  | command (step what : String) (exitCode : Int) (output : Text)
  /-- `FirewallLockoutError`: ufw could not be enabled. -/
  | lockoutEnabling (step : String) (reason : Error) (deadmanSeconds : Nat) (deadmanPid : Text)
  /-- `FirewallLockoutError`: no attempt got through. -/
  | lockoutProving (step : String) (tried deadmanSeconds : Nat) (deadmanPid : Text) (attempts : List Failure)
  | hostKeyUnknown (offered : HostKey)
  | hostKeyRejected (offered : HostKey) (pinned : Option HostKey) (asked : Bool)
  | hostKeyPolicyIgnored (offered : HostKey)
  | timeout
  /-- Whatever else a transport, a prompt or a screen throws. -/
  | other (text : String)

/-- Why an attempt to prove failed. -/
inductive Failure where
  | pooled (transportId : String)
  | otherHost (offered expected : String)
  | exited (exitCode : Int) (output : Text)
  | noAnswer
  | thrown (error : Error)

end

/-- `ProvisionException`. -/
def Error.isProvision : Error → Bool
  | .transport .. | .command .. | .lockoutEnabling .. | .lockoutProving .. => true
  | _ => false

/-- `HostKeyDecision`. -/
inductive Decision where
  | trust
  | trustOnce
  | refuse
  deriving DecidableEq, Repr

/-! ## The calls -/

/-- What the step asks of the outside, and the one mutable field of its `HostKeyPolicy`. -/
inductive Op where
  /-- `ctx.progress`: a line for the screen. -/
  | progress
  /-- `ctx.clock.sleep`. -/
  | sleep
  /-- A program on the session of the primary connection. -/
  | runPrimary (program : Program)
  /-- `connector.connect(hostKeys)`, within the time allowed. -/
  | connect
  /-- A command on the session of a connection, within the time allowed. -/
  | run (connection : Connection) (argv : Argv)
  /-- `connection.close`. -/
  | close (connection : Connection)
  /-- `_prompt`. -/
  | ask (offered : HostKey) (pinned : Option HostKey)
  /-- `_remember`. -/
  | remember (offered : HostKey)
  /-- Read `_pinned`. -/
  | pinned
  /-- Write `_pinned`. -/
  | pin (offered : HostKey)
  deriving DecidableEq, Repr

/-- What a call answers. -/
def Answer : Op → Type
  | .runPrimary _ | .run .. => CommandResult
  | .connect => Connection
  | .ask .. => Decision
  | .pinned => Option HostKey
  | .progress | .sleep | .close _ | .remember _ | .pin _ => Unit

abbrev Prov (α : Type) := Script Error Op Answer α

def call (o : Op) : Prov (Answer o) := Script.op o

/-! ## `ssh.dart` -/

/-- What a `HostKeyPolicy` was made with. -/
structure Policy where
  prompt : Bool
  recorder : Bool
  deriving DecidableEq, Repr

/-- `accepts`. -/
def accepts (pinned : Option HostKey) (offered : HostKey) : Bool :=
  match pinned with
  | some pin => pin.sameKeyAs offered
  | none => false

/-- `verify`. -/
def verify (policy : Policy) (offered : HostKey) : Prov Unit := do
  let pinned : Option HostKey ← call .pinned
  if accepts pinned offered then pure ()
  else if !policy.prompt then Script.raise (.hostKeyRejected offered pinned false)
  else do
    let decision : Decision ← call (.ask offered pinned)
    match decision with
    | .refuse => Script.raise (.hostKeyRejected offered pinned true)
    | .trustOnce => call (.pin offered)
    | .trust => do
      call (.pin offered)
      if policy.recorder then call (.remember offered) else pure ()

/-- `_openAnswering`. -/
def openAnswering (policy : Policy) : Prov Connection :=
  Script.tryExcept (call .connect) fun
    | .hostKeyUnknown offered => some (do
      verify policy offered
      call .connect)
    | _ => none

/-- `_closeQuietly`. -/
def closeQuietly (connection : Connection) : Prov Unit :=
  Script.tryExcept (call (.close connection)) fun _ => some (pure ())

/-- `openVerified`. -/
def openVerified (policy : Policy) : Prov Connection := do
  let connection ← openAnswering policy
  let pinned : Option HostKey ← call .pinned
  if accepts pinned connection.hostKey then pure connection
  else do
    closeQuietly connection
    Script.raise (.hostKeyPolicyIgnored connection.hostKey)

/-! ## `step.dart` -/

/-- What the step reads of its `ProvisionContext`. -/
structure Context where
  stepName : String
  policy : Policy
  primary : Option Connection
  deadmanSeconds : Nat
  proveAttempts : Nat

/-- `ctx.run`. Without a connection it is a bug of the step list. -/
def Context.run (ctx : Context) (program : Program) : Prov CommandResult :=
  match ctx.primary with
  | none => Script.raise (.other "no connection yet: preflight opens the primary one")
  | some _ => Script.tryExcept (call (.runPrimary program)) fun error =>
      some (Script.raise (.transport ctx.stepName error none))

/-- `ctx.runChecked`: a non-zero exit is the end of the sequence. -/
def Context.runChecked (ctx : Context) (program : Program) (what : String) : Prov CommandResult := do
  let result ← ctx.run program
  if result.ok then pure result
  else Script.raise (.command ctx.stepName what result.exitCode result.combined)

/-! ## `firewall.dart` -/

/-- `_Proof`. -/
inductive Proof where
  | proved (connection : Connection)
  | failed (failure : Failure)

/-- `_closeProver`. -/
def closeProver (prover : Connection) : Prov Unit :=
  Script.tryExcept (call (.close prover)) fun _ => some (call .progress)

/-- The body of `_prove`, once a connection is open. -/
def proveOn (ctx : Context) (fresh : Connection) : Prov Proof :=
  if ctx.primary.any fun own => fresh.transportId = own.transportId then do
    closeProver fresh
    pure (.failed (.pooled fresh.transportId))
  else match ctx.primary.filter fun expected => !fresh.hostKey.sameKeyAs expected.hostKey with
    | some expected => do
      closeProver fresh
      pure (.failed (.otherHost fresh.hostKey.fingerprint expected.hostKey.fingerprint))
    | none => do
      let result : CommandResult ← call (.run fresh .prove)
      if result.ok then pure (.proved fresh)
      else do
        closeProver fresh
        pure (.failed (.exited result.exitCode result.combined))

/-- What `_prove` makes of an error. -/
def failureOf : Error → Failure
  | .timeout => .noAnswer
  | error => .thrown error

/-- `_prove`. An error is a failure to prove; a connection that is open by then is closed. -/
def prove (ctx : Context) : Prov Proof := do
  let opened ← Script.attempt (openVerified ctx.policy)
  match opened with
  | .error error => pure (.failed (failureOf error))
  | .ok fresh => Script.tryExcept (proveOn ctx fresh) fun error => some (do
      closeProver fresh
      pure (.failed (failureOf error)))

/-- `_runOn`. -/
def runOn (ctx : Context) (connection : Connection) (program : Program) (what : String) : Prov CommandResult :=
  Script.tryExcept (call (.run connection (.sh program))) fun error =>
    some (Script.raise (.transport ctx.stepName error (some what)))

/-- `_disarm`. -/
def disarm (ctx : Context) (proven : Connection) (pid : Text) : Prov Unit := do
  let what := s!"disarming the deadman (pid {String.ofList pid}) -- ufw will disable itself in {ctx.deadmanSeconds}s" ++
    " on a server that is fine; wait for that and run this again"
  let result ← runOn ctx proven .disarmDeadman what
  if result.ok then pure ()
  else Script.raise (.command ctx.stepName what result.exitCode result.combined)

/-- `if (attempt > 1) await ctx.clock.sleep(...)`. -/
def pause (attempt : Nat) : Prov Unit := if attempt > 1 then call .sleep else pure ()

/-- The attempts of `runFirewallStep`, with what the earlier ones failed with. -/
def attempts (ctx : Context) (pid : Text) : (left attempt : Nat) → List Failure → Prov Unit
  | 0, _, failures =>
    Script.raise (.lockoutProving ctx.stepName ctx.proveAttempts ctx.deadmanSeconds pid failures)
  | left + 1, attempt, failures => do
    pause attempt
    call .progress
    let proof ← prove ctx
    match proof with
    | .proved proven => do
      call .progress
      let _ ← Script.tryFinally (disarm ctx proven pid) (closeProver proven)
      pure ()
    | .failed failure => attempts ctx pid left (attempt + 1) (failures ++ [failure])

/-- `ufw enable`, inside the net: an error of this layer is reported as the lockout. -/
def enable (ctx : Context) (pid : Text) : Prov Unit :=
  Script.tryExcept (do
    let enabled ← ctx.runChecked .enableUfw "enabling ufw"
    ((enabled.combined.splitOn '\n').filter fun line => !(trim line).isEmpty).forM fun _ => call .progress) fun error =>
      if error.isProvision then
        some (Script.raise (.lockoutEnabling ctx.stepName error ctx.deadmanSeconds pid))
      else none

/-- `runFirewallStep`. -/
def runFirewallStep (ctx : Context) : Prov Unit := do
  let armed ← ctx.runChecked .armDeadman "arming the deadman"
  let pid := (valueOf armed.stdout "armed".toList).getD "unknown".toList
  call .progress
  enable ctx pid
  attempts ctx pid ctx.proveAttempts 1 []

/-! ## The outside -/

/-- A program that was sent, and its result if it had one. -/
inductive Event where
  | onPrimary (program : Program) (result : Option CommandResult)
  | on (connection : Connection) (argv : Argv) (result : Option CommandResult)
  deriving DecidableEq, Repr

/-- What is left of a run: the policy's pinned key, and what was sent. -/
structure World where
  pinned : Option HostKey
  sent : List Event := []

/-- What the outside does at a call: its answer, and the key the connector had the policy pin while it connected. -/
structure Choice where
  answer : (o : Op) → Except Error (Answer o)
  pinned : Option HostKey

/-- Every call is answered by the outside, but for the policy's own field. -/
def outside : ScriptMachine Error Op Answer World Choice := fun o c w =>
  match o with
  | .pinned => (.ok w.pinned, w)
  | .pin offered => (.ok (), { w with pinned := some offered })
  | .connect => (c.answer .connect, { w with pinned := c.pinned })
  | .runPrimary program =>
    (c.answer (.runPrimary program), { w with sent := w.sent ++ [.onPrimary program (c.answer (.runPrimary program)).toOption] })
  | .run connection argv =>
    (c.answer (.run connection argv), { w with sent := w.sent ++ [.on connection argv (c.answer (.run connection argv)).toOption] })
  | .progress => (c.answer .progress, w)
  | .sleep => (c.answer .sleep, w)
  | .close connection => (c.answer (.close connection), w)
  | .ask offered pinned => (c.answer (.ask offered pinned), w)
  | .remember offered => (c.answer (.remember offered), w)

end Firewall

end VpnStack

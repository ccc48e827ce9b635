import VpnStack.Lib.Transition
import VpnStack.Lib.Flock

/-!
# The lock

Who may write the state of a server. Every call site puts `flock /run/vpn-stack.lock` in front of vpnctl, and vpnctl takes the
same file again from inside, without waiting, unless the environment says that its caller has it. The two halves are
different programs in three languages; what they agree on is one variable. `./vpn restore` unpacks a backup over the state
with neither.

An invocation is one call of a site. Its outer process is flock(1), its inner process what it was told to run; each opens the
lock file for itself, and the inner one is a child of the outer and has its descriptors.
-/

namespace VpnStack

open Transition

namespace Locking

/-! ## The commands -/

/-- The subcommands of `build_parser`. -/
inductive Command where
  | status
  | bootstrap (force : Bool)
  | apply (noRestart : Bool)
  | protocolList
  | protocolOn (name : String)
  | protocolOff (name : String)
  | userAdd (name : String)
  | userRm (name : String)
  | userEnable (name : String)
  | userDisable (name : String)
  | userList (showSecrets : Bool)
  | userExport (name protocol : String) (host : Option String) (qr : Bool)
  | ikev2ListClients
  | ikev2Reconcile
  deriving DecidableEq, Repr

/-- `mutates`, which the parser declares for each subcommand. -/
def Command.mutates : Command → Bool
  | .bootstrap _ | .apply _ | .protocolOn _ | .protocolOff _ => true
  | .userAdd _ | .userRm _ | .userEnable _ | .userDisable _ => true
  | .ikev2Reconcile => true
  | .status | .protocolList | .userList _ | .userExport .. | .ikev2ListClients => false

/-! ## The call sites -/

/-- The places that run vpnctl on the server. -/
inductive Site where
  /-- `Vpnctl.argvFor` of the app's control layer. -/
  | argvFor
  /-- `_lockedVpnctl` of the app's provisioning. -/
  | lockedVpnctl
  /-- `remote` of `./vpn`. -/
  | remote
  /-- `vpn-stack.service`. -/
  | bootUnit
  /-- `deploy`, on the server. -/
  | deploy
  /-- `scripts/deploy.sh`. -/
  | deployScript
  /-- `scripts/install.sh`. -/
  | installScript
  /-- `stage_code` of `scripts/provision-host.sh`. -/
  | provisionHost
  /-- A hand on the server. -/
  | bare
  deriving DecidableEq, Repr

/-- `LOCK_FILE`, `defaultLockPath`. -/
def lockFile : String := "/run/vpn-stack.lock"

/-- The words in front of vpnctl's arguments, variables first. `export` and the unit's `Environment=` stand as assignments in
front of the command they reach, and a `cd` that succeeds is left out. -/
def Site.words (lockWait : Nat) : Site → List String
  | .argvFor => ["flock", "-w", toString lockWait, "-E", "75", lockFile, "/usr/local/bin/vpnctl", "--json"]
  | .lockedVpnctl =>
    ["env", "VPN_STACK_LOCK_HELD=1", "flock", "-w", toString lockWait, "-E", "75", lockFile, "/usr/local/bin/vpnctl"]
  | .remote => ["VPN_STACK_LOCK_HELD=1", "flock", lockFile, "/usr/local/bin/vpnctl"]
  | .bootUnit => ["VPN_STACK_LOCK_HELD=1", "/usr/bin/flock", lockFile, "/usr/local/bin/vpnctl"]
  | .deploy => ["VPN_STACK_LOCK_HELD=1", "exec", "flock", lockFile, "/usr/local/bin/vpnctl"]
  | .deployScript => ["VPN_STACK_LOCK_HELD=1", "flock", lockFile, "vpnctl"]
  | .installScript => ["VPN_STACK_LOCK_HELD=1", "flock", lockFile, "vpnctl"]
  | .provisionHost => ["VPN_STACK_LOCK_HELD=1", "flock", lockFile, "vpnctl"]
  | .bare => ["vpnctl"]

/-- What flock(1) was told: whether it waits with a bound. -/
structure Flock where
  bounded : Bool
  deriving DecidableEq, Repr

/-- What the words of a command line start: flock(1) on the lock file in front or not, and the variable set or not. -/
structure Launch where
  flock : Option Flock := none
  lockHeld : Bool := false
  deriving DecidableEq, Repr

/-- The options of flock(1), up to the file it locks. -/
def flockOptions (bounded : Bool) : List String → Option Flock
  | "-w" :: _ :: ws => flockOptions true ws
  | "-E" :: _ :: ws => flockOptions bounded ws
  | path :: _ => if path = lockFile then some ⟨bounded⟩ else none
  | [] => none

/-- The command line as the shell, env(1) and flock(1) read it. flock(1) hands its environment on. -/
def launch : List String → Launch
  | "env" :: ws => launch ws
  | "exec" :: ws => launch ws
  | "VPN_STACK_LOCK_HELD=1" :: ws => { launch ws with lockHeld := true }
  | "flock" :: ws => { flock := flockOptions false ws }
  | "/usr/bin/flock" :: ws => { flock := flockOptions false ws }
  | _ => {}

/-- What writes the state of a server: a command of vpnctl through one of its call sites, or the unpacking half of
`./vpn restore`, which is a `tar xz -C /etc/vpn-stack` with nothing in front. -/
inductive Invocation where
  | vpnctl (site : Site) (lockWait : Nat) (command : Command)
  | unpack
  deriving DecidableEq, Repr

namespace Invocation

def launch : Invocation → Launch
  | .vpnctl site lockWait _ => Locking.launch (site.words lockWait)
  | .unpack => {}

/-- Whether it writes `users.json`, `state.json`, the keyring or the rendered link. -/
def writes : Invocation → Bool
  | .vpnctl _ _ command => command.mutates
  | .unpack => true

/-- `_lock_if_mutating`: whether vpnctl goes on to `_acquire_lock`. -/
def acquires : Invocation → Bool
  | i@(.vpnctl _ _ command) => command.mutates && !i.launch.lockHeld
  | .unpack => false

end Invocation

/-! ## One call, step by step -/

/-- Where the flock(1) of a call is. -/
inductive Outer where
  | idle
  /-- It has opened the file and waits for the lock. -/
  | waiting
  /-- It has the lock and has not started its command. -/
  | holding
  /-- It waits for its command. -/
  | running
  /-- It gave up after `-w` and exits with `-E 75`. -/
  | gaveUp
  | ended
  deriving DecidableEq, Repr

/-- Where the vpnctl (or the tar) of a call is. -/
inductive Inner where
  | idle
  | started
  /-- `_acquire_lock` has opened the file. -/
  | opened
  /-- The body of the command. -/
  | body
  /-- `die(code=75)`: another description has the lock. -/
  | refused
  | done
  | killed
  deriving DecidableEq, Repr

/-- One call of a site. -/
structure Call where
  outer : Outer := .idle
  inner : Inner := .idle
  deriving DecidableEq, Repr

/-- The processes of the calls, and the descriptions of the lock file they open. -/
inductive Proc (ι : Type) where
  | outer (i : ι)
  | inner (i : ι)
  deriving DecidableEq, Repr

/-- The call a process is of. -/
def Proc.call {ι : Type} : Proc ι → ι
  | .outer i => i
  | .inner i => i

@[simp] theorem Proc.call_outer {ι : Type} (i : ι) : (Proc.outer i).call = i := rfl

@[simp] theorem Proc.call_inner {ι : Type} (i : ι) : (Proc.inner i).call = i := rfl

/-- The lock file and the calls. -/
structure Host (ι : Type) where
  file : Flock.File (Proc ι) (Proc ι) := .fresh
  calls : ι → Call := fun _ => {}

/-- A step of a call. Whether an open succeeds is the host's decision. -/
inductive Action (ι : Type) where
  /-- The command line starts: flock(1) opens the file, or vpnctl runs at once. -/
  | start (i : ι) (opens : Bool)
  /-- flock(1) gets the lock. -/
  | take (i : ι)
  /-- The `-w` of flock(1) runs out. -/
  | giveUp (i : ι)
  /-- flock(1) forks and runs its command. -/
  | spawn (i : ι)
  /-- `_lock_if_mutating`, up to and with the `os.open` of `_acquire_lock`. -/
  | check (i : ι) (opens : Bool)
  /-- `fcntl.flock(fd, LOCK_EX | LOCK_NB)`. -/
  | tryLock (i : ι)
  /-- The body is over and vpnctl exits. -/
  | finish (i : ι)
  /-- flock(1) exits after its command. -/
  | leave (i : ι)
  | killOuter (i : ι)
  | killInner (i : ι)
  deriving DecidableEq, Repr

variable {ι : Type}

/-- The call an action is a step of. -/
def Action.call : Action ι → ι
  | .start i _ | .take i | .giveUp i | .spawn i | .check i _ | .tryLock i | .finish i | .leave i => i
  | .killOuter i | .killInner i => i

/-- A step the call takes itself. -/
def Action.isOwn [DecidableEq ι] (i : ι) : Action ι → Bool
  | .killOuter _ | .killInner _ => false
  | a => a.call = i

/-- The flock(1) of a call is alive. -/
def Outer.alive : Outer → Bool
  | .waiting | .holding | .running => true
  | _ => false

/-- What flock(1) started is alive. -/
def Inner.alive : Inner → Bool
  | .started | .opened | .body => true
  | _ => false

/-- The inner process is over. -/
def Inner.over : Inner → Bool
  | .refused | .done | .killed => true
  | _ => false

section Step

variable [DecidableEq ι]

/-- The host after one call changed, with what it did to the file. -/
def Host.set (h : Host ι) (i : ι) (c : Call) (file : Flock.File (Proc ι) (Proc ι)) : Host ι :=
  ⟨file, Function.update h.calls i c⟩

@[simp] theorem Host.file_set (h : Host ι) (i : ι) (c : Call) (file : Flock.File (Proc ι) (Proc ι)) :
    (h.set i c file).file = file := rfl

@[simp] theorem Host.calls_set_self (h : Host ι) (i : ι) (c : Call) (file : Flock.File (Proc ι) (Proc ι)) :
    (h.set i c file).calls i = c := Function.update_self ..

@[simp] theorem Host.calls_set_of_ne (h : Host ι) {i j : ι} (hij : j ≠ i) (c : Call) (file : Flock.File (Proc ι) (Proc ι)) :
    (h.set i c file).calls j = h.calls j := Function.update_of_ne hij ..

/-- What a call does next. -/
def step (calls : ι → Invocation) (h : Host ι) : Action ι → Option (Host ι)
  | .start i opens =>
    if h.calls i = {} then
      if (calls i).launch.flock.isSome then
        -- flock(1) that cannot open its file exits without running anything.
        if opens then some (h.set i { outer := .waiting } (h.file.opened (.outer i) (.outer i)))
        else some (h.set i { outer := .ended } h.file)
      else some (h.set i { inner := .started } h.file)
    else none
  | .take i =>
    if (h.calls i).outer = .waiting then
      (h.file.flock (.outer i) (.outer i)).map (h.set i { h.calls i with outer := .holding })
    else none
  | .giveUp i =>
    -- The lock is granted at once where it can be, so the time only runs out on a conflict.
    if (h.calls i).outer = .waiting ∧ (calls i).launch.flock = some ⟨true⟩ ∧ ¬ h.file.Free (.outer i) then
      some (h.set i { h.calls i with outer := .gaveUp } (h.file.exit (.outer i)))
    else none
  | .spawn i =>
    if (h.calls i).outer = .holding then
      some (h.set i ⟨.running, .started⟩ (h.file.fork (.outer i) (.inner i)))
    else none
  | .check i opens =>
    if (h.calls i).inner = .started then
      if (calls i).acquires then
        -- An `OSError` here is a warning: vpnctl runs unserialised.
        if opens then some (h.set i { h.calls i with inner := .opened } (h.file.opened (.inner i) (.inner i)))
        else some (h.set i { h.calls i with inner := .body } h.file)
      else some (h.set i { h.calls i with inner := .body } h.file)
    else none
  | .tryLock i =>
    if (h.calls i).inner = .opened then
      match h.file.flock (.inner i) (.inner i) with
      | some file => some (h.set i { h.calls i with inner := .body } file)
      | none => some (h.set i { h.calls i with inner := .refused } (h.file.exit (.inner i)))
    else none
  | .finish i =>
    if (h.calls i).inner = .body then
      some (h.set i { h.calls i with inner := .done } (h.file.exit (.inner i)))
    else none
  | .leave i =>
    if (h.calls i).outer = .running ∧ (h.calls i).inner.over then
      some (h.set i { h.calls i with outer := .ended } (h.file.exit (.outer i)))
    else none
  | .killOuter i =>
    if (h.calls i).outer.alive then
      some (h.set i { h.calls i with outer := .ended } (h.file.exit (.outer i)))
    else none
  | .killInner i =>
    if (h.calls i).inner.alive then
      some (h.set i { h.calls i with inner := .killed } (h.file.exit (.inner i)))
    else none

end Step

end Locking

end VpnStack

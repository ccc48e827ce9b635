import VpnStack.Lib.Transition

/-!
# The controller of the tunnel

`SingboxTunnel` of `singbox_tunnel.dart`: the calls that are under way, each at one of its awaits, the list of waiters for the
next settled status, and the status it shows. Commands go to the platform and are answered; statuses come back on their own.
Between two awaits nothing else runs.
-/

namespace VpnStack

namespace Tunnel

/-! ## Statuses and profiles -/

/-- The stages both sides of the channel know. -/
inductive Stage where
  | disconnected
  | connecting
  | connected
  | failed
  deriving DecidableEq, Repr

/-- A status, of the profile it is about. -/
structure Status (π : Type) where
  stage : Stage
  profileId : Option π := none
  deriving DecidableEq, Repr

def Status.idle {π : Type} : Status π := { stage := .disconnected }

def Status.isBusy {π : Type} (s : Status π) : Bool := s.stage = .connecting

def Status.isUp {π : Type} (s : Status π) : Bool := s.stage = .connected

/-- A configuration, and the profile it was built for. The platform is handed the text alone. -/
structure Config (π κ : Type) where
  owner : π
  text : κ
  deriving DecidableEq, Repr

/-- `TunnelProfile`, with the text `_buildConfig` makes of it, if it does not throw. -/
structure Profile (π κ : Type) where
  id : π
  isConnectable : Bool := true
  built : Option κ
  deriving DecidableEq, Repr

/-- The commands of the method channel. -/
inductive Command (π κ : Type) where
  | prepare
  | requestPermission
  | start (config : Config π κ)
  | stop
  | removeProfile
  deriving DecidableEq, Repr

/-- The reply to a command: a value, a `PlatformException`, or a `MissingPluginException`. -/
inductive Reply where
  | value (b : Bool)
  | refused
  | missing
  deriving DecidableEq, Repr

/-! ## The calls -/

/-- Where a call is. The stop of a `forgetProfile` is a `disconnect` inside it, so the phases of a stop carry the profile that is
to be forgotten behind it. -/
inductive Phase (π κ : Type) where
  | idle
  /-- It waits for the reply to `prepare`. -/
  | preparing (config : Config π κ)
  /-- It waits for the reply to `requestPermission`. -/
  | asking (config : Config π κ)
  /-- It waits for the reply to `start`. -/
  | starting (id : π)
  /-- It waits for a settled status, 45 seconds. -/
  | connecting (id : π)
  /-- `connect` completed normally. -/
  | connected
  /-- It waits for the reply to `stop`. -/
  | stopping (forgets : Option π)
  /-- It waits for a settled status, 20 seconds. -/
  | disconnecting (forgets : Option π)
  /-- `disconnect` completed normally. -/
  | stopped
  /-- It waits for the reply to `removeProfile`, and whether the stop before it, if there was one, completed normally. -/
  | removing (id : π) (stop : Option Bool)
  /-- `forgetProfile` completed, with a complaint or with null. -/
  | forgotten (id : π) (complaint : Bool)
  | threw
  deriving DecidableEq, Repr

/-- The call has not been made. -/
def Phase.isIdle {π κ : Type} : Phase π κ → Bool
  | idle => true
  | _ => false

/-- The state of the controller. `settled` is what each call's completer was completed with. -/
structure Controller (ι π κ : Type) where
  status : Status π := .idle
  activeProfileId : Option π := none
  settlers : List ι := []
  settled : ι → Option Stage := fun _ => none
  phases : ι → Phase π κ := fun _ => .idle

/-- What happens to the controller: a call is made, the platform replies to a call's command or sends a status, a call goes on
with the status it waited for, or its wait runs out. -/
inductive Input (ι π κ : Type) where
  | connect (i : ι) (profile : Profile π κ)
  | disconnect (i : ι)
  | forgetProfile (i : ι) (id : π)
  | reply (i : ι) (r : Reply)
  | status (stage : Stage)
  | resume (i : ι)
  | timeout (i : ι)
  deriving DecidableEq, Repr

variable {ι π κ : Type}

namespace Controller

variable [DecidableEq ι] (k : Controller ι π κ) (i : ι)

def emit (stage : Stage) (profileId : Option π) : Controller ι π κ := { k with status := ⟨stage, profileId⟩ }

def goto (phase : Phase π κ) : Controller ι π κ := { k with phases := Function.update k.phases i phase }

/-- `_nextSettled`. -/
def nextSettled : Controller ι π κ := { k with settlers := k.settlers ++ [i] }

/-- `_settle`. -/
def settle (stage : Stage) : Controller ι π κ :=
  { k with settled := fun j => if j ∈ k.settlers then some stage else k.settled j, settlers := [] }

/-- `_onPlatformStatus`, and `_onPlatformError` with a failed one. A status of a shape it cannot read is a failed one. -/
def onPlatformStatus (stage : Stage) : Controller ι π κ :=
  if stage = .connecting then k.emit stage k.activeProfileId else (k.emit stage k.activeProfileId).settle stage

/-- `_fail`, in a `connect`. -/
def fail (profileId : Option π) : Controller ι π κ := (k.emit .failed profileId).goto i .threw

/-- The next state, and the command that was sent, with the call that waits for its reply. -/
abbrev Next (ι π κ : Type) := Controller ι π κ × Option (ι × Command π κ)

/-- Nothing is sent. -/
def quiet : Next ι π κ := (k, none)

/-- The rest of a `disconnect` that completed normally: a `forgetProfile` goes on. -/
def stopped : Option π → Next ι π κ
  | none => (k.goto i .stopped).quiet
  | some p => (k.goto i (.removing p (some true)), some (i, .removeProfile))

/-- The rest of a `disconnect` that threw: a `forgetProfile` keeps the complaint and goes on. -/
def unstopped : Option π → Next ι π κ
  | none => (k.goto i .threw).quiet
  | some p => (k.goto i (.removing p (some false)), some (i, .removeProfile))

/-- The start, with the settler registered in front of it. -/
def start (config : Config π κ) : Next ι π κ := ((k.nextSettled i).goto i (.starting config.owner), some (i, .start config))

/-- The stop, with the settler registered in front of it. -/
def stop (forgets : Option π) : Next ι π κ := ((k.nextSettled i).goto i (.stopping forgets), some (i, .stop))

/-- `connect`, up to its first await. -/
def connect (profile : Profile π κ) : Next ι π κ :=
  if profile.isConnectable then
    let k := { k with activeProfileId := some profile.id }.emit .connecting (some profile.id)
    match profile.built with
    | none => (k.fail i (some profile.id)).quiet
    | some text => (k.goto i (.preparing ⟨profile.id, text⟩), some (i, .prepare))
  else (k.fail i (some profile.id)).quiet

/-- `disconnect`, up to its first await. -/
def disconnect : Next ι π κ :=
  if k.status.stage = .disconnected then ({ k with status := .idle }.goto i .stopped).quiet else k.stop i none

/-- `forgetProfile`, up to its first await. -/
def forgetProfile [DecidableEq π] (id : π) : Next ι π κ :=
  if k.status.profileId.isSome ∧ k.status.profileId ≠ some id then (k.goto i (.forgotten id false)).quiet
  else if k.status.isUp ∨ k.status.isBusy then k.stop i (some id)
  else (k.goto i (.removing id none), some (i, .removeProfile))

/-- A call goes on with the reply to its command. -/
def reply (r : Reply) : Option (Next ι π κ) :=
  match k.phases i, r with
  | .preparing config, .value true => some (k.start i config)
  | .preparing config, .value false => some (k.goto i (.asking config), some (i, .requestPermission))
  | .preparing config, _ => some (k.fail i (some config.owner)).quiet
  | .asking config, .value true => some (k.start i config)
  | .asking config, _ => some (k.fail i (some config.owner)).quiet
  | .starting id, .value _ => some (k.goto i (.connecting id)).quiet
  | .starting id, _ => some (k.fail i (some id)).quiet
  | .stopping forgets, .value _ => some (k.goto i (.disconnecting forgets)).quiet
  | .stopping forgets, _ => some ((k.emit .failed k.activeProfileId).unstopped i forgets)
  | .removing id _, .refused => some (k.goto i (.forgotten id true)).quiet
  | .removing id stop, _ => some (k.goto i (.forgotten id (stop == some false))).quiet
  | _, _ => none

/-- A call goes on with the status it waited for. -/
def resume : Option (Next ι π κ) :=
  match k.phases i, k.settled i with
  | .connecting _, some stage => some (k.goto i (if stage = .connected then .connected else .threw)).quiet
  | .disconnecting forgets, some stage => some (if stage = .failed then k.unstopped i forgets else k.stopped i forgets)
  | _, _ => none

/-- The wait of a call runs out. -/
def timeout : Option (Next ι π κ) :=
  match k.phases i, k.settled i with
  | .connecting id, none => some (k.fail i (some id)).quiet
  | .disconnecting forgets, none => some ((k.emit .failed k.activeProfileId).unstopped i forgets)
  | _, _ => none

/-- What the controller does, and what it sends. -/
def next [DecidableEq π] : Input ι π κ → Option (Next ι π κ)
  | .connect i profile => if (k.phases i).isIdle then some (k.connect i profile) else none
  | .disconnect i => if (k.phases i).isIdle then some (k.disconnect i) else none
  | .forgetProfile i id => if (k.phases i).isIdle then some (k.forgetProfile i id) else none
  | .reply i r => k.reply i r
  | .status stage => some (k.onPlatformStatus stage).quiet
  | .resume i => k.resume i
  | .timeout i => k.timeout i

end Controller

end Tunnel

end VpnStack

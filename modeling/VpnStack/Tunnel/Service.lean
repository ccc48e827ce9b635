import VpnStack.Tunnel.Controller

/-!
# The tunnel service on Android

`SingboxVpnService`, `SingboxTunnelPlugin` and `TunnelState`, as far as they start and stop the engine and publish what became of
it. Two threads matter: the main looper, which runs one callback after the other (the plugin's commands and the service's own),
and the worker of each instance of the service, which runs its tasks in the order they were queued. A thread is what is left of
the callback or of the tasks it is in, one access to what they share at a time, so that a run is any interleaving of the two. The
wait at the end of `onDestroy` may run out at any time, and is left out for that reason.
-/

namespace VpnStack

namespace Tunnel

namespace Android

/-- The object `TunnelState`, with the statuses it has posted to the main looper for the listeners. -/
structure TunnelState where
  current : Stage := .disconnected
  serviceRunning : Bool := false
  posted : List Stage := []
  deriving DecidableEq, Repr

/-- What a worker does next. A task is as many of these as it makes accesses; a start is the first two, and goes on with what
they lead to. -/
inductive WorkerOp (κ : Type) where
  /-- `resolveStartRequest`, with the configuration of the intent. -/
  | resolve (config : Option κ)
  /-- `startOrReloadService`, and the look at `tunDescriptor` behind it. -/
  | launch (config : κ)
  | releaseEngine
  | forgetStartRequest
  /-- `TunnelState.serviceRunning = false`. -/
  | stopped
  /-- The two halves of `TunnelState.set`: the write, and the post to the listeners. -/
  | write (stage : Stage)
  | post (stage : Stage)
  | postStopSelf
  deriving DecidableEq, Repr

/-- The commands an app or the system gives the service. One of the system carries no configuration. -/
inductive Intent (κ : Type) where
  | start (config : Option κ)
  | stop
  deriving DecidableEq, Repr

/-- What the main looper does next, in the callback it is in. -/
inductive MainOp (κ : Type) where
  | write (stage : Stage)
  | post (stage : Stage)
  | stopped
  /-- `startForegroundService` or `startService`, which may throw. -/
  | send (intent : Intent κ)
  /-- `worker.execute { startBox(..) }`. -/
  | executeStartBox (config : Option κ)
  /-- The argument of `TunnelState.set(TunnelState.current)`. -/
  | republish
  /-- The first half of the condition of `onDestroy`, and the second. -/
  | correctConnected
  | correctConnecting
  /-- `worker.execute { releaseEngine() }`. -/
  | executeRelease
  /-- `worker.shutdown()`. -/
  | shutdownWorker
  deriving DecidableEq, Repr

/-- The engine: the configuration it was started with, and whether a TUN is open. -/
structure Engine (κ : Type) where
  config : κ
  tun : Bool
  deriving DecidableEq, Repr

/-- An instance of the service, with its worker. It is `closed` when its `onDestroy` has shut the worker down, and `leaving` when
its `stopSelf` has been posted. -/
structure Service (κ : Type) where
  boxStarted : Bool := false
  engine : Option (Engine κ) := none
  work : List (WorkerOp κ) := []
  closed : Bool := false
  leaving : Bool := false
  deriving DecidableEq, Repr

/-- The device: what the threads share, the file of the start request, the commands that are on their way to the service, the main
looper, the service (the last one there was) and those before it. -/
structure Device (κ : Type) where
  state : TunnelState := {}
  startRequest : Option κ := none
  intents : List (Intent κ) := []
  main : List (MainOp κ) := []
  service : Service κ := { closed := true }
  former : List (Service κ) := []
  deriving DecidableEq, Repr

/-- What the outside decides at a step: whether what it calls works, and whether a TUN is open when the engine returns or
throws. -/
structure Luck where
  ok : Bool := true
  tun : Bool := true
  deriving DecidableEq, Repr

variable {κ : Type}

/-! ## The worker -/

/-- The task of a `shutdown`. -/
def shutdownTask (stage : Stage) (forget : Bool) : List (WorkerOp κ) :=
  .releaseEngine :: (if forget then [.forgetStartRequest] else []) ++ [.stopped, .write stage, .post stage, .postStopSelf]

namespace Service

/-- `shutdown`, when the main looper calls it and the worker is not closed. -/
def shutdown (s : Service κ) (stage : Stage) (forget : Bool) : Service κ :=
  { s with work := s.work ++ shutdownTask stage forget }

/-- `shutdown` of a start that failed. The worker calls it, and does the rest itself when it is closed. -/
def fail (s : Service κ) : Service κ :=
  if s.closed then { s with work := [.stopped, .write .failed, .post .failed] ++ s.work } else s.shutdown .failed false

/-- The next access of the worker. -/
def step (s : Service κ) (luck : Luck) (state : TunnelState) (startRequest : Option κ) :
    Option (Service κ × TunnelState × Option κ) :=
  match s.work with
  | [] => none
  | .resolve (some config) :: rest =>
    some ({ s with work := .launch config :: rest }, state, if luck.ok then some config else startRequest)
  | .resolve none :: rest =>
    match if luck.ok then startRequest else none with
    | some config => some ({ s with work := .launch config :: rest }, state, startRequest)
    | none => some (fail { s with work := rest }, state, startRequest)
  | .launch config :: rest =>
    let engine := some ⟨config, luck.tun⟩
    if luck.ok ∧ luck.tun then
      some ({ s with engine, work := .write .connected :: .post .connected :: rest }, state, startRequest)
    else some (fail { s with engine, work := rest }, state, startRequest)
  | .releaseEngine :: rest => some ({ s with engine := none, boxStarted := false, work := rest }, state, startRequest)
  | .forgetStartRequest :: rest => some ({ s with work := rest }, state, none)
  | .stopped :: rest => some ({ s with work := rest }, { state with serviceRunning := false }, startRequest)
  | .write stage :: rest => some ({ s with work := rest }, { state with current := stage }, startRequest)
  | .post stage :: rest => some ({ s with work := rest }, { state with posted := state.posted ++ [stage] }, startRequest)
  | .postStopSelf :: rest => some ({ s with work := rest, leaving := true }, state, startRequest)

end Service

/-! ## The main looper -/

namespace Device

/-- `start` of the plugin, behind its checks. -/
def start (d : Device κ) (config : κ) : Device κ :=
  { d with main := [.write .connecting, .post .connecting, .send (.start (some config))] }

/-- `stop` of the plugin. -/
def stop (d : Device κ) : Device κ :=
  if d.state.serviceRunning then { d with main := [.send .stop] }
  else { d with main := [.write .disconnected, .post .disconnected] }

/-- `onCreate`, when there is no instance. -/
def onCreate (d : Device κ) : Device κ :=
  if d.service.closed then
    { d with former := d.former ++ [d.service], service := {}, state := { d.state with serviceRunning := true } }
  else d

/-- `onStartCommand`. -/
def onStartCommand (d : Device κ) : Intent κ → Device κ
  | .stop => { d with service := d.service.shutdown .disconnected true }
  | .start config =>
    if d.service.boxStarted then { d with main := [.republish] }
    else { d with service := { d.service with boxStarted := true },
                  main := [.write .connecting, .post .connecting, .executeStartBox config] }

/-- `onRevoke`. An instance that is destroyed only reports. -/
def onRevoke (d : Device κ) : Device κ :=
  if d.service.closed then { d with main := [.stopped, .write .failed, .post .failed] }
  else { d with service := d.service.shutdown .failed false }

/-- `onDestroy`. -/
def onDestroy (d : Device κ) : Device κ :=
  { d with main := [.stopped, .correctConnected, .executeRelease, .shutdownWorker] }

/-- The next access of the main looper. -/
def mainStep (d : Device κ) (luck : Luck) : Option (Device κ) :=
  match d.main with
  | [] => none
  | .write stage :: rest => some { d with main := rest, state := { d.state with current := stage } }
  | .post stage :: rest => some { d with main := rest, state := { d.state with posted := d.state.posted ++ [stage] } }
  | .stopped :: rest => some { d with main := rest, state := { d.state with serviceRunning := false } }
  | .send intent :: rest =>
    if luck.ok then some { d with main := rest, intents := d.intents ++ [intent] }
    else some { d with main := .write .failed :: .post .failed :: rest }
  | .executeStartBox config :: rest =>
    some { d with main := rest, service := { d.service with work := d.service.work ++ [.resolve config] } }
  | .republish :: rest => some { d with main := .write d.state.current :: .post d.state.current :: rest }
  | .correctConnected :: rest =>
    if d.state.current = .connected then some { d with main := .write .failed :: .post .failed :: rest }
    else some { d with main := .correctConnecting :: rest }
  | .correctConnecting :: rest =>
    if d.state.current = .connecting then some { d with main := .write .failed :: .post .failed :: rest }
    else some { d with main := rest }
  | .executeRelease :: rest =>
    some { d with main := rest, service := { d.service with work := d.service.work ++ [.releaseEngine] } }
  | .shutdownWorker :: rest => some { d with main := rest, service := { d.service with closed := true } }

/-- The next access of the worker of the service. -/
def workerStep (d : Device κ) (luck : Luck) : Option (Device κ) :=
  (d.service.step luck d.state d.startRequest).map fun r =>
    { d with service := r.1, state := r.2.1, startRequest := r.2.2 }

/-- The next access of the worker of an instance before it. -/
def formerStep (d : Device κ) (n : Nat) (luck : Luck) : Option (Device κ) :=
  d.former[n]?.bind fun s => (s.step luck d.state d.startRequest).map fun r =>
    { d with former := d.former.set n r.1, state := r.2.1, startRequest := r.2.2 }

end Device

/-- What happens on the device. A callback begins when the main looper is in none. -/
inductive Action (κ : Type) where
  | start (config : κ)
  | stop
  /-- Always-on, or a restart after the process was reclaimed: Android starts the service itself. -/
  | systemStart
  /-- The Stop of the notification. -/
  | notificationStop
  | onStartCommand
  | onRevoke
  | onDestroy
  | main (luck : Luck)
  | worker (luck : Luck)
  | former (n : Nat) (luck : Luck)
  deriving DecidableEq, Repr

namespace Device

/-- One step of the device. -/
def step (d : Device κ) : Action κ → Option (Device κ)
  | .start config => if d.main.isEmpty then some (d.start config) else none
  | .stop => if d.main.isEmpty then some d.stop else none
  | .systemStart => some { d with intents := d.intents ++ [.start none] }
  | .notificationStop => some { d with intents := d.intents ++ [.stop] }
  | .onStartCommand =>
    match d.main, d.intents with
    | [], intent :: rest => some ({ d with intents := rest }.onCreate.onStartCommand intent)
    | _, _ => none
  | .onRevoke => if d.main.isEmpty then some d.onRevoke else none
  | .onDestroy => if d.main.isEmpty ∧ ¬ d.service.closed then some d.onDestroy else none
  | .main luck => d.mainStep luck
  | .worker luck => d.workerStep luck
  | .former n luck => d.formerStep n luck

end Device

end Android

end Tunnel

end VpnStack

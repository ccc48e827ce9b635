import VpnStack.Tunnel.Service

/-!
# The two sides of the channel

`SingboxTunnel` on one side, `SingboxTunnelPlugin` and the service on the other, and what is under way between them: the commands in
the order they were sent, the replies, and the statuses `TunnelState` has posted, which the plugin's listener passes on in that
order. The plugin takes a command in a callback of the main looper, and answers at its end. The platform is handed the text of a
configuration alone; here the profile it was built for goes along with it, and nothing on the device looks at that.
-/

namespace VpnStack

namespace Tunnel

open Android

/-- The controller, the device, and what is under way between them. `answer` is what the callback of a command will answer to which
call, and `heard` is how many of the statuses posted have arrived. The listener is told at once what the state is. -/
structure System (ι π κ : Type) where
  app : Controller ι π κ := {}
  device : Device (Config π κ) := { state := { posted := [.disconnected] } }
  commands : List (ι × Command π κ) := []
  answer : Option (ι × Reply) := none
  replies : List (ι × Reply) := []
  heard : Nat := 0

/-- What happens to the two sides. -/
inductive Event (ι π κ : Type) where
  /-- A call is made, goes on with the status it waited for, or its wait runs out. -/
  | app (input : Input ι π κ)
  /-- The next status arrives. -/
  | status
  /-- One of the replies arrives. -/
  | reply (n : Nat)
  /-- The plugin takes the next command, and this is its answer if it has one at once. -/
  | command (r : Reply)
  /-- The callback of a command is at its end. -/
  | answer
  /-- The device goes on: the main looper, a worker, or Android. -/
  | device (a : Action (Config π κ))
  deriving DecidableEq, Repr

variable {ι π κ : Type}

/-- What the app and the clock bring about. -/
def Input.ofApp : Input ι π κ → Bool
  | .reply .. | .status _ => false
  | _ => true

namespace Android

/-- What only the plugin does. -/
def Action.ofPlugin : Action κ → Bool
  | .start _ | .stop => true
  | _ => false

/-- What the main looper runs in a callback of its own. -/
def Action.begins : Action κ → Bool
  | .onStartCommand | .onRevoke | .onDestroy => true
  | _ => false

/-- A command to the service is refused by Android. -/
def Device.refuses (d : Device κ) : Action κ → Bool
  | .main luck => !luck.ok && d.main.head?.any fun op => match op with
    | .send _ => true
    | _ => false
  | _ => false

end Android

namespace System

variable [DecidableEq ι] [DecidableEq π] (s : System ι π κ)

/-- The controller goes on, and what it sends is under way. -/
def goOn (input : Input ι π κ) : Option (System ι π κ) :=
  (s.app.next input).map fun n => { s with app := n.1, commands := s.commands ++ n.2.toList }

/-- The plugin has answered. -/
def answered (i : ι) (r : Reply) : System ι π κ := { s with replies := s.replies ++ [(i, r)] }

/-- The plugin is in the callback of a command, which will say that it went well. -/
def calls (i : ι) (a : Action (Config π κ)) : Option (System ι π κ) :=
  (s.device.step a).map fun d => { s with device := d, answer := some (i, .value true) }

/-- `onMethodCall`. A `start` and a `stop` are refused at once with no context, and a `start` with no permission. -/
def onMethodCall (i : ι) : Command π κ → Reply → Option (System ι π κ)
  | .prepare, .value b => some (s.answered i (.value b))
  | .requestPermission, .value b => some (s.answered i (.value b))
  | .requestPermission, .refused => some (s.answered i .refused)
  | .start config, .value true => s.calls i (.start config)
  | .start _, .refused => some (s.answered i .refused)
  | .stop, .value true => s.calls i .stop
  | .stop, .refused => some (s.answered i .refused)
  | .removeProfile, .missing => some (s.answered i .missing)
  | _, _ => none

/-- The device goes on. A callback of a command is not interrupted by another one, and says so when Android refuses its command. -/
def deviceStep (a : Action (Config π κ)) : Option (System ι π κ) :=
  if a.ofPlugin ∨ a.begins ∧ s.answer.isSome then none
  else (s.device.step a).map fun d =>
    { s with device := d, answer := if s.device.refuses a then s.answer.map fun x => (x.1, .refused) else s.answer }

/-- One step of the two sides. -/
def step : Event ι π κ → Option (System ι π κ)
  | .app input => if input.ofApp then s.goOn input else none
  | .status => s.device.state.posted[s.heard]?.bind fun stage => goOn { s with heard := s.heard + 1 } (.status stage)
  | .reply n => s.replies[n]?.bind fun r => goOn { s with replies := s.replies.eraseIdx n } (.reply r.1 r.2)
  | .command r =>
    match s.commands with
    | (i, c) :: rest =>
      if s.device.main.isEmpty ∧ s.answer.isNone then onMethodCall { s with commands := rest } i c r else none
    | [] => none
  | .answer =>
    match s.answer with
    | some x => if s.device.main.isEmpty then some ({ s with answer := none }.answered x.1 x.2) else none
    | none => none
  | .device a => s.deviceStep a

end System

end Tunnel

end VpnStack

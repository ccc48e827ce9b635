import VpnStack.Lib.Transition

/-!
# One open conversation with one server

`ServerSession` of `ui/models.dart`. Its operations are asynchronous: each call is at one of its awaits, between two awaits
nothing else runs, and which await is answered next, and how, is up to the outside. A call takes its own steps up to the next
await; the server runs the commands that were sent one at a time, and an answer comes any time later, or never.
-/

namespace VpnStack

namespace Session

/-! ## The data -/

/-- What a call may fail with: a `VpnctlTransportError`, or anything else. -/
inductive Failure where
  | transport
  | other
  deriving DecidableEq, Repr

/-- The commands of `Vpnctl` the session sends. -/
inductive Command where
  | status
  | listProtocols
  | listUsers
  | addUser (name : String)
  | removeUser (name : String)
  | setUserEnabled (name : String) (enabled : Bool)
  | setProtocol (name : String) (enabled : Bool)
  | exportUser (user : String)
  deriving DecidableEq, Repr

/-- A `ShareBundle`, by how many commands the server had completed when it was exported. -/
structure Bundle where
  exportedAt : Nat
  deriving DecidableEq, Repr

/-- The methods of the session that talk to the server. -/
inductive Operation where
  | refresh
  | addUser (name : String)
  | removeUser (name : String)
  | setUserEnabled (name : String) (enabled : Bool)
  | setProtocol (name : String) (enabled : Bool)
  | loadShare (user : String) (force : Bool)
  deriving DecidableEq, Repr

/-- The fields of `ServerSession`. A connection is told by its number among those that were opened; `vpnctl` is the one the cached
`Vpnctl` runs over. -/
structure Fields where
  connection : Option Nat := none
  vpnctl : Option Nat := none
  closed : Bool := false
  busy : Bool := false
  error : Option Failure := none
  bundles : String → Option Bundle := fun _ => none
  bundleErrors : String → Option Failure := fun _ => none
  bundlesLoading : String → Bool := fun _ => false

/-- `_bundles.remove(name)` and `_bundleErrors.remove(name)`. -/
def Fields.forget (s : Fields) (name : String) : Fields :=
  { s with
    bundles := Function.update s.bundles name none
    bundleErrors := Function.update s.bundleErrors name none }

/-- `_bundles.clear()` and `_bundleErrors.clear()`. -/
def Fields.clear (s : Fields) : Fields := { s with bundles := fun _ => none, bundleErrors := fun _ => none }

/-- The commands an operation sends, one after the answer to the other. -/
def Operation.commands : Operation → List Command
  | .refresh => [.status, .listProtocols, .listUsers]
  | .addUser name => [.addUser name, .listUsers, .status]
  | .removeUser name => [.removeUser name, .listUsers, .status]
  | .setUserEnabled name enabled => [.setUserEnabled name enabled, .listUsers]
  | .setProtocol name enabled => [.setProtocol name enabled, .listProtocols, .status]
  | .loadShare user _ => [.exportUser user]

/-- What an operation does to the bundles when the answer to a command comes. -/
def Operation.answered : Operation → Command → Nat → Fields → Fields
  | .removeUser name, .removeUser _, _, s => s.forget name
  | .setUserEnabled name _, .setUserEnabled .., _, s => s.forget name
  | .setProtocol .., .status, _, s => s.clear
  | .loadShare user _, .exportUser _, exportedAt, s =>
    { s with bundles := Function.update s.bundles user (some ⟨exportedAt⟩) }
  | _, _, _, s => s

/-! ## The calls and the server -/

/-- The await a call is at. -/
inductive Await where
  /-- `access.open()`. -/
  | opening
  /-- `opened.close()`, of a connection that came after the session was closed. -/
  | closing
  /-- `_open()`, which has its `Vpnctl`. -/
  | ready (control : Nat)
  /-- The answer to a command, with those still to be sent. -/
  | answer (control : Nat) (command : Command) (left : List Command)
  deriving DecidableEq, Repr

inductive Call where
  | idle
  | pending (op : Operation) (await : Await)
  | ended
  deriving DecidableEq, Repr

/-- What became of the last command a call sent. A command is completed behind so many others. -/
inductive Ticket where
  | none
  | queued (command : Command)
  | completed (before : Nat)
  | refused
  deriving DecidableEq, Repr

/-- The session, its calls, how many connections were opened for it and which of them `close` was called on, and the server: what
it has of each call, and the commands it completed, in order. -/
structure World (ι : Type) where
  fields : Fields := {}
  calls : ι → Call := fun _ => .idle
  opened : Nat := 0
  shut : List Nat := []
  tickets : ι → Ticket := fun _ => .none
  log : List Command := []

inductive Event (ι : Type) where
  /-- A method of the session is called. -/
  | call (i : ι) (op : Operation)
  /-- `access.open()` returns a connection. -/
  | opened (i : ι)
  /-- What the call waits for throws. -/
  | failed (i : ι) (failure : Failure)
  /-- `opened.close()` returns. -/
  | closed (i : ι)
  /-- `_open()` returns to its caller. -/
  | resume (i : ι)
  /-- The server runs the command the call sent, and completes it or refuses it. -/
  | execute (i : ι) (completes : Bool)
  /-- The answer to a completed command arrives. -/
  | answered (i : ι)
  /-- `dispose`. -/
  | dispose
  deriving DecidableEq, Repr

section

variable {ι : Type} [DecidableEq ι]

def World.at (w : World ι) (i : ι) (call : Call) : World ι := { w with calls := Function.update w.calls i call }

/-- `_dropConnection`. The close is not awaited. -/
def World.dropConnection (w : World ι) : World ι :=
  { w with
    fields := { w.fields with connection := none, vpnctl := none }
    shut := w.shut ++ w.fields.connection.toList }

/-- What `_reportable` does besides building its sentence. -/
def World.reportable (w : World ι) : Failure → World ι
  | .transport => w.dropConnection
  | .other => w

/-- The end of `_guard` and of `loadShare`: the `catch`, and what is behind it. -/
def World.finish (w : World ι) (i : ι) (op : Operation) (failure : Option Failure) : World ι :=
  let w := failure.elim w w.reportable
  let fields := match op with
    | .loadShare user _ =>
      { w.fields with
        bundleErrors := failure.elim w.fields.bundleErrors fun f => Function.update w.fields.bundleErrors user (some f)
        bundlesLoading := Function.update w.fields.bundlesLoading user false }
    | _ => { w.fields with error := failure <|> w.fields.error, busy := false }
  { w with fields }.at i .ended

/-- `_open`, up to its await. -/
def World.open (w : World ι) (i : ι) (op : Operation) : World ι :=
  w.at i (.pending op (w.fields.vpnctl.elim .opening .ready))

/-- `_guard`, up to the first await of its body. It returns at once while another call holds the session. -/
def World.guard (w : World ι) (i : ι) (op : Operation) : World ι :=
  if w.fields.busy then w.at i .ended
  else { w with fields := { w.fields with busy := true, error := none } }.open i op

/-- `loadShare`, up to its first await. It returns at once while the bundle is being loaded, and where it is there. -/
def World.loadShare (w : World ι) (i : ι) (user : String) (force : Bool) : World ι :=
  if w.fields.bundlesLoading user || !force && (w.fields.bundles user).isSome then w.at i .ended
  else
    { w with fields := { w.fields with
        bundlesLoading := Function.update w.fields.bundlesLoading user true
        bundleErrors := Function.update w.fields.bundleErrors user none } }.open i (.loadShare user force)

def World.start (w : World ι) (i : ι) : Operation → World ι
  | .loadShare user force => w.loadShare i user force
  | op => w.guard i op

/-- `_open`, behind `access.open()`. -/
def World.onOpened (w : World ι) (i : ι) (op : Operation) : World ι :=
  if w.fields.closed then { w with opened := w.opened + 1, shut := w.shut ++ [w.opened] }.at i (.pending op .closing)
  else
    { w with
      opened := w.opened + 1
      fields := { w.fields with connection := some w.opened, vpnctl := some w.opened } }.at i (.pending op (.ready w.opened))

/-- The next command, or the end of the body. -/
def World.send (w : World ι) (i : ι) (op : Operation) (control : Nat) : List Command → World ι
  | [] => w.finish i op none
  | command :: left =>
    { w with tickets := Function.update w.tickets i (.queued command) }.at i (.pending op (.answer control command left))

/-- The server is done with a command. -/
def World.executed (w : World ι) (i : ι) (command : Command) (completes : Bool) : World ι :=
  if completes then
    { w with tickets := Function.update w.tickets i (.completed w.log.length), log := w.log ++ [command] }
  else { w with tickets := Function.update w.tickets i .refused }

def step (w : World ι) : Event ι → Option (World ι)
  | .call i op => if w.calls i = .idle then some (w.start i op) else none
  | .opened i =>
    match w.calls i with
    | .pending op .opening => some (w.onOpened i op)
    | _ => none
  | .failed i failure =>
    match w.calls i with
    | .pending _ (.ready _) => none
    | .pending op _ => some (w.finish i op (some failure))
    | _ => none
  | .closed i =>
    match w.calls i with
    | .pending op .closing => some (w.finish i op (some .other))
    | _ => none
  | .resume i =>
    match w.calls i with
    | .pending op (.ready control) => some (w.send i op control op.commands)
    | _ => none
  | .execute i completes =>
    match w.tickets i with
    | .queued command => some (w.executed i command completes)
    | _ => none
  | .answered i =>
    match w.calls i, w.tickets i with
    | .pending op (.answer control command left), .completed before =>
      some ({ w with fields := op.answered command before w.fields }.send i op control left)
    | _, _ => none
  | .dispose => some { w with fields := { w.fields with closed := true } }.dropConnection

/-- No call is in flight. -/
def World.Quiet (w : World ι) : Prop := ∀ i op await, w.calls i ≠ .pending op await

end

end Session

end VpnStack

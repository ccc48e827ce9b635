import VpnStack.Apply

/-!
# The commands

The commands of `cli.py` that change the users, the protocols and what is applied. Each of them writes its intent to the disk
before it applies. Between two commands the server goes on living: containers stop, start and disappear, and the keyring, the
settings and the checkout change.
-/

namespace VpnStack

open Python Interaction

section Commands

variable (py : CaseMap)

/-- `cmd_user_add`. -/
def userAdd (name : Text) : Cmd ApplyResult := do
  call .requireServer
  match Users.validateName py name with
  | some error => Script.raise (die error)
  | none => do
    let users : List User ← call .loadUsers
    match Users.find py users name with
    | some _ => Script.raise (die ["User ", .repr name, " already exists."])
    | none => do
      let minted : Minted ← call .mint
      let user : User := ⟨name, minted.vlessUuid, minted.hysteria2Password, minted.l2tpPassword, false, true,
        minted.createdAt, minted.dnsttPassword⟩
      call (.saveUsers (users ++ [user]))
      apply py true

/-- Queue the revocation of a user's certificate, if the record says there is one. -/
def queueRevocation (user : User) : Cmd Unit :=
  if user.ikev2Provisioned then do
    let st : State ← call .loadState
    if user.name ∈ st.revokePending then pure ()
    else call (.saveState { st with revokePending := st.revokePending ++ [user.name] })
  else pure ()

/-- `cmd_user_rm`. -/
def userRm (name : Text) : Cmd ApplyResult := do
  call .requireServer
  let users : List User ← call .loadUsers
  match Users.find py users name with
  | none => Script.raise (die ["No such user: ", .repr name])
  | some user => do
    queueRevocation user
    call (.saveUsers (users.filter fun u => py.lower u.name ≠ py.lower name))
    apply py true

/-- The records with the first of that name, case folded, enabled or disabled. -/
def setFirst (enabled : Bool) (name : Text) : List User → List User
  | [] => []
  | u :: us => if py.lower u.name = py.lower name then { u with enabled } :: us else u :: setFirst enabled name us

/-- It changes no name. -/
theorem map_name_setFirst (enabled : Bool) (name : Text) (users : List User) :
    (setFirst py enabled name users).map (·.name) = users.map (·.name) := by
  induction users with
  | nil => rfl
  | cons u users ih =>
    rw [setFirst]
    split
    · rfl
    · rw [List.map_cons, List.map_cons, ih]

/-- `_set_enabled`. -/
def setEnabled (name : Text) (enabled : Bool) : Cmd ApplyResult := do
  call .requireServer
  let users : List User ← call .loadUsers
  match Users.find py users name with
  | none => Script.raise (die ["No such user: ", .repr name])
  | some user => do
    if enabled then pure () else queueRevocation user
    call (.saveUsers (setFirst py enabled name users))
    apply py true

/-- `_prepare_secrets`: what only the protocol itself knows how to make. A failure takes the toggle back. -/
def prepareSecrets (proto : Protocol) (st : State) : Cmd Unit := do
  let gaps ← missingSecrets [proto]
  if gaps = [] ∨ proto.name ≠ "dnstt" then pure ()
  else do
    let produced : List (String × Bytes) ← Script.tryExcept (call (.prepare proto.name)) fun e =>
      if e.isException then some do
        call (.saveState { st with enabled := st.enabled.filter (· ≠ proto.name) })
        Script.raise (die ["could not prepare ", proto.name, ", left it disabled"])
      else none
    produced.forM fun secret => call (.writeSecret secret.1 secret.2)

/-- `protocols.get`. -/
def getProtocol (name : String) : Except Exc Protocol :=
  match (protocols py).find? fun p => p.name == name with
  | some proto => .ok proto
  | none => .error (.renderError ["unknown protocol ", .repr name.toList, "; known: ",
      .str (", ".intercalate (((protocols py).map (·.name)).insertionSort (· ≤ ·))).toList])

/-- `render.missing_deployment_config`: what `protocol on` has to refuse for, before it writes anything. -/
def missingDeploymentConfig (proto : Protocol) : Cmd (Option Message) :=
  if proto.name = "dnstt" then do
    let zone : Text ← call .dnsttZone
    return if zone = [] then some Dnstt.noZone else none
  else return none

/-- The part of `_set_protocol` behind its checks: write the toggle, make what is missing, and apply. -/
def toggleProtocol (proto : Protocol) (st : State) (on : Bool) : Cmd ApplyResult := do
  let st := { st with enabled := if on then (proto.name :: st.enabled).dedup.insertionSort (· ≤ ·)
                                 else st.enabled.filter (· ≠ proto.name) }
  call (.saveState st)
  if on then do
    prepareSecrets proto st
    apply py true
  else apply py true

/-- `_set_protocol`. A protocol that is on, or off, already is left alone. -/
def setProtocol (name : String) (on : Bool) : Cmd (Option ApplyResult) := do
  call .requireServer
  let proto ← Script.lift (getProtocol py name)
  let st : State ← call .loadState
  if on = decide (proto.name ∈ st.enabled) then return none
  else if on then do
    let gap ← missingDeploymentConfig proto
    match gap with
    | some gap => Script.raise (die gap)
    | none => some <$> toggleProtocol py proto st on
  else some <$> toggleProtocol py proto st on

/-! ## The life of a server -/

/-- What an operator can ask for. -/
inductive Action where
  | userAdd (name : Text)
  | userRm (name : Text)
  | userEnable (name : Text)
  | userDisable (name : Text)
  | protocolOn (name : String)
  | protocolOff (name : String)
  | apply (restart : Bool)

/-- The command of an action. -/
def Action.command : Action → Cmd (Option ApplyResult)
  | .userAdd name => some <$> VpnStack.userAdd py name
  | .userRm name => some <$> VpnStack.userRm py name
  | .userEnable name => some <$> setEnabled py name true
  | .userDisable name => some <$> setEnabled py name false
  | .protocolOn name => setProtocol py name true
  | .protocolOff name => setProtocol py name false
  | .apply restart => some <$> VpnStack.apply py restart

end Commands

/-- What happens to a server between two commands: a container exits, is removed, or is started by the daemon, and somebody
changes the keyring, the settings or the checkout. -/
inductive Event where
  | stop (s : Service)
  | remove (s : Service)
  | start (s : Service)
  | secret (name : String) (content : Option Bytes)
  | zone (value : Text)
  | common (files : Dir)

def Event.after : Event → World → World
  | .stop s, w => { w with docker := w.docker.leave s (some false) }
  | .remove s, w => { w with docker := w.docker.leave s none }
  | .start s, w => { w with docker := ({ w.docker with clock := w.docker.clock + 1 } : Docker).start w.live s }
  | .secret name content, w => { w with keyring := Function.update w.keyring name content }
  | .zone value, w => { w with zone := value }
  | .common files, w => { w with common := files }

/-- A command with what the outside decides at each of its calls, or an event. -/
inductive Step where
  | command (action : Action) (choices : List Choice)
  | event (e : Event)

section Life

variable (host : Host)

/-- The world behind a step, whether its command returned, raised or was killed. -/
def Step.after : Step → World → World
  | .command action choices, w => ((action.command host.py).run (server host) choices w).2
  | .event e, w => e.after w

/-- The world behind a life. -/
def life (steps : List Step) (w : World) : World := steps.foldl (fun w step => step.after host w) w

/-- Every command of the life stays within the discipline. -/
def LivesWithin (d : Discipline Op World Choice) : List Step → World → Prop
  | [], _ => True
  | .command action choices :: rest, w =>
    (action.command host.py).Within (server host) d choices w ∧
      LivesWithin d rest ((Step.command action choices).after host w)
  | .event e :: rest, w => LivesWithin d rest (e.after w)

instance LivesWithin.decidable {d : Discipline Op World Choice} [∀ o c w, Decidable (d.choice o c w)]
    [∀ o w, Decidable (d.stop o w)] : (steps : List Step) → (w : World) → Decidable (LivesWithin host d steps w)
  | [], _ => isTrue trivial
  | .command action choices :: rest, w =>
    let _ : Decidable (LivesWithin host d rest ((Step.command action choices).after host w)) := LivesWithin.decidable rest _
    let _ : Decidable ((action.command host.py).Within (server host) d choices w) := inferInstance
    inferInstanceAs (Decidable ((action.command host.py).Within (server host) d choices w ∧
      LivesWithin host d rest ((Step.command action choices).after host w)))
  | .event e :: rest, w => LivesWithin.decidable rest (e.after w)

/-- What is asked of a life may be weakened. -/
theorem LivesWithin.mono {d d' : Discipline Op World Choice} (hc : ∀ o c w, d'.choice o c w → d.choice o c w)
    (hs : ∀ o w, d'.stop o w → d.stop o w) {steps : List Step} {w : World} (h : LivesWithin host d' steps w) :
    LivesWithin host d steps w := by
  induction steps generalizing w with
  | nil => trivial
  | cons step steps ih =>
    cases step with
    | event e => exact ih h
    | command a cs => exact ⟨Within.mono hc hs h.1, ih h.2⟩

theorem life_append (steps rest : List Step) (w : World) : life host (steps ++ rest) w = life host rest (life host steps w) :=
  List.foldl_append ..

/-- What is asked of a life is asked of both its parts. -/
theorem LivesWithin.append {d : Discipline Op World Choice} {steps rest : List Step} {w : World} :
    LivesWithin host d (steps ++ rest) w ↔ LivesWithin host d steps w ∧ LivesWithin host d rest (life host steps w) := by
  induction steps generalizing w with
  | nil => exact ⟨fun h => ⟨trivial, h⟩, fun h => h.2⟩
  | cons step steps ih =>
    cases step with
    | event e => exact ih
    | command a cs => exact (and_congr_right fun _ => ih).trans and_assoc.symm

/-- What every command and every event keeps, a life keeps. -/
theorem life_keeps {d : Discipline Op World Choice} {I : World → Prop}
    (hcommand : ∀ (a : Action) w, I w → ends (server host) d (a.command host.py) (fun _ => I) (fun _ => I) I w)
    (hevent : ∀ (e : Event) w, I w → I (e.after w)) {steps : List Step} {w : World} (hd : LivesWithin host d steps w)
    (hw : I w) : I (life host steps w) := by
  induction steps generalizing w with
  | nil => exact hw
  | cons step steps ih =>
    cases step with
    | event e => exact ih hd (hevent e w hw)
    | command a cs =>
      refine ih hd.2 ?_
      have hends := ends_run (hcommand a w hw) hd.1
      change I ((a.command host.py).run (server host) cs w).2
      revert hends
      generalize (a.command host.py).run (server host) cs w = result
      intro hends
      obtain ⟨_ | r, w'⟩ := result
      · exact hends
      · cases r with
        | ok r => exact hends
        | error e => exact hends

end Life

end VpnStack

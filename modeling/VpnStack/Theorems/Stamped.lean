import VpnStack.Theorems.Starts

/-!
# Whose tunnel the status is about

The platform's statuses carry no profile; the controller stamps them with the one it was last asked to connect. That is the profile
the engine runs the configuration of as long as a connect begins only where everything that is still on its way to the engine is its
own, and where an engine of another profile has nothing left to say. A `connected` that was posted for another profile, or a start of
it that still comes up, is stamped with the new one.
-/

namespace VpnStack

open Transition

namespace Tunnel

namespace Android

variable {κ : Type}

/-! ## What may still say that the tunnel is up -/

/-- The access publishes that the tunnel is up. -/
def WorkerOp.tells : WorkerOp κ → Bool
  | .write .connected | .post .connected => true
  | _ => false

/-- The access publishes that the tunnel is up. -/
def MainOp.tells : MainOp κ → Bool
  | .write .connected | .post .connected => true
  | _ => false

/-- The access starts the engine, or publishes that the tunnel is up. -/
def WorkerOp.raises : WorkerOp κ → Bool
  | .resolve _ | .launch _ => true
  | op => op.tells

/-- The command may have the service publish again what it finds. -/
def Intent.asks : Intent κ → Bool
  | .start _ => true
  | .stop => false

/-- The access hands such a command on, or publishes again. -/
def MainOp.asks : MainOp κ → Bool
  | .send intent => intent.asks
  | .republish => true
  | _ => false

/-- An instance of the service has no engine, has none to start, and has nothing to say about one. -/
structure Service.Spent (s : Service κ) : Prop where
  engine : s.engine = none
  work : ∀ op ∈ s.work, op.raises = false

/-- Nothing on the device says that the tunnel is up, and nothing will unless the engine is started: of the statuses posted, none of
those that are still to arrive does, nobody is about to publish that, and a start that would be ignored does not find it published. -/
structure Device.Hushed (n : Nat) (d : Device κ) : Prop where
  posted : ∀ stage ∈ d.state.posted.drop n, stage ≠ .connected
  main : ∀ op ∈ d.main, op.tells = false
  service : ∀ op ∈ d.service.work, op.tells = false
  again : d.state.current = .connected →
    (∀ intent ∈ d.intents, intent.asks = false) ∧ (d.main.head? = some (.write .connecting) ∨ ∀ op ∈ d.main, op.asks = false)

instance Service.Spent.decidable (s : Service κ) : Decidable s.Spent :=
  haveI : Decidable (s.engine = none) := decidable_of_iff (s.engine.isNone = true) Option.isNone_iff_eq_none
  decidable_of_iff (s.engine = none ∧ ∀ op ∈ s.work, op.raises = false) ⟨fun ⟨h₁, h₂⟩ => ⟨h₁, h₂⟩, fun ⟨h₁, h₂⟩ => ⟨h₁, h₂⟩⟩

instance Device.Hushed.decidable [DecidableEq κ] (n : Nat) (d : Device κ) : Decidable (d.Hushed n) :=
  decidable_of_iff ((∀ stage ∈ d.state.posted.drop n, stage ≠ .connected) ∧ (∀ op ∈ d.main, op.tells = false) ∧
      (∀ op ∈ d.service.work, op.tells = false) ∧ (d.state.current = .connected → (∀ intent ∈ d.intents, intent.asks = false) ∧
        (d.main.head? = some (.write .connecting) ∨ ∀ op ∈ d.main, op.asks = false)))
    ⟨fun ⟨h₁, h₂, h₃, h₄⟩ => ⟨h₁, h₂, h₃, h₄⟩, fun ⟨h₁, h₂, h₃, h₄⟩ => ⟨h₁, h₂, h₃, h₄⟩⟩

/-- An engine of the device was started with this configuration, and was not released. -/
def Device.Runs (d : Device κ) (config : κ) : Prop :=
  (∃ engine ∈ d.service.engine, engine.config = config) ∨ ∃ s ∈ d.former, ∃ engine ∈ s.engine, engine.config = config

/-- What is published says no more than before that the tunnel is up. -/
structure TunnelState.Milder (n : Nat) (state state' : TunnelState) : Prop where
  current : state'.current = .connected → state.current = .connected
  posted : ∀ stage ∈ state'.posted.drop n, stage ∈ state.posted.drop n ∨ stage ≠ .connected

/-- What is published stays as it is. -/
theorem TunnelState.Milder.refl (n : Nat) (state : TunnelState) : state.Milder n state := ⟨id, fun _ => .inl⟩

/-- Another stage is written. -/
theorem TunnelState.milder_write (n : Nat) (state : TunnelState) {stage : Stage} (h : stage ≠ .connected) :
    state.Milder n { state with current := stage } := ⟨fun hc => absurd hc h, fun _ => .inl⟩

/-- Another stage is posted. -/
theorem TunnelState.milder_post (n : Nat) (state : TunnelState) {stage : Stage} (h : stage ≠ .connected) :
    state.Milder n { state with posted := state.posted ++ [stage] } := by
  refine ⟨id, fun other hmem => ?_⟩
  rw [List.drop_append] at hmem
  refine (List.mem_append.mp hmem).imp_right fun hmem => ?_
  rw [List.mem_singleton.mp (List.mem_of_mem_drop hmem)]
  exact h

section Worker

variable {s s' : Service κ} {state state' : TunnelState} {file file' : Option κ} {n : Nat}

/-- What is written otherwise is another stage. -/
theorem write_ne_of_tells {stage : Stage} (h : (WorkerOp.write stage : WorkerOp κ).tells = false) : stage ≠ .connected := by
  rintro rfl
  cases h

/-- What is posted otherwise is another stage. -/
theorem post_ne_of_tells {stage : Stage} (h : (WorkerOp.post stage : WorkerOp κ).tells = false) : stage ≠ .connected := by
  rintro rfl
  cases h

/-- The step lemma of an instance that is spent. -/
theorem Service.Spent.access (hs : s.Spent) (n : Nat) (h : Service.Access s state file s' state' file') :
    s'.Spent ∧ state.Milder n state' := by
  have hrest : ∀ {op rest}, s.work = op :: rest → op.raises = false ∧ ∀ op ∈ rest, op.raises = false := fun hwork =>
    List.forall_mem_cons.mp (hwork ▸ hs.work)
  cases h with
  | adopt config rest hwork file' hfile => cases (hrest hwork).1
  | read config rest hwork hfile => cases (hrest hwork).1
  | absent rest hwork => cases (hrest hwork).1
  | up config rest hwork => cases (hrest hwork).1
  | down config tun rest hwork => cases (hrest hwork).1
  | release rest hwork => exact ⟨⟨rfl, (hrest hwork).2⟩, .refl n state⟩
  | write stage rest hwork => exact ⟨⟨hs.engine, (hrest hwork).2⟩, state.milder_write n (write_ne_of_tells (hrest hwork).1)⟩
  | post stage rest hwork => exact ⟨⟨hs.engine, (hrest hwork).2⟩, state.milder_post n (post_ne_of_tells (hrest hwork).1)⟩
  | stopped rest hwork => exact ⟨⟨hs.engine, (hrest hwork).2⟩, ⟨id, fun _ => .inl⟩⟩
  | _ => exact ⟨⟨hs.engine, (hrest ‹_›).2⟩, .refl n state⟩

/-- The end of a start that failed does not say that the tunnel is up. -/
theorem tells_of_ofFailure {op : WorkerOp κ} (h : op.ofFailure = true) : op.tells = false := by
  cases op with
  | write stage => cases stage <;> first | rfl | nomatch h
  | post stage => cases stage <;> first | rfl | nomatch h
  | _ => rfl

/-- A shutdown does not say that the tunnel is up. -/
theorem tells_of_mem_shutdownTask {op : WorkerOp κ} {stage : Stage} {forget : Bool} (hstage : stage ≠ .connected)
    (h : op ∈ shutdownTask stage forget) : op.tells = false := by
  cases op with
  | write other =>
    cases other with
    | connected => cases forget <;> simp [shutdownTask] at h <;> exact absurd h.symm hstage
    | _ => rfl
  | post other =>
    cases other with
    | connected => cases forget <;> simp [shutdownTask] at h <;> exact absurd h.symm hstage
    | _ => rfl
  | _ => rfl

/-- The step lemma of a worker that has nothing to say about the engine: it starts it, or still has nothing to say. -/
theorem Service.Access.hushed (h : Service.Access s state file s' state' file') (n : Nat) (hs : ∀ op ∈ s.work, op.tells = false) :
    ((∀ op ∈ s'.work, op.tells = false) ∧ state.Milder n state') ∨ ∀ engine ∈ s'.engine, .launch engine.config ∈ s.work := by
  have hrest : ∀ {op rest}, s.work = op :: rest → op.tells = false ∧ ∀ op ∈ rest, op.tells = false := fun hwork =>
    List.forall_mem_cons.mp (hwork ▸ hs)
  cases h with
  | adopt config rest hwork file' hfile => exact .inl ⟨List.forall_mem_cons.mpr ⟨rfl, (hrest hwork).2⟩, .refl n state⟩
  | read config rest hwork hfile => exact .inl ⟨List.forall_mem_cons.mpr ⟨rfl, (hrest hwork).2⟩, .refl n state⟩
  | absent rest hwork =>
    exact .inl ⟨fun op hop => (mem_work_fail hop).elim ((hrest hwork).2 op) tells_of_ofFailure, .refl n state⟩
  | up config rest hwork =>
    refine .inr fun engine hmem => ?_
    rw [hwork, ← Option.some_inj.mp hmem]
    exact List.mem_cons_self ..
  | down config tun rest hwork =>
    refine .inr fun engine hmem => ?_
    rw [engine_fail] at hmem
    rw [hwork, ← Option.some_inj.mp hmem]
    exact List.mem_cons_self ..
  | write stage rest hwork => exact .inl ⟨(hrest hwork).2, state.milder_write n (write_ne_of_tells (hrest hwork).1)⟩
  | post stage rest hwork => exact .inl ⟨(hrest hwork).2, state.milder_post n (post_ne_of_tells (hrest hwork).1)⟩
  | stopped rest hwork => exact .inl ⟨(hrest hwork).2, ⟨id, fun _ => .inl⟩⟩
  | _ => exact .inl ⟨(hrest ‹_›).2, .refl n state⟩

end Worker

section Steps

variable {d d' : Device κ} {n : Nat}

/-- What the published state says no more, keeps the device hushed. -/
theorem Device.Hushed.milder (h : d.Hushed n) {state : TunnelState} (hstate : d.state.Milder n state) {service : Service κ}
    (hservice : ∀ op ∈ service.work, op.tells = false) {former : List (Service κ)} {startRequest : Option κ} :
    Device.Hushed n { d with state, service, former, startRequest } where
  posted stage hmem := (hstate.posted stage hmem).elim (h.posted stage) id
  main := h.main
  service := hservice
  again hc := h.again (hstate.current hc)

/-- In front of any other access than the plugin's CONNECTING, a callback of a hushed device that is found connected publishes nothing
again. -/
theorem Device.Hushed.quiet (h : d.Hushed n) {op : MainOp κ} {rest : List (MainOp κ)} (hmain : d.main = op :: rest)
    (hop : op ≠ .write .connecting) (hc : d.state.current = .connected) :
    (∀ intent ∈ d.intents, intent.asks = false) ∧ op.asks = false ∧ ∀ op ∈ rest, op.asks = false := by
  obtain ⟨hintents, hhead | hasks⟩ := h.again hc
  · rw [hmain, List.head?_cons, Option.some_inj] at hhead
    exact absurd hhead hop
  · exact ⟨hintents, List.forall_mem_cons.mp (hmain ▸ hasks)⟩

/-- The step lemma of the main looper: it says nothing that it would not have said. -/
theorem Device.Access.hushed (h : Device.Access d d') (hd : d.Hushed n) : d'.Hushed n := by
  have hrest : ∀ {op rest}, d.main = op :: rest → op.tells = false ∧ ∀ op ∈ rest, op.tells = false := fun hmain =>
    List.forall_mem_cons.mp (hmain ▸ hd.main)
  have hservice : ∀ {op : WorkerOp κ}, op.tells = false → ∀ op' ∈ d.service.work ++ [op], op'.tells = false := fun hop =>
    List.forall_mem_append.mpr ⟨hd.service, List.forall_mem_singleton.mpr hop⟩
  -- an access that leaves the commands and the published state
  have hgoesOn : ∀ {op rest} (new : List (MainOp κ)), d.main = op :: rest → op ≠ .write .connecting →
      (∀ op ∈ new, op.tells = false ∧ op.asks = false) → (∀ op ∈ new ++ rest, op.tells = false) ∧
        (d.state.current = .connected → (∀ intent ∈ d.intents, intent.asks = false) ∧
          ((new ++ rest).head? = some (.write .connecting) ∨ ∀ op ∈ new ++ rest, op.asks = false)) := by
    intro op rest new hmain hop hnew
    refine ⟨List.forall_mem_append.mpr ⟨fun op hop => (hnew op hop).1, (hrest hmain).2⟩, fun hc => ?_⟩
    obtain ⟨hintents, -, hasks⟩ := hd.quiet hmain hop hc
    exact ⟨hintents, .inr (List.forall_mem_append.mpr ⟨fun op hop => (hnew op hop).2, hasks⟩)⟩
  cases h with
  | write stage rest hmain =>
    have hstage : stage ≠ .connected := by
      rintro rfl
      cases (hrest hmain).1
    exact ⟨hd.posted, (hrest hmain).2, hd.service, fun hc => absurd hc hstage⟩
  | post stage rest hmain =>
    have hstage : stage ≠ .connected := by
      rintro rfl
      cases (hrest hmain).1
    obtain ⟨htells, hagain⟩ := hgoesOn [] hmain nofun nofun
    exact ⟨fun other hmem => ((d.state.milder_post n hstage).posted other hmem).elim (hd.posted other) id, htells, hd.service, hagain⟩
  | stopped rest hmain =>
    obtain ⟨htells, hagain⟩ := hgoesOn [] hmain nofun nofun
    exact ⟨hd.posted, htells, hd.service, hagain⟩
  | sent intent rest hmain =>
    refine ⟨hd.posted, (hrest hmain).2, hd.service, fun hc => ?_⟩
    obtain ⟨hintents, hintent, hasks⟩ := hd.quiet hmain nofun hc
    exact ⟨List.forall_mem_append.mpr ⟨hintents, List.forall_mem_singleton.mpr hintent⟩, .inr hasks⟩
  | failed op rest hmain hop =>
    obtain ⟨htells, hagain⟩ := hgoesOn [.write .failed, .post .failed] hmain (by rintro rfl; nomatch hop)
      (by simp [MainOp.tells, MainOp.asks])
    exact ⟨hd.posted, htells, hd.service, hagain⟩
  | looksOn rest hmain =>
    obtain ⟨htells, hagain⟩ := hgoesOn [.correctConnecting] hmain nofun (by simp [MainOp.tells, MainOp.asks])
    exact ⟨hd.posted, htells, hd.service, hagain⟩
  | right rest hmain =>
    obtain ⟨htells, hagain⟩ := hgoesOn [] hmain nofun nofun
    exact ⟨hd.posted, htells, hd.service, hagain⟩
  | executeStartBox config rest hmain =>
    obtain ⟨htells, hagain⟩ := hgoesOn [] hmain nofun nofun
    exact ⟨hd.posted, htells, hservice rfl, hagain⟩
  | republish rest hmain =>
    have hcurrent : d.state.current ≠ .connected := fun hc => by nomatch (hd.quiet hmain nofun hc).2.1
    have htells : (MainOp.write d.state.current : MainOp κ).tells = false ∧ (MainOp.post d.state.current : MainOp κ).tells = false := by
      cases hstage : d.state.current <;> first | exact ⟨rfl, rfl⟩ | exact absurd hstage hcurrent
    exact ⟨hd.posted, List.forall_mem_cons.mpr ⟨htells.1, List.forall_mem_cons.mpr ⟨htells.2, (hrest hmain).2⟩⟩, hd.service,
      fun hc => absurd hc hcurrent⟩
  | executeRelease rest hmain =>
    obtain ⟨htells, hagain⟩ := hgoesOn [] hmain nofun nofun
    exact ⟨hd.posted, htells, hservice rfl, hagain⟩
  | shutdownWorker rest hmain =>
    obtain ⟨htells, hagain⟩ := hgoesOn [] hmain nofun nofun
    exact ⟨hd.posted, htells, hd.service, hagain⟩

/-- One more status has arrived. -/
theorem Device.Hushed.next (h : d.Hushed n) : d.Hushed (n + 1) where
  posted stage hmem := h.posted stage (by
    rw [← List.drop_drop] at hmem
    exact List.mem_of_mem_drop hmem)
  main := h.main
  service := h.service
  again := h.again

/-- A callback begins on a device that is hushed. -/
theorem Device.Hushed.callback (h : d.Hushed n) {main : List (MainOp κ)} (hmain : ∀ op ∈ main, op.tells = false)
    (hasks : main.head? = some (.write .connecting) ∨ ∀ op ∈ main, op.asks = false) : Device.Hushed n { d with main } where
  posted := h.posted
  main := hmain
  service := h.service
  again hc := ⟨(h.again hc).1, hasks⟩

/-- The service of a hushed device is shut down. -/
theorem Device.Hushed.shutdown (h : d.Hushed n) {stage : Stage} (forget : Bool) (hstage : stage ≠ .connected) :
    Device.Hushed n { d with service := d.service.shutdown stage forget } where
  posted := h.posted
  main := h.main
  service := List.forall_mem_append.mpr ⟨h.service, fun _ hop => tells_of_mem_shutdownTask hstage hop⟩
  again := h.again

/-- A command the service handles on a hushed device. -/
theorem Device.Hushed.onStartCommand (h : d.Hushed n) {intent : Intent κ}
    (hintent : d.state.current = .connected → intent.asks = false) : (d.onStartCommand intent).Hushed n := by
  cases intent with
  | stop => exact h.shutdown true nofun
  | start config =>
    have hcurrent : d.state.current ≠ .connected := fun hc => by nomatch hintent hc
    rw [Device.onStartCommand]
    split
    · exact ⟨h.posted, by simp [MainOp.tells], h.service, fun hc => absurd hc hcurrent⟩
    · exact ⟨h.posted, by simp [MainOp.tells], h.service, fun hc => absurd hc hcurrent⟩

/-- The step lemma of a hushed device: it is hushed behind the step, or the service has no engine but one that its worker was to
launch. -/
theorem hushed_step {a : Action κ} (h : d.Hushed n) (hformer : ∀ s ∈ d.former, s.Spent)
    (hsystem : a = .systemStart → d.state.current ≠ .connected) (hstep : d.step a = some d') :
    d'.Hushed n ∨ ∀ engine ∈ d'.service.engine, .launch engine.config ∈ d.service.work := by
  cases Device.move_of_step hstep with
  | start config => exact .inl (h.callback (by simp [MainOp.tells]) (.inl rfl))
  | stop hrunning => exact .inl (h.callback (by simp [MainOp.tells]) (.inr (by simp [MainOp.asks, Intent.asks])))
  | nothingToStop hrunning => exact .inl (h.callback (by simp [MainOp.tells]) (.inr (by simp [MainOp.asks])))
  | systemStart => exact .inl ⟨h.posted, h.main, h.service, fun hc => absurd hc (hsystem rfl)⟩
  | notificationStop =>
    refine .inl ⟨h.posted, h.main, h.service, fun hc => ?_⟩
    exact ⟨List.forall_mem_append.mpr ⟨(h.again hc).1, List.forall_mem_singleton.mpr rfl⟩, (h.again hc).2⟩
  | onStartCommand intent rest hintents =>
    unfold Device.onCreate
    split
    · -- a new instance has no engine
      refine .inr fun engine hmem => ?_
      rw [Device.engine_onStartCommand] at hmem
      cases hmem
    · refine .inl (Device.Hushed.onStartCommand (d := { d with intents := rest }) ⟨h.posted, h.main, h.service, fun hc => ?_⟩ fun hc => ?_)
      · exact ⟨fun other hmem => (h.again hc).1 other (hintents ▸ List.mem_cons_of_mem _ hmem), (h.again hc).2⟩
      · exact (h.again hc).1 intent (hintents ▸ List.mem_cons_self ..)
  | onRevoke => exact .inl (h.shutdown false nofun)
  | onRevokeClosed => exact .inl (h.callback (by simp [MainOp.tells]) (.inr (by simp [MainOp.asks])))
  | onDestroy => exact .inl (h.callback (by simp [MainOp.tells]) (.inr (by simp [MainOp.asks])))
  | main luck d' haccess => exact .inl (haccess.hushed h)
  | worker luck s' state' file' haccess => exact (haccess.hushed n h.service).imp_left fun hw => h.milder hw.2 hw.1
  | former m luck s s' state' file' hs haccess => exact .inl (h.milder ((hformer s hs).access n haccess).2 h.service)

/-- An instance that was there before stays spent, where a new one is made only when the last one is. -/
theorem spent_step {a : Action κ} (hformer : ∀ s ∈ d.former, s.Spent)
    (hcreate : a = .onStartCommand → d.service.closed = true → d.service.Spent) (hstep : d.step a = some d') :
    ∀ s ∈ d'.former, s.Spent := by
  cases Device.move_of_step hstep with
  | onStartCommand intent rest hintents =>
    rw [Device.former_onStartCommand]
    unfold Device.onCreate
    split
    · rename_i hclosed
      exact List.forall_mem_append.mpr ⟨hformer, List.forall_mem_singleton.mpr (hcreate rfl hclosed)⟩
    · exact hformer
  | main luck d' haccess =>
    rw [haccess.former]
    exact hformer
  | former m luck s s' state' file' hs haccess => exact forall_mem_former_set hformer ((hformer s hs).access 0 haccess).1 m
  | _ => exact hformer

end Steps

end Android

open Android

/-! ## The two sides -/

section System

variable {ι π κ : Type} [DecidableEq ι] [DecidableEq π] {k : Controller ι π κ} {s s' : System ι π κ} {input : Input ι π κ}

namespace System

/-- Every engine that runs, runs a configuration of the profile the status says is connected. -/
def Stamped (s : System ι π κ) : Prop :=
  ∀ p, s.app.status = ⟨.connected, some p⟩ → ∀ config, s.device.Runs config → config.owner = p

/-- Everything that is on its way to the engine is of this profile, and the engine of the service is, or has nothing left to say. -/
structure Clear (s : System ι π κ) (p : π) : Prop where
  starts : s.Starts fun config => config.owner = p
  engine : (∀ engine ∈ s.device.service.engine, engine.config.owner = p) ∨ s.device.Hushed s.heard

/-- What the app and Android may do. A connect that goes ahead is made where all is clear for its profile. Android starts the service
by itself where the file and the engine are of the profile connected last, or the state is not CONNECTED, and makes a new instance of
it where the last one is spent. -/
def Careful (s : System ι π κ) : Event ι π κ → Prop
  | .app (.connect _ profile) => profile.isConnectable = true → s.Clear profile.id
  | .device .systemStart => (∀ config ∈ s.device.startRequest, s.app.activeProfileId = some config.owner) ∧
      ((∀ engine ∈ s.device.service.engine, s.app.activeProfileId = some engine.config.owner) ∨ s.device.state.current ≠ .connected)
  | .device .onStartCommand => s.device.service.closed = true → s.device.service.Spent
  | _ => True

/-- What is on its way to the engine is of the profile connected last, and so is the engine, or the controller does not say that it is
up and nothing will have it say so. -/
structure Inv (s : System ι π κ) : Prop where
  shown : s.app.status.stage = .connected → s.app.status.profileId = s.app.activeProfileId
  starts : s.Starts fun config => s.app.activeProfileId = some config.owner
  engine : (∀ engine ∈ s.device.service.engine, s.app.activeProfileId = some engine.config.owner) ∨
    s.app.status.stage ≠ .connected ∧ s.device.Hushed s.heard
  former : ∀ t ∈ s.device.former, t.Spent

end System

/-- What a step of the controller does to the status and to the profile connected last. -/
inductive Controller.Shows (k k' : Controller ι π κ) (input : Input ι π κ) : Prop where
  /-- It does not say that the tunnel is up, or says what it said. -/
  | same (hinput : input.connects = false) (hactive : k'.activeProfileId = k.activeProfileId)
      (hstatus : k'.status.isUp = false ∨ k'.status = k.status)
  | connects (i : ι) (profile : Profile π κ) (hinput : input = .connect i profile) (hc : profile.isConnectable = true)
      (hactive : k'.activeProfileId = some profile.id) (hstatus : k'.status.isUp = false)
  | told (hinput : input = .status .connected) (hactive : k'.activeProfileId = k.activeProfileId)
      (hstatus : k'.status = ⟨.connected, k.activeProfileId⟩)

/-- Every step of the controller is one of them. -/
theorem Controller.shows_of_next {n : Next ι π κ} (h : k.next input = some n) : Shows k n.1 input := by
  have hconnectable : ∀ {i : ι} {profile : Profile π κ}, (k.phases i).isIdle = true → k.next (.connect i profile) = some n →
      n.1.activeProfileId = some profile.id → n.1.status.isUp = false → Shows k n.1 (.connect i profile) := by
    intro i profile hi h hactive hstatus
    cases hc : profile.isConnectable with
    | true => exact .connects i profile rfl hc hactive hstatus
    | false =>
      rw [next, if_pos hi, connect, hc] at h
      cases h
      exact .same hc rfl (.inl rfl)
  cases move_of_next h with
  | refuse i profile hi hc => exact .same hc rfl (.inl rfl)
  | unbuilt i profile hi => exact hconnectable hi h rfl rfl
  | prepare i profile text hi hb => exact hconnectable hi h rfl rfl
  | status stage =>
    cases stage with
    | connected => exact .told rfl rfl rfl
    | _ => exact .same rfl rfl (.inl rfl)
  | unstoppable i r forgets hp => cases forgets <;> exact .same rfl rfl (.inl rfl)
  | down i forgets stage hp hs hf => cases forgets <;> exact .same rfl rfl (.inr rfl)
  | failed i forgets hp hs => cases forgets <;> exact .same rfl rfl (.inr rfl)
  | downLate i forgets hp => cases forgets <;> exact .same rfl rfl (.inl rfl)
  | idle i hi hs => exact .same rfl rfl (.inl rfl)
  | denied i r config hp => exact .same rfl rfl (.inl rfl)
  | unstarted i r id hp => exact .same rfl rfl (.inl rfl)
  | upLate i id hp => exact .same rfl rfl (.inl rfl)
  | _ => exact .same rfl rfl (.inr rfl)

omit [DecidableEq ι] [DecidableEq π] in
/-- A status that does not say that the tunnel is up is at another stage. -/
theorem stage_ne_of_isUp {status : Status π} (h : status.isUp = false) : status.stage ≠ .connected := of_decide_eq_false h

namespace System

/-- The controller goes on. -/
theorem Inv.goOn (h : s.Inv) (hstep : s.goOn input = some s')
    (hconnect : ∀ i profile, input = .connect i profile → profile.isConnectable = true → s.Clear profile.id)
    (hstatus : input = .status .connected →
      ∀ engine ∈ s.device.service.engine, s.app.activeProfileId = some engine.config.owner) : s'.Inv := by
  obtain ⟨n, hn, rfl⟩ := Option.map_eq_some_iff.mp hstep
  cases Controller.shows_of_next hn with
  | same hinput hactive hstatus =>
    have hsame : n.1.status.stage = .connected → n.1.status = s.app.status := fun hup =>
      hstatus.resolve_left fun hdown => stage_ne_of_isUp hdown hup
    refine ⟨fun hup => ?_, ?_, ?_, h.former⟩
    · have hstatus := hsame hup
      rw [hstatus] at hup ⊢
      exact (h.shown hup).trans hactive.symm
    · have hstarts := h.starts.goOn hstep fun i profile hi hc => (not_connects hinput hi hc).elim
      exact hstarts.mono fun config hconfig => hactive.trans hconfig
    · rw [hactive]
      exact h.engine.imp_right fun hh => ⟨fun hup => hh.1 (hsame hup ▸ hup), hh.2⟩
  | connects i profile hinput hc hactive hstage =>
    have hclear := hconnect i profile hinput hc
    refine ⟨fun hup => absurd hup (stage_ne_of_isUp hstage), ?_, ?_, h.former⟩
    · have hstarts := hclear.starts.goOn hstep fun j other hj _ text => by
        cases hinput.symm.trans hj
        rfl
      exact hstarts.mono fun config hconfig => by rw [hactive, hconfig]
    · rw [hactive]
      exact hclear.engine.imp (fun hengine engine hmem => by rw [hengine engine hmem]) fun hh => ⟨stage_ne_of_isUp hstage, hh⟩
  | told hinput hactive hstage =>
    refine ⟨fun _ => by rw [hstage, hactive], ?_, ?_, h.former⟩
    · have hstarts := h.starts.goOn hstep fun i profile hi hc => (not_connects (by rw [hinput]; rfl) hi hc).elim
      exact hstarts.mono fun config hconfig => hactive.trans hconfig
    · rw [hactive]
      exact .inl (hstatus hinput)

omit [DecidableEq ι] in
/-- The device goes on. -/
theorem Inv.device_step {a : Action (Config π κ)} {d : Device (Config π κ)} (h : s.Inv) (hstep : s.device.step a = some d)
    (hplugin : ∀ config, a = .start config → s.app.activeProfileId = some config.owner) (hc : s.Careful (.device a))
    (commands : List (ι × Command π κ)) (hcommands : ∀ c ∈ commands, c ∈ s.commands) (answer : Option (ι × Reply)) :
    Inv { s with commands, device := d, answer } := by
  obtain ⟨hstarts, -, hengine⟩ := h.starts.device_step hstep hplugin fun ha => (ha ▸ hc : s.Careful (.device .systemStart)).1
  refine ⟨h.shown, ⟨h.starts.calls, fun c hmem => h.starts.commands c (hcommands c hmem), hstarts⟩, ?_, ?_⟩
  · rcases h.engine with hown | ⟨hstage, hhushed⟩
    · exact .inl (hengine.elim (fun hsame => hsame ▸ hown) id)
    · by_cases hown : ∀ engine ∈ s.device.service.engine, s.app.activeProfileId = some engine.config.owner
      · exact .inl (hengine.elim (fun hsame => hsame ▸ hown) id)
      · refine (hushed_step hhushed h.former (fun ha => ?_) hstep).elim (fun hh => .inr ⟨hstage, hh⟩) fun hlaunch => .inl ?_
        · exact (ha ▸ hc : s.Careful (.device .systemStart)).2.resolve_left hown
        · exact fun engine hmem => h.starts.device.service _ (hlaunch engine hmem) _ rfl
  · exact spent_step h.former (fun ha => (ha ▸ hc : s.Careful (.device .onStartCommand))) hstep

/-- The step lemma of the two sides. -/
theorem inv_step {e : Event ι π κ} (h : s.Inv) (hc : s.Careful e) (hstep : s.step e = some s') : s'.Inv := by
  cases move_of_step hstep with
  | app input s' hinput hgo =>
    refine h.goOn hgo (fun i profile hi => (hi ▸ hc : s.Careful (.app (.connect i profile)))) ?_
    rintro rfl
    cases hinput
  | status stage s' hposted hgo =>
    have hstarts : Starts (fun config => s.app.activeProfileId = some config.owner) { s with heard := s.heard + 1 } :=
      ⟨h.starts.calls, h.starts.commands, h.starts.device⟩
    have hnext : Inv { s with heard := s.heard + 1 } := ⟨h.shown, hstarts, h.engine.imp_right fun hh => ⟨hh.1, hh.2.next⟩, h.former⟩
    refine hnext.goOn hgo nofun fun hstage => h.engine.resolve_right fun hh => ?_
    cases hstage
    exact hh.2.posted .connected (mem_drop_of_getElem? hposted) rfl
  | reply n i r s' hgo =>
    have hstarts : Starts (fun config => s.app.activeProfileId = some config.owner) { s with replies := s.replies.eraseIdx n } :=
      ⟨h.starts.calls, h.starts.commands, h.starts.device⟩
    have hnext : Inv { s with replies := s.replies.eraseIdx n } := ⟨h.shown, hstarts, h.engine, h.former⟩
    exact hnext.goOn hgo nofun nofun
  | answered r i c rest hcommands =>
    exact ⟨h.shown, ⟨h.starts.calls, fun c hmem => h.starts.commands c (hcommands ▸ List.mem_cons_of_mem _ hmem), h.starts.device⟩,
      h.engine, h.former⟩
  | start i config rest d hcommands hdevice =>
    refine h.device_step hdevice ?_ trivial rest (fun c hmem => hcommands ▸ List.mem_cons_of_mem _ hmem) _
    rintro other ⟨⟩
    exact h.starts.commands (i, .start config) (hcommands ▸ List.mem_cons_self ..) config rfl
  | stop i rest d hcommands hdevice =>
    exact h.device_step hdevice nofun trivial rest (fun c hmem => hcommands ▸ List.mem_cons_of_mem _ hmem) _
  | answer x => exact ⟨h.shown, ⟨h.starts.calls, h.starts.commands, h.starts.device⟩, h.engine, h.former⟩
  | device a d answer ha hdevice =>
    refine h.device_step hdevice ?_ hc s.commands (fun _ hmem => hmem) _
    rintro config rfl
    cases ha

omit [DecidableEq ι] [DecidableEq π] in
/-- Where the invariant holds, the engine's profile is the one that is shown. -/
theorem Inv.stamped (h : s.Inv) : s.Stamped := by
  intro p hstatus config hruns
  have hactive : s.app.activeProfileId = some p := by
    rw [← h.shown (by rw [hstatus]), hstatus]
  have hengine := h.engine.resolve_right fun hh => hh.1 (by rw [hstatus])
  rcases hruns with ⟨engine, hmem, rfl⟩ | ⟨t, ht, engine, hmem, rfl⟩
  · exact Option.some_inj.mp ((hengine engine hmem).symm.trans hactive)
  · rw [(h.former t ht).engine] at hmem
    cases hmem

omit [DecidableEq ι] [DecidableEq π] in
/-- At first there is nothing. -/
theorem inv_init : Inv ({} : System ι π κ) where
  shown := nofun
  starts := ⟨fun _ => nofun, nofun, ⟨nofun, nofun, nofun, nofun⟩⟩
  engine := .inl nofun
  former := nofun

/-- In every run whose steps are careful, whenever the controller says that the tunnel of a profile is up, the engine runs no
configuration but one that was built for that profile. -/
theorem stamped_of_careful (es : List (Event ι π κ)) {s : System ι π κ} (h : Along step Careful {} es)
    (hrun : run step {} es = some s) : s.Stamped :=
  Inv.stamped (run_invariant (fun _ _ _ hi hc hstep => inv_step hi hc hstep) inv_init h hrun)

instance Clear.decidable [Fintype ι] [DecidableEq κ] (s : System ι π κ) (p : π) : Decidable (s.Clear p) :=
  decidable_of_iff ((s.Starts fun config => config.owner = p) ∧
      ((∀ engine ∈ s.device.service.engine, engine.config.owner = p) ∨ s.device.Hushed s.heard))
    ⟨fun ⟨h₁, h₂⟩ => ⟨h₁, h₂⟩, fun ⟨h₁, h₂⟩ => ⟨h₁, h₂⟩⟩

instance Careful.decidable [Fintype ι] [DecidableEq κ] (s : System ι π κ) (e : Event ι π κ) : Decidable (s.Careful e) := by
  unfold Careful
  split <;> infer_instance

/-- The tunnel of a profile is up, and the controller says so. -/
theorem stamped_of_careful_up : ∃ s : System Bool Nat Nat,
    run step {} (persists false ⟨0, true, some 7⟩ ++ launches ++ arrives) = some s ∧ s.app.status = ⟨.connected, some 0⟩ ∧
      s.device.Runs ⟨0, 7⟩ ∧ s.Stamped :=
  ⟨_, rfl, rfl, .inl ⟨_, rfl, rfl⟩,
    stamped_of_careful (persists false ⟨0, true, some 7⟩ ++ launches ++ arrives) (by decide) rfl⟩

/-- A second profile is connected before the statuses of the first one have arrived. -/
theorem stamped_other : ¬ ∀ (es : List (Event Bool Nat Nat)) (s : System Bool Nat Nat), run step {} es = some s → s.Stamped := by
  intro h
  have hruns := h (persists false ⟨0, true, some 7⟩ ++ launches ++ [.app (.connect true ⟨1, true, some 8⟩)] ++ arrives) _ rfl 1 rfl ⟨0, 7⟩
    (.inl ⟨_, rfl, rfl⟩)
  exact absurd hruns (by decide)

end System

end System

end Tunnel

end VpnStack

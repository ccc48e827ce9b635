import VpnStack.Tunnel.System
import VpnStack.Theorems.Connect

/-!
# The starts that are under way

What an access of a worker and one of the main looper can do, each told once. From it follows what becomes of the starts on the
device: one comes from the plugin, with its configuration, or from Android, with none, and goes through a command, a callback and a
task to the engine; the file of the start request is written on that way, and a start with no configuration takes what it holds. So
what is true of every start there is, and of every one that comes, is true of what the file is given and of what the engine runs.
-/

namespace VpnStack

namespace Tunnel

namespace Android

variable {κ : Type}

/-! ## One access of a worker -/

/-- An access of the end of a start that failed. -/
def WorkerOp.ofFailure : WorkerOp κ → Bool
  | .releaseEngine | .stopped | .write .failed | .post .failed | .postStopSelf => true
  | _ => false

/-- What the next access of a worker does, to the service, to the published state and to the file. -/
inductive Service.Access (s : Service κ) (state : TunnelState) (file : Option κ) : Service κ → TunnelState → Option κ → Prop where
  | adopt (config : κ) (rest : List (WorkerOp κ)) (hwork : s.work = .resolve (some config) :: rest) (file' : Option κ)
      (hfile : file' = some config ∨ file' = file) : Access s state file { s with work := .launch config :: rest } state file'
  | read (config : κ) (rest : List (WorkerOp κ)) (hwork : s.work = .resolve none :: rest) (hfile : file = some config) :
      Access s state file { s with work := .launch config :: rest } state file
  | absent (rest : List (WorkerOp κ)) (hwork : s.work = .resolve none :: rest) :
      Access s state file (fail { s with work := rest }) state file
  | up (config : κ) (rest : List (WorkerOp κ)) (hwork : s.work = .launch config :: rest) :
      Access s state file
        { s with engine := some ⟨config, true⟩, work := .write .connected :: .post .connected :: rest } state file
  | down (config : κ) (tun : Bool) (rest : List (WorkerOp κ)) (hwork : s.work = .launch config :: rest) :
      Access s state file (fail { s with engine := some ⟨config, tun⟩, work := rest }) state file
  | release (rest : List (WorkerOp κ)) (hwork : s.work = .releaseEngine :: rest) :
      Access s state file { s with engine := none, boxStarted := false, work := rest } state file
  | forget (rest : List (WorkerOp κ)) (hwork : s.work = .forgetStartRequest :: rest) :
      Access s state file { s with work := rest } state none
  | stopped (rest : List (WorkerOp κ)) (hwork : s.work = .stopped :: rest) :
      Access s state file { s with work := rest } { state with serviceRunning := false } file
  | write (stage : Stage) (rest : List (WorkerOp κ)) (hwork : s.work = .write stage :: rest) :
      Access s state file { s with work := rest } { state with current := stage } file
  | post (stage : Stage) (rest : List (WorkerOp κ)) (hwork : s.work = .post stage :: rest) :
      Access s state file { s with work := rest } { state with posted := state.posted ++ [stage] } file
  | postStopSelf (rest : List (WorkerOp κ)) (hwork : s.work = .postStopSelf :: rest) :
      Access s state file { s with work := rest, leaving := true } state file

namespace Service

variable {s s' : Service κ} {luck : Luck} {state state' : TunnelState} {file file' : Option κ}

/-- Every access of a worker is one of them. -/
theorem access_of_step (h : s.step luck state file = some (s', state', file')) : Access s state file s' state' file' := by
  cases hwork : s.work with
  | nil =>
    rw [step, hwork] at h
    cases h
  | cons op rest =>
    rw [step, hwork] at h
    cases op with
    | resolve config =>
      cases config with
      | some config =>
        cases h
        refine .adopt config rest hwork _ ?_
        split
        · exact .inl rfl
        · exact .inr rfl
      | none =>
        simp only at h
        split at h
        · rename_i config hread
          cases h
          refine .read config rest hwork ?_
          split at hread
          · exact hread
          · cases hread
        · cases h
          exact .absent rest hwork
    | launch config =>
      simp only at h
      split at h
      · rename_i hluck
        cases h
        rw [hluck.2]
        exact .up config rest hwork
      · cases h
        exact .down config luck.tun rest hwork
    | releaseEngine => cases h; exact .release rest hwork
    | forgetStartRequest => cases h; exact .forget rest hwork
    | stopped => cases h; exact .stopped rest hwork
    | write stage => cases h; exact .write stage rest hwork
    | post stage => cases h; exact .post stage rest hwork
    | postStopSelf => cases h; exact .postStopSelf rest hwork

/-- The end of a start that failed is queued behind the tasks, or is done before them. -/
theorem mem_work_fail {op : WorkerOp κ} (h : op ∈ s.fail.work) : op ∈ s.work ∨ op.ofFailure = true := by
  unfold fail at h
  split at h
  · rcases List.mem_append.mp h with h | h
    · refine .inr ?_
      rcases List.mem_cons.mp h with rfl | h
      · rfl
      · rcases List.mem_cons.mp h with rfl | h
        · rfl
        · rw [List.mem_singleton.mp h]
          rfl
    · exact .inl h
  · exact (List.mem_append.mp h).imp_right fun h => by
      simp only [shutdownTask, Bool.false_eq_true, if_false, List.cons_append, List.nil_append, List.mem_cons,
        List.not_mem_nil, or_false] at h
      rcases h with rfl | rfl | rfl | rfl | rfl <;> rfl

/-- The end of a start that failed leaves the engine to its task. -/
@[simp] theorem engine_fail (s : Service κ) : s.fail.engine = s.engine := by
  unfold fail
  split <;> rfl

end Service

/-! ## One access of the main looper -/

/-- The access may come to nothing: a command that Android refuses, or a status that is to be corrected. -/
def MainOp.mayFail : MainOp κ → Bool
  | .send _ | .correctConnected | .correctConnecting => true
  | _ => false

/-- What the next access of the main looper does. -/
inductive Device.Access (d : Device κ) : Device κ → Prop where
  | write (stage : Stage) (rest : List (MainOp κ)) (hmain : d.main = .write stage :: rest) :
      Access d { d with main := rest, state := { d.state with current := stage } }
  | post (stage : Stage) (rest : List (MainOp κ)) (hmain : d.main = .post stage :: rest) :
      Access d { d with main := rest, state := { d.state with posted := d.state.posted ++ [stage] } }
  | stopped (rest : List (MainOp κ)) (hmain : d.main = .stopped :: rest) :
      Access d { d with main := rest, state := { d.state with serviceRunning := false } }
  | sent (intent : Intent κ) (rest : List (MainOp κ)) (hmain : d.main = .send intent :: rest) :
      Access d { d with main := rest, intents := d.intents ++ [intent] }
  | failed (op : MainOp κ) (rest : List (MainOp κ)) (hmain : d.main = op :: rest) (hop : op.mayFail = true) :
      Access d { d with main := .write .failed :: .post .failed :: rest }
  | looksOn (rest : List (MainOp κ)) (hmain : d.main = .correctConnected :: rest) :
      Access d { d with main := .correctConnecting :: rest }
  | right (rest : List (MainOp κ)) (hmain : d.main = .correctConnecting :: rest) : Access d { d with main := rest }
  | executeStartBox (config : Option κ) (rest : List (MainOp κ)) (hmain : d.main = .executeStartBox config :: rest) :
      Access d { d with main := rest, service := { d.service with work := d.service.work ++ [.resolve config] } }
  | republish (rest : List (MainOp κ)) (hmain : d.main = .republish :: rest) :
      Access d { d with main := .write d.state.current :: .post d.state.current :: rest }
  | executeRelease (rest : List (MainOp κ)) (hmain : d.main = .executeRelease :: rest) :
      Access d { d with main := rest, service := { d.service with work := d.service.work ++ [.releaseEngine] } }
  | shutdownWorker (rest : List (MainOp κ)) (hmain : d.main = .shutdownWorker :: rest) :
      Access d { d with main := rest, service := { d.service with closed := true } }

namespace Device

variable {d d' : Device κ}

/-- Every access of the main looper is one of them. -/
theorem access_of_mainStep {luck : Luck} (h : d.mainStep luck = some d') : Access d d' := by
  cases hmain : d.main with
  | nil =>
    rw [mainStep, hmain] at h
    cases h
  | cons op rest =>
    rw [mainStep, hmain] at h
    cases op with
    | write stage => cases h; exact .write stage rest hmain
    | post stage => cases h; exact .post stage rest hmain
    | stopped => cases h; exact .stopped rest hmain
    | send intent =>
      simp only at h
      split at h
      · cases h
        exact .sent intent rest hmain
      · cases h
        exact .failed _ rest hmain rfl
    | executeStartBox config => cases h; exact .executeStartBox config rest hmain
    | republish => cases h; exact .republish rest hmain
    | correctConnected =>
      simp only at h
      split at h
      · cases h
        exact .failed _ rest hmain rfl
      · cases h
        exact .looksOn rest hmain
    | correctConnecting =>
      simp only at h
      split at h
      · cases h
        exact .failed _ rest hmain rfl
      · cases h
        exact .right rest hmain
    | executeRelease => cases h; exact .executeRelease rest hmain
    | shutdownWorker => cases h; exact .shutdownWorker rest hmain

end Device

/-- The main looper never touches the file. -/
theorem Device.Access.startRequest {d d' : Device κ} (h : Access d d') : d'.startRequest = d.startRequest := by
  cases h <;> rfl

/-- A new instance finds the file that is there. -/
@[simp] theorem Device.startRequest_onCreate (d : Device κ) : d.onCreate.startRequest = d.startRequest := by
  unfold onCreate
  split <;> rfl

/-- A command of the service leaves the file to its worker. -/
@[simp] theorem Device.startRequest_onStartCommand (d : Device κ) (intent : Intent κ) :
    (d.onStartCommand intent).startRequest = d.startRequest := by
  unfold onStartCommand
  split
  · rfl
  · split <;> rfl

/-- Nor the engine. -/
theorem Device.Access.engine {d d' : Device κ} (h : Access d d') : d'.service.engine = d.service.engine := by
  cases h <;> rfl

/-- A new instance has no engine. -/
theorem engine_onCreate (d : Device κ) : d.onCreate.service.engine = d.service.engine ∨ d.onCreate.service.engine = none := by
  unfold Device.onCreate
  split
  · exact .inr rfl
  · exact .inl rfl

/-- A command of the service leaves the engine to its worker. -/
@[simp] theorem Device.engine_onStartCommand (d : Device κ) (intent : Intent κ) :
    (d.onStartCommand intent).service.engine = d.service.engine := by
  unfold onStartCommand
  split
  · rfl
  · split <;> rfl

/-- Nor the instances before. -/
theorem Device.Access.former {d d' : Device κ} (h : Access d d') : d'.former = d.former := by
  cases h <;> rfl

/-- A command is the last instance's alone. -/
@[simp] theorem Device.former_onStartCommand (d : Device κ) (intent : Intent κ) : (d.onStartCommand intent).former = d.former := by
  unfold onStartCommand
  split
  · rfl
  · split <;> rfl

/-! ## One step of the device -/

/-- What a step of the device does. -/
inductive Device.Move (d : Device κ) : Action κ → Device κ → Prop where
  | start (config : κ) : Move d (.start config) (d.start config)
  | stop (hrunning : d.state.serviceRunning = true) : Move d .stop { d with main := [.send .stop] }
  | nothingToStop (hrunning : d.state.serviceRunning = false) :
      Move d .stop { d with main := [.write .disconnected, .post .disconnected] }
  | systemStart : Move d .systemStart { d with intents := d.intents ++ [.start none] }
  | notificationStop : Move d .notificationStop { d with intents := d.intents ++ [.stop] }
  | onStartCommand (intent : Intent κ) (rest : List (Intent κ)) (hintents : d.intents = intent :: rest) :
      Move d .onStartCommand ({ d with intents := rest }.onCreate.onStartCommand intent)
  | onRevoke : Move d .onRevoke { d with service := d.service.shutdown .failed false }
  | onRevokeClosed : Move d .onRevoke { d with main := [.stopped, .write .failed, .post .failed] }
  | onDestroy : Move d .onDestroy d.onDestroy
  | main (luck : Luck) (d' : Device κ) (h : Access d d') : Move d (.main luck) d'
  | worker (luck : Luck) (s' : Service κ) (state' : TunnelState) (file' : Option κ)
      (h : Service.Access d.service d.state d.startRequest s' state' file') :
      Move d (.worker luck) { d with service := s', state := state', startRequest := file' }
  | former (n : Nat) (luck : Luck) (s s' : Service κ) (state' : TunnelState) (file' : Option κ) (hs : s ∈ d.former)
      (h : Service.Access s d.state d.startRequest s' state' file') :
      Move d (.former n luck) { d with former := d.former.set n s', state := state', startRequest := file' }

/-- Every step of the device is one of them. -/
theorem Device.move_of_step {d d' : Device κ} {a : Action κ} (h : d.step a = some d') : Device.Move d a d' := by
  cases a with
  | start config =>
    simp only [step, Option.ite_none_right_eq_some, Option.some_inj] at h
    exact h.2 ▸ .start config
  | stop =>
    simp only [step, Option.ite_none_right_eq_some, Option.some_inj, Device.stop] at h
    obtain ⟨-, h⟩ := h
    split at h
    · rename_i hrunning
      exact h ▸ .stop hrunning
    · rename_i hrunning
      exact h ▸ .nothingToStop (Bool.eq_false_iff.mpr hrunning)
  | systemStart => exact Option.some_inj.mp h ▸ .systemStart
  | notificationStop => exact Option.some_inj.mp h ▸ .notificationStop
  | onStartCommand =>
    simp only [step] at h
    split at h
    · rename_i intent rest _ hintents
      exact Option.some_inj.mp h ▸ .onStartCommand intent rest hintents
    · cases h
  | onRevoke =>
    simp only [step, Option.ite_none_right_eq_some, Option.some_inj, Device.onRevoke] at h
    obtain ⟨-, h⟩ := h
    split at h
    · exact h ▸ .onRevokeClosed
    · exact h ▸ .onRevoke
  | onDestroy =>
    simp only [step, Option.ite_none_right_eq_some, Option.some_inj] at h
    exact h.2 ▸ .onDestroy
  | main luck => exact .main luck d' (access_of_mainStep h)
  | worker luck =>
    obtain ⟨⟨s', state', file'⟩, hs, rfl⟩ := Option.map_eq_some_iff.mp h
    exact .worker luck s' state' file' (Service.access_of_step hs)
  | former n luck =>
    obtain ⟨s, hs, h⟩ := Option.bind_eq_some_iff.mp h
    obtain ⟨⟨s', state', file'⟩, hs', rfl⟩ := Option.map_eq_some_iff.mp h
    exact .former n luck s s' state' file' (List.mem_of_getElem? hs) (Service.access_of_step hs')

/-- What is true of every instance before and of one that has gone on is true of all behind the step. -/
theorem forall_mem_former_set {P : Service κ → Prop} {former : List (Service κ)} {s' : Service κ} (h : ∀ s ∈ former, P s) (hs' : P s')
    (n : Nat) : ∀ s ∈ former.set n s', P s := by
  intro t ht
  rcases List.mem_or_eq_of_mem_set ht with ht | rfl
  · exact h t ht
  · exact hs'

/-! ## Where the starts are -/

section Starts

variable (Q : Option κ → Prop)

/-- A start that a command carries satisfies `Q`. -/
def Intent.Start : Intent κ → Prop
  | .start config => Q config
  | .stop => True

/-- A start that the access hands on satisfies `Q`. -/
def MainOp.Start : MainOp κ → Prop
  | .send intent => intent.Start Q
  | .executeStartBox config => Q config
  | _ => True

/-- A start that the access makes satisfies `Q`. -/
def WorkerOp.Start : WorkerOp κ → Prop
  | .resolve config => Q config
  | .launch config => Q (some config)
  | _ => True

instance Intent.Start.decidable [DecidablePred Q] : (intent : Intent κ) → Decidable (intent.Start Q)
  | .start config => inferInstanceAs (Decidable (Q config))
  | .stop => inferInstanceAs (Decidable True)

instance MainOp.Start.decidable [DecidablePred Q] : (op : MainOp κ) → Decidable (op.Start Q)
  | .send intent => inferInstanceAs (Decidable (intent.Start Q))
  | .executeStartBox config => inferInstanceAs (Decidable (Q config))
  | .write _ | .post _ | .stopped | .republish | .correctConnected | .correctConnecting | .executeRelease | .shutdownWorker =>
    inferInstanceAs (Decidable True)

instance WorkerOp.Start.decidable [DecidablePred Q] : (op : WorkerOp κ) → Decidable (op.Start Q)
  | .resolve config => inferInstanceAs (Decidable (Q config))
  | .launch config => inferInstanceAs (Decidable (Q (some config)))
  | .releaseEngine | .forgetStartRequest | .stopped | .write _ | .post _ | .postStopSelf => inferInstanceAs (Decidable True)

/-- Every start that is under way on the device satisfies `Q`, with its configuration or with none. -/
structure Device.Starts (d : Device κ) : Prop where
  intents : ∀ intent ∈ d.intents, intent.Start Q
  main : ∀ op ∈ d.main, op.Start Q
  service : ∀ op ∈ d.service.work, op.Start Q
  former : ∀ s ∈ d.former, ∀ op ∈ s.work, op.Start Q

instance Device.Starts.decidable [DecidablePred Q] (d : Device κ) : Decidable (d.Starts Q) :=
  decidable_of_iff ((∀ intent ∈ d.intents, intent.Start Q) ∧ (∀ op ∈ d.main, op.Start Q) ∧
      (∀ op ∈ d.service.work, op.Start Q) ∧ ∀ s ∈ d.former, ∀ op ∈ s.work, op.Start Q)
    ⟨fun ⟨h₁, h₂, h₃, h₄⟩ => ⟨h₁, h₂, h₃, h₄⟩, fun ⟨h₁, h₂, h₃, h₄⟩ => ⟨h₁, h₂, h₃, h₄⟩⟩

end Starts

section Steps

variable {Q Q' : Option κ → Prop} {d d' : Device κ}

/-- An access of the end of a start that failed makes none. -/
theorem WorkerOp.start_of_ofFailure {op : WorkerOp κ} (h : op.ofFailure = true) : op.Start Q := by
  cases op <;> trivial

/-- A shutdown makes no start. -/
theorem start_of_mem_shutdownTask {op : WorkerOp κ} {stage : Stage} {forget : Bool} (h : op ∈ shutdownTask stage forget) :
    op.Start Q := by
  cases op <;> first | trivial | (cases forget <;> simp [shutdownTask] at h)

/-- What is weaker is true of the start of a command too. -/
theorem Intent.Start.mono {intent : Intent κ} (h : intent.Start Q) (hQ : ∀ config, Q config → Q' config) : intent.Start Q' := by
  cases intent with
  | start config => exact hQ config h
  | stop => trivial

/-- What is weaker is true of the start of a task too. -/
theorem WorkerOp.Start.mono {op : WorkerOp κ} (h : op.Start Q) (hQ : ∀ config, Q config → Q' config) : op.Start Q' := by
  cases op with
  | resolve config => exact hQ config h
  | launch config => exact hQ _ h
  | _ => trivial

/-- What is weaker is true of every start too. -/
theorem Device.Starts.mono (h : d.Starts Q) (hQ : ∀ config, Q config → Q' config) : d.Starts Q' where
  intents intent hmem := (h.intents intent hmem).mono hQ
  main op hmem := by
    have hstart := h.main op hmem
    cases op with
    | send intent => exact Intent.Start.mono hstart hQ
    | executeStartBox config => exact hQ config hstart
    | _ => trivial
  service op hmem := (h.service op hmem).mono hQ
  former s hs op hmem := (h.former s hs op hmem).mono hQ

/-- What an access of a worker does to its starts, to the file and to the engine. -/
structure Service.Starts (Q : Option κ → Prop) (s s' : Service κ) (file file' : Option κ) : Prop where
  work : ∀ op ∈ s'.work, op.Start Q
  file : file' = file ∨ ∀ config ∈ file', Q (some config)
  engine : s'.engine = s.engine ∨ ∀ engine ∈ s'.engine, Q (some engine.config)

/-- The step lemma of a worker: a start stays one that satisfies `Q`, and gives its configuration to the file and to the engine. -/
theorem Service.Access.starts {s s' : Service κ} {state state' : TunnelState} {file file' : Option κ}
    (h : Access s state file s' state' file') (hs : ∀ op ∈ s.work, op.Start Q)
    (hread : Q none → ∀ config ∈ file, Q (some config)) : Service.Starts Q s s' file file' := by
  -- the rest of the tasks, behind what the access puts in front of them
  have hrest : ∀ {op rest}, s.work = op :: rest → op.Start Q ∧ ∀ op ∈ rest, op.Start Q := fun hwork =>
    List.forall_mem_cons.mp (hwork ▸ hs)
  have hfail : ∀ {s₀ : Service κ}, (∀ op ∈ s₀.work, op.Start Q) → ∀ op ∈ s₀.fail.work, op.Start Q := fun h₀ op hop =>
    (mem_work_fail hop).elim (h₀ op) WorkerOp.start_of_ofFailure
  cases h with
  | adopt config rest hwork file' hfile =>
    obtain ⟨hop, hrest⟩ := hrest hwork
    refine ⟨List.forall_mem_cons.mpr ⟨hop, hrest⟩, ?_, .inl rfl⟩
    rcases hfile with rfl | rfl
    · exact .inr fun _ hmem => Option.some_inj.mp hmem ▸ hop
    · exact .inl rfl
  | read config rest hwork hfile =>
    obtain ⟨hop, hrest⟩ := hrest hwork
    exact ⟨List.forall_mem_cons.mpr ⟨hread hop config hfile, hrest⟩, .inl rfl, .inl rfl⟩
  | absent rest hwork => exact ⟨hfail (hrest hwork).2, .inl rfl, .inl (engine_fail _)⟩
  | up config rest hwork =>
    obtain ⟨hop, hrest⟩ := hrest hwork
    exact ⟨List.forall_mem_cons.mpr ⟨trivial, List.forall_mem_cons.mpr ⟨trivial, hrest⟩⟩, .inl rfl,
      .inr fun _ hmem => Option.some_inj.mp hmem ▸ hop⟩
  | down config tun rest hwork =>
    obtain ⟨hop, hrest⟩ := hrest hwork
    refine ⟨hfail hrest, .inl rfl, .inr fun engine hmem => ?_⟩
    rw [engine_fail] at hmem
    exact Option.some_inj.mp hmem ▸ hop
  | release rest hwork => exact ⟨(hrest hwork).2, .inl rfl, .inr nofun⟩
  | forget rest hwork => exact ⟨(hrest hwork).2, .inr nofun, .inl rfl⟩
  | _ => exact ⟨(hrest ‹_›).2, .inl rfl, .inl rfl⟩

/-- A new instance of the service has nothing before it. -/
theorem Device.Starts.onCreate (h : d.Starts Q) : d.onCreate.Starts Q := by
  unfold Device.onCreate
  split
  · exact ⟨h.intents, h.main, List.forall_mem_nil _, List.forall_mem_append.mpr ⟨h.former, List.forall_mem_singleton.mpr h.service⟩⟩
  · exact h

/-- A command of the service keeps it that way. -/
theorem Device.Starts.onStartCommand (h : d.Starts Q) {intent : Intent κ}
    (hintent : intent.Start Q) : (d.onStartCommand intent).Starts Q := by
  cases intent with
  | stop =>
    exact ⟨h.intents, h.main, List.forall_mem_append.mpr ⟨h.service, fun op hop => start_of_mem_shutdownTask hop⟩, h.former⟩
  | start config =>
    rw [Device.onStartCommand]
    split
    · exact ⟨h.intents, List.forall_mem_singleton.mpr trivial, h.service, h.former⟩
    · exact ⟨h.intents, List.forall_mem_cons.mpr ⟨trivial, List.forall_mem_cons.mpr ⟨trivial, List.forall_mem_singleton.mpr hintent⟩⟩,
        h.service, h.former⟩

/-- An access of the main looper hands a start on as it is. -/
theorem Device.Access.starts (h : Access d d') (hs : d.Starts Q) : d'.Starts Q := by
  have hrest : ∀ {op rest}, d.main = op :: rest → op.Start Q ∧ ∀ op ∈ rest, op.Start Q := fun hmain =>
    List.forall_mem_cons.mp (hmain ▸ hs.main)
  cases h with
  | sent intent rest hmain =>
    exact ⟨List.forall_mem_append.mpr ⟨hs.intents, List.forall_mem_singleton.mpr (hrest hmain).1⟩, (hrest hmain).2, hs.service, hs.former⟩
  | failed op rest hmain hop =>
    exact ⟨hs.intents, List.forall_mem_cons.mpr ⟨trivial, List.forall_mem_cons.mpr ⟨trivial, (hrest hmain).2⟩⟩, hs.service, hs.former⟩
  | looksOn rest hmain => exact ⟨hs.intents, List.forall_mem_cons.mpr ⟨trivial, (hrest hmain).2⟩, hs.service, hs.former⟩
  | executeStartBox config rest hmain =>
    exact ⟨hs.intents, (hrest hmain).2, List.forall_mem_append.mpr ⟨hs.service, List.forall_mem_singleton.mpr (hrest hmain).1⟩, hs.former⟩
  | republish rest hmain =>
    exact ⟨hs.intents, List.forall_mem_cons.mpr ⟨trivial, List.forall_mem_cons.mpr ⟨trivial, (hrest hmain).2⟩⟩, hs.service, hs.former⟩
  | executeRelease rest hmain =>
    exact ⟨hs.intents, (hrest hmain).2, List.forall_mem_append.mpr ⟨hs.service, List.forall_mem_singleton.mpr trivial⟩, hs.former⟩
  | _ => exact ⟨hs.intents, (hrest ‹_›).2, hs.service, hs.former⟩

/-- What a step of the device does to the starts, to the file and to the engine of the service. -/
structure Device.Handed (Q : Option κ → Prop) (d d' : Device κ) : Prop where
  starts : d'.Starts Q
  file : d'.startRequest = d.startRequest ∨ ∀ config ∈ d'.startRequest, Q (some config)
  engine : d'.service.engine = d.service.engine ∨ ∀ engine ∈ d'.service.engine, Q (some engine.config)

/-- The step lemma of the device: if every start that comes satisfies `Q`, so does every start there is. -/
theorem starts_step {a : Action κ} (h : d.Starts Q)
    (hread : Q none → ∀ config ∈ d.startRequest, Q (some config)) (hplugin : ∀ config, a = .start config → Q (some config))
    (hsystem : a = .systemStart → Q none) (hstep : d.step a = some d') : Device.Handed Q d d' := by
  cases Device.move_of_step hstep with
  | start config =>
    exact ⟨⟨h.intents, by simpa [Device.start, MainOp.Start, Intent.Start] using hplugin config rfl, h.service, h.former⟩, .inl rfl, .inl rfl⟩
  | stop hrunning => exact ⟨⟨h.intents, by simp [MainOp.Start, Intent.Start], h.service, h.former⟩, .inl rfl, .inl rfl⟩
  | nothingToStop hrunning => exact ⟨⟨h.intents, by simp [MainOp.Start], h.service, h.former⟩, .inl rfl, .inl rfl⟩
  | systemStart =>
    exact ⟨⟨List.forall_mem_append.mpr ⟨h.intents, List.forall_mem_singleton.mpr (hsystem rfl)⟩, h.main, h.service, h.former⟩,
      .inl rfl, .inl rfl⟩
  | notificationStop =>
    exact ⟨⟨List.forall_mem_append.mpr ⟨h.intents, List.forall_mem_singleton.mpr trivial⟩, h.main, h.service, h.former⟩,
      .inl rfl, .inl rfl⟩
  | onStartCommand intent rest hintents =>
    obtain ⟨hintent, hrest⟩ := List.forall_mem_cons.mp (hintents ▸ h.intents)
    have hcreated : Device.Starts Q ({ d with intents := rest }.onCreate) := Device.Starts.onCreate ⟨hrest, h.main, h.service, h.former⟩
    refine ⟨hcreated.onStartCommand hintent, .inl ?_, ?_⟩
    · rw [Device.startRequest_onStartCommand, Device.startRequest_onCreate]
    · rw [Device.engine_onStartCommand]
      exact (engine_onCreate _).imp_right fun hnone _ hmem => by rw [hnone] at hmem; nomatch hmem
  | onRevoke =>
    exact ⟨⟨h.intents, h.main, List.forall_mem_append.mpr ⟨h.service, fun op hop => start_of_mem_shutdownTask hop⟩, h.former⟩,
      .inl rfl, .inl rfl⟩
  | onRevokeClosed => exact ⟨⟨h.intents, by simp [MainOp.Start], h.service, h.former⟩, .inl rfl, .inl rfl⟩
  | onDestroy => exact ⟨⟨h.intents, by simp [Device.onDestroy, MainOp.Start], h.service, h.former⟩, .inl rfl, .inl rfl⟩
  | main luck d' haccess => exact ⟨haccess.starts h, .inl haccess.startRequest, .inl haccess.engine⟩
  | worker luck s' state' file' haccess =>
    have hw := haccess.starts h.service hread
    exact ⟨⟨h.intents, h.main, hw.work, h.former⟩, hw.file, hw.engine⟩
  | former n luck s s' state' file' hs haccess =>
    have hw := haccess.starts (h.former s hs) hread
    exact ⟨⟨h.intents, h.main, h.service, forall_mem_former_set h.former hw.work n⟩, hw.file, .inl rfl⟩

end Steps

end Android

/-! ## The starts of the app -/

/-- The next status is one of those that are still to arrive. -/
theorem mem_drop_of_getElem? {posted : List Stage} {heard : Nat} {stage : Stage} (h : posted[heard]? = some stage) :
    stage ∈ posted.drop heard := by
  refine List.mem_of_getElem? (i := 0) ?_
  rw [List.getElem?_drop]
  exact h

open Android

variable {ι π κ : Type}

/-- The configuration a call has built and is to start. -/
def Phase.config : Phase π κ → Option (Config π κ)
  | .preparing config | .asking config => some config
  | _ => none

/-- The configuration a command carries. -/
def Command.config : Command π κ → Option (Config π κ)
  | .start config => some config
  | _ => none

/-- A connect that goes ahead. -/
def Input.connects : Input ι π κ → Bool
  | .connect _ profile => profile.isConnectable
  | _ => false

/-- Any other input is no such connect. -/
theorem not_connects {input : Input ι π κ} (h : input.connects = false) {i : ι} {profile : Profile π κ}
    (hinput : input = .connect i profile) (hc : profile.isConnectable = true) : False := by
  subst hinput
  exact Bool.false_ne_true (h.symm.trans hc)

/-- A call that waits for its permission is to start this. -/
theorem config_of_pending {phase : Phase π κ} {config : Config π κ} (h : phase = .preparing config ∨ phase = .asking config) :
    config ∈ phase.config := by
  rcases h with rfl | rfl <;> rfl

/-- Every configuration that is on its way to the engine satisfies `P`: what a call is to start, what a command carries, and what a
start on the device carries, or takes from the file where it carries none. -/
structure System.Starts (P : Config π κ → Prop) (s : System ι π κ) : Prop where
  calls : ∀ i, ∀ config ∈ (s.app.phases i).config, P config
  commands : ∀ c ∈ s.commands, ∀ config ∈ c.2.config, P config
  device : s.device.Starts fun config => ∀ c ∈ config.or s.device.startRequest, P c

instance System.Starts.decidable [Fintype ι] (P : Config π κ → Prop) [DecidablePred P] (s : System ι π κ) : Decidable (s.Starts P) :=
  decidable_of_iff ((∀ i, ∀ config ∈ (s.app.phases i).config, P config) ∧ (∀ c ∈ s.commands, ∀ config ∈ c.2.config, P config) ∧
      s.device.Starts fun config => ∀ c ∈ config.or s.device.startRequest, P c)
    ⟨fun ⟨h₁, h₂, h₃⟩ => ⟨h₁, h₂, h₃⟩, fun ⟨h₁, h₂, h₃⟩ => ⟨h₁, h₂, h₃⟩⟩

/-- What is weaker is true of all of them too. -/
theorem System.Starts.mono {P P' : Config π κ → Prop} {s : System ι π κ} (h : s.Starts P) (hP : ∀ config, P config → P' config) :
    s.Starts P' where
  calls i config hmem := hP config (h.calls i config hmem)
  commands c hc config hmem := hP config (h.commands c hc config hmem)
  device := h.device.mono fun _ hconfig c hmem => hP c (hconfig c hmem)

section Steps

variable [DecidableEq ι] [DecidableEq π] {P : Config π κ → Prop} {k : Controller ι π κ} {s s' : System ι π κ} {input : Input ι π κ}

omit [DecidableEq ι] [DecidableEq π] in
/-- What carries no configuration puts none on its way. -/
theorem forall_config_of_none {sent : Option (ι × Command π κ)} (h : (sent.bind fun c => c.2.config) = none) :
    ∀ c ∈ sent, ∀ config ∈ c.2.config, P config := by
  rintro c rfl config hmem
  rw [Option.bind_some, Option.mem_def.mp hmem] at h
  cases h

/-- What a call builds, it keeps until it sends it. -/
theorem Controller.configs_next {n : Controller.Next ι π κ} (h : k.next input = some n)
    (hk : ∀ i, ∀ config ∈ (k.phases i).config, P config)
    (hconnect : ∀ i profile, input = .connect i profile → profile.isConnectable = true → ∀ text, P ⟨profile.id, text⟩) :
    (∀ i, ∀ config ∈ (n.1.phases i).config, P config) ∧ ∀ c ∈ n.2, ∀ config ∈ c.2.config, P config := by
  have hgoto : ∀ {k' : Controller ι π κ} {j : ι} {phase : Phase π κ}, k'.phases = Function.update k.phases j phase →
      (∀ config ∈ phase.config, P config) → ∀ i, ∀ config ∈ (k'.phases i).config, P config := by
    intro k' j phase hphases hphase i
    rw [hphases]
    by_cases hij : i = j
    · subst hij
      rw [Function.update_self]
      exact hphase
    · rw [Function.update_of_ne hij]
      exact hk i
  have hnone : ∀ {built : Option (Config π κ)}, built = none → ∀ config ∈ built, P config := by
    rintro built rfl config hmem
    cases hmem
  cases move_of_next h with
  | prepare i profile text hi hb =>
    cases hc : profile.isConnectable with
    | false =>
      rw [next, if_pos hi, connect, hc] at h
      cases h
    | true => exact ⟨hgoto rfl fun _ hmem => Option.some_inj.mp hmem ▸ hconnect i profile rfl hc text, forall_config_of_none rfl⟩
  | ask i config hp =>
    exact ⟨hgoto rfl fun _ hmem => Option.some_inj.mp hmem ▸ hk i config (by rw [hp]; rfl), forall_config_of_none rfl⟩
  | start i config hp =>
    refine ⟨hgoto rfl (hnone rfl), fun c hc => ?_⟩
    cases hc
    exact fun _ hmem => Option.some_inj.mp hmem ▸ hk i config (config_of_pending hp)
  | status stage =>
    refine ⟨fun i => ?_, forall_config_of_none rfl⟩
    rw [quiet, phases_onPlatformStatus]
    exact hk i
  | unstoppable i r forgets hp => cases forgets <;> exact ⟨hgoto rfl (hnone rfl), forall_config_of_none rfl⟩
  | down i forgets stage hp hs hf => cases forgets <;> exact ⟨hgoto rfl (hnone rfl), forall_config_of_none rfl⟩
  | failed i forgets hp hs => cases forgets <;> exact ⟨hgoto rfl (hnone rfl), forall_config_of_none rfl⟩
  | downLate i forgets hp => cases forgets <;> exact ⟨hgoto rfl (hnone rfl), forall_config_of_none rfl⟩
  | up i id stage hp hs =>
    refine ⟨hgoto rfl ?_, forall_config_of_none rfl⟩
    split <;> exact hnone rfl
  | _ => exact ⟨hgoto rfl (hnone rfl), forall_config_of_none rfl⟩

/-- A step of the controller keeps what is on its way. -/
theorem System.Starts.goOn (h : s.Starts P) (hstep : s.goOn input = some s')
    (hconnect : ∀ i profile, input = .connect i profile → profile.isConnectable = true → ∀ text, P ⟨profile.id, text⟩) :
    s'.Starts P := by
  obtain ⟨n, hn, rfl⟩ := Option.map_eq_some_iff.mp hstep
  obtain ⟨hcalls, hsent⟩ := Controller.configs_next hn h.calls hconnect
  exact ⟨hcalls, List.forall_mem_append.mpr ⟨h.commands, fun c hc => hsent c (Option.mem_toList.mp hc)⟩, h.device⟩

omit [DecidableEq ι] [DecidableEq π] in
/-- A step of the device keeps what is on its way, where it is a start of one that satisfies `P` if it is one. -/
theorem System.Starts.device_step {a : Action (Config π κ)} {d : Device (Config π κ)} (h : s.Starts P) (hstep : s.device.step a = some d)
    (hplugin : ∀ config, a = .start config → P config) (hsystem : a = .systemStart → ∀ config ∈ s.device.startRequest, P config) :
    d.Starts (fun config => ∀ c ∈ config.or d.startRequest, P c) ∧
      (d.startRequest = s.device.startRequest ∨ ∀ config ∈ d.startRequest, P config) ∧
      (d.service.engine = s.device.service.engine ∨ ∀ engine ∈ d.service.engine, P engine.config) := by
  have hstarts := starts_step h.device (fun hfile config hmem => fun _ hc => Option.some_inj.mp hc ▸ hfile config hmem)
    (fun config ha _ hc => Option.some_inj.mp hc ▸ hplugin config ha) hsystem hstep
  have hfile : d.startRequest = s.device.startRequest ∨ ∀ config ∈ d.startRequest, P config :=
    hstarts.file.imp_right fun hfile config hmem => hfile config hmem config rfl
  refine ⟨hstarts.starts.mono fun config hconfig => ?_, hfile, hstarts.engine.imp_right fun h engine hmem => h engine hmem _ rfl⟩
  cases config with
  | some config => exact hconfig
  | none =>
    rcases hfile with hfile | hfile
    · rw [hfile]
      exact hconfig
    · exact hfile

/-- What a step of the two sides is: the controller goes on, with a call, a status or a reply; the plugin takes a command and answers
at once, or begins its callback; the callback is answered; or the device goes on. -/
inductive System.Move (s : System ι π κ) : Event ι π κ → System ι π κ → Prop where
  | app (input : Input ι π κ) (s' : System ι π κ) (hinput : input.ofApp = true) (h : s.goOn input = some s') : Move s (.app input) s'
  | status (stage : Stage) (s' : System ι π κ) (hposted : s.device.state.posted[s.heard]? = some stage)
      (h : goOn { s with heard := s.heard + 1 } (.status stage) = some s') : Move s .status s'
  | reply (n : Nat) (i : ι) (r : Reply) (s' : System ι π κ)
      (h : goOn { s with replies := s.replies.eraseIdx n } (.reply i r) = some s') : Move s (.reply n) s'
  | answered (r : Reply) (i : ι) (c : Command π κ) (rest : List (ι × Command π κ)) (hcommands : s.commands = (i, c) :: rest) :
      Move s (.command r) (({ s with commands := rest } : System ι π κ).answered i r)
  | start (i : ι) (config : Config π κ) (rest : List (ι × Command π κ)) (d : Device (Config π κ))
      (hcommands : s.commands = (i, .start config) :: rest) (h : s.device.step (.start config) = some d) :
      Move s (.command (.value true)) { s with commands := rest, device := d, answer := some (i, .value true) }
  | stop (i : ι) (rest : List (ι × Command π κ)) (d : Device (Config π κ)) (hcommands : s.commands = (i, .stop) :: rest)
      (h : s.device.step .stop = some d) :
      Move s (.command (.value true)) { s with commands := rest, device := d, answer := some (i, .value true) }
  | answer (x : ι × Reply) : Move s .answer (({ s with answer := none } : System ι π κ).answered x.1 x.2)
  | device (a : Action (Config π κ)) (d : Device (Config π κ)) (answer : Option (ι × Reply)) (ha : a.ofPlugin = false)
      (h : s.device.step a = some d) : Move s (.device a) { s with device := d, answer }

/-- Every step of the two sides is one of them. -/
theorem System.move_of_step {e : Event ι π κ} (h : s.step e = some s') : System.Move s e s' := by
  cases e with
  | app input =>
    simp only [step, Option.ite_none_right_eq_some] at h
    exact .app input s' h.1 h.2
  | status =>
    obtain ⟨stage, hposted, h⟩ := Option.bind_eq_some_iff.mp h
    exact .status stage s' hposted h
  | reply n =>
    obtain ⟨⟨i, r⟩, -, h⟩ := Option.bind_eq_some_iff.mp h
    exact .reply n i r s' h
  | command r =>
    rw [step] at h
    split at h
    · rename_i i c rest hcommands
      rw [Option.ite_none_right_eq_some] at h
      have hcall := h.2
      unfold onMethodCall at hcall
      split at hcall
      case h_4 config =>
        obtain ⟨d, hd, rfl⟩ := Option.map_eq_some_iff.mp hcall
        exact .start i config rest d hcommands hd
      case h_6 =>
        obtain ⟨d, hd, rfl⟩ := Option.map_eq_some_iff.mp hcall
        exact .stop i rest d hcommands hd
      case h_9 => nomatch hcall
      all_goals
        cases hcall
        exact .answered _ i _ rest hcommands
    · cases h
  | answer =>
    rw [step] at h
    split at h
    · rename_i x hx
      rw [Option.ite_none_right_eq_some, Option.some_inj] at h
      exact h.2 ▸ .answer x
    · cases h
  | device a =>
    rw [step, deviceStep] at h
    split at h
    · cases h
    · rename_i ha
      obtain ⟨d, hd, rfl⟩ := Option.map_eq_some_iff.mp h
      exact .device a d _ (Bool.eq_false_iff.mpr fun hp => ha (.inl hp)) hd

end Steps

/-! ## A start -/

/-- A connect, and its start: the plugin takes the two commands, the service its own, and its worker persists the configuration. The
engine is to be launched next. -/
def System.persists (i : Bool) (profile : Profile Nat Nat) : List (Event Bool Nat Nat) :=
  [.app (.connect i profile), .command (.value true), .reply 0, .command (.value true), .device (.main {}), .device (.main {}),
    .device (.main {}), .answer, .reply 0, .device .onStartCommand, .device (.main {}), .device (.main {}), .device (.main {}),
    .device (.worker {})]

/-- The engine comes up, and its worker says so. -/
def System.launches : List (Event Bool Nat Nat) := [.device (.worker {}), .device (.worker {}), .device (.worker {})]

/-- All that was said of a start so far arrives. -/
def System.arrives : List (Event Bool Nat Nat) := [.status, .status, .status, .status]

end Tunnel

end VpnStack

import VpnStack.Tunnel.Service

/-!
# The published stage and the engine

Two threads write one status cell. What the worker has left to do says what the cell and the engine will be when it is through,
if nothing comes in between; so a write of the main looper is harmless where it agrees with that, or where a further command is on
its way. A run whose writes are all of that kind never comes to rest with a stage that is not the engine's.
-/

namespace VpnStack

open Transition

namespace Tunnel

namespace Android

variable {κ : Type}

/-! ## What a worker will leave -/

/-- The engine, and whether its TUN is open. -/
def Service.up (s : Service κ) : Bool := s.engine.any (·.tun)

/-- Whether the engine is up behind one access of the worker, a start that goes well taken for one. -/
def upAfter (up : Bool) : WorkerOp κ → Bool
  | .resolve _ | .launch _ => true
  | .releaseEngine => false
  | _ => up

/-- The stage behind one access of the worker, a start that goes well taken for one. -/
def stageAfter (stage : Stage) : WorkerOp κ → Stage
  | .resolve _ | .launch _ => .connected
  | .write stage => stage
  | _ => stage

/-- Whether the worker will have left the engine up. -/
def Service.willBeUp (s : Service κ) : Bool := s.work.foldl upAfter s.up

/-- The stage the worker will have left in the cell that holds this one. -/
def Service.willPublish (s : Service κ) (stage : Stage) : Stage := s.work.foldl stageAfter stage

/-- An access that publishes a stage, or leads to one that does. -/
def WorkerOp.publishes : WorkerOp κ → Bool
  | .resolve _ | .launch _ | .write _ => true
  | _ => false

/-- The worker has nothing left to publish. -/
def Service.silent (s : Service κ) : Bool := s.work.all fun op => !op.publishes

/-- An access of a start. -/
def WorkerOp.starts : WorkerOp κ → Bool
  | .resolve _ | .launch _ => true
  | _ => false

/-- An access that brings the engine up or takes it down. -/
def WorkerOp.moves : WorkerOp κ → Bool
  | .resolve _ | .launch _ | .releaseEngine => true
  | _ => false

/-- The stage an access that publishes is about: a start publishes that the tunnel is up. -/
def WorkerOp.stage : WorkerOp κ → Stage
  | .write stage => stage
  | _ => .connected

namespace Service

/-- The last access of this kind the worker has before it. -/
def last (s : Service κ) (kind : WorkerOp κ → Bool) : Option (WorkerOp κ) := s.work.reverse.find? kind

/-- The last stage the worker has to publish. -/
def verdict (s : Service κ) : Option Stage := (s.last (·.publishes)).map (·.stage)

/-- The last of the worker's tasks that moves the engine is a start, or there is none and the engine is up. -/
def raised (s : Service κ) : Bool := ((s.last (·.moves)).map (·.starts)).getD s.up

/-- A start is in flight: the last the worker has to publish is that the tunnel is up, and it takes the engine down no more. -/
def Starting (s : Service κ) : Prop := s.verdict = some .connected ∧ s.raised = true

/-- A shutdown is in flight: the last the worker has to publish is that the tunnel is down, and it starts the engine no more. -/
def Stopping (s : Service κ) : Prop := (s.verdict = some .disconnected ∨ s.verdict = some .failed) ∧ s.raised = false

/-- The worker has nothing to publish, and this is the stage of the engine: CONNECTED where it is up and is not about to be
released, DISCONNECTED or FAILED where it is down or is. -/
def Idle (s : Service κ) (stage : Stage) : Prop :=
  s.verdict = none ∧ (stage = .connected ∧ s.raised = true ∨ (stage = .disconnected ∨ stage = .failed) ∧ s.raised = false)

/-- The worker has no start in flight: the last it has to publish is that the tunnel is down, or it has nothing to publish and the
cell, which holds this stage, says so. -/
def Lowered (s : Service κ) (stage : Stage) : Prop :=
  (s.verdict = some .disconnected ∨ s.verdict = some .failed) ∨ s.verdict = none ∧ (stage = .disconnected ∨ stage = .failed)

instance Starting.decidable (s : Service κ) : Decidable s.Starting := inferInstanceAs (Decidable (_ ∧ _))

instance Stopping.decidable (s : Service κ) : Decidable s.Stopping := inferInstanceAs (Decidable (_ ∧ _))

instance Idle.decidable (s : Service κ) (stage : Stage) : Decidable (s.Idle stage) := inferInstanceAs (Decidable (_ ∧ (_ ∨ _)))

instance Lowered.decidable (s : Service κ) (stage : Stage) : Decidable (s.Lowered stage) :=
  inferInstanceAs (Decidable ((_ ∨ _) ∨ (_ ∧ _)))

end Service

/-- The stage is the engine's. -/
def Tells (stage : Stage) (up : Bool) : Prop := (stage = .connected ↔ up = true) ∧ stage ≠ .connecting

/-- What the worker will leave in the cell that holds this stage is the engine's. -/
def Service.Settles (s : Service κ) (stage : Stage) : Prop := Tells (s.willPublish stage) s.willBeUp

/-- The engine is down, and the stage says that it is. -/
theorem tells_down {stage : Stage} : Tells stage false ↔ stage = .disconnected ∨ stage = .failed := by
  cases stage <;> simp [Tells]

/-- The engine is up, and the stage says that it is. -/
theorem tells_up {stage : Stage} : Tells stage true ↔ stage = .connected := by
  cases stage <;> simp [Tells]

/-- Where some tasks decide and the others leave what is there, the last that decides is what counts. -/
theorem foldl_eq_last {σ : Type} {f : σ → WorkerOp κ → σ} {decides : WorkerOp κ → Bool} {outcome : WorkerOp κ → σ}
    (hf : ∀ s op, f s op = if decides op then outcome op else s) (w : List (WorkerOp κ)) (s : σ) :
    w.foldl f s = ((w.reverse.find? decides).map outcome).getD s := by
  induction w using List.reverseRecOn with
  | nil => rfl
  | append_singleton w op ih =>
    rw [List.foldl_append, List.reverse_append, List.reverse_singleton, List.singleton_append, List.find?_cons, List.foldl_cons,
      List.foldl_nil, hf, ih]
    cases decides op <;> rfl

/-- Whether the engine will be up is decided by the last task that moves it. -/
theorem foldl_up (w : List (WorkerOp κ)) (up : Bool) :
    w.foldl upAfter up = ((w.reverse.find? (·.moves)).map (·.starts)).getD up :=
  foldl_eq_last (fun _ op => by cases op <;> rfl) w up

/-- What the cell will hold is decided by the last access that publishes. -/
theorem foldl_stage (w : List (WorkerOp κ)) (stage : Stage) :
    w.foldl stageAfter stage = ((w.reverse.find? (·.publishes)).map (·.stage)).getD stage :=
  foldl_eq_last (fun _ op => by cases op <;> rfl) w stage

/-- What takes the engine down however it is with it takes it down when it is not up. -/
theorem foldl_up_of_true {w : List (WorkerOp κ)} (h : w.foldl upAfter true = false) (up : Bool) :
    w.foldl upAfter up = false := by
  rw [foldl_up] at h ⊢
  cases hlast : (w.reverse.find? (·.moves)).map (·.starts) with
  | none =>
    rw [hlast] at h
    nomatch h
  | some raised =>
    rw [hlast] at h
    exact h

/-- A worker publishes nothing, or the last it publishes is in the cell whatever it held. -/
theorem foldl_stage_cases (w : List (WorkerOp κ)) :
    (∀ stage, w.foldl stageAfter stage = stage) ∨ ∃ last, ∀ stage, w.foldl stageAfter stage = last := by
  cases hlast : (w.reverse.find? (·.publishes)).map (·.stage) with
  | none => exact .inl fun stage => by rw [foldl_stage, hlast, Option.getD_none]
  | some last => exact .inr ⟨last, fun stage => by rw [foldl_stage, hlast, Option.getD_some]⟩

namespace Service

/-- The engine the worker leaves, by its last task that moves it. -/
theorem willBeUp_eq (s : Service κ) : s.willBeUp = s.raised := foldl_up s.work s.up

/-- The stage the worker leaves, by the last it has to publish. -/
theorem willPublish_eq (s : Service κ) (stage : Stage) : s.willPublish stage = s.verdict.getD stage := foldl_stage s.work stage

/-- What the worker leaves is the engine's where a start or a shutdown is in flight, or the stage is the engine's already. -/
theorem settles_iff (s : Service κ) (stage : Stage) : s.Settles stage ↔ s.Starting ∨ s.Stopping ∨ s.Idle stage := by
  rw [Settles, willBeUp_eq, willPublish_eq, Starting, Stopping, Idle]
  cases s.raised with
  | false =>
    rw [tells_down]
    cases s.verdict <;> simp
  | true =>
    rw [tells_up]
    cases s.verdict <;> simp

/-- A release behind the worker's tasks leaves a stage that says so where no start is in flight. -/
theorem tells_iff_lowered (s : Service κ) (stage : Stage) : Tells (s.willPublish stage) false ↔ s.Lowered stage := by
  rw [willPublish_eq, tells_down, Lowered]
  cases s.verdict <;> simp

/-- A shutdown leaves the engine down, and says so. -/
theorem settles_shutdown (s : Service κ) {stage : Stage} (forget : Bool) (hstage : stage = .disconnected ∨ stage = .failed)
    (now : Stage) : (s.shutdown stage forget).Settles now := by
  have htask : ∀ (up : Bool) (st : Stage), (shutdownTask stage forget : List (WorkerOp κ)).foldl upAfter up = false ∧
      (shutdownTask stage forget : List (WorkerOp κ)).foldl stageAfter st = stage := by
    intro up st
    cases forget <;> exact ⟨rfl, rfl⟩
  unfold Settles willBeUp willPublish shutdown
  rw [List.foldl_append, List.foldl_append, (htask _ .failed).1, (htask false _).2]
  exact tells_down.mpr hstage

end Service

/-! ## The invariant -/

/-- An access of the main looper that decides what the cell will hold, or the engine will be. -/
def MainOp.decides : MainOp κ → Bool
  | .write _ | .send _ | .executeStartBox _ | .republish | .executeRelease => true
  | _ => false

/-- Something is on its way that will decide: a command, or a further access of the callback. -/
def Awaited (intents : List (Intent κ)) (main : List (MainOp κ)) : Prop := intents ≠ [] ∨ main.any (·.decides) = true

instance Awaited.decidable (intents : List (Intent κ)) (main : List (MainOp κ)) : Decidable (Awaited intents main) :=
  haveI : Decidable (intents ≠ []) := decidable_of_iff (intents.isEmpty = false) (by cases intents <;> simp)
  inferInstanceAs (Decidable (_ ∨ _))

/-- An access that has nothing to do with the worker. -/
def MainOp.plain : MainOp κ → Bool
  | .executeStartBox _ | .executeRelease | .shutdownWorker => false
  | _ => true

/-- What the end of a callback does to the worker. -/
inductive Tail : Bool → List (MainOp κ) → Prop where
  | none (closed : Bool) : Tail closed []
  | start (config : Option κ) : Tail false [.executeStartBox config]
  | release : Tail false [.executeRelease, .shutdownWorker]

/-- What may be left at the end of a callback. -/
theorem Tail.cases {closed : Bool} {tail : List (MainOp κ)} (h : Tail closed tail) : tail = [] ∨ closed = false ∧
    ((∃ config, tail = [.executeStartBox config]) ∨ tail = [.executeRelease, .shutdownWorker]) := by
  cases h with
  | none => exact .inl rfl
  | start config => exact .inr ⟨rfl, .inl ⟨config, rfl⟩⟩
  | release => exact .inr ⟨rfl, .inr rfl⟩

/-- What may be left of a callback, of a service whose worker is closed or is not. -/
def Callback (closed : Bool) (main : List (MainOp κ)) : Prop :=
  (closed = false ∧ main = [.shutdownWorker]) ∨
    ∃ pre tail, (∀ op ∈ pre, op.plain = true) ∧ Tail closed tail ∧ main = pre ++ tail

structure Inv (d : Device κ) : Prop where
  callback : Callback d.service.closed d.main
  settles : Awaited d.intents d.main ∨ d.service.Settles d.state.current
  down : d.service.closed = true ∨ d.main = [.shutdownWorker] → d.service.willBeUp = false
  former : ∀ s ∈ d.former, s.silent = true ∧ s.willBeUp = false

/-- What the outside may do without the stage and the engine coming apart for good. A write of the main looper behind which no
command is on its way and the callback decides nothing more is one of four: FAILED of a command that the system refused, DISCONNECTED
of a stop of the plugin with no service running, FAILED of an `onRevoke` of a destroyed instance, and what a second start of the
service publishes again. Each is right where a start or a shutdown is in flight, or where the stage is the engine's. An `onDestroy`
is right where no start is in flight, and a new instance where the worker of the old one has nothing left to publish. -/
def Careful (d : Device κ) : Action κ → Prop
  | .main _ => match d.main with
    | .write stage :: rest => Awaited d.intents rest ∨ d.service.Starting ∨ d.service.Stopping ∨ d.service.Idle stage
    | .executeRelease :: rest => Awaited d.intents rest ∨ d.service.Lowered d.state.current
    | _ => True
  | .onStartCommand => d.service.closed = true → d.service.silent = true
  | _ => True

instance Careful.decidable (d : Device κ) (a : Action κ) : Decidable (Careful d a) := by
  unfold Careful
  cases a with
  | main luck =>
    cases d.main with
    | nil => exact isTrue trivial
    | cons op rest =>
      cases op with
      | write stage => exact inferInstanceAs (Decidable (_ ∨ _))
      | executeRelease => exact inferInstanceAs (Decidable (_ ∨ _))
      | _ => exact isTrue trivial
  | onStartCommand => exact inferInstanceAs (Decidable (_ → _))
  | _ => exact isTrue trivial

/-! ## One access of a worker -/

/-- What an access of a worker does, as far as it matters here. -/
structure WorkerStep (s s' : Service κ) (stage stage' : Stage) : Prop where
  settles : (s.closed = true → s.willBeUp = false) → s.Settles stage → s'.Settles stage'
  down : s.willBeUp = false → s'.willBeUp = false
  closed : s'.closed = s.closed
  silent : s.silent = true → s'.silent = true ∧ stage' = stage

section Worker

variable {s : Service κ} {rest : List (WorkerOp κ)} {stage : Stage}

/-- An access that changes nothing of what the worker will leave. -/
theorem workerStep_of_eq {s' : Service κ} {stage' : Stage} (hwill : s'.willBeUp = s.willBeUp)
    (hpublish : s'.willPublish stage' = s.willPublish stage) (hclosed : s'.closed = s.closed)
    (hsilent : s.silent = true → s'.silent = true ∧ stage' = stage) : WorkerStep s s' stage stage' := by
  refine ⟨fun _ h => ?_, fun h => hwill.trans h, hclosed, hsilent⟩
  rw [Service.Settles, hwill, hpublish]
  exact h

/-- A worker that comes to an access that publishes is not silent. -/
theorem not_silent_of_publishes {op : WorkerOp κ} (hwork : s.work = op :: rest) (hop : op.publishes = true) : s.silent = false := by
  rw [Service.silent, hwork, List.all_cons, hop]
  rfl

/-- An access that does no more than its fold says. -/
theorem workerStep_plain {s' : Service κ} {op : WorkerOp κ} {stage' : Stage} (hwork : s.work = op :: rest)
    (hrest : s'.work = rest) (hup : s'.up = upAfter s.up op) (hstage : stage' = stageAfter stage op)
    (hclosed : s'.closed = s.closed) (hsilent : op.publishes = false → stage' = stage) : WorkerStep s s' stage stage' := by
  refine workerStep_of_eq ?_ ?_ hclosed fun h => ?_
  · rw [Service.willBeUp, Service.willBeUp, hwork, hrest, hup, List.foldl_cons]
  · rw [Service.willPublish, Service.willPublish, hwork, hrest, hstage, List.foldl_cons]
  · rw [Service.silent, hwork, List.all_cons, Bool.and_eq_true] at h
    exact ⟨by rw [Service.silent, hrest]; exact h.2, hsilent (Bool.not_eq_true' _ ▸ h.1)⟩

/-- A start that failed is shut down by a task of its own, or at once when the worker is closed. -/
theorem workerStep_fail {s₀ : Service κ} {op : WorkerOp κ} (hwork : s.work = op :: rest)
    (hop : (∃ config, op = .resolve config) ∨ ∃ config, op = .launch config) (hrest : s₀.work = rest)
    (hclosed : s₀.closed = s.closed) : WorkerStep s s₀.fail stage stage := by
  have hwill : s.willBeUp = rest.foldl upAfter true := by
    rw [Service.willBeUp, hwork]
    rcases hop with ⟨config, rfl⟩ | ⟨config, rfl⟩ <;> rfl
  have hpublish : s.willPublish stage = rest.foldl stageAfter .connected := by
    rw [Service.willPublish, hwork]
    rcases hop with ⟨config, rfl⟩ | ⟨config, rfl⟩ <;> rfl
  have hnot : s.silent = true → False := by
    rw [not_silent_of_publishes hwork (by rcases hop with ⟨config, rfl⟩ | ⟨config, rfl⟩ <;> rfl)]
    exact Bool.false_ne_true
  cases hc : s₀.closed with
  | false =>
    have hfail : s₀.fail = s₀.shutdown .failed false := by rw [Service.fail, hc]; rfl
    rw [hfail]
    have hsettles : (s₀.shutdown .failed false).Settles stage := s₀.settles_shutdown false (.inr rfl) _
    refine ⟨fun _ _ => hsettles, fun _ => ?_, ?_, fun h => (hnot h).elim⟩
    · have htask : ∀ up, (shutdownTask .failed false : List (WorkerOp κ)).foldl upAfter up = false := fun _ => rfl
      rw [Service.willBeUp, Service.shutdown, List.foldl_append, htask]
    · exact hclosed
  | true =>
    have hfail : s₀.fail = { s₀ with work := [.stopped, .write .failed, .post .failed] ++ s₀.work } := by
      rw [Service.fail, hc]
      rfl
    have hwill' : s₀.fail.willBeUp = rest.foldl upAfter s₀.up := by
      rw [hfail, Service.willBeUp, hrest]
      rfl
    have hpublish' : s₀.fail.willPublish stage = rest.foldl stageAfter .failed := by
      rw [hfail, Service.willPublish, hrest]
      rfl
    refine ⟨fun hdown h => ?_, fun h => ?_, ?_, fun h => (hnot h).elim⟩
    · have hfalse := hdown (hclosed ▸ hc)
      rw [Service.Settles, hfalse, hpublish] at h
      rw [hwill] at hfalse
      rw [Service.Settles, hwill', hpublish', foldl_up_of_true hfalse]
      -- what the rest publishes is there whatever the failed start would have left, or there is nothing but the failure
      rcases foldl_stage_cases rest with hsame | ⟨last, hlast⟩
      · rw [hsame] at h ⊢
        exact tells_down.mpr (.inr rfl)
      · rw [hlast] at h ⊢
        exact h
    · rw [hwill']
      exact foldl_up_of_true (hwill ▸ h) _
    · rw [hfail]
      exact hclosed

/-- A start that went well comes to its publication with the engine up. -/
theorem workerStep_launched {config : κ} {engine : Engine κ} (hwork : s.work = .launch config :: rest) (htun : engine.tun = true) :
    WorkerStep s { s with engine := some engine, work := .write .connected :: .post .connected :: rest } stage stage := by
  refine workerStep_of_eq ?_ ?_ rfl fun h => ?_
  · have hup : ({ s with engine := some engine, work := .write .connected :: .post .connected :: rest } : Service κ).up = true := htun
    rw [Service.willBeUp, Service.willBeUp, hup, hwork]
    rfl
  · rw [Service.willPublish, Service.willPublish, hwork]
    rfl
  · rw [not_silent_of_publishes hwork rfl] at h
    nomatch h

/-- A start whose configuration was found. -/
theorem workerStep_resolved {asked : Option κ} (config : κ) (hwork : s.work = .resolve asked :: rest) :
    WorkerStep s { s with work := .launch config :: rest } stage stage := by
  refine workerStep_of_eq ?_ ?_ rfl fun h => ?_
  · rw [Service.willBeUp, Service.willBeUp, hwork]
    rfl
  · rw [Service.willPublish, Service.willPublish, hwork]
    rfl
  · rw [not_silent_of_publishes hwork rfl] at h
    nomatch h

/-- Every access of a worker is a step of that kind. -/
theorem workerStep_step {s' : Service κ} {luck : Luck} {state state' : TunnelState} {file file' : Option κ}
    (h : s.step luck state file = some (s', state', file')) : WorkerStep s s' state.current state'.current := by
  cases hwork : s.work with
  | nil =>
    rw [Service.step, hwork] at h
    cases h
  | cons op rest =>
    rw [Service.step, hwork] at h
    cases op with
    | resolve config =>
      cases config with
      | some config =>
        cases h
        exact workerStep_resolved config hwork
      | none =>
        simp only at h
        cases hfile : (if luck.ok = true then file else none) with
        | some config =>
          rw [hfile] at h
          cases h
          exact workerStep_resolved config hwork
        | none =>
          rw [hfile] at h
          cases h
          exact workerStep_fail hwork (.inl ⟨none, rfl⟩) rfl rfl
    | launch config =>
      simp only at h
      split at h
      · rename_i hluck
        cases h
        exact workerStep_launched hwork hluck.2
      · cases h
        exact workerStep_fail hwork (.inr ⟨config, rfl⟩) rfl rfl
    | releaseEngine =>
      cases h
      exact workerStep_plain hwork rfl rfl rfl rfl fun _ => rfl
    | write stage =>
      cases h
      exact workerStep_plain hwork rfl rfl rfl rfl nofun
    | _ =>
      cases h
      exact workerStep_plain hwork rfl rfl rfl rfl fun _ => rfl

end Worker

/-! ## One step of the device -/

section Steps

variable {d d' : Device κ}

/-- At first the engine is down, and the cell says so. -/
theorem inv_init : Inv ({} : Device κ) where
  callback := .inr ⟨[], [], nofun, .none true, rfl⟩
  settles := .inr (tells_down.mpr (.inl rfl))
  down _ := rfl
  former := nofun

/-- A callback that begins, with the worker as it is. -/
theorem Inv.begin (h : Inv d) {main : List (MainOp κ)} (hcallback : Callback d.service.closed main)
    (hawaited : main.any (·.decides) = true) (hmain : main ≠ [.shutdownWorker]) : Inv { d with main } where
  callback := hcallback
  settles := .inl (.inr hawaited)
  down hd := h.down (.inl (hd.resolve_right hmain))
  former := h.former

theorem callback_plain {closed : Bool} {main : List (MainOp κ)} (h : ∀ op ∈ main, op.plain = true) : Callback closed main :=
  .inr ⟨main, [], h, .none closed, (List.append_nil main).symm⟩

/-- The worker is shut down by a task. -/
theorem Inv.shutdown (h : Inv d) (hmain : d.main = []) (hclosed : d.service.closed = false) {stage : Stage} (forget : Bool)
    (hstage : stage = .disconnected ∨ stage = .failed) :
    Inv { d with service := d.service.shutdown stage forget } where
  callback := by
    rw [hmain]
    exact callback_plain nofun
  settles := .inr (d.service.settles_shutdown forget hstage _)
  down hd := by
    rcases hd with hd | hd
    · exact absurd (hclosed.symm.trans hd) Bool.false_ne_true
    · rw [hmain] at hd
      cases hd
  former := h.former

/-- There is an instance behind `onCreate`, and a new one only where the one before it had nothing left to publish. -/
theorem onCreate_cases (h : Inv d) (hmain : d.main = []) (hsilent : d.service.closed = true → d.service.silent = true)
    (rest : List (Intent κ)) :
    (Device.onCreate { d with intents := rest }).service.closed = false ∧
      (Device.onCreate { d with intents := rest }).main = [] ∧
      ∀ s ∈ (Device.onCreate { d with intents := rest }).former, s.silent = true ∧ s.willBeUp = false := by
  unfold Device.onCreate
  split
  · rename_i hclosed
    refine ⟨rfl, hmain, fun s hs => ?_⟩
    rcases List.mem_append.mp hs with hs | hs
    · exact h.former s hs
    · rw [List.mem_singleton.mp hs]
      exact ⟨hsilent hclosed, h.down (.inl hclosed)⟩
  · rename_i hclosed
    exact ⟨Bool.not_eq_true _ ▸ hclosed, hmain, h.former⟩

/-- Both commands keep the invariant, in an instance that is there. -/
theorem inv_onStartCommand {intent : Intent κ} (hclosed : d.service.closed = false) (hmain : d.main = [])
    (hformer : ∀ s ∈ d.former, s.silent = true ∧ s.willBeUp = false) : Inv (d.onStartCommand intent) := by
  cases intent with
  | stop =>
    refine ⟨?_, .inr (d.service.settles_shutdown true (.inl rfl) _), fun hd => ?_, hformer⟩
    · change Callback _ d.main
      rw [hmain]
      exact callback_plain nofun
    · rcases hd with hd | hd
      · exact absurd (hclosed.symm.trans hd) Bool.false_ne_true
      · exact absurd (hmain.symm.trans hd) nofun
  | start config =>
    rw [Device.onStartCommand]
    split
    · exact ⟨callback_plain (by simp [MainOp.plain]), .inl (.inr rfl),
        fun hd => absurd (hclosed.symm.trans (hd.resolve_right nofun)) Bool.false_ne_true, hformer⟩
    · refine ⟨.inr ⟨[.write .connecting, .post .connecting], [.executeStartBox config], by simp [MainOp.plain], ?_, rfl⟩,
        .inl (.inr rfl), fun hd => absurd (hclosed.symm.trans (hd.resolve_right nofun)) Bool.false_ne_true, hformer⟩
      change Tail d.service.closed _
      rw [hclosed]
      exact .start config

/-- A callback goes on with accesses that have nothing to do with the worker. -/
theorem Inv.continue (h : Inv d) {pre new tail : List (MainOp κ)} {intents : List (Intent κ)} {state : TunnelState}
    (hpre : ∀ op ∈ pre, op.plain = true) (htail : Tail d.service.closed tail) (hnew : ∀ op ∈ new, op.plain = true)
    (hsettles : Awaited intents (new ++ (pre ++ tail)) ∨ d.service.Settles state.current) :
    Inv { d with main := new ++ (pre ++ tail), intents, state } where
  callback := .inr ⟨new ++ pre, tail, fun op hop => (List.mem_append.mp hop).elim (hnew op) (hpre op), htail,
    (List.append_assoc ..).symm⟩
  settles := hsettles
  down hd := by
    refine h.down (.inl (hd.resolve_right fun hmain => ?_))
    change new ++ (pre ++ tail) = [.shutdownWorker] at hmain
    have hmem : ∀ op ∈ new ++ pre, op = .shutdownWorker := fun op hop => by
      have : op ∈ new ++ (pre ++ tail) := by
        rw [← List.append_assoc]
        exact List.mem_append_left _ hop
      rw [hmain] at this
      exact List.mem_singleton.mp this
    have hnil : new ++ pre = [] := by
      refine List.eq_nil_iff_forall_not_mem.mpr fun op hop => ?_
      have hplain := (List.mem_append.mp hop).elim (hnew op) (hpre op)
      rw [hmem op hop] at hplain
      cases hplain
    rw [← List.append_assoc, hnil, List.nil_append] at hmain
    rcases htail.cases with rfl | ⟨-, ⟨config, rfl⟩ | rfl⟩ <;> cases hmain
  former := h.former

/-- What is awaited behind an access that decides nothing is awaited still. -/
theorem awaited_of_cons {intents : List (Intent κ)} {op : MainOp κ} {main : List (MainOp κ)} (h : Awaited intents (op :: main))
    (hop : op.decides = false) : Awaited intents main := by
  rcases h with h | h
  · exact .inl h
  · rw [List.any_cons, hop, Bool.false_or] at h
    exact .inr h

theorem awaited_write {intents : List (Intent κ)} {stage : Stage} {main : List (MainOp κ)} :
    Awaited intents (.write stage :: main) := .inr rfl

/-- An access that has nothing to do with the worker. -/
theorem inv_plain (h : Inv d) {luck : Luck} {op : MainOp κ} {pre tail : List (MainOp κ)} (hop : op.plain = true)
    (hpre : ∀ op ∈ pre, op.plain = true) (htail : Tail d.service.closed tail) (hmain : d.main = op :: (pre ++ tail))
    (hc : Careful d (.main luck)) (hstep : d.mainStep luck = some d') : Inv d' := by
  have hsettles := h.settles
  rw [hmain] at hsettles
  rw [Device.mainStep, hmain] at hstep
  have hnone : ∀ op ∈ ([] : List (MainOp κ)), op.plain = true := nofun
  have hfailed : ∀ op ∈ ([.write .failed, .post .failed] : List (MainOp κ)), op.plain = true := by simp [MainOp.plain]
  cases op with
  | write stage =>
    cases hstep
    simp only [Careful, hmain] at hc
    exact h.continue hpre htail hnone (hc.imp_right (d.service.settles_iff stage).mpr)
  | post stage =>
    cases hstep
    exact h.continue hpre htail hnone (hsettles.imp_left fun h => awaited_of_cons h rfl)
  | stopped =>
    cases hstep
    exact h.continue hpre htail hnone (hsettles.imp_left fun h => awaited_of_cons h rfl)
  | send intent =>
    simp only at hstep
    split at hstep
    · cases hstep
      exact h.continue hpre htail hnone (.inl (.inl (by simp)))
    · cases hstep
      exact h.continue hpre htail hfailed (.inl awaited_write)
  | republish =>
    cases hstep
    have hnew : ∀ op ∈ ([.write d.state.current, .post d.state.current] : List (MainOp κ)), op.plain = true := by
      simp [MainOp.plain]
    exact h.continue hpre htail hnew (.inl awaited_write)
  | correctConnected =>
    simp only at hstep
    split at hstep
    · cases hstep
      exact h.continue hpre htail hfailed (.inl awaited_write)
    · cases hstep
      have hnew : ∀ op ∈ ([.correctConnecting] : List (MainOp κ)), op.plain = true := by simp [MainOp.plain]
      exact h.continue hpre htail hnew
        (hsettles.imp_left fun h => (awaited_of_cons h rfl).imp_right fun h => by rw [List.any_append, h, Bool.or_true])
  | correctConnecting =>
    simp only at hstep
    split at hstep
    · cases hstep
      exact h.continue hpre htail hfailed (.inl awaited_write)
    · cases hstep
      exact h.continue hpre htail hnone (hsettles.imp_left fun h => awaited_of_cons h rfl)
  | _ => cases hop

/-- Every access of the main looper keeps the invariant, if it is careful. -/
theorem inv_mainStep (h : Inv d) {luck : Luck} (hc : Careful d (.main luck)) (hstep : d.mainStep luck = some d') : Inv d' := by
  rcases h.callback with ⟨hclosed, hmain⟩ | ⟨pre, tail, hpre, htail, hmain⟩
  · rw [Device.mainStep, hmain] at hstep
    cases hstep
    have hdown := h.down (.inr hmain)
    have hsettles := h.settles
    rw [hmain] at hsettles
    exact ⟨callback_plain nofun, hsettles.imp_left fun h => awaited_of_cons h rfl, fun _ => hdown, h.former⟩
  · cases pre with
    | cons op pre =>
      exact inv_plain h (hpre op (List.mem_cons_self ..)) (fun op hop => hpre op (List.mem_cons_of_mem _ hop)) htail hmain hc hstep
    | nil =>
      rw [List.nil_append] at hmain
      rw [Device.mainStep, hmain] at hstep
      rcases htail.cases with rfl | ⟨hclosed, ⟨config, rfl⟩ | rfl⟩
      · cases hstep
      · cases hstep
        have hlast : ∀ (up : Bool) (stage : Stage), [WorkerOp.resolve config].foldl upAfter up = true ∧
            [WorkerOp.resolve config].foldl stageAfter stage = .connected := fun _ _ => ⟨rfl, rfl⟩
        refine ⟨callback_plain nofun, .inr ?_, fun hd => ?_, h.former⟩
        · rw [Service.Settles, Service.willBeUp, Service.willPublish, List.foldl_append, List.foldl_append, (hlast _ .failed).1,
            (hlast false _).2]
          exact tells_up.mpr rfl
        · rcases hd with hd | hd
          · exact absurd (hclosed.symm.trans hd) Bool.false_ne_true
          · cases hd
      · cases hstep
        simp only [Careful, hmain] at hc
        have hlast : ∀ (up : Bool) (stage : Stage), ([.releaseEngine] : List (WorkerOp κ)).foldl upAfter up = false ∧
            ([.releaseEngine] : List (WorkerOp κ)).foldl stageAfter stage = stage := fun _ _ => ⟨rfl, rfl⟩
        refine ⟨.inl ⟨hclosed, rfl⟩, hc.imp_right fun hc => ?_, fun _ => ?_, h.former⟩
        · rw [Service.Settles, Service.willBeUp, Service.willPublish, List.foldl_append, List.foldl_append, (hlast _ .failed).1,
            (hlast false _).2]
          exact (d.service.tells_iff_lowered _).mpr hc
        · rw [Service.willBeUp, List.foldl_append, (hlast _ .failed).1]

/-- One step of the device. -/
theorem inv_step {a : Action κ} (h : Inv d) (hc : Careful d a) (hstep : d.step a = some d') : Inv d' := by
  cases a with
  | start config =>
    simp only [Device.step] at hstep
    split at hstep
    · cases hstep
      exact h.begin (callback_plain (by simp [MainOp.plain])) rfl nofun
    · cases hstep
  | stop =>
    simp only [Device.step] at hstep
    split at hstep
    · cases hstep
      rw [Device.stop]
      split
      · exact h.begin (callback_plain (by simp [MainOp.plain])) rfl nofun
      · exact h.begin (callback_plain (by simp [MainOp.plain])) rfl nofun
    · cases hstep
  | systemStart =>
    cases hstep
    exact ⟨h.callback, .inl (.inl (by simp)), h.down, h.former⟩
  | notificationStop =>
    cases hstep
    exact ⟨h.callback, .inl (.inl (by simp)), h.down, h.former⟩
  | onStartCommand =>
    simp only [Device.step] at hstep
    split at hstep
    · rename_i intent rest hmain hintents
      cases hstep
      obtain ⟨hclosed, hnone, hformer⟩ := onCreate_cases h hmain hc rest
      exact inv_onStartCommand hclosed hnone hformer
    · cases hstep
  | onRevoke =>
    simp only [Device.step] at hstep
    split at hstep
    · rename_i hmain
      cases hstep
      rw [Device.onRevoke]
      split
      · exact h.begin (callback_plain (by simp [MainOp.plain])) rfl nofun
      · rename_i hclosed
        exact h.shutdown (List.isEmpty_iff.mp hmain) (Bool.not_eq_true _ ▸ hclosed) false (.inr rfl)
    · cases hstep
  | onDestroy =>
    simp only [Device.step] at hstep
    split at hstep
    · rename_i hboth
      cases hstep
      have hclosed : d.service.closed = false := Bool.eq_false_iff.mpr hboth.2
      refine h.begin (.inr ⟨[.stopped, .correctConnected], [.executeRelease, .shutdownWorker], by simp [MainOp.plain], ?_, rfl⟩)
        rfl nofun
      rw [hclosed]
      exact .release
    · cases hstep
  | main luck => exact inv_mainStep h hc hstep
  | worker luck =>
    obtain ⟨⟨s', state', file'⟩, hs, rfl⟩ := Option.map_eq_some_iff.mp hstep
    have hw := workerStep_step hs
    refine ⟨?_, h.settles.imp_right fun hset => hw.settles (fun hclosed => h.down (.inl hclosed)) hset, fun hd => ?_, h.former⟩
    · change Callback s'.closed d.main
      rw [hw.closed]
      exact h.callback
    · exact hw.down (h.down (hd.imp_left fun hclosed => hw.closed ▸ hclosed))
  | former n luck =>
    obtain ⟨s, hs, hstep⟩ := Option.bind_eq_some_iff.mp hstep
    obtain ⟨⟨s', state', file'⟩, hs', rfl⟩ := Option.map_eq_some_iff.mp hstep
    have hw := workerStep_step hs'
    obtain ⟨hsilent, hdown⟩ := h.former s (List.mem_of_getElem? hs)
    obtain ⟨hsilent', hstage⟩ := hw.silent hsilent
    refine ⟨h.callback, h.settles.imp_right fun hset => ?_, h.down, fun t ht => ?_⟩
    · change d.service.Settles state'.current
      rw [hstage]
      exact hset
    · rcases List.mem_or_eq_of_mem_set ht with ht | rfl
      · exact h.former t ht
      · exact ⟨hsilent', hw.down hdown⟩

end Steps

/-! ## Every run -/

/-- Nothing is under way: no callback, no command, no task of a worker, and no `stopSelf` whose `onDestroy` is to come. -/
def Device.Quiescent (d : Device κ) : Prop :=
  d.main = [] ∧ d.intents = [] ∧ d.service.work = [] ∧ (d.service.closed = false → d.service.leaving = false) ∧
    ∀ s ∈ d.former, s.work = []

/-- An engine is running with an open TUN. -/
def Device.Up (d : Device κ) : Prop := d.service.up = true ∨ ∃ s ∈ d.former, s.up = true

/-- The published stage is the engine's. -/
def Device.Published (d : Device κ) : Prop :=
  (d.state.current = .connected ↔ d.Up) ∧ (¬ d.Up → d.state.current = .disconnected ∨ d.state.current = .failed) ∧
    d.state.current ≠ .connecting

instance Device.Quiescent.decidable [DecidableEq κ] (d : Device κ) : Decidable d.Quiescent :=
  inferInstanceAs (Decidable (_ ∧ _ ∧ _ ∧ _ ∧ _))

instance Device.Up.decidable (d : Device κ) : Decidable d.Up := inferInstanceAs (Decidable (_ ∨ _))

instance Device.Published.decidable (d : Device κ) : Decidable d.Published := inferInstanceAs (Decidable (_ ∧ _ ∧ _))

/-- At rest the invariant is what is published. -/
theorem Inv.published {d : Device κ} (h : Inv d) (hq : d.Quiescent) : d.Published := by
  obtain ⟨hmain, hintents, hwork, -, hformer⟩ := hq
  have hsettles : d.service.Settles d.state.current := by
    refine h.settles.resolve_left fun hawaited => ?_
    rw [hmain, hintents] at hawaited
    rcases hawaited with hne | hany
    · exact hne rfl
    · cases hany
  have htells : Tells d.state.current d.service.up := by
    rw [Service.Settles, Service.willPublish, Service.willBeUp, hwork] at hsettles
    exact hsettles
  have hup : d.Up ↔ d.service.up = true := by
    refine ⟨fun hup => hup.resolve_right ?_, .inl⟩
    rintro ⟨s, hs, hup⟩
    have hdown := (h.former s hs).2
    rw [Service.willBeUp, hformer s hs] at hdown
    exact Bool.false_ne_true (hdown.symm.trans hup)
  refine ⟨htells.1.trans hup.symm, fun hnot => ?_, htells.2⟩
  have hdown : d.service.up = false := Bool.eq_false_iff.mpr fun h => hnot (hup.mpr h)
  rw [hdown] at htells
  exact tells_down.mp htells

/-- In every run whose steps are careful, the stage that is published at rest is the engine's. -/
theorem published_of_careful (as : List (Action κ)) {d : Device κ} (h : Along Device.step Careful {} as)
    (hrun : run Device.step {} as = some d) (hq : d.Quiescent) : d.Published :=
  Inv.published (run_invariant (fun _ _ _ hi hc hstep => inv_step hi hc hstep) inv_init h hrun) hq

/-- The app starts the tunnel, and it comes up. -/
def comesUp : List (Action Nat) :=
  [.start 1, .main {}, .main {}, .main {}, .onStartCommand, .main {}, .main {}, .main {},
    .worker {}, .worker {}, .worker {}, .worker {}]

/-- The app stops it again, and the service is destroyed. -/
def goesDown : List (Action Nat) :=
  [.stop, .main {}, .onStartCommand, .worker {}, .worker {}, .worker {}, .worker {}, .worker {}, .worker {}, .onDestroy,
    .main {}, .main {}, .main {}, .main {}, .main {}, .worker {}]

/-- The app starts a tunnel where one is up: the plugin writes that it is connecting, and the service ignores the command and
publishes what it finds. -/
def startsAgain : List (Action Nat) :=
  [.start 2, .main {}, .main {}, .main {}, .onStartCommand, .main {}, .main {}, .main {}]

/-- A tunnel that comes up and goes down. -/
theorem published_of_careful_down : ∃ d, run Device.step {} (comesUp ++ goesDown) = some d ∧ d.Published :=
  ⟨_, rfl, published_of_careful (comesUp ++ goesDown) (by decide) rfl (by decide)⟩

/-- A start over a tunnel that is up leaves the stage at connecting, for good. -/
theorem published_connecting : ¬ ∀ (as : List (Action Nat)) (d : Device Nat), run Device.step {} as = some d → d.Quiescent →
    d.Published := by
  intro h
  exact absurd (h (comesUp ++ startsAgain) _ rfl (by decide)) (by decide)

end Android

end Tunnel

end VpnStack

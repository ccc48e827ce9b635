import VpnStack.Theorems.Published

/-!
# What a stop leaves

A stop that the service handles queues the release of the engine and the removal of the start request behind whatever its worker has
to do. What the worker will leave behind is read off its tasks: a start that is handed a configuration writes the file and brings the
engine up, and Android's own start brings up what the file holds at that time. So once the stop is queued nothing will be left, and as
long as the app makes no start, whatever else happens adds nothing to it.
-/

namespace VpnStack

open Transition

namespace Tunnel

namespace Android

variable {κ : Type}

/-! ## What a worker will leave behind -/

/-- Whether there is a file and whether there is an engine behind one access of the worker, a start that goes well taken for one. -/
def leftAfter : Bool × Bool → WorkerOp κ → Bool × Bool
  | _, .resolve (some _) => (true, true)
  | (file, engine), .resolve none => (file, engine || file)
  | (file, _), .launch _ => (file, true)
  | (file, _), .releaseEngine => (file, false)
  | (_, engine), .forgetStartRequest => (false, engine)
  | left, _ => left

/-- Whether there will be a file and an engine behind the tasks of the worker. -/
def Service.leaves (s : Service κ) (file : Option κ) : Bool × Bool := s.work.foldl leftAfter (file.isSome, s.engine.isSome)

/-- An access of a start, or of the removal of its file. -/
def WorkerOp.matters : WorkerOp κ → Bool
  | .resolve _ | .launch _ | .forgetStartRequest => true
  | _ => false

/-- The worker has no start before it, and has removed the file if it is to. -/
def Service.through (s : Service κ) : Bool := s.work.all fun op => !op.matters

/-- The worker is through, and leaves no engine behind. -/
structure Service.Gone (s : Service κ) : Prop where
  through : s.through = true
  engine : (s.leaves none).2 = false

/-- What is there at first makes no less of what is left. -/
theorem leftAfter_mono {l l' : Bool × Bool} (h : l ≤ l') (op : WorkerOp κ) : leftAfter l op ≤ leftAfter l' op := by
  obtain ⟨file, engine⟩ := l
  obtain ⟨file', engine'⟩ := l'
  rw [Prod.mk_le_mk] at h
  obtain ⟨hfile, hengine⟩ := h
  cases op with
  | resolve config =>
    cases config with
    | some config => exact le_refl _
    | none => exact Prod.mk_le_mk.mpr ⟨hfile, sup_le_sup hengine hfile⟩
  | launch config => exact Prod.mk_le_mk.mpr ⟨hfile, le_refl _⟩
  | releaseEngine => exact Prod.mk_le_mk.mpr ⟨hfile, le_refl _⟩
  | forgetStartRequest => exact Prod.mk_le_mk.mpr ⟨le_refl _, hengine⟩
  | _ => exact Prod.mk_le_mk.mpr ⟨hfile, hengine⟩

/-- What is there at first makes no less of what a list of tasks leaves. -/
theorem foldl_leftAfter_mono {l l' : Bool × Bool} (h : l ≤ l') (work : List (WorkerOp κ)) :
    work.foldl leftAfter l ≤ work.foldl leftAfter l' := by
  induction work generalizing l l' with
  | nil => exact h
  | cons op work ih => exact ih (leftAfter_mono h op)

namespace Service

variable {s s' : Service κ} {rest : List (WorkerOp κ)}

/-- What a further task does to what is left. -/
theorem leaves_append (s : Service κ) (file : Option κ) (task : List (WorkerOp κ)) :
    leaves { s with work := s.work ++ task } file = task.foldl leftAfter (s.leaves file) := List.foldl_append ..

/-- Behind a stop there is nothing left, whatever the worker had to do before it. -/
theorem leaves_stop (s : Service κ) (stage : Stage) (file : Option κ) : (s.shutdown stage true).leaves file = (false, false) :=
  (s.leaves_append file _).trans rfl

/-- A shutdown leaves no engine, and no file that would not have been left. -/
theorem leaves_shutdown_le (s : Service κ) (stage : Stage) (forget : Bool) (file : Option κ) :
    (s.shutdown stage forget).leaves file ≤ s.leaves file := by
  rw [shutdown, leaves_append]
  rcases s.leaves file with ⟨left, engine⟩
  cases forget with
  | true => exact Prod.mk_le_mk.mpr ⟨bot_le, bot_le⟩
  | false => exact Prod.mk_le_mk.mpr ⟨le_refl left, bot_le⟩

/-- The end of a failed start leaves nothing that would not have been left. -/
theorem leaves_fail_le (s : Service κ) (file : Option κ) : s.fail.leaves file ≤ s.leaves file := by
  unfold fail
  split
  · exact le_refl _
  · exact s.leaves_shutdown_le .failed false file

/-- The step lemma of a worker: it leaves no more than its tasks say, whether its starts go well or not. -/
theorem leaves_step {luck : Luck} {state state' : TunnelState} {file file' : Option κ}
    (h : s.step luck state file = some (s', state', file')) : s'.leaves file' ≤ s.leaves file := by
  cases hwork : s.work with
  | nil =>
    rw [step, hwork] at h
    cases h
  | cons op rest =>
    have hleaves : s.leaves file = rest.foldl leftAfter (leftAfter (file.isSome, s.engine.isSome) op) := by
      rw [leaves, hwork, List.foldl_cons]
    rw [step, hwork] at h
    rw [hleaves]
    have hsame : ∀ {l : Bool × Bool}, l ≤ leftAfter (file.isSome, s.engine.isSome) op →
        rest.foldl leftAfter l ≤ rest.foldl leftAfter (leftAfter (file.isSome, s.engine.isSome) op) := fun h =>
      foldl_leftAfter_mono h rest
    cases op with
    | resolve config =>
      cases config with
      | some config =>
        cases h
        refine hsame (l := leftAfter (_, _) (.launch config)) ?_
        exact Prod.mk_le_mk.mpr ⟨le_top, le_refl _⟩
      | none =>
        simp only at h
        cases hread : (if luck.ok = true then file else none) with
        | some config =>
          rw [hread] at h
          cases h
          have hfile : file = some config := by
            split at hread
            · exact hread
            · cases hread
          subst hfile
          refine hsame (l := leftAfter (_, _) (.launch config)) ?_
          exact Prod.mk_le_mk.mpr ⟨le_refl _, by simp⟩
        | none =>
          rw [hread] at h
          cases h
          refine (leaves_fail_le _ _).trans (hsame (l := (file.isSome, s.engine.isSome)) ?_)
          exact Prod.mk_le_mk.mpr ⟨le_refl _, le_sup_left⟩
    | launch config =>
      simp only at h
      split at h
      · cases h
        exact hsame (l := (file.isSome, true)) (le_refl _)
      · cases h
        exact (leaves_fail_le _ _).trans (hsame (l := (file.isSome, true)) (le_refl _))
    | _ =>
      cases h
      exact hsame (le_refl _)

/-- A worker that is through stays so, and leaves the file alone. -/
theorem through_step {luck : Luck} {state state' : TunnelState} {file file' : Option κ} (hs : s.through = true)
    (h : s.step luck state file = some (s', state', file')) : s'.through = true ∧ file' = file := by
  cases hwork : s.work with
  | nil =>
    rw [step, hwork] at h
    cases h
  | cons op rest =>
    rw [through, hwork, List.all_cons, Bool.and_eq_true] at hs
    obtain ⟨hop, hrest⟩ := hs
    rw [step, hwork] at h
    cases op with
    | resolve config => cases hop
    | launch config => cases hop
    | forgetStartRequest => cases hop
    | _ =>
      cases h
      exact ⟨hrest, rfl⟩

/-- Whatever file a worker that is through finds, it brings no engine up. -/
theorem leaves_engine_of_through (hs : s.through = true) (file file' : Option κ) : (s.leaves file).2 = (s.leaves file').2 := by
  have hfold : ∀ (work : List (WorkerOp κ)) (l l' : Bool × Bool), (work.all fun op => !op.matters) = true → l.2 = l'.2 →
      (work.foldl leftAfter l).2 = (work.foldl leftAfter l').2 := by
    intro work
    induction work with
    | nil => exact fun l l' _ h => h
    | cons op work ih =>
      intro l l' hall h
      obtain ⟨hop, hrest⟩ := Bool.and_eq_true_iff.mp (List.all_cons ▸ hall)
      refine ih _ _ hrest ?_
      cases op with
      | resolve config => cases hop
      | launch config => cases hop
      | forgetStartRequest => cases hop
      | releaseEngine => rfl
      | _ => exact h
  exact hfold s.work _ _ hs rfl

/-- A worker that is through leaves the file there is. -/
theorem leaves_file_of_through (hs : s.through = true) (file : Option κ) : (s.leaves file).1 = file.isSome := by
  have hfold : ∀ (work : List (WorkerOp κ)) (l : Bool × Bool), (work.all fun op => !op.matters) = true →
      (work.foldl leftAfter l).1 = l.1 := by
    intro work
    induction work with
    | nil => exact fun l _ => rfl
    | cons op work ih =>
      intro l hall
      obtain ⟨hop, hrest⟩ := Bool.and_eq_true_iff.mp (List.all_cons ▸ hall)
      refine (ih _ hrest).trans ?_
      cases op with
      | resolve config => cases hop
      | launch config => cases hop
      | forgetStartRequest => cases hop
      | _ => rfl
  exact hfold s.work _ hs

/-- The step lemma of a worker that is gone. -/
theorem Gone.step {luck : Luck} {state state' : TunnelState} {file file' : Option κ} (hs : s.Gone)
    (h : s.step luck state file = some (s', state', file')) : s'.Gone ∧ file' = file := by
  obtain ⟨hthrough, hfile⟩ := through_step hs.through h
  refine ⟨⟨hthrough, ?_⟩, hfile⟩
  have hengine : (s'.leaves file').2 ≤ (s.leaves file).2 := (leaves_step h).2
  rw [leaves_engine_of_through hthrough file' none, leaves_engine_of_through hs.through file none, hs.engine] at hengine
  exact le_bot_iff.mp hengine

end Service

/-! ## The invariant -/

/-- The command carries no configuration. -/
def Intent.bare : Intent κ → Bool
  | .start config => config.isNone
  | .stop => true

/-- The access brings no configuration on its way. -/
def MainOp.bare : MainOp κ → Bool
  | .send intent => intent.bare
  | .executeStartBox config => config.isNone
  | _ => true

/-- Nothing will be left, and nothing is on its way that would change that. -/
structure Forgets (d : Device κ) : Prop where
  intents : ∀ intent ∈ d.intents, intent.bare = true
  main : ∀ op ∈ d.main, op.bare = true
  service : d.service.leaves d.startRequest = (false, false)
  former : ∀ s ∈ d.former, s.Gone

/-- The app makes no start, and Android makes a new instance of the service only where the worker of the last one is through. -/
def Handover (d : Device κ) : Action κ → Prop
  | .start _ => False
  | .onStartCommand => d.service.closed = true → d.service.through = true
  | _ => True

instance Handover.decidable (d : Device κ) : (a : Action κ) → Decidable (Handover d a)
  | .start _ => inferInstanceAs (Decidable False)
  | .onStartCommand => inferInstanceAs (Decidable (d.service.closed = true → d.service.through = true))
  | .stop | .systemStart | .notificationStop | .onRevoke | .onDestroy | .main _ | .worker _ | .former .. => inferInstanceAs (Decidable True)

/-! ## One step of the device -/

section Steps

variable {d d' : Device κ}

/-- A callback begins, or goes on. -/
theorem Forgets.callback (h : Forgets d) {main : List (MainOp κ)} (hmain : ∀ op ∈ main, op.bare = true) (state : TunnelState) :
    Forgets { d with main, state } := ⟨h.intents, hmain, h.service, h.former⟩

/-- A command is on its way to the service. -/
theorem Forgets.sends (h : Forgets d) {intent : Intent κ} (hintent : intent.bare = true) {main : List (MainOp κ)}
    (hmain : ∀ op ∈ main, op.bare = true) : Forgets { d with main, intents := d.intents ++ [intent] } :=
  ⟨List.forall_mem_append.mpr ⟨h.intents, List.forall_mem_singleton.mpr hintent⟩, hmain, h.service, h.former⟩

/-- The worker is handed a task that leaves nothing. -/
theorem Forgets.queue (h : Forgets d) {task : List (WorkerOp κ)} (htask : task.foldl leftAfter (false, false) = (false, false))
    {main : List (MainOp κ)} (hmain : ∀ op ∈ main, op.bare = true) :
    Forgets { d with main, service := { d.service with work := d.service.work ++ task } } := by
  refine ⟨h.intents, hmain, ?_, h.former⟩
  change Service.leaves { d.service with work := d.service.work ++ task } d.startRequest = _
  rw [Service.leaves_append, h.service, htask]

/-- A service that is shut down leaves nothing where it would have left nothing. -/
theorem Forgets.shutdown (h : Forgets d) (stage : Stage) (forget : Bool) :
    Forgets { d with service := d.service.shutdown stage forget } :=
  ⟨h.intents, h.main, le_bot_iff.mp ((d.service.leaves_shutdown_le stage forget d.startRequest).trans h.service.le), h.former⟩

/-- A new instance of the service has nothing to leave, and the last one is gone. -/
theorem Forgets.onCreate (h : Forgets d) (hthrough : d.service.closed = true → d.service.through = true) : Forgets d.onCreate := by
  unfold Device.onCreate
  split
  · rename_i hclosed
    have hfile : d.startRequest = none := by
      have hleft := Service.leaves_file_of_through (hthrough hclosed) d.startRequest
      rw [h.service] at hleft
      exact Option.isSome_eq_false_iff.mp hleft.symm |> Option.isNone_iff_eq_none.mp
    refine ⟨h.intents, h.main, ?_, List.forall_mem_append.mpr ⟨h.former, List.forall_mem_singleton.mpr ⟨hthrough hclosed, ?_⟩⟩⟩
    · change Service.leaves {} d.startRequest = _
      rw [hfile]
      rfl
    · rw [← hfile, h.service]
  · exact h

/-- A command of the system adds nothing to what is left. -/
theorem Forgets.onStartCommand (h : Forgets d) {intent : Intent κ} (hintent : intent.bare = true) :
    Forgets (d.onStartCommand intent) := by
  cases intent with
  | stop => exact h.shutdown .disconnected true
  | start config =>
    rw [Device.onStartCommand]
    split
    · exact h.callback (by simp [MainOp.bare]) d.state
    · refine ⟨h.intents, ?_, h.service, h.former⟩
      exact List.forall_mem_cons.mpr ⟨rfl, List.forall_mem_cons.mpr ⟨rfl, List.forall_mem_singleton.mpr hintent⟩⟩

/-- An access of the main looper adds nothing to what is left. -/
theorem forgets_mainStep (h : Forgets d) {luck : Luck} (hstep : d.mainStep luck = some d') : Forgets d' := by
  cases hmain : d.main with
  | nil =>
    rw [Device.mainStep, hmain] at hstep
    cases hstep
  | cons op rest =>
    rw [Device.mainStep, hmain] at hstep
    obtain ⟨hop, hrest⟩ := List.forall_mem_cons.mp (hmain ▸ h.main)
    -- a failure is reported first
    have hfailed : Forgets { d with main := .write .failed :: .post .failed :: rest } :=
      h.callback (List.forall_mem_cons.mpr ⟨rfl, List.forall_mem_cons.mpr ⟨rfl, hrest⟩⟩) d.state
    cases op with
    | write stage => cases hstep; exact h.callback hrest _
    | post stage => cases hstep; exact h.callback hrest _
    | stopped => cases hstep; exact h.callback hrest _
    | send intent =>
      simp only at hstep
      split at hstep
      · cases hstep
        exact h.sends hop hrest
      · cases hstep
        exact hfailed
    | executeStartBox config =>
      cases hstep
      cases config with
      | some config => cases hop
      | none => exact h.queue rfl hrest
    | republish =>
      cases hstep
      exact h.callback (List.forall_mem_cons.mpr ⟨rfl, List.forall_mem_cons.mpr ⟨rfl, hrest⟩⟩) d.state
    | correctConnected =>
      simp only at hstep
      split at hstep
      · cases hstep
        exact hfailed
      · cases hstep
        exact h.callback (List.forall_mem_cons.mpr ⟨rfl, hrest⟩) d.state
    | correctConnecting =>
      simp only at hstep
      split at hstep
      · cases hstep
        exact hfailed
      · cases hstep
        exact h.callback hrest d.state
    | executeRelease =>
      cases hstep
      exact h.queue rfl hrest
    | shutdownWorker =>
      cases hstep
      exact ⟨h.intents, hrest, h.service, h.former⟩

/-- The step lemma: nothing but a start of the app leaves anything again. -/
theorem forgets_step {a : Action κ} (h : Forgets d) (ha : Handover d a) (hstep : d.step a = some d') : Forgets d' := by
  cases a with
  | start config => exact ha.elim
  | stop =>
    simp only [Device.step] at hstep
    split at hstep
    · cases hstep
      rw [Device.stop]
      split
      · exact h.callback (by simp [MainOp.bare, Intent.bare]) d.state
      · exact h.callback (by simp [MainOp.bare]) d.state
    · cases hstep
  | systemStart =>
    cases hstep
    exact h.sends rfl h.main
  | notificationStop =>
    cases hstep
    exact h.sends rfl h.main
  | onStartCommand =>
    simp only [Device.step] at hstep
    split at hstep
    · rename_i intent rest hmain hintents
      cases hstep
      obtain ⟨hfirst, hothers⟩ := List.forall_mem_cons.mp (hintents ▸ h.intents)
      have hrest : Forgets { d with intents := rest } := ⟨hothers, h.main, h.service, h.former⟩
      exact (hrest.onCreate ha).onStartCommand hfirst
    · cases hstep
  | onRevoke =>
    simp only [Device.step] at hstep
    split at hstep
    · cases hstep
      rw [Device.onRevoke]
      split
      · exact h.callback (by simp [MainOp.bare]) d.state
      · exact h.shutdown .failed false
    · cases hstep
  | onDestroy =>
    simp only [Device.step] at hstep
    split at hstep
    · cases hstep
      exact h.callback (by simp [MainOp.bare]) d.state
    · cases hstep
  | main luck => exact forgets_mainStep h hstep
  | worker luck =>
    obtain ⟨⟨s', state', file'⟩, hs, rfl⟩ := Option.map_eq_some_iff.mp hstep
    exact ⟨h.intents, h.main, le_bot_iff.mp ((Service.leaves_step hs).trans h.service.le), h.former⟩
  | former n luck =>
    obtain ⟨s, hs, hstep⟩ := Option.bind_eq_some_iff.mp hstep
    obtain ⟨⟨s', state', file'⟩, hs', rfl⟩ := Option.map_eq_some_iff.mp hstep
    obtain ⟨hgone, rfl⟩ := (h.former s (List.mem_of_getElem? hs)).step hs'
    refine ⟨h.intents, h.main, h.service, fun t ht => ?_⟩
    rcases List.mem_or_eq_of_mem_set ht with ht | rfl
    · exact h.former t ht
    · exact hgone

/-- What is on its way has nothing to do with `onCreate`. -/
theorem onCreate_intents (d : Device κ) (rest : List (Intent κ)) :
    Device.onCreate { d with intents := rest } = { d.onCreate with intents := rest } := by
  unfold Device.onCreate
  split <;> rfl

/-- The creation of an instance leaves the callback. -/
theorem onCreate_main (d : Device κ) : d.onCreate.main = d.main := by
  unfold Device.onCreate
  split <;> rfl

/-- The stop is handed to the service: nothing will be left. -/
theorem forgets_of_stop {rest : List (Intent κ)} (hintents : d.intents = .stop :: rest) (hrest : ∀ intent ∈ rest, intent.bare = true)
    (hformer : ∀ s ∈ d.onCreate.former, s.Gone) (hstep : d.step .onStartCommand = some d') : Forgets d' := by
  simp only [Device.step] at hstep
  split at hstep
  · rename_i intent rest' hmain hintents'
    cases hstep
    rw [hintents] at hintents'
    cases hintents'
    rw [onCreate_intents]
    refine ⟨hrest, ?_, d.onCreate.service.leaves_stop .disconnected _, hformer⟩
    change ∀ op ∈ d.onCreate.main, _
    rw [onCreate_main, hmain]
    exact List.forall_mem_nil _
  · cases hstep

end Steps

/-! ## Every run -/

/-- The service is through with a stop and destroyed, and then always-on starts it again, which fails. -/
def startsItself : List (Action Nat) :=
  goesDown.drop 3 ++ [.systemStart, .onStartCommand, .main {}, .main {}, .main {}, .worker {}, .worker {}, .worker {}, .worker {},
    .worker {}, .worker {}]

end Android

end Tunnel

end VpnStack

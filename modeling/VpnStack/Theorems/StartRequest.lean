import VpnStack.Theorems.Starts

/-!
# What is left of the start request

The service writes the start request when it is handed a configuration, and removes it in the task of a stop alone. A disconnect goes
by the next settled status, whoever it is from, and the plugin answers a stop by itself when no service runs; a `forgetProfile` stops
the tunnel only while it is shown as up or coming up. The file is gone behind them where they are made while no start is under way
and nothing else is about to say that the tunnel is down, and where they do not pass the service by while the file is there.
-/

namespace VpnStack

open Transition

namespace Tunnel

/-- A disconnect that is handed this completes normally. -/
def Stage.ends : Stage → Bool
  | .disconnected | .connected => true
  | _ => false

namespace Android

variable {κ : Type}

/-! ## What may still say that the tunnel is down -/

/-- The worker removes the file before it posts anything that a disconnect completes on. -/
def forgetsFirst : List (WorkerOp κ) → Bool
  | [] | .forgetStartRequest :: _ => true
  | .post stage :: rest => !stage.ends && forgetsFirst rest
  | _ :: rest => forgetsFirst rest

/-- The access posts something that a disconnect completes on, or may. -/
def MainOp.announces : MainOp κ → Bool
  | .post stage => stage.ends
  | .republish => true
  | _ => false

/-- Nothing on the device has a disconnect complete before a worker has removed the file. -/
structure Device.Reticent (n : Nat) (d : Device κ) : Prop where
  posted : ∀ stage ∈ d.state.posted.drop n, stage.ends = false
  main : ∀ op ∈ d.main, op.announces = false
  service : forgetsFirst d.service.work = true
  former : ∀ s ∈ d.former, forgetsFirst s.work = true

instance Device.Reticent.decidable (n : Nat) (d : Device κ) : Decidable (d.Reticent n) :=
  decidable_of_iff ((∀ stage ∈ d.state.posted.drop n, stage.ends = false) ∧ (∀ op ∈ d.main, op.announces = false) ∧
      forgetsFirst d.service.work = true ∧ ∀ s ∈ d.former, forgetsFirst s.work = true)
    ⟨fun ⟨h₁, h₂, h₃, h₄⟩ => ⟨h₁, h₂, h₃, h₄⟩, fun ⟨h₁, h₂, h₃, h₄⟩ => ⟨h₁, h₂, h₃, h₄⟩⟩

section Steps

variable {s s' : Service κ} {state state' : TunnelState} {file file' : Option κ} {d d' : Device κ} {n : Nat}

/-- A further task that removes the file first keeps the order. -/
theorem forgetsFirst_append {work task : List (WorkerOp κ)} (hwork : forgetsFirst work = true) (htask : forgetsFirst task = true) :
    forgetsFirst (work ++ task) = true := by
  induction work with
  | nil => exact htask
  | cons op work ih =>
    cases op with
    | forgetStartRequest => rfl
    | post stage =>
      rw [forgetsFirst, Bool.and_eq_true] at hwork
      rw [List.cons_append, forgetsFirst, hwork.1, ih hwork.2]
      rfl
    | _ => exact ih hwork

/-- The task of a stop removes the file first, and that of a failure posts nothing that a disconnect completes on. -/
theorem forgetsFirst_shutdownTask : forgetsFirst (shutdownTask .disconnected true : List (WorkerOp κ)) = true ∧
    forgetsFirst (shutdownTask .failed false : List (WorkerOp κ)) = true := ⟨rfl, rfl⟩

/-- What a worker says before it has removed the file: nothing that a disconnect completes on. -/
theorem Service.Access.reticent (h : Service.Access s state file s' state' file') (hstarts : ∀ op ∈ s.work, op.Start fun _ => False)
    (hs : forgetsFirst s.work = true) (hposted : ∀ stage ∈ state.posted.drop n, stage.ends = false) :
    file' = none ∨ forgetsFirst s'.work = true ∧ ∀ stage ∈ state'.posted.drop n, stage.ends = false := by
  -- no start is the next access
  have hnot : ∀ {op rest}, s.work = op :: rest → op.Start fun _ => False := fun hwork =>
    (List.forall_mem_cons.mp (hwork ▸ hstarts)).1
  cases h with
  | adopt config rest hwork file' hfile => exact (hnot hwork).elim
  | read config rest hwork hfile => exact (hnot hwork).elim
  | absent rest hwork => exact (hnot hwork).elim
  | up config rest hwork => exact (hnot hwork).elim
  | down config tun rest hwork => exact (hnot hwork).elim
  | forget rest hwork => exact .inl rfl
  | post stage rest hwork =>
    rw [hwork, forgetsFirst, Bool.and_eq_true] at hs
    refine .inr ⟨hs.2, fun other hmem => ?_⟩
    rw [List.drop_append] at hmem
    rcases List.mem_append.mp hmem with hmem | hmem
    · exact hposted other hmem
    · rw [List.mem_singleton.mp (List.mem_of_mem_drop hmem)]
      exact Bool.not_eq_true' _ ▸ hs.1
  | _ =>
    rename_i hwork
    rw [hwork] at hs
    exact .inr ⟨hs, hposted⟩

/-- An access of the main looper says nothing that it would not have said. -/
theorem Device.Access.reticent (h : Device.Access d d') (hstarts : d.Starts fun _ => False) (hd : d.Reticent n) : d'.Reticent n := by
  have hrest : ∀ {op rest}, d.main = op :: rest → op.announces = false ∧ ∀ op ∈ rest, op.announces = false := fun hmain =>
    List.forall_mem_cons.mp (hmain ▸ hd.main)
  cases h with
  | post stage rest hmain =>
    refine ⟨fun other hmem => ?_, (hrest hmain).2, hd.service, hd.former⟩
    rw [List.drop_append] at hmem
    rcases List.mem_append.mp hmem with hmem | hmem
    · exact hd.posted other hmem
    · rw [List.mem_singleton.mp (List.mem_of_mem_drop hmem)]
      exact (hrest hmain).1
  | failed op rest hmain hop =>
    exact ⟨hd.posted, List.forall_mem_cons.mpr ⟨rfl, List.forall_mem_cons.mpr ⟨rfl, (hrest hmain).2⟩⟩, hd.service, hd.former⟩
  | looksOn rest hmain => exact ⟨hd.posted, List.forall_mem_cons.mpr ⟨rfl, (hrest hmain).2⟩, hd.service, hd.former⟩
  | republish rest hmain => cases (hrest hmain).1
  | executeStartBox config rest hmain =>
    exact ((List.forall_mem_cons.mp (hmain ▸ hstarts.main)).1 : False).elim
  | executeRelease rest hmain => exact ⟨hd.posted, (hrest hmain).2, forgetsFirst_append hd.service rfl, hd.former⟩
  | _ => exact ⟨hd.posted, (hrest ‹_›).2, hd.service, hd.former⟩

/-- A new instance says nothing. -/
theorem Device.Reticent.onCreate (h : d.Reticent n) : d.onCreate.Reticent n := by
  unfold Device.onCreate
  split
  · exact ⟨h.posted, h.main, rfl, List.forall_mem_append.mpr ⟨h.former, List.forall_mem_singleton.mpr h.service⟩⟩
  · exact h

/-- One more status has arrived. -/
theorem Device.Reticent.next (h : d.Reticent n) : d.Reticent (n + 1) where
  posted stage hmem := h.posted stage (by
    rw [← List.drop_drop] at hmem
    exact List.mem_of_mem_drop hmem)
  main := h.main
  service := h.service
  former := h.former

/-- A callback that says nothing begins. -/
theorem Device.Reticent.callback (h : d.Reticent n) {main : List (MainOp κ)} (hmain : ∀ op ∈ main, op.announces = false) :
    Device.Reticent n { d with main } := ⟨h.posted, hmain, h.service, h.former⟩

/-- The step lemma of the device: while no start comes and the plugin does not answer a stop by itself, nothing has a disconnect
complete before the file is gone. -/
theorem reticent_step {a : Action κ} (hstarts : d.Starts fun _ => False) (h : d.Reticent n)
    (hplugin : ∀ config, a ≠ .start config) (hstop : a = .stop → d.state.serviceRunning = true) (hstep : d.step a = some d') :
    d'.startRequest = none ∨ d'.Reticent n := by
  cases Device.move_of_step hstep with
  | start config => exact absurd rfl (hplugin config)
  | stop hrunning => exact .inr (h.callback (by simp [MainOp.announces]))
  | nothingToStop hrunning => exact absurd (hrunning.symm.trans (hstop rfl)) Bool.false_ne_true
  | systemStart => exact .inr ⟨h.posted, h.main, h.service, h.former⟩
  | notificationStop => exact .inr ⟨h.posted, h.main, h.service, h.former⟩
  | onStartCommand intent rest hintents =>
    have hcreated : ({ d with intents := rest }.onCreate).Reticent n := Device.Reticent.onCreate ⟨h.posted, h.main, h.service, h.former⟩
    cases intent with
    | start config => exact (hstarts.intents (.start config) (hintents ▸ List.mem_cons_self ..) : False).elim
    | stop =>
      exact .inr ⟨hcreated.posted, hcreated.main, forgetsFirst_append hcreated.service forgetsFirst_shutdownTask.1, hcreated.former⟩
  | onRevoke => exact .inr ⟨h.posted, h.main, forgetsFirst_append h.service forgetsFirst_shutdownTask.2, h.former⟩
  | onRevokeClosed => exact .inr (h.callback (by simp [MainOp.announces, Stage.ends]))
  | onDestroy => exact .inr (h.callback (by simp [MainOp.announces]))
  | main luck d' haccess => exact .inr (haccess.reticent hstarts h)
  | worker luck s' state' file' haccess =>
    exact (haccess.reticent hstarts.service h.service h.posted).imp_right fun hw => ⟨hw.2, h.main, hw.1, h.former⟩
  | former m luck s s' state' file' hs haccess =>
    refine (haccess.reticent (hstarts.former s hs) (h.former s hs) h.posted).imp_right fun hw => ?_
    exact ⟨hw.2, h.main, h.service, forall_mem_former_set h.former hw.1 m⟩

end Steps

end Android

open Android

/-! ## The two sides -/

section System

variable {ι π κ : Type}

/-- The command to stop. -/
def Command.isStop : Command π κ → Bool
  | .stop => true
  | _ => false

/-- The call is a stop that waits, or is to remove a profile. -/
def Phase.isForgetting : Phase π κ → Bool
  | stopping _ | disconnecting _ | removing .. => true
  | _ => false

/-- A stop that waits is one of them. -/
theorem Phase.isForgetting_of_isStop {phase : Phase π κ} (h : phase.isStop = true) : phase.isForgetting = true := by
  cases phase <;> first | rfl | nomatch h

/-- The profile the call is to remove with nothing to complain about so far. -/
def Phase.removes : Phase π κ → Option π
  | removing id none | removing id (some true) => some id
  | _ => none

/-- A call that is to remove a profile is one of them. -/
theorem Phase.isForgetting_of_removes {phase : Phase π κ} {p : π} (h : p ∈ phase.removes) : phase.isForgetting = true := by
  cases phase with
  | removing id stop => rfl
  | _ => cases h

/-- The profile the call has removed with nothing to complain about. -/
def Phase.removed : Phase π κ → Option π
  | forgotten id false => some id
  | _ => none

/-- The call is a disconnect that completed normally. -/
def Phase.isStopped : Phase π κ → Bool
  | stopped => true
  | _ => false

namespace System

/-- A disconnect or a `forgetProfile` is under way. -/
def Forgetting (s : System ι π κ) : Prop := ∃ i, (s.app.phases i).isForgetting = true

/-- No configuration is on its way to the engine. -/
def Still (s : System ι π κ) : Prop := s.Starts fun _ => False

/-- The start request holds no configuration of this profile. -/
def Spares (s : System ι π κ) (p : π) : Prop := ∀ config ∈ s.device.startRequest, config.owner ≠ p

/-- No start is under way, and nothing has a disconnect complete before the file is gone. -/
structure Clean (s : System ι π κ) : Prop where
  still : s.Still
  reticent : s.device.startRequest = none ∨ s.device.Reticent s.heard

/-- What the app may do, and Android. A connect that goes ahead is not made while a disconnect or a `forgetProfile` is under way. A
disconnect, or a `forgetProfile` that stops the tunnel, is made where all is clean, and one that passes the service by where there is
nothing to remove; so is a stop that the plugin answers by itself while a disconnect waits, and a start that Android makes. -/
def Discreet [DecidableEq π] (s : System ι π κ) : Event ι π κ → Prop
  | .app (.connect _ profile) => profile.isConnectable = true → ¬ s.Forgetting
  | .app (.disconnect _) => if s.app.status.stage = .disconnected then s.device.startRequest = none else s.Clean
  | .app (.forgetProfile _ id) =>
    if s.app.status.profileId.isSome ∧ s.app.status.profileId ≠ some id then s.Spares id
    else if s.app.status.isUp ∨ s.app.status.isBusy then s.Clean
    else s.Spares id ∧ s.Still
  | .command _ => s.commands.head?.any (·.2.isStop) = true → s.Forgetting →
      s.device.state.serviceRunning = true ∨ s.device.startRequest = none
  | .device .systemStart => s.Forgetting → s.device.startRequest = none
  | _ => True

/-- What a call that completes in the step leaves: a `forgetProfile` that completes with null leaves no configuration of its profile in
the start request, and a disconnect that completes normally leaves none at all. -/
def Leaves (s s' : System ι π κ) : Prop := ∀ i, s'.app.phases i ≠ s.app.phases i →
  (∀ p, s'.app.phases i = .forgotten p false → s'.Spares p) ∧ (s'.app.phases i = .stopped → s'.device.startRequest = none)

/-- While a disconnect or a `forgetProfile` is under way no start is, nothing has a disconnect complete before the file is gone, and what
has passed the service by has nothing to remove. -/
structure Forgets (s : System ι π κ) : Prop where
  apart : ∀ i, s.app.Apart i
  still : s.Forgetting → s.Still
  reticent : ∀ i, (s.app.phases i).isStop = true → s.device.startRequest = none ∨ s.device.Reticent s.heard
  told : ∀ i, (s.app.phases i).isStop = true → ∀ stage, s.app.settled i = some stage → stage ≠ .failed → s.device.startRequest = none
  spares : ∀ i, ∀ p ∈ (s.app.phases i).removes, s.Spares p

section Steps

variable [DecidableEq ι] [DecidableEq π] {s s' : System ι π κ} {input : Input ι π κ}

omit [DecidableEq ι] [DecidableEq π] in
/-- Where there is no file, there is nothing of a profile in it. -/
theorem spares_of_none (h : s.device.startRequest = none) (p : π) : s.Spares p := by
  intro config hmem
  rw [h] at hmem
  cases hmem

omit [DecidableEq ι] [DecidableEq π] in
/-- There is nothing to say about no profile. -/
theorem spares_of_removes {removes : Option π} (h : removes = none) : ∀ p ∈ removes, s.Spares p := by
  rintro p rfl
  cases h

/-- A call goes on. It stops, or forgets, where it did before or where all is clean for it, and what it completes leaves nothing. -/
theorem Forgets.goto (h : s.Forgets) {n : Controller.Next ι π κ} {i : ι} {phase : Phase π κ} (hn : s.app.next input = some n)
    (hphases : n.1.phases = Function.update s.app.phases i phase) (hsettled : n.1.settled = s.app.settled)
    (hstill : s.Forgetting ∨ phase.isForgetting = true →
      Still ({ s with app := n.1, commands := s.commands ++ n.2.toList } : System ι π κ))
    (hstop : phase.isStop = false ∨ (s.app.phases i).isStop = true ∨
      (s.device.startRequest = none ∨ s.device.Reticent s.heard) ∧ s.app.settled i = none)
    (hremoves : ∀ p ∈ phase.removes, s.Spares p) (hremoved : ∀ p ∈ phase.removed, s.Spares p)
    (hstopped : phase.isStopped = false ∨ s.device.startRequest = none) :
    Forgets ({ s with app := n.1, commands := s.commands ++ n.2.toList } : System ι π κ) ∧
      s.Leaves ({ s with app := n.1, commands := s.commands ++ n.2.toList } : System ι π κ) := by
  have hself : n.1.phases i = phase := by rw [hphases, Function.update_self]
  have hother : ∀ {j}, j ≠ i → n.1.phases j = s.app.phases j := fun hj => by rw [hphases, Function.update_of_ne hj]
  have hwaits : phase.isStop = true → (s.app.phases i).isStop = true ∨
      (s.device.startRequest = none ∨ s.device.Reticent s.heard) ∧ s.app.settled i = none := fun hp =>
    hstop.resolve_left fun hnot => Bool.false_ne_true (hnot.symm.trans hp)
  refine ⟨⟨fun j => Controller.apart_step (h.apart j) (by rw [Controller.step, hn]; rfl), ?_, fun j hj => ?_, fun j hj stage hstage => ?_,
    fun j p hp => ?_⟩, fun j hj => ?_⟩
  · rintro ⟨j, hj⟩
    by_cases hji : j = i
    · exact hstill (.inr (hself ▸ hji ▸ hj))
    · exact hstill (.inl ⟨j, by rwa [← hother hji]⟩)
  · by_cases hji : j = i
    · exact (hwaits (hself ▸ hji ▸ hj)).elim (h.reticent i) And.left
    · exact h.reticent j (by rwa [← hother hji])
  · change n.1.settled j = some stage at hstage
    rw [hsettled] at hstage
    by_cases hji : j = i
    · subst hji
      rcases hwaits (hself ▸ hj) with hbefore | ⟨-, hnone⟩
      · exact h.told j hbefore stage hstage
      · rw [hnone] at hstage
        cases hstage
    · exact h.told j (by rwa [← hother hji]) stage hstage
  · by_cases hji : j = i
    · exact hremoves p (hself ▸ hji ▸ hp)
    · exact h.spares j p (hother hji ▸ hp)
  · by_cases hji : j = i
    · subst hji
      refine ⟨fun p hp => hremoved p ?_, fun hp => hstopped.resolve_left fun hnot => ?_⟩
      · rw [hself.symm.trans hp]
        rfl
      · rw [hself.symm.trans hp] at hnot
        exact Bool.false_ne_true hnot.symm
    · exact absurd (hother hji) hj

/-- The controller goes on. -/
theorem Forgets.goOn (h : s.Forgets) (hstep : s.goOn input = some s') (hc : s.Discreet (.app input))
    (hstatus : ∀ stage, input = .status stage → s.device.startRequest = none ∨ stage.ends = false ∨
      ∀ i, (s.app.phases i).isStop = false) : s'.Forgets ∧ s.Leaves s' := by
  obtain ⟨n, hn, rfl⟩ := Option.map_eq_some_iff.mp hstep
  -- a step that is no connect puts nothing on its way
  have hgo : input.connects = false → s.Still →
      Still ({ s with app := n.1, commands := s.commands ++ n.2.toList } : System ι π κ) := fun hnot hs =>
    hs.goOn hstep fun i profile hi hconnectable _ => not_connects hnot hi hconnectable
  have hkeeps : ∀ {phase : Phase π κ}, phase.isForgetting = false → (s.Forgetting → input.connects = false) →
      s.Forgetting ∨ phase.isForgetting = true →
      Still ({ s with app := n.1, commands := s.commands ++ n.2.toList } : System ι π κ) := by
    rintro phase hphase hnot (hf | hf)
    · exact hgo (hnot hf) (h.still hf)
    · exact absurd (hphase.symm.trans hf) Bool.false_ne_true
  -- a call that is no disconnect or `forgetProfile`, or is over with something to complain about
  have hover : ∀ {i : ι} {phase : Phase π κ}, n.1.phases = Function.update s.app.phases i phase → n.1.settled = s.app.settled →
      phase.isForgetting = false → phase.removed = none → phase.isStopped = false → (s.Forgetting → input.connects = false) →
      Forgets ({ s with app := n.1, commands := s.commands ++ n.2.toList } : System ι π κ) ∧
        s.Leaves ({ s with app := n.1, commands := s.commands ++ n.2.toList } : System ι π κ) := by
    intro i phase hphases hsettled hphase hremoved hstopped hnot
    refine h.goto hn hphases hsettled (hkeeps hphase hnot) (.inl ?_) (fun p hp => ?_) (spares_of_removes hremoved) (.inl hstopped)
    · exact Bool.eq_false_iff.mpr fun hstop => Bool.false_ne_true (hphase.symm.trans (Phase.isForgetting_of_isStop hstop))
    · exact absurd (hphase.symm.trans (Phase.isForgetting_of_removes hp)) Bool.false_ne_true
  -- a stop is sent where all is clean
  have hstops : ∀ {i : ι} {forgets : Option π}, (s.app.phases i).isIdle = true → s.Clean → n = s.app.stop i forgets →
      input.connects = false →
      Forgets ({ s with app := n.1, commands := s.commands ++ n.2.toList } : System ι π κ) ∧
        s.Leaves ({ s with app := n.1, commands := s.commands ++ n.2.toList } : System ι π κ) := by
    rintro i forgets hidle hclean rfl hnot
    refine h.goto hn rfl rfl (fun _ => hgo hnot hclean.still) (.inr (.inr ⟨hclean.reticent, ?_⟩)) (spares_of_removes rfl)
      (spares_of_removes rfl) (.inl rfl)
    exact ((h.apart i).fresh (Phase.isFresh_of_isIdle hidle)).1
  -- what follows on a stop that is over
  have hafter : ∀ {i : ι} {p : π} {stop : Bool}, (s.app.phases i).isStop = true →
      n.1.phases = Function.update s.app.phases i (.removing p (some stop)) → n.1.settled = s.app.settled → input.connects = false →
      (stop = false ∨ s.device.startRequest = none) →
      Forgets ({ s with app := n.1, commands := s.commands ++ n.2.toList } : System ι π κ) ∧
        s.Leaves ({ s with app := n.1, commands := s.commands ++ n.2.toList } : System ι π κ) := by
    intro i p stop hstop hphases hsettled hnot hfile
    refine h.goto hn hphases hsettled (fun _ => hgo hnot (h.still ⟨i, Phase.isForgetting_of_isStop hstop⟩)) (.inl rfl) ?_
      (spares_of_removes rfl) (.inl rfl)
    rcases hfile with rfl | hfile
    · exact spares_of_removes rfl
    · exact fun q _ => spares_of_none hfile q
  cases Controller.move_of_next hn with
  | refuse i profile hi hrefused => exact hover rfl rfl rfl rfl rfl fun _ => hrefused
  | unbuilt i profile hi => exact hover rfl rfl rfl rfl rfl fun hf => Bool.eq_false_iff.mpr fun hgoes => hc hgoes hf
  | prepare i profile text hi hb => exact hover rfl rfl rfl rfl rfl fun hf => Bool.eq_false_iff.mpr fun hgoes => hc hgoes hf
  | idle i hi hs =>
    rw [Discreet, if_pos hs] at hc
    exact h.goto hn rfl rfl (hkeeps rfl fun _ => rfl) (.inl rfl) (spares_of_removes rfl) (spares_of_removes rfl) (.inr hc)
  | stop i hi hs =>
    rw [Discreet, if_neg hs] at hc
    exact hstops hi hc rfl rfl
  | foreign i id hi hs hne =>
    rw [Discreet, if_pos ⟨hs, hne⟩] at hc
    refine h.goto hn rfl rfl (hkeeps rfl fun _ => rfl) (.inl rfl) (spares_of_removes rfl) (fun p hp => ?_) (.inl rfl)
    rw [← Option.some_inj.mp hp]
    exact hc
  | stopFirst i id hi hs hid =>
    have hown : ¬ (s.app.status.profileId.isSome ∧ s.app.status.profileId ≠ some id) := by
      rintro ⟨hsome, hne⟩
      obtain ⟨q, hq⟩ := Option.isSome_iff_exists.mp hsome
      exact hne (by rw [hq, hid q hq])
    rw [Discreet, if_neg hown, if_pos hs] at hc
    exact hstops hi hc rfl rfl
  | remove i id hi hs =>
    have hown : ¬ (s.app.status.profileId.isSome ∧ s.app.status.profileId ≠ some id) := by
      intro hforeign
      rw [Controller.next, if_pos hi, Controller.forgetProfile, if_pos hforeign] at hn
      cases congrArg Prod.snd (Option.some_inj.mp hn)
    rw [Discreet, if_neg hown, if_neg hs] at hc
    refine h.goto hn rfl rfl (fun _ => hgo rfl hc.2) (.inl rfl) (fun p hp => ?_) (spares_of_removes rfl) (.inl rfl)
    rw [← Option.some_inj.mp hp]
    exact hc.1
  | status stage =>
    have hphases : (s.app.onPlatformStatus stage).phases = s.app.phases := Controller.phases_onPlatformStatus s.app stage
    refine ⟨⟨fun i => Controller.apart_step (h.apart i) (by rw [Controller.step, hn]; rfl), ?_, fun i hi => ?_, fun i hi told htold hne => ?_,
      fun i p hp => ?_⟩, fun i hi => absurd (congrFun hphases i) hi⟩
    · rintro ⟨i, hi⟩
      exact hgo rfl (h.still ⟨i, congrFun hphases i ▸ hi⟩)
    · exact h.reticent i (congrFun hphases i ▸ hi)
    · have hstop : (s.app.phases i).isStop = true := congrFun hphases i ▸ hi
      change (s.app.onPlatformStatus stage).settled i = some told at htold
      by_cases hstage : stage = .connecting
      · rw [Controller.onPlatformStatus, if_pos hstage] at htold
        exact h.told i hstop told htold hne
      · rw [Controller.settled_onPlatformStatus s.app hstage] at htold
        split at htold
        · -- it is handed the status itself
          cases htold
          rcases hstatus stage rfl with hfile | hends | hnone
          · exact hfile
          · cases stage with
            | disconnected => cases hends
            | connecting => exact absurd rfl hstage
            | connected => cases hends
            | failed => exact absurd rfl hne
          · exact absurd ((hnone i).symm.trans hstop) Bool.false_ne_true
        · exact h.told i hstop told htold hne
    · exact h.spares i p (congrFun hphases i ▸ hp)
  | stopping i b forgets hp =>
    exact h.goto hn rfl rfl (fun _ => hgo rfl (h.still ⟨i, by rw [hp]; rfl⟩)) (.inr (.inl (by rw [hp]; rfl))) (spares_of_removes rfl)
      (spares_of_removes rfl) (.inl rfl)
  | unstoppable i r forgets hp =>
    cases forgets with
    | none => exact hover rfl rfl rfl rfl rfl fun _ => rfl
    | some p => exact hafter (by rw [hp]; rfl) rfl rfl rfl (.inl rfl)
  | removed i r id stop complaint hp hcomplaint =>
    refine h.goto hn rfl rfl (hkeeps rfl fun _ => rfl) (.inl rfl) (spares_of_removes rfl) (fun p hp' => h.spares i p ?_) (.inl rfl)
    rw [hp]
    cases complaint with
    | true => cases hp'
    | false =>
      rcases stop with _ | _ | _
      · exact hp'
      · cases hcomplaint rfl
      · exact hp'
  | up i id stage hp hs =>
    have hphase : ∀ phase : Phase π κ, (if stage = .connected then .connected else .threw) = phase →
        phase = .connected ∨ phase = .threw := by
      rintro phase rfl
      split
      · exact .inl rfl
      · exact .inr rfl
    rcases hphase _ rfl with hup | hthrew
    · exact hover (congrArg (Function.update s.app.phases i) hup) rfl rfl rfl rfl fun _ => rfl
    · exact hover (congrArg (Function.update s.app.phases i) hthrew) rfl rfl rfl rfl fun _ => rfl
  | down i forgets stage hp hs hf =>
    have hstop : (s.app.phases i).isStop = true := by rw [hp]; rfl
    have hfile := h.told i hstop stage hs hf
    cases forgets with
    | none => exact h.goto hn rfl rfl (hkeeps rfl fun _ => rfl) (.inl rfl) (spares_of_removes rfl) (spares_of_removes rfl) (.inr hfile)
    | some p => exact hafter hstop rfl rfl rfl (.inr hfile)
  | failed i forgets hp hs =>
    cases forgets with
    | none => exact hover rfl rfl rfl rfl rfl fun _ => rfl
    | some p => exact hafter (by rw [hp]; rfl) rfl rfl rfl (.inl rfl)
  | downLate i forgets hp =>
    cases forgets with
    | none => exact hover rfl rfl rfl rfl rfl fun _ => rfl
    | some p => exact hafter (by rw [hp]; rfl) rfl rfl rfl (.inl rfl)
  | _ => exact hover rfl rfl rfl rfl rfl fun _ => rfl

omit [DecidableEq ι] [DecidableEq π] in
/-- Where a file is there and nothing is on its way to the engine, no start is under way on the device. -/
theorem starts_of_still (h : s.Still) {config : Config π κ} (hfile : s.device.startRequest = some config) :
    s.device.Starts fun _ => False := by
  refine h.device.mono fun start hstart => ?_
  cases start with
  | some other => exact hstart other rfl
  | none => exact hstart config hfile

omit [DecidableEq ι] [DecidableEq π] in
/-- The device goes on. -/
theorem Forgets.device_step {a : Action (Config π κ)} {d : Device (Config π κ)} (h : s.Forgets) (hstep : s.device.step a = some d)
    (hplugin : s.Still → ∀ config, a ≠ .start config)
    (hstop : a = .stop → s.Forgetting → s.device.state.serviceRunning = true ∨ s.device.startRequest = none)
    (hsystem : a = .systemStart → s.Forgetting → s.device.startRequest = none)
    (commands : List (ι × Command π κ)) (hcommands : ∀ c ∈ commands, c ∈ s.commands) (answer : Option (ι × Reply)) :
    Forgets { s with commands, device := d, answer } ∧ s.Leaves { s with commands, device := d, answer } := by
  refine ⟨?_, fun i hi => absurd rfl hi⟩
  by_cases hf : s.Forgetting
  · have hstill := h.still hf
    obtain ⟨hstarts, hfile, -⟩ := hstill.device_step hstep (fun config ha => hplugin hstill config ha) fun ha config hmem => by
      rw [hsystem ha hf] at hmem
      cases hmem
    -- the file is what it was, or is gone
    have hnone : s.device.startRequest = none → d.startRequest = none := by
      intro hbefore
      rcases hfile with hsame | hgone
      · rw [hsame, hbefore]
      · exact Option.eq_none_iff_forall_not_mem.mpr hgone
    refine ⟨h.apart, fun _ => ⟨hstill.calls, fun c hmem => hstill.commands c (hcommands c hmem), hstarts⟩, fun i hi => ?_,
      fun i hi stage hstage hne => hnone (h.told i hi stage hstage hne), fun i p hp config hmem => ?_⟩
    · rcases h.reticent i hi with hbefore | hreticent
      · exact .inl (hnone hbefore)
      · cases hbefore : s.device.startRequest with
        | none => exact .inl (hnone hbefore)
        | some config =>
          refine reticent_step (starts_of_still hstill hbefore) hreticent (hplugin hstill) (fun ha => ?_) hstep
          exact (hstop ha hf).resolve_right fun hgone => by rw [hbefore] at hgone; nomatch hgone
    · rcases hfile with hsame | hgone
      · exact h.spares i p hp config (hsame ▸ hmem)
      · exact (hgone config hmem).elim
  · -- nobody waits, and nobody is to forget anything
    have hnot : ∀ i, (s.app.phases i).isForgetting = true → False := fun i hi => hf ⟨i, hi⟩
    refine ⟨h.apart, fun hf' => absurd hf' hf, fun i hi => (hnot i (Phase.isForgetting_of_isStop hi)).elim,
      fun i hi => (hnot i (Phase.isForgetting_of_isStop hi)).elim, fun i p hp => (hnot i (Phase.isForgetting_of_removes hp)).elim⟩

/-- The step lemma of the two sides: the invariant is kept, and what completes in the step leaves nothing. -/
theorem forgets_step {e : Event ι π κ} (h : s.Forgets) (hc : s.Discreet e) (hstep : s.step e = some s') : s'.Forgets ∧ s.Leaves s' := by
  have hstill : ∀ {s₁ : System ι π κ}, s₁.app = s.app → s₁.device = s.device → (∀ c ∈ s₁.commands, c ∈ s.commands) → s.Still → s₁.Still :=
    fun happ hdevice hcommands hs => ⟨happ ▸ hs.calls, fun c hmem => hs.commands c (hcommands c hmem), hdevice ▸ hs.device⟩
  -- an answer and a status on their way change nothing of it
  have hpass : ∀ {s₁ : System ι π κ}, s₁.app = s.app → s₁.device = s.device → (∀ c ∈ s₁.commands, c ∈ s.commands) →
      (s₁.heard = s.heard ∨ s₁.heard = s.heard + 1) → s₁.Forgets := by
    intro s₁ happ hdevice hcommands hheard
    refine ⟨happ ▸ h.apart, fun hf => hstill happ hdevice hcommands (h.still (by rwa [Forgetting, happ] at hf)), ?_, ?_, ?_⟩
    · intro i hi
      rw [hdevice]
      refine (h.reticent i (happ ▸ hi)).imp_right fun hr => ?_
      rcases hheard with hheard | hheard
      · rw [hheard]
        exact hr
      · rw [hheard]
        exact hr.next
    · rw [hdevice, happ]
      exact h.told
    · intro i p hp
      rw [Spares, hdevice]
      exact h.spares i p (happ ▸ hp)
  have hleaves : ∀ {s₁ s₂ : System ι π κ}, s₁.app = s.app → s₁.Leaves s₂ → s.Leaves s₂ := fun happ hl i hi => hl i (happ ▸ hi)
  cases move_of_step hstep with
  | app input s' hinput hgo =>
    refine h.goOn hgo hc ?_
    rintro stage rfl
    cases hinput
  | status stage s' hposted hgo =>
    have hnext : Forgets { s with heard := s.heard + 1 } := hpass rfl rfl (fun _ hmem => hmem) (.inr rfl)
    refine (hnext.goOn hgo trivial fun told htold => ?_).imp_right (hleaves rfl)
    cases htold
    by_cases hstop : ∃ i, (s.app.phases i).isStop = true
    · obtain ⟨i, hi⟩ := hstop
      exact (h.reticent i hi).imp_right fun hr => .inl (hr.posted stage (mem_drop_of_getElem? hposted))
    · exact .inr (.inr fun i => Bool.eq_false_iff.mpr fun hi => hstop ⟨i, hi⟩)
  | reply n i r s' hgo =>
    have hnext : Forgets { s with replies := s.replies.eraseIdx n } := hpass rfl rfl (fun _ hmem => hmem) (.inl rfl)
    exact (hnext.goOn hgo trivial nofun).imp_right (hleaves rfl)
  | answered r i c rest hcommands =>
    exact ⟨hpass rfl rfl (fun c hmem => hcommands ▸ List.mem_cons_of_mem _ hmem) (.inl rfl), fun i hi => absurd rfl hi⟩
  | start i config rest d hcommands hdevice =>
    refine h.device_step hdevice (fun hs => ?_) nofun nofun rest (fun c hmem => hcommands ▸ List.mem_cons_of_mem _ hmem) _
    exact (hs.commands (i, .start config) (hcommands ▸ List.mem_cons_self ..) config rfl : False).elim
  | stop i rest d hcommands hdevice =>
    refine h.device_step hdevice nofun (fun _ hf => ?_) nofun rest (fun c hmem => hcommands ▸ List.mem_cons_of_mem _ hmem) _
    exact hc (by rw [hcommands]; rfl) hf
  | answer x => exact ⟨hpass rfl rfl (fun _ hmem => hmem) (.inl rfl), fun i hi => absurd rfl hi⟩
  | device a d answer ha hdevice =>
    refine h.device_step hdevice (fun _ config hstart => ?_) (fun hstop _ => ?_) (fun hsystem hf => ?_) s.commands (fun _ hmem => hmem) _
    · subst hstart
      cases ha
    · subst hstop
      cases ha
    · subst hsystem
      exact hc hf

omit [DecidableEq ι] [DecidableEq π] in
/-- At first nobody waits. -/
theorem forgets_init : Forgets ({} : System ι π κ) where
  apart _ := Controller.apart_init
  still := by
    rintro ⟨i, hi⟩
    cases hi
  reticent := nofun
  told := nofun
  spares := nofun

/-- In every run whose steps are discreet, a `forgetProfile` that completes with null leaves no configuration of its profile in the start
request, and a disconnect that completes normally leaves none. -/
theorem leaves_of_discreet (es : List (Event ι π κ)) {e : Event ι π κ} (h : Along step Discreet {} (es ++ [e]))
    (hrun : run step {} es = some s) (hstep : s.step e = some s') : s.Leaves s' := by
  have hforgets : s.Forgets := run_invariant (fun _ _ _ hi hc hs => (forgets_step hi hc hs).1) forgets_init h.of_append hrun
  exact (forgets_step hforgets (h.behind hrun).1 hstep).2

end Steps

/-! ## What the condition decides on a run -/

section Decide

variable [Fintype ι] [DecidableEq π]

instance Forgetting.decidable (s : System ι π κ) : Decidable s.Forgetting :=
  inferInstanceAs (Decidable (∃ i, (s.app.phases i).isForgetting = true))

instance Still.decidable (s : System ι π κ) : Decidable s.Still := inferInstanceAs (Decidable (s.Starts fun _ => False))

instance Spares.decidable (s : System ι π κ) (p : π) : Decidable (s.Spares p) :=
  inferInstanceAs (Decidable (∀ config ∈ s.device.startRequest, config.owner ≠ p))

instance Clean.decidable (s : System ι π κ) : Decidable s.Clean :=
  decidable_of_iff (s.Still ∧ (s.device.startRequest.isNone = true ∨ s.device.Reticent s.heard)) (by
    rw [Option.isNone_iff_eq_none]
    exact ⟨fun h => ⟨h.1, h.2⟩, fun h => ⟨h.still, h.reticent⟩⟩)

instance Discreet.decidable (s : System ι π κ) : (e : Event ι π κ) → Decidable (s.Discreet e)
  | .app (.connect _ profile) => inferInstanceAs (Decidable (profile.isConnectable = true → ¬ s.Forgetting))
  | .app (.disconnect _) =>
    decidable_of_iff (if s.app.status.stage = .disconnected then s.device.startRequest.isNone = true else s.Clean) (by
      rw [Option.isNone_iff_eq_none]
      exact Iff.rfl)
  | .app (.forgetProfile _ id) =>
    inferInstanceAs (Decidable (if s.app.status.profileId.isSome ∧ s.app.status.profileId ≠ some id then s.Spares id
      else if s.app.status.isUp ∨ s.app.status.isBusy then s.Clean else s.Spares id ∧ s.Still))
  | .command _ =>
    decidable_of_iff (s.commands.head?.any (·.2.isStop) = true → s.Forgetting →
        s.device.state.serviceRunning = true ∨ s.device.startRequest.isNone = true) (by
      rw [Option.isNone_iff_eq_none]
      exact Iff.rfl)
  | .device .systemStart => decidable_of_iff (s.Forgetting → s.device.startRequest.isNone = true) (by
      rw [Option.isNone_iff_eq_none]
      exact Iff.rfl)
  | .app (.reply ..) | .app (.status _) | .app (.resume _) | .app (.timeout _) | .status | .reply _ | .answer
  | .device (.start _) | .device .stop | .device .notificationStop | .device .onStartCommand | .device .onRevoke
  | .device .onDestroy | .device (.main _) | .device (.worker _) | .device (.former ..) => inferInstanceAs (Decidable True)

end Decide

/-- The engine does not start, and the service is shut down. -/
def fails : List (Event Bool Nat Nat) :=
  [.device (.worker { ok := false }), .device (.worker {}), .device (.worker {}), .device (.worker {}), .device (.worker {})]

/-- A `forgetProfile` that stops the tunnel, up to the reply to `removeProfile`. -/
def stopsFirst (i : Bool) (p : Nat) : List (Event Bool Nat Nat) :=
  [.app (.forgetProfile i p), .command (.value true), .device (.main {}), .answer, .reply 0, .device .onStartCommand,
    .device (.worker {}), .device (.worker {}), .device (.worker {}), .device (.worker {}), .device (.worker {}), .status,
    .app (.resume i), .command .missing]

/-- A tunnel that is up is forgotten, and nothing is left of it. -/
theorem leaves_of_discreet_stop : ∃ s s' : System Bool Nat Nat,
    run step {} (persists false ⟨0, true, some 7⟩ ++ launches ++ arrives ++ stopsFirst true 0) = some s ∧
      s.step (.reply 0) = some s' ∧ s'.app.phases true = .forgotten 0 false ∧ s'.Spares 0 := by
  have hdiscreet : Along step Discreet ({} : System Bool Nat Nat)
      (persists false ⟨0, true, some 7⟩ ++ launches ++ arrives ++ stopsFirst true 0 ++ [.reply 0]) := by decide
  refine ⟨_, _, rfl, rfl, rfl, ?_⟩
  exact (leaves_of_discreet (persists false ⟨0, true, some 7⟩ ++ launches ++ arrives ++ stopsFirst true 0) hdiscreet rfl rfl true
    (by decide)).1 0 rfl

/-- The start of a tunnel fails; it is forgotten with nothing to complain about, and its configuration is still in the file. -/
theorem leaves_failed : ¬ ∀ (es : List (Event Bool Nat Nat)) (e : Event Bool Nat Nat) (s s' : System Bool Nat Nat),
    run step {} es = some s → s.step e = some s' → s.Leaves s' := by
  intro h
  have hspares := (h (persists false ⟨0, true, some 7⟩ ++ fails ++ arrives ++ [.app (.forgetProfile true 0), .command .missing]) (.reply 0)
    _ _ rfl rfl true (by decide)).1 0 rfl
  exact absurd hspares (by decide)

end System

end System

end Tunnel

end VpnStack

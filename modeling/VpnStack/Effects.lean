import VpnStack.Commands

/-!
# What each part of a command touches

Every call belongs to a part of the server: the users file, the state file, the rendered trees, the link, the containers and
so on, or to none when it only reads. A part of a command can then be passed by in a proof about anything it does not touch.
-/

namespace VpnStack

open Python Interaction

inductive Part where
  | nothing
  | users
  | state
  | keyring
  | trees
  | link
  | promoted
  | docker
  | certs
  | plans
  | notes
  deriving DecidableEq

/-- What a call changes. -/
@[simp] def Op.part : Op → Part
  | .saveUsers _ => .users
  | .saveState _ => .state
  | .writeSecret _ _ => .keyring
  | .mkdtemp _ => .trees
  | .writeFile _ _ _ => .trees
  | .rmtreeIgnoringErrors _ => .trees
  | .rmtree _ => .trees
  | .symlinkTmp _ => .link
  | .replaceLink => .link
  | .setPromoted _ => .promoted
  | .composeUp _ => .docker
  | .composeForceRecreate _ => .docker
  | .composeRestart _ => .docker
  | .composeRm _ => .docker
  | .addClient _ => .certs
  | .revokeClient _ => .certs
  | .deleteClient _ => .certs
  | .notePlan _ => .plans
  | .noteReconcile _ => .notes
  | _ => .nothing

section Frame

variable {host : Host} {o : Op} {c : Choice} {w : World}

/-- A call that is of no part changes nothing. -/
theorem exec_nothing (h : o.part = .nothing) : (exec host o c w).2 = w := by
  cases o <;> first | rfl | nomatch h

/-- What a call of a part leaves alone: every component of the server but that part's own. -/
structure LeavesOthers (part : Part) (w w' : World) : Prop where
  users : part ≠ .users → w'.users = w.users
  since : part ≠ .users → w'.since = w.since
  clock : part ≠ .users → part ≠ .certs → w'.clock = w.clock
  state : part ≠ .state → w'.state = w.state
  keyring : part ≠ .keyring → w'.keyring = w.keyring
  gens : part ≠ .trees → w'.gens = w.gens
  link : part ≠ .link → w'.link = w.link
  promoted : part ≠ .promoted → w'.promoted = w.promoted
  docker : part ≠ .docker → w'.docker = w.docker
  certs : part ≠ .certs → w'.certs = w.certs
  plans : part ≠ .plans → w'.plans = w.plans
  reconciles : part ≠ .notes → w'.reconciles = w.reconciles
  common : w'.common = w.common

/-- A removed tree takes nothing with it but itself. -/
theorem leavesOthers_removeTree (g : Gen) : LeavesOthers .trees w (removeTree w g c) := by
  unfold removeTree
  split <;> constructor <;> intros <;> first | rfl | contradiction

/-- The frame of one call: it changes its own part, and no other. -/
theorem exec_leavesOthers : LeavesOthers o.part w (exec host o c w).2 := by
  cases o
  case rmtreeIgnoringErrors g => exact leavesOthers_removeTree g
  case rmtree g => exact leavesOthers_removeTree g
  all_goals constructor <;> intros <;> first | rfl | contradiction

/-- A call on another part leaves the users. -/
theorem exec_users (h : o.part ≠ .users) : (exec host o c w).2.users = w.users := LeavesOthers.users exec_leavesOthers h

/-- A call on another part leaves since when each user is there. -/
theorem exec_since (h : o.part ≠ .users) : (exec host o c w).2.since = w.since := LeavesOthers.since exec_leavesOthers h

/-- A call on neither the users nor the certificates leaves the clock. -/
theorem exec_clock (h : o.part ≠ .users) (h' : o.part ≠ .certs) : (exec host o c w).2.clock = w.clock :=
  LeavesOthers.clock exec_leavesOthers h h'

/-- A call on another part leaves state.json. -/
theorem exec_state (h : o.part ≠ .state) : (exec host o c w).2.state = w.state := LeavesOthers.state exec_leavesOthers h

/-- A call on another part leaves the keyring. -/
theorem exec_keyring (h : o.part ≠ .keyring) : (exec host o c w).2.keyring = w.keyring := LeavesOthers.keyring exec_leavesOthers h

/-- A call on another part leaves the generations. -/
theorem exec_gens (h : o.part ≠ .trees) : (exec host o c w).2.gens = w.gens := LeavesOthers.gens exec_leavesOthers h

/-- A call on another part leaves the link. -/
theorem exec_link (h : o.part ≠ .link) : (exec host o c w).2.link = w.link := LeavesOthers.link exec_leavesOthers h

/-- A call on another part leaves the containers. -/
theorem exec_docker (h : o.part ≠ .docker) : (exec host o c w).2.docker = w.docker := LeavesOthers.docker exec_leavesOthers h

/-- A call on another part leaves the certificates. -/
theorem exec_certs (h : o.part ≠ .certs) : (exec host o c w).2.certs = w.certs := LeavesOthers.certs exec_leavesOthers h

/-- A call on another part leaves the plans. -/
theorem exec_plans (h : o.part ≠ .plans) : (exec host o c w).2.plans = w.plans := LeavesOthers.plans exec_leavesOthers h

/-- A call on another part leaves the notes of the reconciles. -/
theorem exec_reconciles (h : o.part ≠ .notes) : (exec host o c w).2.reconciles = w.reconciles :=
  LeavesOthers.reconciles exec_leavesOthers h

/-- No call changes the checkout. -/
theorem exec_common : (exec host o c w).2.common = w.common := LeavesOthers.common exec_leavesOthers

end Frame

/-- What no command can break, no call breaks. -/
theorem exec_containers {host : Host} {I : Service → Option Container → Prop} {o : Op} {c : Choice} {w : World}
    (hI : ∀ s, Docker.Kept w.live (I s)) (h : ∀ s, I s (w.docker.containers s)) :
    ∀ s, I s ((exec host o c w).2.docker.containers s) := by
  cases o with
  | composeUp services => exact Docker.up_keeps hI h
  | composeForceRecreate s => exact Docker.forceRecreate_keeps hI h
  | composeRestart s => exact Docker.restart_keeps hI h
  | composeRm services => exact Docker.rm_keeps hI h
  | _ =>
    rw [exec_docker (by simp [Op.part])]
    exact h

/-- Every call of the command belongs to one of the parts. -/
def Touches (parts : List Part) {α : Type} (p : Cmd α) : Prop := p.Uses fun o => o.part ∈ parts

namespace Touches

variable {parts : List Part} {α β : Type}

theorem call {o : Op} (h : o.part ∈ parts) : Touches parts (call o) := Script.uses_op h

/-- A script that touches no more than these parts touches no more than those with others. -/
theorem mono {parts' : List Part} {p : Cmd α} (hp : Touches parts p) (h : parts ⊆ parts') : Touches parts' p :=
  Prog.Uses.mono hp fun _ ho => h ho

theorem bind {p : Cmd α} {f : α → Cmd β} (hp : Touches parts p) (hf : ∀ a, Touches parts (f a)) :
    Touches parts (p >>= f) := Script.uses_bind hp hf

theorem ite {c : Prop} [Decidable c] {p q : Cmd α} (hp : Touches parts p) (hq : Touches parts q) :
    Touches parts (if c then p else q) := Script.uses_ite (fun _ => hp) (fun _ => hq)

/-- The frame rule: a command keeps what none of its parts can change. -/
theorem keeps {p : Cmd α} (hp : Touches parts p) {host : Host} {d : Discipline Op World Choice} {I : World → Prop} {w : World}
    (hI : ∀ o, o.part ∈ parts → ∀ c w, I w → I (exec host o c w).2) (hw : I w) :
    ends (server host) d p (fun _ => I) (fun _ => I) I w :=
  ends_of_uses hp (fun o ho c w _ => withFaults_keeps (hI o ho) c w) hw

end Touches

/-- The rule of a call that only reads. -/
theorem ends_read {host : Host} {d : Discipline Op World Choice} {o : Op} (ho : o.part = .nothing) {I : World → Prop}
    {w : World} (hw : I w) :
    ends (server host) d (call o) (fun a w' => w' = w ∧ ∃ c, a = (exec host o c w).1) (fun _ => I) I w := by
  refine ends_exec (fun _ => hw) (fun c _ _ => ⟨exec_nothing ho, c, rfl⟩) (fun _ _ _ _ => hw) (fun c _ _ _ => ?_)
  rw [exec_nothing ho]
  exact hw

section Parts

variable (py : CaseMap)

theorem missingDeploymentConfig_touches (proto : Protocol) : Touches [.nothing] (missingDeploymentConfig proto) :=
  .ite (.bind (.call (by simp [Op.part])) fun _ => trivial) (Script.uses_pure none)

/-- The preparation of a protocol's secrets touches the state and the keyring only. -/
theorem prepareSecrets_touches (proto : Protocol) (st : State) :
    Touches [.nothing, .state, .keyring] (prepareSecrets proto st) := by
  refine .bind (.bind (.call (by simp [Op.part])) fun _ => Script.uses_pure _) fun gaps => .ite (Script.uses_pure ()) ?_
  refine .bind (Script.uses_tryExcept (Touches.call (by simp [Op.part])) fun e q hq => ?_) fun produced =>
    Script.uses_forM fun _ _ => Script.uses_op (by simp [Op.part])
  cases he : e.isException <;> rw [he] at hq <;> cases hq
  exact Touches.bind (.call (by simp [Op.part])) fun _ => trivial

/-- The writing of a candidate touches the trees only. -/
theorem writeCandidate_touches (tree : Tree) : Touches [.trees] (Render.writeCandidate tree) :=
  .bind (.call (by simp [Op.part])) fun _ => .bind (Script.uses_forM fun _ _ => Script.uses_op (by simp [Op.part]))
    fun _ => trivial

/-- `promote` touches the link only. -/
theorem promote_touches (candidate : Gen) : Touches [.link] (Render.promote candidate) :=
  .bind (.call (by simp [Op.part])) fun _ => .call (by simp [Op.part])

/-- The clean-up of a candidate touches the trees only. -/
theorem dropCandidate_touches (candidate : Gen) : Touches [.nothing, .trees] (dropCandidate candidate) :=
  .bind (.call (by simp [Op.part])) fun _ => .ite trivial (.call (by simp [Op.part]))

/-- A prune touches the trees only. -/
theorem pruneQuietly_touches : Touches [.nothing, .trees] pruneQuietly := by
  have hrm : ∀ g, Touches [.nothing, .trees] (Render.rmtreeNotLive g) := fun g =>
    .bind (.call (by simp [Op.part])) fun _ => .ite trivial (.call (by simp [Op.part]))
  have hprune : Touches [.nothing, .trees] Render.prune :=
    .bind (.call (by simp [Op.part])) fun _ => .bind (.call (by simp [Op.part])) fun _ =>
      Script.uses_forM fun g _ => Touches.ite trivial (hrm g)
  refine Script.uses_tryExcept hprune fun e q hq => ?_
  cases he : e.isException <;> rw [he] at hq <;> cases hq
  trivial

theorem missingSecrets_touches (enabled : List Protocol) : Touches [.nothing] (missingSecrets enabled) :=
  .bind (.call (by simp [Op.part])) fun _ => trivial

theorem snapshot_touches : Touches [.nothing] Render.snapshot :=
  .bind (.call (by simp [Op.part])) fun _ => .bind (.call (by simp [Op.part])) fun _ => .ite trivial trivial

theorem renderAll_touches : Touches [.nothing] (Render.renderAll py) :=
  .bind (.call (by simp [Op.part])) fun _ => .bind (.call (by simp [Op.part])) fun _ =>
    .bind snapshot_touches fun _ => .bind (.call (by simp [Op.part])) fun _ => .bind trivial fun _ => trivial

theorem changedBetween_touches (previous : Option Gen) (candidate : Gen) :
    Touches [.nothing] (changedBetween previous candidate) := by
  cases previous with
  | none => trivial
  | some g => exact .bind (.call (by simp [Op.part])) fun _ => .bind (.call (by simp [Op.part])) fun _ => trivial

namespace Composectl

/-- A nudge touches the containers only. -/
theorem nudge_touches (services : List Service) (before after : Option (Service → Option Nat)) (pending : Changed)
    (rest : List Service) : Touches [.docker] (nudge services before after pending rest) := by
  induction rest with
  | nil => trivial
  | cons s rest ih =>
    rw [nudge]
    cases pending s with
    | none => exact ih
    | some how =>
      refine .ite ih ?_
      have hrest : ∀ ok : Bool, Touches [.docker] (if ok then nudge services before after pending rest else pure false) :=
        fun ok => .ite ih (Script.uses_pure false)
      cases how with
      | recreate => exact .bind (.call (by simp [Op.part])) hrest
      | mount => exact .bind (.call (by simp [Op.part])) hrest

/-- `up` touches the containers only. -/
theorem up_touches (enabled : List Protocol) (changed : Option Changed) : Touches [.nothing, .docker] (up enabled changed) := by
  refine .bind (.call (by simp [Op.part])) fun _ => .bind (.call (by simp [Op.part])) fun _ => .ite ?_ trivial
  exact .bind (.call (by simp [Op.part])) fun _ => (nudge_touches ..).mono (by simp)

/-- `down_disabled` touches the containers only. -/
theorem downDisabled_touches (enabled : List Protocol) : Touches [.nothing, .docker] (downDisabled py enabled) := by
  refine .ite trivial (.bind (.call (by simp [Op.part])) fun running => ?_)
  cases running with
  | none => trivial
  | some running => exact .ite trivial (.call (by simp [Op.part]))

theorem notRunning_touches (enabled : List Protocol) : Touches [.nothing] (notRunning enabled) := by
  refine .bind (.call (by simp [Op.part])) fun running => ?_
  cases running with
  | none => trivial
  | some running => trivial

end Composectl

/-- The removal of a client touches the certificates only. -/
theorem removeClient_touches (name : Text) : Touches [.certs] (Ikev2Ctl.removeClient name) :=
  .bind (.call (by simp [Op.part])) fun _ => .ite (.call (by simp [Op.part])) (Script.uses_pure false)

/-- A turn of the first loop of a reconcile touches the certificates only. -/
theorem withdraw_touches (r : Reconciling) (name : Text) : Touches [.certs] (withdraw r name) := by
  unfold withdraw
  refine .ite (Script.uses_pure r) (.ite ?_ ?_)
  · exact .bind (removeClient_touches name) fun ok => .ite (Script.uses_pure _) (Script.uses_pure _)
  · exact .bind (.call (by simp [Op.part])) fun ok => .ite (Script.uses_pure _) (Script.uses_pure _)

/-- A turn of the second loop of a reconcile touches the certificates only. -/
theorem issue_touches (r : Reconciling) (name : Text) : Touches [.certs] (issue r name) := by
  have hadd : ∀ freed : Bool, Touches [.certs] (if freed then do
      let r := { r with reserved := r.reserved.filter (· ≠ name) }
      let ok : Bool ← call (.addClient name)
      if ok then return { r with added := r.added ++ [name], valid := r.valid ++ [name] }
      else return { r with addFailed := r.addFailed ++ [name] }
    else return { r with addFailed := r.addFailed ++ [name] } : Cmd Reconciling) := fun freed =>
    .ite (.bind (.call (by simp [Op.part])) fun ok => .ite (Script.uses_pure _) (Script.uses_pure _)) (Script.uses_pure _)
  unfold issue
  exact .ite (.bind (.call (by simp [Op.part])) hadd) (hadd true)

/-- A reconcile touches the certificates, and notes in the state and the users what is done. -/
theorem reconcileListed_touches (st : State) (users : List User) (valid reserved : List Text) :
    Touches [.certs, .state, .users] (reconcileListed st users valid reserved) := by
  refine .bind (Script.uses_foldlM fun r name _ => (withdraw_touches r name).mono (by simp)) fun _ =>
    .bind (Script.uses_foldlM fun r name _ => (issue_touches r name).mono (by simp)) fun _ => ?_
  exact .bind (.call (by simp [Op.part])) fun _ => .bind (.call (by simp [Op.part])) fun _ => trivial

/-- A reconcile with its listing touches no more than the part behind the listing. -/
theorem reconcileIkev2_touches : Touches [.nothing, .certs, .state, .users] reconcileIkev2 := by
  refine .bind (.call (by simp [Op.part])) fun _ => .ite ?_ trivial
  refine .bind (.call (by simp [Op.part])) fun _ => .bind (.call (by simp [Op.part])) fun _ =>
    .bind (.call (by simp [Op.part])) fun _ => .ite ?_ trivial
  exact .bind ((reconcileListed_touches ..).mono (by simp)) fun _ => trivial

theorem reconcileForwarding_touches (enabled : List Protocol) : Touches [.nothing] (reconcileForwarding enabled) := by
  have hbody : Touches [.nothing] (if servesIkev2 enabled then do
      let running : Bool ← call .ikev2Running
      if running then call (.forwarding true) else pure false
    else call (.forwarding false)) :=
    .ite (.bind (.call (by simp [Op.part])) fun running => .ite (.call (by simp [Op.part])) (Script.uses_pure false))
      (.call (by simp [Op.part]))
  refine Script.uses_tryExcept hbody fun e q hq => ?_
  cases e <;> cases hq
  trivial

/-- What comes behind `up` touches neither the trees nor the link nor the keyring. -/
theorem convergeRest_touches (enabled : List Protocol) (result : ApplyResult) :
    Touches [.nothing, .docker, .certs, .state, .users, .notes] (convergeRest py enabled result) := by
  refine .bind ((Composectl.downDisabled_touches py enabled).mono (by simp)) fun _ =>
    .bind (.call (by simp [Op.part])) fun _ => .bind ((Composectl.notRunning_touches enabled).mono (by simp)) fun _ =>
    .bind (.call (by simp [Op.part])) fun _ => .ite ?_ trivial
  refine .bind (.call (by simp [Op.part])) fun _ => .ite (.bind (reconcileIkev2_touches.mono (by simp)) fun r => ?_) trivial
  cases r with
  | none => trivial
  | some r => exact .bind (.call (by simp [Op.part])) fun _ => trivial

/-- A convergence touches neither the trees nor the link nor the keyring. -/
theorem converge_touches (enabled : List Protocol) (changed : Option Changed) (result : ApplyResult) :
    Touches [.nothing, .docker, .certs, .state, .users, .notes] (converge py enabled changed result) :=
  .bind ((Composectl.up_touches enabled changed).mono (by simp)) fun _ => .ite (convergeRest_touches py enabled result) trivial

/-- The end of an apply touches the state only. -/
theorem finish_touches (enabled : List Protocol) (result : ApplyResult) :
    Touches [.nothing, .state] (finish enabled result) :=
  .bind (.call (by simp [Op.part])) fun _ => .bind (.call (by simp [Op.part])) fun _ => trivial

end Parts

end VpnStack

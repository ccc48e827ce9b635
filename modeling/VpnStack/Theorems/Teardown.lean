import VpnStack.Theorems.Converge

/-!
# What switching a protocol off leaves behind

`down_disabled` removes what `ps --services --status running` lists. A container that crash-loops between two retries is
`restarting`, and one somebody has paused or stopped is there too; none of them is in that listing, the teardown reports
them as already down, and `restart: always` starts them again. So the conditions of a container are told apart here, over
the world of the commands, which knows of a container only whether it runs.
-/

namespace VpnStack

open Python Interaction

namespace Composectl

/-! ## The conditions of a container -/

inductive Condition where
  | absent
  | created
  | running
  | restarting
  | paused
  | exited
  deriving DecidableEq, Repr

/-- Whether there is a container, and whether `--status running` lists it. -/
def Condition.listed : Condition → Option Bool
  | .absent => none
  | .running => some true
  | .created | .restarting | .paused | .exited => some false

/-- The daemon at its start. What it does with a container that was created and never started is its own matter. -/
structure Daemon where
  startsCreated : Bool

/-- Whether a container under `restart: always` runs, or will without anybody's doing: at its next retry, or when the daemon
starts next. -/
def Daemon.startsAgain (daemon : Daemon) : Condition → Bool
  | .absent => false
  | .created => daemon.startsCreated
  | .running | .restarting | .paused | .exited => true

/-- The condition of every service's container, as the world has it. -/
structure Conditions (w : World) where
  of : Service → Condition
  agrees : ∀ s, (w.docker.containers s).map (·.running) = (of s).listed

/-- The condition a service is in once a command has been through that removes containers and does nothing else. -/
def Conditions.after {w : World} (conditions : Conditions w) (w' : World) (s : Service) : Condition :=
  match w'.docker.containers s with
  | none => .absent
  | some _ => conditions.of s

/-- A service of a protocol that is off. -/
def Disabled (py : CaseMap) (enabled : List Protocol) (s : Service) : Prop :=
  ∃ p ∈ protocols py, s ∈ p.composeServices ∧ s ∉ enabled.flatMap (·.composeServices)

/-- No service of a protocol that is off runs, or will by itself. -/
def Down (py : CaseMap) (enabled : List Protocol) (daemon : Daemon) (condition : Service → Condition) : Prop :=
  ∀ s, Disabled py enabled s → daemon.startsAgain (condition s) = false

/-! ## What the teardown removes -/

/-- Whether the listing of the running services has it. -/
def Running (w : World) (s : Service) : Prop := (w.docker.containers s).map (·.running) = some true

instance (w : World) (s : Service) : Decidable (Running w s) := inferInstanceAs (Decidable (_ = _))

/-- The services the teardown is about. -/
def stale (py : CaseMap) (enabled : List Protocol) : List Service :=
  (ordered (protocols py)).flatMap fun p => p.composeServices.filter fun s => s ∉ enabled.flatMap (·.composeServices)

/-- What is stale is of the protocols that are off. -/
theorem mem_stale {py : CaseMap} {enabled : List Protocol} {s : Service} :
    s ∈ stale py enabled ↔ Disabled py enabled s := by
  simp only [stale, Disabled, ordered, List.mem_flatMap, List.mem_insertionSort, List.mem_filter, decide_eq_true_eq]

/-- The services of the disabled protocols that were running. -/
def Removed (py : CaseMap) (enabled : List Protocol) (w : World) (s : Service) : Prop :=
  Disabled py enabled s ∧ Running w s

/-- The running services are those whose container runs. -/
theorem mem_runningServices {w : World} {s : Service} :
    s ∈ Service.all.filter (fun s => ((w.docker.containers s).map (·.running)).getD false) ↔ Running w s := by
  have hall : s ∈ Service.all := by cases s <;> decide
  rw [List.mem_filter, Running]
  refine ⟨fun h => ?_, fun h => ⟨hall, by rw [h]; rfl⟩⟩
  cases hc : (w.docker.containers s).map (·.running) with
  | none =>
    rw [hc] at h
    exact Bool.noConfusion h.2
  | some running =>
    rw [hc] at h
    exact congrArg some h.2

/-- When the teardown says ok, the containers of the disabled protocols that were running are gone, and no other is. -/
theorem downDisabled_ends (host : Host) (enabled : List Protocol) (w : World) :
    ends (server host) (.any Op World Choice) (downDisabled host.py enabled)
      (fun ok w' => ok = true → ∀ s, (Removed host.py enabled w s → w'.docker.containers s = none) ∧
        (¬ Removed host.py enabled w s → w'.docker.containers s = w.docker.containers s))
      (fun _ _ => True) (fun _ => True) w := by
  unfold downDisabled
  change ends _ _ (if stale host.py enabled = [] then _ else _) _ _ _ w
  split
  · rename_i hnone
    intro _ s
    refine ⟨fun hs => ?_, fun _ => rfl⟩
    have hmem := mem_stale.mpr hs.1
    rw [hnone] at hmem
    exact (List.not_mem_nil hmem).elim
  · refine ends_seq (M := fun running w' => w' = w ∧ ∀ services, running = some services →
        ∀ s, s ∈ services ↔ Running w s) ?_ fun running w1 hw1 => ?_
    · refine ends_exec (fun _ => trivial) (fun c _ _ => ⟨rfl, fun services h => ?_⟩) (fun _ _ _ _ => trivial)
        (fun _ _ _ _ => trivial)
      change (if c.ok then some _ else none) = some services at h
      split at h
      · cases h
        exact fun s => mem_runningServices
      · cases h
    obtain ⟨rfl, hrunning⟩ := hw1
    cases running with
    | none => exact fun hfalse => nomatch hfalse
    | some services =>
      have hremove : ∀ s, s ∈ (stale host.py enabled).filter (· ∈ services) ↔ Removed host.py enabled w1 s := by
        intro s
        rw [List.mem_filter, decide_eq_true_eq, mem_stale, hrunning services rfl s]
        rfl
      change ends _ _ (if (stale host.py enabled).filter (· ∈ services) = [] then _ else _) _ _ _ w1
      split
      · rename_i hnone
        intro _ s
        refine ⟨fun hs => ?_, fun _ => rfl⟩
        have hmem := (hremove s).mpr hs
        rw [hnone] at hmem
        exact (List.not_mem_nil hmem).elim
      · refine ends_exec (fun _ => trivial) (fun c _ _ hok s => ?_) (fun _ _ _ _ => trivial) (fun _ _ _ _ => trivial)
        have hcok : c.ok = true := hok
        change (_ → (w1.docker.rm c.ok c.touch _).containers s = none) ∧
          (_ → (w1.docker.rm c.ok c.touch _).containers s = _)
        rw [hcok, Docker.rm_ok]
        exact ⟨fun hs => if_pos ((hremove s).mpr hs), fun hs => if_neg fun hmem => hs ((hremove s).mp hmem)⟩

/-- With nothing failing the teardown says ok. -/
theorem downDisabled_succeeds (host : Host) (enabled : List Protocol) (w : World) :
    ∃ w', (downDisabled host.py enabled).run (server host) [{}, {}] w = (some (.ok true), w') := by
  have hrun : ∀ c : Prop, ∀ _ : Decidable c, ∀ p q : Cmd Bool, ∀ cs w,
      (∃ w', p.run (server host) cs w = (some (.ok true), w')) → (∃ w', q.run (server host) cs w = (some (.ok true), w')) →
      ∃ w', (if c then p else q).run (server host) cs w = (some (.ok true), w') := by
    intro c _ p q cs w hp hq
    split
    · exact hp
    · exact hq
  exact hrun _ _ _ _ _ _ ⟨w, rfl⟩ (hrun _ _ _ _ [{}] _ ⟨w, rfl⟩ ⟨_, rfl⟩)

/-! ## The result -/

/-- What is still there of a disabled protocol after a teardown that said ok is what was not running before it. -/
theorem startsAgain_after {host : Host} {enabled : List Protocol} {daemon : Daemon} {w w' : World} {cs : List Choice}
    (conditions : Conditions w) (h : (downDisabled host.py enabled).run (server host) cs w = (some (.ok true), w'))
    {s : Service} (hs : Disabled host.py enabled s) :
    daemon.startsAgain (conditions.after w' s) = false ↔
      conditions.of s = .running ∨ daemon.startsAgain (conditions.of s) = false := by
  have hends := ends_run_any (downDisabled_ends host enabled w) cs
  rw [h] at hends
  obtain ⟨hgone, hleft⟩ := hends rfl s
  have hagrees := conditions.agrees s
  unfold Conditions.after
  by_cases hrunning : conditions.of s = .running
  · rw [hrunning] at hagrees
    rw [hgone ⟨hs, hagrees⟩]
    exact ⟨fun _ => .inl hrunning, fun _ => rfl⟩
  · have hlisted : ¬ Removed host.py enabled w s := by
      rintro ⟨-, hw⟩
      rw [Running, hagrees] at hw
      apply hrunning
      cases hc : conditions.of s <;> rw [hc] at hw <;> first | rfl | cases hw
    rw [hleft hlisted]
    cases hc : w.docker.containers s with
    | none =>
      have habsent : conditions.of s = .absent := by
        rw [hc] at hagrees
        cases hcond : conditions.of s <;> rw [hcond] at hagrees <;> first | rfl | cases hagrees
      rw [habsent]
      exact ⟨fun _ => .inr rfl, fun _ => rfl⟩
    | some c => exact ⟨.inr, fun h => h.resolve_left hrunning⟩

/-- However the docker commands end, a teardown that says ok leaves every disabled protocol down: exactly if each of its
services was running, or had nothing that would start again. -/
theorem downDisabled_down_iff (host : Host) (enabled : List Protocol) (daemon : Daemon) (w : World)
    (conditions : Conditions w) :
    (∀ cs w', (downDisabled host.py enabled).run (server host) cs w = (some (.ok true), w') →
        Down host.py enabled daemon (conditions.after w')) ↔
      ∀ s, Disabled host.py enabled s → conditions.of s = .running ∨ daemon.startsAgain (conditions.of s) = false := by
  constructor
  · intro hdown s hs
    obtain ⟨w', hrun⟩ := downDisabled_succeeds host enabled w
    exact (startsAgain_after conditions hrun hs).mp (hdown _ w' hrun s hs)
  · intro hall cs w' hrun s hs
    exact (startsAgain_after conditions hrun hs).mpr (hall s hs)

/-- A server on which the tunnel serves and the sshd behind it crash-loops. -/
def crashLooping : World :=
  { World.provisioned (fun _ => none) [] ⟨[], List.nodup_nil⟩ with
    docker := ((Docker.empty.create [] .dnstt true).create [] .dnsttSshd true).leave .dnsttSshd (some false) }

/-- The sshd is between two of its retries. -/
def crashLooping.conditions : Conditions crashLooping where
  of := fun s =>
    match s with
    | .dnstt => .running
    | .dnsttSshd => .restarting
    | _ => .absent
  agrees := by
    intro s
    cases s <;> rfl

/-- With dnstt off, the teardown removes the tunnel, reports ok, and the sshd comes back at its next retry. -/
theorem downDisabled_restarting :
    ¬ ∀ (host : Host) (enabled : List Protocol) (daemon : Daemon) (w : World) (conditions : Conditions w) (cs : List Choice)
      (w' : World), (downDisabled host.py enabled).run (server host) cs w = (some (.ok true), w') →
        Down host.py enabled daemon (conditions.after w') := by
  intro h
  obtain ⟨w', hrun⟩ := downDisabled_succeeds Host.sample [Ikev2.protocol] crashLooping
  have hdisabled : Disabled Host.sample.py [Ikev2.protocol] .dnsttSshd :=
    ⟨Dnstt.protocol .ascii, by simp [protocols, Host.sample], by decide, by decide⟩
  have hdown := h Host.sample [Ikev2.protocol] ⟨false⟩ crashLooping crashLooping.conditions _ w' hrun .dnsttSshd hdisabled
  rcases (startsAgain_after crashLooping.conditions hrun hdisabled).mp hdown with hrunning | hgone
  · cases hrunning
  · cases hgone

end Composectl

end VpnStack

import VpnStack.Tunnel.Controller

/-!
# When a disconnect may say so

All calls wait on one list, and the first status that is not `connecting` completes every one of them. A disconnect throws when it
is handed a failure, and completes normally on anything else: on the `connected` of a start that was under way too. Where no such
status is delivered while a disconnect waits, it completes normally only on a `disconnected`.
-/

namespace VpnStack

open Transition

namespace Tunnel

namespace Controller

variable {ι π κ : Type} [DecidableEq ι] [DecidableEq π] {k : Controller ι π κ} {i j : ι}

/-! ## What the controller can do -/

/-- What happens, with the state it happens in. -/
inductive Move (k : Controller ι π κ) : Input ι π κ → Next ι π κ → Prop where
  | refuse (i : ι) (profile : Profile π κ) (hi : (k.phases i).isIdle) (hc : profile.isConnectable = false) :
    Move k (.connect i profile) (k.fail i (some profile.id)).quiet
  | unbuilt (i : ι) (profile : Profile π κ) (hi : (k.phases i).isIdle) :
    Move k (.connect i profile)
      (({ k with activeProfileId := some profile.id }.emit .connecting (some profile.id)).fail i (some profile.id)).quiet
  | prepare (i : ι) (profile : Profile π κ) (text : κ) (hi : (k.phases i).isIdle) (hb : profile.built = some text) :
    Move k (.connect i profile)
      (({ k with activeProfileId := some profile.id }.emit .connecting (some profile.id)).goto i (.preparing ⟨profile.id, text⟩),
        some (i, .prepare))
  | idle (i : ι) (hi : (k.phases i).isIdle) (hs : k.status.stage = .disconnected) :
    Move k (.disconnect i) ({ k with status := .idle }.goto i .stopped).quiet
  | stop (i : ι) (hi : (k.phases i).isIdle) (hs : k.status.stage ≠ .disconnected) : Move k (.disconnect i) (k.stop i none)
  | foreign (i : ι) (id : π) (hi : (k.phases i).isIdle) (hs : k.status.profileId.isSome) (hne : k.status.profileId ≠ some id) :
    Move k (.forgetProfile i id) (k.goto i (.forgotten id false)).quiet
  | stopFirst (i : ι) (id : π) (hi : (k.phases i).isIdle) (hs : k.status.isUp ∨ k.status.isBusy)
      (hid : ∀ q ∈ k.status.profileId, q = id) : Move k (.forgetProfile i id) (k.stop i (some id))
  | remove (i : ι) (id : π) (hi : (k.phases i).isIdle) (hs : ¬ (k.status.isUp ∨ k.status.isBusy)) :
    Move k (.forgetProfile i id) (k.goto i (.removing id none), some (i, .removeProfile))
  | ask (i : ι) (config : Config π κ) (hp : k.phases i = .preparing config) :
    Move k (.reply i (.value false)) (k.goto i (.asking config), some (i, .requestPermission))
  | start (i : ι) (config : Config π κ) (hp : k.phases i = .preparing config ∨ k.phases i = .asking config) :
    Move k (.reply i (.value true)) (k.start i config)
  | denied (i : ι) (r : Reply) (config : Config π κ) (hp : k.phases i = .preparing config ∨ k.phases i = .asking config) :
    Move k (.reply i r) (k.fail i (some config.owner)).quiet
  | started (i : ι) (b : Bool) (id : π) (hp : k.phases i = .starting id) :
    Move k (.reply i (.value b)) (k.goto i (.connecting id)).quiet
  | unstarted (i : ι) (r : Reply) (id : π) (hp : k.phases i = .starting id) : Move k (.reply i r) (k.fail i (some id)).quiet
  | stopping (i : ι) (b : Bool) (forgets : Option π) (hp : k.phases i = .stopping forgets) :
    Move k (.reply i (.value b)) (k.goto i (.disconnecting forgets)).quiet
  | unstoppable (i : ι) (r : Reply) (forgets : Option π) (hp : k.phases i = .stopping forgets) :
    Move k (.reply i r) ((k.emit .failed k.activeProfileId).unstopped i forgets)
  | removed (i : ι) (r : Reply) (id : π) (stop : Option Bool) (complaint : Bool) (hp : k.phases i = .removing id stop)
      (hc : stop = some false → complaint) : Move k (.reply i r) (k.goto i (.forgotten id complaint)).quiet
  | status (stage : Stage) : Move k (.status stage) (k.onPlatformStatus stage).quiet
  | up (i : ι) (id : π) (stage : Stage) (hp : k.phases i = .connecting id) (hs : k.settled i = some stage) :
    Move k (.resume i) (k.goto i (if stage = .connected then .connected else .threw)).quiet
  | down (i : ι) (forgets : Option π) (stage : Stage) (hp : k.phases i = .disconnecting forgets)
      (hs : k.settled i = some stage) (hf : stage ≠ .failed) : Move k (.resume i) (k.stopped i forgets)
  | failed (i : ι) (forgets : Option π) (hp : k.phases i = .disconnecting forgets) (hs : k.settled i = some .failed) :
    Move k (.resume i) (k.unstopped i forgets)
  | upLate (i : ι) (id : π) (hp : k.phases i = .connecting id) : Move k (.timeout i) (k.fail i (some id)).quiet
  | downLate (i : ι) (forgets : Option π) (hp : k.phases i = .disconnecting forgets) :
    Move k (.timeout i) ((k.emit .failed k.activeProfileId).unstopped i forgets)

omit [DecidableEq π] in
/-- Every reply a call goes on with is one of them. -/
theorem move_of_reply {r : Reply} {n : Next ι π κ} (h : k.reply i r = some n) : Move k (.reply i r) n := by
  unfold reply at h
  split at h
  · rename_i config hp
    exact Option.some_inj.mp h ▸ .start i config (.inl hp)
  · rename_i config hp
    exact Option.some_inj.mp h ▸ .ask i config hp
  · rename_i config hp _ _
    exact Option.some_inj.mp h ▸ .denied i _ config (.inl hp)
  · rename_i config hp
    exact Option.some_inj.mp h ▸ .start i config (.inr hp)
  · rename_i config hp _
    exact Option.some_inj.mp h ▸ .denied i _ config (.inr hp)
  · rename_i id b hp
    exact Option.some_inj.mp h ▸ .started i b id hp
  · rename_i id hp _
    exact Option.some_inj.mp h ▸ .unstarted i _ id hp
  · rename_i forgets b hp
    exact Option.some_inj.mp h ▸ .stopping i b forgets hp
  · rename_i forgets hp _
    exact Option.some_inj.mp h ▸ .unstoppable i _ forgets hp
  · rename_i id stop hp
    exact Option.some_inj.mp h ▸ .removed i .refused id stop true hp fun _ => rfl
  · rename_i id stop hp _
    exact Option.some_inj.mp h ▸ .removed i _ id stop (stop == some false) hp fun hs => by rw [hs]; rfl
  · nomatch h

/-- Everything the controller does is one of them. -/
theorem move_of_next {input : Input ι π κ} {n : Next ι π κ} (h : k.next input = some n) : Move k input n := by
  cases input with
  | connect i profile =>
    simp only [next, Option.ite_none_right_eq_some, Option.some_inj] at h
    obtain ⟨hi, rfl⟩ := h
    unfold connect
    split
    · dsimp only
      split
      · exact .unbuilt i profile hi
      · rename_i text hb
        exact .prepare i profile text hi hb
    · rename_i hc
      exact .refuse i profile hi (Bool.not_eq_true _ ▸ hc)
  | disconnect i =>
    simp only [next, Option.ite_none_right_eq_some, Option.some_inj] at h
    obtain ⟨hi, rfl⟩ := h
    unfold disconnect
    split
    · rename_i hs
      exact .idle i hi hs
    · rename_i hs
      exact .stop i hi hs
  | forgetProfile i id =>
    simp only [next, Option.ite_none_right_eq_some, Option.some_inj] at h
    obtain ⟨hi, rfl⟩ := h
    unfold forgetProfile
    split
    · rename_i hs
      exact .foreign i id hi hs.1 hs.2
    · rename_i hid
      split
      · rename_i hs
        refine .stopFirst i id hi hs fun q hq => ?_
        by_contra hne
        rw [Option.mem_def] at hq
        exact hid ⟨by rw [hq]; rfl, by rw [hq]; exact fun h => hne (Option.some_inj.mp h)⟩
      · rename_i hs
        exact .remove i id hi hs
  | reply i r => exact move_of_reply h
  | status stage => exact Option.some_inj.mp h ▸ .status stage
  | resume i =>
    simp only [next, resume] at h
    split at h
    · rename_i id stage hp hs
      exact Option.some_inj.mp h ▸ .up i id stage hp hs
    · rename_i forgets stage hp hs
      rw [Option.some_inj] at h
      split at h
      · rename_i hf
        exact h ▸ .failed i forgets hp (hf ▸ hs)
      · rename_i hf
        exact h ▸ .down i forgets stage hp hs hf
    · nomatch h
  | timeout i =>
    simp only [next, timeout] at h
    split at h
    · rename_i id hp _
      exact Option.some_inj.mp h ▸ .upLate i id hp
    · rename_i forgets hp _
      exact Option.some_inj.mp h ▸ .downLate i forgets hp
    · nomatch h

/-- The controller by itself: whatever the platform replies, and whatever statuses it sends. -/
def step (k : Controller ι π κ) (input : Input ι π κ) : Option (Controller ι π κ) := (k.next input).map (·.1)

omit [DecidableEq ι] [DecidableEq π] in
theorem step_eq_some [DecidableEq ι] [DecidableEq π] {input : Input ι π κ} {k' : Controller ι π κ}
    (h : k.step input = some k') : ∃ n, k.next input = some n ∧ n.1 = k' := Option.map_eq_some_iff.mp h

end Controller

/-! ## What a completer holds -/

namespace Phase

variable {π κ : Type}

/-- It has not registered a settler yet. -/
def isFresh : Phase π κ → Bool
  | idle | preparing _ | asking _ => true
  | _ => false

/-- It is a stop that waits. -/
def isStop : Phase π κ → Bool
  | stopping _ | disconnecting _ => true
  | _ => false

/-- It is a disconnect that completed normally, by itself or in a `forgetProfile`. -/
def hasStopped : Phase π κ → Bool
  | stopped | removing _ (some true) => true
  | _ => false

/-- It is a stop that threw, or what follows on one that is over. -/
def isOver : Phase π κ → Bool
  | threw | removing _ (some false) | forgotten _ _ => true
  | _ => false

theorem isFresh_of_isIdle {phase : Phase π κ} (h : phase.isIdle) : phase.isFresh := by
  cases phase <;> first | rfl | nomatch h

theorem not_isStop_of_hasStopped {phase : Phase π κ} (h : phase.hasStopped) : phase.isStop = false := by
  cases phase <;> first | rfl | simp [hasStopped] at h

/-- A call whose stop was sent is not over yet. -/
theorem not_isOver_of_hasStopped {phase : Phase π κ} (h : phase.hasStopped) : phase.isOver = false := by
  cases phase with
  | removing id stop => rcases stop with _ | _ | _ <;> first | rfl | simp [hasStopped] at h
  | _ => first | rfl | simp [hasStopped] at h

end Phase

namespace Controller

variable {ι π κ : Type} {phases : ι → Phase π κ} {settled : ι → Option Stage} {settlers : List ι} {i : ι}

/-- What the waiters and their completers have to do with where the calls are: a call that has not registered holds nothing, one
that is on the list holds nothing yet, no stop was handed `connected`, and nobody was handed `connecting`. -/
structure Waits (phases : ι → Phase π κ) (settled : ι → Option Stage) (settlers : List ι) : Prop where
  fresh : ∀ j, (phases j).isFresh → settled j = none ∧ j ∉ settlers
  pending : ∀ j ∈ settlers, settled j = none
  honest : ∀ j, (phases j).isStop → settled j ≠ some .connected
  terminal : ∀ j, settled j ≠ some .connecting

section Waits

variable [DecidableEq ι] {phase : Phase π κ}

/-- A call goes on. -/
theorem Waits.goto (hw : Waits phases settled settlers) (hfresh : phase.isFresh → (phases i).isFresh)
    (hstop : phase.isStop → (phases i).isFresh ∨ (phases i).isStop) :
    Waits (Function.update phases i phase) settled settlers where
  fresh j hj := by
    by_cases hji : j = i
    · subst hji
      rw [Function.update_self] at hj
      exact hw.fresh j (hfresh hj)
    · rw [Function.update_of_ne hji] at hj
      exact hw.fresh j hj
  pending := hw.pending
  honest j hj := by
    by_cases hji : j = i
    · subst hji
      rw [Function.update_self] at hj
      rcases hstop hj with h | h
      · rw [(hw.fresh j h).1]
        exact nofun
      · exact hw.honest j h
    · rw [Function.update_of_ne hji] at hj
      exact hw.honest j hj
  terminal := hw.terminal

/-- A call registers its settler and sends its command. -/
theorem Waits.nextSettled (hw : Waits phases settled settlers) (hi : (phases i).isFresh) (hphase : phase.isFresh = false) :
    Waits (Function.update phases i phase) settled (settlers ++ [i]) where
  fresh j hj := by
    by_cases hji : j = i
    · subst hji
      rw [Function.update_self, hphase] at hj
      nomatch hj
    · rw [Function.update_of_ne hji] at hj
      obtain ⟨hnone, hmem⟩ := hw.fresh j hj
      exact ⟨hnone, by simp [hmem, hji]⟩
  pending j hj := by
    rcases List.mem_append.mp hj with hj | hj
    · exact hw.pending j hj
    · rw [List.mem_singleton.mp hj]
      exact (hw.fresh i hi).1
  honest j hj := by
    by_cases hji : j = i
    · subst hji
      rw [(hw.fresh j hi).1]
      exact nofun
    · rw [Function.update_of_ne hji] at hj
      exact hw.honest j hj
  terminal := hw.terminal

/-- A settled status completes the waiters; if it is `connected`, no stop is one of them. -/
theorem Waits.settle {stage : Stage} (hw : Waits phases settled settlers) (hstage : stage ≠ .connecting)
    (hs : stage = .connected → ∀ j ∈ settlers, (phases j).isStop = false) :
    Waits phases (fun j => if j ∈ settlers then some stage else settled j) [] where
  fresh j hj := by
    obtain ⟨hnone, hmem⟩ := hw.fresh j hj
    exact ⟨by rw [if_neg hmem, hnone], List.not_mem_nil⟩
  pending := nofun
  honest j hj := by
    by_cases hmem : j ∈ settlers
    · rw [if_pos hmem]
      intro hc
      rw [hs (Option.some_inj.mp hc) j hmem] at hj
      nomatch hj
    · rw [if_neg hmem]
      exact hw.honest j hj
  terminal j := by
    by_cases hmem : j ∈ settlers
    · rw [if_pos hmem]
      exact fun h => hstage (Option.some_inj.mp h)
    · rw [if_neg hmem]
      exact hw.terminal j

end Waits

variable [DecidableEq ι] [DecidableEq π] {k k' : Controller ι π κ}

/-- No `connected` is delivered while a stop waits. -/
def Sincere (k : Controller ι π κ) : Input ι π κ → Prop
  | .status stage => stage = .connected → ∀ j ∈ k.settlers, (k.phases j).isStop = false
  | _ => True

/-- The step lemma of the waiters. -/
theorem waits_step {input : Input ι π κ} (hw : Waits k.phases k.settled k.settlers) (hs : Sincere k input)
    (hstep : k.step input = some k') : Waits k'.phases k'.settled k'.settlers := by
  obtain ⟨n, hn, rfl⟩ := step_eq_some hstep
  -- A call that is over waits for nothing.
  have hover : ∀ {i : ι} {phase : Phase π κ}, phase.isFresh = false → phase.isStop = false →
      Waits (Function.update k.phases i phase) k.settled k.settlers := fun hf hp =>
    hw.goto (fun h => by rw [hf] at h; nomatch h) (fun h => by rw [hp] at h; nomatch h)
  have hstopped : ∀ (k₁ : Controller ι π κ) (i : ι) (forgets : Option π), k₁.phases = k.phases → k₁.settled = k.settled →
      k₁.settlers = k.settlers → Waits (k₁.stopped i forgets).1.phases (k₁.stopped i forgets).1.settled
        (k₁.stopped i forgets).1.settlers ∧ Waits (k₁.unstopped i forgets).1.phases (k₁.unstopped i forgets).1.settled
        (k₁.unstopped i forgets).1.settlers := by
    intro k₁ i forgets h₁ h₂ h₃
    cases forgets <;> simp only [stopped, unstopped, goto, quiet, h₁, h₂, h₃] <;> exact ⟨hover rfl rfl, hover rfl rfl⟩
  cases move_of_next hn with
  | refuse i profile hi hc => exact hover rfl rfl
  | unbuilt i profile hi => exact hover rfl rfl
  | prepare i profile text hi hb => exact hw.goto (fun _ => Phase.isFresh_of_isIdle hi) nofun
  | idle i hi hs => exact hover rfl rfl
  | stop i hi hs => exact hw.nextSettled (Phase.isFresh_of_isIdle hi) rfl
  | foreign i id hi hs hne => exact hover rfl rfl
  | stopFirst i id hi hs hid => exact hw.nextSettled (Phase.isFresh_of_isIdle hi) rfl
  | remove i id hi hs => exact hover rfl rfl
  | ask i config hp => exact hw.goto (fun _ => by rw [hp]; rfl) nofun
  | start i config hp => exact hw.nextSettled (by rcases hp with hp | hp <;> rw [hp] <;> rfl) rfl
  | denied i r config hp => exact hover rfl rfl
  | started i b id hp => exact hover rfl rfl
  | unstarted i r id hp => exact hover rfl rfl
  | stopping i b forgets hp => exact hw.goto nofun fun _ => .inr (by rw [hp]; rfl)
  | unstoppable i r forgets hp => exact (hstopped (k.emit .failed k.activeProfileId) i forgets rfl rfl rfl).2
  | removed i r id stop complaint hp hc => exact hover rfl rfl
  | status stage =>
    unfold onPlatformStatus
    split
    · exact hw
    · rename_i hstage
      exact hw.settle hstage hs
  | up i id stage hp hs' =>
    dsimp only [quiet, goto]
    split <;> exact hover rfl rfl
  | down i forgets stage hp hs' hf => exact (hstopped k i forgets rfl rfl rfl).1
  | failed i forgets hp hs' => exact (hstopped k i forgets rfl rfl rfl).2
  | upLate i id hp => exact hover rfl rfl
  | downLate i forgets hp => exact (hstopped (k.emit .failed k.activeProfileId) i forgets rfl rfl rfl).2

/-! ## One disconnect -/

/-- The stop of a call waits, or is over without having completed normally, or completed normally on a `disconnected`. -/
def Asked (phases : ι → Phase π κ) (settled : ι → Option Stage) (i : ι) : Prop :=
  (phases i).isStop ∨ (phases i).isOver ∨ ((phases i).hasStopped ∧ settled i = some .disconnected)

omit [DecidableEq π] in
/-- A settled status is handed to who waits. -/
theorem settled_settle (k : Controller ι π κ) (stage : Stage) (i : ι) :
    (k.settle stage).settled i = some stage ∨ (k.settle stage).settled i = k.settled i := by
  by_cases h : i ∈ k.settlers
  · exact .inl (if_pos h)
  · exact .inr (if_neg h)

/-- Only a status changes what a completer holds. -/
theorem settled_next {input : Input ι π κ} {n : Next ι π κ} (h : k.next input = some n)
    (hinput : ∀ stage, input ≠ .status stage) : n.1.settled = k.settled := by
  cases move_of_next h with
  | status stage => exact absurd rfl (hinput stage)
  | unstoppable i r forgets hp => cases forgets <;> rfl
  | down i forgets stage hp hs hf => cases forgets <;> rfl
  | failed i forgets hp hs => cases forgets <;> rfl
  | downLate i forgets hp => cases forgets <;> rfl
  | _ => rfl

/-- The step lemma of one stop. -/
theorem asked_step {input : Input ι π κ} (hw : Waits k.phases k.settled k.settlers) (ha : Asked k.phases k.settled i)
    (hstep : k.step input = some k') : Asked k'.phases k'.settled i := by
  obtain ⟨n, hn, rfl⟩ := step_eq_some hstep
  -- A call that never waited for a stop is another one.
  have hother : ∀ {j : ι} {phase : Phase π κ}, ¬ Asked k.phases k.settled j →
      Asked (Function.update k.phases j phase) k.settled i := by
    intro j phase hj
    have hne : i ≠ j := fun h => hj (h ▸ ha)
    rw [Asked, Function.update_of_ne hne]
    exact ha
  have hidle : ∀ {j : ι}, (k.phases j).isIdle → ¬ Asked k.phases k.settled j := by
    intro j hj
    cases hp : k.phases j <;> first | (simp [Asked, hp, Phase.isStop, Phase.isOver, Phase.hasStopped]; done) | (rw [hp] at hj; nomatch hj)
  have hself : ∀ {j : ι} {phase : Phase π κ}, (j = i → phase.isStop ∨ phase.isOver) →
      Asked (Function.update k.phases j phase) k.settled i := by
    intro j phase hj
    by_cases hji : i = j
    · subst hji
      rw [Asked, Function.update_self]
      rcases hj rfl with h | h
      · exact .inl h
      · exact .inr (.inl h)
    · rw [Asked, Function.update_of_ne hji]
      exact ha
  have hunstopped : ∀ (k₁ : Controller ι π κ) (j : ι) (forgets : Option π), k₁.phases = k.phases → k₁.settled = k.settled →
      Asked (k₁.unstopped j forgets).1.phases (k₁.unstopped j forgets).1.settled i := by
    intro k₁ j forgets h₁ h₂
    cases forgets <;> simp only [unstopped, goto, quiet, h₁, h₂] <;> exact hself fun _ => .inr rfl
  have hnever : ∀ {j : ι} {phase : Phase π κ}, k.phases j = phase → phase.isStop = false → phase.isOver = false →
      phase.hasStopped = false → ¬ Asked k.phases k.settled j := by
    intro j phase hp h₁ h₂ h₃
    simp [Asked, hp, h₁, h₂, h₃]
  cases move_of_next hn with
  | refuse j profile hi hc => exact hother (hidle hi)
  | unbuilt j profile hi => exact hother (hidle hi)
  | prepare j profile text hi hb => exact hother (hidle hi)
  | idle j hi hs => exact hother (hidle hi)
  | stop j hi hs => exact hother (hidle hi)
  | foreign j id hi hs hne => exact hother (hidle hi)
  | stopFirst j id hi hs hid => exact hother (hidle hi)
  | remove j id hi hs => exact hother (hidle hi)
  | ask j config hp => exact hother (hnever hp rfl rfl rfl)
  | start j config hp => exact hother (hp.elim (hnever · rfl rfl rfl) (hnever · rfl rfl rfl))
  | denied j r config hp => exact hother (hp.elim (hnever · rfl rfl rfl) (hnever · rfl rfl rfl))
  | started j b id hp => exact hother (hnever hp rfl rfl rfl)
  | unstarted j r id hp => exact hother (hnever hp rfl rfl rfl)
  | stopping j b forgets hp => exact hself fun _ => .inl rfl
  | unstoppable j r forgets hp => exact hunstopped (k.emit .failed k.activeProfileId) j forgets rfl rfl
  | removed j r id stop complaint hp hc => exact hself fun _ => .inr rfl
  | status stage =>
    unfold onPlatformStatus
    split
    · exact ha
    · rcases ha with h | h | ⟨h, hsettled⟩
      · exact .inl h
      · exact .inr (.inl h)
      · refine .inr (.inr ⟨h, ?_⟩)
        have hmem : i ∉ k.settlers := fun hmem => by
          rw [hw.pending i hmem] at hsettled
          nomatch hsettled
        exact (if_neg hmem).trans hsettled
  | up j id stage hp hs' => exact hother (hnever hp rfl rfl rfl)
  | down j forgets stage hp hs' hf =>
    -- The status a stop goes on with is neither a failure nor, where the platform was sincere, a `connected`.
    have hstage : stage = .disconnected := by
      have hhonest := hw.honest j (by rw [hp]; rfl)
      have hterminal := hw.terminal j
      rw [hs'] at hhonest hterminal
      cases stage with
      | disconnected => rfl
      | connecting => exact absurd rfl hterminal
      | connected => exact absurd rfl hhonest
      | failed => exact absurd rfl hf
    subst hstage
    have hdone : ∀ phase : Phase π κ, phase.hasStopped → Asked (Function.update k.phases j phase) k.settled i := by
      intro phase hphase
      by_cases hji : i = j
      · subst hji
        rw [Asked, Function.update_self]
        exact .inr (.inr ⟨hphase, hs'⟩)
      · rw [Asked, Function.update_of_ne hji]
        exact ha
    cases forgets <;> exact hdone _ rfl
  | failed j forgets hp hs' => exact hunstopped k j forgets rfl rfl
  | upLate j id hp => exact hother (hnever hp rfl rfl rfl)
  | downLate j forgets hp => exact hunstopped (k.emit .failed k.activeProfileId) j forgets rfl rfl

/-- The call asks the platform to stop: a `disconnect` while the status is not disconnected, or a `forgetProfile` that stops the
tunnel first. -/
def Asks (k : Controller ι π κ) (i : ι) : Input ι π κ → Prop
  | .disconnect j => j = i ∧ k.status.stage ≠ .disconnected
  | .forgetProfile j id => j = i ∧ (∀ q ∈ k.status.profileId, q = id) ∧ (k.status.isUp ∨ k.status.isBusy)
  | _ => False

/-- Behind the call its stop waits, with an empty completer. -/
theorem asked_of_asks {input : Input ι π κ} (hw : Waits k.phases k.settled k.settlers) (ha : Asks k i input)
    (hstep : k.step input = some k') : (k'.phases i).isStop ∧ k'.settled i = none := by
  obtain ⟨n, hn, rfl⟩ := step_eq_some hstep
  have hstop : ∀ {j : ι} {forgets : Option π}, (k.phases j).isIdle → j = i →
      ((k.stop j forgets).1.phases i).isStop ∧ (k.stop j forgets).1.settled i = none := by
    rintro j forgets hidle rfl
    refine ⟨?_, (hw.fresh j (Phase.isFresh_of_isIdle hidle)).1⟩
    simp [stop, goto, nextSettled, Phase.isStop]
  cases move_of_next hn with
  | idle j hi hs => exact absurd hs ha.2
  | stop j hi hs => exact hstop hi ha.1
  | foreign j id hi hs hne =>
    obtain ⟨q, hq⟩ := Option.isSome_iff_exists.mp hs
    exact absurd (by rw [hq, ha.2.1 q hq]) hne
  | stopFirst j id hi hs hid => exact hstop hi ha.1
  | remove j id hi hs => exact absurd ha.2.2 hs
  | _ => exact ha.elim

omit [DecidableEq ι] [DecidableEq π] in
/-- At first no call waits. -/
theorem waits_init : Waits ({} : Controller ι π κ).phases ({} : Controller ι π κ).settled ({} : Controller ι π κ).settlers where
  fresh _ _ := ⟨rfl, List.not_mem_nil⟩
  pending := nofun
  honest := nofun
  terminal := nofun

/-- In every order of the calls and of what the platform says, in which no `connected` is delivered while a stop waits, a stop that
was asked for completes normally only behind a `disconnected`, and on it. -/
theorem disconnect_told {before after : List (Input ι π κ)} {call : Input ι π κ} {k k' : Controller ι π κ} {i : ι}
    (hbefore : run step {} before = some k) (hasks : Asks k i call) (hafter : run step k (call :: after) = some k')
    (hsincere : Along step Sincere {} (before ++ call :: after)) (hstopped : (k'.phases i).hasStopped) :
    .status .disconnected ∈ after ∧ k'.settled i = some .disconnected := by
  have hw : Waits k.phases k.settled k.settlers := run_invariant
    (I := fun k : Controller ι π κ => Waits k.phases k.settled k.settlers) (fun _ _ _ hw hs hstep => waits_step hw hs hstep)
    waits_init hsincere.of_append hbefore
  have hrest : Along step Sincere k (call :: after) := hsincere.behind hbefore
  obtain ⟨m, hm, hafter⟩ := run_cons.mp hafter
  have hw' := waits_step hw hrest.1 hm
  obtain ⟨hstop, hnone⟩ := asked_of_asks hw hasks hm
  -- A phase that has stopped is neither waiting nor over.
  have hdone : Asked k'.phases k'.settled i → k'.settled i = some .disconnected := by
    rintro (h | h | h)
    · rw [Phase.not_isStop_of_hasStopped hstopped] at h
      nomatch h
    · rw [Phase.not_isOver_of_hasStopped hstopped] at h
      nomatch h
    · exact h.2
  have hasked : Waits k'.phases k'.settled k'.settlers ∧ Asked k'.phases k'.settled i := run_invariant
    (I := fun k : Controller ι π κ => Waits k.phases k.settled k.settlers ∧ Asked k.phases k.settled i)
    (fun _ _ _ h hs hstep => ⟨waits_step h.1 hs hstep, asked_step h.1 h.2 hstep⟩) ⟨hw', .inl hstop⟩ (hrest.2 m hm) hafter
  refine ⟨?_, hdone hasked.2⟩
  by_contra hnever
  have hkept : k'.settled i ≠ some .disconnected := by
    have halong : Along step (fun _ input => input ≠ .status .disconnected) m after := Along.of_forall fun input hinput heq =>
      hnever (heq ▸ hinput)
    refine run_invariant (I := fun k : Controller ι π κ => k.settled i ≠ some .disconnected) (fun k input k' hk hne hstep => ?_)
      (by rw [hnone]; exact nofun) halong hafter
    obtain ⟨n, hn, rfl⟩ := step_eq_some hstep
    by_cases hstatus : ∃ stage, input = .status stage
    · obtain ⟨stage, rfl⟩ := hstatus
      cases move_of_next hn with
      | status stage =>
        unfold onPlatformStatus
        split
        · exact hk
        · rcases settled_settle (k.emit stage k.activeProfileId) stage i with h | h
          · exact fun hd => hne (by rw [Option.some_inj.mp (h.symm.trans hd)])
          · exact fun hd => hk (h.symm.trans hd)
    · rw [settled_next hn fun stage h => hstatus ⟨stage, h⟩]
      exact hk
  exact hkept (hdone hasked.2)

/-- A connect that comes up, and its disconnect. -/
def upAndDown : List (Input Bool Nat Nat) :=
  [.connect false ⟨0, true, some 7⟩, .reply false (.value true), .reply false (.value true), .status .connecting,
    .status .connected, .resume false]

omit [DecidableEq ι] [DecidableEq π] in
instance (k : Controller ι π κ) : (input : Input ι π κ) → Decidable (Sincere k input)
  | .status stage => inferInstanceAs (Decidable (stage = .connected → ∀ j ∈ k.settlers, (k.phases j).isStop = false))
  | .connect .. | .disconnect _ | .forgetProfile .. | .reply .. | .resume _ | .timeout _ => isTrue trivial

/-- The tunnel is up, is asked to stop, and says so. -/
theorem disconnect_told_down : ∃ k, run step {} (upAndDown ++
    [.disconnect true, .reply true (.value true), .status .disconnected, .resume true]) = some k ∧
      (k.phases true).hasStopped ∧ k.settled true = some .disconnected := by
  have hsincere : Along step Sincere ({} : Controller Bool Nat Nat) (upAndDown ++
      [.disconnect true, .reply true (.value true), .status .disconnected, .resume true]) := by decide
  have hasks : Asks ((run step ({} : Controller Bool Nat Nat) upAndDown).get (by rfl)) true (.disconnect true) :=
    ⟨rfl, by decide⟩
  exact ⟨_, rfl, rfl, (disconnect_told (by rfl) hasks rfl hsincere rfl).2⟩

/-- A start is under way when the disconnect is made; the start comes up, and the disconnect says that the tunnel is down. -/
theorem disconnect_lies : ¬ ∀ (before after : List (Input Bool Nat Nat)) (call : Input Bool Nat Nat)
    (k k' : Controller Bool Nat Nat) (i : Bool), run step {} before = some k → Asks k i call →
      run step k (call :: after) = some k' → (k'.phases i).hasStopped → .status .disconnected ∈ after := by
  intro htold
  have hmem := htold [.connect false ⟨0, true, some 7⟩, .reply false (.value true), .reply false (.value true)]
    [.reply true (.value true), .status .connected, .resume true] (.disconnect true) _ _ true rfl ⟨rfl, nofun⟩ rfl rfl
  exact absurd hmem (by decide)

end Controller

end Tunnel

end VpnStack

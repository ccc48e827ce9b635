import VpnStack.Theorems.Disconnect

/-!
# When a connect may say so

A connect registers its waiter with the start it sends, and completes normally only when it is handed `connected`. All calls wait on
one list, so what it is handed may be about another start; but it is always the first settled status that was delivered behind its
own, whatever else is called meanwhile, and whatever the platform replies and sends. The start it sends is the configuration of its
own profile. Nobody who waits is left out of the list, and who waits goes on with the first settled status there is for it.
-/

namespace VpnStack

open Transition

namespace Tunnel

namespace Phase

variable {π κ : Type}

/-- It is in a `connect`, or over. -/
def isConnect : Phase π κ → Bool
  | preparing _ | asking _ | starting _ | connecting _ | connected | threw => true
  | _ => false

/-- Its start was sent, and it has not thrown. -/
def isLaunched : Phase π κ → Bool
  | starting _ | connecting _ | connected => true
  | _ => false

/-- It has registered, and has not gone on with a status. -/
def isRegistered : Phase π κ → Bool
  | starting _ | connecting _ | stopping _ | disconnecting _ => true
  | _ => false

/-- It waits for a settled status. -/
def isWaiting : Phase π κ → Bool
  | connecting _ | disconnecting _ => true
  | _ => false

theorem isRegistered_of_isWaiting {phase : Phase π κ} (h : phase.isWaiting) : phase.isRegistered := by
  cases phase <;> first | rfl | cases h

theorem not_isConnect_of_isIdle {phase : Phase π κ} (h : phase.isIdle) : phase.isConnect = false := by
  cases phase <;> first | rfl | nomatch h

end Phase

/-- The call that an input makes, or goes on with. -/
def Input.caller {ι π κ : Type} : Input ι π κ → Option ι
  | .connect i _ | .disconnect i | .forgetProfile i _ | .reply i _ | .resume i | .timeout i => some i
  | .status _ => none

namespace Controller

variable {ι π κ : Type} [DecidableEq ι] [DecidableEq π] {k k' : Controller ι π κ} {i j : ι} {input : Input ι π κ}

/-! ## What an input does to a call -/

omit [DecidableEq ι] [DecidableEq π] in
/-- An input that a call makes is no status. -/
theorem not_status_of_caller (hj : input.caller = some j) (stage : Stage) : input ≠ .status stage := by
  rintro rfl
  cases hj

omit [DecidableEq π] in
/-- A status alone moves no call. -/
theorem phases_onPlatformStatus (k : Controller ι π κ) (stage : Stage) : (k.onPlatformStatus stage).phases = k.phases := by
  unfold onPlatformStatus
  split <;> rfl

omit [DecidableEq π] in
/-- A settled status is handed to everyone on the list. -/
theorem settled_onPlatformStatus (k : Controller ι π κ) {stage : Stage} (hstage : stage ≠ .connecting) (i : ι) :
    (k.onPlatformStatus stage).settled i = if i ∈ k.settlers then some stage else k.settled i := by
  rw [onPlatformStatus, if_neg hstage]
  rfl

omit [DecidableEq ι] [DecidableEq π] in
/-- Who asks, or waits for the answer, has not registered. -/
theorem isFresh_of_pending {phase : Phase π κ} {config : Config π κ} (h : phase = .preparing config ∨ phase = .asking config) :
    phase.isFresh := by
  rcases h with rfl | rfl <;> rfl

/-- How a call goes on: it is in no idle phase behind it and leaves all others where they are, it registers once at most, and behind
that it is not fresh again. -/
structure Shift (k k' : Controller ι π κ) (j : ι) (phase : Phase π κ) : Prop where
  busy : phase.isIdle = false
  fresh : phase.isFresh → (k.phases j).isFresh
  phases : k'.phases = Function.update k.phases j phase
  settlers : k'.settlers = k.settlers ∨ k'.settlers = k.settlers ++ [j] ∧ (k.phases j).isFresh ∧ phase.isFresh = false

/-- An input of a call is a shift of that call. -/
theorem shift_of_next {n : Next ι π κ} (h : k.next input = some n) (hj : input.caller = some j) :
    ∃ phase, Shift k n.1 j phase := by
  have hover : ∀ {k' : Controller ι π κ} {i : ι} {phase : Phase π κ}, some i = some j → phase.isFresh = false → phase.isIdle = false →
      k'.phases = Function.update k.phases i phase → k'.settlers = k.settlers → ∃ phase, Shift k k' j phase := by
    intro k' i phase hi hfresh hidle hphases hsettlers
    cases hi
    exact ⟨phase, hidle, fun h => absurd (hfresh.symm.trans h) Bool.false_ne_true, hphases, .inl hsettlers⟩
  have hjoin : ∀ {k' : Controller ι π κ} {i : ι} {phase : Phase π κ}, some i = some j → (k.phases i).isFresh → phase.isFresh = false →
      phase.isIdle = false → k'.phases = Function.update k.phases i phase → k'.settlers = k.settlers ++ [i] →
      ∃ phase, Shift k k' j phase := by
    intro k' i phase hi hk hfresh hidle hphases hsettlers
    cases hi
    exact ⟨phase, hidle, fun h => absurd (hfresh.symm.trans h) Bool.false_ne_true, hphases, .inr ⟨hsettlers, hk, hfresh⟩⟩
  cases move_of_next h with
  | status stage => cases hj
  | prepare i profile text hi hb =>
    cases hj
    exact ⟨_, rfl, fun _ => Phase.isFresh_of_isIdle hi, rfl, .inl rfl⟩
  | ask i config hp =>
    cases hj
    exact ⟨_, rfl, fun _ => by rw [hp]; rfl, rfl, .inl rfl⟩
  | stop i hi hs => exact hjoin hj (Phase.isFresh_of_isIdle hi) rfl rfl rfl rfl
  | stopFirst i id hi hs hid => exact hjoin hj (Phase.isFresh_of_isIdle hi) rfl rfl rfl rfl
  | start i config hp => exact hjoin hj (isFresh_of_pending hp) rfl rfl rfl rfl
  | unstoppable i r forgets hp => cases forgets <;> exact hover hj rfl rfl rfl rfl
  | down i forgets stage hp hs hf => cases forgets <;> exact hover hj rfl rfl rfl rfl
  | failed i forgets hp hs => cases forgets <;> exact hover hj rfl rfl rfl rfl
  | downLate i forgets hp => cases forgets <;> exact hover hj rfl rfl rfl rfl
  | up i id stage hp hs =>
    have hend : ∀ f : Phase π κ → Bool, f .connected = false → f .threw = false →
        f (if stage = .connected then .connected else .threw) = false := fun f hup hthrew => by
      split
      · exact hup
      · exact hthrew
    exact hover hj (hend Phase.isFresh rfl rfl) (hend Phase.isIdle rfl rfl) rfl rfl
  | _ => exact hover hj rfl rfl rfl rfl

/-- The input hands the call nothing, and is no settled status. -/
structure Holds (k k' : Controller ι π κ) (i : ι) (input : Input ι π κ) : Prop where
  settled : k'.settled i = k.settled i
  quiet : ∀ stage, input = .status stage → stage = .connecting

/-- What an input does to a call that connects. -/
inductive Course (k k' : Controller ι π κ) (i : ι) (input : Input ι π κ) : Prop where
  /-- It stays where it is. -/
  | waits (hphase : k'.phases i = k.phases i) (hmem : i ∈ k'.settlers ↔ i ∈ k.settlers) (holds : Holds k k' i input)
  /-- It asks for the permission. -/
  | asks (config : Config π κ) (hphase : k.phases i = .preparing config) (hphase' : k'.phases i = .asking config)
      (hmem : i ∈ k'.settlers ↔ i ∈ k.settlers) (holds : Holds k k' i input)
  /-- It registers, and sends the start. -/
  | starts (config : Config π κ) (hinput : input = .reply i (.value true))
      (hphase : k.phases i = .preparing config ∨ k.phases i = .asking config)
      (hsent : k.next (.reply i (.value true)) = some (k', some (i, .start config))) (hphase' : k'.phases i = .starting config.owner)
      (hmem : i ∈ k'.settlers) (holds : Holds k k' i input)
  /-- The start was taken. -/
  | started (id : π) (hphase : k.phases i = .starting id) (hphase' : k'.phases i = .connecting id)
      (hmem : i ∈ k'.settlers ↔ i ∈ k.settlers) (holds : Holds k k' i input)
  | throws (hphase : k'.phases i = .threw) (hmem : i ∈ k'.settlers ↔ i ∈ k.settlers) (holds : Holds k k' i input)
  /-- It completes normally. -/
  | up (id : π) (hphase : k.phases i = .connecting id) (hsettled : k.settled i = some .connected)
      (hphase' : k'.phases i = .connected) (hmem : i ∈ k'.settlers ↔ i ∈ k.settlers) (holds : Holds k k' i input)
  /-- A settled status is delivered. -/
  | settles (stage : Stage) (hinput : input = .status stage) (hstage : stage ≠ .connecting) (hphase : k'.phases i = k.phases i)
      (hmem : i ∉ k'.settlers) (hsettled : k'.settled i = if i ∈ k.settlers then some stage else k.settled i)

/-- A status completes who waits, if it is a settled one. -/
theorem course_of_status (stage : Stage) : Course k (k.onPlatformStatus stage) i (.status stage) := by
  unfold onPlatformStatus
  split
  · rename_i hstage
    exact .waits rfl Iff.rfl ⟨rfl, fun s h => by cases h; exact hstage⟩
  · rename_i hstage
    exact .settles stage rfl hstage rfl List.not_mem_nil rfl

/-- Another call goes on. -/
theorem course_of_other (hstep : k.step input = some k') (hj : input.caller = some j) (hij : i ≠ j) : Course k k' i input := by
  obtain ⟨n, hn, rfl⟩ := step_eq_some hstep
  obtain ⟨phase, hshift⟩ := shift_of_next hn hj
  have hinput := not_status_of_caller hj
  refine .waits ?_ ?_ ⟨by rw [settled_next hn hinput], fun stage h => absurd h (hinput stage)⟩
  · rw [hshift.phases, Function.update_of_ne hij]
  · rcases hshift.settlers with h | ⟨h, -⟩ <;> simp [h, hij]

/-- Every step takes a connect along its course. -/
theorem course_of_step (hc : (k.phases i).isConnect) (hstep : k.step input = some k') : Course k k' i input := by
  cases hcaller : input.caller with
  | none =>
    cases input with
    | status stage => exact Option.some_inj.mp hstep ▸ course_of_status stage
    | _ => nomatch hcaller
  | some j =>
    by_cases hij : i = j
    · subst hij
      obtain ⟨n, hn, rfl⟩ := step_eq_some hstep
      -- a call that is not in a `connect` is another one
      have hidle : (k.phases i).isIdle → Course k n.1 i input := fun hi => by
        rw [Phase.not_isConnect_of_isIdle hi] at hc
        nomatch hc
      have hnot : ∀ {phase : Phase π κ}, k.phases i = phase → phase.isConnect = false → Course k n.1 i input := fun hp h => by
        rw [hp, h] at hc
        nomatch hc
      have hphase : ∀ phase : Phase π κ, Function.update k.phases i phase i = phase := fun phase => Function.update_self ..
      cases move_of_next hn with
      | status stage => nomatch hcaller
      | refuse j profile hi _ => cases hcaller; exact hidle hi
      | unbuilt j profile hi => cases hcaller; exact hidle hi
      | prepare j profile text hi _ => cases hcaller; exact hidle hi
      | idle j hi _ => cases hcaller; exact hidle hi
      | stop j hi _ => cases hcaller; exact hidle hi
      | foreign j id hi _ _ => cases hcaller; exact hidle hi
      | stopFirst j id hi _ _ => cases hcaller; exact hidle hi
      | remove j id hi _ => cases hcaller; exact hidle hi
      | stopping j b forgets hp => cases hcaller; exact hnot hp rfl
      | unstoppable j r forgets hp => cases hcaller; exact hnot hp rfl
      | removed j r id stop complaint hp _ => cases hcaller; exact hnot hp rfl
      | down j forgets stage hp _ _ => cases hcaller; exact hnot hp rfl
      | failed j forgets hp _ => cases hcaller; exact hnot hp rfl
      | downLate j forgets hp => cases hcaller; exact hnot hp rfl
      | ask j config hp =>
        cases hcaller
        exact .asks config hp (hphase _) Iff.rfl ⟨rfl, nofun⟩
      | start j config hp =>
        cases hcaller
        exact .starts config rfl hp hn (hphase _) (List.mem_append_right _ (List.mem_singleton_self i)) ⟨rfl, nofun⟩
      | denied j r config hp => cases hcaller; exact .throws (hphase _) Iff.rfl ⟨rfl, nofun⟩
      | started j b id hp => cases hcaller; exact .started id hp (hphase _) Iff.rfl ⟨rfl, nofun⟩
      | unstarted j r id hp => cases hcaller; exact .throws (hphase _) Iff.rfl ⟨rfl, nofun⟩
      | up j id stage hp hs =>
        cases hcaller
        dsimp only [quiet]
        split
        · rename_i hstage
          exact .up id hp (hstage ▸ hs) (hphase _) Iff.rfl ⟨rfl, nofun⟩
        · exact .throws (hphase _) Iff.rfl ⟨rfl, nofun⟩
      | upLate j id hp => cases hcaller; exact .throws (hphase _) Iff.rfl ⟨rfl, nofun⟩
    · exact course_of_other hstep hcaller hij

/-- A connect stays a connect along its course. -/
theorem Course.isConnect (h : Course k k' i input) (hc : (k.phases i).isConnect) : (k'.phases i).isConnect := by
  cases h with
  | waits hphase hmem holds => rwa [hphase]
  | asks config hphase hphase' hmem holds => rw [hphase']; rfl
  | starts config hinput hphase hsent hphase' hmem holds => rw [hphase']; rfl
  | started id hphase hphase' hmem holds => rw [hphase']; rfl
  | throws hphase hmem holds => rw [hphase]; rfl
  | up id hphase hsettled hphase' hmem holds => rw [hphase']; rfl
  | settles stage hinput hstage hphase hmem hsettled => rwa [hphase]

/-! ## The list -/

/-- Who is on the list has been handed nothing, and who has not registered is not on it and has been handed nothing either. -/
structure Apart (k : Controller ι π κ) (i : ι) : Prop where
  fresh : (k.phases i).isFresh → k.settled i = none ∧ i ∉ k.settlers
  pending : i ∈ k.settlers → k.settled i = none

/-- The step lemma of one waiter. -/
theorem apart_step (h : Apart k i) (hstep : k.step input = some k') : Apart k' i := by
  obtain ⟨n, hn, rfl⟩ := step_eq_some hstep
  cases hcaller : input.caller with
  | none =>
    cases input with
    | status stage =>
      obtain rfl := Option.some_inj.mp hn
      by_cases hstage : stage = .connecting
      · rw [quiet, onPlatformStatus, if_pos hstage]
        exact ⟨h.fresh, h.pending⟩
      · refine ⟨fun hfresh => ?_, fun hmem => ?_⟩
        · rw [quiet, phases_onPlatformStatus] at hfresh
          obtain ⟨hsettled, hnot⟩ := h.fresh hfresh
          rw [quiet, settled_onPlatformStatus k hstage, if_neg hnot, onPlatformStatus, if_neg hstage]
          exact ⟨hsettled, List.not_mem_nil⟩
        · rw [quiet, onPlatformStatus, if_neg hstage] at hmem
          exact absurd hmem List.not_mem_nil
    | _ => cases hcaller
  | some j =>
    obtain ⟨phase, hshift⟩ := shift_of_next hn hcaller
    have hsettled := settled_next hn (not_status_of_caller hcaller)
    refine ⟨fun hfresh => ?_, fun hmem => ?_⟩
    · by_cases hij : i = j
      · subst hij
        rw [hshift.phases, Function.update_self] at hfresh
        rcases hshift.settlers with hs | ⟨-, -, hphase⟩
        · rw [hsettled, hs]
          exact h.fresh (hshift.fresh hfresh)
        · rw [hphase] at hfresh
          cases hfresh
      · rw [hshift.phases, Function.update_of_ne hij] at hfresh
        obtain ⟨hnone, hnot⟩ := h.fresh hfresh
        refine ⟨by rw [hsettled, hnone], ?_⟩
        rcases hshift.settlers with hs | ⟨hs, -⟩ <;> simp [hs, hnot, hij]
    · rw [hsettled]
      rcases hshift.settlers with hs | ⟨hs, hfresh, -⟩
      · exact h.pending (hs ▸ hmem)
      · by_cases hij : i = j
        · subst hij
          exact (h.fresh hfresh).1
        · exact h.pending (by simpa [hs, hij] using hmem)

omit [DecidableEq ι] [DecidableEq π] in
theorem apart_init : Apart ({} : Controller ι π κ) i := ⟨fun _ => ⟨rfl, List.not_mem_nil⟩, fun hmem => absurd hmem List.not_mem_nil⟩

/-! ## One connect -/

/-- Nothing settled was delivered. -/
def Unsettled (inputs : List (Input ι π κ)) : Prop := ∀ stage, .status stage ∈ inputs → stage = .connecting

omit [DecidableEq ι] [DecidableEq π] in
/-- A status of connecting settles nothing. -/
theorem Unsettled.concat {inputs : List (Input ι π κ)} (h : Unsettled inputs)
    (hinput : ∀ stage, input = .status stage → stage = .connecting) : Unsettled (inputs ++ [input]) := by
  intro stage hmem
  rcases List.mem_append.mp hmem with hmem | hmem
  · exact h stage hmem
  · exact hinput stage (List.mem_singleton.mp hmem).symm

/-- The configuration is the one that was built for the profile. -/
structure Built (profile : Profile π κ) (config : Config π κ) : Prop where
  owner : config.owner = profile.id
  text : profile.built = some config.text

/-- Behind the inputs, the reply that allows it makes the call send the configuration of its profile. -/
def Sends (made : Controller ι π κ) (i : ι) (profile : Profile π κ) (asked : List (Input ι π κ)) : Prop :=
  ∃ config m m', Built profile config ∧ run step made asked = some m ∧
    m.next (.reply i (.value true)) = some (m', some (i, .start config))

/-- Where a call that connects is, by what happened since it was made: it has not registered; or it has sent its start, with the
reply that allowed it, and nothing settled was delivered since; or it was handed the first settled status behind that reply. -/
inductive Heard (made k : Controller ι π κ) (i : ι) (profile : Profile π κ) (history : List (Input ι π κ)) : Prop where
  | unregistered (hrun : run step made history = some k) (hphase : (k.phases i).isLaunched = false)
      (hbuilt : ∀ config, k.phases i = .preparing config ∨ k.phases i = .asking config → Built profile config)
      (hsettled : k.settled i = none) (hmem : i ∉ k.settlers)
  | waiting (asked pending : List (Input ι π κ)) (hhistory : history = asked ++ .reply i (.value true) :: pending)
      (hsends : Sends made i profile asked) (hpending : Unsettled pending) (hfresh : (k.phases i).isFresh = false)
      (hphase : k.phases i ≠ .connected) (hsettled : k.settled i = none) (hmem : i ∈ k.settlers)
  | handed (asked pending rest : List (Input ι π κ)) (stage : Stage)
      (hhistory : history = asked ++ .reply i (.value true) :: (pending ++ .status stage :: rest))
      (hsends : Sends made i profile asked) (hpending : Unsettled pending) (hfresh : (k.phases i).isFresh = false)
      (hphase : k.phases i = .connected → stage = .connected) (hsettled : k.settled i = some stage) (hmem : i ∉ k.settlers)

omit [DecidableEq ι] [DecidableEq π] in
/-- A call that is over has no configuration any more. -/
theorem built_of_threw {profile : Profile π κ} {phase : Phase π κ} (h : phase = .threw) (config : Config π κ)
    (hconfig : phase = .preparing config ∨ phase = .asking config) : Built profile config := by
  subst h
  rcases hconfig with h | h <;> cases h

/-- The step lemma of one connect. -/
theorem heard_step {made : Controller ι π κ} {profile : Profile π κ} {history : List (Input ι π κ)} (h : Heard made k i profile history)
    (hstep : k.step input = some k') (hcourse : Course k k' i input) : Heard made k' i profile (history ++ [input]) := by
  cases h with
  | unregistered hrun hphase hbuilt hsettled hmem =>
    have hlonger : run step made (history ++ [input]) = some k' := run_append.mpr ⟨k, hrun, run_cons.mpr ⟨k', hstep, rfl⟩⟩
    cases hcourse with
    | waits hphase' hmem' holds =>
      refine .unregistered hlonger (hphase' ▸ hphase) ?_ (holds.settled.trans hsettled) fun hin => hmem (hmem'.mp hin)
      rw [hphase']
      exact hbuilt
    | asks config hphase' hphase'' hmem' holds =>
      refine .unregistered hlonger (by rw [hphase'']; rfl) ?_ (holds.settled.trans hsettled) fun hin => hmem (hmem'.mp hin)
      intro config' hconfig'
      rw [hphase''] at hconfig'
      rcases hconfig' with h | h
      · cases h
      · cases h
        exact hbuilt config (.inl hphase')
    | starts config hinput hphase' hsent hphase'' hmem' holds =>
      subst hinput
      exact .waiting history [] rfl ⟨config, k, k', hbuilt config hphase', hrun, hsent⟩ nofun (by rw [hphase'']; rfl)
        (by rw [hphase'']; exact nofun) (holds.settled.trans hsettled) hmem'
    | started id hphase' hphase'' hmem' holds =>
      rw [hphase'] at hphase
      nomatch hphase
    | throws hphase' hmem' holds =>
      exact .unregistered hlonger (by rw [hphase']; rfl) (built_of_threw hphase') (holds.settled.trans hsettled)
        fun hin => hmem (hmem'.mp hin)
    | up id hphase' hsettled' hphase'' hmem' holds =>
      rw [hphase'] at hphase
      nomatch hphase
    | settles stage hinput hstage hphase' hmem' hsettled' =>
      refine .unregistered hlonger (hphase' ▸ hphase) ?_ (hsettled'.trans ((if_neg hmem).trans hsettled)) hmem'
      rw [hphase']
      exact hbuilt
  | waiting asked pending hhistory hsends hpending hfresh hphase hsettled hmem =>
    have hlonger : history ++ [input] = asked ++ .reply i (.value true) :: (pending ++ [input]) := by
      rw [hhistory, List.append_assoc, List.cons_append]
    -- it waits on, whatever phase it is in
    have hon : (k'.phases i).isFresh = false → k'.phases i ≠ .connected → (i ∈ k'.settlers ↔ i ∈ k.settlers) → Holds k k' i input →
        Heard made k' i profile (history ++ [input]) := fun hfresh' hphase' hmem' holds =>
      .waiting asked (pending ++ [input]) hlonger hsends (hpending.concat holds.quiet) hfresh' hphase' (holds.settled.trans hsettled)
        (hmem'.mpr hmem)
    cases hcourse with
    | waits hphase' hmem' holds => exact hon (hphase' ▸ hfresh) (hphase' ▸ hphase) hmem' holds
    | asks config hphase' =>
      rw [hphase'] at hfresh
      nomatch hfresh
    | starts config hinput hphase' =>
      rw [isFresh_of_pending hphase'] at hfresh
      nomatch hfresh
    | started id hphase' hphase'' hmem' holds => exact hon (by rw [hphase'']; rfl) (by rw [hphase'']; exact nofun) hmem' holds
    | throws hphase' hmem' holds => exact hon (by rw [hphase']; rfl) (by rw [hphase']; exact nofun) hmem' holds
    | up id hphase' hsettled' =>
      rw [hsettled] at hsettled'
      nomatch hsettled'
    | settles stage hinput hstage hphase' hmem' hsettled' =>
      subst hinput
      exact .handed asked pending [] stage hlonger hsends hpending (hphase' ▸ hfresh) (fun hup => absurd (hphase' ▸ hup) hphase)
        (hsettled'.trans (if_pos hmem)) hmem'
  | handed asked pending rest stage hhistory hsends hpending hfresh hphase hsettled hmem =>
    have hlonger : history ++ [input] = asked ++ .reply i (.value true) :: (pending ++ .status stage :: (rest ++ [input])) := by
      rw [hhistory, List.append_assoc, List.cons_append, List.append_assoc, List.cons_append]
    -- it holds what it was handed
    have hon : (k'.phases i).isFresh = false → (k'.phases i = .connected → stage = .connected) → k'.settled i = k.settled i →
        i ∉ k'.settlers → Heard made k' i profile (history ++ [input]) := fun hfresh' hphase' hsettled' hmem' =>
      .handed asked pending (rest ++ [input]) stage hlonger hsends hpending hfresh' hphase' (hsettled'.trans hsettled) hmem'
    cases hcourse with
    | waits hphase' hmem' holds =>
      exact hon (hphase' ▸ hfresh) (fun hup => hphase (hphase' ▸ hup)) holds.settled fun hin => hmem (hmem'.mp hin)
    | asks config hphase' =>
      rw [hphase'] at hfresh
      nomatch hfresh
    | starts config hinput hphase' =>
      rw [isFresh_of_pending hphase'] at hfresh
      nomatch hfresh
    | started id hphase' hphase'' hmem' holds =>
      exact hon (by rw [hphase'']; rfl) (by rw [hphase'']; exact nofun) holds.settled fun hin => hmem (hmem'.mp hin)
    | throws hphase' hmem' holds =>
      exact hon (by rw [hphase']; rfl) (by rw [hphase']; exact nofun) holds.settled fun hin => hmem (hmem'.mp hin)
    | up id hphase' hsettled' hphase'' hmem' holds =>
      exact hon (by rw [hphase'']; rfl) (fun _ => Option.some_inj.mp (hsettled.symm.trans hsettled')) holds.settled
        fun hin => hmem (hmem'.mp hin)
    | settles stage' hinput hstage hphase' hmem' hsettled' =>
      exact hon (hphase' ▸ hfresh) (fun hup => hphase (hphase' ▸ hup)) (hsettled'.trans (if_neg hmem)) hmem'

/-- The run lemma. -/
theorem heard_run {made : Controller ι π κ} {profile : Profile π κ} {history after : List (Input ι π κ)} (hc : (k.phases i).isConnect)
    (h : Heard made k i profile history) (hrun : run step k after = some k') : Heard made k' i profile (history ++ after) := by
  induction after generalizing k history with
  | nil =>
    rw [List.append_nil]
    exact Option.some_inj.mp hrun ▸ h
  | cons input after ih =>
    obtain ⟨m, hm, hrun⟩ := run_cons.mp hrun
    have hcourse := course_of_step hc hm
    have hrest := ih (hcourse.isConnect hc) (heard_step h hm hcourse) hrun
    rwa [List.append_assoc, List.singleton_append] at hrest

/-- Behind its first await a call that connects has not registered. -/
theorem heard_of_connect {profile : Profile π κ} (hk : Apart k i) (hstep : k.step (.connect i profile) = some k') :
    (k'.phases i).isConnect ∧ Heard k' k' i profile [] := by
  obtain ⟨n, hn, rfl⟩ := step_eq_some hstep
  have hmade : ∀ (k₁ : Controller ι π κ) (phase : Phase π κ), (k.phases i).isIdle → phase.isConnect → phase.isLaunched = false →
      (∀ config, phase = .preparing config ∨ phase = .asking config → Built profile config) →
      k₁.phases = Function.update k.phases i phase → k₁.settled = k.settled → k₁.settlers = k.settlers →
      (k₁.phases i).isConnect ∧ Heard k₁ k₁ i profile [] := by
    intro k₁ phase hi hconnect hlaunched hbuilt hphases hsettled hsettlers
    obtain ⟨hnone, hnot⟩ := hk.fresh (Phase.isFresh_of_isIdle hi)
    have hphase : k₁.phases i = phase := by rw [hphases, Function.update_self]
    refine ⟨by rw [hphase]; exact hconnect, .unregistered rfl (by rw [hphase]; exact hlaunched) ?_ ?_ ?_⟩
    · rw [hphase]
      exact hbuilt
    · rw [hsettled, hnone]
    · rw [hsettlers]
      exact hnot
  cases move_of_next hn with
  | refuse j profile hi hb => exact hmade _ .threw hi rfl rfl (built_of_threw rfl) rfl rfl rfl
  | unbuilt j profile hi => exact hmade _ .threw hi rfl rfl (built_of_threw rfl) rfl rfl rfl
  | prepare j profile text hi hb =>
    refine hmade _ (.preparing ⟨profile.id, text⟩) hi rfl rfl (fun config hconfig => ?_) rfl rfl rfl
    rcases hconfig with h | h
    · cases h
      exact ⟨rfl, hb⟩
    · cases h

/-- In every order of the calls and of what the platform says, a connect that completes normally has sent the configuration built
for its profile, on the reply that allowed it, and the first settled status delivered behind that reply was `connected`. -/
theorem connect_told {before after : List (Input ι π κ)} {profile : Profile π κ} {k k' : Controller ι π κ} {i : ι}
    (hbefore : run step {} before = some k) (hafter : run step k (.connect i profile :: after) = some k')
    (hup : k'.phases i = .connected) :
    ∃ text asked pending rest m m', profile.built = some text ∧
      after = asked ++ .reply i (.value true) :: (pending ++ .status .connected :: rest) ∧
      run step k (.connect i profile :: asked) = some m ∧
      m.next (.reply i (.value true)) = some (m', some (i, .start ⟨profile.id, text⟩)) ∧
      ∀ stage, .status stage ∈ pending → stage = .connecting := by
  have hk : Apart k i := run_always (I := fun k : Controller ι π κ => Apart k i) (fun _ _ _ h hstep => apart_step h hstep) apart_init
    hbefore
  obtain ⟨made, hmade, hafter⟩ := run_cons.mp hafter
  obtain ⟨hconnect, hheard⟩ := heard_of_connect hk hmade
  cases heard_run hconnect hheard hafter with
  | unregistered hrun hphase hbuilt hsettled hmem =>
    rw [hup] at hphase
    nomatch hphase
  | waiting asked pending hhistory hsends hpending hfresh hphase hsettled hmem => exact absurd hup hphase
  | handed asked pending rest stage hhistory hsends hpending hfresh hphase hsettled hmem =>
    obtain ⟨⟨owner, text⟩, m, m', ⟨rfl, htext⟩, hasked, hsent⟩ := hsends
    exact ⟨text, asked, pending, rest, m, m', htext, hphase hup ▸ hhistory, run_cons.mpr ⟨made, hmade, hasked⟩, hsent, hpending⟩

/-- A connect that comes up: its start goes out with the configuration of its profile. -/
theorem connect_told_up : ∃ text asked pending rest m m', some 7 = some text ∧
    upAndDown.tail = asked ++ .reply false (.value true) :: (pending ++ .status .connected :: rest) ∧
    run step ({} : Controller Bool Nat Nat) (.connect false ⟨0, true, some 7⟩ :: asked) = some m ∧
    m.next (.reply false (.value true)) = some (m', some (false, .start ⟨0, text⟩)) ∧
    ∀ stage, .status stage ∈ pending → stage = .connecting :=
  connect_told (show run step ({} : Controller Bool Nat Nat) [] = some {} from rfl)
    (show run step {} (.connect false ⟨0, true, some 7⟩ :: upAndDown.tail) = some _ from rfl) rfl

/-! ## Nobody is left waiting -/

/-- Who has registered is on the list, or was handed a status. -/
def Registered (phases : ι → Phase π κ) (settled : ι → Option Stage) (settlers : List ι) : Prop :=
  ∀ j, (phases j).isRegistered → j ∈ settlers ∨ (settled j).isSome

omit [DecidableEq π] in
/-- Behind a settled status everyone who has registered was handed one. -/
theorem handed_of_registered (h : Registered k.phases k.settled k.settlers) {stage : Stage} (hstage : stage ≠ .connecting)
    (hi : (k.phases i).isRegistered) : ((k.onPlatformStatus stage).settled i).isSome := by
  rw [settled_onPlatformStatus k hstage]
  split
  · rfl
  · rename_i hmem
    exact (h i hi).resolve_left hmem

/-- The step lemma of all waiters. -/
theorem registered_step (h : Registered k.phases k.settled k.settlers) (hstep : k.step input = some k') :
    Registered k'.phases k'.settled k'.settlers := by
  obtain ⟨n, hn, rfl⟩ := step_eq_some hstep
  have hgoto : ∀ {i : ι} {phase : Phase π κ}, (phase.isRegistered → (k.phases i).isRegistered) →
      Registered (Function.update k.phases i phase) k.settled k.settlers := by
    intro i phase hphase j hj
    by_cases hji : j = i
    · subst hji
      rw [Function.update_self] at hj
      exact h j (hphase hj)
    · rw [Function.update_of_ne hji] at hj
      exact h j hj
  have hjoin : ∀ {i : ι} {phase : Phase π κ}, Registered (Function.update k.phases i phase) k.settled (k.settlers ++ [i]) := by
    intro i phase j hj
    by_cases hji : j = i
    · exact .inl (List.mem_append_right _ (List.mem_singleton.mpr hji))
    · rw [Function.update_of_ne hji] at hj
      exact (h j hj).imp_left (List.mem_append_left _)
  have hover : ∀ {i : ι} {phase : Phase π κ}, phase.isRegistered = false →
      Registered (Function.update k.phases i phase) k.settled k.settlers := fun hphase => hgoto fun h => by
    rw [hphase] at h
    cases h
  cases move_of_next hn with
  | stop i hi hs => exact hjoin
  | stopFirst i id hi hs hid => exact hjoin
  | start i config hp => exact hjoin
  | started i b id hp => exact hgoto fun _ => by rw [hp]; rfl
  | stopping i b forgets hp => exact hgoto fun _ => by rw [hp]; rfl
  | unstoppable i r forgets hp => cases forgets <;> exact hover rfl
  | status stage =>
    by_cases hstage : stage = .connecting
    · rw [quiet, onPlatformStatus, if_pos hstage]
      exact h
    · intro j hj
      rw [quiet, phases_onPlatformStatus] at hj
      exact .inr (handed_of_registered h hstage hj)
  | up i id stage hp hs =>
    refine hover ?_
    split <;> rfl
  | down i forgets stage hp hs hf => cases forgets <;> exact hover rfl
  | failed i forgets hp hs => cases forgets <;> exact hover rfl
  | downLate i forgets hp => cases forgets <;> exact hover rfl
  | _ => exact hover rfl

omit [DecidableEq ι] [DecidableEq π] in
theorem registered_init : Registered ({} : Controller ι π κ).phases ({} : Controller ι π κ).settled
    ({} : Controller ι π κ).settlers := fun _ hj => absurd hj Bool.false_ne_true

/-- Where a call that waits goes on, by the status it is handed. -/
def Phase.handed (told : Stage) : Phase π κ → Phase π κ
  | .connecting _ => if told = .connected then .connected else .threw
  | .disconnecting none => if told = .failed then .threw else .stopped
  | .disconnecting (some p) => .removing p (some (told ≠ .failed))
  | phase => phase

omit [DecidableEq π] in
/-- A call that waits, and was handed a status, goes on with it. -/
theorem resume_of_settled {told : Stage} (hi : (k.phases i).isWaiting) (htold : k.settled i = some told) :
    ∃ n, k.resume i = some n ∧ n.1.phases i = Phase.handed told (k.phases i) := by
  unfold resume
  rw [htold]
  cases hp : k.phases i with
  | connecting id => exact ⟨_, rfl, Function.update_self ..⟩
  | disconnecting forgets =>
    refine ⟨_, rfl, ?_⟩
    by_cases hf : told = .failed
    · rw [if_pos hf]
      cases forgets <;> simp [unstopped, quiet, goto, Phase.handed, hf]
    · rw [if_neg hf]
      cases forgets <;> simp [stopped, quiet, goto, Phase.handed, hf]
  | _ =>
    rw [hp] at hi
    cases hi

/-- Two connects that are made before the first is through. -/
def twoConnects : List (Input Bool Nat Nat) :=
  [.connect false ⟨0, true, some 7⟩, .connect true ⟨1, true, some 8⟩, .reply false (.value true), .reply true (.value true),
    .reply false (.value true), .reply true (.value true)]

end Controller

end Tunnel

end VpnStack

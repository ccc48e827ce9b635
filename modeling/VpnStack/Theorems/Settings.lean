import VpnStack.Effects

/-!
# What an apply leaves alone

An apply writes users.json and state.json, but it changes neither who is a user nor which protocols are on: in users.json it
notes who has a certificate, in state.json the queue of revocations, what was applied last and the mark.
-/

namespace VpnStack

open Python Interaction

namespace Settings

/-- A record without the note whether there is a certificate. -/
def forget (u : User) : User := { u with ikev2Provisioned := false }

/-- The same users, and the same protocols on. -/
structure Same (host : Host) (w w' : World) : Prop where
  users : w'.users.map forget = w.users.map forget
  enabled : (w'.state.getD (State.default host.py)).enabled = (w.state.getD (State.default host.py)).enabled

section Apply

variable {host : Host} {d : Discipline Op World Choice} {w w' : World}

theorem Same.refl (w : World) : Same host w w := ⟨rfl, rfl⟩

/-- A call that writes neither the users nor the state keeps the settings. -/
theorem Same.exec {o : Op} {c : Choice} (h : Same host w w') (husers : o.part ≠ .users) (hstate : o.part ≠ .state) :
    Same host w (exec host o c w').2 :=
  ⟨by rw [exec_users husers]; exact h.users, by rw [exec_state hstate]; exact h.enabled⟩

/-- A script that writes neither the users nor the state keeps the settings. -/
theorem keeps {parts : List Part} {α : Type} {p : Cmd α} (hp : Touches parts p) (husers : .users ∉ parts) (hstate : .state ∉ parts)
    (h : Same host w w') : ends (server host) d p (fun _ => Same host w) (fun _ => Same host w) (Same host w) w' :=
  hp.keeps (fun _ ho _ _ h => h.exec (fun heq => husers (heq ▸ ho)) fun heq => hstate (heq ▸ ho)) h

/-- What is read has the protocols that are on. -/
theorem loadState_ends (h : Same host w w') : ends (server host) d (call .loadState)
    (fun st w'' => Same host w w'' ∧ st.enabled = (w.state.getD (State.default host.py)).enabled) (fun _ => Same host w)
    (Same host w) w' := by
  refine ends_mono (ends_read rfl h) (fun st w'' hw => ?_) (fun _ _ h => h) (fun _ h => h)
  obtain ⟨rfl, c, rfl⟩ := hw
  exact ⟨h, h.enabled⟩

/-- A state that is written with the same protocols on keeps the settings. -/
theorem saveState_ends {st : State} (h : Same host w w') (hst : st.enabled = (w.state.getD (State.default host.py)).enabled) :
    ends (server host) d (call (.saveState st)) (fun _ => Same host w) (fun _ => Same host w) (Same host w) w' :=
  ends_exec (fun _ => h) (fun _ _ _ => ⟨h.users, hst⟩) (fun _ _ _ _ => h) (fun _ _ _ _ => ⟨h.users, hst⟩)

/-- A reconcile keeps the settings: it only notes who has a certificate. -/
theorem reconcileIkev2_ends (h : Same host w w') :
    ends (server host) d reconcileIkev2 (fun _ => Same host w) (fun _ => Same host w) (Same host w) w' := by
  have hread : ∀ {o : Op} {w'}, o.part = .nothing → Same host w w' →
      ends (server host) d (call o) (fun _ => Same host w) (fun _ => Same host w) (Same host w) w' := fun ho h =>
    keeps (show Touches [.nothing] _ from .call (List.mem_singleton.mpr ho)) (by decide) (by decide) h
  refine ends_seq (hread rfl h) fun running w₁ h => ends_ite (fun _ => ?_) (fun _ => h)
  refine ends_seq (loadState_ends h) fun st w₂ h => ?_
  obtain ⟨h, hst⟩ := h
  refine ends_seq (M := fun users w₃ => Same host w w₃ ∧ users.map forget = w.users.map forget) ?_ fun users w₃ h => ?_
  · refine ends_mono (ends_read rfl h) (fun users w₃ hw => ?_) (fun _ _ h => h) (fun _ h => h)
    obtain ⟨rfl, c, rfl⟩ := hw
    exact ⟨h, h.users⟩
  obtain ⟨h, husers⟩ := h
  refine ends_seq (hread rfl h) fun listing w₄ h => ends_ite (fun _ => ?_) (fun _ => h)
  refine ends_seq (M := fun _ => Same host w) ?_ fun _ _ h => h
  refine ends_seq (keeps (show Touches [.certs] _ from Script.uses_foldlM fun r name _ => withdraw_touches r name) (by decide) (by decide) h)
    fun r w₅ h => ?_
  refine ends_seq (keeps (show Touches [.certs] _ from Script.uses_foldlM fun r name _ => issue_touches r name) (by decide) (by decide) h)
    fun r w₆ h => ?_
  refine ends_seq (saveState_ends h hst) fun _ w₇ h => ends_seq (M := fun _ => Same host w) ?_ fun _ _ h => h
  have hsave : ∀ c, Same host w (exec host (.saveUsers (users.map fun u =>
      { u with ikev2Provisioned := decide (u.name ∈ r.valid) })) c w₇).2 := by
    intro c
    refine ⟨?_, h.enabled⟩
    change (users.map _).map forget = _
    rw [List.map_map, ← husers]
    rfl
  exact ends_exec (fun _ => h) (fun c _ _ => hsave c) (fun _ _ _ _ => h) (fun c _ _ _ => hsave c)

/-- Everything behind `up` keeps the settings. -/
theorem convergeRest_ends (enabled : List Protocol) (result : ApplyResult) (h : Same host w w') :
    ends (server host) d (convergeRest host.py enabled result) (fun _ => Same host w) (fun _ => Same host w) (Same host w) w' := by
  refine ends_seq (keeps (Composectl.downDisabled_touches host.py enabled) (by decide) (by decide) h) fun _ w₁ h => ?_
  refine ends_seq (keeps (show Touches [.nothing] _ from .call (by simp [Op.part])) (by decide) (by decide) h) fun _ w₂ h => ?_
  refine ends_seq (keeps (Composectl.notRunning_touches enabled) (by decide) (by decide) h) fun _ w₃ h => ?_
  refine ends_seq (keeps (show Touches [.nothing] _ from .call (by simp [Op.part])) (by decide) (by decide) h) fun _ w₄ h =>
    ends_ite (fun _ => ?_) (fun _ => h)
  refine ends_seq (keeps (show Touches [.nothing] _ from .call (by simp [Op.part])) (by decide) (by decide) h) fun _ w₅ h =>
    ends_ite (fun _ => ?_) (fun _ => h)
  refine ends_seq (reconcileIkev2_ends h) fun r w₆ h => ?_
  cases r with
  | none => exact h
  | some r =>
    exact ends_seq (keeps (show Touches [.notes] _ from .call (by simp [Op.part])) (by decide) (by decide) h) fun _ _ h => h

/-- An apply of a candidate keeps the settings. -/
theorem applyCandidate_ends (restart : Bool) (enabled : List Protocol) (cand : Gen) (h : Same host w w') :
    ends (server host) d (applyCandidate host.py restart enabled cand) (fun _ => Same host w) (fun _ => Same host w)
      (Same host w) w' := by
  have hpromote : ends (server host) d (promoteCandidate cand) (fun _ => Same host w) (fun _ => Same host w) (Same host w) w' := by
    refine ends_seq (keeps (show Touches [.nothing] _ from .call (by simp [Op.part])) (by decide) (by decide) h) fun _ w₁ h =>
      ends_ite (fun _ => ?_) (fun _ => h)
    refine ends_seq (keeps (show Touches [.nothing] _ from .call (by simp [Op.part])) (by decide) (by decide) h) fun _ w₂ h => ?_
    refine ends_seq (loadState_ends h) fun st w₃ h => ?_
    obtain ⟨h, hst⟩ := h
    refine ends_seq (keeps (promote_touches cand) (by decide) (by decide) h) fun _ w₄ h => ?_
    refine ends_seq (keeps (show Touches [.promoted] _ from .call (by simp [Op.part])) (by decide) (by decide) h) fun _ w₅ h => ?_
    exact ends_seq (saveState_ends h hst) fun _ _ h => h
  have hdrop : ∀ {w'}, Same host w w' →
      ends (server host) d (dropCandidate cand) (fun _ => Same host w) (fun _ => Same host w) (Same host w) w' := fun h =>
    keeps (dropCandidate_touches cand) (by decide) (by decide) h
  refine ends_seq (M := fun _ => Same host w) (ends_tryFinally.mpr (ends_mono hpromote (fun _ _ h => hdrop h)
    (fun _ _ h => hdrop h) (fun _ h => h))) fun r w₁ h => ?_
  obtain ⟨⟨previous, inherited⟩, ⟨⟩⟩ := r
  refine ends_seq (keeps (changedBetween_touches previous cand) (by decide) (by decide) h) fun diff w₂ h => ?_
  refine ends_seq (keeps (show Touches [.plans] _ from .call (by simp [Op.part])) (by decide) (by decide) h) fun _ w₃ h =>
    ends_ite (fun _ => ?_) (fun _ => h)
  have hforward : ∀ {w'}, Same host w w' →
      ends (server host) d (reconcileForwarding enabled) (fun _ => Same host w) (fun _ => Same host w) (Same host w) w' :=
    fun h => keeps (reconcileForwarding_touches enabled) (by decide) (by decide) h
  refine ends_seq (M := fun _ => Same host w) (ends_tryFinally.mpr (ends_mono (Q := fun _ => Same host w)
    (E := fun _ => Same host w) (D := Same host w) ?_ (fun _ _ h => hforward h) (fun _ _ h => hforward h) (fun _ h => h)))
    fun r w₄ h => ?_
  · refine ends_seq (keeps (Composectl.up_touches enabled _) (by decide) (by decide) h) fun ok w₄ h =>
      ends_ite (fun _ => convergeRest_ends enabled _ h) (fun _ => h)
  · obtain ⟨result, forwarding⟩ := r
    refine ends_seq (loadState_ends h) fun st w₅ h => ?_
    exact ends_seq (saveState_ends h.1 h.2) fun _ _ h => h

/-- However it ends, an apply leaves the users and the protocols as they were. -/
theorem apply_ends (restart : Bool) :
    ends (server host) d (apply host.py restart) (fun _ => Same host w) (fun _ => Same host w) (Same host w) w := by
  have h : Same host w w := Same.refl w
  refine ends_seq (keeps (show Touches [.nothing] _ from .call (by simp [Op.part])) (by decide) (by decide) h) fun _ w₁ h => ?_
  refine ends_seq (keeps (show Touches [.nothing] _ from .call (by simp [Op.part])) (by decide) (by decide) h) fun _ w₂ h => ?_
  refine ends_seq (keeps (show Touches [.nothing] _ from .call (by simp [Op.part])) (by decide) (by decide) h) fun st w₃ h => ?_
  refine ends_seq (keeps (missingSecrets_touches _) (by decide) (by decide) h) fun gaps w₄ h => ends_ite (fun _ => ?_) (fun _ => h)
  refine ends_seq (keeps (renderAll_touches host.py) (by decide) (by decide) h) fun r w₅ h => ?_
  obtain ⟨tree, enabled⟩ := r
  refine ends_seq (keeps (writeCandidate_touches tree) (by decide) (by decide) h) fun cand w₆ h => ?_
  refine ends_seq (keeps (show Touches [.promoted] _ from .call (by simp [Op.part])) (by decide) (by decide) h) fun _ w₇ h => ?_
  have hprune : ∀ {w'}, Same host w w' →
      ends (server host) d pruneQuietly (fun _ => Same host w) (fun _ => Same host w) (Same host w) w' := fun h =>
    keeps pruneQuietly_touches (by decide) (by decide) h
  refine ends_seq (M := fun _ => Same host w) (ends_tryFinally.mpr (ends_mono (applyCandidate_ends restart enabled cand h)
    (fun _ _ h => hprune h) (fun _ _ h => hprune h) (fun _ h => h))) fun r w₈ h => ?_
  obtain ⟨result, ⟨⟩⟩ := r
  exact h

end Apply

end Settings

end VpnStack

import VpnStack.Theorems.Promote

/-!
# The toggle that is not taken back

`protocol on` writes the new set of protocols to state.json before it makes the missing secrets and before it applies. Only
one way to fail takes the toggle back: an exception of `prepare`. After any other failure in front of the promotion the
protocol stays on, and with a secret missing no later apply gets as far as rendering.
-/

namespace VpnStack

open Python Interaction Promote

namespace Toggle

section Claim

variable (py : CaseMap)

/-- The protocols that are on: of state.json, or the default ones without it. -/
def enabledOf (w : World) : List String := (w.state.getD (State.default py)).enabled

/-- The same set of protocols is on. -/
def SameEnabled (w w' : World) : Prop := ∀ name, name ∈ enabledOf py w' ↔ name ∈ enabledOf py w

/-- No secret is missing that the renderer of a protocol that is on requires. -/
def Ready (w : World) : Prop :=
  ∀ p ∈ protocols py, p.name ∈ enabledOf py w → ∀ n ∈ p.secretNames, w.keyring n ≠ none

end Claim

/-- The call wrote state.json. -/
def Saved (e : Op × Choice) : Prop := ∃ st, e.1 = .saveState st ∧ e.2.fault.isBefore = false

/-- State.json was written in front of a `prepare` and again behind it: as long as nothing is promoted, by the handler of its
exception. -/
def TakenBack (l : Log) : Prop :=
  ∃ before name c after, l = before ++ (.prepare name, c) :: after ∧
    (∃ e ∈ before, Saved e) ∧ ∃ e ∈ after, Saved e

/-- The toggle never reached the disk, or it was taken back there. -/
def Undone (l : Log) : Prop := (∀ e ∈ l, ¬ Saved e) ∨ TakenBack l

/-- The run did not return. -/
def Failed {α : Type} (result : Option (Except Exc α)) : Prop := ∀ a, result ≠ some (.ok a)

/-! ## The log -/

section Log

variable {o : Op} {c : Choice} {l : Log} {e : Op × Choice}

/-- A call on another part does not write state.json. -/
theorem not_saved_of_part (ho : o.part ≠ .state) : ¬ Saved (o, c) := by
  rintro ⟨st, heq, -⟩
  cases heq
  exact ho rfl

/-- A call that does not write the state file takes nothing back. -/
theorem takenBack_append (he : ¬ Saved e) : TakenBack (l ++ [e]) ↔ TakenBack l := by
  constructor
  · rintro ⟨before, name, c, after, hl, hbefore, e', he', hsaved⟩
    rcases List.eq_nil_or_concat after with rfl | ⟨after', last, rfl⟩
    · exact (List.not_mem_nil he').elim
    · rw [List.concat_eq_append] at hl he'
      rw [← List.cons_append, ← List.append_assoc] at hl
      obtain ⟨rfl, hlast⟩ := List.append_inj' hl rfl
      obtain rfl := List.singleton_inj.mp hlast
      refine ⟨before, name, c, after', rfl, hbefore, e', ?_, hsaved⟩
      refine (List.mem_append.mp he').resolve_right fun hmem => ?_
      obtain rfl := List.mem_singleton.mp hmem
      exact he hsaved
  · rintro ⟨before, name, c, after, rfl, hbefore, e', he', hsaved⟩
    exact ⟨before, name, c, after ++ [e], by simp, hbefore, e', List.mem_append_left _ he', hsaved⟩

/-- Nothing is taken back that was not written. -/
theorem not_takenBack_append (hl : ∀ e' ∈ l, ¬ Saved e') : ¬ TakenBack (l ++ [e]) := by
  rintro ⟨before, name, c, after, heq, ⟨e', he', hsaved⟩, e'', he'', -⟩
  have hmem : e' ∈ l := by
    have hdrop : l = before ++ ((.prepare name, c) :: after).dropLast := by
      rw [← (List.dropLast_concat : (l ++ [e]).dropLast = l), heq, List.dropLast_append_of_ne_nil (List.cons_ne_nil _ _)]
    rw [hdrop]
    exact List.mem_append_left _ he'
  exact hl e' hmem hsaved

/-- A call that is not the replacement of the link does not replace it. -/
theorem replaced_append_of_ne (ho : o ≠ .replaceLink) : Replaced (l ++ [(o, c)]) ↔ Replaced l := by
  unfold Replaced
  refine exists_congr fun c' => and_congr_left' ?_
  rw [List.mem_append, List.mem_singleton]
  refine or_iff_left fun h => ho ?_
  cases h
  rfl

theorem replaced_append_save {st : State} : Replaced (l ++ [(.saveState st, c)]) ↔ Replaced l := replaced_append_of_ne nofun

/-- A link that was replaced stays so in a longer log. -/
theorem replaced_append_of (h : Replaced l) (l' : Log) : Replaced (l ++ l') := by
  obtain ⟨c, hmem, hc⟩ := h
  exact ⟨c, List.mem_append_left _ hmem, hc⟩

end Log

/-! ## What every command leaves of the enabled set and of the keyring -/

section Steady

variable {host : Host} {w w' : World} {enabled : List String} {keyring : String → Option Bytes}

/-- The enabled set and the keyring are these. -/
structure Steady (py : CaseMap) (enabled : List String) (keyring : String → Option Bytes) (w : World) : Prop where
  enabled : enabledOf py w = enabled
  keyring : w.keyring = keyring

/-- A call that is not on the state or the keyring keeps both. -/
theorem Steady.exec {o : Op} {c : Choice} (h : Steady host.py enabled keyring w) (hstate : o.part ≠ .state)
    (hkeyring : o.part ≠ .keyring) : Steady host.py enabled keyring (exec host o c w).2 := by
  refine ⟨?_, (exec_keyring hkeyring).trans h.keyring⟩
  rw [enabledOf, exec_state hstate]
  exact h.enabled

variable {d : Discipline Op World Choice}

/-- The part of a command keeps them. -/
abbrev Steadily (host : Host) (d : Discipline Op World Choice) (enabled : List String) (keyring : String → Option Bytes)
    {α : Type} (p : Cmd α) : Prop := Preserves (server host) d (Steady host.py enabled keyring) p

/-- The frame rule. -/
theorem steady_frame {parts : List Part} {α : Type} {p : Cmd α} (hp : Touches parts p) (hstate : .state ∉ parts)
    (hkeyring : .keyring ∉ parts) : Steadily host d enabled keyring p :=
  fun _ hw => hp.keeps (fun _ ho _ _ hw => hw.exec (fun heq => hstate (heq ▸ ho)) (fun heq => hkeyring (heq ▸ ho))) hw

/-- A call of any other part. -/
theorem steady_call {o : Op} (hstate : o.part ≠ .state) (hkeyring : o.part ≠ .keyring) :
    Steadily host d enabled keyring (call o) :=
  steady_frame (show Touches [o.part] _ from Touches.call (List.mem_singleton_self _)) (by simpa using hstate.symm)
    (by simpa using hkeyring.symm)

/-- A save with the same enabled set. -/
theorem steady_save {st : State} (hst : st.enabled = enabled) :
    Steadily host d enabled keyring (call (.saveState st)) :=
  fun _ h => ends_exec (fun _ => h) (fun _ _ _ => ⟨hst, h.keyring⟩) (fun _ _ _ _ => h) (fun _ _ _ _ => ⟨hst, h.keyring⟩)

/-- What goes on from `load` goes on with the enabled set. -/
theorem steady_load {α : Type} {f : State → Cmd α}
    (hf : ∀ st : State, st.enabled = enabled → Steadily host d enabled keyring (f st)) :
    Steadily host d enabled keyring (call .loadState >>= f) := by
  intro w h
  refine ends_seq (M := fun st w => st.enabled = enabled ∧ Steady host.py enabled keyring w) ?_
    fun st w hst => hf st hst.1 w hst.2
  exact ends_exec (fun _ => h) (fun _ _ _ => ⟨h.enabled, h⟩) (fun _ _ _ _ => h) (fun _ _ _ _ => h)

/-- A reconcile writes the state back with the protocols it read there. -/
theorem reconcileListed_steady {st : State} {users : List User} {valid reserved : List Text} (hst : st.enabled = enabled) :
    Steadily host d enabled keyring (reconcileListed st users valid reserved) := by
  refine .bind (steady_frame (Script.uses_foldlM fun r name _ => withdraw_touches r name) (by decide) (by decide)) fun r => ?_
  refine .bind (steady_frame (Script.uses_foldlM fun r name _ => issue_touches r name) (by decide) (by decide)) fun r => ?_
  exact .bind (steady_save (by exact hst)) fun _ => .bind (steady_call (by simp) (by simp)) fun _ => .pure _

/-- A reconcile with its listing keeps what is on and the keyring. -/
theorem reconcileIkev2_steady : Steadily host d enabled keyring reconcileIkev2 := by
  refine .bind (steady_call nofun nofun) fun _ => .ite (steady_load fun st hst => ?_) (.pure _)
  refine .bind (steady_call nofun nofun) fun _ => .bind (steady_call nofun nofun) fun listing => ?_
  exact .ite (.bind (reconcileListed_steady hst) fun _ => .pure _) (.pure _)

/-- Everything behind `up` keeps what is on and the keyring. -/
theorem convergeRest_steady {list : List Protocol} {result : ApplyResult} :
    Steadily host d enabled keyring (convergeRest host.py list result) := by
  refine .bind (steady_frame (Composectl.downDisabled_touches ..) (by decide) (by decide)) fun _ => ?_
  refine .bind (steady_call nofun nofun) fun _ => .bind (steady_frame (Composectl.notRunning_touches ..) (by decide) (by decide)) fun _ => ?_
  refine .bind (steady_call nofun nofun) fun _ => .ite (.bind (steady_call nofun nofun) fun _ => .ite ?_ (.pure _)) (.pure _)
  refine .bind reconcileIkev2_steady fun reconciled => ?_
  cases reconciled with
  | none => exact .pure _
  | some reconciled => exact .bind (steady_call nofun nofun) fun _ => .pure _

/-- The end of an apply writes the state back with the protocols it read there. -/
theorem finish_steady {list : List Protocol} {result : ApplyResult} :
    Steadily host d enabled keyring (finish list result) :=
  steady_load fun _ hst => .bind (steady_save (by exact hst)) fun _ => .pure _

/-- The part of an apply up to the mark keeps what is on and the keyring. -/
theorem promoteCandidate_steady {candidate : Gen} : Steadily host d enabled keyring (promoteCandidate candidate) := by
  refine .bind (steady_call nofun nofun) fun _ => .ite (.bind (steady_call nofun nofun) fun _ => steady_load fun st hst => ?_) (.raise _)
  refine .bind (steady_frame (promote_touches candidate) (by decide) (by decide)) fun _ => .bind (steady_call nofun nofun) fun _ => ?_
  exact .bind (steady_save (by exact hst)) fun _ => .pure _

/-- An apply of a candidate keeps what is on and the keyring. -/
theorem applyCandidate_steady {restart : Bool} {list : List Protocol} {candidate : Gen} :
    Steadily host d enabled keyring (applyCandidate host.py restart list candidate) := by
  have hdrop : Steadily host d enabled keyring (dropCandidate candidate) :=
    steady_frame (dropCandidate_touches candidate) (by decide) (by decide)
  refine .bind (.tryFinally promoteCandidate_steady hdrop) fun r => ?_
  obtain ⟨⟨previous, inherited⟩, -⟩ := r
  refine .bind (steady_frame (changedBetween_touches previous candidate) (by decide) (by decide)) fun diff =>
    .bind (steady_call nofun nofun) fun _ => .ite ?_ (.pure _)
  have hconverge : ∀ changed result, Steadily host d enabled keyring (converge host.py list changed result) :=
    fun changed result => .bind (steady_frame (Composectl.up_touches ..) (by decide) (by decide)) fun ok =>
      .ite convergeRest_steady (.raise _)
  exact .bind (.tryFinally (hconverge _ _) (steady_frame (reconcileForwarding_touches list) (by decide) (by decide))) fun r =>
    finish_steady

/-- `apply` leaves the enabled set and the keyring, wherever it ends. -/
theorem apply_steady {restart : Bool} : Steadily host d enabled keyring (apply host.py restart) := by
  refine .bind (steady_call nofun nofun) fun _ => .bind (steady_call nofun nofun) fun _ => .bind (steady_call nofun nofun) fun st => ?_
  refine .bind (steady_frame (missingSecrets_touches _) (by decide) (by decide)) fun gaps => .ite ?_ (.raise _)
  refine .bind (steady_frame (renderAll_touches host.py) (by decide) (by decide)) fun r => ?_
  obtain ⟨tree, list⟩ := r
  refine .bind (steady_frame (writeCandidate_touches tree) (by decide) (by decide)) fun candidate =>
    .bind (steady_call nofun nofun) fun _ => ?_
  exact .bind (.tryFinally applyCandidate_steady (steady_frame pruneQuietly_touches (by decide) (by decide))) fun r => .pure _

end Steady

/-! ## Up to the promotion -/

section Quiet

variable {host : Host} {w : World} {l : Log} {p : World × Log}

/-- Since that log, nothing was written to state.json or the keyring, and no link was replaced. -/
structure Quiet (w : World) (l : Log) (p : World × Log) : Prop where
  state : p.1.state = w.state
  keyring : p.1.keyring = w.keyring
  log : ∃ rest, p.2 = l ++ rest ∧ ∀ e ∈ rest, ¬ Saved e ∧ (e.1 = .replaceLink → e.2.fault.isBefore = true)

theorem Quiet.refl (w : World) (l : Log) : Quiet w l (w, l) :=
  ⟨rfl, rfl, [], (List.append_nil l).symm, fun _ he => (List.not_mem_nil he).elim⟩

/-- A call that was stopped in front of its effect, or that has none on what is watched here. -/
theorem Quiet.step {w' : World} {l' : Log} {o : Op} {c : Choice} (h : Quiet w l (w', l'))
    (hc : c.fault.isBefore = true ∨ o.part ≠ .state ∧ o.part ≠ .keyring ∧ o ≠ .replaceLink) :
    Quiet w l ((server host o c w').2, l' ++ [(o, c)]) := by
  have hlog : ∃ rest, l' ++ [(o, c)] = l ++ rest ∧
      ∀ e ∈ rest, ¬ Saved e ∧ (e.1 = .replaceLink → e.2.fault.isBefore = true) := by
    obtain ⟨rest, hl, hrest⟩ := h.log
    change l' = l ++ rest at hl
    refine ⟨rest ++ [(o, c)], by rw [hl, List.append_assoc], fun e he => ?_⟩
    rcases List.mem_append.mp he with he | he
    · exact hrest e he
    · obtain rfl := List.mem_singleton.mp he
      rcases hc with hc | ⟨hstate, -, hlink⟩
      · have hnot : ¬ Saved (o, c) := by
          rintro ⟨st, -, hsaved⟩
          rw [hc] at hsaved
          cases hsaved
        exact ⟨hnot, fun _ => hc⟩
      · exact ⟨not_saved_of_part hstate, fun heq => absurd heq hlink⟩
  rw [server, withFaults_snd]
  rcases hc with hc | ⟨hstate, hkeyring, -⟩
  · rw [hc]
    exact ⟨h.state, h.keyring, hlog⟩
  · split
    · exact ⟨h.state, h.keyring, hlog⟩
    · exact ⟨(exec_state hstate).trans h.state, (exec_keyring hkeyring).trans h.keyring, hlog⟩

/-- Where nothing happened, no link was replaced since. -/
theorem Quiet.not_replaced (h : Quiet w l p) (hl : ¬ Replaced l) : ¬ Replaced p.2 := by
  rintro ⟨c, hmem, hc⟩
  obtain ⟨rest, hlog, hrest⟩ := h.log
  rw [hlog] at hmem
  rcases List.mem_append.mp hmem with hmem | hmem
  · exact hl ⟨c, hmem, hc⟩
  · rw [(hrest _ hmem).2 rfl] at hc
    cases hc

/-- Calls that write no state file take nothing back. -/
theorem takenBack_append_all {rest : Log} (h : ∀ e ∈ rest, ¬ Saved e) : TakenBack (l ++ rest) ↔ TakenBack l := by
  induction rest generalizing l with
  | nil => rw [List.append_nil]
  | cons e rest ih =>
    rw [List.append_cons, ih fun e he => h e (List.mem_cons_of_mem _ he), takenBack_append (h e (List.mem_cons_self ..))]

/-- Where nothing was written, no toggle was taken back since. -/
theorem Quiet.takenBack (h : Quiet w l p) : TakenBack p.2 ↔ TakenBack l := by
  obtain ⟨rest, hlog, hrest⟩ := h.log
  rw [hlog, takenBack_append_all fun e he => (hrest e he).1]

/-- The link was replaced, by an apply that had every secret. -/
def Through (py : CaseMap) (w : World) (p : World × Log) : Prop := Replaced p.2 ∧ Ready py w

/-- Where an apply may end: it changed nothing, or it got through. -/
def Landed (py : CaseMap) (w : World) (l : Log) (p : World × Log) : Prop := Quiet w l p ∨ Through py w p

/-- Behind the replacement of the link whatever comes leaves it replaced. -/
theorem Through.preserves {py : CaseMap} {α : Type} (q : Cmd α) :
    Preserves (loggedServer host) any (Through py w) q :=
  .of_uses (Script.uses_true q) fun _ _ _ _ _ h => ⟨replaced_append_of h.1 _, h.2⟩

/-- A call that writes neither the state nor the keyring nor the link is quiet, and answers as the server was. -/
theorem quiet_call {o : Op} (ho : o.part ≠ .state) (hk : o.part ≠ .keyring) (hl : o ≠ .replaceLink) (h : Quiet w l p) :
    ends (loggedServer host) any (call o)
      (fun a p => Quiet w l p ∧ ∃ c w', w'.state = w.state ∧ w'.keyring = w.keyring ∧ a = (exec host o c w').1)
      (fun _ => Quiet w l) (Quiet w l) p := by
  refine ends_logged h (fun c hc => ?_) fun c e _ => h.step (.inr ⟨ho, hk, hl⟩)
  have hstep := @Quiet.step host _ _ _ _ o c h (.inr ⟨ho, hk, hl⟩)
  rw [server, withFaults, hc] at hstep
  exact ⟨hstep, c, p.1, h.state, h.keyring, rfl⟩

/-- A script that writes neither the state nor the keyring nor the link is quiet throughout. -/
theorem quiet_keeps {parts : List Part} {α : Type} {q : Cmd α} (hq : Touches parts q) (hstate : .state ∉ parts)
    (hkeyring : .keyring ∉ parts) (hlink : .link ∉ parts) : Preserves (loggedServer host) any (Quiet w l) q := by
  refine .of_uses hq fun o ho c p _ hp => hp.step (.inr ⟨fun heq => hstate (heq ▸ ho), fun heq => hkeyring (heq ▸ ho), ?_⟩)
  rintro rfl
  exact hlink ho

/-- A script that only reads and writes trees lands where it was. -/
theorem landed_keeps {py : CaseMap} {α : Type} {q : Cmd α} (hq : Touches [.nothing, .trees] q) :
    Preserves (loggedServer host) any (Landed py w l) q := fun p hp => by
  rcases hp with hp | hp
  · exact ends_mono (quiet_keeps hq (by decide) (by decide) (by decide) p hp) (fun _ _ h => .inl h) (fun _ _ h => .inl h)
      fun _ h => .inl h
  · exact ends_mono (Through.preserves q p hp) (fun _ _ h => .inr h) (fun _ _ h => .inr h) fun _ h => .inr h

/-- Every protocol that is on is one of the enabled. -/
theorem mem_enabledProtocols_of {py : CaseMap} {st : State} {p : Protocol} (hp : p ∈ protocols py) (hname : p.name ∈ st.enabled) :
    p ∈ enabledProtocols py st := by
  have hfind : (protocols py).find? (fun q => q.name == p.name) = some p := by
    simp only [protocols, List.mem_cons, List.not_mem_nil, or_false] at hp
    rcases hp with rfl | rfl | rfl | rfl <;> rfl
  exact (List.mem_insertionSort _).mpr (List.mem_filterMap.mpr ⟨p.name, hname, hfind⟩)

/-- Without a gap, every protocol that is on has its secrets. -/
theorem missingSecrets_ends {py : CaseMap} (h : Quiet w l p) :
    ends (loggedServer host) any (missingSecrets (enabledProtocols py (w.state.getD (State.default py))))
      (fun gaps p => Quiet w l p ∧ (gaps = [] → Ready py w)) (fun _ => Quiet w l) (Quiet w l) p := by
  refine ends_seq (quiet_call nofun nofun nofun h) fun secrets p h => ?_
  obtain ⟨h, c, w', -, hkeyring, rfl⟩ := h
  refine ⟨h, fun hgaps q hq hname n hn hmissing => ?_⟩
  have hall := List.filter_eq_nil_iff.mp hgaps _ (List.mem_map_of_mem (mem_enabledProtocols_of hq hname))
  have hlacks : n ∈ q.secretNames.filter fun n => !(⟨w'.keyring⟩ : Secrets).has n := by
    have hhas : (⟨w'.keyring⟩ : Secrets).has n = false := by
      change (w'.keyring n).isSome = false
      rw [hkeyring, hmissing]
      rfl
    exact List.mem_filter.mpr ⟨hn, (Bool.not_eq_true' _).mpr hhas⟩
  rw [Bool.not_eq_true, Bool.not_eq_false', List.isEmpty_iff] at hall
  exact List.ne_nil_of_mem hlacks hall

/-- A promotion is through, or has not begun to be. -/
theorem promote_lands {py : CaseMap} {candidate : Gen} (hready : Ready py w) (h : Quiet w l p) :
    ends (loggedServer host) any (Render.promote candidate) (fun _ => Through py w) (fun _ => Landed py w l)
      (Landed py w l) p := by
  refine ends_seq (ends_mono (quiet_call nofun nofun nofun h) (fun _ _ h => h.1) (fun _ _ h => .inl h) fun _ h => .inl h)
    fun _ p h => ?_
  refine ends_logged (.inl h) (fun c hc => ⟨⟨c, by simp, by rw [hc]; rfl⟩, hready⟩) fun c e _ => ?_
  cases hbefore : c.fault.isBefore with
  | true => exact .inl (h.step (.inl hbefore))
  | false => exact .inr ⟨⟨c, by simp, hbefore⟩, hready⟩

/-- The part of an apply up to the mark is through, or has changed nothing. -/
theorem promoteCandidate_lands {py : CaseMap} {candidate : Gen} (hready : Ready py w) (h : Quiet w l p) :
    ends (loggedServer host) any (promoteCandidate candidate) (fun _ => Through py w) (fun _ => Landed py w l)
      (Landed py w l) p := by
  have hread : ∀ (o : Op) (p : World × Log), o.part = .nothing → Quiet w l p → ends (loggedServer host) any (call o)
      (fun _ => Quiet w l) (fun _ => Landed py w l) (Landed py w l) p := fun o p ho h =>
    ends_mono (quiet_keeps (show Touches [.nothing] _ from Touches.call (List.mem_singleton.mpr ho)) (by decide) (by decide) (by decide) p h)
      (fun _ _ h => h) (fun _ _ h => .inl h) fun _ h => .inl h
  refine ends_seq (hread _ _ rfl h) fun _ p h => ends_ite (fun _ => ?_) (fun _ => .inl h)
  refine ends_seq (hread _ _ rfl h) fun _ p h => ends_seq (hread _ _ rfl h) fun st p h => ?_
  refine ends_seq (promote_lands hready h) fun _ p h => ?_
  exact ends_mono (Through.preserves _ p h) (fun _ _ h => h) (fun _ _ h => .inr h) fun _ h => .inr h

/-- An apply that gets to replacing the link had every secret of every protocol that was on; before that it changes neither
state.json nor the keyring. -/
theorem apply_lands (restart : Bool) (h : Quiet w l p) :
    ends (loggedServer host) any (apply host.py restart) (fun _ => Through host.py w) (fun _ => Landed host.py w l)
      (Landed host.py w l) p := by
  have hquiet : ∀ {α : Type} {q : Cmd α} (p : World × Log), Touches [.nothing, .trees, .promoted] q → Quiet w l p →
      ends (loggedServer host) any q (fun _ => Quiet w l) (fun _ => Landed host.py w l) (Landed host.py w l) p :=
    fun p hq h => ends_mono (quiet_keeps hq (by decide) (by decide) (by decide) p h) (fun _ _ h => h) (fun _ _ h => .inl h)
      fun _ h => .inl h
  refine ends_seq (hquiet _ (Touches.call (by simp [Op.part])) h) fun _ p h => ?_
  refine ends_seq (hquiet _ (Touches.call (by simp [Op.part])) h) fun _ p h => ?_
  refine ends_seq (M := fun st p => st = w.state.getD (State.default host.py) ∧ Quiet w l p) ?_ fun st p h => ?_
  · refine ends_mono (quiet_call nofun nofun nofun h) (fun st p h => ?_) (fun _ _ h => .inl h) fun _ h => .inl h
    obtain ⟨h, c, w', hstate, -, rfl⟩ := h
    exact ⟨congrArg (Option.getD · _) hstate, h⟩
  obtain ⟨rfl, h⟩ := h
  refine ends_seq (ends_mono (missingSecrets_ends h) (fun _ _ h => h) (fun _ _ h => .inl h) fun _ h => .inl h)
    fun gaps p h => ends_ite (fun hgaps => ?_) (fun _ => .inl h.1)
  have hready := h.2 hgaps
  refine ends_seq (hquiet _ ((renderAll_touches host.py).mono (by simp)) h.1) fun r p h => ?_
  obtain ⟨tree, list⟩ := r
  refine ends_seq (hquiet _ ((writeCandidate_touches tree).mono (by simp)) h) fun candidate p h => ?_
  refine ends_seq (hquiet _ (Touches.call (by simp [Op.part])) h) fun _ p h => ?_
  refine ends_seq (M := fun _ => Through host.py w) (ends_tryFinally.mpr (ends_mono (?_ : ends _ _ _
    (fun _ => Through host.py w) (fun _ => Landed host.py w l) (Landed host.py w l) p) (fun _ p h => ?_) (fun _ p h => ?_)
    fun _ h => h)) fun r p h => ?_
  · refine ends_seq (M := fun _ => Through host.py w) (ends_tryFinally.mpr (ends_mono (promoteCandidate_lands hready h)
      (fun _ p h => ?_) (fun _ p h => landed_keeps (dropCandidate_touches candidate) p h) fun _ h => h)) fun r p h => ?_
    · exact ends_mono (Through.preserves _ p h) (fun _ _ h => h) (fun _ _ h => .inr h) fun _ h => .inr h
    · exact ends_mono (Through.preserves _ p h) (fun _ _ h => h) (fun _ _ h => .inr h) fun _ h => .inr h
  · exact ends_mono (Through.preserves _ p h) (fun _ _ h => h) (fun _ _ h => .inr h) fun _ h => .inr h
  · exact landed_keeps pruneQuietly_touches p h
  · obtain ⟨result, -⟩ := r
    exact h

end Quiet

/-! ## The command -/

section Command

variable {host : Host} {w : World} {proto : Protocol} {p : World × Log}

/-- The set with the protocol in it, as `protocol on` writes it. -/
def toggled (py : CaseMap) (w : World) (proto : Protocol) : List String :=
  (proto.name :: enabledOf py w).dedup.insertionSort (· ≤ ·)

theorem mem_toggled {py : CaseMap} {name : String} : name ∈ toggled py w proto ↔ name = proto.name ∨ name ∈ enabledOf py w := by
  rw [toggled, List.mem_insertionSort, List.mem_dedup, List.mem_cons]

/-- Taking the protocol out again leaves the set it was put into. -/
theorem mem_toggled_filter {py : CaseMap} (hoff : proto.name ∉ enabledOf py w) {name : String} :
    name ∈ (toggled py w proto).filter (· ≠ proto.name) ↔ name ∈ enabledOf py w := by
  rw [List.mem_filter, decide_eq_true_eq, mem_toggled]
  refine ⟨fun h => h.1.resolve_left h.2, fun h => ⟨.inr h, ?_⟩⟩
  rintro rfl
  exact hoff h

/-- No secret was taken away. -/
def Grown (w w' : World) : Prop := ∀ n, w.keyring n ≠ none → w'.keyring n ≠ none

/-- The toggle is on the disk, and nothing was promoted since. -/
structure Toggled (py : CaseMap) (w : World) (proto : Protocol) (p : World × Log) : Prop where
  enabled : enabledOf py p.1 = toggled py w proto
  grown : Grown w p.1
  saved : ∃ e ∈ p.2, Saved e
  kept : ¬ TakenBack p.2
  waiting : ¬ Replaced p.2

/-- The toggle was taken back, and nothing was promoted. -/
structure Restored (py : CaseMap) (w : World) (p : World × Log) : Prop where
  same : SameEnabled py w p.1
  grown : Grown w p.1
  takenBack : TakenBack p.2

/-- Where `protocol on` may end. -/
inductive Ending (py : CaseMap) (w : World) (proto : Protocol) (p : World × Log) : Prop
  | untouched (h : Quiet w [] p)
  | toggled (h : Toggled py w proto p)
  | restored (h : Restored py w p)
  | through (h : Through py p.1 p)

/-- Where it may end when it returns. -/
def Returned (py : CaseMap) (w : World) (p : World × Log) : Prop := Quiet w [] p ∨ Through py p.1 p

theorem not_replaced_nil : ¬ Replaced [] := fun ⟨_, hmem, _⟩ => List.not_mem_nil hmem

/-- Where nothing happened, the same protocols are on. -/
theorem Quiet.same {py : CaseMap} {l : Log} (h : Quiet w l p) : SameEnabled py w p.1 := fun name => by
  rw [enabledOf, h.state]
  rfl

/-- What has only gone on quietly is still toggled. -/
theorem Toggled.quiet {py : CaseMap} {w' : World} {l : Log} (h : Toggled py w proto (w', l)) (hp : Quiet w' l p) :
    Toggled py w proto p where
  enabled := by
    rw [enabledOf, hp.state]
    exact h.enabled
  grown n hn := by
    rw [hp.keyring]
    exact h.grown n hn
  saved := by
    obtain ⟨e, he, hsaved⟩ := h.saved
    obtain ⟨rest, hlog, -⟩ := hp.log
    exact ⟨e, hlog ▸ List.mem_append_left _ he, hsaved⟩
  kept := fun hback => h.kept (hp.takenBack.mp hback)
  waiting := hp.not_replaced h.waiting

/-- Up to the promotion the enabled set is as it was exactly if the toggle was undone. -/
theorem Ending.verdict {py : CaseMap} (hoff : proto.name ∉ enabledOf py w) (h : Ending py w proto p) (hp : ¬ Replaced p.2) :
    SameEnabled py w p.1 ↔ Undone p.2 := by
  cases h with
  | untouched h =>
    obtain ⟨rest, hlog, hrest⟩ := h.log
    rw [List.nil_append] at hlog
    exact ⟨fun _ => .inl fun e he => (hrest e (hlog ▸ he)).1, fun _ => h.same⟩
  | toggled h =>
    refine ⟨fun hsame => ?_, fun hundone => ?_⟩
    · have hon : proto.name ∈ enabledOf py p.1 := by
        rw [h.enabled, mem_toggled]
        exact .inl rfl
      exact absurd ((hsame _).mp hon) hoff
    · obtain ⟨e, he, hsaved⟩ := h.saved
      rcases hundone with hnone | hback
      · exact absurd hsaved (hnone e he)
      · exact absurd hback h.kept
  | restored h => exact ⟨fun _ => .inr h.takenBack, fun _ => h.same⟩
  | through h => exact absurd h.1 hp

/-- What is on has its secrets, if it had them before, but for a toggle that was not taken back. -/
theorem Ending.ready {py : CaseMap} (hw : Ready py w) (h : Ending py w proto p) (htoggled : ¬ Toggled py w proto p) :
    Ready py p.1 := by
  have hsame : SameEnabled py w p.1 → Grown w p.1 → Ready py p.1 := fun hsame hgrown q hq hname n hn =>
    hgrown n (hw q hq ((hsame _).mp hname) n hn)
  cases h with
  | untouched h =>
    refine hsame h.same fun n hn => ?_
    rw [h.keyring]
    exact hn
  | toggled h => exact absurd h htoggled
  | restored h => exact hsame h.same h.grown
  | through h => exact h.2

/-- No call takes a secret away. -/
theorem exec_keyring_grows {w : World} {o : Op} {c : Choice} {n : String} (hn : w.keyring n ≠ none) :
    (exec host o c w).2.keyring n ≠ none := by
  by_cases hk : o.part = .keyring
  · cases o with
    | writeSecret name content =>
      change Function.update w.keyring name (some content) n ≠ none
      rw [Function.update_apply]
      split
      · exact Option.some_ne_none _
      · exact hn
    | _ => cases hk
  · rw [exec_keyring hk]
    exact hn

/-- A call that keeps what a toggle needs. -/
theorem Toggled.step {w' : World} {l : Log} {o : Op} {c : Choice} (h : Toggled host.py w proto (w', l)) (ho : o.part ≠ .state)
    (hl : o ≠ .replaceLink) : Toggled host.py w proto ((server host o c w').2, l ++ [(o, c)]) := by
  have hlog : (∃ e ∈ l ++ [(o, c)], Saved e) ∧ ¬ TakenBack (l ++ [(o, c)]) ∧ ¬ Replaced (l ++ [(o, c)]) := by
    obtain ⟨e, he, hsaved⟩ := h.saved
    refine ⟨⟨e, List.mem_append_left _ he, hsaved⟩, ?_, ?_⟩
    · rw [takenBack_append (not_saved_of_part ho)]
      exact h.kept
    · rw [replaced_append_of_ne hl]
      exact h.waiting
  rw [server, withFaults_snd]
  split
  · exact ⟨h.enabled, h.grown, hlog.1, hlog.2.1, hlog.2.2⟩
  · refine ⟨?_, fun n hn => ?_, hlog.1, hlog.2.1, hlog.2.2⟩
    · change enabledOf host.py (exec host o c w').2 = _
      rw [enabledOf, exec_state ho]
      exact h.enabled
    · exact exec_keyring_grows (h.grown n hn)

/-- A script that writes neither the state nor the link leaves the toggle on the disk. -/
theorem toggled_keeps {parts : List Part} {α : Type} {q : Cmd α} (hq : Touches parts q) (hstate : .state ∉ parts)
    (hlink : .link ∉ parts) : Preserves (loggedServer host) any (Toggled host.py w proto) q := by
  refine .of_uses hq fun o ho c p _ hp => hp.step (fun heq => hstate (heq ▸ ho)) ?_
  rintro rfl
  exact hlink ho

/-- Where the preparation of the secrets may end: only the handler of an exception takes the toggle back. -/
def Prepared (py : CaseMap) (w : World) (proto : Protocol) (p : World × Log) : Prop :=
  Toggled py w proto p ∨ Restored py w p

/-- The handler's save. -/
theorem takeBack_ends {st : State} {w' : World} {l : Log} {name : String} {c : Choice} (hoff : proto.name ∉ enabledOf host.py w)
    (hst : st.enabled = toggled host.py w proto) (h : Toggled host.py w proto (w', l ++ [(.prepare name, c)])) :
    ends (loggedServer host) any (call (.saveState { st with enabled := st.enabled.filter (· ≠ proto.name) }))
      (fun _ => Prepared host.py w proto) (fun _ => Prepared host.py w proto) (Prepared host.py w proto)
      (w', l ++ [(.prepare name, c)]) := by
  have hsame : ∀ w'' : World, w''.state = some { st with enabled := st.enabled.filter (· ≠ proto.name) } →
      SameEnabled host.py w w'' := by
    intro w'' hw'' name
    rw [enabledOf, hw'', Option.getD_some, hst]
    exact mem_toggled_filter hoff
  have hsaved : ∃ e ∈ l, Saved e := by
    obtain ⟨e, he, hsaved⟩ := h.saved
    refine ⟨e, (List.mem_append.mp he).resolve_right fun hmem => ?_, hsaved⟩
    obtain rfl := List.mem_singleton.mp hmem
    exact not_saved_of_part (o := .prepare name) (c := c) nofun hsaved
  have hback : ∀ (c' : Choice) (st' : State), c'.fault.isBefore = false →
      TakenBack ((l ++ [(.prepare name, c)]) ++ [(.saveState st', c')]) := fun c' st' hc' =>
    ⟨l, name, c, [(.saveState st', c')], List.append_assoc .., hsaved, _, List.mem_singleton_self _, st', rfl, hc'⟩
  refine ends_logged (.inl h) (fun c' hc' => ?_) fun c' e _ => ?_
  · exact .inr ⟨hsame _ rfl, h.grown, hback c' _ (by rw [hc']; rfl)⟩
  · cases hbefore : c'.fault.isBefore with
    | true =>
      have hnot : ¬ Saved (.saveState { st with enabled := st.enabled.filter (· ≠ proto.name) }, c') := by
        rintro ⟨_, -, hsaved⟩
        rw [hbefore] at hsaved
        cases hsaved
      obtain ⟨e', he', hsaved⟩ := h.saved
      rw [withFaults_snd, if_pos hbefore]
      refine .inl ⟨h.enabled, h.grown, ⟨e', List.mem_append_left _ he', hsaved⟩, ?_, ?_⟩
      · rw [takenBack_append hnot]
        exact h.kept
      · exact fun hreplaced => h.waiting (replaced_append_save.mp hreplaced)
    | false =>
      rw [withFaults_snd, if_neg (by rw [hbefore]; exact Bool.false_ne_true)]
      exact .inr ⟨hsame _ rfl, h.grown, hback c' _ hbefore⟩

/-- The preparation of the secrets leaves the toggle, or takes it back when an exception comes out of it. -/
theorem prepareSecrets_ends {st : State} (hoff : proto.name ∉ enabledOf host.py w) (hst : st.enabled = toggled host.py w proto)
    (h : Toggled host.py w proto p) :
    ends (loggedServer host) any (prepareSecrets proto st) (fun _ => Toggled host.py w proto)
      (fun _ => Prepared host.py w proto) (Prepared host.py w proto) p := by
  have hkeeps : ∀ {α : Type} {q : Cmd α} (p : World × Log), Touches [.nothing, .keyring] q → Toggled host.py w proto p →
      ends (loggedServer host) any q (fun _ => Toggled host.py w proto) (fun _ => Prepared host.py w proto)
        (Prepared host.py w proto) p := fun p hq h =>
    ends_mono (toggled_keeps hq (by decide) (by decide) p h) (fun _ _ h => h) (fun _ _ h => .inl h) fun _ h => .inl h
  refine ends_seq (hkeeps _ ((missingSecrets_touches _).mono (by simp)) h) fun gaps p h => ends_ite (fun _ => h) (fun _ => ?_)
  obtain ⟨w', l⟩ := p
  refine ends_seq (M := fun _ => Toggled host.py w proto) (ends_tryExcept.mpr ?_) fun produced p h =>
    hkeeps _ (Script.uses_forM fun _ _ => Script.uses_op (by simp [Op.part])) h
  refine ends_logged (.inl h) (fun c hc => ?_) fun c e _ => ?_
  · have hstep := h.step (o := .prepare proto.name) (c := c) nofun nofun
    rw [server, withFaults, hc] at hstep
    exact hstep
  · have hstep := h.step (o := .prepare proto.name) (c := c) nofun nofun
    cases he : e.isException with
    | false =>
      rw [if_neg Bool.false_ne_true]
      exact .inl hstep
    | true =>
      rw [if_pos rfl]
      exact ends_seq (takeBack_ends hoff hst hstep) fun _ p h => h

/-- The save of the toggle. -/
theorem Quiet.toggled {py : CaseMap} (h : Quiet w [] p) {c : Choice} (hc : c.fault.isBefore = false) {w' : World}
    (hw' : enabledOf py w' = toggled py w proto) (hkeyring : w'.keyring = p.1.keyring) (st : State) :
    Toggled py w proto (w', p.2 ++ [(.saveState st, c)]) := by
  obtain ⟨rest, hlog, hrest⟩ := h.log
  rw [List.nil_append] at hlog
  refine ⟨hw', fun n hn => ?_, ⟨_, List.mem_append_right _ (List.mem_singleton_self _), st, rfl, hc⟩, ?_, ?_⟩
  · change w'.keyring n ≠ none
    rw [hkeyring, h.keyring]
    exact hn
  · exact not_takenBack_append fun e he => (hrest e (hlog ▸ he)).1
  · exact fun hreplaced => h.not_replaced not_replaced_nil (replaced_append_save.mp hreplaced)

/-- The part of the command behind its checks. -/
theorem toggleProtocol_ends (hoff : proto.name ∉ enabledOf host.py w) (h : Quiet w [] p) :
    ends (loggedServer host) any (toggleProtocol host.py proto (w.state.getD (State.default host.py)) true)
      (fun _ p => Through host.py p.1 p) (fun _ => Ending host.py w proto) (Ending host.py w proto) p := by
  refine ends_seq (M := fun _ => Toggled host.py w proto) ?_ fun _ p h => ?_
  · refine ends_logged (.untouched h) (fun c hc => ?_) fun c e _ => ?_
    · refine h.toggled (by rw [hc]; rfl) ?_ ?_ _ <;> rfl
    cases hbefore : c.fault.isBefore with
    | true => exact .untouched (h.step (.inl hbefore))
    | false =>
      rw [withFaults_snd, if_neg (by rw [hbefore]; exact Bool.false_ne_true)]
      refine .toggled (h.toggled hbefore ?_ ?_ _) <;> rfl
  have hprepared : ∀ p, Prepared host.py w proto p → Ending host.py w proto p := fun p h => h.elim .toggled .restored
  refine ends_seq (ends_mono (prepareSecrets_ends hoff rfl h) (fun _ _ h => h) (fun _ => hprepared) hprepared) fun _ p h => ?_
  obtain ⟨w1, l1⟩ := p
  have hsteady := ends_logged_of (@apply_steady host (enabledOf host.py w1) w1.keyring (.any Op World Choice) true w1 ⟨rfl, rfl⟩) l1
  have hlands := @apply_lands host w1 l1 _ true (Quiet.refl w1 l1)
  have hready : ∀ p : World × Log, Steady host.py (enabledOf host.py w1) w1.keyring p.1 → Through host.py w1 p →
      Through host.py p.1 p := by
    rintro p hp ⟨hreplaced, hready⟩
    refine ⟨hreplaced, fun q hq hname n hn => ?_⟩
    rw [hp.keyring]
    exact hready q hq (hp.enabled ▸ hname) n hn
  have hlanded : ∀ p : World × Log, Steady host.py (enabledOf host.py w1) w1.keyring p.1 → Landed host.py w1 l1 p →
      Ending host.py w proto p := by
    rintro p hp (hquiet | hthrough)
    · exact .toggled (h.quiet hquiet)
    · exact .through (hready p hp hthrough)
  exact ends_mono (ends_and hsteady hlands) (fun _ p h => hready p h.1 h.2) (fun _ p h => hlanded p h.1 h.2)
    fun p h => hlanded p h.1 h.2

/-- Where `protocol on` may end when it does not return. -/
def Exit (py : CaseMap) (w : World) (p : World × Log) : Prop :=
  Quiet w [] p ∨ ∃ proto : Protocol, proto.name ∉ enabledOf py w ∧ Ending py w proto p

/-- `protocol on`, wherever it ends. -/
theorem setProtocol_ends (host : Host) (name : String) (w : World) :
    ends (loggedServer host) any (setProtocol host.py name true) (fun _ => Returned host.py w) (fun _ => Exit host.py w)
      (Exit host.py w) (w, []) := by
  have hread : ∀ {α : Type} {q : Cmd α} (p : World × Log), Touches [.nothing] q → Quiet w [] p →
      ends (loggedServer host) any q (fun _ => Quiet w []) (fun _ => Exit host.py w) (Exit host.py w) p := fun p hq h =>
    ends_mono (quiet_keeps hq (by decide) (by decide) (by decide) p h) (fun _ _ h => h) (fun _ _ h => .inl h) fun _ h => .inl h
  refine ends_seq (hread _ (Touches.call (by simp [Op.part])) (Quiet.refl w [])) fun _ p h => ?_
  refine ends_seq (M := fun _ => Quiet w []) ?_ fun proto p h => ?_
  · rw [ends_lift]
    cases getProtocol host.py name with
    | ok proto => exact h
    | error e => exact .inl h
  refine ends_seq (M := fun st p => st = w.state.getD (State.default host.py) ∧ Quiet w [] p) ?_ fun st p h => ?_
  · refine ends_mono (quiet_call nofun nofun nofun h) (fun st p h => ?_) (fun _ _ h => .inl h) fun _ h => .inl h
    obtain ⟨h, c, w', hstate, -, rfl⟩ := h
    exact ⟨congrArg (Option.getD · _) hstate, h⟩
  obtain ⟨rfl, h⟩ := h
  refine ends_ite (fun _ => .inl h) fun hdiffers => ends_ite (fun _ => ?_) fun hon => absurd rfl hon
  have hoff : proto.name ∉ enabledOf host.py w := fun hmem => hdiffers (decide_eq_true hmem).symm
  refine ends_seq (hread _ (missingDeploymentConfig_touches proto) h) fun gap p h => ?_
  cases gap with
  | some gap => exact .inl h
  | none =>
    refine ends_map.mpr (ends_mono (toggleProtocol_ends hoff h) (fun _ _ h => .inr h) (fun _ p h => ?_) fun p h => ?_)
    · exact .inr ⟨proto, hoff, h⟩
    · exact .inr ⟨proto, hoff, h⟩

/-- Where nothing was promoted, the same protocols are on exactly when the toggle was undone. -/
theorem Exit.verdict {py : CaseMap} (h : Exit py w p) (hp : ¬ Replaced p.2) : SameEnabled py w p.1 ↔ Undone p.2 := by
  rcases h with h | ⟨proto, hoff, h⟩
  · obtain ⟨rest, hlog, hrest⟩ := h.log
    rw [List.nil_append] at hlog
    exact ⟨fun _ => .inl fun e he => (hrest e (hlog ▸ he)).1, fun _ => h.same⟩
  · exact h.verdict hoff hp

/-- A run of `protocol on`: how it ended, and what it called. -/
theorem setProtocol_run (host : Host) (name : String) (w : World) (cs : List Choice) :
    ((∃ a, ((setProtocol host.py name true).run (server host) cs w).1 = some (.ok a)) ∧
        Returned host.py w (((setProtocol host.py name true).run (server host) cs w).2,
          (setProtocol host.py name true).trace (server host) cs w)) ∨
      (Failed ((setProtocol host.py name true).run (server host) cs w).1 ∧
        Exit host.py w (((setProtocol host.py name true).run (server host) cs w).2,
          (setProtocol host.py name true).trace (server host) cs w)) := by
  have hends := ends_run_any (setProtocol_ends host name w) cs
  have hlogged := run_logged (m := server host) (setProtocol host.py name true) cs w []
  rw [Script.run, hlogged, List.nil_append] at hends
  change (∃ a, (run (server host) (setProtocol host.py name true) cs w).1 = some (.ok a)) ∧ _ ∨
    Failed (run (server host) (setProtocol host.py name true) cs w).1 ∧ _
  cases hr : (run (server host) (setProtocol host.py name true) cs w).1 with
  | none =>
    rw [hr] at hends
    exact .inr ⟨by simp [Failed], hends⟩
  | some r =>
    rw [hr] at hends
    cases r with
    | ok a => exact .inl ⟨⟨a, rfl⟩, hends⟩
    | error e => exact .inr ⟨by simp [Failed], hends⟩

end Command

/-! ## The other commands -/

section Others

variable {host : Host} {w : World}

/-- No protocol was switched on, and the keyring is the same. -/
def Shrunk (py : CaseMap) (w w' : World) : Prop := (∀ name ∈ enabledOf py w', name ∈ enabledOf py w) ∧ w'.keyring = w.keyring

/-- A server that had all its secrets has them with fewer protocols on. -/
theorem Shrunk.ready {py : CaseMap} {w' : World} (h : Shrunk py w w') (hw : Ready py w) : Ready py w' := by
  intro p hp hname n hn
  rw [h.2]
  exact hw p hp (h.1 _ hname) n hn

/-- A server is no more than it was where what is on is a part of what was. -/
theorem Steady.shrunk {py : CaseMap} {w' : World} {enabled : List String} (h : Steady py enabled w.keyring w')
    (hsub : ∀ name ∈ enabled, name ∈ enabledOf py w) : Shrunk py w w' :=
  ⟨fun name hname => hsub name (h.enabled ▸ hname), h.keyring⟩

/-- To queue a revocation writes the state back with the protocols it read there. -/
theorem queueRevocation_steady {d : Discipline Op World Choice} {enabled : List String} {keyring : String → Option Bytes}
    (user : User) : Steadily host d enabled keyring (queueRevocation user) := by
  refine .ite (steady_load fun st hst => ?_) (.pure _)
  by_cases hmem : user.name ∈ st.revokePending
  · rw [if_pos hmem]
    exact .pure _
  · rw [if_neg hmem]
    exact steady_save (by exact hst)

/-- The commands about users, and `apply`. -/
theorem command_steady {d : Discipline Op World Choice} {enabled : List String} {keyring : String → Option Bytes} (a : Action)
    (hon : ∀ name, a ≠ .protocolOn name) (hoff : ∀ name, a ≠ .protocolOff name) :
    Steadily host d enabled keyring (a.command host.py) := by
  have happly : ∀ restart, Steadily host d enabled keyring (VpnStack.apply host.py restart) := fun _ => apply_steady
  have hset : ∀ name on, Steadily host d enabled keyring (setEnabled host.py name on) := by
    intro name on
    refine .bind (steady_call nofun nofun) fun _ => .bind (steady_call nofun nofun) fun users => ?_
    cases Users.find host.py users name with
    | none => exact .raise _
    | some user =>
      have hwrite : Steadily host d enabled keyring (do
          call (.saveUsers (setFirst host.py on name users))
          VpnStack.apply host.py true) := .bind (steady_call nofun nofun) fun _ => happly true
      exact .ite hwrite (.bind (queueRevocation_steady user) fun _ => hwrite)
  cases a with
  | userAdd name =>
    refine .bind (.bind (steady_call nofun nofun) fun _ => ?_) fun _ => .pure _
    cases Users.validateName host.py name with
    | some error => exact .raise _
    | none =>
      refine .bind (steady_call nofun nofun) fun users => ?_
      cases Users.find host.py users name with
      | some user => exact .raise _
      | none =>
        exact .bind (steady_call nofun nofun) fun _ => .bind (steady_call nofun nofun) fun _ => happly true
  | userRm name =>
    refine .bind (.bind (steady_call nofun nofun) fun _ => .bind (steady_call nofun nofun) fun users => ?_) fun _ => .pure _
    cases Users.find host.py users name with
    | none => exact .raise _
    | some user =>
      exact .bind (queueRevocation_steady user) fun _ => .bind (steady_call nofun nofun) fun _ => happly true
  | userEnable name => exact .bind (hset name true) fun _ => .pure _
  | userDisable name => exact .bind (hset name false) fun _ => .pure _
  | protocolOn name => exact absurd rfl (hon name)
  | protocolOff name => exact absurd rfl (hoff name)
  | apply restart => exact .bind (happly restart) fun _ => .pure _

/-- `protocol off`. -/
theorem protocolOff_shrunk (name : String) :
    ends (server host) (.any Op World Choice) (setProtocol host.py name false) (fun _ => Shrunk host.py w)
      (fun _ => Shrunk host.py w) (Shrunk host.py w) w := by
  have hkeep : ∀ w', Steady host.py (enabledOf host.py w) w.keyring w' → Shrunk host.py w w' := fun w' h => h.shrunk fun _ h => h
  have hread : ∀ {α : Type} {q : Cmd α} (w' : World), Steadily host (.any Op World Choice) (enabledOf host.py w) w.keyring q →
      Steady host.py (enabledOf host.py w) w.keyring w' → ends (server host) (.any Op World Choice) q
        (fun _ => Steady host.py (enabledOf host.py w) w.keyring) (fun _ => Shrunk host.py w) (Shrunk host.py w) w' :=
    fun w' hq h => ends_mono (hq w' h) (fun _ _ h => h) (fun _ w' h => hkeep w' h) fun w' h => hkeep w' h
  refine ends_seq (hread w (steady_call nofun nofun) ⟨rfl, rfl⟩) fun _ w' h => ?_
  refine ends_seq (M := fun _ => Steady host.py (enabledOf host.py w) w.keyring) ?_ fun proto w' h => ?_
  · rw [ends_lift]
    cases getProtocol host.py name with
    | ok proto => exact h
    | error e => exact hkeep _ h
  refine ends_seq (M := fun st w' => st.enabled = enabledOf host.py w ∧ Steady host.py (enabledOf host.py w) w.keyring w') ?_
    fun st w' h => ?_
  · exact ends_exec (fun _ => hkeep _ h) (fun _ _ _ => ⟨h.enabled, h⟩) (fun _ _ _ _ => hkeep _ h) (fun _ _ _ _ => hkeep _ h)
  obtain ⟨hst, h⟩ := h
  refine ends_ite (fun _ => hkeep _ h) fun _ => ends_ite (fun hon => absurd hon Bool.false_ne_true) fun _ => ends_map.mpr ?_
  have hfewer : ∀ w', Steady host.py (st.enabled.filter (· ≠ proto.name)) w.keyring w' → Shrunk host.py w w' := fun w' h =>
    h.shrunk fun _ hname => hst ▸ (List.mem_filter.mp hname).1
  refine ends_seq (M := fun _ => Steady host.py (st.enabled.filter (· ≠ proto.name)) w.keyring) ?_ fun _ w' h => ?_
  · exact ends_exec (fun _ => hkeep _ h) (fun _ _ _ => ⟨rfl, h.keyring⟩) (fun _ _ _ _ => hkeep _ h)
      (fun _ _ _ _ => hfewer _ ⟨rfl, h.keyring⟩)
  · exact ends_mono (apply_steady w' h) (fun _ w' h => hfewer w' h) (fun _ w' h => hfewer w' h) fun w' h => hfewer w' h

/-- Every command but `protocol on` keeps what is on ready. -/
theorem command_ready (a : Action) (hon : ∀ name, a ≠ .protocolOn name) (cs : List Choice) (hw : Ready host.py w) :
    Ready host.py ((Step.command a cs).after host w) := by
  have hends : ends (server host) (.any Op World Choice) (a.command host.py) (fun _ => Shrunk host.py w)
      (fun _ => Shrunk host.py w) (Shrunk host.py w) w := by
    cases a with
    | protocolOff name => exact protocolOff_shrunk name
    | _ =>
      refine ends_mono (command_steady _ hon nofun w ⟨rfl, rfl⟩) (fun _ w' h => ?_) (fun _ w' h => ?_) fun w' h => ?_
      all_goals exact h.shrunk fun _ h => h
  have hrun := ends_run_any hends cs
  change Ready host.py ((a.command host.py).run (server host) cs w).2
  revert hrun
  generalize (a.command host.py).run (server host) cs w = result
  intro hrun
  obtain ⟨_ | r, w'⟩ := result
  · exact Shrunk.ready hrun hw
  · cases r with
    | ok r => exact Shrunk.ready hrun hw
    | error e => exact Shrunk.ready hrun hw

end Others

/-! ## Every run and every life -/

/-- A `protocol on` that fails in front of the promotion undoes its toggle. -/
def Kept (host : Host) (name : String) (cs : List Choice) (w : World) : Prop :=
  Failed ((setProtocol host.py name true).run (server host) cs w).1 →
    ¬ Replaced ((setProtocol host.py name true).trace (server host) cs w) →
    Undone ((setProtocol host.py name true).trace (server host) cs w)

/-- Every `protocol on` of a life does, and nobody takes a secret out of the keyring. -/
def Withstood (host : Host) : List Step → World → Prop
  | [], _ => True
  | .command (.protocolOn name) cs :: rest, w =>
    Kept host name cs w ∧ Withstood host rest ((Step.command (.protocolOn name) cs).after host w)
  | .event (.secret _ none) :: _, _ => False
  | step :: rest, w => Withstood host rest (step.after host w)

/-- A `protocol on` that undoes its failures leaves no secret missing. -/
theorem protocolOn_ready {host : Host} {name : String} {cs : List Choice} {w : World} (hkept : Kept host name cs w)
    (hw : Ready host.py w) : Ready host.py ((Step.command (.protocolOn name) cs).after host w) := by
  change Ready host.py ((setProtocol host.py name true).run (server host) cs w).2
  have hquiet : ∀ p, Quiet w [] p → Ready host.py p.1 := fun p h q hq hname n hn => by
    rw [h.keyring]
    exact hw q hq ((h.same _).mp hname) n hn
  rcases setProtocol_run host name w cs with ⟨-, h | h⟩ | ⟨hfailed, h | ⟨proto, hoff, h⟩⟩
  · exact hquiet _ h
  · exact h.2
  · exact hquiet _ h
  · refine h.ready hw fun htoggled => ?_
    have hundone := hkept hfailed htoggled.waiting
    exact hoff (((h.verdict hoff htoggled.waiting).mpr hundone proto.name).mp (by
      rw [htoggled.enabled, mem_toggled]
      exact .inl rfl))

/-- What happens between two commands takes no secret away, if nobody does. -/
theorem event_ready {host : Host} {e : Event} {w : World} (he : ∀ name, e ≠ .secret name none) (hw : Ready host.py w) :
    Ready host.py (e.after w) := by
  intro p hp hname n hn
  cases e with
  | secret name content =>
    change Function.update w.keyring name content n ≠ none
    rw [Function.update_apply]
    split
    · rintro rfl
      exact he name rfl
    · exact hw p hp hname n hn
  | _ => exact hw p hp hname n hn

/-- A `protocol on` that fails in front of the promotion leaves the enabled set as it was exactly if it failed before the
toggle was on the disk, or in `prepare` with the handler's save done. In a life whose every `protocol on` does, what is on is
never without a secret its renderer requires. -/
theorem protocolOn_undone_iff (host : Host) :
    (∀ (name : String) (cs : List Choice) (w : World),
      (Failed ((setProtocol host.py name true).run (server host) cs w).1 →
        ¬ Replaced ((setProtocol host.py name true).trace (server host) cs w) →
        SameEnabled host.py w ((setProtocol host.py name true).run (server host) cs w).2) ↔ Kept host name cs w) ∧
    ∀ (steps : List Step) (w : World), Withstood host steps w → Ready host.py w → Ready host.py (life host steps w) := by
  constructor
  · intro name cs w
    have hiff : Failed ((setProtocol host.py name true).run (server host) cs w).1 →
        ¬ Replaced ((setProtocol host.py name true).trace (server host) cs w) →
        (SameEnabled host.py w ((setProtocol host.py name true).run (server host) cs w).2 ↔
          Undone ((setProtocol host.py name true).trace (server host) cs w)) := by
      intro hfailed hreplaced
      rcases setProtocol_run host name w cs with ⟨⟨a, ha⟩, -⟩ | ⟨-, h⟩
      · exact absurd ha (hfailed a)
      · exact h.verdict hreplaced
    exact forall_congr' fun hfailed => forall_congr' fun hreplaced => hiff hfailed hreplaced
  · intro steps
    induction steps with
    | nil => exact fun w _ hw => hw
    | cons step steps ih =>
      intro w h hw
      cases step with
      | event e =>
        cases e with
        | secret name content =>
          cases content with
          | none => exact h.elim
          | some content => exact ih _ h (event_ready nofun hw)
        | _ => exact ih _ h (event_ready nofun hw)
      | command a cs =>
        cases a with
        | protocolOn name => exact ih _ h.2 (protocolOn_ready h.1 hw)
        | _ => exact ih _ h (command_ready _ (fun _ heq => by cases heq) cs hw)

/-- A server with nothing in its keyring and one protocol on. -/
def bareWorld : World :=
  { World.provisioned (fun _ => none) [] ⟨[], List.nodup_nil⟩ with state := some ⟨[], [], [], false⟩ }

/-- `protocol on hysteria2` dies on the secrets it lacks, and leaves hysteria2 on. -/
theorem protocolOn_missingSecret :
    ¬ ∀ (host : Host) (name : String) (cs : List Choice) (w : World),
      Failed ((setProtocol host.py name true).run (server host) cs w).1 →
        ¬ Replaced ((setProtocol host.py name true).trace (server host) cs w) →
        SameEnabled host.py w ((setProtocol host.py name true).run (server host) cs w).2 := by
  intro h
  have htrace : (setProtocol Host.sample.py "hysteria2" true).trace (server Host.sample) (List.replicate 8 {}) bareWorld =
      [(.requireServer, {}), (.loadState, {}), (.saveState ⟨["hysteria2"], [], [], false⟩, {}), (.loadSecrets, {}),
        (.requireServer, {}), (.ensureEnvLink, {}), (.loadState, {}), (.loadSecrets, {})] := rfl
  have hreplaced : ¬ Replaced ((setProtocol Host.sample.py "hysteria2" true).trace (server Host.sample)
      (List.replicate 8 {}) bareWorld) := by
    rw [htrace]
    rintro ⟨c, hmem, -⟩
    simp at hmem
  have hfailed : Failed ((setProtocol Host.sample.py "hysteria2" true).run (server Host.sample) (List.replicate 8 {})
      bareWorld).1 := nofun
  have hon : "hysteria2" ∈ enabledOf Host.sample.py ((setProtocol Host.sample.py "hysteria2" true).run (server Host.sample)
      (List.replicate 8 {}) bareWorld).2 := List.mem_singleton_self _
  exact List.not_mem_nil ((h Host.sample "hysteria2" (List.replicate 8 {}) bareWorld hfailed hreplaced _).mp hon)

end Toggle

end VpnStack

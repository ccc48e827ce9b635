import VpnStack.Firewall

/-!
# The timer is disarmed only over a proven connection

Whatever the connector, the sessions, the human and the screen do, and wherever the app is killed, the disarm goes out at most
once, on a connection that is not the primary one, shows the same host key and has run `true`; the step returns only when it
exited 0. Without such a connection the step throws and the timer stays armed.
-/

namespace VpnStack

open Interaction

namespace Firewall

/-! ## What was sent -/

/-- The disarm program, wherever it went. -/
def Event.disarms : Event → Bool
  | .onPrimary .disarmDeadman _ => true
  | .on _ (.sh .disarmDeadman) _ => true
  | _ => false

/-- The disarm has not been sent. -/
def Armed (l : List Event) : Prop := ∀ e ∈ l, e.disarms = false

/-- A program exited 0 on the primary connection. -/
def Succeeded (program : Program) (l : List Event) : Prop := ∃ r, .onPrimary program (some r) ∈ l ∧ r.ok

/-- The connection proved itself: it is another transport to the same host, and `true` exited 0 on it. -/
def Proves (own : Connection) (l : List Event) (c : Connection) : Prop :=
  c.transportId ≠ own.transportId ∧ c.hostKey.sameKeyAs own.hostKey ∧ ∃ r, .on c .prove (some r) ∈ l ∧ r.ok

section Events

variable {own c : Connection} {l l' : List Event} {program : Program}

theorem armed_nil : Armed [] := fun _ h => (List.not_mem_nil h).elim

theorem armed_append : Armed (l ++ l') ↔ Armed l ∧ Armed l' := List.forall_mem_append

theorem Succeeded.append (h : Succeeded program l) : Succeeded program (l ++ l') :=
  h.imp fun _ h => ⟨List.mem_append_left _ h.1, h.2⟩

theorem Proves.append (h : Proves own l c) : Proves own (l ++ l') c :=
  ⟨h.1, h.2.1, h.2.2.imp fun _ h => ⟨List.mem_append_left _ h.1, h.2⟩⟩

theorem countP_disarms_of_armed (h : Armed l) : l.countP Event.disarms = 0 :=
  List.countP_eq_zero.mpr fun e he => by rw [h e he]; exact Bool.false_ne_true

end Events

/-! ## The calls that are not the disarm -/

/-- A call that does not send the disarm. -/
def Op.Harmless : Op → Prop
  | .runPrimary .disarmDeadman => False
  | .run _ (.sh .disarmDeadman) => False
  | _ => True

/-- The world has seen more than `l` since, and the disarm is not among it. -/
def After (l : List Event) (w : World) : Prop := ∃ more, w.sent = l ++ more ∧ Armed more

theorem After.refl (w : World) : After w.sent w := ⟨[], (List.append_nil _).symm, armed_nil⟩

/-- Two stretches without the disarm make one. -/
theorem After.trans {l : List Event} {w w' : World} (h : After l w) (h' : After w.sent w') : After l w' := by
  obtain ⟨more, hw, hm⟩ := h
  obtain ⟨more', hw', hm'⟩ := h'
  exact ⟨more ++ more', by rw [hw', hw, List.append_assoc], armed_append.mpr ⟨hm, hm'⟩⟩

/-- What was not sent before such a stretch is not sent behind it. -/
theorem After.armed {l : List Event} {w : World} (h : After l w) (hl : Armed l) : Armed w.sent := by
  obtain ⟨more, hw, hm⟩ := h
  rw [hw]
  exact armed_append.mpr ⟨hl, hm⟩

/-- What succeeded before it still has. -/
theorem After.succeeded {l : List Event} {w : World} {program : Program} (h : After l w) (hl : Succeeded program l) :
    Succeeded program w.sent := by
  obtain ⟨more, hw, -⟩ := h
  rw [hw]
  exact hl.append

/-- What proved itself before it still has. -/
theorem After.proves {l : List Event} {w : World} {own c : Connection} (h : After l w) (hl : Proves own l c) :
    Proves own w.sent c := by
  obtain ⟨more, hw, -⟩ := h
  rw [hw]
  exact hl.append

/-- The step lemma: a harmless call sends something else, if anything. -/
theorem after_outside {o : Op} (ho : o.Harmless) (c : Choice) (w : World) : After w.sent (outside o c w).2 := by
  cases o with
  | runPrimary program => exact ⟨[.onPrimary program _], rfl, by cases program <;> simp_all [Armed, Event.disarms, Op.Harmless]⟩
  | run connection argv =>
    refine ⟨[.on connection argv _], rfl, ?_⟩
    cases argv with
    | prove => simp [Armed, Event.disarms]
    | sh program => cases program <;> simp_all [Armed, Event.disarms, Op.Harmless]
  | progress => exact After.refl w
  | sleep => exact After.refl w
  | connect => exact After.refl w
  | close connection => exact After.refl w
  | ask offered pinned => exact After.refl w
  | remember offered => exact After.refl w
  | pinned => exact After.refl w
  | pin offered => exact After.refl w

variable {α : Type} {l : List Event} {w : World} {own : Connection} {ctx : Context}

/-- The frame rule of a script that does not send the disarm. -/
theorem ends_harmless {p : Prov α} (hp : p.Uses Op.Harmless) (hw : After l w) :
    ends outside (.any Op World Choice) p (fun _ => After l) (fun _ => After l) (After l) w :=
  ends_of_uses hp (fun _ ho c _ _ hw => hw.trans (after_outside ho c _)) hw

/-- The judgement of a key does not send the disarm. -/
theorem harmless_verify (policy : Policy) (offered : HostKey) : (verify policy offered).Uses Op.Harmless := by
  refine Script.uses_bind (Script.uses_op trivial) fun pinned => Script.uses_ite (fun _ => Script.uses_pure ()) fun _ => ?_
  refine Script.uses_ite (fun _ => Script.uses_raise _) fun _ => Script.uses_bind (Script.uses_op trivial) fun decision => ?_
  cases decision with
  | refuse => exact Script.uses_raise _
  | trustOnce => exact Script.uses_op trivial
  | trust =>
    exact Script.uses_bind (Script.uses_op trivial) fun _ =>
      Script.uses_ite (fun _ => Script.uses_op trivial) fun _ => Script.uses_pure ()

/-- The opening of a connection does not send the disarm. -/
theorem harmless_openVerified (policy : Policy) : (openVerified policy).Uses Op.Harmless := by
  have hanswering : (openAnswering policy).Uses Op.Harmless := by
    refine Script.uses_tryExcept (Script.uses_op trivial) fun e q hq => ?_
    cases e with
    | hostKeyUnknown offered =>
      rw [← Option.some_inj.mp hq]
      exact Script.uses_bind (harmless_verify policy offered) fun _ => Script.uses_op trivial
    | _ => nomatch hq
  refine Script.uses_bind hanswering fun connection => Script.uses_bind (Script.uses_op trivial) fun pinned =>
    Script.uses_ite (fun _ => Script.uses_pure _) fun _ => Script.uses_bind ?_ fun _ => Script.uses_raise _
  refine Script.uses_tryExcept (Script.uses_op trivial) fun e q hq => ?_
  rw [← Option.some_inj.mp hq]
  exact Script.uses_pure ()

/-- Closing the connection that proved itself does not send the disarm. -/
theorem harmless_closeProver (prover : Connection) : (closeProver prover).Uses Op.Harmless := by
  refine Script.uses_tryExcept (Script.uses_op trivial) fun e q hq => ?_
  rw [← Option.some_inj.mp hq]
  exact Script.uses_op trivial

/-! ## A proof -/

/-- A connection that passed the two comparisons and ran `true` has proved itself. -/
theorem ends_proveOn (hctx : ctx.primary = some own) (fresh : Connection) (hw : After l w) :
    ends outside (.any Op World Choice) (proveOn ctx fresh)
      (fun proof w => After l w ∧ ∀ c, proof = .proved c → Proves own w.sent c) (fun _ => After l) (After l) w := by
  have hclose : ∀ (f : Failure) (w : World), After l w → ends outside (.any Op World Choice)
      (closeProver fresh >>= fun _ => (pure (.failed f) : Prov Proof))
      (fun proof w => After l w ∧ ∀ c, proof = .proved c → Proves own w.sent c) (fun _ => After l) (After l) w :=
    fun f w hw => ends_seq (ends_harmless (harmless_closeProver fresh) hw) fun _ w hw =>
      (ends_pure _).mpr ⟨hw, fun c hc => nomatch hc⟩
  unfold proveOn
  refine ends_ite (fun _ => hclose _ w hw) fun htransport => ?_
  rw [hctx] at htransport ⊢
  cases hkey : fresh.hostKey.sameKeyAs own.hostKey with
  | false =>
    simp only [Option.filter_some, hkey, Bool.not_false, if_true]
    exact hclose _ w hw
  | true =>
    simp only [Option.filter_some, hkey, Bool.not_true, Bool.false_eq_true, if_false]
    refine ends_bind.mpr ((ends_op _).mpr ⟨fun _ => hw, fun c _ => ?_⟩)
    have hafter : After l (outside (.run fresh .prove) c w).2 := hw.trans (after_outside (o := .run fresh .prove) trivial c w)
    change Post _ _ (c.answer (.run fresh .prove)) _
    cases hanswer : c.answer (.run fresh .prove) with
    | error e => exact hafter
    | ok result =>
      refine ends_ite (fun hok => (ends_pure _).mpr ⟨hafter, fun c' hc' => ?_⟩) fun _ => hclose _ _ hafter
      obtain rfl := Proof.proved.inj hc'
      refine ⟨fun h => htransport (by simp [h]), hkey, result, ?_, hok⟩
      change _ ∈ w.sent ++ [Event.on fresh .prove (c.answer (.run fresh .prove)).toOption]
      rw [hanswer]
      exact List.mem_append_right _ (List.mem_singleton.mpr rfl)

/-- One attempt does not send the disarm, and the connection it returns has proved itself. -/
theorem ends_prove (hctx : ctx.primary = some own) (hw : After l w) :
    ends outside (.any Op World Choice) (prove ctx)
      (fun proof w => After l w ∧ ∀ c, proof = .proved c → Proves own w.sent c) (fun _ => After l) (After l) w := by
  refine ends_bind.mpr (ends_attempt.mpr (ends_mono (ends_harmless (harmless_openVerified ctx.policy) hw) ?_ ?_ fun _ h => h))
  · intro fresh w hw
    refine ends_tryExcept.mpr (ends_mono (ends_proveOn hctx fresh hw) (fun _ _ h => h) ?_ fun _ h => h)
    intro e w hw
    exact ends_seq (ends_harmless (harmless_closeProver fresh) hw) fun _ w hw =>
      (ends_pure _).mpr ⟨hw, fun c hc => nomatch hc⟩
  · intro e w hw
    exact (ends_pure _).mpr ⟨hw, fun c hc => nomatch hc⟩

/-! ## The programs on the primary connection -/

/-- A checked program that returns has exited 0. -/
theorem ends_runChecked (hctx : ctx.primary = some own) {program : Program} (hp : program ≠ .disarmDeadman) (what : String)
    (hw : After l w) :
    ends outside (.any Op World Choice) (ctx.runChecked program what)
      (fun _ w => After l w ∧ Succeeded program w.sent) (fun _ => After l) (After l) w := by
  have hharmless : Op.Harmless (.runPrimary program) := by cases program <;> simp_all [Op.Harmless]
  unfold Context.runChecked Context.run
  rw [hctx]
  refine ends_bind.mpr (ends_tryExcept.mpr ((ends_op _).mpr ⟨fun _ => hw, fun c _ => ?_⟩))
  have hafter : After l (outside (.runPrimary program) c w).2 := hw.trans (after_outside hharmless c w)
  change Post _ _ (c.answer (.runPrimary program)) _
  cases hanswer : c.answer (.runPrimary program) with
  | error e => exact hafter
  | ok result =>
    refine ends_ite (fun hok => (ends_pure _).mpr ⟨hafter, result, ?_, hok⟩) fun _ => (ends_raise _).mpr hafter
    change _ ∈ w.sent ++ [Event.onPrimary program (c.answer (.runPrimary program)).toOption]
    rw [hanswer]
    exact List.mem_append_right _ (List.mem_singleton.mpr rfl)

/-- Where `ufw enable` is passed, it exited 0. -/
theorem ends_enable (hctx : ctx.primary = some own) (pid : Text) (hw : After l w) :
    ends outside (.any Op World Choice) (enable ctx pid)
      (fun _ w => After l w ∧ Succeeded .enableUfw w.sent) (fun _ => After l) (After l) w := by
  refine ends_tryExcept.mpr (ends_mono (ends_seq (ends_runChecked hctx (by decide) _ hw) fun enabled w hw => ?_)
    (fun _ _ h => h) (fun e w hw => ?_) fun _ h => h)
  · -- The lines for the screen send nothing.
    have hlines : ((((enabled.combined.splitOn '\n').filter fun line => !(trim line).isEmpty).forM fun _ =>
        call .progress) : Prov Unit).Uses Op.Harmless := Script.uses_forM fun _ _ => Script.uses_op trivial
    refine ends_mono (ends_harmless hlines (After.refl w)) (fun _ w' h => ?_) (fun _ w' h => hw.1.trans h) fun w' h => hw.1.trans h
    exact ⟨hw.1.trans h, h.succeeded hw.2⟩
  · cases hprovision : e.isProvision with
    | true => exact (ends_raise _).mpr hw
    | false => exact hw

/-! ## The disarm -/

/-- What was sent, once the disarm may have been: at most once, to a connection that had proved itself by then, and only after
the timer was armed and the firewall enabled. -/
def Sound (own : Connection) (l : List Event) : Prop :=
  Armed l ∨ ∃ before c r after, l = before ++ .on c (.sh .disarmDeadman) r :: after ∧ Armed before ∧ Armed after ∧
    Proves own before c ∧ Succeeded .armDeadman before ∧ Succeeded .enableUfw before

/-- The disarm exited 0. -/
def Disarmed (l : List Event) : Prop := ∃ c r, .on c (.sh .disarmDeadman) (some r) ∈ l ∧ r.ok

/-- The world in front of the disarm. -/
structure Ready (w : World) : Prop where
  armed : Armed w.sent
  arm : Succeeded .armDeadman w.sent
  enable : Succeeded .enableUfw w.sent

theorem Ready.after {w w' : World} (h : Ready w) (h' : After w.sent w') : Ready w' :=
  ⟨h'.armed h.armed, h'.succeeded h.arm, h'.succeeded h.enable⟩

/-- What comes after does not make it less sound. -/
theorem Sound.after {w w' : World} (h : Sound own w.sent) (h' : After w.sent w') : Sound own w'.sent := by
  obtain ⟨more, hw, hm⟩ := h'
  rw [hw]
  rcases h with h | ⟨before, c, r, after, heq, hb, ha, hrest⟩
  · exact .inl (armed_append.mpr ⟨h, hm⟩)
  · exact .inr ⟨before, c, r, after ++ more, by rw [heq]; simp, hb, armed_append.mpr ⟨ha, hm⟩, hrest⟩

/-- A disarm that exited 0 has done so for good. -/
theorem Disarmed.after {w w' : World} (h : Disarmed w.sent) (h' : After w.sent w') : Disarmed w'.sent := by
  obtain ⟨more, hw, -⟩ := h'
  rw [hw]
  exact h.imp fun _ h => h.imp fun _ h => ⟨List.mem_append_left _ h.1, h.2⟩

/-- The disarm on a connection that proved itself: it returns only when the program exited 0. -/
theorem ends_disarm (pid : Text) {proven : Connection} (hw : Ready w) (hp : Proves own w.sent proven) :
    ends outside (.any Op World Choice) (disarm ctx proven pid)
      (fun _ w => Sound own w.sent ∧ Disarmed w.sent) (fun _ w => Sound own w.sent) (fun w => Sound own w.sent) w := by
  have harmed : Sound own w.sent := .inl hw.armed
  refine ends_bind.mpr (ends_tryExcept.mpr ((ends_op _).mpr ⟨fun _ => harmed, fun c _ => ?_⟩))
  have hsound : Sound own (outside (.run proven (.sh .disarmDeadman)) c w).2.sent :=
    .inr ⟨w.sent, proven, _, [], rfl, hw.armed, armed_nil, hp, hw.arm, hw.enable⟩
  change Post _ _ (c.answer (.run proven (.sh .disarmDeadman))) _
  cases hanswer : c.answer (.run proven (.sh .disarmDeadman)) with
  | error e => exact hsound
  | ok result =>
    refine ends_ite (fun hok => (ends_pure _).mpr ⟨hsound, proven, result, ?_, hok⟩) fun _ => (ends_raise _).mpr hsound
    change _ ∈ w.sent ++ [Event.on proven (.sh .disarmDeadman) (c.answer (.run proven (.sh .disarmDeadman))).toOption]
    rw [hanswer]
    exact List.mem_append_right _ (List.mem_singleton.mpr rfl)

/-- Closing the prover leaves what was disarmed. -/
theorem ends_closing (proven : Connection) {P : List Event → Prop} (hP : ∀ {w w' : World}, P w.sent → After w.sent w' → P w'.sent)
    (hw : P w.sent) :
    ends outside (.any Op World Choice) (closeProver proven) (fun _ w => P w.sent) (fun _ w => P w.sent) (fun w => P w.sent) w :=
  ends_mono (ends_harmless (harmless_closeProver proven) (After.refl w)) (fun _ _ h => hP hw h) (fun _ _ h => hP hw h)
    fun _ h => hP hw h

/-- The attempts, by induction on how many are left: each of them leaves the timer armed, up to the one that disarms it. -/
theorem ends_attempts (hctx : ctx.primary = some own) (pid : Text) (left attempt : Nat) (failures : List Failure) (hw : Ready w) :
    ends outside (.any Op World Choice) (attempts ctx pid left attempt failures)
      (fun _ w => Sound own w.sent ∧ Disarmed w.sent) (fun _ w => Sound own w.sent) (fun w => Sound own w.sent) w := by
  induction left generalizing attempt failures w with
  | zero => exact (ends_raise _).mpr (.inl hw.armed)
  | succ left ih =>
    have hsound : ∀ {w' : World}, After w.sent w' → Sound own w'.sent := fun h => .inl (h.armed hw.armed)
    have hpause : (pause attempt).Uses Op.Harmless :=
      Script.uses_ite (fun _ => Script.uses_op trivial) fun _ => Script.uses_pure ()
    have hprogress : (call .progress).Uses Op.Harmless := Script.uses_op trivial
    refine ends_seq (ends_mono (ends_harmless hpause (After.refl w)) (fun _ _ h => h) (fun _ _ h => hsound h) fun _ h => hsound h)
      fun _ w₁ h₁ => ?_
    refine ends_seq (ends_mono (ends_harmless hprogress h₁) (fun _ _ h => h) (fun _ _ h => hsound h) fun _ h => hsound h)
      fun _ w₂ h₂ => ?_
    refine ends_seq (ends_mono (ends_prove hctx h₂) (fun _ _ h => h) (fun _ _ h => hsound h) fun _ h => hsound h)
      fun proof w₃ h₃ => ?_
    obtain ⟨h₃, hproved⟩ := h₃
    cases proof with
    | failed failure => exact ih (attempt + 1) (failures ++ [failure]) (hw.after h₃)
    | proved proven =>
      refine ends_seq (ends_mono (ends_harmless hprogress (After.refl w₃)) (fun _ _ h => h) (fun _ _ h => hsound (h₃.trans h))
        fun _ h => hsound (h₃.trans h)) fun _ w₄ h₄ => ?_
      have hready : Ready w₄ := (hw.after h₃).after h₄
      have hproves : Proves own w₄.sent proven := h₄.proves (hproved proven rfl)
      refine ends_bind.mpr (ends_tryFinally.mpr (ends_mono (ends_disarm pid hready hproves) ?_ ?_ fun _ h => h))
      · intro _ w₅ h₅
        refine ends_mono (ends_closing proven (P := fun l => Sound own l ∧ Disarmed l)
          (fun h h' => ⟨h.1.after h', h.2.after h'⟩) h₅) (fun _ _ h => (ends_pure _).mpr h) (fun _ _ h => h.1) fun _ h => h.1
      · intro _ w₅ h₅
        exact ends_closing proven (P := Sound own) (fun h h' => h.after h') h₅

/-- The whole step, from a world in which nothing was sent. -/
theorem ends_runFirewallStep (hctx : ctx.primary = some own) (hw : w.sent = []) :
    ends outside (.any Op World Choice) (runFirewallStep ctx)
      (fun _ w => Sound own w.sent ∧ Disarmed w.sent) (fun _ w => Sound own w.sent) (fun w => Sound own w.sent) w := by
  have hnil : After [] w := hw ▸ After.refl w
  have hsound : ∀ {w' : World}, After [] w' → Sound own w'.sent := fun h => .inl (h.armed armed_nil)
  have hprogress : (call .progress).Uses Op.Harmless := Script.uses_op trivial
  refine ends_seq (ends_mono (ends_runChecked hctx (by decide) _ hnil) (fun _ _ h => h) (fun _ _ h => hsound h) fun _ h => hsound h)
    fun armed w₁ h₁ => ?_
  refine ends_seq (ends_mono (ends_harmless hprogress (After.refl w₁)) (fun _ _ h => h) (fun _ _ h => hsound (h₁.1.trans h))
    fun _ h => hsound (h₁.1.trans h)) fun _ w₂ h₂ => ?_
  have harm : Succeeded .armDeadman w₂.sent := h₂.succeeded h₁.2
  have h₂ : After [] w₂ := h₁.1.trans h₂
  refine ends_seq (ends_mono (ends_enable hctx _ (After.refl w₂)) (fun _ _ h => h) (fun _ _ h => hsound (h₂.trans h))
    fun _ h => hsound (h₂.trans h)) fun _ w₃ h₃ => ?_
  exact ends_attempts hctx _ _ _ _ ⟨(h₂.trans h₃.1).armed armed_nil, h₃.1.succeeded harm, h₃.2⟩

/-- Where the disarm is among what was sent, it is the one of a sound log. -/
theorem Sound.disarm {l before after : List Event} {e : Event} (h : Sound own l) (hl : l = before ++ e :: after)
    (he : e.disarms) : (∃ c r, e = .on c (.sh .disarmDeadman) r ∧ Proves own before c) ∧ Succeeded .armDeadman before ∧
      Succeeded .enableUfw before := by
  rcases h with h | ⟨before', c, r, after', hl', hb, ha, hp, harm, henable⟩
  · rw [h e (by rw [hl]; simp)] at he
    nomatch he
  · -- What is in front of the one and what is in front of the other is the same: neither is longer.
    rw [hl] at hl'
    rcases List.append_eq_append_iff.mp hl' with ⟨mid, hbefore', hrest⟩ | ⟨mid, hbefore, hrest⟩
    · cases mid with
      | nil =>
        rw [List.append_nil] at hbefore'
        obtain ⟨rfl, -⟩ := List.cons.inj hrest
        rw [← hbefore']
        exact ⟨⟨c, r, rfl, hp⟩, harm, henable⟩
      | cons x mid =>
        obtain ⟨rfl, -⟩ := List.cons.inj hrest
        rw [hb e (by rw [hbefore']; simp)] at he
        nomatch he
    · cases mid with
      | nil =>
        rw [List.append_nil] at hbefore
        obtain ⟨rfl, -⟩ := List.cons.inj hrest
        rw [hbefore]
        exact ⟨⟨c, r, rfl, hp⟩, harm, henable⟩
      | cons x mid =>
        obtain ⟨-, hafter'⟩ := List.cons.inj hrest
        rw [ha e (by rw [hafter']; simp)] at he
        nomatch he

/-- What is sound has sent the disarm at most once. -/
theorem Sound.countP {l : List Event} (h : Sound own l) : l.countP Event.disarms ≤ 1 := by
  rcases h with h | ⟨before, c, r, after, rfl, hb, ha, -⟩
  · rw [countP_disarms_of_armed h]
    exact Nat.zero_le 1
  · rw [List.countP_append, List.countP_cons, countP_disarms_of_armed hb, countP_disarms_of_armed ha]
    simp [Event.disarms]

/-- A sound log with the disarm in it tells of a proof, of the arming and of the enabling. -/
theorem Sound.armed {l : List Event} (h : Sound own l)
    (hfails : ¬ Succeeded .armDeadman l ∨ ¬ Succeeded .enableUfw l ∨ ∀ c, ¬ Proves own l c) : Armed l := by
  rcases h with h | ⟨before, c, r, after, rfl, -, -, hp, harm, henable⟩
  · exact h
  · rcases hfails with hf | hf | hf
    · exact absurd harm.append hf
    · exact absurd henable.append hf
    · exact absurd hp.append (hf c)

/-- A disarm that was not sent did not exit 0. -/
theorem Armed.not_disarmed {l : List Event} (h : Armed l) : ¬ Disarmed l := by
  rintro ⟨c, r, hm, -⟩
  exact Bool.false_ne_true ((h _ hm).symm.trans rfl)

/-- Whatever the outside answers and wherever the app is killed, once the primary connection is open: the disarm goes out only
on a connection that proved itself, at most once; the step returns only when it exited 0; and where nothing proved itself, or
arming or enabling failed, the step throws and the disarm was never sent. -/
theorem firewall_step (ctx : Context) (own : Connection) (pinned : Option HostKey) (cs : List Choice) :
    let out := (runFirewallStep { ctx with primary := some own }).run outside cs ⟨pinned, []⟩
    (∀ before e after, out.2.sent = before ++ e :: after → e.disarms →
      ∃ c r, e = .on c (.sh .disarmDeadman) r ∧ Proves own before c) ∧
    out.2.sent.countP Event.disarms ≤ 1 ∧
    (out.1 = some (.ok ()) → Disarmed out.2.sent) ∧
    (∀ r, out.1 = some r →
      ¬ Succeeded .armDeadman out.2.sent ∨ ¬ Succeeded .enableUfw out.2.sent ∨ (∀ c, ¬ Proves own out.2.sent c) →
        (∃ e, r = .error e) ∧ Armed out.2.sent) := by
  intro out
  have hopen : ({ ctx with primary := some own } : Context).primary = some own := rfl
  have hnil : (⟨pinned, []⟩ : World).sent = [] := rfl
  have hends := ends_run_any (ends_runFirewallStep hopen hnil) cs
  change Ends _ _ out at hends
  have hsound : Sound own out.2.sent := by
    rcases hout : out with ⟨r, w⟩
    rw [hout] at hends
    rcases r with _ | (_ | _)
    · exact hends
    · exact hends
    · exact hends.1
  have hreturns : out.1 = some (.ok ()) → Disarmed out.2.sent := by
    intro hok
    rcases hout : out with ⟨r, w⟩
    rw [hout] at hends hok
    change r = _ at hok
    subst hok
    exact hends.2
  refine ⟨fun before e after hl he => (hsound.disarm hl he).1, hsound.countP, hreturns, fun r hr hfails => ?_⟩
  have harmed := hsound.armed hfails
  refine ⟨?_, harmed⟩
  cases r with
  | error e => exact ⟨e, rfl⟩
  | ok u => exact absurd (hreturns hr) harmed.not_disarmed

end Firewall

end VpnStack

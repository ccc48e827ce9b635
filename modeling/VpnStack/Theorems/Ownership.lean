import VpnStack.Firewall

/-!
# Who closes the connections a connector yields

A connect is abandoned at the caller's timeout, and may still yield its connection later. The ledger keeps every connection a
connector yielded and every one `close` was called on. A connect that was given up is the one whose connection nobody gets:
where none of these yields any, `openVerified` returns or closes what it opened, and a run of the firewall step leaves nothing
open.
-/

namespace VpnStack

open Interaction

namespace Firewall

/-! ## The outside, with the connections it yields -/

/-- How a connect completes: before the caller's timeout, or after it. -/
inductive Opening where
  | inTime (outcome : Except Error Connection)
  | late (outcome : Except Error Connection)

/-- What the caller gets. -/
def Opening.answer : Opening → Except Error Connection
  | .inTime outcome => outcome
  | .late _ => .error .timeout

/-- What the connector yields, once the connect has completed. -/
def Opening.yields : Opening → List Connection
  | .inTime outcome | .late outcome => outcome.toOption.toList

/-- What a connect that was given up yields. -/
def Opening.abandoned : Opening → List Connection
  | .inTime _ => []
  | .late outcome => outcome.toOption.toList

/-- The policy's pinned key, the connections the connects yielded, and those that were closed. -/
structure Ledger where
  pinned : Option HostKey
  yielded : List Connection := []
  closed : List Connection := []

/-- What the outside does at a call: how a connect completes, the key the connector had the policy pin while it connected, and
the answer to any other call. -/
structure Behaviour where
  answer : (o : Op) → Except Error (Answer o)
  opening : Opening
  pinned : Option HostKey

/-- Every call is answered by the outside, but for the policy's own field. A close is a close even where it throws. -/
def ledger : ScriptMachine Error Op Answer Ledger Behaviour := fun o b w =>
  match o with
  | .pinned => (.ok w.pinned, w)
  | .pin offered => (.ok (), { w with pinned := some offered })
  | .connect => (b.opening.answer, { w with pinned := b.pinned, yielded := w.yielded ++ b.opening.yields })
  | .close connection => (b.answer (.close connection), { w with closed := w.closed ++ [connection] })
  | .runPrimary program => (b.answer (.runPrimary program), w)
  | .run connection argv => (b.answer (.run connection argv), w)
  | .progress => (b.answer .progress, w)
  | .sleep => (b.answer .sleep, w)
  | .ask offered pinned => (b.answer (.ask offered pinned), w)
  | .remember offered => (b.answer (.remember offered), w)

/-- Every connection that was yielded is closed, but for those of `held`. -/
def Owned (held : List Connection) (w : Ledger) : Prop := ∀ c ∈ w.yielded, c ∈ w.closed ∨ c ∈ held

/-- The runs in which no connect that was given up yields a connection, and the screen takes a line wherever a connection is
open. -/
def tidy : Discipline Op Ledger Behaviour where
  choice o b w := match o with
    | .connect => b.opening.abandoned = []
    | .progress => (∃ e, b.answer .progress = .error e) → Owned [] w
    | _ => True
  stop _ _ := True

section Owned

variable {held held' : List Connection} {w : Ledger} {c : Connection}

theorem Owned.mono (h : Owned held w) (hsub : ∀ c ∈ held, c ∈ held') : Owned held' w :=
  fun c hc => (h c hc).imp_right (hsub c)

theorem Owned.weaken (h : Owned [] w) : Owned held w := h.mono fun _ hc => absurd hc List.not_mem_nil

/-- A close settles what was held. -/
theorem Owned.close (h : Owned [c] w) : Owned [] { w with closed := w.closed ++ [c] } := by
  intro y hy
  rcases h y hy with hclosed | hheld
  · exact .inl (List.mem_append_left _ hclosed)
  · exact .inl (List.mem_append_right _ hheld)

/-- A connect that was not given up yields what the caller gets, and nothing when that is an error. -/
theorem yields_of_abandoned {o : Opening} (h : o.abandoned = []) : o.yields = o.answer.toOption.toList := by
  cases o with
  | inTime outcome => rfl
  | late outcome => exact h

end Owned

/-! ## The calls -/

/-- A call that neither opens nor closes a connection, nor shows a line. -/
def Op.Neutral : Op → Prop
  | .connect | .close _ | .progress => False
  | _ => True

/-- What an attempt leaves open: the connection that proved itself. -/
def Proof.held : Proof → List Connection
  | .proved c => [c]
  | .failed _ => []

/-- The specification of a script: what it leaves open when it returns, and when it throws. -/
def Leaves (p : Prov α) (returning : α → List Connection) (throwing : List Connection) (w : Ledger) : Prop :=
  ends ledger tidy p (fun a => Owned (returning a)) (fun _ => Owned throwing) (fun _ => True) w

variable {α β : Type} {held held' : List Connection} {returning : α → List Connection} {w : Ledger} {ctx : Context}

/-- The rule of sequence. -/
theorem Leaves.seq {p : Prov β} {f : β → Prov α} {mid : β → List Connection} (hp : Leaves p mid held w)
    (hf : ∀ b w, Owned (mid b) w → Leaves (f b) returning held w) : Leaves (p >>= f) returning held w :=
  ends_seq hp hf

/-- What is closed for the error is closed for the larger one. -/
theorem Leaves.weaken {p : Prov α} (h : Leaves p returning [] w) : Leaves p returning held w :=
  ends_mono h (fun _ _ h => h) (fun _ _ h => h.weaken) fun _ h => h

/-- The rule of `try ... except`, where the handler may be met with any error. -/
theorem Leaves.tryExcept {p : Prov α} {f : Error → Option (Prov α)} (hp : Leaves p returning held w)
    (hnone : ∀ e, f e = none → ∀ w, Owned held w → Owned held' w)
    (hsome : ∀ e q, f e = some q → ∀ w, Owned held w → Leaves q returning held' w) :
    Leaves (Script.tryExcept p f) returning held' w := by
  refine ends_tryExcept.mpr (ends_mono hp (fun _ _ h => h) (fun e w hw => ?_) fun _ h => h)
  cases hf : f e with
  | none => exact hnone e hf w hw
  | some q => exact hsome e q hf w hw

/-- The step lemma: a neutral call leaves the connections as they are. -/
theorem owned_ledger {o : Op} (ho : o.Neutral) (b : Behaviour) (w : Ledger) (hw : Owned held w) :
    Owned held (ledger o b w).2 := by
  cases o with
  | connect => exact ho.elim
  | close connection => exact ho.elim
  | progress => exact ho.elim
  | _ => exact hw

/-- The frame rule of a script that neither opens nor closes. -/
theorem leaves_neutral {p : Prov α} (hp : p.Uses Op.Neutral) (hw : Owned held w) : Leaves p (fun _ => held) held w :=
  ends_mono (ends_of_uses hp (fun _ ho b w _ hw => owned_ledger ho b w hw) hw) (fun _ _ h => h) (fun _ _ h => h)
    fun _ _ => trivial

/-- A connect that returns yields its connection; one that throws yields none. -/
theorem leaves_connect (hw : Owned [] w) : Leaves (call .connect) (fun c => [c]) [] w := by
  refine (ends_op _).mpr ⟨fun _ => trivial, fun b hb => ?_⟩
  change Post _ _ b.opening.answer { w with pinned := b.pinned, yielded := w.yielded ++ b.opening.yields }
  rw [yields_of_abandoned hb]
  cases b.opening.answer with
  | ok c =>
    intro y hy
    rcases List.mem_append.mp hy with hy | hy
    · exact .inl ((hw y hy).resolve_right List.not_mem_nil)
    · exact .inr hy
  | error e =>
    intro y hy
    rcases List.mem_append.mp hy with hy | hy
    · exact hw y hy
    · exact absurd hy List.not_mem_nil

/-- A line for the screen: where it throws, nothing was open. -/
theorem leaves_progress (hw : Owned held w) : Leaves (call .progress) (fun _ => held) [] w := by
  refine (ends_op _).mpr ⟨fun _ => trivial, fun b hb => ?_⟩
  change Post _ _ (b.answer .progress) w
  cases hanswer : b.answer .progress with
  | ok u => exact hw
  | error e => exact hb ⟨e, hanswer⟩

/-- A close, whether it returns or throws. -/
theorem leaves_close {c : Connection} (hw : Owned [c] w) : Leaves (call (.close c)) (fun _ => []) [] w := by
  refine (ends_op _).mpr ⟨fun _ => trivial, fun b _ => ?_⟩
  change Post _ _ (b.answer (.close c)) { w with closed := w.closed ++ [c] }
  cases b.answer (.close c) with
  | ok u => exact hw.close
  | error e => exact hw.close

/-! ## `openVerified` -/

/-- The judgement of a key opens and closes nothing. -/
theorem neutral_verify (policy : Policy) (offered : HostKey) : (verify policy offered).Uses Op.Neutral := by
  refine Script.uses_bind (Script.uses_op trivial) fun pinned => Script.uses_ite (fun _ => Script.uses_pure ()) fun _ => ?_
  refine Script.uses_ite (fun _ => Script.uses_raise _) fun _ => Script.uses_bind (Script.uses_op trivial) fun decision => ?_
  cases decision with
  | refuse => exact Script.uses_raise _
  | trustOnce => exact Script.uses_op trivial
  | trust =>
    exact Script.uses_bind (Script.uses_op trivial) fun _ =>
      Script.uses_ite (fun _ => Script.uses_op trivial) fun _ => Script.uses_pure ()

/-- The first connect, or the one after the human has answered. -/
theorem leaves_openAnswering (policy : Policy) (hw : Owned [] w) : Leaves (openAnswering policy) (fun c => [c]) [] w := by
  refine (leaves_connect hw).tryExcept (fun _ _ _ hw => hw) fun e q hq w hw => ?_
  cases e with
  | hostKeyUnknown offered =>
    rw [← Option.some_inj.mp hq]
    exact (leaves_neutral (neutral_verify policy offered) hw).seq fun _ w hw => leaves_connect hw
  | _ => nomatch hq

/-- A connection that is closed quietly is closed or is no longer there. -/
theorem leaves_closeQuietly {c : Connection} (hw : Owned [c] w) : Leaves (closeQuietly c) (fun _ => []) [] w := by
  refine (leaves_close hw).tryExcept (fun _ _ _ hw => hw) fun e q hq w hw => ?_
  rw [← Option.some_inj.mp hq]
  exact hw

/-- What `openVerified` opened is what it returns; where it throws, it has closed it. -/
theorem leaves_openVerified (policy : Policy) (hw : Owned [] w) : Leaves (openVerified policy) (fun c => [c]) [] w := by
  refine (leaves_openAnswering policy hw).seq fun c w hw => ?_
  -- Reading the policy's field cannot throw.
  have hread : Leaves (call .pinned) (fun _ => [c]) [] w := (ends_op _).mpr ⟨fun _ => trivial, fun _ _ => hw⟩
  refine hread.seq fun pinned w hw => ends_ite (fun _ => (ends_pure _).mpr hw) fun _ => ?_
  exact (leaves_closeQuietly hw).seq fun _ w hw => (ends_raise _).mpr hw

/-! ## One attempt -/

/-- `_closeProver` has closed the connection, whether its line is shown or not. -/
theorem leaves_closeProver {c : Connection} (hw : Owned [c] w) : Leaves (closeProver c) (fun _ => []) [] w := by
  refine (leaves_close hw).tryExcept (fun _ _ _ hw => hw) fun e q hq w hw => ?_
  rw [← Option.some_inj.mp hq]
  exact leaves_progress hw

/-- The body of an attempt closes the connection unless it proved itself; where it throws, the handler closes it. -/
theorem leaves_proveOn (fresh : Connection) (hw : Owned [fresh] w) :
    Leaves (proveOn ctx fresh) Proof.held [fresh] w := by
  have hclose : ∀ (f : Failure) (w : Ledger), Owned [fresh] w →
      Leaves (closeProver fresh >>= fun _ => (pure (.failed f) : Prov Proof)) Proof.held [fresh] w :=
    fun f w hw => Leaves.weaken ((leaves_closeProver hw).seq fun _ w hw => (ends_pure _).mpr hw)
  unfold proveOn
  refine ends_ite (fun _ => hclose _ w hw) fun _ => ?_
  cases ctx.primary.filter fun expected => !fresh.hostKey.sameKeyAs expected.hostKey with
  | some expected => exact hclose _ w hw
  | none =>
    have hrun : (call (.run fresh .prove)).Uses Op.Neutral := Script.uses_op trivial
    refine (leaves_neutral hrun hw).seq fun result w hw => ?_
    exact ends_ite (fun _ => (ends_pure _).mpr hw) fun _ => hclose _ w hw

/-- One attempt leaves open what proved itself. -/
theorem leaves_prove (hw : Owned [] w) : Leaves (prove ctx) Proof.held [] w := by
  refine ends_bind.mpr (ends_attempt.mpr (ends_mono (leaves_openVerified ctx.policy hw) ?_ ?_ fun _ h => h))
  · intro fresh w hw
    refine (leaves_proveOn fresh hw).tryExcept (fun e he => nomatch he) fun e q hq w hw => ?_
    rw [← Option.some_inj.mp hq]
    exact (leaves_closeProver hw).seq fun _ w hw => (ends_pure _).mpr hw
  · intro e w hw
    exact (ends_pure _).mpr hw

/-! ## The step -/

/-- The disarm opens and closes nothing. -/
theorem neutral_disarm (proven : Connection) (pid : Text) : (disarm ctx proven pid).Uses Op.Neutral := by
  refine Script.uses_bind (Script.uses_tryExcept (Script.uses_op trivial) fun e q hq => ?_) fun result =>
    Script.uses_ite (fun _ => Script.uses_pure ()) fun _ => Script.uses_raise _
  rw [← Option.some_inj.mp hq]
  exact Script.uses_raise _

/-- A program on the primary connection opens and closes nothing. -/
theorem neutral_runChecked (program : Program) (what : String) : (ctx.runChecked program what).Uses Op.Neutral := by
  refine Script.uses_bind ?_ fun result => Script.uses_ite (fun _ => Script.uses_pure _) fun _ => Script.uses_raise _
  unfold Context.run
  cases ctx.primary with
  | none => exact Script.uses_raise _
  | some own =>
    refine Script.uses_tryExcept (Script.uses_op trivial) fun e q hq => ?_
    rw [← Option.some_inj.mp hq]
    exact Script.uses_raise _

/-- The step that enables the firewall closes what it opens. -/
theorem leaves_enable (pid : Text) (hw : Owned [] w) : Leaves (enable ctx pid) (fun _ => []) [] w := by
  have hbody : Leaves (do
      let enabled ← ctx.runChecked .enableUfw "enabling ufw"
      ((enabled.combined.splitOn '\n').filter fun line => !(trim line).isEmpty).forM fun _ => call .progress)
      (fun _ => []) [] w :=
    (leaves_neutral (neutral_runChecked _ _) hw).seq fun enabled w hw =>
      ends_forM (fun _ _ _ w hw => leaves_progress hw) hw
  refine hbody.tryExcept (fun _ _ _ hw => hw) fun e q hq w hw => ?_
  cases hprovision : e.isProvision with
  | true =>
    simp only [hprovision, if_true] at hq
    rw [← Option.some_inj.mp hq]
    exact (ends_raise _).mpr hw
  | false =>
    simp only [hprovision, Bool.false_eq_true, if_false] at hq
    nomatch hq

/-- The attempts, by induction on how many are left: each leaves nothing open, and so does the disarm on the proven one. -/
theorem leaves_attempts (pid : Text) (left attempt : Nat) (failures : List Failure) (hw : Owned [] w) :
    Leaves (attempts ctx pid left attempt failures) (fun _ => []) [] w := by
  induction left generalizing attempt failures w with
  | zero => exact (ends_raise _).mpr hw
  | succ left ih =>
    have hpause : (pause attempt).Uses Op.Neutral :=
      Script.uses_ite (fun _ => Script.uses_op trivial) fun _ => Script.uses_pure ()
    refine (leaves_neutral hpause hw).seq fun _ w hw => (leaves_progress hw).seq fun _ w hw => ?_
    refine (leaves_prove hw).seq fun proof w hw => ?_
    cases proof with
    | failed failure => exact ih (attempt + 1) (failures ++ [failure]) hw
    | proved proven =>
      refine (leaves_progress hw).seq fun _ w hw => ends_bind.mpr (ends_tryFinally.mpr ?_)
      refine ends_mono (leaves_neutral (neutral_disarm proven pid) hw) (fun _ w hw => ?_) (fun _ w hw => ?_) fun _ h => h
      · exact leaves_closeProver hw
      · exact leaves_closeProver hw

/-- The whole step leaves nothing open. -/
theorem leaves_runFirewallStep (hw : Owned [] w) : Leaves (runFirewallStep ctx) (fun _ => []) [] w := by
  refine (leaves_neutral (neutral_runChecked _ _) hw).seq fun armed w hw => ?_
  refine (leaves_progress hw).seq fun _ w hw => ?_
  exact (leaves_enable _ hw).seq fun _ w hw => leaves_attempts _ _ _ _ hw

/-- The run lemma: a run that ended left open what the specification says. -/
theorem Leaves.run {p : Prov α} (h : Leaves p returning [] w) {bs : List Behaviour} (hbs : p.Within ledger tidy bs w)
    {r : Except Error α} (hr : (p.run ledger bs w).1 = some r) :
    ∀ c ∈ (p.run ledger bs w).2.yielded, c ∈ (p.run ledger bs w).2.closed ∨ ∃ a, r = .ok a ∧ c ∈ returning a := by
  have hends := ends_run h hbs
  rcases hout : p.run ledger bs w with ⟨out, w'⟩
  rw [hout] at hends hr
  change out = some r at hr
  subst hr
  intro c hc
  cases r with
  | ok a => exact (hends c hc).imp_right fun hheld => ⟨a, rfl, hheld⟩
  | error e => exact .inl ((hends c hc).resolve_right List.not_mem_nil)

/-- Where no connect that was given up yields a connection, and the screen takes a line wherever a connection is open: what
`openVerified` was yielded is returned or closed, and what a run of the firewall step was yielded is closed once it has ended. -/
theorem connections_closed (policy : Policy) (ctx : Context) (pinned : Option HostKey) (bs : List Behaviour) :
    ((openVerified policy).Within ledger tidy bs ⟨pinned, [], []⟩ → ∀ r, ((openVerified policy).run ledger bs ⟨pinned, [], []⟩).1 = some r →
      ∀ c ∈ ((openVerified policy).run ledger bs ⟨pinned, [], []⟩).2.yielded,
        c ∈ ((openVerified policy).run ledger bs ⟨pinned, [], []⟩).2.closed ∨ r = .ok c) ∧
    ((runFirewallStep ctx).Within ledger tidy bs ⟨pinned, [], []⟩ → ∀ r, ((runFirewallStep ctx).run ledger bs ⟨pinned, [], []⟩).1 = some r →
      ∀ c ∈ ((runFirewallStep ctx).run ledger bs ⟨pinned, [], []⟩).2.yielded,
        c ∈ ((runFirewallStep ctx).run ledger bs ⟨pinned, [], []⟩).2.closed) := by
  have hnone : Owned [] (⟨pinned, [], []⟩ : Ledger) := fun c hc => absurd hc List.not_mem_nil
  constructor
  · intro hbs r hr c hc
    refine ((leaves_openVerified policy hnone).run hbs hr c hc).imp_right ?_
    rintro ⟨a, rfl, hheld⟩
    rw [List.mem_singleton.mp hheld]
  · intro hbs r hr c hc
    refine ((leaves_runFirewallStep hnone).run hbs hr c hc).resolve_right ?_
    rintro ⟨a, -, hheld⟩
    exact absurd hheld List.not_mem_nil

/-- An outside that answers everything, over a connector whose connects complete as told. -/
def answering (opening : Opening) (pinned : Option HostKey) : Behaviour where
  answer
    | .runPrimary _ | .run .. => .ok ⟨0, [], []⟩
    | .connect => opening.answer
    | .ask .. => .ok .refuse
    | .pinned => .ok pinned
    | .progress | .sleep | .close _ | .remember _ | .pin _ => .ok ()
  opening := opening
  pinned := pinned

def sampleKey : HostKey := ⟨"ssh-ed25519", "AAAA", "SHA256:a"⟩

/-- The connection the sample connector yields. -/
def sampleProver : Connection := ⟨1, "transport-1", sampleKey⟩

def sampleContext : Context := ⟨"firewall", ⟨false, false⟩, some ⟨0, "transport-0", sampleKey⟩, 180, 1⟩

/-- A connector in time: the prover is returned by `openVerified`, and closed by the firewall step. -/
theorem connections_closed_in_time :
    ((openVerified sampleContext.policy).run ledger (List.replicate 16 (answering (.inTime (.ok sampleProver)) (some sampleKey)))
      ⟨some sampleKey, [], []⟩).1 = some (.ok sampleProver) ∧
    sampleProver ∈ ((runFirewallStep sampleContext).run ledger
      (List.replicate 16 (answering (.inTime (.ok sampleProver)) (some sampleKey))) ⟨some sampleKey, [], []⟩).2.closed := by
  refine ⟨rfl, (connections_closed sampleContext.policy sampleContext (some sampleKey) _).2 ?_ (.ok ()) rfl sampleProver ?_⟩
  · refine within_of_choices (R := fun o => Except Error (Answer o)) (fun b hb o w => ?_) fun _ _ => trivial
    obtain rfl := List.eq_of_mem_replicate hb
    cases o with
    | connect => rfl
    | progress => exact fun ⟨e, he⟩ => nomatch he
    | _ => trivial
  · exact List.mem_singleton.mpr rfl

/-- A connector whose connect succeeds after the timeout: `openVerified` throws, the firewall step ends, and the connection it
yielded was never closed. -/
theorem connections_closed_late :
    ∃ (pinned : Option HostKey) (bs : List Behaviour) (c : Connection),
      (∃ e w, (openVerified sampleContext.policy).run ledger bs ⟨pinned, [], []⟩ = (some (.error e), w) ∧
        c ∈ w.yielded ∧ c ∉ w.closed) ∧
      ∃ r w, (runFirewallStep sampleContext).run ledger bs ⟨pinned, [], []⟩ = (some r, w) ∧ c ∈ w.yielded ∧ c ∉ w.closed :=
  ⟨some sampleKey, List.replicate 16 (answering (.late (.ok sampleProver)) (some sampleKey)), sampleProver,
    ⟨.timeout, _, rfl, List.mem_singleton.mpr rfl, List.not_mem_nil⟩, _, _, rfl, List.mem_singleton.mpr rfl, List.not_mem_nil⟩

end Firewall

end VpnStack

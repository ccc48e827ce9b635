import VpnStack.Session

/-!
# The share bundles of a session

A bundle is current when the server has completed nothing that invalidates it since it was exported. The session drops a bundle
when the answer to the mutation arrives, and keeps one when the answer to the export does: between a mutation on the server and
its answer, its call owes the session the removal. A bundle that is cached is current, or some call owes its removal, in the runs
in which an export that was overtaken is not kept, no call fails while it owes a removal, and no mutation runs for a call that
has given up.
-/

namespace VpnStack

open Transition

namespace Session

/-- The commands that make a bundle of a user stale: the removal of the user, an enable or disable, any protocol toggle. -/
def Command.invalidates : Command → String → Bool
  | .removeUser name, user => name = user
  | .setUserEnabled name _, user => name = user
  | .setProtocol .., _ => true
  | _, _ => false

/-- Nothing that makes it stale was completed behind its export. -/
def Bundle.Current (b : Bundle) (log : List Command) (user : String) : Prop :=
  ∀ c ∈ log.drop b.exportedAt, c.invalidates user = false

/-- The answers at which an operation drops a user's bundle. -/
def Operation.forgets : Operation → Command → String → Bool
  | .removeUser name, .removeUser _, user => name = user
  | .setUserEnabled name _, .setUserEnabled .., user => name = user
  | .setProtocol .., .status, _ => true
  | _, _, _ => false

/-- The answer at which an operation keeps a user's bundle. -/
def Operation.keeps : Operation → Command → String → Bool
  | .loadShare name _, .exportUser _, user => name = user
  | _, _, _ => false

/-! ## What an operation does -/

section

variable {op : Operation} {command : Command} {left : List Command} {user : String}

/-- What an answer does to the bundles: it drops one, keeps one, or leaves them. -/
theorem answered_bundles (op : Operation) (command : Command) (before : Nat) (s : Fields) (user : String) :
    (op.answered command before s).bundles user =
      if op.forgets command user then none else if op.keeps command user then some ⟨before⟩ else s.bundles user := by
  cases op <;> cases command <;>
    simp [Operation.answered, Operation.forgets, Operation.keeps, Fields.forget, Fields.clear, Function.update_apply, eq_comm]

/-- A mutation is the first command of its operation, and the removal is at its answer or behind it. -/
theorem forgets_of_invalidates (h : command :: left <:+ op.commands) (hc : command.invalidates user) :
    ∃ c ∈ command :: left, op.forgets c user := by
  cases op <;> simp only [Operation.commands, List.suffix_cons_iff, List.cons.injEq, List.suffix_nil, reduceCtorEq, or_false] at h <;>
    rcases h with ⟨rfl, rfl⟩ | ⟨rfl, rfl⟩ | ⟨rfl, rfl⟩ <;> simp_all [Command.invalidates, Operation.forgets]

/-- What is behind the first command is no mutation. -/
theorem left_not_invalidates (h : command :: left <:+ op.commands) : ∀ c ∈ left, c.invalidates user = false := by
  cases op <;> simp only [Operation.commands, List.suffix_cons_iff, List.cons.injEq, List.suffix_nil, reduceCtorEq, or_false] at h <;>
    rcases h with ⟨rfl, rfl⟩ | ⟨rfl, rfl⟩ | ⟨rfl, rfl⟩ <;> simp_all [Command.invalidates]

end

/-! ## What a step leaves of the bundles, the tickets and the log -/

/-- The part of the world the bundles depend on. -/
structure Shelf (ι : Type) where
  bundles : String → Option Bundle
  tickets : ι → Ticket
  log : List Command

def World.shelf {ι : Type} (w : World ι) : Shelf ι := ⟨w.fields.bundles, w.tickets, w.log⟩

section

variable {ι : Type} [DecidableEq ι]

omit [DecidableEq ι] in
/-- A failure that is reported changes neither the shelf nor the calls. -/
theorem shelf_reportable (w : World ι) (f : Failure) :
    (w.reportable f).shelf = w.shelf ∧ (w.reportable f).calls = w.calls := by
  cases f <;> exact ⟨rfl, rfl⟩

/-- A call that ends leaves the shelf as it is. -/
theorem shelf_finish (w : World ι) (i : ι) (op : Operation) (failure : Option Failure) :
    (w.finish i op failure).shelf = w.shelf ∧ (w.finish i op failure).calls = Function.update w.calls i .ended := by
  have h : (failure.elim w w.reportable).shelf = w.shelf ∧ (failure.elim w w.reportable).calls = w.calls := by
    cases failure with
    | none => exact ⟨rfl, rfl⟩
    | some f => exact shelf_reportable w f
  have hshelf : (w.finish i op failure).shelf = (failure.elim w w.reportable).shelf := by cases op <;> rfl
  have hcalls : (w.finish i op failure).calls = Function.update (failure.elim w w.reportable).calls i .ended := by
    cases op <;> rfl
  exact ⟨hshelf.trans h.1, by rw [hcalls, h.2]⟩

/-- A call that is at no answer. -/
def Call.Unanswering (call : Call) : Prop := ∀ op control command left, call ≠ .pending op (.answer control command left)

theorem unanswering_ended : Call.ended.Unanswering := fun _ _ _ _ h => nomatch h

theorem unanswering_idle : Call.idle.Unanswering := fun _ _ _ _ h => nomatch h

theorem unanswering_pending {op : Operation} {await : Await} (h : ∀ control command left, await ≠ .answer control command left) :
    (Call.pending op await).Unanswering := fun _ control command left heq => h control command left (Call.pending.inj heq).2

/-- A call that opens a connection, or has one, is at no answer. -/
theorem unanswering_open (op : Operation) (vpnctl : Option Nat) :
    (Call.pending op (vpnctl.elim .opening .ready)).Unanswering := by
  cases vpnctl <;> exact unanswering_pending nofun

/-- The call goes on to no answer, and the shelf is as it was. -/
def Moves (w w' : World ι) (i : ι) : Prop :=
  w'.shelf = w.shelf ∧ ∃ call, call.Unanswering ∧ w'.calls = Function.update w.calls i call

/-- A call that begins goes on to no answer. -/
theorem moves_guard (w : World ι) (i : ι) (op : Operation) : Moves w (w.guard i op) i := by
  unfold World.guard
  split
  · exact ⟨rfl, _, unanswering_ended, rfl⟩
  · exact ⟨rfl, _, unanswering_open op w.fields.vpnctl, rfl⟩

/-- A call that loads a bundle, cached or not, goes on to no answer. -/
theorem moves_loadShare (w : World ι) (i : ι) (user : String) (force : Bool) : Moves w (w.loadShare i user force) i := by
  unfold World.loadShare
  split
  · exact ⟨rfl, _, unanswering_ended, rfl⟩
  · exact ⟨rfl, _, unanswering_open (.loadShare user force) w.fields.vpnctl, rfl⟩

/-- A call that starts to connect goes on to no answer. -/
theorem moves_start (w : World ι) (i : ι) (op : Operation) : Moves w (w.start i op) i := by
  cases op with
  | loadShare user force => exact moves_loadShare w i user force
  | _ => exact moves_guard w i _

/-- A call whose connection is open goes on to no answer. -/
theorem moves_onOpened (w : World ι) (i : ι) (op : Operation) : Moves w (w.onOpened i op) i := by
  unfold World.onOpened
  split
  · exact ⟨rfl, .pending op .closing, unanswering_pending nofun, rfl⟩
  · exact ⟨rfl, .pending op (.ready w.opened), unanswering_pending nofun, rfl⟩

theorem moves_finish (w : World ι) (i : ι) (op : Operation) (failure : Option Failure) : Moves w (w.finish i op failure) i :=
  ⟨(shelf_finish w i op failure).1, .ended, unanswering_ended, (shelf_finish w i op failure).2⟩

end

/-! ## What a call owes -/

variable {ι : Type} [DecidableEq ι] {w w' : World ι} {e : Event ι} {i j : ι} {user : String} {es : List (Event ι)}

/-- The call's mutation is completed on the server, and the answer at which it drops the user's bundle is still to come. -/
def Owes (w : World ι) (i : ι) (user : String) : Prop :=
  ∃ op control command left, w.calls i = .pending op (.answer control command left) ∧
    (command.invalidates user → ∃ n, w.tickets i = .completed n) ∧ ∃ c ∈ command :: left, op.forgets c user

/-- The runs: an export's answer is kept only while it is current or some call owes its removal; no call fails while it owes the
removal of a bundle that is no longer current; and no mutation runs for a call that has given up while a bundle it makes stale
is cached. -/
def Settling (w : World ι) : Event ι → Prop
  | .answered i => ∀ user force control command left n, w.calls i = .pending (.loadShare user force) (.answer control command left) →
      w.tickets i = .completed n → (⟨n⟩ : Bundle).Current w.log user ∨ ∃ j, Owes w j user
  | .failed i _ => ∀ user b, Owes w i user → w.fields.bundles user = some b → b.Current w.log user ∨ ∃ j, j ≠ i ∧ Owes w j user
  | .execute i true => ∀ command user b, w.tickets i = .queued command → command.invalidates user →
      w.fields.bundles user = some b → ¬ (w.calls i).Unanswering ∨ ∃ j, j ≠ i ∧ Owes w j user
  | _ => True

/-- The call waits for a command of its operation, and it is the one the server has of it. -/
def Sent (w : World ι) (i : ι) : Prop :=
  ∀ op control command left, w.calls i = .pending op (.answer control command left) →
    command :: left <:+ op.commands ∧ ∀ c, w.tickets i = .queued c → c = command

/-- What holds in front of every step: a bundle that is cached is current, or a call owes its removal. -/
structure Shelved (w : World ι) : Prop where
  sent : ∀ i, Sent w i
  current : ∀ user b, w.fields.bundles user = some b → b.Current w.log user ∨ ∃ i, Owes w i user

omit [DecidableEq ι] in
/-- A call that is at no answer owes nothing. -/
theorem not_owes (h : (w.calls i).Unanswering) : ¬ Owes w i user := by
  rintro ⟨op, control, command, left, hcall, -⟩
  exact h op control command left hcall

omit [DecidableEq ι] in
/-- A step of one call: the others wait for what they waited for, and owe what they owed. -/
theorem Shelved.of_step (hw : Shelved w) (hcalls : ∀ j, j ≠ i → w'.calls j = w.calls j)
    (htickets : ∀ j, j ≠ i → w'.tickets j = w.tickets j) (hsent : Sent w' i)
    (hcurrent : ∀ user b, w'.fields.bundles user = some b →
      b.Current w'.log user ∨ (∃ j, j ≠ i ∧ Owes w j user) ∨ Owes w' i user) : Shelved w' := by
  refine ⟨fun j => ?_, fun user b hb => ?_⟩
  · by_cases hji : j = i
    · rwa [hji]
    · unfold Sent
      rw [hcalls j hji, htickets j hji]
      exact hw.sent j
  · rcases hcurrent user b hb with h | ⟨j, hji, hj⟩ | h
    · exact .inl h
    · refine .inr ⟨j, ?_⟩
      unfold Owes
      rw [hcalls j hji, htickets j hji]
      exact hj
    · exact .inr ⟨i, h⟩

/-- A call that goes on to no answer: it owed nothing, or the step is one of those the runs are about. -/
theorem Shelved.moves (hw : Shelved w) (h : Moves w w' i)
    (howed : ∀ user b, Owes w i user → w.fields.bundles user = some b → b.Current w.log user ∨ ∃ j, j ≠ i ∧ Owes w j user) :
    Shelved w' := by
  obtain ⟨hshelf, call, hcall, hcalls⟩ := h
  have hbundles : w'.fields.bundles = w.fields.bundles := congrArg Shelf.bundles hshelf
  have htickets : w'.tickets = w.tickets := congrArg Shelf.tickets hshelf
  have hlog : w'.log = w.log := congrArg Shelf.log hshelf
  refine hw.of_step (i := i) (fun j hji => ?_) (fun j _ => by rw [htickets]) ?_ fun user b hb => ?_
  · rw [hcalls, Function.update_of_ne hji]
  · intro op control command left hi
    rw [hcalls, Function.update_self] at hi
    exact absurd hi (hcall op control command left)
  · rw [hbundles] at hb
    rw [hlog]
    rcases hw.current user b hb with hcurrent | ⟨j, hj⟩
    · exact .inl hcurrent
    · by_cases hji : j = i
      · exact (howed user b (hji ▸ hj) hb).imp_right .inl
      · exact .inr (.inl ⟨j, hji, hj⟩)

/-- The next command, or the end: the call waits for what it sent, and what it has still to drop it owes. -/
theorem Shelved.send (hw : Shelved w) {fields : Fields} {op : Operation} {control : Nat} {left : List Command}
    (hleft : left <:+ op.commands)
    (hcurrent : ∀ user b, fields.bundles user = some b → b.Current w.log user ∨ (∃ j, j ≠ i ∧ Owes w j user) ∨
      ∃ c ∈ left, op.forgets c user ∧ ∀ c ∈ left, c.invalidates user = false) :
    Shelved (({ w with fields } : World ι).send i op control left) := by
  cases left with
  | nil =>
    obtain ⟨hshelf, hcalls⟩ := shelf_finish ({ w with fields } : World ι) i op none
    refine hw.of_step (i := i) (fun j hji => ?_) (fun j _ => congrFun (congrArg Shelf.tickets hshelf) j) ?_ fun user b hb => ?_
    · exact (congrFun hcalls j).trans (Function.update_of_ne hji _ _)
    · intro op' control' command' left' hi
      exact absurd ((congrFun hcalls i).symm.trans hi) (by rw [Function.update_self]; exact nofun)
    · have hb' : fields.bundles user = some b := (congrFun (congrArg Shelf.bundles hshelf) user).symm.trans hb
      have hlog : (World.send ({ w with fields } : World ι) i op control []).log = w.log := congrArg Shelf.log hshelf
      rw [hlog]
      refine (hcurrent user b hb').imp_right fun h => .inl (h.resolve_right ?_)
      rintro ⟨c, hc, -⟩
      exact absurd hc List.not_mem_nil
  | cons command left =>
    have hcall : (World.send ({ w with fields } : World ι) i op control (command :: left)).calls i =
        .pending op (.answer control command left) := Function.update_self ..
    have hticket : (World.send ({ w with fields } : World ι) i op control (command :: left)).tickets i = .queued command :=
      Function.update_self ..
    refine hw.of_step (i := i) (fun j hji => Function.update_of_ne hji _ _) (fun j hji => Function.update_of_ne hji _ _) ?_
      fun user b hb => ?_
    · intro op' control' command' left' hi
      obtain ⟨rfl, hanswer⟩ := Call.pending.inj (hcall.symm.trans hi)
      obtain ⟨rfl, rfl, rfl⟩ := Await.answer.inj hanswer
      exact ⟨hleft, fun c hc => (Ticket.queued.inj (hticket.symm.trans hc)).symm⟩
    · refine (hcurrent user b hb).imp_right (Or.imp_right ?_)
      rintro ⟨c, hc, hforgets, hleft⟩
      refine ⟨op, control, command, left, hcall, fun hcommand => ?_, c, hc, hforgets⟩
      exact absurd ((hleft command (List.mem_cons_self ..)).symm.trans hcommand) Bool.false_ne_true

/-! ## The steps -/

/-- An answer: what it drops is gone, what it keeps is current or owed, and the rest is as it was. -/
theorem shelved_answered (hw : Shelved w) {op : Operation} {control n : Nat} {command : Command} {left : List Command}
    (hcall : w.calls i = .pending op (.answer control command left)) (hticket : w.tickets i = .completed n)
    (he : Settling w (.answered i)) :
    Shelved (({ w with fields := op.answered command n w.fields } : World ι).send i op control left) := by
  obtain ⟨hsuffix, -⟩ := hw.sent i op control command left hcall
  have hleft : ∀ user, ∀ c ∈ left, c.invalidates user = false := fun _ => left_not_invalidates hsuffix
  -- What this call owed is dropped by this answer or by a later one.
  have howes : ∀ user, (∃ j, Owes w j user) → op.forgets command user = false →
      (∃ j, j ≠ i ∧ Owes w j user) ∨ ∃ c ∈ left, op.forgets c user ∧ ∀ c ∈ left, c.invalidates user = false := by
    rintro user ⟨j, hj⟩ hkept
    by_cases hji : j = i
    · subst hji
      obtain ⟨op', control', command', left', hcall', -, c, hc, hforgets⟩ := hj
      obtain ⟨rfl, hanswer⟩ := Call.pending.inj (hcall.symm.trans hcall')
      obtain ⟨rfl, rfl, rfl⟩ := Await.answer.inj hanswer
      rcases List.mem_cons.mp hc with rfl | hc
      · exact absurd (hkept.symm.trans hforgets) Bool.false_ne_true
      · exact .inr ⟨c, hc, hforgets, hleft user⟩
    · exact .inl ⟨j, hji, hj⟩
  refine hw.send ((List.suffix_cons command left).trans hsuffix) fun user b hb => ?_
  rw [answered_bundles] at hb
  cases hforgets : op.forgets command user with
  | true => simp [hforgets] at hb
  | false =>
    simp only [hforgets, Bool.false_eq_true, if_false] at hb
    cases hkeeps : op.keeps command user with
    | false =>
      simp only [hkeeps, Bool.false_eq_true, if_false] at hb
      exact (hw.current user b hb).imp_right fun h => howes user h hforgets
    | true =>
      simp only [hkeeps, if_true, Option.some_inj] at hb
      subst hb
      obtain ⟨force, rfl⟩ : ∃ force, op = .loadShare user force := by
        cases op <;> cases command <;> simp_all [Operation.keeps]
      exact (he user force control command left n hcall hticket).imp_right fun h => howes user h hforgets

/-- A command that completes: a bundle it makes stale is owed by its call from then on. -/
theorem shelved_completed (hw : Shelved w) {command : Command} (hticket : w.tickets i = .queued command)
    (he : Settling w (.execute i true)) : Shelved (w.executed i command true) := by
  have hself : (w.executed i command true).tickets i = .completed w.log.length := Function.update_self ..
  refine hw.of_step (i := i) (fun _ _ => rfl) (fun j hji => Function.update_of_ne hji _ _) ?_ fun user b hb => ?_
  · intro op control command' left hcall
    exact ⟨(hw.sent i op control command' left hcall).1, fun c hc => nomatch hself.symm.trans hc⟩
  · -- What the call owed it owes: its command is completed.
    have howes : ∀ op control command' left, w.calls i = .pending op (.answer control command' left) →
        (∃ c ∈ command' :: left, op.forgets c user) → Owes (w.executed i command true) i user :=
      fun op control command' left hcall hforgets => ⟨op, control, command', left, hcall, fun _ => ⟨_, hself⟩, hforgets⟩
    have hkept : (∃ j, Owes w j user) → (∃ j, j ≠ i ∧ Owes w j user) ∨ Owes (w.executed i command true) i user := by
      rintro ⟨j, hj⟩
      by_cases hji : j = i
      · obtain ⟨op, control, command', left, hcall, -, hforgets⟩ := hj
        exact .inr (howes op control command' left (hji ▸ hcall) hforgets)
      · exact .inl ⟨j, hji, hj⟩
    cases hinvalidates : command.invalidates user with
    | false =>
      refine (hw.current user b hb).imp (fun hcurrent c hc => ?_) hkept
      rcases List.mem_append.mp (List.drop_append ▸ hc) with hc | hc
      · exact hcurrent c hc
      · rw [List.mem_singleton.mp (List.mem_of_mem_drop hc)]
        exact hinvalidates
    | true =>
      rcases he command user b hticket hinvalidates hb with hwaits | hother
      · simp only [Call.Unanswering, not_forall, not_not] at hwaits
        obtain ⟨op, control, command', left, hcall⟩ := hwaits
        obtain ⟨hsuffix, hqueued⟩ := hw.sent i op control command' left hcall
        obtain rfl := hqueued command hticket
        exact .inr (.inr (howes op control command left hcall (forgets_of_invalidates hsuffix hinvalidates)))
      · exact .inr (.inl hother)

/-- A command that is refused: what its call owed has nothing to do with it. -/
theorem shelved_refused (hw : Shelved w) {command : Command} (hticket : w.tickets i = .queued command) :
    Shelved (w.executed i command false) := by
  have hself : (w.executed i command false).tickets i = .refused := Function.update_self ..
  refine hw.of_step (i := i) (fun _ _ => rfl) (fun j hji => Function.update_of_ne hji _ _) ?_ fun user b hb => ?_
  · intro op control command' left hcall
    exact ⟨(hw.sent i op control command' left hcall).1, fun c hc => nomatch hself.symm.trans hc⟩
  · refine (hw.current user b hb).imp_right ?_
    rintro ⟨j, hj⟩
    by_cases hji : j = i
    · subst hji
      obtain ⟨op, control, command', left, hcall, hcompleted, hforgets⟩ := hj
      refine .inr ⟨op, control, command', left, hcall, fun hc => ?_, hforgets⟩
      obtain ⟨n, hn⟩ := hcompleted hc
      exact nomatch hticket.symm.trans hn
    · exact .inl ⟨j, hji, hj⟩

/-- The step lemma. -/
theorem shelved_step (hw : Shelved w) (he : Settling w e) (h : step w e = some w') : Shelved w' := by
  have hidle : ∀ {i : ι} {w' : World ι}, (w.calls i).Unanswering → Moves w w' i → Shelved w' := fun hcall hmoves =>
    hw.moves hmoves fun user b howes => absurd howes (not_owes hcall)
  cases e with
  | call i op =>
    rw [step, Option.ite_none_right_eq_some] at h
    rw [← Option.some_inj.mp h.2]
    exact hidle (by rw [h.1]; exact unanswering_idle) (moves_start w i op)
  | opened i =>
    simp only [step] at h
    split at h
    · rename_i op hcall
      rw [← Option.some_inj.mp h]
      exact hidle (by rw [hcall]; exact unanswering_pending nofun) (moves_onOpened w i op)
    · nomatch h
  | failed i failure =>
    simp only [step] at h
    split at h
    · nomatch h
    · rename_i op await hready hcall
      rw [← Option.some_inj.mp h]
      exact hw.moves (moves_finish w i op (some failure)) he
    · nomatch h
  | closed i =>
    simp only [step] at h
    split at h
    · rename_i op hcall
      rw [← Option.some_inj.mp h]
      exact hidle (by rw [hcall]; exact unanswering_pending nofun) (moves_finish w i op (some .other))
    · nomatch h
  | resume i =>
    simp only [step] at h
    split at h
    · rename_i op control hcall
      rw [← Option.some_inj.mp h]
      refine @Shelved.send _ _ _ _ hw w.fields _ _ _ (List.suffix_refl _) fun user b hb => (hw.current user b hb).imp_right ?_
      rintro ⟨j, hj⟩
      refine .inl ⟨j, ?_, hj⟩
      rintro rfl
      exact not_owes (by rw [hcall]; exact unanswering_pending nofun) hj
    · nomatch h
  | execute i completes =>
    simp only [step] at h
    split at h
    · rename_i command hticket
      rw [← Option.some_inj.mp h]
      cases completes with
      | true => exact shelved_completed hw hticket he
      | false => exact shelved_refused hw hticket
    · nomatch h
  | answered i =>
    simp only [step] at h
    split at h
    · rename_i op control command left before hcall hticket
      rw [← Option.some_inj.mp h]
      exact shelved_answered hw hcall hticket he
    · nomatch h
  | dispose =>
    rw [step, Option.some_inj] at h
    rw [← h]
    exact ⟨hw.sent, hw.current⟩

/-! ## Every run -/

/-- In every run of the kind described, whenever no call is in flight, the server has completed nothing that invalidates a cached
bundle since it was exported. -/
theorem session_bundles (es : List (Event ι)) (w : World ι) (hrun : run step {} es = some w) (hes : Along step Settling {} es)
    (hquiet : w.Quiet) (user : String) (b : Bundle) (hb : w.fields.bundles user = some b) :
    ∀ c ∈ w.log.drop b.exportedAt, c.invalidates user = false := by
  have hw : Shelved w := run_invariant (I := Shelved) (fun w e w' hw he hstep => shelved_step hw he hstep)
    ⟨fun _ _ _ _ _ hcall => absurd hcall (unanswering_idle _ _ _ _), fun _ _ (hb : none = some _) => nomatch hb⟩ hes hrun
  refine (hw.current user b hb).resolve_right ?_
  rintro ⟨i, op, control, command, left, hcall, -⟩
  exact hquiet i op _ hcall

/-- An enable whose answer is lost with the connection, and an export behind it. -/
def enableThenExport : List (Event Bool) :=
  [.call false (.setUserEnabled "alice" true), .opened false, .resume false, .execute false true, .failed false .transport,
    .call true (.loadShare "alice" false), .opened true, .resume true, .execute true true, .answered true]

/-- The bundle of the run is current. -/
theorem session_bundles_enableThenExport :
    ∃ w : World Bool, run step {} enableThenExport = some w ∧ w.fields.bundles "alice" = some ⟨1⟩ ∧
      ∀ c ∈ w.log.drop 1, c.invalidates "alice" = false := by
  refine ⟨_, rfl, rfl, session_bundles enableThenExport _ rfl ?_ (fun i op await => ?_) "alice" ⟨1⟩ rfl⟩
  · -- Nothing is cached up to the last answer, and nothing invalidates behind the export.
    refine .cons trivial rfl <| .cons trivial rfl <| .cons trivial rfl <|
      .cons (fun _ _ _ _ _ (hb : none = some _) => nomatch hb) rfl <| .cons (fun _ _ _ (hb : none = some _) => nomatch hb) rfl <|
      .cons trivial rfl <| .cons trivial rfl <| .cons trivial rfl <|
      .cons (fun _ _ _ _ _ (hb : none = some _) => nomatch hb) rfl <|
      .cons (fun user force control command left n hcall hticket => .inl ?_) rfl trivial
    obtain rfl : 1 = n := Ticket.completed.inj hticket
    obtain rfl : "alice" = user := (Operation.loadShare.inj (Call.pending.inj hcall).1).1
    change ∀ c ∈ [Command.exportUser "alice"], c.invalidates "alice" = false
    decide
  · cases i <;> exact nofun

/-- An export that is overtaken: it runs on the server, alice is disabled, and its answer comes after that of the mutation. -/
def overtaken : List (Event Bool) :=
  [.call false (.loadShare "alice" false), .opened false, .resume false, .execute false true,
    .call true (.setUserEnabled "alice" false), .resume true, .execute true true, .answered true, .execute true true, .answered true,
    .answered false]

/-- No call is in flight, and the bundle that is cached was exported before alice was disabled. -/
theorem session_bundles_overtaken :
    ∃ w : World Bool, run step {} overtaken = some w ∧ w.Quiet ∧
      ∃ b, w.fields.bundles "alice" = some b ∧ ∃ c ∈ w.log.drop b.exportedAt, c.invalidates "alice" := by
  refine ⟨_, rfl, fun i op await => ?_, ⟨0⟩, rfl, .setUserEnabled "alice" false, by decide, by decide⟩
  cases i <;> exact nofun

end Session

end VpnStack

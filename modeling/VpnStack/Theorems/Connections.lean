import VpnStack.Session

/-!
# The connections of a session

Two calls that find nothing cached both open a connection, and the second to arrive takes the place of the first, which nothing
closes from then on. That is the only way to lose one: the session keeps at most one open connection, and none once it is
disposed, in exactly the runs in which no connection arrives where one is held.
-/

namespace VpnStack

open Transition

namespace Session

/-! ## What a step does to the connections -/

/-- The connection that is held, whether the session is disposed, how many connections were opened, and which were closed. -/
structure Sockets where
  connection : Option Nat
  closed : Bool
  opened : Nat
  shut : List Nat

/-- The one that is held is closed. -/
def Sockets.drop (s : Sockets) : Sockets := { s with connection := none, shut := s.shut ++ s.connection.toList }

def World.sockets {ι : Type} (w : World ι) : Sockets := ⟨w.fields.connection, w.fields.closed, w.opened, w.shut⟩

section

variable {ι : Type} [DecidableEq ι] {w w' : World ι} {e : Event ι}

@[simp] theorem sockets_at (w : World ι) (i : ι) (call : Call) : (w.at i call).sockets = w.sockets := rfl

omit [DecidableEq ι] in
@[simp] theorem sockets_dropConnection (w : World ι) : w.dropConnection.sockets = w.sockets.drop := rfl

omit [DecidableEq ι] in
/-- A failure that is reported may cost the connection that is held. -/
theorem sockets_reportable (w : World ι) (f : Failure) :
    (w.reportable f).sockets = w.sockets ∨ (w.reportable f).sockets = w.sockets.drop := by
  cases f with
  | transport => exact .inr rfl
  | other => exact .inl rfl

/-- The end of a call may cost the connection that is held. -/
theorem sockets_finish (w : World ι) (i : ι) (op : Operation) (failure : Option Failure) :
    (w.finish i op failure).sockets = w.sockets ∨ (w.finish i op failure).sockets = w.sockets.drop := by
  have hfields : (w.finish i op failure).sockets = (failure.elim w w.reportable).sockets := by cases op <;> rfl
  rw [hfields]
  cases failure with
  | none => exact .inl rfl
  | some f => exact sockets_reportable w f

/-- The beginning of a call opens and closes nothing. -/
theorem sockets_guard (w : World ι) (i : ι) (op : Operation) : (w.guard i op).sockets = w.sockets := by
  unfold World.guard
  split <;> rfl

/-- Starting to connect opens and closes nothing. -/
theorem sockets_start (w : World ι) (i : ι) (op : Operation) : (w.start i op).sockets = w.sockets := by
  cases op with
  | loadShare user force =>
    change (w.loadShare i user force).sockets = w.sockets
    unfold World.loadShare
    split <;> rfl
  | _ => exact sockets_guard w i _

/-- The next command is sent, or the call ends, which may cost the connection. -/
theorem sockets_send (w : World ι) (i : ι) (op : Operation) (control : Nat) (left : List Command) :
    (w.send i op control left).sockets = w.sockets ∨ (w.send i op control left).sockets = w.sockets.drop := by
  cases left with
  | nil => exact sockets_finish w i op none
  | cons command left => exact .inl rfl

omit [DecidableEq ι] in
/-- What an answer changes of the session's fields is not the connection. -/
theorem sockets_answered (w : World ι) (op : Operation) (command : Command) (before : Nat) :
    ({ w with fields := op.answered command before w.fields } : World ι).sockets = w.sockets := by
  cases op <;> cases command <;> rfl

/-- What a step can do: nothing, a drop, a dispose, and the two ways a connection arrives. -/
theorem step_sockets (h : step w e = some w') :
    w'.sockets = w.sockets ∨ w'.sockets = w.sockets.drop ∨ w'.sockets = { w.sockets with closed := true }.drop ∨
    (w.fields.closed ∧ w'.sockets = { w.sockets with opened := w.opened + 1, shut := w.shut ++ [w.opened] }) ∨
    ((∃ i op, e = .opened i ∧ w.calls i = .pending op .opening) ∧ w.fields.closed = false ∧
      w'.sockets = { w.sockets with connection := some w.opened, opened := w.opened + 1 }) := by
  have hends : ∀ {w₁ : World ι}, w₁.sockets = w.sockets → (w'.sockets = w₁.sockets ∨ w'.sockets = w₁.sockets.drop) →
      w'.sockets = w.sockets ∨ w'.sockets = w.sockets.drop := by
    intro w₁ h₁ h'
    rwa [h₁] at h'
  cases e with
  | call i op =>
    rw [step, Option.ite_none_right_eq_some] at h
    rw [← Option.some_inj.mp h.2]
    exact .inl (sockets_start w i op)
  | opened i =>
    simp only [step] at h
    split at h
    · rename_i op hcall
      rw [← Option.some_inj.mp h, World.onOpened]
      cases hclosed : w.fields.closed with
      | true => exact .inr (.inr (.inr (.inl ⟨rfl, rfl⟩)))
      | false => exact .inr (.inr (.inr (.inr ⟨⟨i, op, rfl, hcall⟩, rfl, by simp [World.sockets, World.at, hclosed]⟩)))
    · nomatch h
  | failed i failure =>
    simp only [step] at h
    split at h
    · nomatch h
    · rename_i op await hready hcall
      rw [← Option.some_inj.mp h]
      exact (sockets_finish w i op (some failure)).imp_right .inl
    · nomatch h
  | closed i =>
    simp only [step] at h
    split at h
    · rename_i op hcall
      rw [← Option.some_inj.mp h]
      exact (sockets_finish w i op (some .other)).imp_right .inl
    · nomatch h
  | resume i =>
    simp only [step] at h
    split at h
    · rename_i op control hcall
      rw [← Option.some_inj.mp h]
      exact (sockets_send w i op control op.commands).imp_right .inl
    · nomatch h
  | execute i completes =>
    simp only [step] at h
    split at h
    · rw [← Option.some_inj.mp h]
      cases completes <;> exact .inl rfl
    · nomatch h
  | answered i =>
    simp only [step] at h
    split at h
    · rename_i op control command left before hcall hticket
      obtain h := Option.some_inj.mp h
      exact (hends (sockets_answered w op command before) (h ▸ sockets_send _ i op control left)).imp_right .inl
    · nomatch h
  | dispose =>
    rw [step, Option.some_inj] at h
    rw [← h]
    exact .inr (.inr (.inl rfl))

end

/-! ## The invariants -/

/-- What holds in every run: a closed connection was opened, the one that is held is open, and a disposed session holds none. -/
structure Sockets.Sane (s : Sockets) : Prop where
  shut_lt : ∀ c ∈ s.shut, c < s.opened
  held : ∀ c, s.connection = some c → c < s.opened ∧ c ∉ s.shut
  gone : s.closed → s.connection = none

/-- No connection is open but the one that is held. -/
def Sockets.Kept (s : Sockets) : Prop := ∀ c < s.opened, c ∈ s.shut ∨ s.connection = some c

/-- At most one connection is open. -/
def Sockets.AtMostOne (s : Sockets) : Prop := ∀ c < s.opened, ∀ d < s.opened, c ∉ s.shut → d ∉ s.shut → c = d

section

variable {s : Sockets}

/-- Closing the connection that is held keeps what holds in every run. -/
theorem Sockets.Sane.drop (h : s.Sane) (closed : Bool) : ({ s with closed } : Sockets).drop.Sane where
  shut_lt c hc := by
    rcases List.mem_append.mp hc with hc | hc
    · exact h.shut_lt c hc
    · exact (h.held c (Option.mem_toList.mp hc)).1
  held c hc := nomatch hc
  gone _ := rfl

/-- A number that was not given yet is no connection. -/
theorem Sockets.Sane.fresh (h : s.Sane) : s.opened ∉ s.shut := fun hc => Nat.lt_irrefl _ (h.shut_lt _ hc)

/-- Closing the connection that is held leaves no other open. -/
theorem Sockets.Kept.drop (h : s.Kept) (closed : Bool) : ({ s with closed } : Sockets).drop.Kept := by
  intro c hc
  rcases h c hc with hshut | hheld
  · exact .inl (List.mem_append_left _ hshut)
  · exact .inl (List.mem_append_right _ (Option.mem_toList.mpr hheld))

/-- Where only the held one is open, at most one is. -/
theorem Sockets.Kept.atMostOne (h : s.Kept) : s.AtMostOne := by
  intro c hc d hd hcs hds
  exact Option.some_inj.mp (((h c hc).resolve_left hcs).symm.trans ((h d hd).resolve_left hds))

end

variable {ι : Type} [DecidableEq ι] {w w' : World ι} {e : Event ι} {es : List (Event ι)}

/-- The step lemma of what every run keeps. -/
theorem sane_step (hw : w.sockets.Sane) (h : step w e = some w') : w'.sockets.Sane := by
  rcases step_sockets h with h | h | h | ⟨hclosed, h⟩ | ⟨-, hclosed, h⟩ <;> rw [h]
  · exact hw
  · exact hw.drop w.sockets.closed
  · exact hw.drop true
  · refine ⟨fun c hc => ?_, fun c hc => ?_, hw.gone⟩
    · rcases List.mem_append.mp hc with hc | hc
      · exact Nat.lt_succ_of_lt (hw.shut_lt c hc)
      · rw [List.mem_singleton.mp hc]
        exact Nat.lt_succ_self _
    · -- A disposed session holds none.
      rw [hw.gone hclosed] at hc
      nomatch hc
  · refine ⟨fun c hc => Nat.lt_succ_of_lt (hw.shut_lt c hc), fun c hc => ?_, fun hc => ?_⟩
    · obtain rfl := Option.some_inj.mp hc
      exact ⟨Nat.lt_succ_self _, hw.fresh⟩
    · exact absurd (hclosed.symm.trans hc) Bool.false_ne_true

/-- No connection arrives where one is held. -/
def Unheld (w : World ι) : Event ι → Prop
  | .opened i => (∃ op, w.calls i = .pending op .opening) → w.fields.closed = false → w.fields.connection = none
  | _ => True

/-- The step lemma of the runs in which no connection arrives where one is held. -/
theorem kept_step (hw : w.sockets.Kept) (he : Unheld w e) (h : step w e = some w') : w'.sockets.Kept := by
  rcases step_sockets h with h | h | h | ⟨hclosed, h⟩ | ⟨⟨i, op, rfl, hcall⟩, hclosed, h⟩ <;> rw [h]
  · exact hw
  · exact hw.drop w.sockets.closed
  · exact hw.drop true
  · intro c hc
    rcases Nat.lt_succ_iff_lt_or_eq.mp hc with hc | rfl
    · exact (hw c hc).imp_left (List.mem_append_left _)
    · exact .inl (List.mem_append_right _ (List.mem_singleton.mpr rfl))
  · intro c hc
    rcases Nat.lt_succ_iff_lt_or_eq.mp hc with hc | rfl
    · refine .inl ((hw c hc).resolve_right fun hheld => ?_)
      exact absurd ((he ⟨op, hcall⟩ hclosed).symm.trans hheld) nofun
    · exact .inr rfl

/-- A connection that arrives where one is held leaves two open. -/
theorem not_atMostOne (hw : w.sockets.Sane) (he : ¬ Unheld w e) : ∃ w', step w e = some w' ∧ ¬ w'.sockets.AtMostOne := by
  cases e with
  | opened i =>
    simp only [Unheld, Classical.not_imp] at he
    obtain ⟨⟨op, hcall⟩, hclosed, hheld⟩ := he
    obtain ⟨c, hc⟩ := Option.ne_none_iff_exists'.mp hheld
    obtain ⟨hlt, hopen⟩ := hw.held c hc
    refine ⟨w.onOpened i op, by simp only [step, hcall], fun hone => ?_⟩
    have hsockets : (w.onOpened i op).sockets = { w.sockets with connection := some w.opened, opened := w.opened + 1 } := by
      simp [World.onOpened, World.sockets, World.at, hclosed]
    rw [hsockets] at hone
    exact Nat.ne_of_lt hlt (hone c (Nat.lt_succ_of_lt hlt) w.opened (Nat.lt_succ_self _) hopen hw.fresh)
  | _ => exact absurd trivial he

/-- Where at most one connection is open at any time, none arrives where one is held: by induction on the run. -/
theorem unheld_of_atMostOne (hw : w.sockets.Sane)
    (h : ∀ es', es' <+: es → ∀ w', run step w es' = some w' → w'.sockets.AtMostOne) : Along step Unheld w es := by
  induction es generalizing w with
  | nil => trivial
  | cons e es ih =>
    refine ⟨?_, fun w₁ hw₁ => ih (sane_step hw hw₁) fun es' hpre w' hrun => ?_⟩
    · by_contra he
      obtain ⟨w₁, hstep, hone⟩ := not_atMostOne hw he
      exact hone (h [e] (List.prefix_append [e] es) w₁ (run_cons.mpr ⟨w₁, hstep, rfl⟩))
    · exact h (e :: es') (List.cons_prefix_cons.mpr ⟨rfl, hpre⟩) w' (run_cons.mpr ⟨w₁, hw₁, hrun⟩)

/-! ## Every run -/

/-- In exactly the runs in which no connection arrives where one is held, the session has at most one open connection at any
time, and none once it is disposed and its calls have ended. -/
theorem session_connections (es : List (Event ι)) :
    (∀ es', es' <+: es → ∀ w : World ι, run step {} es' = some w →
      (∀ c < w.opened, ∀ d < w.opened, c ∉ w.shut → d ∉ w.shut → c = d) ∧
      (w.fields.closed → w.Quiet → ∀ c < w.opened, c ∈ w.shut)) ↔
    Along step Unheld ({} : World ι) es := by
  have hsane : ({} : World ι).sockets.Sane := ⟨nofun, nofun, fun _ => rfl⟩
  have hkept : ({} : World ι).sockets.Kept := fun c hc => absurd hc (Nat.not_lt_zero c)
  constructor
  · exact fun h => unheld_of_atMostOne hsane fun es' hpre w hrun => (h es' hpre w hrun).1
  · rintro h es' ⟨rest, rfl⟩ w hrun
    have hw : w.sockets.Sane ∧ w.sockets.Kept := run_invariant (I := fun w : World ι => w.sockets.Sane ∧ w.sockets.Kept)
      (fun w e w' hw he hstep => ⟨sane_step hw.1 hstep, kept_step hw.2 he hstep⟩) ⟨hsane, hkept⟩ h.of_append hrun
    refine ⟨hw.2.atMostOne, fun hclosed _ c hc => (hw.2 c hc).resolve_right fun hheld => ?_⟩
    exact absurd ((hw.1.gone hclosed).symm.trans hheld) nofun

/-- A refresh and a share loaded while it connects: both open a connection, and the first is never closed. -/
def overlap : List (Event Bool) :=
  [.call false .refresh, .call true (.loadShare "alice" false), .opened false, .opened true, .resume false,
    .execute false true, .answered false, .execute false true, .answered false, .execute false true, .answered false,
    .resume true, .execute true true, .answered true, .dispose]

/-- One of the two is still open when the session is disposed and its calls have ended. -/
theorem session_connections_overlap :
    ∃ w : World Bool, run step {} overlap = some w ∧ w.fields.closed ∧ w.Quiet ∧ ∃ c < w.opened, c ∉ w.shut := by
  refine ⟨_, rfl, rfl, fun i op await => ?_, 0, by decide, by decide⟩
  cases i <;> exact nofun

end Session

end VpnStack

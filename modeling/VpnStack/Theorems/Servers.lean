import VpnStack.Servers

/-!
# What becomes of the list of servers

Two operations that overlap can undo each other: a save that fails puts back a list that is as old as its own start. And a list
the store refused to read is kept only as long as nothing is changed, since every save writes the list in memory, which does not
have it.
-/

namespace VpnStack

namespace Servers

open Transition

variable {dates : Dates}

/-! ## Overlapping operations -/

/-- A model that has loaded its list, with nothing under way. -/
def opened (servers : List ServerProfile) (blob : Option Text) : State := { cell := Optimistic.init servers, blob }

/-- What an operation does and what becomes of its save; loads are not among it. -/
def Action.isOperation : Action → Bool
  | .call _ => true
  | .write _ => true
  | .answer _ => true
  | _ => false

/-- The failure of a save comes back only when every operation called after its own has failed, and its failure is back. -/
def Orderly (s : State) : Action → Prop
  | .answer i => Optimistic.Orderly s.cell (.answer i)
  | _ => True

instance (s : State) (a : Action) : Decidable (Orderly s a) := by
  unfold Orderly
  split <;> infer_instance

/-- No save is in flight. -/
def State.Quiet (s : State) : Prop := s.cell.Quiet

/-- The list in memory is the one stored last, and holds the operations whose saves succeeded and no others; the store has it,
if any save succeeded, and what it had before otherwise. -/
structure State.Agrees (servers : List ServerProfile) (blob : Option Text) (dates : Dates) (s : State) : Prop where
  stored : s.servers = s.cell.lastStored servers
  reflected : s.servers = s.cell.succeeded.foldl (fun list op => op.next list) servers
  blob : s.blob = if s.cell.succeeded = [] then blob else some (blobOf dates s.servers)

/-- What the store has is the list of the last save that succeeded. -/
def Written (blob : Option Text) (dates : Dates) (s : State) : Prop :=
  s.blob = ((s.cell.sent.filter (·.ok)).getLast?.map fun c => some (blobOf dates c.save.next)).getD blob

/-- A step of an operation changes the cell as the library says, or not at all. -/
theorem step_cell {s s' : State} {a : Action} (ha : a.isOperation = true) (h : step dates s a = some s') :
    s'.cell = s.cell ∨ ∃ b, Optimistic.step Op.next s.cell b = some s'.cell ∧
      (∀ i, b = .answer i → a = .answer i) := by
  cases a with
  | call op =>
    rw [step] at h
    split at h
    · obtain ⟨cell, hcell, rfl⟩ := Option.map_eq_some_iff.mp h
      exact .inr ⟨.start op, hcell, by simp⟩
    · obtain rfl := Option.some.inj h
      exact .inl rfl
  | write ok =>
    obtain ⟨cell, hcell, rfl⟩ := Option.map_eq_some_iff.mp h
    exact .inr ⟨.write ok, hcell, by simp⟩
  | answer i =>
    obtain ⟨cell, hcell, rfl⟩ := Option.map_eq_some_iff.mp h
    exact .inr ⟨.answer i, hcell, by simp⟩
  | load => nomatch ha
  | read i ok => nomatch ha
  | loaded i => nomatch ha

/-- An orderly step keeps what the library asks of the cell. -/
theorem inv_step {servers : List ServerProfile} {s s' : State} {a : Action} (hI : Optimistic.Inv Op.next servers s.cell)
    (hC : Orderly s a) (ha : a.isOperation = true) (h : step dates s a = some s') :
    Optimistic.Inv Op.next servers s'.cell := by
  rcases step_cell ha h with hcell | ⟨b, hb, hanswer⟩
  · rw [hcell]
    exact hI
  · refine hI.step ?_ hb
    cases b with
    | start op => trivial
    | write ok => trivial
    | answer i =>
      obtain rfl := hanswer i rfl
      exact hC

/-- Every save that succeeds is what the store has next. -/
theorem written_step {blob : Option Text} {s s' : State} {a : Action} (hW : Written blob dates s) (ha : a.isOperation = true)
    (h : step dates s a = some s') : Written blob dates s' := by
  cases a with
  | call op =>
    rw [step] at h
    split at h
    · obtain ⟨cell, hcell, rfl⟩ := Option.map_eq_some_iff.mp h
      obtain rfl := Option.some.inj hcell
      exact hW
    · obtain rfl := Option.some.inj h
      exact hW
  | write ok =>
    obtain ⟨cell, hcell, rfl⟩ := Option.map_eq_some_iff.mp h
    rw [Optimistic.step] at hcell
    cases hqueue : s.cell.queue with
    | nil =>
      rw [hqueue] at hcell
      cases hcell
    | cons save queue =>
      rw [hqueue] at hcell
      obtain rfl := Option.some.inj hcell
      cases ok with
      | true => simp [Written]
      | false => simpa [Written] using hW
  | answer i =>
    obtain ⟨cell, hcell, rfl⟩ := Option.map_eq_some_iff.mp h
    rw [Optimistic.step] at hcell
    split at hcell
    · cases hcell
    · rename_i c after hdrop
      split at hcell
      · cases hcell
      · obtain rfl := Option.some.inj hcell
        have hsent : s.cell.sent = s.cell.sent.take i ++ c :: after := by rw [← hdrop, List.take_append_drop]
        have hsame : ((s.cell.sent.take i ++ { c with answered := true } :: after).filter (·.ok)).getLast?.map
            (fun c => some (blobOf dates c.save.next)) =
            ((s.cell.sent.take i ++ c :: after).filter (·.ok)).getLast?.map (fun c => some (blobOf dates c.save.next)) := by
          rw [List.filter_append, List.filter_append, List.filter_cons, List.filter_cons, List.getLast?_append,
            List.getLast?_append]
          cases c.ok with
          | true =>
            rw [if_pos rfl, if_pos rfl]
            cases after.filter (·.ok) using List.reverseRecOn with
            | nil => rfl
            | append_singleton l x => rw [← List.cons_append, ← List.cons_append, List.getLast?_concat, List.getLast?_concat]
          | false => rfl
        rw [Written, hW, hsame, ← hsent]
  | load => cases ha
  | read i ok => cases ha
  | loaded i => cases ha

/-- In every run of operations in which a failure comes back only when the operations called after its own have failed before:
whenever no save is in flight, the list in memory is the one that was stored last, and holds exactly the operations whose saves
succeeded. -/
theorem operations_agree (dates : Dates) (servers : List ServerProfile) (blob : Option Text) {as : List Action} {s : State}
    (hops : ∀ a ∈ as, a.isOperation = true) (hC : Along (step dates) Orderly (opened servers blob) as)
    (hrun : run (step dates) (opened servers blob) as = some s) (hquiet : s.Quiet) : s.Agrees servers blob dates := by
  have hinit : Optimistic.Inv Op.next servers (opened servers blob).cell ∧ Written blob dates (opened servers blob) :=
    ⟨Optimistic.Inv.init servers, rfl⟩
  have hinv : Optimistic.Inv Op.next servers s.cell ∧ Written blob dates s :=
    run_invariant (I := fun s => Optimistic.Inv Op.next servers s.cell ∧ Written blob dates s)
      (fun s a s' h hc he => ⟨inv_step h.1 hc.1 hc.2 he, written_step h.2 hc.2 he⟩) hinit (hC.and (Along.of_forall hops)) hrun
  obtain ⟨hstored, hreflected⟩ := hinv.1.quiet hquiet
  refine ⟨hstored, hreflected, ?_⟩
  rw [hinv.2, State.servers, hstored, Optimistic.State.lastStored, Optimistic.State.succeeded]
  cases s.cell.sent.filter (·.ok) using List.reverseRecOn with
  | nil => rfl
  | append_singleton l c => simp

/-- A server in the examples. -/
def sample (id : Text) : ServerProfile := { id, label := "box", host := "203.0.113.7" }

/-- Dates nobody asks about. -/
def noDates : Dates := ⟨fun _ => [], fun _ => none⟩

/-- Two servers are added one after the other, and the first save fails before the second server is. -/
def addedInTurn : List Action :=
  [.call (.add (sample "a".toList)), .write false, .answer 0, .call (.add (sample "b".toList)), .write true, .answer 1]

/-- Two servers that are added one after the other are both there, in memory and in the store. -/
theorem operations_agree_inTurn : ∃ s, run (step noDates) (opened [] none) addedInTurn = some s ∧ s.Agrees [] none noDates :=
  have hrun : (run (step noDates) (opened [] none) addedInTurn).isSome = true := by decide +kernel
  have hquiet : ∀ s ∈ run (step noDates) (opened [] none) addedInTurn, s.cell.queue = [] ∧
      ∀ c ∈ s.cell.sent, c.answered = true := by decide +kernel
  ⟨_, Option.eq_some_of_isSome hrun, operations_agree noDates [] none (by decide) (by decide +kernel)
    (Option.eq_some_of_isSome hrun) (hquiet _ (Option.get_mem hrun))⟩

/-- Two servers are added at once; the first save fails, the second succeeds, and then both answers come back. -/
def addedAtOnce : List Action :=
  [.call (.add (sample "a".toList)), .call (.add (sample "b".toList)), .write false, .write true, .answer 0, .answer 1]

/-- The store has both servers then, and memory none. -/
theorem operations_disagree : ¬ ∀ (dates : Dates) (servers : List ServerProfile) (blob : Option Text) (as : List Action)
    (s : State), (∀ a ∈ as, a.isOperation = true) → run (step dates) (opened servers blob) as = some s → s.Quiet →
    s.Agrees servers blob dates := by
  intro h
  have hrun : (run (step noDates) (opened [] none) addedAtOnce).isSome = true := by decide +kernel
  have hquiet : ∀ s ∈ run (step noDates) (opened [] none) addedAtOnce, s.cell.queue = [] ∧
      ∀ c ∈ s.cell.sent, c.answered = true := by decide +kernel
  have hapart : ∀ s ∈ run (step noDates) (opened [] none) addedAtOnce, s.servers ≠ s.cell.lastStored [] := by decide +kernel
  have hmem := Option.get_mem hrun
  exact hapart _ hmem (h noDates [] none addedAtOnce _ (by decide) (Option.eq_some_of_isSome hrun) (hquiet _ hmem)).stored

/-! ## A list that was refused -/

/-- The store has a text that was refused; nothing is under way. -/
def refused (servers : List ServerProfile) (raw : Text) (e : LoadError) : State :=
  { cell := Optimistic.init servers, error := some (.load e), blob := some raw }

/-- No operation saves: the one that is called is the key of a server that is not in the list. -/
def Harmless (s : State) : Action → Prop
  | .call op => op.saves s.servers = false
  | _ => True

instance (s : State) (a : Action) : Decidable (Harmless s a) := by
  unfold Harmless
  split <;> infer_instance

/-- What is so while no operation has saved: none is under way, and no load has read anything but the refused text. -/
structure Kept (servers : List ServerProfile) (raw : Text) (s : State) : Prop where
  cell : s.cell = Optimistic.init servers
  blob : s.blob = some raw
  loads : ∀ read ∈ s.loads, ∀ got, read = some (.ok got) → got = some raw

/-- A step that saves nothing leaves the refused text and the list in memory as they are; a load is refused again. -/
theorem Kept.step {servers : List ServerProfile} {raw : Text} {e : LoadError} (hraw : load dates (some raw) = .error e)
    {s s' : State} {a : Action} (h : Kept servers raw s) (hC : Harmless s a) (hstep : Servers.step dates s a = some s') :
    Kept servers raw s' := by
  cases a with
  | call op =>
    have hC : op.saves s.servers = false := hC
    rw [Servers.step, if_neg (by simp [hC])] at hstep
    obtain rfl := Option.some.inj hstep
    exact h
  | write ok =>
    obtain ⟨cell, hcell, -⟩ := Option.map_eq_some_iff.mp hstep
    rw [h.cell] at hcell
    cases hcell
  | answer i =>
    obtain ⟨cell, hcell, -⟩ := Option.map_eq_some_iff.mp hstep
    have hnone : Optimistic.step Op.next (Optimistic.init servers) (.answer i) = none := by
      simp [Optimistic.step, Optimistic.init]
    rw [h.cell, hnone] at hcell
    cases hcell
  | load =>
    obtain rfl := Option.some.inj hstep
    refine ⟨h.cell, h.blob, fun read hread got hgot => ?_⟩
    rcases List.mem_append.mp hread with hread | hread
    · exact h.loads read hread got hgot
    · obtain rfl := List.mem_singleton.mp hread
      cases hgot
  | read i ok =>
    rw [Servers.step] at hstep
    split at hstep
    · obtain rfl := Option.some.inj hstep
      refine ⟨h.cell, h.blob, fun read hread got hgot => ?_⟩
      rcases List.mem_or_eq_of_mem_set hread with hread | rfl
      · exact h.loads read hread got hgot
      · cases ok with
        | true =>
          have hblob : s.blob = got := by simpa using hgot
          rw [← hblob, h.blob]
        | false => cases hgot
    · cases hstep
  | loaded i =>
    rw [Servers.step] at hstep
    split at hstep
    · rename_i read hread
      obtain rfl := Option.some.inj hstep
      have hmem : some read ∈ s.loads := List.mem_of_getElem? hread
      have herror : ∃ e, read.bind (load dates) = .error e := by
        cases read with
        | error e => exact ⟨e, rfl⟩
        | ok got =>
          rw [h.loads _ hmem got rfl]
          exact ⟨e, hraw⟩
      obtain ⟨e', he⟩ := herror
      rw [State.finishLoad, he]
      exact ⟨h.cell, h.blob, fun r hr => h.loads r (List.mem_of_mem_eraseIdx hr)⟩
    · cases hstep

/-- In every run that follows a refusal and in which no operation saves, the refused text is never overwritten. -/
theorem refused_kept (dates : Dates) (servers : List ServerProfile) (raw : Text) {e : LoadError}
    (hraw : load dates (some raw) = .error e) {as : List Action} {s : State}
    (hC : Along (step dates) Harmless (refused servers raw e) as) (hrun : run (step dates) (refused servers raw e) as = some s) :
    s.blob = some raw := by
  have hkept : Kept servers raw (refused servers raw e) := ⟨rfl, rfl, fun read hread => nomatch hread⟩
  exact (run_invariant (I := Kept servers raw) (fun s a s' h hc he => h.step hraw hc he) hkept hC hrun).blob

/-- The list of a newer build of the app. -/
def newer : Text := "\x7b\"schema\":3,\"servers\":[]\x7d"

/-- What is said of it. -/
def newerError : LoadError :=
  match load noDates (some newer) with
  | .error e => e
  | .ok _ => .malformed

/-- A record of a newer schema is refused. -/
theorem load_newer : load noDates (some newer) = .error newerError := by
  have hrefused : (match load noDates (some newer) with | .error _ => true | .ok _ => false) = true := by decide +kernel
  rw [newerError]
  split at hrefused
  · rename_i e he
    rw [he]
  · nomatch hrefused

/-- A key is remembered for a server that was in the list, and the list is loaded again. -/
def harmless : List Action :=
  [.call (.rememberHostKey "a".toList ⟨"ssh-ed25519", "SHA256:x", "SHA256:x"⟩), .load, .read 0 true, .loaded 0]

/-- The record of a newer schema is kept where nothing is written behind the refusal. -/
theorem refused_kept_newer : ∃ s, run (step noDates) (refused [] newer newerError) harmless = some s ∧ s.blob = some newer :=
  have hrun : (run (step noDates) (refused [] newer newerError) harmless).isSome = true := by decide +kernel
  ⟨_, Option.eq_some_of_isSome hrun, refused_kept noDates [] newer load_newer (by decide +kernel)
    (Option.eq_some_of_isSome hrun)⟩

/-- Any other operation saves, and where its save succeeds the refused text is gone. -/
theorem refused_overwritten (dates : Dates) (servers : List ServerProfile) (raw : Text) (e : LoadError) {op : Op}
    (hop : op.saves servers = true) :
    ∃ s, run (step dates) (refused servers raw e) [.call op, .write true] = some s ∧
      s.blob = some (blobOf dates (op.next servers)) := by
  have hcall : step dates (refused servers raw e) (.call op) =
      some { refused servers raw e with cell := ⟨op.next servers, [⟨op, servers, op.next servers⟩], []⟩, error := none } := by
    have hsaves : op.saves (refused servers raw e).servers = true := hop
    rw [step, if_pos hsaves]
    rfl
  refine ⟨_, run_cons.mpr ⟨_, hcall, run_cons.mpr ⟨_, rfl, rfl⟩⟩, rfl⟩

/-- A server is added, and the list of the newer build is gone. -/
theorem refused_lost : ¬ ∀ (dates : Dates) (servers : List ServerProfile) (raw : Text) (e : LoadError) (as : List Action)
    (s : State), load dates (some raw) = .error e → run (step dates) (refused servers raw e) as = some s →
    s.blob = some raw := by
  intro h
  obtain ⟨s, hrun, hblob⟩ := @refused_overwritten noDates [] newer newerError (.add (sample "a".toList)) rfl
  have hsame := h noDates [] newer newerError _ s load_newer hrun
  rw [hblob] at hsame
  have hlength : (blobOf noDates [sample "a".toList]).length ≠ newer.length := by decide +kernel
  exact hlength (congrArg List.length (Option.some.inj hsame))

end Servers

end VpnStack

import VpnStack.Effects

/-!
# Certificates of reused names

A name that is removed or disabled and comes back must not keep its earlier certificate. What stands for that between the
commands is the queue of pending revocations; what fills it is a flag of the user record, which a reconcile that was cut
short may have left behind the truth. In every life in which a name that becomes wanted has no certificate but a queued one,
a reconcile that reports no failure leaves an enabled user with certificates of his own only.
-/

namespace VpnStack

open Python Interaction Ikev2Ctl

/-- The names whose revocation is pending. -/
def World.queue (w : World) : List Text := (w.state.map (·.revokePending)).getD []

namespace Revocation

/-- The name `parse_clients` takes for the header of the listing. -/
def header : Text := "Client".toList

/-! ## What is claimed -/

/-- Every valid certificate of the name is later than that moment. -/
def After (certs : List Cert) (name : Text) (time : Nat) : Prop := ∀ c ∈ certs, c.Valid → c.name = name → time < c.issued

/-- What is claimed of a reconcile that reported no failure. -/
def Good (note : ReconcileNote) : Prop :=
  note.result.failed = [] → ∀ u ∈ note.users, u.enabled = true → After note.certs u.name (note.since u.name)

/-- A name that becomes wanted with the next write of the database has no valid certificate, or it is queued. The header's
name cannot be read from a listing, so a certificate of it makes the reconcile report a failure. -/
def Covered (w : World) (users : List User) : Prop :=
  ∀ u ∈ users, u.enabled = true → (∀ b ∈ w.users, b.name = u.name → b.enabled = false) →
    (∃ c ∈ w.certs, c.Valid ∧ c.name = u.name) → u.name ∈ w.queue ∨ u.name = header

/-- Every write of the database is covered. Anything may be interrupted, and the command may be killed anywhere. -/
def covered : Discipline Op World Choice where
  choice o _ w := match o with
    | .saveUsers users => Covered w users
    | _ => True
  stop _ _ := True

instance (w : World) (users : List User) : Decidable (Covered w users) := by
  unfold Covered
  infer_instance

instance (o : Op) (c : Choice) (w : World) : Decidable (covered.choice o c w) := by
  cases o <;> first | exact isTrue trivial | exact inferInstanceAs (Decidable (Covered _ _))

instance (o : Op) (w : World) : Decidable (covered.stop o w) := isTrue trivial

/-! ## The invariant -/

structure Inv (w : World) : Prop where
  ledger : Ledger w.certs
  since_le : ∀ name, w.since name ≤ w.clock
  names : (w.users.map (·.name)).Nodup
  wanted : ∀ u ∈ w.users, u.enabled = true → After w.certs u.name (w.since u.name) ∨ u.name ∈ w.queue ∨ u.name = header
  notes : ∀ note ∈ w.reconciles, Good note

section Calls

variable {host : Host} {c : Choice} {w : World}

/-- A call about something else. -/
theorem Inv.other {o : Op} (h : Inv w) (hcerts : o.part ≠ .certs) (husers : o.part ≠ .users) (hstate : o.part ≠ .state)
    (hnotes : o.part ≠ .notes) : Inv (exec host o c w).2 := by
  have hqueue : (exec host o c w).2.queue = w.queue := congrArg (fun s => (Option.map _ s).getD []) (exec_state hstate)
  refine ⟨?_, fun name => ?_, ?_, fun u hu henabled => ?_, ?_⟩
  · rw [exec_certs hcerts]
    exact h.ledger
  · rw [exec_since husers, exec_clock husers hcerts]
    exact h.since_le name
  · rw [exec_users husers]
    exact h.names
  · rw [exec_users husers] at hu
    rw [exec_certs hcerts, exec_since husers, hqueue]
    exact h.wanted u hu henabled
  · rw [exec_reconciles hnotes]
    exact h.notes

/-- A state with the names that are still needed. -/
theorem Inv.saveState {st : State} (h : Inv w)
    (hst : ∀ u ∈ w.users, u.enabled = true → u.name ≠ header → u.name ∈ w.queue → u.name ∉ st.revokePending →
      After w.certs u.name (w.since u.name)) : Inv (exec host (.saveState st) c w).2 where
  ledger := h.ledger
  since_le := h.since_le
  names := h.names
  wanted u hu henabled := by
    by_cases hq : u.name ∈ st.revokePending
    · exact .inr (.inl hq)
    · by_cases hheader : u.name = header
      · exact .inr (.inr hheader)
      · rcases h.wanted u hu henabled with hafter | hmem | hh
        · exact .inl hafter
        · exact .inl (hst u hu henabled hheader hmem hq)
        · exact absurd hh hheader
  notes := h.notes

/-- A state with the same queue, or a longer one. -/
theorem Inv.saveState_mono {st : State} (h : Inv w) (hst : w.queue ⊆ st.revokePending) :
    Inv (exec host (.saveState st) c w).2 :=
  h.saveState fun _ _ _ _ hq hn => absurd (hst hq) hn

/-- Who was there before a write, and enabled behind it, is there since when he was. -/
theorem sinceOf_eq {before after : List User} {since : Text → Nat} {now : Nat} {name : Text}
    (hafter : ∀ u ∈ after, u.name = name → u.enabled = true) (hbefore : ∃ b ∈ before, b.name = name) :
    sinceOf before after since now name = since name := by
  unfold sinceOf
  refine if_neg fun h => ?_
  obtain ⟨u, hu, hcond⟩ := List.any_eq_true.mp h.1
  obtain ⟨b, hb, hname⟩ := hbefore
  simp only [Bool.and_eq_true, beq_iff_eq, Bool.or_eq_true, Bool.not_eq_true'] at hcond
  rcases hcond with ⟨hu', hcond | hcond⟩
  · rw [hafter u hu hu'] at hcond
    cases hcond
  · have := List.any_eq_false.mp hcond b hb
    simp [hname] at this

/-- Nobody is there since a moment that is still to come. -/
theorem sinceOf_le {before after : List User} {since : Text → Nat} {clock : Nat} (h : ∀ name, since name ≤ clock)
    (name : Text) : sinceOf before after since (clock + 1) name ≤ clock + 1 := by
  unfold sinceOf
  split
  · exact Nat.le_refl _
  · exact Nat.le_succ_of_le (h name)

/-- A covered write of the database. -/
theorem Inv.saveUsers {users : List User} (h : Inv w) (hnames : (users.map (·.name)).Nodup) (hcovered : Covered w users) :
    Inv (exec host (.saveUsers users) c w).2 where
  ledger := h.ledger
  since_le := sinceOf_le h.since_le
  names := hnames
  wanted u hu henabled := by
    change After w.certs u.name (sinceOf w.users users w.since (w.clock + 1) u.name) ∨ u.name ∈ w.queue ∨ u.name = header
    by_cases hb : ∃ b ∈ w.users, b.name = u.name ∧ b.enabled = true
    · obtain ⟨b, hb, hname, hbe⟩ := hb
      have hwanted := h.wanted b hb hbe
      rw [hname] at hwanted
      rw [sinceOf_eq (fun v hv hvn => ?_) ⟨b, hb, hname⟩]
      · exact hwanted
      · obtain rfl := List.inj_on_of_nodup_map hnames hv hu hvn
        exact henabled
    · by_cases hc : ∃ c ∈ w.certs, c.Valid ∧ c.name = u.name
      · exact .inr (hcovered u hu henabled (fun b hb' hname => Bool.eq_false_iff.mpr fun hbe => hb ⟨b, hb', hname, hbe⟩) hc)
      · exact .inl fun c hc' hv hname => absurd ⟨c, hc', hv, hname⟩ hc
  notes := h.notes

/-- A call that changes the certificates, and leaves no valid one that was not, or that is older than now. -/
theorem Inv.certs {certs : List Cert} {clock : Nat} (h : Inv w) (hledger : Ledger certs) (hclock : w.clock ≤ clock)
    (hsub : ∀ c ∈ certs, c.Valid → c ∈ w.certs ∨ w.clock < c.issued) : Inv { w with certs, clock } where
  ledger := hledger
  since_le name := Nat.le_trans (h.since_le name) hclock
  names := h.names
  wanted u hu henabled := by
    refine (h.wanted u hu henabled).imp_left fun hafter c hc hv hname => ?_
    rcases hsub c hc hv with hc | hlt
    · exact hafter c hc hv hname
    · exact Nat.lt_of_le_of_lt (h.since_le u.name) hlt
  notes := h.notes

theorem Inv.revoke {name : Text} (h : Inv w) : Inv (exec host (.revokeClient name) c w).2 :=
  @Inv.certs w _ w.clock h (revokeClient_ledger h.ledger) (Nat.le_refl _) fun _ hc hv => .inl (valid_of_revokeClient hc hv)

/-- A deletion of a name whose certificate is revoked keeps the invariant. -/
theorem Inv.delete {name : Text} (h : Inv w) (hname : Reserved w.certs name) : Inv (exec host (.deleteClient name) c w).2 :=
  @Inv.certs w _ w.clock h (deleteClient_ledger h.ledger hname) (Nat.le_refl _) fun _ hc hv =>
    .inl (valid_of_deleteClient hname hc hv)

/-- What `--addclient` leaves is there already, or issued now. -/
theorem mem_addClient {certs : List Cert} {now : Nat} {name : Text} {ok : Bool} {d : Cert}
    (hd : d ∈ (addClient certs now name ok).2) : d ∈ certs ∨ d = ⟨name, now, false, true⟩ := by
  rcases addClient_cases certs now name ok with ⟨-, -, -, heq⟩ | heq
  · rw [heq] at hd
    exact (List.mem_append.mp hd).imp_right List.mem_singleton.mp
  · rw [heq] at hd
    exact .inl hd

/-- A certificate that is issued keeps the invariant: it is later than everything. -/
theorem Inv.add {name : Text} (h : Inv w) : Inv (exec host (.addClient name) c w).2 := by
  refine h.certs (addClient_ledger h.ledger) (Nat.le_succ _) fun d hd _ => (mem_addClient hd).imp_right ?_
  rintro rfl
  exact Nat.lt_succ_self _

end Calls

/-! ## The loops of a reconcile -/

/-- Every valid certificate was there, or is later than that moment. -/
def Grows (start : Nat) (certs certs' : List Cert) : Prop := ∀ c ∈ certs', c.Valid → c ∈ certs ∨ start < c.issued

theorem Grows.refl (start : Nat) (certs : List Cert) : Grows start certs certs := fun _ hc _ => .inl hc

/-- Certificates that grew twice since that moment have grown since. -/
theorem Grows.trans {start : Nat} {a b c : List Cert} (h : Grows start a b) (h' : Grows start b c) : Grows start a c := by
  intro d hd hv
  rcases h' d hd hv with hd | hlt
  · exact h d hd hv
  · exact .inr hlt

/-- A name whose certificates are all later keeps that when certificates are added. -/
theorem After.grows {start : Nat} {certs certs' : List Cert} {name : Text} (h : After certs name start)
    (hg : Grows start certs certs') : After certs' name start := by
  intro c hc hv hname
  rcases hg c hc hv with hc | hlt
  · exact h c hc hv hname
  · exact hlt

/-- What a reconcile knows while it works: its two sets of names, read at that moment and kept up to date. -/
structure Reading (start : Nat) (users : List User) (queue : List Text) (r : Reconciling) (w : World) : Prop where
  inv : Inv w
  users_eq : w.users = users
  queue_eq : w.queue = queue
  since_le : ∀ name, w.since name ≤ start
  start_le : start ≤ w.clock
  reserved : ∀ name ∈ r.reserved, Reserved w.certs name
  valid : ∀ c ∈ w.certs, c.Valid → c.name ≠ header → c.name ∈ r.valid ∨ start < c.issued

section Loops

variable {host : Host} {start : Nat} {users : List User} {queue : List Text} {r : Reconciling} {w : World} {name : Text}

/-- A call on the certificates that leaves what is reserved reserved. -/
theorem Reading.step {certs : List Cert} {clock : Nat} (h : Reading start users queue r w)
    (hinv : Inv { w with certs, clock }) (hclock : w.clock ≤ clock)
    (hreserved : ∀ n ∈ r.reserved, Reserved w.certs n → Reserved certs n) (hgrows : Grows start w.certs certs) :
    Reading start users queue r { w with certs, clock } where
  inv := hinv
  users_eq := h.users_eq
  queue_eq := h.queue_eq
  since_le := h.since_le
  start_le := Nat.le_trans h.start_le hclock
  reserved n hn := hreserved n hn (h.reserved n hn)
  valid c hc hv hheader := by
    rcases hgrows c hc hv with hc | hlt
    · exact h.valid c hc hv hheader
    · exact .inr hlt

/-- Other sets of names, that still say as much. -/
theorem Reading.names {r' : Reconciling} (h : Reading start users queue r w) (hreserved : r'.reserved ⊆ r.reserved)
    (hvalid : ∀ c ∈ w.certs, c.Valid → c.name ≠ header → c.name ∈ r.valid → c.name ∈ r'.valid ∨ start < c.issued) :
    Reading start users queue r' w where
  inv := h.inv
  users_eq := h.users_eq
  queue_eq := h.queue_eq
  since_le := h.since_le
  start_le := h.start_le
  reserved n hn := h.reserved n (hreserved hn)
  valid c hc hv hheader := (h.valid c hc hv hheader).elim (hvalid c hc hv hheader) .inr

/-- A name that is not among the valid ones has no certificate from before the reconcile. -/
theorem Reading.after (h : Reading start users queue r w) (hname : name ≠ header) (hn : name ∉ r.valid) :
    After w.certs name start := by
  intro c hc hv hcn
  subst hcn
  exact (h.valid c hc hv hname).resolve_left hn

/-- A revocation that answers well leaves no valid certificate of the name. -/
theorem revoke_ends (h : Reading start users queue r w) :
    ends (server host) covered (call (.revokeClient name))
      (fun ok w' => Reading start users queue r w' ∧ Grows start w.certs w'.certs ∧
        (ok = true → ∀ c ∈ w'.certs, c.name = name → c.revoked = true)) (fun _ => Inv) Inv w := by
  have hgrows : ∀ c : Choice, Grows start w.certs (revokeClient w.certs name c.ok).2 := fun c d hd hv =>
    .inl (valid_of_revokeClient hd hv)
  refine ends_exec (fun _ => h.inv) (fun c _ _ => ⟨?_, hgrows c, ?_⟩) (fun _ _ _ _ => h.inv) (fun c _ _ _ => h.inv.revoke)
  · refine @Reading.step _ _ _ _ w _ w.clock h (@Inv.revoke host c w name h.inv) (Nat.le_refl _) (fun n _ hn d hd hl hname => ?_)
      (hgrows c)
    rcases mem_revokeClient hd with hd | ⟨d, hd, -, -, rfl⟩
    · exact hn d hd hl hname
    · rfl
  · exact fun hok d hd hname => revokeClient_ok h.inv.ledger hok hd hname

/-- A name is taken out of the database only when its certificate is revoked. -/
theorem delete_ends (h : Reading start users queue r w) (hname : Reserved w.certs name) :
    ends (server host) covered (call (.deleteClient name))
      (fun _ w' => Reading start users queue r w' ∧ Grows start w.certs w'.certs) (fun _ => Inv) Inv w := by
  have hgrows : ∀ c : Choice, Grows start w.certs (deleteClient w.certs name c.ok).2 := fun c d hd hv =>
    .inl (valid_of_deleteClient hname hd hv)
  refine ends_exec (fun _ => h.inv) (fun c _ _ => ⟨?_, hgrows c⟩) (fun _ _ _ _ => h.inv) (fun c _ _ _ => h.inv.delete hname)
  refine @Reading.step _ _ _ _ w _ w.clock h (@Inv.delete host c w name h.inv hname) (Nat.le_refl _) (fun n _ hn d hd hl hdn => ?_)
    (hgrows c)
  rcases mem_deleteClient hd with hd | ⟨d, -, -, -, rfl⟩
  · exact hn d hd hl hdn
  · cases hl

/-- A certificate that was issued is the only valid one of its name. -/
theorem add_ends (h : Reading start users queue r w) (hname : name ∉ r.reserved) :
    ends (server host) covered (call (.addClient name))
      (fun ok w' => Reading start users queue r w' ∧ Grows start w.certs w'.certs ∧
        (ok = true → After w'.certs name start)) (fun _ => Inv) Inv w := by
  have hlt : start < w.clock + 1 := Nat.lt_succ_of_le h.start_le
  have hgrows : ∀ c : Choice, Grows start w.certs (addClient w.certs (w.clock + 1) name c.ok).2 := fun c d hd _ =>
    (mem_addClient hd).imp_right (by rintro rfl; exact hlt)
  refine ends_exec (fun _ => h.inv) (fun c _ _ => ⟨?_, hgrows c, ?_⟩) (fun _ _ _ _ => h.inv) (fun c _ _ _ => h.inv.add)
  · refine h.step (@Inv.add host c w name h.inv) (Nat.le_succ _) (fun n hn hres d hd hl hdn => ?_) (hgrows c)
    rcases mem_addClient hd with hd | rfl
    · exact hres d hd hl hdn
    · have hdn : name = n := hdn
      exact absurd (hdn.symm ▸ hn) hname
  · intro hok d hd hv hdn
    change d ∈ (addClient w.certs (w.clock + 1) name c.ok).2 at hd
    rcases addClient_cases w.certs (w.clock + 1) name c.ok with ⟨-, -, hfree, heq⟩ | heq
    · rw [heq] at hd
      rcases List.mem_append.mp hd with hd | hd
      · exact absurd hdn (not_listed_of_holds hfree hd (h.inv.ledger.valid_listed d hd hv))
      · obtain rfl := List.mem_singleton.mp hd
        exact hlt
    · change (addClient w.certs (w.clock + 1) name c.ok).1 = true at hok
      rw [heq] at hok
      cases hok

/-- A client that is removed has no certificate left from before. -/
theorem removeClient_ends (h : Reading start users queue r w) :
    ends (server host) covered (removeClient name)
      (fun ok w' => Reading start users queue r w' ∧ (ok = true → After w'.certs name start)) (fun _ => Inv) Inv w := by
  refine ends_seq (revoke_ends h) fun ok w' hw' => ?_
  obtain ⟨h, -, hrevoked⟩ := hw'
  refine ends_ite (fun hok => ?_) (fun _ => ⟨h, fun hfalse => nomatch hfalse⟩)
  have hrevoked := hrevoked hok
  refine ends_mono (delete_ends h fun c hc _ hname => hrevoked c hc hname) (fun _ w'' hw'' => ⟨hw''.1, fun _ => ?_⟩)
    (fun _ _ h => h) (fun _ h => h)
  refine After.grows (fun c hc hv hname => ?_) hw''.2
  have hvalid : c.revoked = false := hv
  rw [hrevoked c hc hname] at hvalid
  cases hvalid

/-- What a turn of the first loop leaves. -/
structure Withdrawn (start : Nat) (users : List User) (queue : List Text) (r : Reconciling) (name : Text) (r' : Reconciling)
    (w : World) : Prop where
  reading : Reading start users queue r' w
  valid : r'.valid ⊆ r.valid
  failed : r.revokeFailed ⊆ r'.revokeFailed
  done : name ∈ r'.revokeFailed ∨ name ∉ r'.valid

/-- A turn of the first loop withdraws the name or notes that it failed. -/
theorem withdraw_ends (h : Reading start users queue r w) :
    ends (server host) covered (withdraw r name) (Withdrawn start users queue r name) (fun _ => Inv) Inv w := by
  -- what comes of the answer, whichever call was made
  have hanswer : ∀ ok w', Reading start users queue r w' ∧ (ok = true → name = header ∨ After w'.certs name start) →
      ends (server host) covered (if ok then return { r with
          withdrawn := r.withdrawn ++ [name], valid := r.valid.filter (· ≠ name), reserved := r.reserved.filter (· ≠ name) }
        else return { r with revokeFailed := r.revokeFailed ++ [name] } : Cmd Reconciling)
        (Withdrawn start users queue r name) (fun _ => Inv) Inv w' := by
    rintro ok w' ⟨h, hok⟩
    cases ok with
    | true =>
      refine ⟨h.names (fun n hn => (List.mem_filter.mp hn).1) (fun c hc hv hch hcv => ?_),
        fun n hn => (List.mem_filter.mp hn).1, fun n hn => hn, .inr ?_⟩
      · by_cases hcn : c.name = name
        · rcases hok rfl with hname | hafter
          · exact absurd (hcn.trans hname) hch
          · exact .inr (hafter c hc hv hcn)
        · exact .inl (List.mem_filter.mpr ⟨hcv, decide_eq_true hcn⟩)
      · intro hmem
        exact of_decide_eq_true (List.mem_filter.mp hmem).2 rfl
    | false =>
      refine ⟨h.names (fun n hn => hn) (fun c _ _ _ hcv => .inl hcv), fun n hn => hn,
        fun n hn => List.mem_append_left _ hn, .inl (List.mem_append_right _ (List.mem_singleton.mpr rfl))⟩
  unfold withdraw
  refine ends_ite (fun hnone => ?_) (fun hsome => ends_ite (fun hvalid => ?_) (fun hvalid => ?_))
  · exact ⟨h, fun n hn => hn, fun n hn => hn, .inr hnone.1⟩
  · exact ends_seq (ends_mono (removeClient_ends h) (fun ok w' hw' => ⟨hw'.1, fun hok => .inr (hw'.2 hok)⟩)
      (fun _ _ h => h) (fun _ h => h)) hanswer
  · have hres : name ∈ r.reserved := by
      by_contra hres
      exact hsome ⟨hvalid, hres⟩
    refine ends_seq (ends_mono (delete_ends h (h.reserved name hres)) (fun ok w' hw' => ⟨hw'.1, fun _ => ?_⟩)
      (fun _ _ h => h) (fun _ h => h)) hanswer
    by_cases hname : name = header
    · exact .inl hname
    · exact .inr ((h.after hname hvalid).grows hw'.2)

/-- What a turn of the second loop leaves. -/
structure Issued (start : Nat) (users : List User) (queue : List Text) (r : Reconciling) (name : Text) (certs : List Cert)
    (r' : Reconciling) (w : World) : Prop where
  reading : Reading start users queue r' w
  grows : Grows start certs w.certs
  revokeFailed : r'.revokeFailed = r.revokeFailed
  failed : r.addFailed ⊆ r'.addFailed
  done : name ∈ r'.addFailed ∨ After w.certs name start

/-- A turn of the second loop gives the name a certificate or notes that it failed. -/
theorem issue_ends (h : Reading start users queue r w) :
    ends (server host) covered (issue r name) (Issued start users queue r name w.certs) (fun _ => Inv) Inv w := by
  have hfailed : ∀ w', Reading start users queue r w' → Grows start w.certs w'.certs →
      Issued start users queue r name w.certs { r with addFailed := r.addFailed ++ [name] } w' := fun w' h hg =>
    ⟨h.names (fun n hn => hn) (fun c _ _ _ hcv => .inl hcv), hg, rfl, fun n hn => List.mem_append_left _ hn,
      .inl (List.mem_append_right _ (List.mem_singleton.mpr rfl))⟩
  have hadd : ∀ (freed : Bool) w', Reading start users queue r w' → Grows start w.certs w'.certs →
      ends (server host) covered (if freed then do
          let r := { r with reserved := r.reserved.filter (· ≠ name) }
          let ok : Bool ← call (.addClient name)
          if ok then return { r with added := r.added ++ [name], valid := r.valid ++ [name] }
          else return { r with addFailed := r.addFailed ++ [name] }
        else return { r with addFailed := r.addFailed ++ [name] } : Cmd Reconciling)
        (Issued start users queue r name w.certs) (fun _ => Inv) Inv w' := by
    intro freed w' h hg
    cases freed with
    | false => exact hfailed w' h hg
    | true =>
      have h' : Reading start users queue { r with reserved := r.reserved.filter (· ≠ name) } w' :=
        h.names (fun n hn => (List.mem_filter.mp hn).1) (fun c _ _ _ hcv => .inl hcv)
      refine ends_seq (add_ends h' fun hmem => of_decide_eq_true (List.mem_filter.mp hmem).2 rfl) fun ok w'' hw'' => ?_
      obtain ⟨h'', hg', hafter⟩ := hw''
      cases ok with
      | true =>
        exact ⟨h''.names (fun n hn => hn) (fun c _ _ _ hcv => .inl (List.mem_append_left _ hcv)), hg.trans hg', rfl,
          fun n hn => hn, .inr (hafter rfl)⟩
      | false =>
        exact ⟨h''.names (fun n hn => hn) (fun c _ _ _ hcv => .inl hcv), hg.trans hg', rfl,
          fun n hn => List.mem_append_left _ hn, .inl (List.mem_append_right _ (List.mem_singleton.mpr rfl))⟩
  unfold issue
  refine ends_ite (fun hres => ?_) (fun _ => ?_)
  · exact ends_seq (delete_ends h (h.reserved name hres)) fun freed w' hw' => hadd freed w' hw'.1 hw'.2
  · exact hadd true w h (Grows.refl start w.certs)

end Loops

/-! ## A reconcile -/

theorem mem_sortedNames {name : Text} {names : List Text} : name ∈ sortedNames names ↔ name ∈ names := by
  rw [sortedNames, List.mem_insertionSort, List.mem_dedup]

/-- A server without a state file has nothing queued, as the default state has nothing. -/
theorem queue_getD (w : World) (py : CaseMap) : (w.state.getD (State.default py)).revokePending = w.queue := by
  unfold World.queue
  cases w.state <;> rfl

theorem After.earlier {certs : List Cert} {name : Text} {time time' : Nat} (h : After certs name time) (hle : time' ≤ time) :
    After certs name time' := fun c hc hv hname => Nat.lt_of_le_of_lt hle (h c hc hv hname)

/-- Every enabled user has certificates of his own only. -/
def Own (w : World) : Prop := ∀ u ∈ w.users, u.enabled = true → After w.certs u.name (w.since u.name)

section Reconcile

variable {host : Host} {w : World}

/-- What a listing says of the certificates. -/
theorem reading_listing (h : Inv w) :
    Reading w.clock w.users w.queue
      ⟨(parseClients (host.listing.text (rows w.certs))).1, (parseClients (host.listing.text (rows w.certs))).2, [], [], [], []⟩
      w := by
  refine ⟨h, rfl, rfl, h.since_le, Nat.le_refl _, fun name hname c hc hl hcn => ?_, fun c hc hv hheader => .inl ?_⟩
  · obtain ⟨-, d, hd, hdl, hdn, hrevoked⟩ := (@mem_withStatus _ _ h.ledger.word _ false).mp hname
    rw [h.ledger.unique hc hd hl hdl (hcn.trans hdn.symm)]
    exact hrevoked
  · exact (@mem_withStatus _ _ h.ledger.word _ true).mpr
      ⟨hheader, c, hc, h.ledger.valid_listed c hc hv, rfl, hv⟩

/-- The name of the header is never read from a listing. -/
theorem header_not_mem (h : Inv w) : header ∉ (parseClients (host.listing.text (rows w.certs))).1 :=
  fun hmem => ((@mem_withStatus _ _ h.ledger.word _ true).mp hmem).1 rfl

/-- In front of a turn of the first loop: what is done is withdrawn, or it failed. -/
structure Withdrawing (start : Nat) (users : List User) (queue valid all rest : List Text) (r : Reconciling) (w : World) :
    Prop where
  reading : Reading start users queue r w
  valid : r.valid ⊆ valid
  done : ∀ n ∈ all, n ∈ rest ∨ n ∈ r.revokeFailed ∨ n ∉ r.valid

/-- In front of a turn of the second loop: what is done is issued, or it failed. -/
structure Issuing (start : Nat) (users : List User) (queue failed all rest : List Text) (r : Reconciling) (w : World) :
    Prop where
  reading : Reading start users queue r w
  failed_eq : r.revokeFailed = failed
  queued : ∀ n ∈ queue, n ≠ header → n ∈ failed ∨ After w.certs n start
  done : ∀ n ∈ all, n ∈ rest ∨ n ∈ r.addFailed ∨ After w.certs n start

section Loop

variable {start : Nat} {users : List User} {queue valid failed all : List Text} {r : Reconciling}

/-- The first loop leaves every name withdrawn or noted as failed. -/
theorem withdraw_loop (h : Reading start users queue r w) :
    ends (server host) covered (all.foldlM withdraw r) (Withdrawing start users queue r.valid all []) (fun _ => Inv) Inv w := by
  refine ends_foldlM (I := Withdrawing start users queue r.valid all) (fun n rest r w h => ?_)
    ⟨h, fun _ hn => hn, fun n hn => .inl hn⟩
  refine ends_mono (withdraw_ends h.reading) (fun r' w' h' => ⟨h'.reading, fun m hm => h.valid (h'.valid hm), fun m hm => ?_⟩)
    (fun _ _ h => h) (fun _ h => h)
  rcases h.done m hm with hrest | hfailed | hvalid
  · rcases List.mem_cons.mp hrest with rfl | hrest
    · exact .inr h'.done
    · exact .inl hrest
  · exact .inr (.inl (h'.failed hfailed))
  · exact .inr (.inr fun hmem => hvalid (h'.valid hmem))

/-- The second loop leaves every name with a certificate or noted as failed. -/
theorem issue_loop (h : Reading start users queue r w)
    (hqueued : ∀ n ∈ queue, n ≠ header → n ∈ r.revokeFailed ∨ After w.certs n start) :
    ends (server host) covered (all.foldlM issue r) (Issuing start users queue r.revokeFailed all []) (fun _ => Inv) Inv w := by
  refine ends_foldlM (I := Issuing start users queue r.revokeFailed all) (fun n rest r w h => ?_)
    ⟨h, rfl, hqueued, fun n hn => .inl hn⟩
  refine ends_mono (issue_ends h.reading) (fun r' w' h' => ⟨h'.reading, h'.revokeFailed.trans h.failed_eq, fun m hm hne => ?_,
    fun m hm => ?_⟩) (fun _ _ h => h) (fun _ h => h)
  · exact (h.queued m hm hne).imp_right fun hafter => hafter.grows h'.grows
  · rcases h.done m hm with hrest | hfailed | hafter
    · rcases List.mem_cons.mp hrest with rfl | hrest
      · exact .inr h'.done
      · exact .inl hrest
    · exact .inr (.inl (h'.failed hfailed))
    · exact .inr (.inr (hafter.grows h'.grows))

/-- A reconcile without a failure has issued what was missing, and what was there is not from before. -/
theorem Issuing.own {wanted : List Text} (h : Issuing start users queue failed all [] r w) (hfailed : failed = [])
    (hadd : r.addFailed = []) (hwanted : ∀ u ∈ users, u.enabled = true → u.name ∈ wanted)
    (hall : ∀ n ∈ wanted, n ∈ all ∨ n ≠ header) : Own w := by
  intro u hu henabled
  have hsince := h.reading.since_le u.name
  have hu' : u ∈ users := h.reading.users_eq ▸ hu
  rcases hall u.name (hwanted u hu' henabled) with hmem | hheader
  · rcases h.done u.name hmem with hnil | hnil | hafter
    · exact absurd hnil List.not_mem_nil
    · rw [hadd] at hnil
      exact absurd hnil List.not_mem_nil
    · exact hafter.earlier hsince
  · rcases h.reading.inv.wanted u hu henabled with hafter | hqueue | hh
    · exact hafter
    · rw [h.reading.queue_eq] at hqueue
      rcases h.queued u.name hqueue hheader with hnil | hafter
      · rw [hfailed] at hnil
        exact absurd hnil List.not_mem_nil
      · exact hafter.earlier hsince
    · exact absurd hh hheader

end Loop

/-- What a reconcile writes down keeps the names, and who is enabled. -/
theorem own_saveUsers {valid : List Text} {c : Choice} (h : Inv w) (hown : Own w) :
    Own (exec host (.saveUsers (w.users.map fun u => { u with ikev2Provisioned := decide (u.name ∈ valid) })) c w).2 := by
  intro u hu henabled
  obtain ⟨v, hv, rfl⟩ := List.mem_map.mp hu
  have hsince : sinceOf w.users (w.users.map fun u => { u with ikev2Provisioned := decide (u.name ∈ valid) }) w.since
      (w.clock + 1) v.name = w.since v.name := by
    refine sinceOf_eq (fun x hx hname => ?_) ⟨v, hv, rfl⟩
    obtain ⟨y, hy, rfl⟩ := List.mem_map.mp hx
    obtain rfl := List.inj_on_of_nodup_map h.names hy hv hname
    exact henabled
  change After w.certs v.name (sinceOf _ _ _ _ v.name)
  rw [hsince]
  exact hown v hv henabled

/-- The part of a reconcile behind the listing. When it reports no failure, the enabled users have certificates of their own
only. -/
theorem reconcileListed_ends {st : State} (h : Inv w) (hqueue : st.revokePending = w.queue) :
    ends (server host) covered (reconcileListed st w.users (parseClients (host.listing.text (rows w.certs))).1
        (parseClients (host.listing.text (rows w.certs))).2)
      (fun r w' => Inv w' ∧ (r.failed = [] → Own w')) (fun _ => Inv) Inv w := by
  have hheader := @header_not_mem host w h
  unfold reconcileListed
  refine ends_seq (withdraw_loop (reading_listing h)) fun r w₁ h₁ => ?_
  have hqueued : ∀ n ∈ w.queue, n ≠ header → n ∈ r.revokeFailed ∨ After w₁.certs n w.clock := by
    intro n hn hne
    rcases h₁.done n (mem_sortedNames.mpr (List.mem_append_left _ (hqueue ▸ hn))) with hnil | hfailed | hvalid
    · exact absurd hnil List.not_mem_nil
    · exact .inl hfailed
    · exact .inr (h₁.reading.after hne hvalid)
  refine ends_seq (issue_loop h₁.reading hqueued) fun r' w₂ h₂ => ?_
  have hown : r'.revokeFailed = [] → r'.addFailed = [] → Own w₂ := by
    intro hrevoke hadd
    refine @Issuing.own _ _ _ _ _ _ _ ((enabledUsers w.users).map (·.name)) h₂ (h₂.failed_eq.symm.trans hrevoke) hadd
      (fun u hu henabled => List.mem_map_of_mem (List.mem_filter.mpr ⟨hu, henabled⟩)) fun n hn => ?_
    by_cases hvalid : n ∈ r.valid
    · exact .inr fun heq => hheader (h₁.valid (heq ▸ hvalid))
    · exact .inl (mem_sortedNames.mpr (List.mem_filter.mpr ⟨hn, decide_eq_true hvalid⟩))
  -- a name leaves the queue only when nothing of it is left from before
  have hsave : ∀ c, Inv (exec host (.saveState { st with
      revokePending := st.revokePending.filter (· ∈ r'.revokeFailed) }) c w₂).2 := by
    refine fun c => h₂.reading.inv.saveState fun u hu _ hne hmem hnot => ?_
    rw [h₂.reading.queue_eq] at hmem
    have hfailed : u.name ∉ r.revokeFailed := fun hf =>
      hnot (List.mem_filter.mpr ⟨hqueue ▸ hmem, decide_eq_true (h₂.failed_eq ▸ hf)⟩)
    exact ((h₂.queued u.name hmem hne).resolve_left hfailed).earlier (h₂.reading.since_le u.name)
  refine ends_seq (M := fun _ w' => Inv w' ∧ w'.users = w.users ∧
    (r'.revokeFailed = [] → r'.addFailed = [] → Own w')) ?_ fun _ w₃ h₃ => ?_
  · exact ends_exec (fun _ => h₂.reading.inv) (fun c _ _ => ⟨hsave c, h₂.reading.users_eq, hown⟩)
      (fun _ _ _ _ => h₂.reading.inv) (fun c _ _ _ => hsave c)
  · obtain ⟨hinv, husers, hown⟩ := h₃
    rw [← husers]
    have hnames : ((w₃.users.map fun u => { u with ikev2Provisioned := decide (u.name ∈ r'.valid) }).map (·.name)).Nodup := by
      rw [List.map_map]
      exact hinv.names
    refine ends_seq (M := fun _ w' => Inv w' ∧ (r'.revokeFailed = [] → r'.addFailed = [] → Own w')) ?_ fun _ w₄ h₄ => ?_
    · exact ends_exec (fun _ => hinv) (fun c hc _ => ⟨hinv.saveUsers hnames hc, fun hr ha => own_saveUsers hinv (hown hr ha)⟩)
        (fun _ _ _ _ => hinv) (fun c _ hc _ => hinv.saveUsers hnames hc)
    · refine ⟨h₄.1, fun (hfailed : sortedNames (r'.revokeFailed ++ r'.addFailed) = []) => ?_⟩
      have hnil : ∀ n, n ∉ r'.revokeFailed ++ r'.addFailed := fun n hn => by
        have hmem := mem_sortedNames.mpr hn
        rw [hfailed] at hmem
        exact List.not_mem_nil hmem
      exact h₄.2 (List.eq_nil_iff_forall_not_mem.mpr fun n hn => hnil n (List.mem_append_left _ hn))
        (List.eq_nil_iff_forall_not_mem.mpr fun n hn => hnil n (List.mem_append_right _ hn))

/-- `reconcile_ikev2`. -/
theorem reconcileIkev2_ends (h : Inv w) :
    ends (server host) covered reconcileIkev2
      (fun res w' => Inv w' ∧ ∀ r, res = some r → r.failed = [] → Own w') (fun _ => Inv) Inv w := by
  have hnone : Inv w ∧ ∀ r : Reconciled, none = some r → r.failed = [] → Own w := ⟨h, fun _ hr => nomatch hr⟩
  refine ends_seq (ends_read rfl h) fun running w' hw' => ends_ite (fun _ => ?_) (fun _ => hw'.1 ▸ hnone)
  obtain ⟨rfl, -⟩ := hw'
  refine ends_seq (ends_read rfl h) fun st w' hw' => ?_
  have hqueue : st.revokePending = w'.queue := by
    obtain ⟨rfl, c, rfl⟩ := hw'
    exact queue_getD w' host.py
  obtain ⟨rfl, -⟩ := hw'
  refine ends_seq (ends_read rfl h) fun users w' hw' => ?_
  obtain ⟨rfl, c, rfl⟩ := hw'
  refine ends_seq (ends_read rfl h) fun listing w' hw' => ends_ite (fun hok => ?_) (fun _ => hw'.1 ▸ hnone)
  have htext : listing.2 = host.listing.text (rows w'.certs) := by
    obtain ⟨rfl, c, rfl⟩ := hw'
    change (if c.ok then (true, host.listing.text (rows w'.certs)) else (false, [])).1 = true at hok
    change (if c.ok then (true, host.listing.text (rows w'.certs)) else (false, [])).2 = _
    cases hc : c.ok with
    | true => rfl
    | false => rw [hc] at hok; cases hok
  obtain ⟨rfl, -⟩ := hw'
  rw [htext]
  refine ends_seq (reconcileListed_ends h hqueue) fun r w' hw' => ⟨hw'.1, fun r' hr' hfailed => ?_⟩
  cases hr'
  exact hw'.2 hfailed

end Reconcile

/-! ## The commands -/

section Commands

variable {host : Host} {w : World} {queue : List Text}

/-- The parts of a server a reconcile is not about. -/
def others : List Part := [.nothing, .keyring, .trees, .link, .promoted, .docker, .plans]

/-- What touches other parts keeps the invariant, and the queue. -/
theorem others_ends {parts : List Part} {α : Type} {p : Cmd α} (hp : Touches parts p) (hparts : parts ⊆ others)
    (h : Inv w ∧ w.queue = queue) :
    ends (server host) covered p (fun _ w' => Inv w' ∧ w'.queue = queue) (fun _ => Inv) Inv w := by
  refine ends_mono (hp.keeps (I := fun w => Inv w ∧ w.queue = queue) (fun o ho c w hw => ?_) h) (fun _ _ h => h)
    (fun _ _ h => h.1) (fun _ h => h.1)
  have hne : ∀ part ∉ others, o.part ≠ part := fun part hpart heq => hpart (heq ▸ hparts ho)
  refine ⟨hw.1.other (hne _ (by decide)) (hne _ (by decide)) (hne _ (by decide)) (hne _ (by decide)), ?_⟩
  exact (congrArg (fun s => (Option.map _ s).getD []) (exec_state (hne .state (by decide)))).trans hw.2

/-- The same, where the queue does not matter. -/
theorem others_keep {parts : List Part} {α : Type} {p : Cmd α} (hp : Touches parts p) (hparts : parts ⊆ others)
    (h : Inv w) : ends (server host) covered p (fun _ => Inv) (fun _ => Inv) Inv w :=
  ends_mono (others_ends hp hparts ⟨h, rfl⟩) (fun _ _ h => h.1) (fun _ _ h => h) (fun _ h => h)

/-- A call on another part keeps the invariant. -/
theorem call_keeps {o : Op} (ho : o.part ∈ others) (h : Inv w) :
    ends (server host) covered (call o) (fun _ => Inv) (fun _ => Inv) Inv w :=
  others_keep (show Touches [o.part] _ from Touches.call (List.mem_singleton.mpr rfl)) (by simpa using ho) h

/-- A state with the same queue. -/
theorem saveState_ends {st : State} (h : Inv w ∧ w.queue = st.revokePending) :
    ends (server host) covered (call (.saveState st)) (fun _ => Inv) (fun _ => Inv) Inv w := by
  have hsave : ∀ c, Inv (exec host (.saveState st) c w).2 := fun c => h.1.saveState_mono (h.2 ▸ List.Subset.refl _)
  exact ends_exec (fun _ => h.1) (fun c _ _ => hsave c) (fun _ _ _ _ => h.1) (fun c _ _ _ => hsave c)

/-- A state is read with the queue it has. -/
theorem loadState_ends (h : Inv w) :
    ends (server host) covered (call .loadState) (fun st w' => Inv w' ∧ w'.queue = st.revokePending) (fun _ => Inv) Inv w := by
  refine ends_mono (ends_read rfl h) (fun st w' hw' => ?_) (fun _ _ h => h) (fun _ h => h)
  obtain ⟨rfl, c, rfl⟩ := hw'
  exact ⟨h, (queue_getD w' host.py).symm⟩

/-- The part of an apply up to the mark keeps the invariant. -/
theorem promoteCandidate_ends {cand : Gen} (h : Inv w) :
    ends (server host) covered (promoteCandidate cand) (fun _ => Inv) (fun _ => Inv) Inv w := by
  refine ends_seq (call_keeps (by simp [Op.part, others]) h) fun ok w h => ends_ite (fun _ => ?_) (fun _ => h)
  refine ends_seq (call_keeps (by simp [Op.part, others]) h) fun previous w h => ends_seq (loadState_ends h) fun st w h => ?_
  refine ends_seq (others_ends (promote_touches cand) (by decide) h) fun _ w h => ?_
  refine ends_seq (others_ends (show Touches [.promoted] _ from .call (by simp [Op.part])) (by decide) h) fun _ w h => ?_
  exact ends_seq (saveState_ends h) fun _ w h => h

/-- Everything behind `up` keeps the invariant, the reconcile included. -/
theorem convergeRest_ends (py : CaseMap) (enabled : List Protocol) (result : ApplyResult) (h : Inv w) :
    ends (server host) covered (convergeRest py enabled result) (fun _ => Inv) (fun _ => Inv) Inv w := by
  refine ends_seq (others_keep (Composectl.downDisabled_touches py enabled) (by decide) h) fun _ w h => ?_
  refine ends_seq (call_keeps (by simp [Op.part, others]) h) fun _ w h => ?_
  refine ends_seq (others_keep (Composectl.notRunning_touches enabled) (by decide) h) fun _ w h => ?_
  refine ends_seq (call_keeps (by simp [Op.part, others]) h) fun _ w h => ends_ite (fun _ => ?_) (fun _ => h)
  refine ends_seq (call_keeps (by simp [Op.part, others]) h) fun _ w h => ends_ite (fun _ => ?_) (fun _ => h)
  refine ends_seq (reconcileIkev2_ends h) fun r w h => ?_
  cases r with
  | none => exact h.1
  | some r =>
    have hnote : ∀ c, Inv (exec host (.noteReconcile r) c w).2 := fun c => by
      refine ⟨h.1.ledger, h.1.since_le, h.1.names, h.1.wanted, fun note hnote => ?_⟩
      rcases List.mem_append.mp hnote with hnote | hnote
      · exact h.1.notes note hnote
      · obtain rfl := List.mem_singleton.mp hnote
        exact h.2 r rfl
    refine ends_seq (M := fun _ => Inv) ?_ fun _ w h => h
    exact ends_exec (fun _ => h.1) (fun c _ _ => hnote c) (fun _ _ _ _ => h.1) (fun c _ _ _ => hnote c)

/-- The end of an apply keeps the invariant. -/
theorem finish_ends (enabled : List Protocol) (result : ApplyResult) (h : Inv w) :
    ends (server host) covered (finish enabled result) (fun _ => Inv) (fun _ => Inv) Inv w :=
  ends_seq (loadState_ends h) fun _ _ h => ends_seq (saveState_ends h) fun _ _ h => h

/-- An apply of a candidate keeps the invariant. -/
theorem applyCandidate_ends (py : CaseMap) (restart : Bool) (enabled : List Protocol) (cand : Gen) (h : Inv w) :
    ends (server host) covered (applyCandidate py restart enabled cand) (fun _ => Inv) (fun _ => Inv) Inv w := by
  have hdrop : ∀ w, Inv w → ends (server host) covered (dropCandidate cand) (fun _ => Inv) (fun _ => Inv) Inv w :=
    fun w h => others_keep (dropCandidate_touches cand) (by decide) h
  refine ends_seq (M := fun _ => Inv) (ends_tryFinally.mpr (ends_mono (promoteCandidate_ends h) (fun _ w h => hdrop w h)
    (fun _ w h => hdrop w h) (fun _ h => h))) fun r w h => ?_
  obtain ⟨⟨previous, inherited⟩, -⟩ := r
  refine ends_seq (others_keep (changedBetween_touches previous cand) (by decide) h) fun diff w h =>
    ends_seq (call_keeps (by simp [Op.part, others]) h) fun _ w h => ends_ite (fun _ => ?_) (fun _ => h)
  refine ends_seq (M := fun _ => Inv) (ends_tryFinally.mpr ?_) fun r w h => ?_
  · have hforward : ∀ w, Inv w → ends (server host) covered (reconcileForwarding enabled) (fun _ => Inv) (fun _ => Inv) Inv w :=
      fun w h => others_keep (reconcileForwarding_touches enabled) (by decide) h
    refine ends_mono (Q := fun _ => Inv) (E := fun _ => Inv) (D := Inv) ?_ (fun _ w h => hforward w h)
      (fun _ w h => hforward w h) (fun _ h => h)
    refine ends_seq (others_keep (Composectl.up_touches enabled _) (by decide) h) fun ok w h =>
      ends_ite (fun _ => convergeRest_ends py enabled _ h) (fun _ => h)
  · obtain ⟨result, forwarding⟩ := r
    exact finish_ends enabled _ h

/-- `apply`. -/
theorem apply_ends (py : CaseMap) (restart : Bool) (h : Inv w) :
    ends (server host) covered (apply py restart) (fun _ => Inv) (fun _ => Inv) Inv w := by
  refine ends_seq (call_keeps (by simp [Op.part, others]) h) fun _ w h => ends_seq (call_keeps (by simp [Op.part, others]) h) fun _ w h =>
    ends_seq (call_keeps (by simp [Op.part, others]) h) fun st w h => ?_
  refine ends_seq (others_keep (missingSecrets_touches _) (by decide) h) fun gaps w h => ends_ite (fun _ => ?_) (fun _ => h)
  refine ends_seq (others_keep (renderAll_touches py) (by decide) h) fun r w h => ?_
  obtain ⟨tree, enabled⟩ := r
  refine ends_seq (others_keep (writeCandidate_touches tree) (by decide) h) fun cand w h =>
    ends_seq (call_keeps (by simp [Op.part, others]) h) fun _ w h => ?_
  have hprune : ∀ w, Inv w → ends (server host) covered pruneQuietly (fun _ => Inv) (fun _ => Inv) Inv w :=
    fun w h => others_keep pruneQuietly_touches (by decide) h
  refine ends_seq (M := fun _ => Inv) (ends_tryFinally.mpr (ends_mono (applyCandidate_ends py restart enabled cand h)
    (fun _ w h => hprune w h) (fun _ w h => hprune w h) (fun _ h => h))) fun r w h => ?_
  obtain ⟨result, -⟩ := r
  exact h

/-- A covered write of a database without two records of one name. -/
theorem saveUsers_ends {users : List User} (h : Inv w) (hnames : (users.map (·.name)).Nodup) :
    ends (server host) covered (call (.saveUsers users)) (fun _ => Inv) (fun _ => Inv) Inv w :=
  ends_exec (fun _ => h) (fun _ hc _ => h.saveUsers hnames hc) (fun _ _ _ _ => h) (fun _ _ hc _ => h.saveUsers hnames hc)

/-- The users that are read are those of the server. -/
theorem loadUsers_ends (h : Inv w) :
    ends (server host) covered (call .loadUsers) (fun users w' => Inv w' ∧ w'.users = users) (fun _ => Inv) Inv w := by
  refine ends_mono (ends_read rfl h) (fun users w' hw' => ?_) (fun _ _ h => h) (fun _ h => h)
  obtain ⟨rfl, c, rfl⟩ := hw'
  exact ⟨h, rfl⟩

/-- Queueing a revocation only makes the queue longer. -/
theorem queueRevocation_ends (user : User) (h : Inv w) :
    ends (server host) covered (queueRevocation user) (fun _ w' => Inv w' ∧ w'.users = w.users) (fun _ => Inv) Inv w := by
  refine ends_ite (fun _ => ?_) (fun _ => ⟨h, rfl⟩)
  refine ends_seq (ends_read rfl h) fun st w' hw' => ?_
  have hqueue : w.queue = st.revokePending := by
    obtain ⟨rfl, c, rfl⟩ := hw'
    exact (queue_getD w' host.py).symm
  obtain ⟨rfl, -⟩ := hw'
  refine ends_ite (fun _ => ⟨h, rfl⟩) (fun _ => ?_)
  have hsave : ∀ c, Inv (exec host (.saveState { st with revokePending := st.revokePending ++ [user.name] }) c w').2 :=
    fun c => h.saveState_mono (hqueue ▸ List.subset_append_left _ _)
  exact ends_exec (fun _ => h) (fun c _ _ => ⟨hsave c, rfl⟩) (fun _ _ _ _ => h) (fun c _ _ _ => hsave c)

/-- `user add` keeps the invariant. -/
theorem userAdd_ends (py : CaseMap) (name : Text) (h : Inv w) :
    ends (server host) covered (userAdd py name) (fun _ => Inv) (fun _ => Inv) Inv w := by
  refine ends_seq (call_keeps (by simp [Op.part, others]) h) fun _ w h => ?_
  cases Users.validateName py name with
  | some error => exact h
  | none =>
    refine ends_seq (loadUsers_ends h) fun users w h => ?_
    cases hfind : Users.find py users name with
    | some user => exact h.1
    | none =>
      refine ends_seq (M := fun _ w' => Inv w' ∧ w'.users = users) ?_ fun minted w hw => ?_
      · exact ends_mono (ends_read rfl h.1) (fun _ w' hw' => hw'.1 ▸ h) (fun _ _ h => h) (fun _ h => h)
      · obtain ⟨hw, rfl⟩ := hw
        refine ends_seq (saveUsers_ends hw ?_) fun _ w h => apply_ends py true h
        rw [List.map_append, List.nodup_append]
        refine ⟨hw.names, List.nodup_singleton _, fun a ha b hb => ?_⟩
        obtain ⟨u, hu, rfl⟩ := List.mem_map.mp ha
        obtain rfl := List.mem_singleton.mp hb
        intro heq
        have hne := List.find?_eq_none.mp hfind u hu
        exact hne (beq_iff_eq.mpr (congrArg py.lower heq))

/-- `user rm` keeps the invariant, because it queues the name in front of the write. -/
theorem userRm_ends (py : CaseMap) (name : Text) (h : Inv w) :
    ends (server host) covered (userRm py name) (fun _ => Inv) (fun _ => Inv) Inv w := by
  refine ends_seq (call_keeps (by simp [Op.part, others]) h) fun _ w h => ends_seq (loadUsers_ends h) fun users w h => ?_
  obtain ⟨h, rfl⟩ := h
  cases Users.find py w.users name with
  | none => exact h
  | some user =>
    refine ends_seq (queueRevocation_ends user h) fun _ w' h' => ?_
    obtain ⟨h', husers⟩ := h'
    refine ends_seq (saveUsers_ends h' ?_) fun _ w h => apply_ends py true h
    exact (husers ▸ h'.names).sublist (List.filter_sublist.map _)

/-- `user enable` and `user disable` keep the invariant. -/
theorem setEnabled_ends (py : CaseMap) (name : Text) (enabled : Bool) (h : Inv w) :
    ends (server host) covered (setEnabled py name enabled) (fun _ => Inv) (fun _ => Inv) Inv w := by
  refine ends_seq (call_keeps (by simp [Op.part, others]) h) fun _ w h => ends_seq (loadUsers_ends h) fun users w h => ?_
  obtain ⟨h, rfl⟩ := h
  cases Users.find py w.users name with
  | none => exact h
  | some user =>
    have hrest : ∀ w', Inv w' → w'.users = w.users →
        ends (server host) covered (do call (.saveUsers (setFirst py enabled name w.users)); apply py true)
          (fun _ => Inv) (fun _ => Inv) Inv w' := by
      intro w' h' husers
      refine ends_seq (saveUsers_ends h' ?_) fun _ w h => apply_ends py true h
      rw [map_name_setFirst, ← husers]
      exact h'.names
    refine ends_ite (fun _ => hrest w h rfl) (fun _ => ?_)
    exact ends_seq (queueRevocation_ends user h) fun _ w' h' => hrest w' h'.1 h'.2

/-- The preparation of a protocol's secrets keeps the invariant. -/
theorem prepareSecrets_ends (proto : Protocol) {st : State} (h : Inv w ∧ w.queue = st.revokePending) :
    ends (server host) covered (prepareSecrets proto st) (fun _ => Inv) (fun _ => Inv) Inv w := by
  refine ends_seq (others_ends (missingSecrets_touches _) (by decide) h) fun gaps w h => ends_ite (fun _ => h.1) (fun _ => ?_)
  refine ends_seq (M := fun _ => Inv) (ends_tryExcept.mpr ?_) fun produced w h => ?_
  · refine ends_exec (fun _ => h.1) (fun c _ _ => h.1) (fun c e _ _ => ?_) (fun c e _ _ => ?_)
    all_goals
      cases e.isException with
      | false => exact h.1
      | true => exact ends_seq (@saveState_ends host _ { st with enabled := st.enabled.filter (· ≠ proto.name) } h) fun _ _ h => h
  · exact others_keep (show Touches [.keyring] _ from Script.uses_forM fun _ _ => Script.uses_op (by simp [Op.part]))
      (by decide) h

/-- The toggle of a protocol keeps the invariant. -/
theorem toggleProtocol_ends (py : CaseMap) (proto : Protocol) {st : State} (on : Bool)
    (h : Inv w ∧ w.queue = st.revokePending) :
    ends (server host) covered (toggleProtocol py proto st on) (fun _ => Inv) (fun _ => Inv) Inv w := by
  refine ends_seq (M := fun _ w' => Inv w' ∧ w'.queue = st.revokePending) ?_ fun _ w h => ends_ite (fun _ => ?_)
    (fun _ => apply_ends py true h.1)
  · have hkeep : ∀ enabled c, Inv (exec host (.saveState { st with enabled }) c w).2 :=
      fun _ _ => h.1.saveState_mono (h.2 ▸ List.Subset.refl _)
    exact ends_exec (fun _ => h.1) (fun c _ _ => ⟨hkeep _ c, rfl⟩) (fun _ _ _ _ => h.1) (fun c _ _ _ => hkeep _ c)
  · exact ends_seq (prepareSecrets_ends proto h) fun _ w h => apply_ends py true h

/-- `protocol on` and `protocol off` keep the invariant. -/
theorem setProtocol_ends (py : CaseMap) (name : String) (on : Bool) (h : Inv w) :
    ends (server host) covered (setProtocol py name on) (fun _ => Inv) (fun _ => Inv) Inv w := by
  refine ends_seq (call_keeps (by simp [Op.part, others]) h) fun _ w h => ?_
  refine ends_seq (M := fun _ => Inv) (ends_lift _ |>.mpr ?_) fun proto w h => ?_
  · cases getProtocol py name with
    | ok proto => exact h
    | error e => exact h
  refine ends_seq (loadState_ends h) fun st w h => ends_ite (fun _ => h.1) (fun _ => ends_ite (fun _ => ?_) (fun _ => ?_))
  · refine ends_seq (others_ends (missingDeploymentConfig_touches proto) (by decide) h) fun gap w h => ?_
    cases gap with
    | some gap => exact h.1
    | none => exact ends_map.mpr (toggleProtocol_ends py proto on h)
  · exact ends_map.mpr (toggleProtocol_ends py proto on h)

/-- Every command keeps the invariant, as long as its writes of the database are covered. -/
theorem command_ends (a : Action) (h : Inv w) :
    ends (server host) covered (a.command host.py) (fun _ => Inv) (fun _ => Inv) Inv w := by
  cases a with
  | userAdd name => exact ends_map.mpr (userAdd_ends host.py name h)
  | userRm name => exact ends_map.mpr (userRm_ends host.py name h)
  | userEnable name => exact ends_map.mpr (setEnabled_ends host.py name true h)
  | userDisable name => exact ends_map.mpr (setEnabled_ends host.py name false h)
  | protocolOn name => exact setProtocol_ends host.py name true h
  | protocolOff name => exact setProtocol_ends host.py name false h
  | apply restart => exact ends_map.mpr (apply_ends host.py restart h)

/-- Whatever happens between two commands keeps the invariant. -/
theorem event_keeps (e : Event) (h : Inv w) : Inv (e.after w) := by
  cases e <;> exact ⟨h.ledger, h.since_le, h.names, h.wanted, h.notes⟩

end Commands

/-! ## Every life -/

/-- A new server has nothing to answer for. -/
theorem inv_provisioned (keyring : String → Option Bytes) (zone : Text) (common : Dir) :
    Inv (World.provisioned keyring zone common) :=
  ⟨⟨nofun, nofun, List.nodup_nil⟩, fun _ => Nat.le_refl _, List.nodup_nil, nofun, nofun⟩

/-- In every life in which a name that becomes wanted has no certificate but a queued one, a reconcile that reported no
failure left every enabled user with certificates from after the creation, and after the last disabling, of the record. -/
theorem reconciles_good (host : Host) (keyring : String → Option Bytes) (zone : Text) (common : Dir) (steps : List Step)
    (h : LivesWithin host covered steps (World.provisioned keyring zone common)) :
    ∀ note ∈ (life host steps (World.provisioned keyring zone common)).reconciles, Good note :=
  (life_keeps host (fun a _ hw => command_ends a hw) (fun e _ hw => event_keeps e hw) h
    (inv_provisioned keyring zone common)).notes

/-- A keyring that has everything. -/
def sampleKeyring : String → Option Bytes := fun _ => some [0x61]

/-- A server with that keyring and nobody on it. -/
def sampleWorld : World := World.provisioned sampleKeyring [] ⟨[], List.nodup_nil⟩

def alice : Text := "alice".toList

/-- Alice is added, removed and added again, and everything goes well. -/
def plainLife : List Step :=
  [.command (.userAdd alice) (List.replicate 60 {}), .command (.userRm alice) (List.replicate 60 {}),
    .command (.userAdd alice) (List.replicate 60 {})]

/-- The same, but the first time `--addclient` times out when it has already issued the certificate, and the container is
down when Alice is removed. -/
def reusedLife : List Step :=
  [.command (.userAdd alice) ((List.replicate 60 ({} : Choice)).set 41 { fault := .after .timeoutExpired }),
    .command (.userRm alice) (((List.replicate 60 ({} : Choice)).set 39 { ok := false }).set 40 { ok := false }),
    .command (.userAdd alice) (List.replicate 60 {})]

/-- Both reconciles of Alice's life are good. -/
theorem reconciles_good_plain :
    (life Host.sample plainLife sampleWorld).reconciles ≠ [] ∧
      ∀ note ∈ (life Host.sample plainLife sampleWorld).reconciles, Good note :=
  ⟨List.isEmpty_eq_false_iff.mp (by decide +kernel),
    reconciles_good Host.sample sampleKeyring [] ⟨[], List.nodup_nil⟩ plainLife (by decide +kernel)⟩

instance (note : ReconcileNote) : Decidable (Good note) := by
  unfold Good After
  infer_instance

/-- The certificate of the first Alice is still valid, and the last reconcile reports no failure. -/
theorem reconciles_good_reused : ¬ ∀ note ∈ (life Host.sample reusedLife sampleWorld).reconciles, Good note := by
  decide +kernel

end Revocation

end VpnStack

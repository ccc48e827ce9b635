import VpnStack.Theorems.Revocation

/-!
# What a reconcile writes down

`reconcile_ikev2` withdraws and issues certificates one name after the other, each by one or two commands that may fail, and
keeps in two sets what the container holds. What becomes of a name in the two loops does not depend on the other names, so it
is followed for each name by itself. What is written down in the end is wrong for two kinds of names: one whose certificate
was revoked and could not be deleted, which stays among the valid ones, and the header's name, whose row `parse_clients`
passes over.
-/

namespace VpnStack

open Python Interaction Ikev2Ctl
open Revocation (header mem_sortedNames queue_getD)

namespace Reconcile

/-- A call with the choice and the world it met. -/
abbrev Entry := Op × Choice × World

/-- The container accepts a certificate under that name. -/
def Holds (certs : List Cert) (name : Text) : Prop := ∃ c ∈ certs, c.Valid ∧ c.name = name

instance (certs : List Cert) (name : Text) : Decidable (Holds certs name) := inferInstanceAs (Decidable (∃ c ∈ certs, _))

/-! ## The calls of a name -/

/-- The call was `--revokeclient`, and answered this. -/
def Revoked (name : Text) (ok : Bool) (e : Entry) : Prop :=
  e.1 = .revokeClient name ∧ e.2.1.fault = .none ∧ (revokeClient e.2.2.certs name e.2.1.ok).1 = ok

/-- The call was `--deleteclient`, and answered this. -/
def Deleted (name : Text) (ok : Bool) (e : Entry) : Prop :=
  e.1 = .deleteClient name ∧ e.2.1.fault = .none ∧ (deleteClient e.2.2.certs name e.2.1.ok).1 = ok

instance (name : Text) (o : Op) : Decidable (o = .revokeClient name) :=
  decidable_of_iff ((match o with | .revokeClient n => decide (n = name) | _ => false) = true) (by cases o <;> simp)

instance (name : Text) (o : Op) : Decidable (o = .deleteClient name) :=
  decidable_of_iff ((match o with | .deleteClient n => decide (n = name) | _ => false) = true) (by cases o <;> simp)

instance (name : Text) (ok : Bool) (e : Entry) : Decidable (Revoked name ok e) := inferInstanceAs (Decidable (_ ∧ _ ∧ _))

instance (name : Text) (ok : Bool) (e : Entry) : Decidable (Deleted name ok e) := inferInstanceAs (Decidable (_ ∧ _ ∧ _))

/-- The removal of the name failed: its certificate could not be revoked, or its name could not be deleted. -/
def RemovalFailed (l : List Entry) (name : Text) : Prop := ∃ e ∈ l, Revoked name false e ∨ Deleted name false e

/-- The certificate was revoked, and its name could not be deleted. -/
def HalfRemoved (l : List Entry) (name : Text) : Prop :=
  (∃ e ∈ l, Revoked name true e) ∧ ∃ e ∈ l, Deleted name false e

instance (l : List Entry) (name : Text) : Decidable (HalfRemoved l name) := inferInstanceAs (Decidable (_ ∧ _))

/-! ## What is claimed -/

/-- What a reconcile leaves when it was not skipped: the queue, the certificates and the flags. -/
structure Right (w : World) (l : List Entry) (w' : World) : Prop where
  /-- The queue is what was queued and could not be removed. -/
  queue : ∀ name, name ∈ w'.queue ↔ name ∈ w.queue ∧ RemovalFailed l name
  /-- No certificate is asked for beside one that is accepted. -/
  issued : ∀ e ∈ l, ∀ name, e.1 = .addClient name → ¬ Holds e.2.2.certs name
  /-- What is wanted and not queued is left alone. -/
  wanted : ∀ c ∈ w.certs, c.Valid → c.name ∈ (enabledUsers w.users).map (·.name) → c.name ∉ w.queue → c ∈ w'.certs
  /-- The flags say who has a certificate. -/
  flags : ∀ u ∈ w'.users, u.ikev2Provisioned = true ↔ Holds w'.certs u.name

/-- Nothing the bookkeeping cannot tell: no user has the header's name and a certificate, and no user's certificate was
revoked without his name being deleted. -/
def Told (w : World) (l : List Entry) : Prop :=
  ∀ u ∈ w.users, ¬ (u.name = header ∧ Holds w.certs u.name) ∧ ¬ HalfRemoved l u.name

instance (w : World) (l : List Entry) : Decidable (Told w l) := inferInstanceAs (Decidable (∀ u ∈ w.users, _))

/-! ## One name -/

section Name

variable {host : Host} {name : Text} {w w' : World} {all wanted queue rest : List Text} {r r' : Reconciling}
  {p p' : World × List Entry}

/-- The calls about a name. -/
inductive About (name : Text) : Op → Prop
  | revoke : About name (.revokeClient name)
  | delete : About name (.deleteClient name)
  | add : About name (.addClient name)

theorem Revoked.about {ok : Bool} {e : Entry} (h : Revoked name ok e) : About name e.1 := h.1 ▸ .revoke

theorem Deleted.about {ok : Bool} {e : Entry} (h : Deleted name ok e) : About name e.1 := h.1 ▸ .delete

/-- The certificates of a name change only in the calls about it. -/
theorem mem_certs_exec {o : Op} {c : Choice} {w : World} (ho : ¬ About name o) {d : Cert} (hd : d.name = name) :
    d ∈ (exec host o c w).2.certs ↔ d ∈ w.certs := by
  have hmap : ∀ (certs : List Cert) (m : Text) (f : Cert → Cert), m ≠ name → (∀ c, (f c).name = c.name) →
      (d ∈ certs.map (fun c => if c.listed ∧ c.name = m then f c else c) ↔ d ∈ certs) := by
    intro certs m f hm hf
    rw [List.mem_map]
    constructor
    · rintro ⟨c, hc, heq⟩
      split at heq
      · rename_i hcond
        refine absurd (hcond.2.symm.trans ?_) hm
        rw [← hf c, heq, hd]
      · exact heq ▸ hc
    · intro hc
      refine ⟨d, hc, if_neg fun hcond => hm (hcond.2.symm.trans hd)⟩
  cases o with
  | revokeClient m =>
    have hm : m ≠ name := by
      rintro rfl
      exact ho .revoke
    change d ∈ (revokeClient w.certs m c.ok).2 ↔ _
    unfold revokeClient
    split
    · exact hmap w.certs m _ hm fun _ => rfl
    · rfl
  | deleteClient m =>
    have hm : m ≠ name := by
      rintro rfl
      exact ho .delete
    change d ∈ (deleteClient w.certs m c.ok).2 ↔ _
    unfold deleteClient
    split
    · exact hmap w.certs m _ hm fun _ => rfl
    · rfl
  | addClient m =>
    have hm : m ≠ name := by
      rintro rfl
      exact ho .add
    change d ∈ (addClient w.certs (w.clock + 1) m c.ok).2 ↔ _
    rcases addClient_cases w.certs (w.clock + 1) m c.ok with ⟨-, -, -, heq⟩ | heq
    · rw [heq, List.mem_append, List.mem_singleton]
      refine or_iff_left ?_
      rintro rfl
      exact hm hd
    · rw [heq]
  | _ => rw [exec_certs (by simp [Op.part])]

/-- Nothing was done about the name between the two points. -/
structure Apart (name : Text) (p p' : World × List Entry) : Prop where
  certs : ∀ c : Cert, c.name = name → (c ∈ p'.1.certs ↔ c ∈ p.1.certs)
  calls : ∃ l, p'.2 = p.2 ++ l ∧ ∀ e ∈ l, ¬ About name e.1

theorem Apart.refl (name : Text) (p : World × List Entry) : Apart name p p :=
  ⟨fun _ _ => Iff.rfl, [], (List.append_nil _).symm, fun _ he => (List.not_mem_nil he).elim⟩

/-- The server, with a record of its calls. -/
abbrev recordedServer (host : Host) : ScriptMachine Exc Op Ans (World × List Entry) Choice := recorded (server host)

/-- Every choice. -/
abbrev any : Discipline Op (World × List Entry) Choice := .any Op _ Choice

/-- What a call leaves that was not interrupted. -/
abbrev after (host : Host) (o : Op) (c : Choice) (p : World × List Entry) : World × List Entry :=
  ((exec host o c p.1).2, p.2 ++ [(o, c, p.1)])

/-- One call more, about something else. -/
theorem Apart.call {o : Op} {c : Choice} (ho : ¬ About name o) (h : Apart name p p')
    (hcerts : ∀ d : Cert, d.name = name → (d ∈ w'.certs ↔ d ∈ p'.1.certs)) :
    Apart name p (w', p'.2 ++ [(o, c, p'.1)]) := by
  obtain ⟨l, hl, hall⟩ := h.calls
  refine ⟨fun d hd => (hcerts d hd).trans (h.certs d hd), l ++ [(o, c, p'.1)], by rw [hl, List.append_assoc], fun e he => ?_⟩
  rcases List.mem_append.mp he with he | he
  · exact hall e he
  · obtain rfl := List.mem_singleton.mp he
    exact ho

/-- A call about something else, with everything the machine records of it. -/
theorem Apart.step {o : Op} {c : Choice} (ho : ¬ About name o) (h : Apart name p p') :
    Apart name p (recordedServer host o c p').2 := by
  refine h.call ho fun d hd => ?_
  rw [server, withFaults_snd]
  split
  · rfl
  · exact mem_certs_exec ho hd

theorem Apart.after {o : Op} {c : Choice} (ho : ¬ About name o) (h : Apart name p p') :
    Apart name p (after host o c p') := h.call ho fun _ hd => mem_certs_exec ho hd

theorem Apart.holds (h : Apart name p p') : Holds p'.1.certs name ↔ Holds p.1.certs name := by
  refine exists_congr fun c => ⟨fun ⟨hc, hv, hn⟩ => ⟨(h.certs c hn).mp hc, hv, hn⟩, fun ⟨hc, hv, hn⟩ => ⟨(h.certs c hn).mpr hc, hv, hn⟩⟩

/-- What is said of the calls about the name. -/
theorem Apart.exists_call (h : Apart name p p') {P : Entry → Prop} (hP : ∀ e, P e → About name e.1) :
    (∃ e ∈ p'.2, P e) ↔ ∃ e ∈ p.2, P e := by
  obtain ⟨l, hl, hall⟩ := h.calls
  constructor
  · rintro ⟨e, he, hPe⟩
    rw [hl] at he
    exact ⟨e, (List.mem_append.mp he).resolve_right fun hmem => hall e hmem (hP e hPe), hPe⟩
  · rintro ⟨e, he, hPe⟩
    exact ⟨e, hl ▸ List.mem_append_left _ he, hPe⟩

theorem Apart.removalFailed (h : Apart name p p') : RemovalFailed p'.2 name ↔ RemovalFailed p.2 name :=
  h.exists_call fun _ he => he.elim Revoked.about Deleted.about

theorem Apart.halfRemoved (h : Apart name p p') : HalfRemoved p'.2 name ↔ HalfRemoved p.2 name :=
  and_congr (h.exists_call fun _ => Revoked.about) (h.exists_call fun _ => Deleted.about)

/-- The sets say the same of the name. -/
structure Agree (name : Text) (r r' : Reconciling) : Prop where
  valid : name ∈ r'.valid ↔ name ∈ r.valid
  reserved : name ∈ r'.reserved ↔ name ∈ r.reserved
  revokeFailed : name ∈ r'.revokeFailed ↔ name ∈ r.revokeFailed

theorem Agree.refl (name : Text) (r : Reconciling) : Agree name r r := ⟨Iff.rfl, Iff.rfl, Iff.rfl⟩

/-- What is so of the certificates of a name, at every call of the two loops. -/
structure Stock (name : Text) (w : World) (all wanted : List Text) (p : World × List Entry) : Prop where
  listed : ∀ c ∈ p.1.certs, c.name = name → c.Valid → c.listed = true
  stays : name = header → Holds w.certs name → Holds p.1.certs name
  issued : ∀ e ∈ p.2, e.1 = .addClient name →
    name ∈ wanted ∧ (Holds e.2.2.certs name → name = header ∧ Holds w.certs name)
  same : name ∉ all → ∀ c ∈ w.certs, c.Valid → c.name = name → c ∈ p.1.certs

/-- What the sets say of the name, at every turn. -/
structure Course (name : Text) (w : World) (all wanted : List Text) (r : Reconciling) (p : World × List Entry) : Prop where
  stock : Stock name w all wanted p
  valid : name ∈ r.valid ↔ (Holds p.1.certs name ∧ ¬ (name = header ∧ Holds w.certs name)) ∨ HalfRemoved p.2 name
  half : HalfRemoved p.2 name → ¬ Holds p.1.certs name
  failed : name ∈ r.revokeFailed → RemovalFailed p.2 name
  unread : name = header → name ∉ r.reserved ∧ ¬ HalfRemoved p.2 name
  freed : (∃ e ∈ p.2, Revoked name true e) → HalfRemoved p.2 name ∨ name ∉ r.reserved

/-- The stock of a name is kept apart from it. -/
theorem Stock.apart (h : Stock name w all wanted p) (hp : Apart name p p') : Stock name w all wanted p' where
  listed c hc hn := h.listed c ((hp.certs c hn).mp hc) hn
  stays := by
    rw [hp.holds]
    exact h.stays
  issued e he hadd := by
    obtain ⟨l, hl, hall⟩ := hp.calls
    rw [hl] at he
    rcases List.mem_append.mp he with he | he
    · exact h.issued e he hadd
    · exact absurd (hadd ▸ .add) (hall e he)
  same hn c hc hv hcn := (hp.certs c hcn).mpr (h.same hn c hc hv hcn)

/-- The course of a name is kept apart from it, by sets that say the same of it. -/
theorem Course.apart (h : Course name w all wanted r p) (hp : Apart name p p') (hr : Agree name r r') :
    Course name w all wanted r' p' where
  stock := h.stock.apart hp
  valid := by
    rw [hr.valid, hp.holds, hp.halfRemoved]
    exact h.valid
  half := by
    rw [hp.holds, hp.halfRemoved]
    exact h.half
  failed := by
    rw [hr.revokeFailed, hp.removalFailed]
    exact h.failed
  unread := by
    rw [hr.reserved, hp.halfRemoved]
    exact h.unread
  freed := by
    rw [hp.exists_call fun _ => Revoked.about, hp.halfRemoved, hr.reserved]
    exact h.freed

/-- A name that is not among the valid ones has no certificate but the header's from before. -/
theorem Course.not_valid (h : Course name w all wanted r p) (hn : name ∉ r.valid) :
    (Holds p.1.certs name → name = header ∧ Holds w.certs name) ∧ ¬ HalfRemoved p.2 name := by
  rw [h.valid, not_or] at hn
  exact ⟨fun hholds => not_not.mp fun hnot => hn.1 ⟨hholds, hnot⟩, hn.2⟩

end Name

/-! ## The calls about the name -/

section Own

variable {host : Host} {name : Text} {w : World} {all wanted queue rest : List Text} {r r' : Reconciling}
  {p : World × List Entry} {w' : World} {l : List Entry} {c : Choice} {certs : List Cert} {ok : Bool}

theorem exists_mem_concat {P : Entry → Prop} {e : Entry} : (∃ e' ∈ l ++ [e], P e') ↔ (∃ e' ∈ l, P e') ∨ P e := by
  simp only [List.mem_append, List.mem_singleton, or_and_right, exists_or, exists_eq_left]

/-- A revocation that answers well leaves nothing that is accepted under the name, if the container lists what it accepts. -/
theorem not_holds_revokeClient (hlisted : ∀ c ∈ certs, c.name = name → c.Valid → c.listed = true)
    (hok : (revokeClient certs name ok).1 = true) : ¬ Holds (revokeClient certs name ok).2 name := by
  rintro ⟨d, hd, hv, hn⟩
  have hl := hlisted d (valid_of_revokeClient hd hv) hn hv
  unfold revokeClient at hok hd
  split at hok
  · rename_i hcond
    rw [if_pos hcond] at hd
    obtain ⟨d', hd', rfl⟩ := List.mem_map.mp hd
    split at hv
    · cases hv
    · rename_i hne
      rw [if_neg hne] at hl hn
      exact hne ⟨hl, hn⟩
  · cases hok

/-- A revocation that answers badly changes nothing. -/
theorem revokeClient_false (hok : (revokeClient certs name ok).1 = false) :
    (revokeClient certs name ok).2 = certs := by
  unfold revokeClient at hok ⊢
  split
  · rename_i hcond
    rw [if_pos hcond] at hok
    cases hok
  · rfl

/-- A deletion that answers badly changes nothing. -/
theorem deleteClient_false (hok : (deleteClient certs name ok).1 = false) :
    (deleteClient certs name ok).2 = certs := by
  unfold deleteClient at hok ⊢
  split
  · rename_i hcond
    rw [if_pos hcond] at hok
    cases hok
  · rfl

/-- Deleting a name makes no certificate. -/
theorem holds_deleteClient {n : Text} (h : Holds (deleteClient certs name ok).2 n) : Holds certs n := by
  obtain ⟨d, hd, hv, hn⟩ := h
  rcases mem_deleteClient hd with hd | ⟨d', hd', -, -, rfl⟩
  · exact ⟨d, hd, hv, hn⟩
  · exact ⟨d', hd', hv, hn⟩

/-! ### Each call keeps the stock -/

/-- A revocation of the name keeps its stock. -/
theorem Stock.revoke (h : Stock name w all wanted p) (hname : name ≠ header) (hall : name ∈ all) :
    Stock name w all wanted (after host (.revokeClient name) c p) where
  listed d hd hn hv := h.listed d (valid_of_revokeClient hd hv) hn hv
  stays heq := absurd heq hname
  issued e he hadd := by
    rcases List.mem_append.mp he with he | he
    · exact h.issued e he hadd
    · obtain rfl := List.mem_singleton.mp he
      cases hadd
  same hn := absurd hall hn

/-- Only a name without a valid certificate is deleted. -/
theorem Stock.delete (h : Stock name w all wanted p) (hname : name ≠ header) (hnot : ¬ Holds p.1.certs name) :
    Stock name w all wanted (after host (.deleteClient name) c p) where
  listed d hd hn hv := absurd (holds_deleteClient ⟨d, hd, hv, hn⟩) hnot
  stays heq := absurd heq hname
  issued e he hadd := by
    rcases List.mem_append.mp he with he | he
    · exact h.issued e he hadd
    · obtain rfl := List.mem_singleton.mp he
      cases hadd
  same hn d hd hv hdn := absurd ⟨d, h.same hn d hd hv hdn, hv, hdn⟩ hnot

/-- A certificate that is asked for a wanted name that is free keeps the stock. -/
theorem Stock.add (h : Stock name w all wanted p) (hwanted : name ∈ wanted)
    (hfree : Holds p.1.certs name → name = header ∧ Holds w.certs name) :
    Stock name w all wanted (after host (.addClient name) c p) := by
  have hsub : ∀ d ∈ p.1.certs, d ∈ (exec host (.addClient name) c p.1).2.certs := by
    intro d hd
    change d ∈ (addClient p.1.certs (p.1.clock + 1) name c.ok).2
    rcases addClient_cases p.1.certs (p.1.clock + 1) name c.ok with ⟨-, -, -, heq⟩ | heq
    · rw [heq]
      exact List.mem_append_left _ hd
    · rw [heq]
      exact hd
  refine ⟨fun d hd hn hv => ?_, fun heq hholds => ?_, fun e he hadd => ?_, fun hn d hd hv hdn => hsub d (h.same hn d hd hv hdn)⟩
  · change d ∈ (addClient p.1.certs (p.1.clock + 1) name c.ok).2 at hd
    rcases Revocation.mem_addClient hd with hd | rfl
    · exact h.listed d hd hn hv
    · rfl
  · obtain ⟨d, hd, hv, hn⟩ := h.stays heq hholds
    exact ⟨d, hsub d hd, hv, hn⟩
  · rcases List.mem_append.mp he with he | he
    · exact h.issued e he hadd
    · obtain rfl := List.mem_singleton.mp he
      exact ⟨hwanted, hfree⟩

/-! ### What a call adds to what is said of the calls -/

theorem revoked_revoke : Revoked name ok (.revokeClient name, c, w') ↔
    c.fault = .none ∧ (revokeClient w'.certs name c.ok).1 = ok := and_iff_right rfl

theorem deleted_delete : Deleted name ok (.deleteClient name, c, w') ↔
    c.fault = .none ∧ (deleteClient w'.certs name c.ok).1 = ok := and_iff_right rfl

theorem not_revoked_delete : ¬ Revoked name ok (.deleteClient name, c, w') := fun h => nomatch h.1

theorem not_deleted_revoke : ¬ Deleted name ok (.revokeClient name, c, w') := fun h => nomatch h.1

theorem not_revoked_add : ¬ Revoked name ok (.addClient name, c, w') := fun h => nomatch h.1

theorem not_deleted_add : ¬ Deleted name ok (.addClient name, c, w') := fun h => nomatch h.1

theorem removalFailed_concat {e : Entry} :
    RemovalFailed (l ++ [e]) name ↔ RemovalFailed l name ∨ Revoked name false e ∨ Deleted name false e := exists_mem_concat

/-- One call more makes a removal one by half where it is the first half or the second. -/
theorem halfRemoved_concat {e : Entry} : HalfRemoved (l ++ [e]) name ↔
    ((∃ e ∈ l, Revoked name true e) ∨ Revoked name true e) ∧ ((∃ e ∈ l, Deleted name false e) ∨ Deleted name false e) :=
  and_congr exists_mem_concat exists_mem_concat

end Own

/-! ## The two loops -/

section Loops

variable {host : Host} {name : Text} {w : World} {all wanted queue rest : List Text} {r r' : Reconciling}
  {p p' : World × List Entry} {α : Type}

/-- What a part of the reconcile leaves when it returns. Nothing is said of one that raises or is killed. -/
abbrev Leads (host : Host) (s : Cmd α) (Q : α → World × List Entry → Prop) (p : World × List Entry) : Prop :=
  ends (recordedServer host) any s Q (fun _ _ => True) (fun _ => True) p

/-- A call that is not interrupted leads to what it leaves. -/
theorem leads_call {o : Op} {Q : Ans o → World × List Entry → Prop}
    (hok : ∀ c, c.fault = .none → Q (exec host o c p.1).1 (after host o c p)) :
    Leads host (call o) Q p := ends_recorded trivial hok fun _ _ _ => trivial

/-- What a part of the reconcile leaves for each name it leaves for all of them. -/
theorem leads_forall {s : Cmd α} {Q : Text → α → World × List Entry → Prop} (h : ∀ name, Leads host s (Q name) p) :
    Leads host s (fun a p => ∀ name, Q name a p) p :=
  ends_mono (ends_forall h) (fun _ _ h => h) (fun _ _ _ => trivial) fun _ _ => trivial

/-- A call about another name. -/
theorem leads_apart {o : Op} (ho : ¬ About name o) (h : Apart name p p') :
    Leads host (call o) (fun _ => Apart name p) p' := by
  refine (ends_op o).mpr ⟨fun _ => trivial, fun c _ => ?_⟩
  have hstep : Apart name p (recordedServer host o c p').2 := h.step ho
  rcases hr : recordedServer host o c p' with ⟨_ | _, q⟩
  · trivial
  · rw [hr] at hstep
    exact hstep

theorem mem_filter_ne {m n : Text} {names : List Text} (h : n ≠ m) : n ∈ names.filter (· ≠ m) ↔ n ∈ names := by
  rw [List.mem_filter, and_iff_left (decide_eq_true h)]

theorem mem_concat_ne {m n : Text} {names : List Text} (h : n ≠ m) : n ∈ names ++ [m] ↔ n ∈ names := by
  rw [List.mem_append, List.mem_singleton, or_iff_left h]

/-- What the first loop makes of an answer. -/
def answered (r : Reconciling) (m : Text) (ok : Bool) : Reconciling :=
  if ok then { r with withdrawn := r.withdrawn ++ [m], valid := r.valid.filter (· ≠ m), reserved := r.reserved.filter (· ≠ m) }
  else { r with revokeFailed := r.revokeFailed ++ [m] }

/-- A turn of the first loop, with its calls and what is made of their answer apart. -/
theorem withdraw_eq (r : Reconciling) (m : Text) : withdraw r m =
    if m ∉ r.valid ∧ m ∉ r.reserved then pure r
    else (if m ∈ r.valid then removeClient m else call (.deleteClient m)) >>= fun ok => pure (answered r m ok) := by
  have hanswer : (fun ok : Bool => (if ok then return { r with
      withdrawn := r.withdrawn ++ [m], valid := r.valid.filter (· ≠ m), reserved := r.reserved.filter (· ≠ m) }
      else return { r with revokeFailed := r.revokeFailed ++ [m] } : Cmd Reconciling)) = fun ok => pure (answered r m ok) := by
    funext ok
    cases ok <;> rfl
  unfold withdraw
  rw [← hanswer]
  split_ifs <;> rfl

/-- The end of a turn of the second loop, where the name is free. -/
def give (r : Reconciling) (m : Text) : Cmd Reconciling := do
  let ok : Bool ← call (.addClient m)
  return { r with reserved := r.reserved.filter (· ≠ m), added := if ok then r.added ++ [m] else r.added,
                  valid := if ok then r.valid ++ [m] else r.valid, addFailed := if ok then r.addFailed else r.addFailed ++ [m] }

/-- A turn of the second loop. -/
theorem issue_eq (r : Reconciling) (m : Text) : issue r m =
    if m ∈ r.reserved then do
      let freed : Bool ← call (.deleteClient m)
      if freed then give r m else return { r with addFailed := r.addFailed ++ [m] }
    else give r m := by
  have hgive : (do
      let r := { r with reserved := r.reserved.filter (· ≠ m) }
      let ok : Bool ← call (.addClient m)
      if ok then return { r with added := r.added ++ [m], valid := r.valid ++ [m] }
      else return { r with addFailed := r.addFailed ++ [m] } : Cmd Reconciling) = give r m := by
    unfold give
    refine congrArg (call (.addClient m) >>= ·) ?_
    funext ok
    cases ok <;> rfl
  unfold issue
  rw [← hgive]
  split_ifs <;> rfl

/-- A turn for another name. -/
theorem withdraw_apart {m : Text} (h : name ≠ m) :
    Leads host (withdraw r m) (fun r' p' => Apart name p p' ∧ Agree name r r') p := by
  have hrevoke : ¬ About name (.revokeClient m) := by
    rintro ⟨⟩
    exact h rfl
  have hdelete : ¬ About name (.deleteClient m) := by
    rintro ⟨⟩
    exact h rfl
  rw [withdraw_eq]
  refine ends_ite (fun _ => ⟨.refl name p, .refl name r⟩) fun _ => ?_
  have hcalls : Leads host (if m ∈ r.valid then removeClient m else call (.deleteClient m) : Cmd Bool)
      (fun _ => Apart name p) p := by
    refine ends_ite (fun _ => ?_) fun _ => leads_apart hdelete (.refl name p)
    exact ends_seq (leads_apart hrevoke (.refl name p)) fun ok p' hp => ends_ite (fun _ => leads_apart hdelete hp) fun _ => hp
  refine ends_seq hcalls fun ok p' hp => ⟨hp, ?_⟩
  cases ok with
  | true => exact ⟨mem_filter_ne h, mem_filter_ne h, Iff.rfl⟩
  | false => exact ⟨Iff.rfl, Iff.rfl, mem_concat_ne h⟩

/-- A turn for another name. -/
theorem issue_apart {m : Text} (h : name ≠ m) :
    Leads host (issue r m) (fun r' p' => Apart name p p' ∧ Agree name r r') p := by
  have hadd : ¬ About name (.addClient m) := by
    rintro ⟨⟩
    exact h rfl
  have hdelete : ¬ About name (.deleteClient m) := by
    rintro ⟨⟩
    exact h rfl
  have hgive : ∀ p', Apart name p p' → Leads host (give r m) (fun r' p' => Apart name p p' ∧ Agree name r r') p' := by
    intro p' hp
    refine ends_seq (leads_apart hadd hp) fun ok p' hp => ⟨hp, ?_, mem_filter_ne h, Iff.rfl⟩
    cases ok with
    | true => exact mem_concat_ne h
    | false => exact Iff.rfl
  rw [issue_eq]
  refine ends_ite (fun _ => ?_) fun _ => hgive p (.refl name p)
  exact ends_seq (leads_apart hdelete (.refl name p)) fun freed p' hp =>
    ends_ite (fun _ => hgive p' hp) fun _ => ⟨hp, Iff.rfl, Iff.rfl, Iff.rfl⟩

/-! ### Withdrawing -/

/-- The name in front of a turn of the first loop. -/
structure Withdrawing (name : Text) (w : World) (all wanted rest : List Text) (r : Reconciling) (p : World × List Entry) :
    Prop where
  course : Course name w all wanted r p
  told : RemovalFailed p.2 name → name ∈ r.revokeFailed
  early : Holds p.1.certs name → Holds w.certs name
  done : name ∈ all → name ∉ rest → name ∈ r.reserved → name ∈ r.revokeFailed
  fresh : name ∈ rest → ∀ e ∈ p.2, ¬ About name e.1

/-- A turn of the first loop about another name. -/
theorem Withdrawing.apart {m : Text} (h : Withdrawing name w all wanted (m :: rest) r p) (hm : name ≠ m)
    (hp : Apart name p p') (hr : Agree name r r') : Withdrawing name w all wanted rest r' p' where
  course := h.course.apart hp hr
  told := by
    rw [hp.removalFailed, hr.revokeFailed]
    exact h.told
  early := by
    rw [hp.holds]
    exact h.early
  done hall hrest := by
    rw [hr.reserved, hr.revokeFailed]
    exact h.done hall (List.not_mem_cons_of_ne_of_not_mem hm hrest)
  fresh hrest := by
    obtain ⟨l, hl, hcalls⟩ := hp.calls
    intro e he
    rw [hl] at he
    rcases List.mem_append.mp he with he | he
    · exact h.fresh (List.mem_cons_of_mem _ hrest) e he
    · exact hcalls e he

/-- No call about the name was made in front of its own turn. -/
theorem Withdrawing.untouched (h : Withdrawing name w all wanted (name :: rest) r p) {P : Entry → Prop}
    (hP : ∀ e, P e → About name e.1) : ¬ ∃ e ∈ p.2, P e :=
  fun ⟨e, he, hPe⟩ => h.fresh (List.mem_cons_self ..) e he (hP e hPe)

theorem Withdrawing.not_half (h : Withdrawing name w all wanted (name :: rest) r p) : ¬ HalfRemoved p.2 name :=
  fun hhalf => h.untouched (fun _ => Revoked.about) hhalf.1

theorem Withdrawing.not_failed (h : Withdrawing name w all wanted (name :: rest) r p) : ¬ RemovalFailed p.2 name :=
  h.untouched fun _ he => he.elim Revoked.about Deleted.about

/-- The header's name is in neither set. -/
theorem Withdrawing.not_header (h : Withdrawing name w all wanted (name :: rest) r p)
    (hmem : name ∈ r.valid ∨ name ∈ r.reserved) : name ≠ header := by
  intro hheader
  rcases hmem with hvalid | hres
  · rcases h.course.valid.mp hvalid with ⟨hholds, hnot⟩ | hhalf
    · exact hnot ⟨hheader, h.early hholds⟩
    · exact h.not_half hhalf
  · exact (h.course.unread hheader).1 hres

/-- In front of the turn the set is right about the name. -/
theorem Withdrawing.start (h : Withdrawing name w all wanted (name :: rest) r p) (hname : name ≠ header) :
    name ∈ r.valid ↔ Holds p.1.certs name := by
  rw [h.course.valid, or_iff_left h.not_half, and_iff_left fun hheader => hname hheader.1]

/-- A turn whose call failed. -/
theorem Withdrawing.failed (h : Withdrawing name w all wanted (name :: rest) r p) (hrest : name ∉ rest)
    (hname : name ≠ header) (hstock : Stock name w all wanted p')
    (hvalid : name ∈ r.valid ↔ Holds p'.1.certs name ∨ HalfRemoved p'.2 name)
    (hhalf : HalfRemoved p'.2 name → ¬ Holds p'.1.certs name) (hfailed : RemovalFailed p'.2 name)
    (hearly : Holds p'.1.certs name → Holds p.1.certs name)
    (hfreed : (∃ e ∈ p'.2, Revoked name true e) → HalfRemoved p'.2 name) :
    Withdrawing name w all wanted rest (answered r name false) p' where
  course := {
    stock := hstock
    valid := hvalid.trans (or_congr_left (and_iff_left fun hheader => hname hheader.1).symm)
    half := hhalf
    failed := fun _ => hfailed
    unread := fun hheader => absurd hheader hname
    freed := fun hrevoked => .inl (hfreed hrevoked) }
  told _ := List.mem_append_right _ (List.mem_singleton.mpr rfl)
  early hholds := h.early (hearly hholds)
  done _ _ _ := List.mem_append_right _ (List.mem_singleton.mpr rfl)
  fresh hmem := absurd hmem hrest

/-- A turn whose calls succeeded. -/
theorem Withdrawing.succeeded (h : Withdrawing name w all wanted (name :: rest) r p) (hrest : name ∉ rest)
    (hname : name ≠ header) (hstock : Stock name w all wanted p') (hnot : ¬ Holds p'.1.certs name)
    (hfailed : ¬ RemovalFailed p'.2 name) : Withdrawing name w all wanted rest (answered r name true) p' := by
  have hgone : ∀ names : List Text, name ∉ names.filter (· ≠ name) := fun names hmem =>
    of_decide_eq_true (List.mem_filter.mp hmem).2 rfl
  have hhalf : ¬ HalfRemoved p'.2 name := fun ⟨_, e, he, hdeleted⟩ => hfailed ⟨e, he, .inr hdeleted⟩
  refine ⟨⟨hstock, ?_, fun hmem => absurd hmem hhalf, fun hmem => ?_, fun hheader => absurd hheader hname,
    fun _ => .inr (hgone _)⟩, fun hmem => absurd hmem hfailed, fun hmem => absurd hmem hnot,
    fun _ _ hres => absurd hres (hgone _), fun hmem => absurd hmem hrest⟩
  · exact iff_of_false (hgone _) (not_or.mpr ⟨fun hholds => hnot hholds.1, hhalf⟩)
  · exact absurd (h.course.failed hmem) h.not_failed

section Turn

variable {c c' : Choice}

/-- The certificate could not be revoked. -/
theorem Withdrawing.revoke_fails (h : Withdrawing name w all wanted (name :: rest) r p) (hrest : name ∉ rest)
    (hall : name ∈ all) (hvalid : name ∈ r.valid) (hname : name ≠ header) (hc : c.fault = .none)
    (hok : (revokeClient p.1.certs name c.ok).1 = false) :
    Withdrawing name w all wanted rest (answered r name false) (after host (.revokeClient name) c p) := by
  have hsame : (after host (.revokeClient name) c p).1.certs = p.1.certs := revokeClient_false hok
  have hholds : Holds p.1.certs name := (h.start hname).mp hvalid
  have hrevoked : ¬ ∃ e ∈ (after host (.revokeClient name) c p).2, Revoked name true e := by
    rw [exists_mem_concat]
    rintro (hmem | ⟨-, -, heq⟩)
    · exact h.untouched (fun _ => Revoked.about) hmem
    · rw [hok] at heq
      cases heq
  have hhalf : ¬ HalfRemoved (after host (.revokeClient name) c p).2 name := fun hmem => hrevoked hmem.1
  refine h.failed hrest hname (h.course.stock.revoke hname hall) ?_ (fun hmem => absurd hmem hhalf) ?_ (hsame ▸ id)
    (fun hmem => absurd hmem hrevoked)
  · rw [hsame, or_iff_left hhalf]
    exact h.start hname
  · exact removalFailed_concat.mpr (.inr (.inl (revoked_revoke.mpr ⟨hc, hok⟩)))

/-- The certificate was revoked, and the name could not be deleted. -/
theorem Withdrawing.half_removed (h : Withdrawing name w all wanted (name :: rest) r p) (hrest : name ∉ rest)
    (hall : name ∈ all) (hvalid : name ∈ r.valid) (hname : name ≠ header) (hc : c.fault = .none) (hc' : c'.fault = .none)
    (hok : (revokeClient p.1.certs name c.ok).1 = true)
    (hok' : (deleteClient (revokeClient p.1.certs name c.ok).2 name c'.ok).1 = false) :
    Withdrawing name w all wanted rest (answered r name false)
      (after host (.deleteClient name) c' (after host (.revokeClient name) c p)) := by
  have hnot : ¬ Holds (revokeClient p.1.certs name c.ok).2 name := not_holds_revokeClient h.course.stock.listed hok
  have hnot' : ¬ Holds (deleteClient (revokeClient p.1.certs name c.ok).2 name c'.ok).2 name := fun hholds =>
    hnot (holds_deleteClient hholds)
  have hdeleted : Deleted name false (.deleteClient name, c', (after host (.revokeClient name) c p).1) :=
    deleted_delete.mpr ⟨hc', hok'⟩
  have hhalf : HalfRemoved (after host (.deleteClient name) c' (after host (.revokeClient name) c p)).2 name :=
    halfRemoved_concat.mpr ⟨.inl (exists_mem_concat.mpr (.inr (revoked_revoke.mpr ⟨hc, hok⟩))), .inr hdeleted⟩
  exact h.failed hrest hname ((h.course.stock.revoke hname hall).delete hname hnot)
    (iff_of_true hvalid (.inr hhalf)) (fun _ => hnot') (removalFailed_concat.mpr (.inr (.inr hdeleted)))
    (fun hholds => absurd hholds hnot') fun _ => hhalf

/-- The certificate was revoked and the name deleted. -/
theorem Withdrawing.removed (h : Withdrawing name w all wanted (name :: rest) r p) (hrest : name ∉ rest)
    (hall : name ∈ all) (hname : name ≠ header) (hok : (revokeClient p.1.certs name c.ok).1 = true)
    (hok' : (deleteClient (revokeClient p.1.certs name c.ok).2 name c'.ok).1 = true) :
    Withdrawing name w all wanted rest (answered r name true)
      (after host (.deleteClient name) c' (after host (.revokeClient name) c p)) := by
  have hnot : ¬ Holds (revokeClient p.1.certs name c.ok).2 name := not_holds_revokeClient h.course.stock.listed hok
  refine h.succeeded hrest hname ((h.course.stock.revoke hname hall).delete hname hnot)
    (fun hholds => hnot (holds_deleteClient hholds)) ?_
  rw [removalFailed_concat, removalFailed_concat]
  rintro ((hmem | ⟨-, -, heq⟩ | hmem) | hmem | ⟨-, -, heq⟩)
  · exact h.not_failed hmem
  · rw [hok] at heq
    cases heq
  · exact not_deleted_revoke hmem
  · exact not_revoked_delete hmem
  · exact Bool.false_ne_true (heq.symm.trans hok')

/-- The name that was reserved could not be deleted. -/
theorem Withdrawing.delete_fails (h : Withdrawing name w all wanted (name :: rest) r p) (hrest : name ∉ rest)
    (hvalid : name ∉ r.valid) (hname : name ≠ header) (hc : c.fault = .none)
    (hok : (deleteClient p.1.certs name c.ok).1 = false) :
    Withdrawing name w all wanted rest (answered r name false) (after host (.deleteClient name) c p) := by
  have hsame : (after host (.deleteClient name) c p).1.certs = p.1.certs := deleteClient_false hok
  have hnot : ¬ Holds p.1.certs name := fun hholds => hvalid ((h.start hname).mpr hholds)
  have hrevoked : ¬ ∃ e ∈ (after host (.deleteClient name) c p).2, Revoked name true e := by
    rw [exists_mem_concat]
    rintro (hmem | hmem)
    · exact h.untouched (fun _ => Revoked.about) hmem
    · exact not_revoked_delete hmem
  have hhalf : ¬ HalfRemoved (after host (.deleteClient name) c p).2 name := fun hmem => hrevoked hmem.1
  refine h.failed hrest hname (h.course.stock.delete hname hnot) ?_ (fun hmem => absurd hmem hhalf) ?_ (hsame ▸ id)
    (fun hmem => absurd hmem hrevoked)
  · rw [hsame, or_iff_left hhalf]
    exact h.start hname
  · exact removalFailed_concat.mpr (.inr (.inr (deleted_delete.mpr ⟨hc, hok⟩)))

/-- The name that was reserved was deleted. -/
theorem Withdrawing.deleted (h : Withdrawing name w all wanted (name :: rest) r p) (hrest : name ∉ rest)
    (hvalid : name ∉ r.valid) (hname : name ≠ header) (hok : (deleteClient p.1.certs name c.ok).1 = true) :
    Withdrawing name w all wanted rest (answered r name true) (after host (.deleteClient name) c p) := by
  have hnot : ¬ Holds p.1.certs name := fun hholds => hvalid ((h.start hname).mpr hholds)
  refine h.succeeded hrest hname (h.course.stock.delete hname hnot) (fun hholds => hnot (holds_deleteClient hholds)) ?_
  rw [removalFailed_concat]
  rintro (hmem | hmem | ⟨-, -, heq⟩)
  · exact h.not_failed hmem
  · exact not_revoked_delete hmem
  · exact Bool.false_ne_true (heq.symm.trans hok)

end Turn

/-- The turn of the name. -/
theorem withdraw_self (h : Withdrawing name w all wanted (name :: rest) r p) (hall : name ∈ all) (hrest : name ∉ rest) :
    Leads host (withdraw r name) (Withdrawing name w all wanted rest) p := by
  rw [withdraw_eq]
  refine ends_ite (fun hnone => ?_) fun hsome => ends_bind.mpr ?_
  · exact ⟨h.course, h.told, h.early, fun _ _ hres => absurd hres hnone.2, fun hmem => absurd hmem hrest⟩
  have hname : name ≠ header := h.not_header (by
    by_contra hnot
    exact hsome (not_or.mp hnot))
  refine ends_ite (fun hvalid => ?_) fun hvalid => leads_call fun c hc => ?_
  · refine ends_bind.mpr (leads_call fun c hc => ?_)
    cases hok : (revokeClient p.1.certs name c.ok).1 with
    | true =>
      refine ends_ite (fun _ => leads_call fun c' hc' => ?_) fun hfalse => absurd hok hfalse
      cases hok' : (deleteClient (revokeClient p.1.certs name c.ok).2 name c'.ok).1 with
      | true =>
        change Withdrawing name w all wanted rest
          (answered r name (deleteClient (revokeClient p.1.certs name c.ok).2 name c'.ok).1) _
        rw [hok']
        exact h.removed hrest hall hname hok hok'
      | false =>
        change Withdrawing name w all wanted rest
          (answered r name (deleteClient (revokeClient p.1.certs name c.ok).2 name c'.ok).1) _
        rw [hok']
        exact h.half_removed hrest hall hvalid hname hc hc' hok hok'
    | false =>
      refine ends_ite (fun htrue => absurd (hok.symm.trans htrue) Bool.false_ne_true) fun _ => ?_
      exact h.revoke_fails hrest hall hvalid hname hc hok
  · cases hok : (deleteClient p.1.certs name c.ok).1 with
    | true =>
      change Withdrawing name w all wanted rest (answered r name (deleteClient p.1.certs name c.ok).1) _
      rw [hok]
      exact h.deleted hrest hvalid hname hok
    | false =>
      change Withdrawing name w all wanted rest (answered r name (deleteClient p.1.certs name c.ok).1) _
      rw [hok]
      exact h.delete_fails hrest hvalid hname hc hok

/-- The first loop. -/
theorem withdraw_loop {names : List Text} {r : Reconciling} (hnames : names.Nodup)
    (h : Withdrawing name w names wanted names r p) :
    Leads host (names.foldlM withdraw r) (Withdrawing name w names wanted []) p := by
  -- what is left is a part of the list, so that no name is met twice
  refine ends_mono (ends_foldlM (I := fun rest r p => rest <:+ names ∧ Withdrawing name w names wanted rest r p)
    (fun m rest r p hp => ?_) ⟨List.suffix_rfl, h⟩) (fun _ _ h => h.2) (fun _ _ h => h) fun _ h => h
  obtain ⟨hsuffix, hp⟩ := hp
  have hrest : rest <:+ names := (List.suffix_cons m rest).trans hsuffix
  by_cases hm : name = m
  · obtain rfl := hm
    have hmem : name ∈ names := hsuffix.subset (List.mem_cons_self ..)
    have hnot : name ∉ rest := (List.nodup_cons.mp (hnames.sublist hsuffix.sublist)).1
    exact ends_mono (withdraw_self hp hmem hnot) (fun _ _ h => ⟨hrest, h⟩) (fun _ _ h => h) fun _ h => h
  · exact ends_mono (withdraw_apart hm) (fun _ _ h => ⟨hrest, hp.apart hm h.1 h.2⟩) (fun _ _ h => h) fun _ h => h

/-! ### Issuing -/

/-- The name in front of a turn of the second loop. -/
structure Issuing (name : Text) (w : World) (all wanted queue rest : List Text) (r : Reconciling) (p : World × List Entry) :
    Prop where
  course : Course name w all wanted r p
  told : name ∈ queue → RemovalFailed p.2 name → name ∈ r.revokeFailed
  done : name ∈ all → name ∈ r.reserved → name ∈ r.revokeFailed
  left : name ∈ rest → name ∉ r.valid ∧ name ∈ wanted

/-- A turn of the second loop about another name. -/
theorem Issuing.apart {rest' : List Text} (h : Issuing name w all wanted queue rest r p) (hrest : rest' ⊆ rest)
    (hp : Apart name p p') (hr : Agree name r r') : Issuing name w all wanted queue rest' r' p' where
  course := h.course.apart hp hr
  told := by
    rw [hp.removalFailed, hr.revokeFailed]
    exact h.told
  done := by
    rw [hr.reserved, hr.revokeFailed]
    exact h.done
  left hmem := by
    rw [hr.valid]
    exact h.left (hrest hmem)

/-- Freeing the name, whether or not it succeeds, leaves its course as it was. -/
theorem Issuing.delete {c : Choice} (h : Issuing name w all wanted queue (name :: rest) r p) (hqueue : name ∈ queue → name ∈ all)
    (hres : name ∈ r.reserved) :
    Issuing name w all wanted queue (name :: rest) r (after host (.deleteClient name) c p) := by
  have hvalid := (h.left (List.mem_cons_self ..)).1
  have hname : name ≠ header := fun hheader => (h.course.unread hheader).1 hres
  have hnot : ¬ Holds p.1.certs name := fun hholds => hname ((h.course.not_valid hvalid).1 hholds).1
  have hnot' : ¬ Holds (after host (.deleteClient name) c p).1.certs name := fun hholds => hnot (holds_deleteClient hholds)
  have hrevoked : ¬ ∃ e ∈ (after host (.deleteClient name) c p).2, Revoked name true e := by
    rw [exists_mem_concat]
    rintro (hmem | hmem)
    · rcases h.course.freed hmem with hhalf | hfree
      · exact (h.course.not_valid hvalid).2 hhalf
      · exact hfree hres
    · exact not_revoked_delete hmem
  have hhalf : ¬ HalfRemoved (after host (.deleteClient name) c p).2 name := fun hmem => hrevoked hmem.1
  refine ⟨⟨h.course.stock.delete hname hnot, ?_, fun hmem => absurd hmem hhalf, fun hmem => ?_,
    fun hheader => absurd hheader hname, fun hmem => absurd hmem hrevoked⟩, fun hq _ => h.done (hqueue hq) hres, h.done, h.left⟩
  · exact iff_of_false hvalid (not_or.mpr ⟨fun hholds => hnot' hholds.1, hhalf⟩)
  · exact removalFailed_concat.mpr (.inl (h.course.failed hmem))

/-- Issuing a certificate, whether or not it succeeds. -/
theorem give_self (h : Issuing name w all wanted queue (name :: rest) r p) (hrest : name ∉ rest) :
    Leads host (give r name) (Issuing name w all wanted queue rest) p := by
  obtain ⟨hvalid, hwanted⟩ := h.left (List.mem_cons_self ..)
  obtain ⟨hearlier, hhalf⟩ := h.course.not_valid hvalid
  have hgone : name ∉ r.reserved.filter (· ≠ name) := fun hmem => of_decide_eq_true (List.mem_filter.mp hmem).2 rfl
  refine ends_bind.mpr (leads_call fun c hc => ?_)
  have hsame : ∀ (P : Entry → Prop), ¬ P (.addClient name, c, p.1) →
      ((∃ e ∈ (after host (.addClient name) c p).2, P e) ↔ ∃ e ∈ p.2, P e) := fun P hP =>
    exists_mem_concat.trans (or_iff_left hP)
  have hfailed' : RemovalFailed (after host (.addClient name) c p).2 name ↔ RemovalFailed p.2 name :=
    hsame _ fun hmem => hmem.elim not_revoked_add not_deleted_add
  have hhalf' : ¬ HalfRemoved (after host (.addClient name) c p).2 name := fun hmem =>
    hhalf ⟨(hsame _ not_revoked_add).mp hmem.1, (hsame _ not_deleted_add).mp hmem.2⟩
  have hstock := @Stock.add host _ _ _ _ _ c h.course.stock hwanted hearlier
  refine ⟨⟨hstock, ?_, fun hmem => absurd hmem hhalf', fun hmem => hfailed'.mpr (h.course.failed hmem),
    fun hheader => ⟨hgone, hhalf'⟩, fun _ => .inr hgone⟩, fun hq hmem => h.told hq (hfailed'.mp hmem),
    fun _ hres => absurd hres hgone, fun hmem => absurd hmem hrest⟩
  rw [or_iff_left hhalf']
  change (name ∈ if (addClient p.1.certs (p.1.clock + 1) name c.ok).1 = true then r.valid ++ [name] else r.valid) ↔
    Holds (addClient p.1.certs (p.1.clock + 1) name c.ok).2 name ∧ _
  rcases addClient_cases p.1.certs (p.1.clock + 1) name c.ok with ⟨hok, -, hfree, heq⟩ | heq
  · have hholds : Holds (p.1.certs ++ [⟨name, p.1.clock + 1, false, true⟩]) name :=
      ⟨_, List.mem_append_right _ (List.mem_singleton.mpr rfl), rfl, rfl⟩
    rw [if_pos hok, heq]
    refine iff_of_true (List.mem_append_right _ (List.mem_singleton.mpr rfl)) ⟨hholds, fun hheader => ?_⟩
    obtain ⟨d, hd, hv, hn⟩ := h.course.stock.stays hheader.1 hheader.2
    exact not_listed_of_holds hfree hd (h.course.stock.listed d hd hn hv) hn
  · rw [heq, if_neg Bool.false_ne_true]
    exact iff_of_false hvalid fun hholds => hholds.2 (hearlier hholds.1)

/-- The turn of the name. -/
theorem issue_self (h : Issuing name w all wanted queue (name :: rest) r p) (hqueue : name ∈ queue → name ∈ all)
    (hrest : name ∉ rest) : Leads host (issue r name) (Issuing name w all wanted queue rest) p := by
  rw [issue_eq]
  refine ends_ite (fun hres => ends_bind.mpr (leads_call fun c hc => ?_)) fun _ => give_self h hrest
  have h' := @Issuing.delete host _ _ _ _ _ _ _ _ c h hqueue hres
  refine ends_ite (fun _ => give_self h' hrest) fun _ => ?_
  exact ⟨⟨h'.course.stock, h'.course.valid, h'.course.half, h'.course.failed, h'.course.unread, h'.course.freed⟩, h'.told,
    h'.done, fun hmem => absurd hmem hrest⟩

/-- The second loop. -/
theorem issue_loop {names : List Text} {r : Reconciling} (hnames : names.Nodup) (hqueue : name ∈ queue → name ∈ all)
    (h : Issuing name w all wanted queue names r p) :
    Leads host (names.foldlM issue r) (Issuing name w all wanted queue []) p := by
  refine ends_mono (ends_foldlM (I := fun rest r p => rest <:+ names ∧ Issuing name w all wanted queue rest r p)
    (fun m rest r p hp => ?_) ⟨List.suffix_rfl, h⟩) (fun _ _ h => h.2) (fun _ _ h => h) fun _ h => h
  obtain ⟨hsuffix, hp⟩ := hp
  have hrest : rest <:+ names := (List.suffix_cons m rest).trans hsuffix
  by_cases hm : name = m
  · obtain rfl := hm
    have hnot : name ∉ rest := (List.nodup_cons.mp (hnames.sublist hsuffix.sublist)).1
    exact ends_mono (issue_self hp hqueue hnot) (fun _ _ h => ⟨hrest, h⟩) (fun _ _ h => h) fun _ h => h
  · exact ends_mono (issue_apart hm) (fun _ _ h => ⟨hrest, hp.apart (List.subset_cons_self m rest) h.1 h.2⟩) (fun _ _ h => h) fun _ h => h

end Loops

/-! ## A reconcile -/

section Whole

variable {host : Host} {w : World} {l : List Entry}

theorem nodup_sortedNames (names : List Text) : (sortedNames names).Nodup :=
  (List.perm_insertionSort _ _).nodup_iff.mpr (List.nodup_dedup names)

/-- No call about a certificate was made yet. -/
def Fresh (l : List Entry) : Prop := ∀ e ∈ l, ∀ name, ¬ About name e.1

/-- One call more that is not about a certificate. -/
theorem Fresh.concat {o : Op} {c : Choice} (h : Fresh l) (ho : ∀ name, ¬ About name o) : Fresh (l ++ [(o, c, w)]) := by
  intro e he
  rcases List.mem_append.mp he with he | he
  · exact h e he
  · obtain rfl := List.mem_singleton.mp he
    exact ho

/-- What is so of every name when the listing has been read. -/
theorem withdrawing_start (h : Ledger w.certs) (hl : Fresh l) (wanted all : List Text) (name : Text) :
    Withdrawing name w all wanted all ⟨withStatus (host.listing.text (rows w.certs)) "valid",
      withStatus (host.listing.text (rows w.certs)) "revoked", [], [], [], []⟩ (w, l) := by
  have hvalid := @mem_withStatus host.listing _ h.word name true
  have hres := @mem_withStatus host.listing _ h.word name false
  have huntouched : ∀ {P : Entry → Prop}, (∀ e, P e → About name e.1) → ¬ ∃ e ∈ l, P e :=
    fun hP ⟨e, he, hPe⟩ => hl e he name (hP e hPe)
  have hhalf : ¬ HalfRemoved l name := fun hmem => huntouched (fun _ => Revoked.about) hmem.1
  refine ⟨⟨⟨fun c hc _ hv => h.valid_listed c hc hv, fun _ hholds => hholds, fun e he hadd => ?_, fun _ c hc _ _ => hc⟩, ?_,
    fun hmem => absurd hmem hhalf, fun hmem => absurd hmem List.not_mem_nil, fun hheader => ⟨fun hmem => ?_, hhalf⟩,
    fun hmem => absurd hmem (huntouched fun _ => Revoked.about)⟩,
    fun hmem => absurd hmem (huntouched fun _ he => he.elim Revoked.about Deleted.about), id,
    fun hall hnot => absurd hall hnot, fun _ e he => hl e he name⟩
  · exact absurd (hadd ▸ .add) (hl e he name)
  · rw [or_iff_left hhalf]
    refine hvalid.trans ⟨?_, ?_⟩
    · rintro ⟨hname, c, hc, -, hcn, hrevoked⟩
      exact ⟨⟨c, hc, hrevoked, hcn⟩, fun hheader => hname hheader.1⟩
    · rintro ⟨⟨c, hc, hv, hcn⟩, hnot⟩
      exact ⟨fun hheader => hnot ⟨hheader, c, hc, hv, hcn⟩, c, hc, h.valid_listed c hc hv, hcn, hv⟩
  · exact (hres.mp hmem).1 hheader

/-- Where the first loop ends the second begins. -/
theorem issuing_start {name : Text} {all wanted queue : List Text} {r : Reconciling} {p : World × List Entry}
    (h : Withdrawing name w all wanted [] r p) :
    Issuing name w all wanted queue (sortedNames (wanted.filter (· ∉ r.valid))) r p where
  course := h.course
  told _ := h.told
  done hall := h.done hall List.not_mem_nil
  left hmem := by
    obtain ⟨hwanted, hnot⟩ := List.mem_filter.mp (mem_sortedNames.mp hmem)
    exact ⟨of_decide_eq_true hnot, hwanted⟩

/-- What the loops leave is right exactly where the bookkeeping can tell. -/
theorem right_iff_forall (all : List Text) {r : Reconciling} {p : World × List Entry} {w' : World}
    (hall : ∀ name ∈ all, name ∈ w.queue ∨ name ∉ (enabledUsers w.users).map (·.name))
    (h : ∀ name, Issuing name w all ((enabledUsers w.users).map (·.name)) w.queue [] r p)
    (hqueue : w'.queue = w.queue.filter (· ∈ r.revokeFailed)) (hcerts : w'.certs = p.1.certs)
    (husers : w'.users = w.users.map fun u => { u with ikev2Provisioned := decide (u.name ∈ r.valid) }) :
    Right w p.2 w' ↔ Told w p.2 := by
  constructor
  · intro hright u hu
    have hflag : u.name ∈ r.valid ↔ Holds p.1.certs u.name := by
      have := hright.flags { u with ikev2Provisioned := decide (u.name ∈ r.valid) } (husers ▸ List.mem_map_of_mem hu)
      rw [decide_eq_true_iff, hcerts] at this
      exact this
    have hcourse := (h u.name).course
    refine ⟨fun hheader => ?_, fun hhalf => ?_⟩
    · have hholds := hcourse.stock.stays hheader.1 hheader.2
      rcases hcourse.valid.mp (hflag.mpr hholds) with hvalid | hhalf
      · exact hvalid.2 hheader
      · exact (hcourse.unread hheader.1).2 hhalf
    · exact hcourse.half hhalf (hflag.mp (hcourse.valid.mpr (.inr hhalf)))
  · intro htold
    refine ⟨fun name => ?_, fun e he name hadd hholds => ?_, fun c hc hv hwanted hnot => ?_, fun u hu => ?_⟩
    · rw [hqueue, List.mem_filter, decide_eq_true_iff]
      exact and_congr_right fun hname => ⟨(h name).course.failed, (h name).told hname⟩
    · obtain ⟨hwanted, hheader⟩ := (h name).course.stock.issued e he hadd
      obtain ⟨u, hu, rfl⟩ := List.mem_map.mp hwanted
      exact (htold u (List.mem_filter.mp hu).1).1 (hheader hholds)
    · rw [hcerts]
      refine (h c.name).course.stock.same (fun hmem => ?_) c hc hv rfl
      exact (hall _ hmem).elim hnot fun hunwanted => hunwanted hwanted
    · rw [husers] at hu
      obtain ⟨u, hu', rfl⟩ := List.mem_map.mp hu
      obtain ⟨hheader, hhalf⟩ := htold u hu'
      refine decide_eq_true_iff.trans ((h u.name).course.valid.trans ?_)
      rw [hcerts, or_iff_left hhalf]
      exact and_iff_left hheader

/-- Behind the listing, a reconcile leaves what is claimed exactly where nothing escaped the bookkeeping. -/
theorem reconcileListed_leads (h : Ledger w.certs) (hl : Fresh l) {st : State} (hqueue : st.revokePending = w.queue) :
    Leads host (reconcileListed st w.users (withStatus (host.listing.text (rows w.certs)) "valid")
      (withStatus (host.listing.text (rows w.certs)) "revoked")) (fun _ p => Right w p.2 p.1 ↔ Told w p.2) (w, l) := by
  set wanted := (enabledUsers w.users).map (·.name) with hwanted
  set valid := withStatus (host.listing.text (rows w.certs)) "valid" with hvalid
  set all := sortedNames (st.revokePending ++ valid.filter (· ∉ wanted)) with hall
  have hmem : ∀ name, name ∈ w.queue → name ∈ all := fun name hname =>
    mem_sortedNames.mpr (List.mem_append_left _ (hqueue ▸ hname))
  unfold reconcileListed
  refine ends_seq (leads_forall fun name => withdraw_loop (nodup_sortedNames _) (withdrawing_start h hl wanted all name))
    fun r p hp => ?_
  refine ends_seq (leads_forall fun name => issue_loop (nodup_sortedNames _) (hmem name) (issuing_start (hp name)))
    fun r p hp => ?_
  refine ends_bind.mpr (leads_call fun c _ => ends_bind.mpr (leads_call fun c' _ => ?_))
  refine right_iff_forall all (r := r) (p := after host (.saveUsers _) c' (after host (.saveState _) c p)) (fun name hname => ?_)
    (fun name => ?_) ?_ rfl rfl
  · rcases List.mem_append.mp (mem_sortedNames.mp hname) with hname | hname
    · exact .inl (hqueue ▸ hname)
    · exact .inr (of_decide_eq_true (List.mem_filter.mp hname).2)
  · refine (hp name).apart (List.Subset.refl _) (Apart.after ?_ (Apart.after ?_ (.refl name p))) (.refl name r)
    · intro h
      cases h
    · intro h
      cases h
  · exact congrArg _ hqueue

/-- A reconcile that is skipped leaves the server as it was, and another leaves what is claimed exactly where nothing escaped the
bookkeeping. -/
theorem reconcileIkev2_leads (h : Ledger w.certs) :
    Leads host reconcileIkev2 (fun result p => (result = none → p.1 = w) ∧ (result ≠ none → (Right w p.2 p.1 ↔ Told w p.2)))
      (w, []) := by
  have hskipped : ∀ l : List Entry, ((none : Option Reconciled) = none → w = w) ∧
      ((none : Option Reconciled) ≠ none → (Right w l w ↔ Told w l)) := fun l => ⟨fun _ => rfl, fun hne => absurd rfl hne⟩
  have hnil : Fresh [] := fun _ he => absurd he List.not_mem_nil
  unfold reconcileIkev2
  refine ends_bind.mpr (leads_call fun c _ => ends_ite (fun _ => ?_) fun _ => hskipped _)
  refine ends_bind.mpr (leads_call fun c' _ => ends_bind.mpr (leads_call fun c'' _ => ends_bind.mpr (leads_call fun d _ => ?_)))
  refine ends_ite (fun hok => ?_) fun _ => hskipped _
  have htext : (exec host .listClients d w).1 = (true, host.listing.text (rows w.certs)) := by
    change (if d.ok then (true, host.listing.text (rows w.certs)) else (false, [])).1 = true at hok
    change (if d.ok then (true, host.listing.text (rows w.certs)) else (false, [])) = _
    cases hd : d.ok with
    | true => rfl
    | false =>
      rw [hd] at hok
      cases hok
  have hfresh : Fresh [(Op.ikev2Running, c, w), (.loadState, c', w), (.loadUsers, c'', w), (.listClients, d, w)] := by
    refine (((hnil.concat ?_).concat ?_).concat ?_).concat ?_ <;> exact fun _ => nofun
  have hlisted : ∀ text l, text = host.listing.text (rows w.certs) → Fresh l → Leads host (do
      let result ← reconcileListed (w.state.getD (State.default host.py)) w.users (parseClients text).1 (parseClients text).2
      return some result)
      (fun result p => (result = none → p.1 = w) ∧ (result ≠ none → (Right w p.2 p.1 ↔ Told w p.2))) (w, l) := by
    rintro text l rfl hl
    refine ends_seq (reconcileListed_leads h hl (queue_getD w host.py)) fun result p hp => ?_
    exact ⟨fun hnone => (nomatch hnone), fun _ => hp⟩
  exact hlisted _ _ (congrArg Prod.snd htext) hfresh

end Whole

open Revocation (alice sampleWorld)

def carol : Text := "carol".toList

/-- Alice is enabled and has no certificate yet, Carol is disabled and has one. -/
def halfWorld : World :=
  { sampleWorld with
    users := [⟨alice, "1b4e-28ba", "8f0c", "a1d2", false, true, "2026-01-01T00:00:00Z", "Zx9y"⟩,
      ⟨carol, "2c5f-39cb", "9a1d", "b2e3", true, false, "2026-01-01T00:00:00Z", "Yw8x"⟩]
    certs := [⟨carol, 0, false, true⟩] }

theorem halfWorld_ledger : Ledger halfWorld.certs := by
  refine ⟨fun c hc _ => ?_, fun c hc _ => ?_, by decide⟩
  · obtain rfl := List.mem_singleton.mp hc
    exact by decide
  · obtain rfl := List.mem_singleton.mp hc
    rfl

/-- The container does everything it is asked, and then it cannot delete Carol's name. -/
def wellDone : List Choice := List.replicate 9 {}

def halfDone : List Choice := wellDone.set 5 { ok := false }

end Reconcile

end VpnStack

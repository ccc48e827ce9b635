import VpnStack.HostKeys

/-!
# Which keys a shared policy lets through

A connection is returned only with a key that was pinned in the beginning or that the person approved. That the key never changes
is another matter: a question says that nothing is pinned when nothing was pinned as it was built, so of two first questions the
second answer moves the pin to another key, unless it is about the same one.
-/

namespace VpnStack

namespace HostKeys

open Transition
open Firewall (HostKey Decision accepts)

variable {ι : Type} [DecidableEq ι]

/-- Every key the policy has accepted: the one it was made with, and those the person approved. -/
def State.accepted (s : State ι) (initial : Option HostKey) : List HostKey := initial.toList ++ s.approved

/-- What is asked of a policy. -/
structure State.Sound (initial : Option HostKey) (s : State ι) : Prop where
  /-- A connection that was returned presented a key that was pinned or approved. -/
  approved : ∀ i k, s.phases i = .returned k → ∃ a ∈ s.accepted initial, a.sameKeyAs k = true
  /-- No other key was accepted than the first one. -/
  pinned : ∀ a ∈ s.accepted initial, ∀ b ∈ s.accepted initial, a.sameKeyAs b = true
  /-- No other key was recorded. -/
  recorded : ∀ a ∈ s.accepted initial, ∀ b ∈ s.recorded, a.sameKeyAs b = true
  /-- No connection was returned that presented another. -/
  returned : ∀ a ∈ s.accepted initial, ∀ i k, s.phases i = .returned k → a.sameKeyAs k = true

/-- A first question is answered with an acceptance only while nothing is pinned, or the key it is about. -/
def Steady (s : State ι) : Action ι → Prop
  | .answer i decision =>
    match s.phases i with
    | .asking _ offered none => decision = .refuse ∨ ∀ pin ∈ s.pinned, pin.sameKeyAs offered = true
    | _ => True
  | _ => True

instance (s : State ι) (a : Action ι) : Decidable (Steady s a) := by
  unfold Steady
  split
  · split <;> infer_instance
  · infer_instance

/-! ## The same key -/

theorem sameKeyAs_refl (a : HostKey) : a.sameKeyAs a = true := by simp [HostKey.sameKeyAs]

/-- Being the same key goes both ways. -/
theorem sameKeyAs_symm {a b : HostKey} (h : a.sameKeyAs b = true) : b.sameKeyAs a = true := by
  simp only [HostKey.sameKeyAs, Bool.and_eq_true, decide_eq_true_eq] at h ⊢
  exact ⟨h.1.symm, h.2.symm⟩

/-- Being the same key goes on from key to key. -/
theorem sameKeyAs_trans {a b c : HostKey} (h : a.sameKeyAs b = true) (h' : b.sameKeyAs c = true) : a.sameKeyAs c = true := by
  simp only [HostKey.sameKeyAs, Bool.and_eq_true, decide_eq_true_eq] at h h' ⊢
  exact ⟨h.1.trans h'.1, h.2.trans h'.2⟩

theorem accepts_iff {pinned : Option HostKey} {k : HostKey} : accepts pinned k = true ↔ ∃ pin ∈ pinned, pin.sameKeyAs k = true := by
  cases pinned <;> simp [accepts]

/-! ## What a step does -/

/-- A call that goes on returns a connection only if that is where it goes. -/
theorem State.at_returned {s : State ι} {i j : ι} {p : Phase} {k : HostKey} (h : (s.at i p).phases j = .returned k) :
    s.phases j = .returned k ∨ p = .returned k := by
  by_cases hj : j = i
  · subst hj
    exact .inr (by simpa [State.at] using h)
  · exact .inl (by simpa [State.at, hj] using h)

/-- The policy is as it was, and what is returned now was returned before or is a key the policy accepts. -/
structure Quiet (s s' : State ι) : Prop where
  pinned : s'.pinned = s.pinned
  approved : s'.approved = s.approved
  recorded : s'.recorded = s.recorded
  returned : ∀ j k, s'.phases j = .returned k → s.phases j = .returned k ∨ accepts s.pinned k = true

/-- The key of a first question is accepted. -/
structure Accepts (s s' : State ι) (offered : HostKey) : Prop where
  pinned : s'.pinned = some offered
  approved : s'.approved = s.approved ++ [offered]
  recorded : ∀ b ∈ s'.recorded, b ∈ s.recorded ∨ b = offered
  returned : ∀ j k, s'.phases j = .returned k → s.phases j = .returned k

/-- A call that goes on, and returns a connection only under an accepted key. -/
theorem Quiet.at (s : State ι) (i : ι) {p : Phase} (hp : ∀ k, p = .returned k → accepts s.pinned k = true) :
    Quiet s (s.at i p) :=
  ⟨rfl, rfl, rfl, fun _ k h => (State.at_returned h).imp id (hp k)⟩

theorem Quiet.goOn (s : State ι) (i : ι) (own : Bool) : Quiet s (s.goOn i own) :=
  .at s i fun k h => by cases own <;> nomatch h

/-- Building a question accepts nothing. -/
theorem Quiet.verify (s : State ι) (i : ι) (own : Bool) (offered : HostKey) : Quiet s (s.verify i own offered) := by
  rw [State.verify]
  split
  · exact .goOn s i own
  · exact .at s i fun k h => nomatch h

/-- Judging a connection at the end accepts nothing. -/
theorem Quiet.check (s : State ι) (i : ι) (hostKey : HostKey) : Quiet s (s.check i hostKey) := by
  refine .at s i fun k h => ?_
  split at h
  · rename_i haccepts
    rw [← Phase.returned.inj h]
    exact haccepts
  · nomatch h

/-- An acceptance of a first question moves the pin. -/
theorem Accepts.decide (s : State ι) (i : ι) (own : Bool) (offered : HostKey) {decision : Decision} (hd : decision ≠ .refuse) :
    Accepts s (s.decide i own offered decision) offered := by
  cases decision with
  | refuse => exact absurd rfl hd
  | trustOnce =>
    refine ⟨rfl, rfl, fun b hb => .inl hb, fun j k h => ?_⟩
    rcases State.at_returned h with h | h
    · exact h
    · cases own <;> nomatch h
  | trust =>
    refine ⟨rfl, rfl, fun b hb => ?_, fun j k h => ?_⟩
    · rcases List.mem_append.mp hb with hb | hb
      · exact .inl hb
      · exact .inr (List.mem_singleton.mp hb)
    · rcases State.at_returned h with h | h
      · exact h
      · nomatch h

/-- A step leaves the policy as it is, or accepts the key of a first question. -/
theorem step_cases {s s' : State ι} {a : Action ι} (h : step s a = some s') :
    Quiet s s' ∨ ∃ i own offered decision, a = .answer i decision ∧ decision ≠ .refuse ∧
      s.phases i = .asking own offered none ∧ Accepts s s' offered := by
  cases a with
  | openVerified i =>
    rw [step] at h
    split at h
    · obtain rfl := Option.some.inj h
      exact .inl (.at s i fun k h => nomatch h)
    · nomatch h
  | connected i hostKey =>
    rw [step] at h
    split at h
    · obtain rfl := Option.some.inj h
      exact .inl (.check s i hostKey)
    · nomatch h
  | unknown i offered =>
    rw [step] at h
    split at h
    · obtain rfl := Option.some.inj h
      exact .inl (.verify s i true offered)
    · obtain rfl := Option.some.inj h
      exact .inl (.at s i fun k h => nomatch h)
    · nomatch h
  | failed i =>
    rw [step] at h
    split at h
    · obtain rfl := Option.some.inj h
      exact .inl (.at s i fun k h => nomatch h)
    · obtain rfl := Option.some.inj h
      exact .inl (.at s i fun k h => nomatch h)
    · nomatch h
  | verify i offered =>
    rw [step] at h
    split at h
    · obtain rfl := Option.some.inj h
      exact .inl (.verify s i false offered)
    · nomatch h
  | answer i decision =>
    rw [step] at h
    split at h
    · rename_i own offered pinned hphase
      obtain rfl := Option.some.inj h
      cases pinned with
      | some pin =>
        -- The key changed, so whatever the person answers is a refusal.
        exact .inl (.at s i fun k h => nomatch h)
      | none =>
        by_cases hd : decision = .refuse
        · subst hd
          exact .inl (.at s i fun k h => nomatch h)
        · exact .inr ⟨i, own, offered, decision, rfl, hd, hphase, .decide s i own offered hd⟩
    · nomatch h
  | remembered i =>
    rw [step] at h
    split at h
    · rename_i own offered hphase
      obtain rfl := Option.some.inj h
      exact .inl (.goOn s i own)
    · nomatch h
  | closed i =>
    rw [step] at h
    split at h
    · obtain rfl := Option.some.inj h
      exact .inl (.at s i fun k h => nomatch h)
    · nomatch h

/-! ## Every run -/

variable {initial : Option HostKey}

/-- What is so in every run: the pin is the last key that was accepted, every recorded key was, and what was returned presented
one of them. -/
structure Inv (initial : Option HostKey) (s : State ι) : Prop where
  pinned : s.pinned = (s.accepted initial).getLast?
  recorded : ∀ b ∈ s.recorded, b ∈ s.accepted initial
  returned : ∀ i k, s.phases i = .returned k → ∃ a ∈ s.accepted initial, a.sameKeyAs k = true

omit [DecidableEq ι] in
/-- At first only what the store had is accepted. -/
theorem Inv.init : Inv initial (policy initial : State ι) := by
  refine ⟨?_, fun b hb => ?_, fun i k h => ?_⟩
  · cases initial <;> rfl
  · nomatch hb
  · nomatch h

omit [DecidableEq ι] in
theorem Quiet.accepted {s s' : State ι} (h : Quiet s s') : s'.accepted initial = s.accepted initial := by
  rw [State.accepted, State.accepted, h.approved]

omit [DecidableEq ι] in
/-- An accepted question adds its key. -/
theorem Accepts.accepted {s s' : State ι} {offered : HostKey} (h : Accepts s s' offered) :
    s'.accepted initial = s.accepted initial ++ [offered] := by
  rw [State.accepted, State.accepted, h.approved, List.append_assoc]

/-- Every step keeps the invariant. -/
theorem Inv.step {s s' : State ι} {a : Action ι} (hI : Inv initial s) (h : HostKeys.step s a = some s') : Inv initial s' := by
  rcases step_cases h with hq | ⟨i, own, offered, decision, -, -, -, ha⟩
  · refine ⟨?_, ?_, fun j k hk => ?_⟩
    · rw [hq.pinned, hq.accepted, hI.pinned]
    · rw [hq.recorded, hq.accepted]
      exact hI.recorded
    · rw [hq.accepted]
      rcases hq.returned j k hk with hk | hk
      · exact hI.returned j k hk
      · obtain ⟨pin, hpin, hsame⟩ := accepts_iff.mp hk
        rw [hI.pinned] at hpin
        exact ⟨pin, List.mem_of_getLast? hpin, hsame⟩
  · refine ⟨?_, fun b hb => ?_, fun j k hk => ?_⟩
    · rw [ha.pinned, ha.accepted, List.getLast?_concat]
    · rw [ha.accepted, List.mem_append, List.mem_singleton]
      exact (ha.recorded b hb).imp (hI.recorded b) id
    · obtain ⟨b, hb, hsame⟩ := hI.returned j k (ha.returned j k hk)
      exact ⟨b, by rw [ha.accepted]; exact List.mem_append_left _ hb, hsame⟩

/-- All keys that were accepted are the same. -/
def State.OneKey (initial : Option HostKey) (s : State ι) : Prop :=
  ∀ a ∈ s.accepted initial, ∀ b ∈ s.accepted initial, a.sameKeyAs b = true

omit [DecidableEq ι] in
/-- A state is sound exactly where all accepted keys are one. -/
theorem sound_iff {s : State ι} (hI : Inv initial s) : s.Sound initial ↔ s.OneKey initial := by
  refine ⟨fun h => h.pinned, fun h => ⟨hI.returned, h, fun a ha b hb => h a ha b (hI.recorded b hb), fun a ha i k hk => ?_⟩⟩
  obtain ⟨b, hb, hsame⟩ := hI.returned i k hk
  exact sameKeyAs_trans (h a ha b hb) hsame

/-- A steady step accepts no other key. -/
theorem oneKey_step {s s' : State ι} {a : Action ι} (hI : Inv initial s) (hone : s.OneKey initial) (hC : Steady s a)
    (h : step s a = some s') : s'.OneKey initial := by
  rcases step_cases h with hq | ⟨i, own, offered, decision, rfl, hd, hphase, ha⟩
  · rw [State.OneKey, hq.accepted]
    exact hone
  · have hpin : ∀ pin ∈ s.pinned, pin.sameKeyAs offered = true := by
      rw [Steady, hphase] at hC
      exact hC.resolve_left hd
    have hall : ∀ b ∈ s.accepted initial, b.sameKeyAs offered = true := by
      intro b hb
      cases hlast : (s.accepted initial).getLast? with
      | none =>
        rw [List.getLast?_eq_none_iff.mp hlast] at hb
        nomatch hb
      | some pin =>
        exact sameKeyAs_trans (hone b hb pin (List.mem_of_getLast? hlast)) (hpin pin (by rw [hI.pinned, hlast]; rfl))
    intro b hb c hc
    rw [ha.accepted, List.mem_append, List.mem_singleton] at hb hc
    rcases hb with hb | rfl
    · rcases hc with hc | rfl
      · exact hone b hb c hc
      · exact hall b hb
    · rcases hc with hc | rfl
      · exact sameKeyAs_symm (hall c hc)
      · exact sameKeyAs_refl _

/-- What was accepted stays accepted. -/
theorem accepted_step {s s' : State ι} {a : Action ι} (h : step s a = some s') :
    ∀ b ∈ s.accepted initial, b ∈ s'.accepted initial := by
  intro b hb
  rcases step_cases h with hq | ⟨i, own, offered, decision, -, -, -, ha⟩
  · rw [hq.accepted]
    exact hb
  · rw [ha.accepted]
    exact List.mem_append_left _ hb

/-- A key that was accepted stays so. -/
theorem accepted_run {s s' : State ι} {as : List (Action ι)} (h : run step s as = some s') :
    ∀ b ∈ s.accepted initial, b ∈ s'.accepted initial :=
  fun b hb => run_always (I := fun m => b ∈ m.accepted initial) (fun _ _ _ hm he => accepted_step he b hm) hb h

/-- A step that is not steady accepts a second key. -/
theorem steady_of_oneKey {s s' : State ι} {a : Action ι} (hI : Inv initial s) (h : step s a = some s')
    (hone : s'.OneKey initial) : Steady s a := by
  cases a with
  | answer i decision =>
    rw [Steady]
    split
    · rename_i own offered hphase
      by_cases hd : decision = .refuse
      · exact .inl hd
      · refine .inr fun pin hpin => ?_
        have hmem : pin ∈ s.accepted initial := by
          rw [hI.pinned] at hpin
          exact List.mem_of_getLast? hpin
        have hdecide : s.decide i own offered decision = s' := by
          rw [step, hphase] at h
          exact Option.some.inj h
        have haccepted : s'.accepted initial = s.accepted initial ++ [offered] := by
          rw [← hdecide]
          exact (Accepts.decide s i own offered hd).accepted
        exact hone pin (accepted_step h pin hmem) offered (by rw [haccepted]; simp)
    · trivial
  | _ => trivial

/-- In every run, whatever the servers present and however the person answers: what is asked of the policy holds in the end
exactly when every acceptance of a first question came while nothing was pinned, or that very key. -/
theorem policy_sound_iff (initial : Option HostKey) {as : List (Action ι)} {s : State ι}
    (hrun : run step (policy initial) as = some s) : s.Sound initial ↔ Along step Steady (policy initial) as := by
  have hsound := sound_iff (run_always (I := Inv initial) (fun _ _ _ hI he => hI.step he) Inv.init hrun)
  rw [hsound]
  constructor
  · intro hone
    have hall : ∀ (bs : List (Action ι)) (m : State ι), Inv initial m → run step m bs = some s → Along step Steady m bs := by
      intro bs
      induction bs with
      | nil => exact fun _ _ _ => trivial
      | cons a bs ih =>
        intro m hI hm
        obtain ⟨n, hn, hrest⟩ := run_cons.mp hm
        -- Whatever was accepted by then is accepted in the end.
        have hone' : n.OneKey initial := fun b hb c hc =>
          hone b (accepted_run hrest b hb) c (accepted_run hrest c hc)
        refine ⟨steady_of_oneKey hI hn hone', fun n' hn' => ?_⟩
        obtain rfl : n = n' := Option.some.inj (hn.symm.trans hn')
        exact ih n (hI.step hn) hrest
    exact hall as _ Inv.init hrun
  · intro hC
    have hinit : (policy initial : State ι).OneKey initial := by
      intro a ha b hb
      cases initial with
      | none => nomatch ha
      | some pin =>
        obtain rfl : a = pin := by simpa [State.accepted, policy] using ha
        obtain rfl : b = a := by simpa [State.accepted, policy] using hb
        exact sameKeyAs_refl _
    exact (run_invariant (I := fun m => Inv initial m ∧ m.OneKey initial)
      (fun m a m' h hc he => ⟨h.1.step he, oneKey_step h.1 h.2 hc he⟩) ⟨Inv.init, hinit⟩ hC hrun).2

/-- The keys two servers present at one address. -/
def firstKey : HostKey := ⟨"ssh-ed25519", "SHA256:first", "SHA256:first"⟩

def secondKey : HostKey := ⟨"ssh-ed25519", "SHA256:second", "SHA256:second"⟩

/-- One connection is approved, and a second that presents another key is not, whatever the person says. -/
def inTurn : List (Action Bool) :=
  [.openVerified true, .unknown true firstKey, .answer true .trust, .remembered true, .connected true firstKey,
    .openVerified false, .unknown false secondKey, .answer false .trust]

/-- The first connection is returned under the one key that was accepted. -/
theorem policy_sound_inTurn : ∃ s, run step (policy none) inTurn = some s ∧ s.Sound none ∧ s.accepted none = [firstKey] ∧
    s.phases true = .returned firstKey ∧ s.phases false = .threw :=
  have hrun : (run step (policy none) inTurn).isSome = true := by decide
  have hends : ∀ s ∈ run step (policy none) inTurn, s.accepted none = [firstKey] ∧ s.phases true = .returned firstKey ∧
      s.phases false = .threw := by decide
  ⟨_, Option.eq_some_of_isSome hrun, (policy_sound_iff none (Option.eq_some_of_isSome hrun)).mpr (by decide),
    hends _ (Option.get_mem hrun)⟩

/-- Two first connections ask at once, each of another key, and both are trusted. -/
def atOnce : List (Action Bool) :=
  [.openVerified true, .openVerified false, .unknown true firstKey, .unknown false secondKey, .answer true .trust,
    .remembered true, .connected true firstKey, .answer false .trust, .remembered false, .connected false secondKey]

/-- The second key is pinned over the first, and both connections are returned. -/
theorem policy_unsound : ¬ ∀ (initial : Option HostKey) (as : List (Action Bool)) (s : State Bool),
    run step (policy initial) as = some s → s.Sound initial := by
  intro h
  have hrun : (run step (policy none) atOnce).isSome = true := by decide
  have happroved : ∀ s ∈ run step (policy none) atOnce, s.approved = [firstKey, secondKey] := by decide
  have hsound := h none atOnce _ (Option.eq_some_of_isSome hrun)
  have haccepted := happroved _ (Option.get_mem hrun)
  have hsame := hsound.pinned firstKey (by rw [State.accepted, haccepted]; simp) secondKey
    (by rw [State.accepted, haccepted]; simp)
  exact absurd hsame (by decide)

end HostKeys

end VpnStack

import VpnStack.Ufw

/-!
# The doors the firewall step may close

`reconcile` folds the lines of `ufw status` into a map before it decides anything, so that of the lines with one rule only the
last tag counts, and a tagged line counts as open wherever it is from. Where the lines with one rule disagree it deletes the
rule by which the operator came in, or one that a human added, or reports a rule as served that is not open.
-/

namespace VpnStack

open Python Interaction

namespace Ufw

/-! ## What is claimed -/

/-- A protocol that is on wants the rule. -/
def Wanted (enabled : List Protocol) (rule : Text) : Prop := ∃ p ∈ enabled, ∃ port ∈ p.ports, port.text.toList = rule

/-- Some line tags the rule. -/
def Tagged (lines : List Text) (rule name : Text) : Prop := ∃ line ∈ lines, taggedLine line = some (rule, name)

/-- Some line allows the rule from anywhere. -/
def Anywhere (lines : List Text) (rule : Text) : Prop := ∃ line ∈ lines, ∃ comment, anywhereLine line = some (rule, comment)

/-- Some line allows the rule from anywhere, and it is not tagged by this tool. -/
def ByHand (lines : List Text) (rule : Text) : Prop :=
  ∃ line ∈ lines, ∃ comment, anywhereLine line = some (rule, comment) ∧ mentionsTag comment = false

/-- The calls of a run, each with the choice it met. -/
abbrev Log := List (Op × Choice)

/-- The deletion of the rule was asked for. -/
def Deletes (l : Log) (rule : Text) : Prop := ∃ c, (Op.ufw (deleteArgs rule), c) ∈ l

/-- The rule was opened. -/
def Opens (l : Log) (rule : Text) : Prop := ∃ name c, (Op.ufw (allowArgs rule name), c) ∈ l ∧ c.fault = .none ∧ c.ok = true

/-- Every deletion is of a rule of ours that nobody wants, and it is not the way in, nor a rule of somebody else. -/
def Safe (lines : List Text) (enabled : List Protocol) (l : Log) : Prop :=
  ∀ rule, Deletes l rule → rule ≠ sshRule ∧ ¬ Tagged lines rule sshTag ∧ ¬ ByHand lines rule ∧
    (∃ name, Tagged lines rule name) ∧ ¬ Wanted enabled rule

/-- Every rule that is wanted is allowed from anywhere: it was, or it has been opened, and it was not deleted. -/
def Served (lines : List Text) (enabled : List Protocol) (l : Log) : Prop :=
  ∀ rule, Wanted enabled rule → (Anywhere lines rule ∨ Opens l rule) ∧ ¬ Deletes l rule

/-- The lines of one rule agree: a rule that would be deleted has no line for the way in and none of somebody else, and a rule
that is wanted and tagged is open to everybody. -/
structure Agreeing (lines : List Text) (enabled : List Protocol) : Prop where
  guarded : ∀ rule name, (rule, name) ∈ tagged lines → ¬ Wanted enabled rule → name ≠ sshTag → rule ≠ sshRule →
    ¬ Tagged lines rule sshTag ∧ ¬ ByHand lines rule
  served : ∀ rule name, Tagged lines rule name → Wanted enabled rule → Anywhere lines rule

/-! ## The maps -/

section Maps

variable {lines : List Text} {enabled : List Protocol} {want : List (Text × Text)} {rule name : Text}

theorem mem_sortedItems {d : List (Text × Text)} {e : Text × Text} : e ∈ sortedItems d ↔ e ∈ d := List.mem_insertionSort _

/-- The rules of the map are those that some line tags. -/
theorem mem_keys_tagged : rule ∈ (tagged lines).map (·.1) ↔ ∃ name, Tagged lines rule name := by
  rw [tagged, Dict.mem_keys_ofPairs, List.mem_map]
  constructor
  · rintro ⟨e, he, rfl⟩
    obtain ⟨line, hline, heq⟩ := List.mem_filterMap.mp he
    exact ⟨e.2, line, hline, heq⟩
  · rintro ⟨name, line, hline, heq⟩
    exact ⟨(rule, name), List.mem_filterMap.mpr ⟨line, hline, heq⟩, rfl⟩

/-- An entry of the map has a line that tags its rule. -/
theorem tagged_of_mem (h : (rule, name) ∈ tagged lines) : ∃ name, Tagged lines rule name :=
  mem_keys_tagged.mp (List.mem_map_of_mem h)

/-- The rules of the other map are those added by hand. -/
theorem mem_untagged : rule ∈ untagged lines ↔ ByHand lines rule := by
  rw [untagged, List.mem_filterMap]
  refine exists_congr fun line => and_congr_right fun _ => ?_
  cases hline : anywhereLine line with
  | none => exact iff_of_false nofun nofun
  | some e =>
    obtain ⟨rule', comment⟩ := e
    cases hcomment : mentionsTag comment with
    | true =>
      refine iff_of_false (by simp [hcomment]) ?_
      rintro ⟨comment', heq, hno⟩
      cases heq
      rw [hcomment] at hno
      cases hno
    | false =>
      simp only [hcomment, Bool.false_eq_true, if_false]
      constructor
      · intro heq
        cases heq
        exact ⟨comment, rfl, hcomment⟩
      · rintro ⟨comment', heq, -⟩
        cases heq
        rfl

/-- A rule added by hand is open to everybody. -/
theorem ByHand.anywhere (h : ByHand lines rule) : Anywhere lines rule := by
  obtain ⟨line, hline, comment, heq, -⟩ := h
  exact ⟨line, hline, comment, heq⟩

/-- The rules that are desired are those that an enabled protocol wants. -/
theorem mem_keys_desired (h : desired enabled = .ok want) : rule ∈ want.map (·.1) ↔ Wanted enabled rule := by
  unfold desired at h
  split at h
  · cases h
  · cases h
    rw [Dict.mem_keys_ofPairs]
    simp only [List.map_flatMap, List.map_map, List.mem_flatMap, List.mem_map, Wanted, Function.comp_apply]

/-- The desired map is there where no protocol is named like the tag of the way in. -/
theorem desired_ok (h : ∀ p ∈ enabled, p.name.toList ≠ sshTag) : ∃ want, desired enabled = .ok want := by
  refine ⟨_, if_neg fun hany => ?_⟩
  obtain ⟨p, hp, hname⟩ := List.any_eq_true.mp hany
  exact h p hp (of_decide_eq_true hname)

/-- The desired map is refused where a protocol is named like the tag of the way in. -/
theorem desired_error (h : ¬ ∀ p ∈ enabled, p.name.toList ≠ sshTag) : desired enabled = .error .valueError := by
  refine if_pos (List.any_eq_true.mpr ?_)
  obtain ⟨p, hp, hname⟩ := not_forall₂.mp h
  exact ⟨p, hp, decide_eq_true (not_not.mp hname)⟩

end Maps

/-! ## The calls -/

section Calls

variable {box : Box} {l l' : Log} {α : Type} {args : List Text} {rule name : Text}

/-- The machine with its log. -/
abbrev loggedMachine : ScriptMachine Exc Op Ans (Box × Log) Choice := logged machine

/-- Every choice. -/
abbrev any : Discipline Op (Box × Log) Choice := .any Op _ Choice

theorem allowArgs_ne_status : allowArgs rule name ≠ ["status".toList] := by simp [allowArgs]

theorem deleteArgs_ne_status : deleteArgs rule ≠ ["status".toList] := by simp [deleteArgs]

theorem allowArgs_ne_deleteArgs {rule' : Text} : allowArgs rule name ≠ deleteArgs rule' := by simp [allowArgs, deleteArgs]

/-- Two deletions with the same arguments are of the same rule. -/
theorem deleteArgs_inj {rule' : Text} (h : deleteArgs rule = deleteArgs rule') : rule = rule' := by
  simpa [deleteArgs] using h

/-- Two openings with the same arguments are of the same rule. -/
theorem allowArgs_inj {rule' name' : Text} (h : allowArgs rule name = allowArgs rule' name') : rule = rule' := by
  simp only [allowArgs, List.cons.injEq] at h
  exact h.2.1

/-- A call of `ufw` that changes the firewall. -/
theorem ufw_ends {f : Bool × Text → Cmd α} {Q : α → Box × Log → Prop} {E : Exc → Box × Log → Prop} {D : Box × Log → Prop}
    (hargs : args ≠ ["status".toList]) (hstop : D (box, l))
    (hok : ∀ c out, c.fault = .none → ends loggedMachine any (f (c.ok, out)) Q E D (box, l ++ [(.ufw args, c)]))
    (herror : ∀ c e, E e (box, l ++ [(.ufw args, c)])) : ends loggedMachine any (ufw args >>= f) Q E D (box, l) := by
  unfold ufw
  refine ends_bind.mpr (ends_bind.mpr (ends_logged hstop (fun c hc => ?_) fun c e _ => ?_))
  · have hexec : exec (.ufw args) c box = ((c.ok, c.out), box) := by rw [exec, if_neg hargs]
    rw [hexec]
    exact hok c _ hc
  · have hsame : (withFaults exec Choice.fault (.ufw args) c box).2 = box := by
      rw [withFaults_snd]
      exact ite_self ..
    rw [hsame]
    exact herror c e

/-- A call that goes well. -/
def fine : Choice := {}

/-- What is so of every outcome of a call of `ufw` is so of the one that goes well. -/
theorem ends_ufw {f : Bool × Text → Cmd α} {Q : α → Box × Log → Prop} {E : Exc → Box × Log → Prop} {D : Box × Log → Prop}
    (hargs : args ≠ ["status".toList]) (h : ends loggedMachine any (ufw args >>= f) Q E D (box, l)) :
    ends loggedMachine any (f (true, [])) Q E D (box, l ++ [(.ufw args, fine)]) := by
  have hexec : exec (.ufw args) fine box = ((true, []), box) := by
    rw [exec, if_neg hargs]
    rfl
  have hcall : loggedMachine (.ufw args) fine (box, l) = (.ok (true, []), (box, l ++ [(.ufw args, fine)])) := by
    change (Except.ok (exec (.ufw args) fine box).1, (exec (.ufw args) fine box).2, l ++ [(Op.ufw args, fine)]) = _
    rw [hexec]
  have hbind := ((ends_op _).mp (ends_bind.mp (ends_bind.mp h))).2 fine trivial
  rw [hcall] at hbind
  exact hbind

end Calls

/-! ## The loops -/

section Loops

variable {box : Box} {l : Log} {have_ want items : List (Text × Text)} {byHand actions : List Text}

/-- What the first loop adds to the log: calls that open rules which are wanted and have no tag. -/
def Adding (have_ : List (Text × Text)) (l : Log) (q : Box × Log) : Prop :=
  ∃ added, q.2 = l ++ added ∧ ∀ e ∈ added, ∃ rule name, e.1 = .ufw (allowArgs rule name) ∧ rule ∉ have_.map (·.1)

/-- What is so of every rule of the first loop when it came to its end. -/
def Handled (have_ : List (Text × Text)) (byHand : List Text) (items : List (Text × Text)) (l : Log) : Prop :=
  ∀ e ∈ items, e.1 ∈ have_.map (·.1) ∨ e.1 ∈ byHand ∨ Opens l e.1

/-- A rule that was opened stays so, whatever is called later. -/
theorem Opens.append {rule : Text} (h : Opens l rule) (added : Log) : Opens (l ++ added) rule := by
  obtain ⟨name, c, hmem, hc⟩ := h
  exact ⟨name, c, List.mem_append_left _ hmem, hc⟩

/-- A loop that has not begun has opened nothing. -/
theorem Adding.refl (have_ : List (Text × Text)) (l : Log) : Adding have_ l (box, l) :=
  ⟨[], (List.append_nil l).symm, fun _ he => absurd he List.not_mem_nil⟩

/-- One call more in front. -/
theorem Adding.cons {rule name : Text} {c : Choice} {q : Box × Log} (hrule : rule ∉ have_.map (·.1))
    (h : Adding have_ (l ++ [(.ufw (allowArgs rule name), c)]) q) : Adding have_ l q := by
  obtain ⟨added, hl, hall⟩ := h
  refine ⟨(.ufw (allowArgs rule name), c) :: added, by rw [hl, List.append_assoc]; rfl, fun e he => ?_⟩
  rcases List.mem_cons.mp he with rfl | he
  · exact ⟨rule, name, rfl, hrule⟩
  · exact hall e he

/-- The first loop opens only what is wanted and has no tag, wherever it stops, and every such rule when it ends well. -/
theorem addRules_ends : ends loggedMachine any (addRules have_ byHand false items actions)
    (fun r q => (q.1 = box ∧ Adding have_ l q) ∧ (r.1 = true → Handled have_ byHand items q.2))
    (fun _ q => Adding have_ l q) (fun q => Adding have_ l q) (box, l) := by
  induction items generalizing l actions with
  | nil => exact ⟨⟨rfl, .refl have_ l⟩, fun _ _ he => absurd he List.not_mem_nil⟩
  | cons e items ih =>
    obtain ⟨rule, name⟩ := e
    -- what is left of the loop handles the rest
    have hrest : ∀ {l actions}, rule ∈ have_.map (·.1) ∨ rule ∈ byHand ∨ Opens l rule →
        ends loggedMachine any (addRules have_ byHand false items actions)
          (fun r q => (q.1 = box ∧ Adding have_ l q) ∧ (r.1 = true → Handled have_ byHand ((rule, name) :: items) q.2))
          (fun _ q => Adding have_ l q) (fun q => Adding have_ l q) (box, l) := by
      intro l actions hrule
      refine ends_mono ih (fun r q hq => ⟨hq.1, fun hr e he => ?_⟩) (fun _ _ h => h) fun _ h => h
      rcases List.mem_cons.mp he with rfl | he
      · obtain ⟨added, hl, -⟩ := hq.1.2
        exact hrule.imp_right (Or.imp_right fun hopens => hl ▸ hopens.append added)
      · exact hq.2 hr e he
    unfold addRules
    refine ends_ite (fun hmem => hrest (.inl hmem)) fun hnot => ends_ite (fun hmem => hrest (.inr (.inl hmem))) fun _ => ?_
    refine ends_ite (fun hdry => nomatch hdry) fun _ => ufw_ends allowArgs_ne_status (.refl have_ l) (fun c out hc => ?_)
      fun c e => Adding.cons hnot (.refl have_ _)
    refine ends_ite (fun hok => ?_) fun _ => ⟨⟨rfl, Adding.cons hnot (.refl have_ _)⟩, fun hfalse => nomatch hfalse⟩
    have hopens : Opens (l ++ [(.ufw (allowArgs rule name), c)]) rule :=
      ⟨name, c, List.mem_append_right _ (List.mem_singleton.mpr rfl), hc, hok⟩
    exact ends_mono (hrest (.inr (.inr hopens))) (fun r q hq => ⟨⟨hq.1.1, hq.1.2.cons hnot⟩, hq.2⟩)
      (fun _ _ h => h.cons hnot) fun _ h => h.cons hnot

/-- What the second loop adds to the log: deletions of rules that are tagged, not wanted and not spared. -/
def Deleting (want items : List (Text × Text)) (l : Log) (q : Box × Log) : Prop :=
  ∃ added, q.2 = l ++ added ∧ ∀ e ∈ added, ∃ rule name, e.1 = .ufw (deleteArgs rule) ∧ (rule, name) ∈ items ∧
    rule ∉ want.map (·.1) ∧ name ≠ sshTag ∧ rule ≠ sshRule

/-- A loop that has not begun has deleted nothing. -/
theorem Deleting.refl (want items : List (Text × Text)) (l : Log) : Deleting want items l (box, l) :=
  ⟨[], (List.append_nil l).symm, fun _ he => absurd he List.not_mem_nil⟩

/-- What is so of some items is so with one more. -/
theorem Deleting.weaken {e : Text × Text} {q : Box × Log} (h : Deleting want items l q) : Deleting want (e :: items) l q := by
  obtain ⟨added, hl, hall⟩ := h
  refine ⟨added, hl, fun x hx => ?_⟩
  obtain ⟨rule, name, heq, hmem, hrest⟩ := hall x hx
  exact ⟨rule, name, heq, List.mem_cons_of_mem _ hmem, hrest⟩

/-- A deletion of the first item, and then those of the rest. -/
theorem Deleting.cons {rule name : Text} {c : Choice} {q : Box × Log} (hrule : rule ∉ want.map (·.1)) (hname : name ≠ sshTag)
    (hssh : rule ≠ sshRule) (h : Deleting want items (l ++ [(.ufw (deleteArgs rule), c)]) q) :
    Deleting want ((rule, name) :: items) l q := by
  obtain ⟨added, hl, hall⟩ := h.weaken (e := (rule, name))
  refine ⟨(.ufw (deleteArgs rule), c) :: added, by rw [hl, List.append_assoc]; rfl, fun e he => ?_⟩
  rcases List.mem_cons.mp he with rfl | he
  · exact ⟨rule, name, rfl, List.mem_cons_self .., hrule, hname, hssh⟩
  · exact hall e he

/-- The second loop deletes only what is tagged, not wanted and not spared, wherever it stops. -/
theorem deleteRules_ends : ends loggedMachine any (deleteRules want false items actions)
    (fun _ q => q.1 = box ∧ Deleting want items l q) (fun _ q => Deleting want items l q) (fun q => Deleting want items l q)
    (box, l) := by
  induction items generalizing l actions with
  | nil => exact ⟨rfl, .refl want [] l⟩
  | cons e items ih =>
    obtain ⟨rule, name⟩ := e
    have hrest : ∀ {actions}, ends loggedMachine any (deleteRules want false items actions)
        (fun _ q => q.1 = box ∧ Deleting want ((rule, name) :: items) l q) (fun _ q => Deleting want ((rule, name) :: items) l q)
        (fun q => Deleting want ((rule, name) :: items) l q) (box, l) :=
      ends_mono ih (fun _ _ hq => ⟨hq.1, hq.2.weaken⟩) (fun _ _ hq => hq.weaken) fun _ hq => hq.weaken
    unfold deleteRules
    refine ends_ite (fun _ => hrest) fun hnot => ends_ite (fun _ => hrest) fun hspared => ?_
    obtain ⟨hname, hssh⟩ := not_or.mp hspared
    refine ends_ite (fun hdry => nomatch hdry) fun _ => ufw_ends deleteArgs_ne_status (.refl want _ l) (fun c out hc => ?_)
      fun c e => Deleting.cons hnot hname hssh (.refl want items _)
    refine ends_ite (fun _ => ?_) fun _ => ⟨rfl, Deleting.cons hnot hname hssh (.refl want items _)⟩
    exact ends_mono ih (fun _ _ hq => ⟨hq.1, hq.2.cons hnot hname hssh⟩) (fun _ _ hq => hq.cons hnot hname hssh)
      fun _ hq => hq.cons hnot hname hssh

/-! ### Where every call goes well -/

/-- What is so of every end of the first loop is so of one at which every call went well. -/
theorem ends_addRules {Q : Bool × List Text → Box × Log → Prop} {E : Exc → Box × Log → Prop} {D : Box × Log → Prop}
    (h : ends loggedMachine any (addRules have_ byHand false items actions) Q E D (box, l)) :
    ∃ actions' l', Q (true, actions') (box, l') := by
  induction items generalizing l actions with
  | nil => exact ⟨actions, l, h⟩
  | cons e items ih =>
    obtain ⟨rule, name⟩ := e
    unfold addRules at h
    split at h
    · exact ih h
    · split at h
      · exact ih h
      · exact ih (ends_ufw allowArgs_ne_status h)

/-- What is so of every end of the second loop is so of one at which every deletion that was due was asked for. -/
theorem ends_deleteRules {Q : Bool × List Text → Box × Log → Prop} {E : Exc → Box × Log → Prop} {D : Box × Log → Prop}
    (h : ends loggedMachine any (deleteRules want false items actions) Q E D (box, l)) :
    ∃ actions' l', Q (true, actions') (box, l') ∧ l ⊆ l' ∧ ∀ rule name, (rule, name) ∈ items → rule ∉ want.map (·.1) →
      name ≠ sshTag → rule ≠ sshRule → Deletes l' rule := by
  induction items generalizing l actions with
  | nil => exact ⟨actions, l, h, List.Subset.refl l, fun _ _ hmem => absurd hmem List.not_mem_nil⟩
  | cons e items ih =>
    obtain ⟨rule, name⟩ := e
    -- a turn that deletes nothing is one of a rule that is wanted or spared
    have hrest : ∀ {l actions}, ends loggedMachine any (deleteRules want false items actions) Q E D (box, l) →
        (rule ∉ want.map (·.1) → name ≠ sshTag → rule ≠ sshRule → Deletes l rule) →
        ∃ actions' l', Q (true, actions') (box, l') ∧ l ⊆ l' ∧ ∀ r n, (r, n) ∈ (rule, name) :: items → r ∉ want.map (·.1) →
          n ≠ sshTag → r ≠ sshRule → Deletes l' r := by
      intro l actions h hrule
      obtain ⟨actions', l', hQ, hsub, hall⟩ := ih h
      refine ⟨actions', l', hQ, hsub, fun r n hmem hwant hname hssh => ?_⟩
      rcases List.mem_cons.mp hmem with heq | hmem
      · cases heq
        obtain ⟨c, hc⟩ := hrule hwant hname hssh
        exact ⟨c, hsub hc⟩
      · exact hall r n hmem hwant hname hssh
    unfold deleteRules at h
    split at h
    · rename_i hwant
      exact hrest h fun hnot => absurd hwant hnot
    · split at h
      · rename_i hspared
        exact hrest h fun _ hname hssh => absurd hspared (not_or.mpr ⟨hname, hssh⟩)
      · obtain ⟨actions', l', hQ, hsub, hall⟩ := hrest (ends_ufw deleteArgs_ne_status h) fun _ _ _ =>
          ⟨fine, List.mem_append_right _ (List.mem_singleton.mpr rfl)⟩
        exact ⟨actions', l', hQ, fun e he => hsub (List.mem_append_left _ he), hall⟩

end Loops

/-! ## The whole step -/

section Whole

variable {box : Box} {enabled : List Protocol} {l l₀ l₁ l₂ : Log} {have_ want items : List (Text × Text)} {rule : Text}
  {α : Type}

/-- The look for `ufw` finds what is installed, or fails. -/
theorem available_ends {f : Bool → Cmd α} {Q : α → Box × Log → Prop} {E : Exc → Box × Log → Prop} {D : Box × Log → Prop}
    (hstop : D (box, l)) (hok : ∀ c, ends loggedMachine any (f box.installed) Q E D (box, l ++ [(.which, c)]))
    (herror : ∀ c e, E e (box, l ++ [(.which, c)])) : ends loggedMachine any (available >>= f) Q E D (box, l) := by
  refine ends_bind.mpr (ends_logged hstop (fun c _ => hok c) fun c e _ => ?_)
  have hsame : (withFaults exec Choice.fault .which c box).2 = box := by
    rw [withFaults_snd]
    exact ite_self ..
  rw [hsame]
  exact herror c e

/-- What is so of every outcome of the look is so where it goes well. -/
theorem ends_available {f : Bool → Cmd α} {Q : α → Box × Log → Prop} {E : Exc → Box × Log → Prop} {D : Box × Log → Prop}
    (h : ends loggedMachine any (available >>= f) Q E D (box, l)) :
    ends loggedMachine any (f box.installed) Q E D (box, l ++ [(.which, fine)]) :=
  ((ends_op _).mp (ends_bind.mp h)).2 fine trivial

/-- The one read of `ufw status`. -/
theorem statusLines_ends {f : List Text → Cmd α} {Q : α → Box × Log → Prop} {E : Exc → Box × Log → Prop}
    {D : Box × Log → Prop} (hstop : D (box, l))
    (hok : ∀ c, ends loggedMachine any (f box.lines) Q E D (box, l ++ [(.ufw ["status"], c)]))
    (herror : ∀ c e, E e (box, l ++ [(.ufw ["status"], c)])) :
    ends loggedMachine any (statusLines >>= f) Q E D (box, l) := by
  unfold statusLines ufw
  refine ends_bind.mpr (ends_bind.mpr (ends_bind.mpr (ends_logged hstop (fun c _ => hok c) fun c e _ => ?_)))
  have hsame : (withFaults exec Choice.fault (.ufw ["status"]) c box).2 = box := by
    rw [withFaults_snd]
    exact ite_self ..
  rw [hsame]
  exact herror c e

/-- What is so of every outcome of `ufw status` is so where it prints its lines. -/
theorem ends_statusLines {f : List Text → Cmd α} {Q : α → Box × Log → Prop} {E : Exc → Box × Log → Prop}
    {D : Box × Log → Prop} (h : ends loggedMachine any (statusLines >>= f) Q E D (box, l)) :
    ends loggedMachine any (f box.lines) Q E D (box, l ++ [(.ufw ["status"], fine)]) := by
  have hbind := ((ends_op _).mp (ends_bind.mp (ends_bind.mp (ends_bind.mp h)))).2 fine trivial
  exact hbind

/-- The calls that only read. -/
def Reads (l : Log) : Prop := ∀ e ∈ l, e.1 = .which ∨ e.1 = .ufw ["status"]

/-- One more call that only reads makes a longer log of such calls. -/
theorem Reads.concat {e : Op × Choice} (h : Reads l) (he : e.1 = .which ∨ e.1 = .ufw ["status"]) : Reads (l ++ [e]) := by
  intro x hx
  rcases List.mem_append.mp hx with hx | hx
  · exact h x hx
  · obtain rfl := List.mem_singleton.mp hx
    exact he

/-- Nothing was deleted by calls that only read. -/
theorem Reads.not_deletes (h : Reads l) : ¬ Deletes l rule := by
  rintro ⟨c, hc⟩
  rcases h _ hc with heq | heq
  · cases heq
  · exact deleteArgs_ne_status (Op.ufw.inj heq)

/-- Nothing was opened by calls that only read. -/
theorem Reads.not_opens (h : Reads l) : ¬ Opens l rule := by
  rintro ⟨name, c, hc, -⟩
  rcases h _ hc with heq | heq
  · cases heq
  · exact allowArgs_ne_status (Op.ufw.inj heq)

/-- The first loop deletes no rule. -/
theorem Adding.not_deletes (h : Adding have_ l₀ (box, l₁)) (hl₀ : Reads l₀) : ¬ Deletes l₁ rule := by
  rintro ⟨c, hc⟩
  obtain ⟨added, hl, hall⟩ := h
  rw [show l₁ = l₀ ++ added from hl] at hc
  rcases List.mem_append.mp hc with hc | hc
  · exact hl₀.not_deletes ⟨c, hc⟩
  · obtain ⟨rule', name, heq, -⟩ := hall _ hc
    exact allowArgs_ne_deleteArgs (Op.ufw.inj heq).symm

/-- The first loop does not open a rule that has a tag. -/
theorem Adding.not_opens (h : Adding have_ l₀ (box, l₁)) (hl₀ : Reads l₀) (hrule : rule ∈ have_.map (·.1)) :
    ¬ Opens l₁ rule := by
  rintro ⟨name, c, hc, hfine⟩
  obtain ⟨added, hl, hall⟩ := h
  rw [show l₁ = l₀ ++ added from hl] at hc
  rcases List.mem_append.mp hc with hc | hc
  · exact hl₀.not_opens ⟨name, c, hc, hfine⟩
  · obtain ⟨rule', name', heq, hnot⟩ := hall _ hc
    exact hnot (allowArgs_inj (Op.ufw.inj heq) ▸ hrule)

/-- A rule the second loop deletes is tagged, not wanted, and not the way in. -/
theorem Deleting.deletes (h : Deleting want items l₁ (box, l₂)) (hl₁ : ¬ Deletes l₁ rule) (hrule : Deletes l₂ rule) :
    ∃ name, (rule, name) ∈ items ∧ rule ∉ want.map (·.1) ∧ name ≠ sshTag ∧ rule ≠ sshRule := by
  obtain ⟨c, hc⟩ := hrule
  obtain ⟨added, hl, hall⟩ := h
  rw [show l₂ = l₁ ++ added from hl] at hc
  rcases List.mem_append.mp hc with hc | hc
  · exact absurd ⟨c, hc⟩ hl₁
  · obtain ⟨rule', name, heq, hrest⟩ := hall _ hc
    rw [deleteArgs_inj (Op.ufw.inj heq)]
    exact ⟨name, hrest⟩

/-- The second loop opens no rule. -/
theorem Deleting.opens (h : Deleting want items l₁ (box, l₂)) (hrule : Opens l₂ rule) : Opens l₁ rule := by
  obtain ⟨name, c, hc, hfine⟩ := hrule
  obtain ⟨added, hl, hall⟩ := h
  rw [show l₂ = l₁ ++ added from hl] at hc
  rcases List.mem_append.mp hc with hc | hc
  · exact ⟨name, c, hc, hfine⟩
  · obtain ⟨rule', name', heq, -⟩ := hall _ hc
    exact absurd (Op.ufw.inj heq) allowArgs_ne_deleteArgs

/-- A run that deletes nothing is safe. -/
theorem safe_of_not_deletes {lines : List Text} (h : ∀ rule, ¬ Deletes l rule) : Safe lines enabled l :=
  fun rule hrule => absurd hrule (h rule)

/-- Where the lines agree, what the second loop deletes may be deleted. -/
theorem Agreeing.safe {lines : List Text} (h : Agreeing lines enabled) (hwant : desired enabled = .ok want)
    (hl₁ : ∀ rule, ¬ Deletes l₁ rule) (hdeleting : Deleting want (sortedItems (tagged lines)) l₁ (box, l₂)) :
    Safe lines enabled l₂ := by
  intro rule hrule
  obtain ⟨name, hmem, hnot, hname, hssh⟩ := hdeleting.deletes (hl₁ rule) hrule
  have hmem := mem_sortedItems.mp hmem
  have hunwanted : ¬ Wanted enabled rule := fun hw => hnot ((mem_keys_desired hwant).mpr hw)
  obtain ⟨htag, hhand⟩ := h.guarded rule name hmem hunwanted hname hssh
  exact ⟨hssh, htag, hhand, tagged_of_mem hmem, hunwanted⟩

/-- Where the lines agree, every wanted rule is open when both loops are through. -/
theorem Agreeing.is_served {lines : List Text} (h : Agreeing lines enabled) (hwant : desired enabled = .ok want)
    (hhandled : Handled (tagged lines) (untagged lines) (sortedItems want) l₁) (hl₁ : ∀ rule, ¬ Deletes l₁ rule)
    (hdeleting : Deleting want (sortedItems (tagged lines)) l₁ (box, l₂)) : Served lines enabled l₂ := by
  intro rule hrule
  have hkey : rule ∈ want.map (·.1) := (mem_keys_desired hwant).mpr hrule
  constructor
  · obtain ⟨e, he, rfl⟩ := List.mem_map.mp hkey
    rcases hhandled e (mem_sortedItems.mpr he) with hhave | hhand | hopens
    · obtain ⟨name, htagged⟩ := mem_keys_tagged.mp hhave
      exact .inl (h.served e.1 name htagged hrule)
    · exact .inl (mem_untagged.mp hhand).anywhere
    · obtain ⟨added, hl, -⟩ := hdeleting
      rw [show l₂ = l₁ ++ added from hl]
      exact .inr (hopens.append added)
  · intro hdeletes
    obtain ⟨-, -, hnot, -⟩ := hdeleting.deletes (hl₁ rule) hdeletes
    exact hnot hkey

/-- What is claimed of a run: its deletions are safe, and when it returned ok what is wanted is served. -/
def Right (box : Box) (enabled : List Protocol) (r : Option (Except Exc (Bool × List Text))) (l : Log) : Prop :=
  Safe box.lines enabled l ∧
    ((∃ actions, r = some (.ok (true, actions))) → box.installed = true → Served box.lines enabled l)

/-- What is claimed, as a specification. -/
abbrev Specified (box : Box) (enabled : List Protocol) : Prop :=
  ends loggedMachine any (reconcile enabled false)
    (fun r q => Safe box.lines enabled q.2 ∧ (r.1 = true → box.installed = true → Served box.lines enabled q.2))
    (fun _ q => Safe box.lines enabled q.2) (fun q => Safe box.lines enabled q.2) (box, [])

/-- What is specified of a reconcile is so of each of its runs. -/
theorem right_of_specified (h : Specified box enabled) (cs : List Choice) :
    Right box enabled ((reconcile enabled false).run machine cs box).1 ((reconcile enabled false).trace machine cs box) := by
  have hends := ends_run_any h cs
  have hlogged := run_logged (m := machine) (reconcile enabled false) cs box []
  rw [Script.run, hlogged, List.nil_append] at hends
  change Right box enabled (run machine (reconcile enabled false) cs box).1 _
  cases hr : (run machine (reconcile enabled false) cs box).1 with
  | none =>
    rw [hr] at hends
    exact ⟨hends, fun ⟨_, heq⟩ => nomatch heq⟩
  | some r =>
    rw [hr] at hends
    cases r with
    | ok r =>
      refine ⟨hends.1, fun ⟨actions, heq⟩ => hends.2 ?_⟩
      cases heq
      rfl
    | error e => exact ⟨hends, fun ⟨_, heq⟩ => nomatch heq⟩

/-- What is so of each of its runs is specified of a reconcile. -/
theorem specified_of_right (h : ∀ cs, Right box enabled ((reconcile enabled false).run machine cs box).1
    ((reconcile enabled false).trace machine cs box)) : Specified box enabled := by
  refine wp_of_runs fun cs _ => ?_
  have hright := h cs
  change Right box enabled (run machine (reconcile enabled false) cs box).1 (trace machine (reconcile enabled false) cs box)
    at hright
  have hlogged := run_logged (m := machine) (reconcile enabled false) cs box []
  rw [show run loggedMachine (reconcile enabled false) cs (box, []) = _ from hlogged, List.nil_append]
  cases hr : (run machine (reconcile enabled false) cs box).1 with
  | none => exact hright.1
  | some r =>
    rw [hr] at hright
    cases r with
    | ok r =>
      refine ⟨hright.1, fun htrue => hright.2 ⟨r.2, ?_⟩⟩
      rw [← htrue]
    | error e => exact hright.1

/-- A reconcile meets its specification where the lines agree, if it comes to read them at all. -/
theorem specified_of_agreeing
    (h : box.installed = true → (∀ p ∈ enabled, p.name.toList ≠ sshTag) → Agreeing box.lines enabled) :
    Specified box enabled := by
  have hnil : Reads [] := fun _ he => absurd he List.not_mem_nil
  have hsafe : ∀ {l}, Reads l → Safe box.lines enabled l := fun hl => safe_of_not_deletes fun _ => hl.not_deletes
  unfold Specified reconcile
  refine available_ends (hsafe hnil) (fun c => ?_) fun c e => hsafe (hnil.concat (.inl rfl))
  have hl := hnil.concat (e := (.which, c)) (.inl rfl)
  refine ends_ite (fun hinstalled => ends_bind.mpr ((ends_lift _).mpr ?_)) fun hnot => ⟨hsafe hl, fun _ hyes => absurd hyes hnot⟩
  by_cases hssh : ∀ p ∈ enabled, p.name.toList ≠ sshTag
  · have hagree := h hinstalled hssh
    obtain ⟨want, hwant⟩ := desired_ok hssh
    rw [hwant]
    refine statusLines_ends (hsafe hl) (fun c' => ?_) fun c' e => hsafe (hl.concat (.inr rfl))
    have hl := hl.concat (e := (.ufw ["status"], c')) (.inr rfl)
    refine ends_bind.mpr (ends_mono addRules_ends (fun r q hq => ?_)
      (fun _ q hq => safe_of_not_deletes fun _ => hq.not_deletes hl) fun q hq => safe_of_not_deletes fun _ => hq.not_deletes hl)
    obtain ⟨ok, actions⟩ := r
    obtain ⟨box', l₁⟩ := q
    obtain ⟨⟨rfl, hadding⟩, hhandled⟩ := hq
    have hl₁ : ∀ rule, ¬ Deletes l₁ rule := fun _ => hadding.not_deletes hl
    refine ends_ite (fun hok => ends_bind.mpr ?_) fun _ => ⟨safe_of_not_deletes hl₁, fun hfalse => nomatch hfalse⟩
    refine ends_mono deleteRules_ends (fun r q hq => ?_) (fun _ q hq => hagree.safe hwant hl₁ hq)
      fun q hq => hagree.safe hwant hl₁ hq
    have hend : Safe box'.lines enabled q.2 ∧ Served box'.lines enabled q.2 :=
      ⟨hagree.safe hwant hl₁ hq.2, hagree.is_served hwant (hhandled hok) hl₁ hq.2⟩
    exact ends_ite (fun _ => ⟨hend.1, fun _ _ => hend.2⟩) fun _ => ⟨hend.1, fun _ _ => hend.2⟩
  · rw [desired_error hssh]
    exact hsafe hl

/-- A reconcile that meets its specification and comes to read the lines finds them agreeing. -/
theorem agreeing_of_specified (h : Specified box enabled) (hinstalled : box.installed = true)
    (hssh : ∀ p ∈ enabled, p.name.toList ≠ sshTag) : Agreeing box.lines enabled := by
  have hl : Reads [(.which, fine), (.ufw ["status"], fine)] := by
    intro e he
    rcases List.mem_pair.mp he with rfl | rfl
    · exact .inl rfl
    · exact .inr rfl
  obtain ⟨want, hwant⟩ := desired_ok hssh
  have hends := ends_available h
  rw [hinstalled, if_pos rfl] at hends
  have hends := (ends_lift _).mp (ends_bind.mp hends)
  rw [hwant] at hends
  have hends := ends_statusLines hends
  -- every call of both loops goes well
  obtain ⟨actions, l₁, hends, ⟨-, hadding⟩, -⟩ := ends_addRules (ends_and (ends_bind.mp hends) addRules_ends)
  obtain ⟨actions', l₂, ⟨hends, -, hdeleting⟩, -, hdeletes⟩ := ends_deleteRules (ends_and (ends_bind.mp hends) deleteRules_ends)
  obtain ⟨hsafe, hserved⟩ := hends
  refine ⟨fun rule name hmem hunwanted hname hrule => ?_, fun rule name htagged hwanted => ?_⟩
  · have hnot : rule ∉ want.map (·.1) := fun hkey => hunwanted ((mem_keys_desired hwant).mp hkey)
    obtain ⟨-, htag, hhand, -⟩ := hsafe rule (hdeletes rule name (mem_sortedItems.mpr hmem) hnot hname hrule)
    exact ⟨htag, hhand⟩
  · refine (hserved rfl rfl rule hwanted).1.resolve_right fun hopens => ?_
    exact hadding.not_opens hl (mem_keys_tagged.mpr ⟨name, htagged⟩) (hdeleting.opens hopens)

/-- Whatever `ufw` answers, a reconcile deletes nothing it must not and serves what it reports as served, exactly where the
lines of one rule agree. -/
theorem reconcile_right_iff (box : Box) (enabled : List Protocol) :
    (∀ cs, Right box enabled ((reconcile enabled false).run machine cs box).1
        ((reconcile enabled false).trace machine cs box)) ↔
      (box.installed = true → (∀ p ∈ enabled, p.name.toList ≠ sshTag) → Agreeing box.lines enabled) :=
  ⟨fun h => agreeing_of_specified (specified_of_right h), fun h => right_of_specified (specified_of_agreeing h)⟩

end Whole

/-- A server whose sshd is on port 2222. Somebody has tagged a second rule for the port, for one network only. -/
def movedBox : Box where
  installed := true
  status := (true, Text.unlines '\n' ["2222/tcp ALLOW Anywhere # vpn-stack:ssh", "2222/tcp ALLOW 10.0.0.0/8 # vpn-stack:old"])

/-- The way in is deleted. -/
theorem reconcile_right_moved : ¬ ∀ (box : Box) (enabled : List Protocol) (cs : List Choice),
    Right box enabled ((reconcile enabled false).run machine cs box).1 ((reconcile enabled false).trace machine cs box) := by
  intro h
  have hdeletes : Deletes ((reconcile [] false).trace machine (List.replicate 3 fine) movedBox) "2222/tcp" :=
    ⟨fine, by decide +kernel⟩
  have htagged : Tagged movedBox.lines "2222/tcp" sshTag :=
    ⟨"2222/tcp ALLOW Anywhere # vpn-stack:ssh", by decide +kernel, by decide +kernel⟩
  exact ((h movedBox [] (List.replicate 3 fine)).1 _ hdeletes).2.1 htagged

end Ufw

end VpnStack

import VpnStack.Effects

/-!
# The live tree

`apply` never writes into the live tree: it makes a candidate beside it, points the link at it in one step, and deletes a
candidate that was not promoted. Which candidates those are it knows from a flag that it sets in a statement of its own, so
an interrupt between the two makes it delete the tree that has just become live. Everywhere else it may be interrupted or
killed.
-/

namespace VpnStack

open Python Interaction

namespace Promote

/-- The calls of an apply up to some point, each with the choice it met. -/
abbrev Log := List (Op × Choice)

/-! ## What is claimed -/

/-- The link was never made, or it points to a complete tree. -/
def Intact (w : World) : Prop := ∀ g, w.link = some g → ∃ x, w.gen g = some x ∧ x.Complete

/-- The link was never made, or it points to a complete tree that is there. A link that was made does not disappear. -/
def Sound (w w' : World) : Prop :=
  (w.link = none ∧ w'.link = none) ∨ ∃ g x, w'.link = some g ∧ w'.gen g = some x ∧ x.Complete

/-- The link, the live tree and state.json are as before. -/
def Untouched (w w' : World) : Prop := w'.link = w.link ∧ w'.live = w.live ∧ w'.state = w.state

/-- The link was replaced. -/
def Replaced (l : Log) : Prop := ∃ c, (.replaceLink, c) ∈ l ∧ c.fault.isBefore = false

/-- The command was interrupted between the replacement of the link and the assignment of the flag. -/
def Caught (l : Log) : Prop :=
  ∃ c, ((.replaceLink, c) ∈ l ∧ c.fault.isAfter = true) ∨ ((.setPromoted true, c) ∈ l ∧ c.fault.isBefore = true)

/-- The clean-up took something of the tree away. -/
def Cleared (tree : Tree) (l : Log) : Prop :=
  ∃ g c, (.rmtreeIgnoringErrors g, c) ∈ l ∧ c.fault.isBefore = false ∧ (c.ok = true ∨ ∃ f ∈ tree, c.keep f.1 = false)

/-- The command was interrupted where the flag does not yet say that the candidate is live, and its clean-up took the
candidate away. -/
def Slipped (l : Log) : Prop := Caught l ∧ ∃ tree c, (.mkdtemp tree, c) ∈ l ∧ Cleared tree l

/-! ## The calls that count -/

/-- The calls these conditions speak of. -/
inductive Marks : Op → Prop
  | mkdtemp (tree : Tree) : Marks (.mkdtemp tree)
  | replaceLink : Marks .replaceLink
  | setPromoted : Marks (.setPromoted true)
  | rmtree (g : Gen) : Marks (.rmtreeIgnoringErrors g)

/-- A call that does not count is none of those that do. -/
theorem mem_append_unmarked {o o' : Op} {c c' : Choice} {l : Log} (hm : Marks o') (ho : ¬ Marks o) :
    (o', c') ∈ l ++ [(o, c)] ↔ (o', c') ∈ l := by
  rw [List.mem_append, List.mem_singleton]
  refine or_iff_left fun h => ho ?_
  cases h
  exact hm

section Unmarked

variable {o : Op} {c : Choice} {l : Log}

theorem replaced_append (h : ¬ Marks o) : Replaced (l ++ [(o, c)]) ↔ Replaced l := by
  simp only [Replaced, mem_append_unmarked .replaceLink h]

theorem caught_append (h : ¬ Marks o) : Caught (l ++ [(o, c)]) ↔ Caught l := by
  simp only [Caught, mem_append_unmarked .replaceLink h, mem_append_unmarked .setPromoted h]

theorem slipped_append (h : ¬ Marks o) : Slipped (l ++ [(o, c)]) ↔ Slipped l := by
  simp only [Slipped, Cleared, caught_append h, mem_append_unmarked (.mkdtemp _) h, mem_append_unmarked (.rmtree _) h]

/-- A call that is on neither the trees nor the link nor the flag does not count. -/
theorem not_marks_of_part (h : o.part ≠ .trees) (h' : o.part ≠ .link) (h'' : o.part ≠ .promoted) : ¬ Marks o := by
  rintro (_ | _ | _ | _)
  · exact h rfl
  · exact h' rfl
  · exact h'' rfl
  · exact h rfl

end Unmarked

/-! ## Before the link is replaced -/

/-- The link has not been replaced. -/
structure Kept (w : World) (p : World × Log) : Prop where
  link : p.1.link = w.link
  state : p.1.state = w.state
  tree : ∀ g, w.link = some g → p.1.gen g = w.gen g
  early : ∀ e ∈ p.2, (e.1 = .replaceLink → e.2.fault.isBefore = true) ∧ e.1 ≠ .setPromoted true

/-- What is claimed of every point of an apply. -/
def Verdict (w : World) (p : World × Log) : Prop :=
  (Slipped p.2 ↔ ¬ Sound w p.1) ∧ (¬ Replaced p.2 → Untouched w p.1)

namespace Kept

variable {host : Host} {w : World} {p : World × Log}

/-- In front of the replacement of the link everything is as before. -/
theorem verdict (hw : Intact w) (h : Kept w p) : Verdict w p := by
  have hslipped : ¬ Slipped p.2 := by
    rintro ⟨⟨c, ⟨hmem, hc⟩ | ⟨hmem, -⟩⟩, -⟩
    · have := (h.early _ hmem).1 rfl
      cases hf : c.fault <;> simp [hf, Fault.isAfter, Fault.isBefore] at hc this
    · exact (h.early _ hmem).2 rfl
  have hsound : Sound w p.1 := by
    cases hl : w.link with
    | none => exact .inl ⟨hl, h.link.trans hl⟩
    | some g =>
      obtain ⟨x, hx, hcomplete⟩ := hw g hl
      exact .inr ⟨g, x, h.link.trans hl, (h.tree g hl).trans hx, hcomplete⟩
  refine ⟨⟨fun hs => absurd hs hslipped, fun hn => absurd hsound hn⟩, fun _ => ⟨h.link, ?_, h.state⟩⟩
  unfold World.live
  rw [h.link]
  cases hl : w.link with
  | none => rfl
  | some g => rw [Option.bind_some, Option.bind_some, h.tree g hl]

/-- A call that leaves the link, the state file and the live tree alone. -/
theorem step {w' : World} {l : Log} {o : Op} {c : Choice} (h : Kept w (w', l)) (ho : o ≠ .replaceLink)
    (ho' : o ≠ .setPromoted true) (hlink : (exec host o c w').2.link = w'.link) (hstate : o.part ≠ .state)
    (htree : ∀ g, w.link = some g → (exec host o c w').2.gen g = w'.gen g) :
    Kept w ((server host o c w').2, l ++ [(o, c)]) := by
  have hearly : ∀ e ∈ l ++ [(o, c)], (e.1 = .replaceLink → e.2.fault.isBefore = true) ∧ e.1 ≠ .setPromoted true := by
    intro e he
    rcases List.mem_append.mp he with he | he
    · exact h.early e he
    · obtain rfl := List.mem_singleton.mp he
      exact ⟨fun heq => absurd heq ho, ho'⟩
  rw [server, withFaults_snd]
  cases c.fault.isBefore with
  | true => exact ⟨h.link, h.state, h.tree, hearly⟩
  | false => exact ⟨hlink.trans h.link, (exec_state hstate).trans h.state, fun g hg => (htree g hg).trans (h.tree g hg), hearly⟩

/-- A call that changes nothing leaves everything as before. -/
theorem step_nothing {w' : World} {l : Log} {o : Op} {c : Choice} (h : Kept w (w', l)) (ho : o.part = .nothing) :
    Kept w ((server host o c w').2, l ++ [(o, c)]) := by
  refine h.step ?_ ?_ (exec_link ?_) ?_ fun g _ => ?_
  · rintro rfl; cases ho
  · rintro rfl; cases ho
  · rw [ho]; decide
  · rw [ho]; decide
  · rw [exec_nothing ho]

end Kept

/-- The frame rule on the logged machine. -/
theorem keeps_logged {host : Host} {parts : List Part} {α : Type} {p : Cmd α} (hp : Touches parts p) {I : World × Log → Prop}
    {w : World} {l : Log}
    (hI : ∀ o, o.part ∈ parts → ∀ c w l, I (w, l) → I ((server host o c w).2, l ++ [(o, c)])) (hw : I (w, l)) :
    ends (logged (server host)) (.any Op _ Choice) p (fun _ => I) (fun _ => I) I (w, l) :=
  ends_of_uses hp (fun o ho c p _ hp => hI o ho c p.1 p.2 hp) hw

/-! ## The candidate -/

/-- The log up to the clean-up: the one directory that was made is for this tree, and none was removed. -/
structure MadeFor (tree : Tree) (l : Log) : Prop where
  made : ∃ c, (.mkdtemp tree, c) ∈ l
  only : ∀ t c, (.mkdtemp t, c) ∈ l → t = tree
  none_removed : ∀ g c, (.rmtreeIgnoringErrors g, c) ∉ l

/-- A call that neither makes nor removes a directory. -/
theorem MadeFor.append {tree : Tree} {l : Log} {o : Op} {c : Choice} (h : MadeFor tree l) (hmk : ∀ t, o ≠ .mkdtemp t)
    (hrm : ∀ g, o ≠ .rmtreeIgnoringErrors g) : MadeFor tree (l ++ [(o, c)]) := by
  refine ⟨?_, fun t c' ht => ?_, fun g c' hg => ?_⟩
  · obtain ⟨c', hc'⟩ := h.made
    exact ⟨c', List.mem_append_left _ hc'⟩
  · rcases List.mem_append.mp ht with ht | ht
    · exact h.only t c' ht
    · cases List.mem_singleton.mp ht
      exact absurd rfl (hmk t)
  · rcases List.mem_append.mp hg with hg | hg
    · exact h.none_removed g c' hg
    · cases List.mem_singleton.mp hg
      exact absurd rfl (hrm g)

/-- Up to the clean-up no command has slipped. -/
theorem MadeFor.not_slipped {tree : Tree} {l : Log} (h : MadeFor tree l) : ¬ Slipped l := by
  rintro ⟨-, t, c, -, g, c', hg, -⟩
  exact h.none_removed g c' hg

/-- The candidate is being written: `rest` is what is still to come. -/
structure Written (w : World) (cand : Gen) (tree rest : Tree) (p : World × Log) : Prop where
  kept : Kept w p
  other : w.link ≠ some cand
  gen : ∃ files, p.1.gen cand = some ⟨tree, files⟩ ∧ files ++ rest = tree
  log : MadeFor tree p.2

/-- The link points at the candidate, and nothing was cleaned up yet. -/
structure Swapped (cand : Gen) (tree : Tree) (p : World × Log) : Prop where
  link : p.1.link = some cand
  gen : p.1.gen cand = some ⟨tree, tree⟩
  replaced : Replaced p.2
  log : MadeFor tree p.2

/-- The link points at the candidate, which is whole unless it was cleaned up. -/
structure Settled (cand : Gen) (tree : Tree) (p : World × Log) : Prop where
  link : p.1.link = some cand
  replaced : Replaced p.2
  whole : (p.1.gen cand = some ⟨tree, tree⟩ ∧ ¬ Slipped p.2) ∨
    ((∀ x, p.1.gen cand = some x → ¬ x.Complete) ∧ Slipped p.2)

section Candidate

variable {host : Host} {w : World} {cand : Gen} {tree rest : Tree}

theorem Swapped.settled {p : World × Log} (h : Swapped cand tree p) : Settled cand tree p :=
  ⟨h.link, h.replaced, .inl ⟨h.gen, h.log.not_slipped⟩⟩

/-- Behind the replacement the candidate is whole unless the command slips. -/
theorem Settled.verdict {p : World × Log} (h : Settled cand tree p) : Verdict w p := by
  refine ⟨?_, fun hn => absurd h.replaced hn⟩
  rcases h.whole with ⟨hgen, hslipped⟩ | ⟨hgen, hslipped⟩
  · exact ⟨fun hs => absurd hs hslipped, fun hn => absurd (.inr ⟨cand, _, h.link, hgen, rfl⟩) hn⟩
  · refine ⟨fun _ hsound => ?_, fun _ => hslipped⟩
    rcases hsound with ⟨-, hnone⟩ | ⟨g, x, hg, hx, hcomplete⟩
    · rw [h.link] at hnone
      cases hnone
    · obtain rfl := Option.some.inj (h.link.symm.trans hg)
      exact hgen x hx hcomplete

/-- A call that touches neither the link nor the trees leaves a candidate as it is. -/
theorem Written.step {w' : World} {l : Log} {o : Op} {c : Choice} (h : Written w cand tree rest (w', l))
    (hlink : (exec host o c w').2.link = w'.link) (htrees : o.part ≠ .trees) (hstate : o.part ≠ .state) (ho : o ≠ .replaceLink)
    (ho' : o ≠ .setPromoted true) : Written w cand tree rest ((server host o c w').2, l ++ [(o, c)]) := by
  have hgen : ∀ g, (exec host o c w').2.gen g = w'.gen g := fun g => congrArg (List.lookup g) (exec_gens htrees)
  refine ⟨h.kept.step ho ho' hlink hstate fun g _ => hgen g, h.other, ?_,
    h.log.append (fun t ht => htrees (by rw [ht]; rfl)) (fun g hg => htrees (by rw [hg]; rfl))⟩
  obtain ⟨files, hfiles, hrest⟩ := h.gen
  refine ⟨files, ?_, hrest⟩
  rw [server, withFaults_snd]
  cases c.fault.isBefore with
  | true => exact hfiles
  | false => exact (hgen cand).trans hfiles

/-- One more file is written, or none when the write was interrupted. -/
theorem Written.write {w' : World} {l : Log} {f : Text × Bytes} {c : Choice} (h : Written w cand tree (f :: rest) (w', l)) :
    Kept w ((server host (.writeFile cand f.1 f.2) c w').2, l ++ [(.writeFile cand f.1 f.2, c)]) ∧
      Written w cand tree rest ((exec host (.writeFile cand f.1 f.2) c w').2, l ++ [(.writeFile cand f.1 f.2, c)]) := by
  have hgen : ∀ g, (exec host (.writeFile cand f.1 f.2) c w').2.gen g =
      if g = cand then (w'.gen g).map fun x => { x with files := x.files ++ [(f.1, f.2)] } else w'.gen g := fun g =>
    World.gen_setGen w' cand g _
  have hlive : ∀ g, w.link = some g → (exec host (.writeFile cand f.1 f.2) c w').2.gen g = w'.gen g := by
    intro g hg
    rw [hgen, if_neg]
    rintro rfl
    exact h.other hg
  have hkept : Kept w ((server host (.writeFile cand f.1 f.2) c w').2, l ++ [(.writeFile cand f.1 f.2, c)]) :=
    h.kept.step nofun nofun rfl (by simp [Op.part]) hlive
  refine ⟨hkept, ⟨h.kept.link, h.kept.state, fun g hg => (hlive g hg).trans (h.kept.tree g hg), hkept.early⟩, h.other, ?_,
    h.log.append nofun nofun⟩
  obtain ⟨files, hfiles, hrest⟩ := h.gen
  refine ⟨files ++ [(f.1, f.2)], ?_, by rw [← hrest]; simp⟩
  rw [hgen, if_pos rfl, hfiles, Option.map_some]

/-- A call that touches neither the link nor the trees nor the flag leaves what is settled as it is. -/
theorem Settled.step {w' : World} {l : Log} {o : Op} {c : Choice} (h : Settled cand tree (w', l))
    (hlink : (exec host o c w').2.link = w'.link) (hgen : (exec host o c w').2.gen cand = w'.gen cand) (hm : ¬ Marks o) :
    Settled cand tree ((server host o c w').2, l ++ [(o, c)]) := by
  refine ⟨?_, (replaced_append hm).mpr h.replaced, ?_⟩
  · rw [server, withFaults_snd]
    cases c.fault.isBefore with
    | true => exact h.link
    | false => exact hlink.trans h.link
  · rw [slipped_append hm, server, withFaults_snd]
    cases c.fault.isBefore with
    | true => exact h.whole
    | false =>
      have hwhole := h.whole
      rw [← hgen] at hwhole
      exact hwhole

/-- A call that touches neither the link nor the trees leaves the swap as it is. -/
theorem Swapped.step {w' : World} {l : Log} {o : Op} {c : Choice} (h : Swapped cand tree (w', l))
    (hlink : o.part ≠ .link) (htrees : o.part ≠ .trees) : Swapped cand tree ((server host o c w').2, l ++ [(o, c)]) := by
  have hgen : (exec host o c w').2.gen cand = w'.gen cand := congrArg (List.lookup cand) (exec_gens htrees)
  refine ⟨?_, ?_, ?_, h.log.append (fun t ht => htrees (by rw [ht]; rfl)) (fun g hg => htrees (by rw [hg]; rfl))⟩
  · rw [server, withFaults_snd]
    cases c.fault.isBefore with
    | true => exact h.link
    | false => exact (exec_link hlink).trans h.link
  · rw [server, withFaults_snd]
    cases c.fault.isBefore with
    | true => exact h.gen
    | false => exact hgen.trans h.gen
  · obtain ⟨c', hmem, hc'⟩ := h.replaced
    exact ⟨c', List.mem_append_left _ hmem, hc'⟩

end Candidate

/-! ## The parts of `apply` -/

section Specs

variable {host : Host} {w : World} {cand : Gen} {tree : Tree}

/-- Any run, with its log. -/
abbrev any : Discipline Op (World × Log) Choice := .any Op _ Choice

/-- The machine that keeps a log. -/
abbrev loggedServer (host : Host) : ScriptMachine Exc Op Ans (World × Log) Choice := logged (server host)

/-- A directory that has just been made is not the live one. -/
theorem kept_mkdtemp {w' : World} {l : Log} {c : Choice} (hw : Intact w) (h : Kept w (w', l)) :
    w.link ≠ some (w'.freshGen c.gen) ∧ Kept w ((server host (.mkdtemp tree) c w').2, l ++ [(.mkdtemp tree, c)]) := by
  have hother : w.link ≠ some (w'.freshGen c.gen) := by
    intro hl
    obtain ⟨x, hx, -⟩ := hw _ hl
    rw [← h.tree _ hl, World.gen_eq_none (w'.freshGen_not_mem c.gen)] at hx
    cases hx
  refine ⟨hother, h.step nofun nofun rfl (by simp [Op.part]) fun g hg => ?_⟩
  refine (World.gen_append w' (w'.freshGen c.gen) g ⟨tree, []⟩ (w'.freshGen_not_mem c.gen)).trans (if_neg ?_)
  rintro rfl
  exact hother hg

/-- `write_candidate` writes the whole tree into a directory of its own. -/
theorem writeCandidate_ends {l : Log} {w' : World} (hw : Intact w) (h : Kept w (w', l))
    (hl : ∀ t c, (.mkdtemp t, c) ∉ l) (hl' : ∀ g c, (.rmtreeIgnoringErrors g, c) ∉ l) :
    ends (loggedServer host) any (Render.writeCandidate tree) (fun cand p => Written w cand tree [] p)
      (fun _ => Kept w) (Kept w) (w', l) := by
  refine ends_seq (M := fun cand => Written w cand tree tree) ?_ fun cand p hp => ?_
  · refine ends_logged h (fun c hc => ?_) (fun c e _ => (kept_mkdtemp hw h).2)
    obtain ⟨hother, hkept⟩ := @kept_mkdtemp host w tree w' l c hw h
    rw [server, withFaults_snd, hc] at hkept
    refine ⟨hkept, hother, ⟨[], ?_, rfl⟩, ⟨c, List.mem_append_right _ (List.mem_singleton.mpr rfl)⟩, fun t c' ht => ?_,
      fun g c' hg => ?_⟩
    · exact (World.gen_append w' _ _ _ (w'.freshGen_not_mem c.gen)).trans (if_pos rfl)
    · rcases List.mem_append.mp ht with ht | ht
      · exact absurd ht (hl t c')
      · cases List.mem_singleton.mp ht
        rfl
    · rcases List.mem_append.mp hg with hg | hg
      · exact absurd hg (hl' g c')
      · cases List.mem_singleton.mp hg
  · refine ends_seq (M := fun _ => Written w cand tree []) ?_ fun _ p hp => hp
    refine ends_forM (I := fun rest => Written w cand tree rest) (fun f rest _ p hp => ?_) hp
    exact ends_logged hp.kept (fun c _ => hp.write.2) (fun c e _ => hp.write.1)

/-- How the part up to the mark ends: with the link as it was, or replaced, and then the flag is only wrong when the
command was interrupted in front of it. -/
def Promoted (w : World) (cand : Gen) (tree : Tree) (p : World × Log) : Prop :=
  (Written w cand tree [] p ∧ p.1.promoted = false) ∨
    (Swapped cand tree p ∧ (p.1.promoted = true ∨ p.1.promoted = false ∧ Caught p.2))

/-- Nothing was promoted, or what was promoted is whole unless the command slipped. -/
def Final (w : World) (p : World × Log) : Prop := Kept w p ∨ ∃ cand tree, Settled cand tree p

/-- Wherever an apply ends, it is as claimed. -/
theorem Final.verdict {p : World × Log} (hw : Intact w) (h : Final w p) : Verdict w p := by
  rcases h with h | ⟨cand, tree, h⟩
  · exact h.verdict hw
  · exact h.verdict

/-- The part up to the mark ends where an apply may. -/
theorem Promoted.final {p : World × Log} (h : Promoted w cand tree p) : Final w p := by
  rcases h with ⟨h, -⟩ | ⟨h, -⟩
  · exact .inl h.kept
  · exact .inr ⟨cand, tree, h.settled⟩

/-- The link is replaced in one step. -/
theorem swapped_replaceLink {w' : World} {l : Log} {c : Choice} (h : Written w cand tree [] (w', l))
    (htmp : w'.tmpLink = some cand) (hc : c.fault.isBefore = false) :
    Swapped cand tree ((exec host .replaceLink c w').2, l ++ [(.replaceLink, c)]) := by
  obtain ⟨files, hfiles, hrest⟩ := h.gen
  rw [List.append_nil] at hrest
  subst hrest
  exact ⟨htmp, hfiles, ⟨c, List.mem_append_right _ (List.mem_singleton.mpr rfl), hc⟩, h.log.append nofun nofun⟩

/-- `promote`, from a candidate that is written. -/
theorem promote_ends {p : World × Log} (h : Written w cand tree [] p) (hflag : p.1.promoted = false) :
    ends (loggedServer host) any (Render.promote cand) (fun _ p => Swapped cand tree p ∧ p.1.promoted = false)
      (fun _ => Promoted w cand tree) (Final w) p := by
  refine ends_seq (M := fun _ p => Written w cand tree [] p ∧ p.1.promoted = false ∧ p.1.tmpLink = some cand) ?_
    fun _ p hp => ?_
  · refine ends_logged (.inl h.kept) (fun c hc => ?_) (fun c e _ => .inl ⟨?_, ?_⟩)
    · have hstep := @Written.step host w cand tree [] p.1 p.2 (.symlinkTmp cand) c h rfl (by simp [Op.part]) (by simp [Op.part])
        nofun nofun
      rw [server, withFaults_snd, hc] at hstep
      exact ⟨hstep, hflag, rfl⟩
    · exact h.step rfl (by simp [Op.part]) (by simp [Op.part]) nofun nofun
    · rw [withFaults_snd]
      split <;> exact hflag
  · obtain ⟨h, hflag, htmp⟩ := hp
    refine ends_logged (.inl h.kept) (fun c hc => ?_) (fun c e he => ?_)
    · exact ⟨swapped_replaceLink h htmp (by rw [hc]; rfl), hflag⟩
    · rw [withFaults_snd]
      cases hf : c.fault with
      | none => exact absurd hf he
      | before e' =>
        have hkept : Kept w (p.1, p.2 ++ [(.replaceLink, c)]) := by
          refine ⟨h.kept.link, h.kept.state, h.kept.tree, fun e he => ?_⟩
          rcases List.mem_append.mp he with he | he
          · exact h.kept.early e he
          · obtain rfl := List.mem_singleton.mp he
            exact ⟨fun _ => by rw [hf]; rfl, nofun⟩
        exact .inl ⟨⟨hkept, h.other, h.gen, h.log.append nofun nofun⟩, hflag⟩
      | after e' =>
        refine .inr ⟨swapped_replaceLink h htmp (by rw [hf]; rfl), .inr ⟨hflag, c, .inl ⟨?_, by rw [hf]; rfl⟩⟩⟩
        exact List.mem_append_right _ (List.mem_singleton.mpr rfl)

/-- The flag is assigned. A kill in front of it leaves the candidate live and whole; an interrupt there is what the clean-up
takes for a failure. -/
theorem setPromoted_ends {p : World × Log} (h : Swapped cand tree p) (hflag : p.1.promoted = false) :
    ends (loggedServer host) any (call (.setPromoted true)) (fun _ p => Swapped cand tree p ∧ p.1.promoted = true)
      (fun _ => Promoted w cand tree) (Final w) p := by
  have hstep : ∀ c, Swapped cand tree ((server host (.setPromoted true) c p.1).2, p.2 ++ [(.setPromoted true, c)]) :=
    fun c => h.step (by simp [Op.part]) (by simp [Op.part])
  refine ends_logged (.inr ⟨cand, tree, h.settled⟩) (fun c hc => ?_) (fun c e he => .inr ⟨hstep c, ?_⟩)
  · have h' := hstep c
    rw [server, withFaults_snd, hc] at h'
    exact ⟨h', rfl⟩
  · rw [withFaults_snd]
    cases hf : c.fault with
    | none => exact absurd hf he
    | before e' => exact .inr ⟨hflag, c, .inr ⟨List.mem_append_right _ (List.mem_singleton.mpr rfl), by rw [hf]; rfl⟩⟩
    | after e' => exact .inl rfl

/-- Reading keeps the candidate and the flag. -/
theorem written_read {o : Op} (ho : o.part = .nothing) {p : World × Log}
    (h : Written w cand tree [] p ∧ p.1.promoted = false) (c : Choice) :
    Written w cand tree [] ((server host o c p.1).2, p.2 ++ [(o, c)]) ∧ (server host o c p.1).2.promoted = false := by
  refine ⟨h.1.step (exec_link ?_) ?_ ?_ ?_ ?_, ?_⟩
  · rw [ho]; decide
  · rw [ho]; decide
  · rw [ho]; decide
  · rintro rfl; cases ho
  · rintro rfl; cases ho
  · rw [server, withFaults_snd, exec_nothing ho, ite_self]
    exact h.2

/-- A call that changes nothing, between the candidate and its promotion. -/
theorem read_ends {o : Op} (ho : o.part = .nothing) {p : World × Log} (h : Written w cand tree [] p ∧ p.1.promoted = false) :
    ends (loggedServer host) any (call o) (fun _ p => Written w cand tree [] p ∧ p.1.promoted = false)
      (fun _ => Promoted w cand tree) (Final w) p := by
  refine ends_logged (.inl h.1.kept) (fun c hc => ?_) (fun c e _ => .inl (written_read ho h c))
  have h' := @written_read host w cand tree o ho p h c
  rwa [server, withFaults, hc] at h'

/-- The part of `apply` up to the mark. -/
theorem promoteCandidate_ends {p : World × Log} (h : Written w cand tree [] p ∧ p.1.promoted = false) :
    ends (loggedServer host) any (promoteCandidate cand) (fun _ p => Swapped cand tree p ∧ p.1.promoted = true)
      (fun _ => Promoted w cand tree) (Final w) p := by
  refine ends_seq (read_ends rfl h) fun ok p h => ends_ite (fun _ => ?_) (fun _ => .inl h)
  refine ends_seq (read_ends rfl h) fun previous p h => ends_seq (read_ends rfl h) fun st p h => ?_
  refine ends_seq (promote_ends h.1 h.2) fun _ p h => ends_seq (setPromoted_ends h.1 h.2) fun _ p h => ?_
  have hstep : ∀ c, Swapped cand tree ((server host (.saveState { st with convergePending := true }) c p.1).2,
      p.2 ++ [(.saveState { st with convergePending := true }, c)]) ∧
      (server host (.saveState { st with convergePending := true }) c p.1).2.promoted = true := by
    intro c
    refine ⟨h.1.step (by simp [Op.part]) (by simp [Op.part]), ?_⟩
    rw [server, withFaults_snd]
    split <;> exact h.2
  refine ends_seq (M := fun _ p => Swapped cand tree p ∧ p.1.promoted = true) ?_ fun _ p hp => hp
  refine ends_logged (.inr ⟨cand, tree, h.1.settled⟩) (fun c hc => ?_) (fun c e _ => .inr ⟨(hstep c).1, .inl (hstep c).2⟩)
  have h' := hstep c
  rwa [server, withFaults, hc] at h'

/-- The clean-up deletes a candidate that is live when the command was interrupted in front of the flag, and otherwise one
that nothing points at. -/
theorem final_rmtree {p : World × Log} (h : Promoted w cand tree p) (hflag : p.1.promoted = false) (c : Choice) :
    Final w ((server host (.rmtreeIgnoringErrors cand) c p.1).2, p.2 ++ [(.rmtreeIgnoringErrors cand, c)]) := by
  rcases h with ⟨h, -⟩ | ⟨h, hcaught⟩
  · refine .inl (h.kept.step nofun nofun removeTree_link (by simp [Op.part]) fun g hg => removeTree_other ?_)
    rintro rfl
    exact h.other hg
  · obtain ⟨c', hc'⟩ : Caught p.2 := by
      rcases hcaught with htrue | ⟨-, hcaught⟩
      · rw [htrue] at hflag
        cases hflag
      · exact hcaught
    have hcaught : Caught (p.2 ++ [(.rmtreeIgnoringErrors cand, c)]) :=
      ⟨c', hc'.imp (fun h => ⟨List.mem_append_left _ h.1, h.2⟩) (fun h => ⟨List.mem_append_left _ h.1, h.2⟩)⟩
    have hreplaced : Replaced (p.2 ++ [(.rmtreeIgnoringErrors cand, c)]) := by
      obtain ⟨c₁, hmem, hc₁⟩ := h.replaced
      exact ⟨c₁, List.mem_append_left _ hmem, hc₁⟩
    -- the entry of this call is the only one that could have cleared the tree
    have hslipped : Slipped (p.2 ++ [(.rmtreeIgnoringErrors cand, c)]) ↔
        c.fault.isBefore = false ∧ (c.ok = true ∨ ∃ f ∈ tree, c.keep f.1 = false) := by
      constructor
      · rintro ⟨-, t, c₁, ht, g, c₂, hg, hc₂⟩
        have ht : (Op.mkdtemp t, c₁) ∈ p.2 := (List.mem_append.mp ht).resolve_right (by simp)
        obtain rfl := h.log.only t c₁ ht
        have hg := (List.mem_append.mp hg).resolve_left (h.log.none_removed g c₂)
        cases List.mem_singleton.mp hg
        exact hc₂
      · intro hc
        obtain ⟨c₁, hc₁⟩ := h.log.made
        exact ⟨hcaught, tree, c₁, List.mem_append_left _ hc₁, cand, c,
          List.mem_append_right _ (List.mem_singleton.mpr rfl), hc⟩
    refine .inr ⟨cand, tree, ?_, hreplaced, ?_⟩
    · rw [server, withFaults_snd]
      split
      · exact h.link
      · exact removeTree_link.trans h.link
    · rw [hslipped, server, withFaults_snd]
      cases hb : c.fault.isBefore with
      | true => exact .inl ⟨h.gen, fun hc => nomatch hc.1⟩
      | false =>
        change ((removeTree p.1 cand c).gen cand = _ ∧ _) ∨ ((∀ x, (removeTree p.1 cand c).gen cand = some x → _) ∧ _)
        rw [removeTree_self, h.gen]
        cases hok : c.ok with
        | true => exact .inr ⟨nofun, rfl, .inl rfl⟩
        | false =>
          by_cases hkeep : ∃ f ∈ tree, c.keep f.1 = false
          · refine .inr ⟨fun x hx => ?_, rfl, .inr hkeep⟩
            cases hx
            obtain ⟨f, hf, hfalse⟩ := hkeep
            intro hcomplete
            have := List.filter_eq_self.mp hcomplete f hf
            rw [hfalse] at this
            cases this
          · refine .inl ⟨?_, fun hc => hkeep (hc.2.resolve_left (by simp))⟩
            have hall : tree.filter (fun f => c.keep f.1) = tree :=
              List.filter_eq_self.mpr fun f hf => by
                cases hf' : c.keep f.1 with
                | true => rfl
                | false => exact absurd ⟨f, hf, hf'⟩ hkeep
            simp [hall]

/-- The clean-up ends where an apply may. -/
theorem dropCandidate_ends {p : World × Log} (h : Promoted w cand tree p) :
    ends (loggedServer host) any (dropCandidate cand) (fun _ => Final w) (fun _ => Final w) (Final w) p := by
  have hread : ∀ c, Promoted w cand tree ((server host .getPromoted c p.1).2, p.2 ++ [(.getPromoted, c)]) := by
    intro c
    rcases h with h | ⟨h, hflag⟩
    · exact .inl (written_read rfl h c)
    · refine .inr ⟨h.step (by simp [Op.part]) (by simp [Op.part]), ?_⟩
      have hworld : (server host .getPromoted c p.1).2 = p.1 := by
        rw [server, withFaults_snd]
        exact ite_self _
      rw [hworld, caught_append (not_marks_of_part (by decide) (by decide) (by decide))]
      exact hflag
  refine ends_seq (M := fun b p => p.1.promoted = b ∧ Promoted w cand tree p) ?_ fun b p hp => ?_
  · refine ends_logged h.final (fun c hc => ?_) (fun c e _ => (hread c).final)
    have h' := hread c
    rw [server, withFaults, hc] at h'
    exact ⟨rfl, h'⟩
  · obtain ⟨hb, h⟩ := hp
    refine ends_ite (fun _ => h.final) (fun hfalse => ?_)
    have hflag : p.1.promoted = false := by
      rw [hb]
      exact Bool.eq_false_iff.mpr hfalse
    refine ends_logged h.final (fun c hc => ?_) (fun c e _ => final_rmtree h hflag c)
    have h' := @final_rmtree host w cand tree p h hflag c
    rwa [server, withFaults, hc] at h'

/-- The clean-up leaves a candidate that was promoted. -/
theorem dropCandidate_promoted {p : World × Log} (h : Swapped cand tree p ∧ p.1.promoted = true) :
    ends (loggedServer host) any (dropCandidate cand) (fun _ => Settled cand tree) (fun _ => Final w) (Final w) p := by
  have hread : ∀ c, Swapped cand tree ((server host .getPromoted c p.1).2, p.2 ++ [(.getPromoted, c)]) :=
    fun c => h.1.step (by simp [Op.part]) (by simp [Op.part])
  refine ends_seq (M := fun b p => b = true ∧ Swapped cand tree p) ?_ fun b p hp => ?_
  · refine ends_logged (.inr ⟨cand, tree, h.1.settled⟩) (fun c hc => ?_) (fun c e _ => .inr ⟨cand, tree, (hread c).settled⟩)
    have h' := hread c
    rw [server, withFaults, hc] at h'
    exact ⟨h.2, h'⟩
  · obtain ⟨rfl, h⟩ := hp
    exact h.settled

/-- A call that only reads changes nothing about what is promoted. -/
theorem Final.step {w' : World} {l : Log} {o : Op} {c : Choice} (h : Final w (w', l)) (ho : o.part = .nothing) :
    Final w ((server host o c w').2, l ++ [(o, c)]) := by
  rcases h with h | ⟨cand, tree, h⟩
  · exact .inl (h.step_nothing ho)
  · refine .inr ⟨cand, tree, h.step ?_ ?_ (not_marks_of_part ?_ ?_ ?_)⟩
    · rw [exec_nothing ho]
    · rw [exec_nothing ho]
    all_goals
      rw [ho]
      decide

/-- A call that changes nothing ends where an apply may. -/
theorem final_read {o : Op} (ho : o.part = .nothing) {p : World × Log} (h : Final w p) :
    ends (loggedServer host) any (call o) (fun _ => Final w) (fun _ => Final w) (Final w) p :=
  keeps_logged (show Touches [.nothing] _ from .call (List.mem_singleton.mpr ho)) (fun _ ho _ _ _ h => h.step (List.mem_singleton.mp ho)) h

/-- `_rmtree_not_live` deletes a tree only when the link does not point at it. -/
theorem rmtreeNotLive_ends {p : World × Log} (path : Gen) (h : Final w p) :
    ends (loggedServer host) any (Render.rmtreeNotLive path) (fun _ => Final w) (fun _ => Final w) (Final w) p := by
  refine ends_seq (M := fun live p => live = p.1.link ∧ Final w p) ?_ fun live p hp => ?_
  · refine ends_logged h (fun c hc => ⟨rfl, ?_⟩) (fun c e _ => h.step rfl)
    have h' := @Final.step host w p.1 p.2 .readLink c h rfl
    rwa [server, withFaults, hc] at h'
  · obtain ⟨hlive, h⟩ := hp
    refine ends_ite (fun _ => h) (fun hne => ?_)
    have hstep : ∀ c, Final w ((server host (.rmtree path) c p.1).2, p.2 ++ [(.rmtree path, c)]) := by
      intro c
      have hother : ∀ g, p.1.link = some g → g ≠ path := by
        rintro g hg rfl
        exact hne (hlive.trans hg)
      rcases h with h | ⟨cand, tree, h⟩
      · exact .inl (h.step (by simp) (by simp) removeTree_link (by simp [Op.part]) fun g hg =>
          removeTree_other (hother g (h.link.trans hg)))
      · exact .inr ⟨cand, tree, h.step removeTree_link (removeTree_other (hother cand h.link)) (fun h => by cases h)⟩
    refine ends_logged h (fun c hc => ?_) (fun c e _ => hstep c)
    have h' := hstep c
    rwa [server, withFaults, hc] at h'

/-- `prune` never deletes what the link points at. -/
theorem pruneQuietly_ends {p : World × Log} (h : Final w p) :
    ends (loggedServer host) any pruneQuietly (fun _ => Final w) (fun _ => Final w) (Final w) p := by
  refine ends_tryExcept.mpr (ends_mono (Q := fun _ => Final w) (E := fun _ => Final w) (D := Final w) ?_ (fun _ _ h => h)
    (fun e p h => ?_) (fun _ h => h))
  · refine ends_seq (final_read rfl h) fun live p h => ends_seq (final_read rfl h) fun generations p h => ?_
    refine ends_forM (I := fun _ => Final w) (fun old rest _ p h => ends_ite (fun _ => h) (fun _ => ?_)) h
    exact rmtreeNotLive_ends old h
  · cases e.isException
    · exact h
    · exact h

/-- What comes behind the promotion touches neither the link nor the trees. -/
theorem settled_keeps {parts : List Part} {α : Type} {q : Cmd α} (hq : Touches parts q) (hlink : .link ∉ parts)
    (htrees : .trees ∉ parts) (hpromoted : .promoted ∉ parts) {p : World × Log} (h : Settled cand tree p) :
    ends (loggedServer host) any q (fun _ => Settled cand tree) (fun _ => Final w) (Final w) p := by
  refine ends_mono (keeps_logged hq (I := Settled cand tree) (fun o ho c w' l hp => ?_) h) (fun _ _ h => h)
    (fun _ _ h => .inr ⟨cand, tree, h⟩) (fun _ h => .inr ⟨cand, tree, h⟩)
  have hl : o.part ≠ .link := fun heq => hlink (heq ▸ ho)
  have ht : o.part ≠ .trees := fun heq => htrees (heq ▸ ho)
  exact hp.step (exec_link hl) (congrArg (List.lookup cand) (exec_gens ht))
    (not_marks_of_part ht hl fun heq => hpromoted (heq ▸ ho))

/-- An apply of a candidate ends where an apply may. -/
theorem applyCandidate_ends (py : CaseMap) (restart : Bool) (enabled : List Protocol) {p : World × Log}
    (h : Written w cand tree [] p ∧ p.1.promoted = false) :
    ends (loggedServer host) any (applyCandidate py restart enabled cand) (fun _ => Final w) (fun _ => Final w)
      (Final w) p := by
  refine ends_seq (M := fun _ => Settled cand tree) (ends_tryFinally.mpr ?_) fun r p h => ?_
  · exact ends_mono (promoteCandidate_ends h) (fun _ _ h => dropCandidate_promoted h) (fun _ _ h => dropCandidate_ends h)
      (fun _ h => h)
  · obtain ⟨⟨previous, inherited⟩, -⟩ := r
    refine ends_seq (settled_keeps (changedBetween_touches previous cand) (by decide) (by decide) (by decide) h)
      fun diff p h => ends_seq (settled_keeps (show Touches [.plans] _ from .call (by simp [Op.part])) (by decide) (by decide)
      (by decide) h) fun _ p h => ends_ite (fun _ => ?_) (fun _ => .inr ⟨cand, tree, h⟩)
    refine ends_seq (settled_keeps (Script.uses_tryFinally (converge_touches py enabled _ _)
      ((reconcileForwarding_touches enabled).mono (by simp))) (by decide) (by decide) (by decide) h) fun r p h => ?_
    obtain ⟨result, forwarding⟩ := r
    exact ends_mono (settled_keeps (finish_touches enabled _) (by decide) (by decide) (by decide) h)
      (fun _ _ h => .inr ⟨cand, tree, h⟩) (fun _ _ h => h) (fun _ h => h)

/-- At the start nothing was made and nothing was removed. -/
structure Start (w : World) (p : World × Log) : Prop where
  kept : Kept w p
  unmarked : ∀ e ∈ p.2, e.1.part = .nothing

/-- A script that changes nothing, before there is a candidate. -/
theorem start_keeps {α : Type} {q : Cmd α} (hq : Touches [.nothing] q) {p : World × Log} (h : Start w p) :
    ends (loggedServer host) any q (fun _ => Start w) (fun _ => Final w) (Final w) p := by
  refine ends_mono (keeps_logged hq (I := Start w) (fun o ho c w' l hp => ?_) h) (fun _ _ h => h)
    (fun _ _ h => .inl h.kept) (fun _ h => .inl h.kept)
  have ho := List.mem_singleton.mp ho
  refine ⟨hp.kept.step_nothing ho, fun e he => ?_⟩
  rcases List.mem_append.mp he with he | he
  · exact hp.unmarked e he
  · obtain rfl := List.mem_singleton.mp he
    exact ho

/-- `apply`, wherever it ends. -/
theorem apply_ends (py : CaseMap) (restart : Bool) (hw : Intact w) :
    ends (loggedServer host) any (apply py restart) (fun _ => Final w) (fun _ => Final w) (Final w) (w, []) := by
  have hstart : Start w (w, []) := ⟨⟨rfl, rfl, fun _ _ => rfl, fun e he => (List.not_mem_nil he).elim⟩,
    fun e he => (List.not_mem_nil he).elim⟩
  refine ends_seq (start_keeps (Touches.call (by simp [Op.part])) hstart) fun _ p h => ?_
  refine ends_seq (start_keeps (Touches.call (by simp [Op.part])) h) fun _ p h => ?_
  refine ends_seq (start_keeps (Touches.call (by simp [Op.part])) h) fun st p h => ?_
  refine ends_seq (start_keeps (missingSecrets_touches _) h) fun gaps p h => ends_ite (fun _ => ?_) (fun _ => .inl h.kept)
  refine ends_seq (start_keeps (renderAll_touches py) h) fun r p h => ?_
  obtain ⟨tree, enabled⟩ := r
  have hno : ∀ (o : Op) (c : Choice), o.part = .trees → (o, c) ∉ p.2 := fun o c ho hmem => by
    have hnothing : o.part = .nothing := h.unmarked _ hmem
    rw [ho] at hnothing
    cases hnothing
  refine ends_seq (ends_mono (@writeCandidate_ends host w tree p.2 p.1 hw h.kept (fun _ _ => hno _ _ rfl) (fun _ _ => hno _ _ rfl))
    (fun _ _ h => h) (fun _ _ h => .inl h) (fun _ h => .inl h)) fun cand p h => ?_
  refine ends_seq (M := fun _ p => Written w cand tree [] p ∧ p.1.promoted = false) ?_ fun _ p h => ?_
  · have hstep : ∀ c, Written w cand tree [] ((server host (.setPromoted false) c p.1).2, p.2 ++ [(.setPromoted false, c)]) :=
      fun c => h.step rfl (by simp [Op.part]) (by simp [Op.part]) nofun nofun
    refine ends_logged (.inl h.kept) (fun c hc => ?_) (fun c e _ => .inl (hstep c).kept)
    have h' := hstep c
    rw [server, withFaults, hc] at h'
    exact ⟨h', rfl⟩
  · refine ends_seq (M := fun _ => Final w) (ends_tryFinally.mpr (ends_mono (applyCandidate_ends py restart enabled h) (fun _ _ h => ?_)
      (fun _ _ h => pruneQuietly_ends h) (fun _ h => h))) fun r p h => ?_
    · exact pruneQuietly_ends h
    · obtain ⟨result, -⟩ := r
      exact h

end Specs

/-! ## Every run -/

/-- What is claimed, for a run of `apply` and wherever it is stopped. -/
theorem apply_verdict (host : Host) (restart : Bool) {w : World} (hw : Intact w) (cs : List Choice) :
    Verdict w (((apply host.py restart).run (server host) cs w).2, (apply host.py restart).trace (server host) cs w) := by
  have hends := ends_run_any (@apply_ends host w host.py restart hw) cs
  have hlogged := run_logged (m := server host) (apply host.py restart) cs w []
  rw [Script.run, hlogged, List.nil_append] at hends
  cases hr : (run (server host) (apply host.py restart) cs w).1 with
  | none =>
    rw [hr] at hends
    exact Final.verdict hw hends
  | some r =>
    rw [hr] at hends
    cases r with
    | ok a => exact Final.verdict hw hends
    | error e => exact Final.verdict hw hends

/-- An apply in the life of a server. Before it other commands ran, which never touch the link or a tree. -/
structure Round where
  meanwhile : World → World
  keeps : ∀ w, (meanwhile w).link = w.link ∧ (meanwhile w).gens = w.gens
  restart : Bool
  choices : List Choice

namespace Round

variable (host : Host)

/-- The world this apply leaves when it is stopped after `n` calls. -/
def stopped (r : Round) (w : World) (n : Nat) : World :=
  ((apply host.py r.restart).run (server host) (r.choices.take n) (r.meanwhile w)).2

/-- The calls this apply makes when it is stopped after `n` of them. -/
def log (r : Round) (w : World) (n : Nat) : Log :=
  (apply host.py r.restart).trace (server host) (r.choices.take n) (r.meanwhile w)

/-- The world this apply leaves. -/
def after (r : Round) (w : World) : World := r.stopped host w r.choices.length

/-- What is claimed of an apply: at every point the link leads to a complete tree, so that no clean-up has deleted it, and up
to the replacement of the link nothing has changed. -/
def Safe (r : Round) (w : World) : Prop :=
  ∀ n, Sound (r.meanwhile w) (r.stopped host w n) ∧
    (¬ Replaced (r.log host w n) → Untouched (r.meanwhile w) (r.stopped host w n))

/-- A condition on every apply of a history. -/
def All (P : Round → World → Prop) : List Round → World → Prop
  | [], _ => True
  | r :: rest, w => P r w ∧ All P rest (r.after host w)

/-- What comes between two applies touches neither the link nor a tree. -/
theorem intact_meanwhile {r : Round} {w : World} (hw : Intact w) : Intact (r.meanwhile w) := by
  intro g hg
  rw [(r.keeps w).1] at hg
  obtain ⟨x, hx, hcomplete⟩ := hw g hg
  exact ⟨x, (congrArg (List.lookup g) (r.keeps w).2).trans hx, hcomplete⟩

/-- A safe apply leaves a world the next one can start from. -/
theorem Safe.intact {r : Round} {w : World} (h : r.Safe host w) : Intact (r.after host w) := by
  intro g hg
  rcases (h r.choices.length).1 with ⟨-, hnone⟩ | ⟨g', x, hg', hx, hcomplete⟩
  · rw [after, hnone] at hg
    cases hg
  · obtain rfl := Option.some.inj (hg'.symm.trans hg)
    exact ⟨x, hx, hcomplete⟩

/-- One apply is safe exactly when it does not slip. -/
theorem safe_iff {r : Round} {w : World} (hw : Intact w) : r.Safe host w ↔ ¬ Slipped (r.log host w r.choices.length) := by
  have hverdict : ∀ n, Verdict (r.meanwhile w) (r.stopped host w n, r.log host w n) := fun n =>
    apply_verdict host r.restart (intact_meanwhile hw) (r.choices.take n)
  constructor
  · intro h hslipped
    exact (hverdict _).1.mp hslipped (h _).1
  · intro h n
    refine ⟨?_, (hverdict n).2⟩
    by_contra hsound
    obtain ⟨⟨c, hcaught⟩, tree, c', hmk, g, c₁, hrm, hc₁⟩ := (hverdict n).1.mpr hsound
    -- what was called by then was called
    have hbegins : ∀ e ∈ r.log host w n, e ∈ r.log host w r.choices.length := by
      intro e he
      rw [log, Script.trace_take] at he
      rw [log, List.take_length]
      exact List.mem_of_mem_take he
    refine h ⟨⟨c, ?_⟩, tree, c', hbegins _ hmk, g, c₁, hbegins _ hrm, hc₁⟩
    exact hcaught.imp (fun h => ⟨hbegins _ h.1, h.2⟩) (fun h => ⟨hbegins _ h.1, h.2⟩)

end Round

/-- In every history of a server, every apply is safe wherever it is stopped if and only if none is interrupted in front of
the flag with a clean-up that then takes the live tree away. -/
theorem applies_safe_iff (host : Host) (rounds : List Round) {w : World} (hw : w.link = none) :
    Round.All host (Round.Safe host) rounds w ↔
      Round.All host (fun r w => ¬ Slipped (r.log host w r.choices.length)) rounds w := by
  have hintact : Intact w := fun g hg => by rw [hw] at hg; cases hg
  clear hw
  induction rounds generalizing w with
  | nil => exact Iff.rfl
  | cons r rounds ih =>
    constructor
    · rintro ⟨hsafe, hrest⟩
      exact ⟨(Round.safe_iff host hintact).mp hsafe, (ih (Round.Safe.intact host hsafe)).mp hrest⟩
    · rintro ⟨hslip, hrest⟩
      have hsafe := (Round.safe_iff host hintact).mpr hslip
      exact ⟨hsafe, (ih (Round.Safe.intact host hsafe)).mpr hrest⟩

/-- A server with every protocol off and one fragment of sing-box configuration. -/
def sampleWorld : World :=
  { World.provisioned (fun _ => none) [] .fragment with
    state := some ⟨[], [], [], false⟩ }

/-- An apply of that server, with those choices. -/
def sampleRound (choices : List Choice) : Round := ⟨id, fun _ => ⟨rfl, rfl⟩, false, choices⟩

/-- Every call goes well. -/
def plainChoices : List Choice := List.replicate 23 {}

/-- The first sixteen calls go well, Ctrl-C comes right behind the replacement of the link, and the clean-up works. -/
def interruptedChoices : List Choice :=
  (List.replicate 19 ({} : Choice)).set 16 { fault := .after .keyboardInterrupt }

/-- An apply that is not interrupted is safe at every one of its calls. -/
theorem applies_safe_plain : Round.All Host.sample (Round.Safe Host.sample) [sampleRound plainChoices] sampleWorld := by
  refine (applies_safe_iff Host.sample _ rfl).mpr ⟨?_, trivial⟩
  have hall : ((sampleRound plainChoices).log Host.sample sampleWorld 23).all (fun e => e.2.fault == .none) = true := by
    decide +kernel
  have hnone : ∀ e ∈ (sampleRound plainChoices).log Host.sample sampleWorld 23, e.2.fault = .none :=
    fun e he => beq_iff_eq.mp (List.all_eq_true.mp hall e he)
  rintro ⟨⟨c, ⟨hmem, hc⟩ | ⟨hmem, hc⟩⟩, -⟩
  · rw [hnone _ hmem] at hc
    cases hc
  · rw [hnone _ hmem] at hc
    cases hc

/-- An interrupt right behind the replacement of the link: the clean-up deletes the tree the link points at. -/
theorem applies_safe_interrupted :
    ¬ Round.All Host.sample (Round.Safe Host.sample) [sampleRound interruptedChoices] sampleWorld := by
  rintro ⟨hsafe, -⟩
  have hlink : ((sampleRound interruptedChoices).stopped Host.sample sampleWorld 19).link = some 0 := by decide +kernel
  have hgen : ((sampleRound interruptedChoices).stopped Host.sample sampleWorld 19).gen 0 = none :=
    Option.isNone_iff_eq_none.mp (by decide +kernel)
  rcases (hsafe 19).1 with ⟨-, hnone⟩ | ⟨g, x, hg, hx, -⟩
  · rw [hlink] at hnone
    cases hnone
  · obtain rfl := Option.some.inj (hlink.symm.trans hg)
    rw [hgen] at hx
    cases hx

end Promote

end VpnStack

import VpnStack.Theorems.Inputs
import VpnStack.Theorems.Converge
import VpnStack.Theorems.Settings

/-!
# The pending mark

A tree that was promoted is live on disk before any container reads it. What remembers that is a mark in state.json, written
right behind the promotion and cleared at the end of a converge; the diff of the next apply compares two trees, never a tree
with a container. Between two commands a server remembers: the mark is there, or no live tree is, or every container reads
the live tree. The one place where it does not is between the replacement of the link and the write of the mark.
-/

namespace VpnStack

open Python Interaction Docker Composectl

/-- The mark in state.json. -/
def World.marked (w : World) : Bool := (w.state.map (·.convergePending)).getD false

/-- The tree `rendered` leads to, if it leads to one. -/
def World.liveTree (w : World) : Option Tree := (w.link.bind w.gen).map (·.files)

namespace Pending

/-- The services whose containers have to follow the live tree: sing-box, and those it has an input of. -/
def Tracked (live : Tree) (s : Service) : Prop := s = .singBox ∨ HasInput live s

def AllFresh (w : World) : Prop := ∀ s, Tracked w.live s → FreshIn w.live s (w.docker.containers s)

/-- The next apply knows of everything that is not converged. -/
def Remembered (w : World) : Prop := w.marked = true ∨ w.liveTree = none ∨ AllFresh w

/-- The calls between the replacement of the link and the write of the mark, and those of the clean-up behind them. -/
def Window : Op → Prop
  | .setPromoted true => True
  | .saveState st => st.convergePending = true
  | .getPromoted => True
  | .rmtreeIgnoringErrors _ => True
  | _ => False

/-- In an exposed state, a call of the window goes on to the mark, or to a clean-up that takes the whole tree away. -/
def Recovers (o : Op) (c : Choice) (w : World) : Prop :=
  match o with
  | .setPromoted true => ¬ Remembered w → c.fault.isAfter = false
  | .saveState st => st.convergePending = true → ¬ Remembered w → c.fault.isBefore = false
  | .getPromoted => ¬ Remembered w → c.fault = .none
  | .rmtreeIgnoringErrors g => w.link = some g →
    w.marked = true ∨ (Remembered w ∧ c.fault.isBefore = true) ∨ (c.fault.isBefore = false ∧ c.ok = true)
  | _ => True

/-- No command is killed in the window, and none is interrupted there in a way the clean-up does not make good, unless
the containers happen to read the new tree already. Everywhere else anything may happen. -/
def careful : Discipline Op World Choice where
  choice := Recovers
  stop o w := Window o → Remembered w

/-! ## What the invariant depends on -/

section Frame

variable {host : Host} {w w' : World}

/-- The live tree is told by the link and the generation it points at. -/
theorem liveTree_eq (hlink : w'.link = w.link) (hgen : ∀ g, w.link = some g → w'.gen g = w.gen g) :
    w'.liveTree = w.liveTree := by
  unfold World.liveTree
  rw [hlink]
  cases hl : w.link with
  | none => rfl
  | some g => rw [Option.bind_some, Option.bind_some, hgen g hl]

theorem live_eq_getD (w : World) : w.live = w.liveTree.getD [] := rfl

theorem marked_eq (hstate : w'.state = w.state) : w'.marked = w.marked :=
  congrArg (fun s => (Option.map _ s).getD false) hstate

/-- The invariant looks at the mark, the live tree and the containers only. -/
theorem Remembered.congr (h : Remembered w) (hmarked : w'.marked = w.marked) (hlive : w'.liveTree = w.liveTree)
    (hdocker : w'.docker = w.docker) : Remembered w' := by
  unfold Remembered AllFresh at h ⊢
  rw [live_eq_getD] at h ⊢
  rw [hmarked, hlive, hdocker]
  exact h

/-- The parts of a server that the invariant does not depend on. -/
def others : List Part := [.nothing, .users, .keyring, .promoted, .certs, .plans, .notes]

/-- A call on another part keeps the invariant. -/
theorem remembered_exec {o : Op} {c : Choice} (h : Remembered w) (ho : o.part ∈ others) : Remembered (exec host o c w).2 := by
  have hne : ∀ part ∉ others, o.part ≠ part := fun part hpart heq => hpart (heq ▸ ho)
  refine h.congr (marked_eq (exec_state (hne .state (by decide)))) (liveTree_eq (exec_link (hne .link (by decide))) fun g _ => ?_)
    (exec_docker (hne .docker (by decide)))
  exact congrArg (List.lookup g) (exec_gens (hne .trees (by decide)))

end Frame

/-! ## Before the promotion -/

/-- Nothing has changed that the next apply would look at. -/
structure Same (w w' : World) : Prop where
  link : w'.link = w.link
  state : w'.state = w.state
  docker : w'.docker = w.docker
  plans : w'.plans = w.plans
  tree : ∀ g, w.link = some g → w'.gen g = w.gen g

/-- The candidate is being written: `rest` is what is still to come. -/
structure Writing (w : World) (cand : Gen) (tree rest : Tree) (w' : World) : Prop where
  same : Same w w'
  other : w.link ≠ some cand
  gen : ∃ files, w'.gen cand = some ⟨tree, files⟩ ∧ files ++ rest = tree

/-- The link points at the candidate, and nothing else has happened. -/
structure Swapped (w : World) (cand : Gen) (tree : Tree) (w' : World) : Prop where
  link : w'.link = some cand
  gen : w'.gen cand = some ⟨tree, tree⟩
  state : w'.state = w.state
  docker : w'.docker = w.docker
  plans : w'.plans = w.plans
  tree : ∀ g, w.link = some g → w'.gen g = w.gen g

section Candidate

variable {host : Host} {d : Discipline Op World Choice} {w w' : World} {cand : Gen} {tree rest : Tree}

theorem Same.refl (w : World) : Same w w := ⟨rfl, rfl, rfl, rfl, fun _ _ => rfl⟩

theorem Same.liveTree (h : Same w w') : w'.liveTree = w.liveTree := liveTree_eq h.link h.tree

theorem Same.remembered (h : Same w w') (hw : Remembered w) : Remembered w' := hw.congr (marked_eq h.state) h.liveTree h.docker

/-- A call that changes nothing of it keeps it, interrupted or not. -/
theorem keeps_call {I : World → Prop} {o : Op} (h : I w) (hI : ∀ c, I (exec host o c w).2) :
    ends (server host) d (call o) (fun _ => I) (fun _ => I) I w :=
  ends_exec (fun _ => h) (fun c _ _ => hI c) (fun _ _ _ _ => h) (fun c _ _ _ => hI c)

/-- A call that keeps the link, the live tree, the state and the containers. -/
theorem Same.exec {o : Op} {c : Choice} (h : Same w w') (hlink : (exec host o c w').2.link = w'.link)
    (hstate : o.part ≠ .state) (hdocker : o.part ≠ .docker) (hplans : o.part ≠ .plans)
    (htree : ∀ g, w.link = some g → (exec host o c w').2.gen g = w'.gen g) : Same w (exec host o c w').2 where
  link := hlink.trans h.link
  state := (exec_state hstate).trans h.state
  docker := (exec_docker hdocker).trans h.docker
  plans := (exec_plans hplans).trans h.plans
  tree g hg := (htree g hg).trans (h.tree g hg)

/-- `write_candidate` touches nothing that is live. -/
theorem writeCandidate_ends (h : Same w w') :
    ends (server host) d (Render.writeCandidate tree) (fun cand => Writing w cand tree []) (fun _ => Same w) (Same w) w' := by
  have hmk : ∀ c, Same w (exec host (.mkdtemp tree) c w').2 := by
    refine fun c => h.exec rfl (by simp [Op.part]) (by simp [Op.part]) (by simp [Op.part]) fun g hg => ?_
    refine (World.gen_append w' _ g ⟨tree, []⟩ (w'.freshGen_not_mem c.gen)).trans (if_neg ?_)
    rintro rfl
    exact w'.link_ne_freshGen c.gen (h.link.trans hg)
  refine ends_seq (M := fun cand => Writing w cand tree tree) ?_ fun cand w' hw' => ?_
  · refine ends_exec (fun _ => h) (fun c _ _ => ⟨hmk c, ?_, [], ?_, rfl⟩) (fun _ _ _ _ => h) (fun c _ _ _ => hmk c)
    · exact fun hl => w'.link_ne_freshGen c.gen (h.link.trans hl)
    · exact (World.gen_append w' _ _ _ (w'.freshGen_not_mem c.gen)).trans (if_pos rfl)
  refine ends_seq (M := fun _ => Writing w cand tree []) ?_ fun _ w' hw' => hw'
  refine ends_forM (I := fun rest => Writing w cand tree rest) (fun f rest _ w' hw' => ?_) hw'
  have hgen : ∀ c g, (exec host (.writeFile cand f.1 f.2) c w').2.gen g =
      if g = cand then (w'.gen g).map fun x => { x with files := x.files ++ [(f.1, f.2)] } else w'.gen g := fun c g =>
    World.gen_setGen w' cand g _
  have hsame : ∀ c, Same w (exec host (.writeFile cand f.1 f.2) c w').2 := by
    refine fun c => hw'.same.exec rfl (by simp [Op.part]) (by simp [Op.part]) (by simp [Op.part]) fun g hg => ?_
    rw [hgen, if_neg]
    rintro rfl
    exact hw'.other hg
  refine ends_exec (fun _ => hw'.same) (fun c _ _ => ⟨hsame c, hw'.other, ?_⟩) (fun _ _ _ _ => hw'.same) (fun c _ _ _ => hsame c)
  obtain ⟨files, hfiles, hrest⟩ := hw'.gen
  refine ⟨files ++ [(f.1, f.2)], ?_, by rw [← hrest]; simp⟩
  rw [hgen, if_pos rfl, hfiles, Option.map_some]

/-- A call that touches neither the link nor the trees leaves the candidate as it is. -/
theorem Writing.exec {o : Op} {c : Choice} (h : Writing w cand tree rest w') (hlink : (exec host o c w').2.link = w'.link)
    (htrees : o.part ≠ .trees) (hstate : o.part ≠ .state) (hdocker : o.part ≠ .docker) (hplans : o.part ≠ .plans) :
    Writing w cand tree rest (exec host o c w').2 := by
  have hgen : ∀ g, (VpnStack.exec host o c w').2.gen g = w'.gen g := fun g => congrArg (List.lookup g) (exec_gens htrees)
  refine ⟨h.same.exec hlink hstate hdocker hplans fun g _ => hgen g, h.other, ?_⟩
  obtain ⟨files, hfiles, hrest⟩ := h.gen
  exact ⟨files, (hgen cand).trans hfiles, hrest⟩

/-! ## The promotion -/

/-- What `apply` knows behind the mark: the candidate is live and marked, and it has read what was live before, and whether a
mark was there. -/
structure Promoted (w : World) (cand : Gen) (tree : Tree) (r : Option Gen × Bool) (w' : World) : Prop where
  link : w'.link = some cand
  gen : w'.gen cand = some ⟨tree, tree⟩
  marked : w'.marked = true
  docker : w'.docker = w.docker
  plans : w'.plans = w.plans
  tree : ∀ g, w.link = some g → w'.gen g = w.gen g
  flag : w'.promoted = true
  previous : r.1 = w.link.filter fun g => (w.gen g).isSome
  inherited : r.2 = w.marked

/-- A server without a state file has no mark, as the default state has none. -/
theorem marked_getD (w : World) (py : CaseMap) : (w.state.getD (State.default py)).convergePending = w.marked := by
  unfold World.marked
  cases w.state <;> rfl

/-- A call on another part behind the replacement of the link. -/
theorem Swapped.exec {o : Op} {c : Choice} (h : Swapped w cand tree w') (hlink : o.part ≠ .link) (htrees : o.part ≠ .trees)
    (hstate : o.part ≠ .state) (hdocker : o.part ≠ .docker) (hplans : o.part ≠ .plans) :
    Swapped w cand tree (exec host o c w').2 := by
  have hgen : ∀ g, (VpnStack.exec host o c w').2.gen g = w'.gen g := fun g => congrArg (List.lookup g) (exec_gens htrees)
  exact ⟨(exec_link hlink).trans h.link, (hgen cand).trans h.gen, (exec_state hstate).trans h.state,
    (exec_docker hdocker).trans h.docker, (exec_plans hplans).trans h.plans, fun g hg => (hgen g).trans (h.tree g hg)⟩

/-- The replacement of the link, of a candidate that is written. -/
theorem swapped_replaceLink {c : Choice} (h : Writing w cand tree [] w') (htmp : w'.tmpLink = some cand) :
    Swapped w cand tree (exec host .replaceLink c w').2 := by
  obtain ⟨files, hfiles, hrest⟩ := h.gen
  rw [List.append_nil] at hrest
  subst hrest
  exact ⟨htmp, hfiles, h.same.state, h.same.docker, h.same.plans, h.same.tree⟩

/-- How the part up to the mark may be left, with what is to hold there: in front of the replacement of the link, and at
each point of the window. -/
structure Exits (d : Discipline Op World Choice) (w : World) (cand : Gen) (tree : Tree) (E : Exc → World → Prop)
    (D : World → Prop) : Prop where
  stop : ∀ w', Writing w cand tree [] w' → D w'
  raised : ∀ e w', Writing w cand tree [] w' → w'.promoted = false → E e w'
  replaced : ∀ e w', Swapped w cand tree w' → w'.promoted = false → E e w'
  stop_set : ∀ w', Swapped w cand tree w' → d.stop (.setPromoted true) w' → D w'
  set_after : ∀ e c w', Swapped w cand tree w' → d.choice (.setPromoted true) c w' → c.fault.isAfter = true →
    E e { w' with promoted := true }
  stop_save : ∀ w' st, Swapped w cand tree w' → st.convergePending = true → d.stop (.saveState st) w' → D w'
  save_before : ∀ e c w' st, Swapped w cand tree w' → w'.promoted = true → st.convergePending = true →
    d.choice (.saveState st) c w' → c.fault.isBefore = true → E e w'
  save_after : ∀ e w' st, Swapped w cand tree w' → w'.promoted = true → st.convergePending = true →
    E e { w' with state := some st }

/-- The part of `apply` up to the mark. -/
theorem promoteCandidate_spec {E : Exc → World → Prop} {D : World → Prop} (hx : Exits d w cand tree E D)
    (h : Writing w cand tree [] w') (hflag : w'.promoted = false) :
    ends (server host) d (promoteCandidate cand) (Promoted w cand tree) E D w' := by
  -- a call in front of the replacement
  have hread : ∀ {o : Op} {w' : World}, o.part = .nothing → Writing w cand tree [] w' ∧ w'.promoted = false →
      ends (server host) d (call o) (fun a w'' => w'' = w' ∧ ∃ c, a = (exec host o c w').1) E D w' := by
    intro o w' ho h
    refine ends_exec (fun _ => hx.stop w' h.1) (fun c _ _ => ⟨exec_nothing ho, c, rfl⟩) (fun _ e _ _ => hx.raised e w' h.1 h.2)
      (fun c e _ _ => ?_)
    rw [exec_nothing ho]
    exact hx.raised e w' h.1 h.2
  refine ends_seq (hread rfl ⟨h, hflag⟩) fun ok w₁ h₁ => ends_ite (fun _ => ?_) (fun _ => h₁.1 ▸ hx.raised _ _ h hflag)
  obtain ⟨rfl, -⟩ := h₁
  refine ends_seq (hread rfl ⟨h, hflag⟩) fun previous w₂ h₂ => ?_
  have hprevious : previous = w.link.filter fun g => (w.gen g).isSome := by
    obtain ⟨rfl, c, rfl⟩ := h₂
    change w₂.link.filter (fun g => (w₂.gen g).isSome) = _
    rw [h.same.link]
    cases hl : w.link with
    | none => rfl
    | some g => simp only [Option.filter_some, h.same.tree g hl]
  obtain ⟨rfl, -⟩ := h₂
  refine ends_seq (hread rfl ⟨h, hflag⟩) fun st w₃ h₃ => ?_
  have hinherited : st.convergePending = w.marked := by
    obtain ⟨rfl, c, rfl⟩ := h₃
    refine (marked_getD w₃ host.py).trans ?_
    exact marked_eq h.same.state
  obtain ⟨rfl, -⟩ := h₃
  refine ends_seq (M := fun _ w'' => Swapped w cand tree w'' ∧ w''.promoted = false) (ends_seq
    (M := fun _ w'' => Writing w cand tree [] w'' ∧ w''.promoted = false ∧ w''.tmpLink = some cand) ?_ fun _ w₁ h₁ => ?_)
    fun _ w₁ h₁ => ?_
  · have hstep : ∀ c, Writing w cand tree [] (exec host (.symlinkTmp cand) c w₃).2 := fun c =>
      h.exec rfl (by simp [Op.part]) (by simp [Op.part]) (by simp [Op.part]) (by simp [Op.part])
    exact ends_exec (fun _ => hx.stop w₃ h) (fun c _ _ => ⟨hstep c, hflag, rfl⟩) (fun _ e _ _ => hx.raised e w₃ h hflag)
      (fun c e _ _ => hx.raised e _ (hstep c) hflag)
  · obtain ⟨h, hflag, htmp⟩ := h₁
    exact ends_exec (fun _ => hx.stop w₁ h) (fun c _ _ => ⟨swapped_replaceLink h htmp, hflag⟩)
      (fun _ e _ _ => hx.raised e w₁ h hflag) (fun c e _ _ => hx.replaced e _ (swapped_replaceLink (c := c) h htmp) hflag)
  · obtain ⟨h, hflag⟩ := h₁
    refine ends_seq (M := fun _ w'' => Swapped w cand tree w'' ∧ w''.promoted = true) ?_ fun _ w₂ h₂ => ?_
    · have hstep : ∀ c, Swapped w cand tree (exec host (.setPromoted true) c w₁).2 := fun c =>
        h.exec (by simp [Op.part]) (by simp [Op.part]) (by simp [Op.part]) (by simp [Op.part]) (by simp [Op.part])
      exact ends_exec (fun hs => hx.stop_set w₁ h hs) (fun c _ _ => ⟨hstep c, rfl⟩) (fun _ e _ _ => hx.replaced e w₁ h hflag)
        (fun c e hc hf => hx.set_after e c w₁ h hc (by rw [hf]; rfl))
    · obtain ⟨h, hflag⟩ := h₂
      refine ends_seq (M := fun _ => Promoted w cand tree (previous, st.convergePending)) ?_ fun _ w₃ h₃ => h₃
      exact ends_exec (fun hs => hx.stop_save w₂ _ h rfl hs)
        (fun c _ _ => ⟨h.link, h.gen, rfl, h.docker, h.plans, h.tree, hflag, hprevious, hinherited⟩)
        (fun c e hc hf => hx.save_before e c w₂ _ h hflag rfl hc (by rw [hf]; rfl))
        (fun c e _ _ => hx.save_after e w₂ _ h hflag rfl)

/-- How a careful command leaves that part when it does not return: the link was not replaced, or the clean-up is about to
take the live tree away, or the server remembers. -/
def Left (w : World) (cand : Gen) (tree : Tree) (w' : World) : Prop :=
  (Writing w cand tree [] w' ∧ w'.promoted = false) ∨ (w'.link = some cand ∧ w'.promoted = false) ∨
    (w'.promoted = true ∧ Remembered w')

/-- How a careful command may leave the part up to the mark. -/
theorem careful_exits (hw : Remembered w) : Exits careful w cand tree (fun _ => Left w cand tree) Remembered where
  stop w' h := h.same.remembered hw
  raised _ _ h hflag := .inl ⟨h, hflag⟩
  replaced _ _ h hflag := .inr (.inl ⟨h.link, hflag⟩)
  stop_set _ _ hs := hs trivial
  set_after e c w' h hc hf := by
    refine .inr (.inr ⟨rfl, ?_⟩)
    have hremembered : Remembered w' := by
      by_contra hn
      have hfalse : c.fault.isAfter = false := hc hn
      rw [hf] at hfalse
      cases hfalse
    exact hremembered.congr rfl rfl rfl
  stop_save _ _ _ hst hs := hs hst
  save_before e c w' st h hflag hst hc hf := by
    refine .inr (.inr ⟨hflag, ?_⟩)
    by_contra hn
    have hfalse : c.fault.isBefore = false := hc hst hn
    rw [hf] at hfalse
    cases hfalse
  save_after _ _ _ _ hflag hst := .inr (.inr ⟨hflag, .inl hst⟩)

/-- Deleting a tree the link does not point at. -/
theorem Remembered.removeTree {g : Gen} {c : Choice} (h : Remembered w) (hne : w.link ≠ some g) :
    Remembered (removeTree w g c) := by
  have hstate : (VpnStack.removeTree w g c).state = w.state := by
    unfold VpnStack.removeTree
    split <;> rfl
  have hdocker : (VpnStack.removeTree w g c).docker = w.docker := by
    unfold VpnStack.removeTree
    split <;> rfl
  refine h.congr (marked_eq hstate) (liveTree_eq removeTree_link fun g' hg' => removeTree_other ?_) hdocker
  rintro rfl
  exact hne hg'

/-- The clean-up of a candidate that was not promoted. A live one is taken away whole, or the server remembers. -/
theorem dropCandidate_ends (hw : Remembered w) (h : Left w cand tree w') :
    ends (server host) careful (dropCandidate cand) (fun _ => Remembered) (fun _ => Remembered) Remembered w' := by
  have hstop : (careful.stop .getPromoted w' → Remembered w') := fun hs => hs trivial
  have hfault : ∀ c, careful.choice .getPromoted c w' → c.fault ≠ .none → Remembered w' := by
    intro c hc hf
    by_contra hn
    exact hf (hc hn)
  refine ends_seq (M := fun b w'' => b = w''.promoted ∧ Left w cand tree w'') ?_ fun b w'' hb => ends_ite (fun htrue => ?_)
    (fun hfalse => ?_)
  · exact ends_exec hstop (fun c _ _ => ⟨rfl, h⟩) (fun c _ hc hf => hfault c hc (by rw [hf]; nofun))
      (fun c _ hc hf => hfault c hc (by rw [hf]; nofun))
  · obtain ⟨rfl, ⟨-, hflag⟩ | ⟨-, hflag⟩ | ⟨-, hr⟩⟩ := hb
    · rw [hflag] at htrue
      cases htrue
    · rw [hflag] at htrue
      cases htrue
    · exact hr
  · obtain ⟨rfl, hleft⟩ := hb
    by_cases hlink : w''.link = some cand
    · have hexec : ∀ c, careful.choice (.rmtreeIgnoringErrors cand) c w'' → c.fault.isBefore = false →
          Remembered (exec host (.rmtreeIgnoringErrors cand) c w'').2 := by
        intro c hc hf
        rcases hc hlink with hmarked | ⟨-, hbefore⟩ | ⟨-, hok⟩
        · refine .inl ?_
          change (Option.map _ (removeTree w'' cand c).state).getD false = true
          unfold removeTree
          split <;> exact hmarked
        · rw [hf] at hbefore
          cases hbefore
        · refine .inr (.inl ?_)
          change Option.map _ ((removeTree w'' cand c).link.bind (removeTree w'' cand c).gen) = none
          rw [removeTree_link, hlink, Option.bind_some, removeTree_self, if_pos hok, Option.map_none]
      refine ends_exec (fun hs => hs trivial) (fun c hc hf => hexec c hc (by rw [hf]; rfl)) (fun c e hc hf => ?_)
        (fun c e hc hf => hexec c hc (by rw [hf]; rfl))
      rcases hc hlink with hmarked | ⟨hr, -⟩ | ⟨hbefore, -⟩
      · exact .inl hmarked
      · exact hr
      · rw [hf] at hbefore
        cases hbefore
    · have hr : Remembered w'' := by
        rcases hleft with ⟨h, -⟩ | ⟨h, -⟩ | ⟨hflag, -⟩
        · exact h.same.remembered hw
        · exact absurd h hlink
        · exact absurd hflag hfalse
      exact ends_exec (fun _ => hr) (fun c _ _ => hr.removeTree hlink) (fun _ _ _ _ => hr) (fun c _ _ _ => hr.removeTree hlink)

/-- Behind the mark the clean-up does nothing. -/
theorem dropCandidate_promoted {r : Option Gen × Bool} (h : Promoted w cand tree r w') :
    ends (server host) d (dropCandidate cand) (fun _ => Promoted w cand tree r) (fun _ => Promoted w cand tree r)
      (Promoted w cand tree r) w' := by
  refine ends_seq (ends_read rfl h) fun b w'' hb => ?_
  obtain ⟨rfl, c, rfl⟩ := hb
  refine ends_ite (fun _ => h) (fun hfalse => absurd h.flag hfalse)

end Candidate

/-! ## What an apply plans to change -/

/-- `changed`, for a candidate. -/
def plan (w : World) (tree : Tree) : Option Changed := if w.marked then none else changedServices w.liveTree tree

section Plan

variable {host : Host} {d : Discipline Op World Choice} {w w' : World} {cand : Gen} {tree : Tree} {s : Service}
  {r : Option Gen × Bool}

/-- What the comparison of the two trees finds is what is planned. -/
theorem changedBetween_ends (h : Promoted w cand tree r w') :
    ends (server host) d (changedBetween r.1 cand)
      (fun diff w'' => w'' = w' ∧ (if r.2 then none else diff) = plan w tree) (fun _ w'' => w'' = w') (fun w'' => w'' = w')
      w' := by
  have hplan : ∀ diff, diff = changedServices w.liveTree tree → (if r.2 then none else diff) = plan w tree := by
    rintro diff rfl
    rw [h.inherited]
    rfl
  have hprevious := h.previous
  cases hr : r.1 with
  | none =>
    refine ⟨rfl, hplan none ?_⟩
    have hnone : w.liveTree = none := by
      unfold World.liveTree
      cases hl : w.link with
      | none => rfl
      | some g =>
        rw [hr, hl] at hprevious
        cases hg : w.gen g with
        | none => rw [Option.bind_some, hg, Option.map_none]
        | some x => simp [Option.filter, hg] at hprevious
    rw [hnone]
    rfl
  | some g =>
    rw [hr] at hprevious
    obtain ⟨hl, hpresent⟩ := Option.filter_eq_some_iff.mp hprevious.symm
    have hlive : w.liveTree = (w.gen g).map (·.files) := by rw [World.liveTree, hl, Option.bind_some]
    refine ends_seq (ends_read (I := fun w'' => w'' = w') rfl rfl) fun old w'' hold => ?_
    obtain ⟨rfl, c, rfl⟩ := hold
    refine ends_seq (ends_read (I := fun wnew => wnew = w'') rfl rfl) fun new wnew hnew => ?_
    obtain ⟨rfl, c', rfl⟩ := hnew
    refine ⟨rfl, hplan _ ?_⟩
    change changedServices ((wnew.gen g).map (·.files)) (((wnew.gen cand).map (·.files)).getD []) = _
    rw [h.tree g hl, h.gen, hlive]
    rfl

/-- A plan is to do everything, or it starts from containers that read the live tree, and names the reader of everything that
differs from it. -/
theorem plan_cases (hw : Remembered w) (tree : Tree) : plan w tree = none ∨ ∃ changed live, plan w tree = some changed ∧
    w.liveTree = some live ∧ AllFresh w ∧ ∀ rel, live.lookup rel = tree.lookup rel ∨
      ∃ s how, consumer rel = some (s, how) ∧ NotedFor changed s how := by
  unfold plan
  cases hm : w.marked with
  | true => exact .inl rfl
  | false =>
    rw [if_neg Bool.false_ne_true]
    cases hplan : changedServices w.liveTree tree with
    | none => exact .inl rfl
    | some changed =>
      obtain ⟨live, hlive, hall⟩ := changedServices_sound hplan
      refine .inr ⟨changed, live, rfl, hlive, ?_, hall⟩
      rcases hw with hw | hw | hw
      · rw [hm] at hw
        cases hw
      · rw [hlive] at hw
        cases hw
      · exact hw

theorem ne_none_of_notedFor {changed : Changed} {how : How} (h : NotedFor changed s how) : changed s ≠ none := by
  rcases h with h | ⟨-, h⟩ <;> rw [h] <;> exact Option.some_ne_none _

/-- What a plan names is enough to make the service fresh, unless it is fresh already. -/
theorem plan_handles (hw : Remembered w) {services : List Service} (hs : s ∈ services) (htracked : Tracked tree s) :
    FreshIn tree s (w.docker.containers s) ∨ pendingOf services (plan w tree) s = some .recreate ∨
      (howOf s = .mount ∧ pendingOf services (plan w tree) s ≠ none) := by
  rcases plan_cases hw tree with hplan | ⟨changed, live, hplan, hlive, hfresh, hall⟩
  · rw [hplan]
    exact .inr (.inl (if_pos hs))
  rw [hplan]
  by_cases hagree : ∀ rel how, consumer rel = some (s, how) → live.lookup rel = tree.lookup rel
  · refine .inl fun c hc => ?_
    have hlive' : w.live = live := by rw [live_eq_getD, hlive, Option.getD_some]
    have htracked' : Tracked w.live s := by
      refine htracked.imp_right ?_
      rintro ⟨rel, how, hconsumer, hne⟩
      rw [hlive']
      exact ⟨rel, how, hconsumer, (hagree rel how hconsumer).symm ▸ hne⟩
    exact ((hfresh s htracked') c hc).congr fun rel how hconsumer => hlive' ▸ hagree rel how hconsumer
  · simp only [not_forall] at hagree
    obtain ⟨rel, how, hconsumer, hne⟩ := hagree
    rcases hall rel with heq | ⟨s', how', hconsumer', hnoted⟩
    · exact absurd heq hne
    · cases hconsumer.symm.trans hconsumer'
      rcases hnoted with hrecreate | ⟨hmount, hnoted⟩
      · exact .inr (.inl hrecreate)
      · refine .inr (.inr ⟨(how_eq hconsumer).symm.trans hmount, ?_⟩)
        change changed s ≠ none
        rw [hnoted]
        exact Option.some_ne_none _

/-- An expected service whose container is stale is in the plan. -/
theorem plan_covers (hw : Remembered w) {py : CaseMap} {st : State} {secrets : Secrets} {common : Tree} {users : List User}
    (htree : buildTree secrets common users (enabledProtocols py st) = .ok tree)
    (hs : s ∈ expectedServices (enabledProtocols py st)) {c : Container} (hc : w.docker.containers s = some c)
    (hstale : Stale s w.live c) : plan w tree = none ∨ ∃ changed, plan w tree = some changed ∧ changed s ≠ none := by
  rcases plan_cases hw tree with hplan | ⟨changed, live, hplan, hlive, hfresh, hall⟩
  · exact .inl hplan
  refine .inr ⟨changed, hplan, ?_⟩
  have hlive' : w.live = live := by rw [live_eq_getD, hlive, Option.getD_some]
  have hnot : ¬ Tracked w.live s := fun htracked => not_fresh_iff.mpr hstale (hfresh s htracked c hc)
  rw [Tracked, not_or] at hnot
  obtain ⟨hbox, hno⟩ := hnot
  have hsocks : s ≠ .dnsttSocks := by
    rintro rfl
    obtain ⟨rel, how, b, hconsumer, -⟩ := hstale
    exact consumer_ne_dnsttSocks hconsumer
  obtain ⟨rel, how, hconsumer, hne⟩ := hasInput_of_expected htree hs hbox hsocks
  rcases hall rel with heq | ⟨s', how', hconsumer', hnoted⟩
  · refine absurd ⟨rel, how, hconsumer, ?_⟩ hno
    rw [hlive', heq]
    exact hne
  · cases hconsumer.symm.trans hconsumer'
    exact ne_none_of_notedFor hnoted

end Plan

/-! ## The converge -/

/-- The candidate is live, and the mark is there. -/
structure Live (cand : Gen) (tree : Tree) (w : World) : Prop where
  link : w.link = some cand
  gen : w.gen cand = some ⟨tree, tree⟩
  marked : w.marked = true

/-- And every container reads it. -/
def Converged (cand : Gen) (tree : Tree) (w : World) : Prop := Live cand tree w ∧ AllFresh w

section Converge

variable {host : Host} {d : Discipline Op World Choice} {w : World} {cand : Gen} {tree : Tree}

theorem Live.remembered (h : Live cand tree w) : Remembered w := .inl h.marked

theorem Live.liveTree (h : Live cand tree w) : w.liveTree = some tree := by
  rw [World.liveTree, h.link, Option.bind_some, h.gen, Option.map_some]

theorem Live.live (h : Live cand tree w) : w.live = tree := by rw [live_eq_getD, h.liveTree, Option.getD_some]

/-- A call that is not on the link, the trees or the state keeps it. -/
theorem Live.exec {o : Op} {c : Choice} (h : Live cand tree w) (hlink : o.part ≠ .link) (htrees : o.part ≠ .trees)
    (hstate : o.part ≠ .state) : Live cand tree (exec host o c w).2 :=
  ⟨(exec_link hlink).trans h.link, (congrArg (List.lookup cand) (exec_gens htrees)).trans h.gen,
    (marked_eq (exec_state hstate)).trans h.marked⟩

/-- The parts of a server a converge changes, but for the state file. -/
def converging : List Part := .docker :: others

/-- A call on a part that a convergence changes keeps the containers fresh, because the trees stay. -/
theorem converged_exec {o : Op} {c : Choice} (h : Converged cand tree w) (ho : o.part ∈ converging) :
    Converged cand tree (exec host o c w).2 := by
  have hne : ∀ part ∉ converging, o.part ≠ part := fun part hpart heq => hpart (heq ▸ ho)
  have hlive : Live cand tree (exec host o c w).2 :=
    h.1.exec (hne .link (by decide)) (hne .trees (by decide)) (hne .state (by decide))
  refine ⟨hlive, fun s hs => ?_⟩
  rw [hlive.live] at hs ⊢
  refine exec_containers (I := fun s o => Tracked tree s → FreshIn tree s o) (fun s => ?_) (fun s hs => ?_) s hs
  · rw [h.1.live]
    exact (freshIn_kept tree s).imp _
  · have hfresh := h.2 s
    rw [h.1.live] at hfresh
    exact hfresh hs

/-- A script on such parts keeps them fresh, however it ends. -/
theorem converging_keep {parts : List Part} {α : Type} {p : Cmd α} (hp : Touches parts p) (hparts : parts ⊆ converging)
    (h : Converged cand tree w) :
    ends (server host) d p (fun _ => Converged cand tree) (fun _ => Converged cand tree) (Converged cand tree) w :=
  hp.keeps (fun _ ho _ _ h => converged_exec h (hparts ho)) h

/-- `up`, when it is told of every service that is not fresh. -/
theorem up_fresh {enabled : List Protocol} {changed : Option Changed} (h : Live cand tree w)
    (hhandled : ∀ s, Tracked tree s → s ∈ expectedServices enabled ∧ (FreshIn tree s (w.docker.containers s) ∨
      pendingOf (expectedServices enabled) changed s = some .recreate ∨
      (howOf s = .mount ∧ pendingOf (expectedServices enabled) changed s ≠ none))) :
    ends (server host) d (up enabled changed) (fun ok w' => Live cand tree w' ∧ (ok = true → AllFresh w'))
      (fun _ => Live cand tree) (Live cand tree) w := by
  have hkeep : ends (server host) d (up enabled changed)
      (fun _ w' => Live cand tree w' ∧ ∀ s, FreshIn tree s (w.docker.containers s) → FreshIn tree s (w'.docker.containers s))
      (fun _ w' => Live cand tree w' ∧ ∀ s, FreshIn tree s (w.docker.containers s) → FreshIn tree s (w'.docker.containers s))
      (fun w' => Live cand tree w' ∧ ∀ s, FreshIn tree s (w.docker.containers s) → FreshIn tree s (w'.docker.containers s)) w := by
    refine (up_touches enabled changed).keeps (fun o ho c w' hw' => ?_) ⟨h, fun _ h => h⟩
    have hne : ∀ part ∉ [Part.nothing, .docker], o.part ≠ part := fun part hpart heq => hpart (heq ▸ ho)
    refine ⟨hw'.1.exec (hne .link (by decide)) (hne .trees (by decide)) (hne .state (by decide)), ?_⟩
    refine exec_containers (I := fun s o => FreshIn tree s (w.docker.containers s) → FreshIn tree s o) (fun s => ?_) hw'.2
    rw [hw'.1.live]
    exact (freshIn_kept tree s).imp _
  have hup := ends_narrow (up_ends host enabled changed w) (fun o c w (_ : d.choice o c w) => trivial) (fun _ _ _ => trivial)
  refine ends_mono (ends_and hkeep hup) (fun ok w' hw' => ⟨hw'.1.1, fun hok s hs => ?_⟩) (fun _ _ h => h.1.1) (fun _ h => h.1.1)
  obtain ⟨⟨hlive, hfresh⟩, hconverged⟩ := hw'
  rw [hlive.live] at hs ⊢
  obtain ⟨hexpected, hcase⟩ := hhandled s hs
  obtain ⟨c, hc, hrestarted, hnew⟩ := (hconverged hok).done s hexpected
  rw [h.live] at hrestarted hnew
  rcases hcase with hs | hrecreate | ⟨hmount, hne⟩
  · exact hfresh s hs
  · intro c' hc'
    cases hc.symm.trans hc'
    exact fresh_of_new (hnew hrecreate)
  · intro c' hc'
    cases hc.symm.trans hc'
    exact fresh_of_restarted (hrestarted hne) hmount

/-- A write of the state file that leaves the mark. -/
theorem saveState_converged {st : State} (h : Converged cand tree w) (hst : st.convergePending = true) :
    ends (server host) d (call (.saveState st)) (fun _ => Converged cand tree) (fun _ => Converged cand tree)
      (Converged cand tree) w :=
  keeps_call h fun _ => ⟨⟨h.1.link, h.1.gen, hst⟩, h.2⟩

/-- The state that is read behind the convergence holds the mark. -/
theorem loadState_converged (h : Converged cand tree w) :
    ends (server host) d (call .loadState) (fun st w' => Converged cand tree w' ∧ st.convergePending = true)
      (fun _ => Converged cand tree) (Converged cand tree) w := by
  refine ends_mono (ends_read rfl h) (fun st w' hw' => ?_) (fun _ _ h => h) (fun _ h => h)
  obtain ⟨rfl, c, rfl⟩ := hw'
  exact ⟨h, (marked_getD w' host.py).trans h.1.marked⟩

/-- One call on a part that a convergence changes keeps the containers fresh. -/
theorem call_converged {o : Op} (ho : o.part ∈ converging) (h : Converged cand tree w) :
    ends (server host) d (call o) (fun _ => Converged cand tree) (fun _ => Converged cand tree) (Converged cand tree) w :=
  keeps_call h fun _ => converged_exec h ho

/-- The reconcile of the certificates keeps the containers fresh, though it writes the state. -/
theorem reconcileIkev2_converged (h : Converged cand tree w) :
    ends (server host) d reconcileIkev2 (fun _ => Converged cand tree) (fun _ => Converged cand tree)
      (Converged cand tree) w := by
  refine ends_seq (call_converged (by decide) h) fun running w h => ends_ite (fun _ => ?_) (fun _ => h)
  refine ends_seq (loadState_converged h) fun st w h => ?_
  obtain ⟨h, hst⟩ := h
  refine ends_seq (call_converged (by decide) h) fun users w h => ends_seq (call_converged (by decide) h)
    fun listing w h => ends_ite (fun _ => ?_) (fun _ => h)
  refine ends_seq (M := fun _ => Converged cand tree) ?_ fun _ w h => h
  refine ends_seq (converging_keep (show Touches [.certs] _ from Script.uses_foldlM fun r name _ => withdraw_touches r name)
    (by decide) h)
    fun r w h => ?_
  refine ends_seq (converging_keep (show Touches [.certs] _ from Script.uses_foldlM fun r name _ => issue_touches r name)
    (by decide) h)
    fun r w h => ?_
  refine ends_seq (saveState_converged h hst) fun _ w h => ?_
  exact ends_seq (call_converged (by simp [Op.part, converging, others]) h) fun _ w h => h

/-- Everything behind `up` keeps the containers fresh. -/
theorem convergeRest_converged (py : CaseMap) (enabled : List Protocol) (result : ApplyResult) (h : Converged cand tree w) :
    ends (server host) d (convergeRest py enabled result) (fun _ => Converged cand tree) (fun _ => Converged cand tree)
      (Converged cand tree) w := by
  refine ends_seq (converging_keep (downDisabled_touches py enabled) (by decide) h) fun _ w h => ?_
  refine ends_seq (call_converged (by simp [Op.part, converging, others]) h) fun _ w h => ?_
  refine ends_seq (converging_keep (notRunning_touches enabled) (by decide) h) fun _ w h => ?_
  refine ends_seq (call_converged (by simp [Op.part, converging, others]) h) fun _ w h =>
    ends_ite (fun _ => ?_) (fun _ => h)
  refine ends_seq (call_converged (by decide) h) fun _ w h => ends_ite (fun _ => ?_) (fun _ => h)
  refine ends_seq (reconcileIkev2_converged h) fun r w h => ?_
  cases r with
  | none => exact h
  | some r => exact ends_seq (call_converged (by simp [Op.part, converging, others]) h) fun _ w h => h

/-- What an apply that does not leave a converge pending has done. -/
def Served (tree : Tree) (result : ApplyResult) (w : World) : Prop :=
  result.convergePending = false → w.liveTree = some tree ∧ AllFresh w

/-- The end of an apply takes the mark away only where the containers read the candidate. -/
theorem finish_ends (enabled : List Protocol) (result : ApplyResult) (h : Converged cand tree w) :
    ends (server host) d (finish enabled result) (fun result w' => Remembered w' ∧ Served tree result w')
      (fun _ => Remembered) Remembered w := by
  refine ends_seq (M := fun _ => Converged cand tree) ?_ fun st w h => ?_
  · exact ends_mono (loadState_converged h) (fun _ _ h => h.1) (fun _ _ h => h.1.remembered) (fun _ h => h.1.remembered)
  · -- whether the mark is cleared or not, the containers read the live tree
    have hsave : ∀ st c, Remembered (exec host (.saveState st) c w).2 := fun _ _ => .inr (.inr h.2)
    refine ends_seq (M := fun _ w' => Remembered w' ∧ w'.liveTree = some tree ∧ AllFresh w') ?_
      fun _ w' h' => ⟨h'.1, fun _ => h'.2⟩
    exact ends_exec (fun _ => h.1.remembered) (fun c _ _ => ⟨hsave _ c, h.1.liveTree, h.2⟩) (fun _ _ _ _ => h.1.remembered)
      (fun c _ _ _ => hsave _ c)

end Converge

/-! ## `apply` -/

/-- What `render.snapshot` takes. -/
def snapshotOf (w : World) : Secrets :=
  if w.zone = [] then ⟨w.keyring⟩
  else ⟨fun name => if name = Dnstt.zoneKey then some (Text.encode w.zone) else w.keyring name⟩

/-- The protocols that are on. -/
def enabledIn (host : Host) (w : World) : List Protocol := enabledProtocols host.py (w.state.getD (State.default host.py))

/-- The tree that is rendered from the users, the secrets and the settings of the server. -/
def Renders (host : Host) (w : World) (tree : Tree) : Prop :=
  buildTree (snapshotOf w) w.common.files w.users (enabledIn host w) = .ok tree

section Apply

variable {host : Host} {d : Discipline Op World Choice} {w w' : World} {cand : Gen} {tree : Tree}

/-- A part that only reads. -/
theorem reads_ends {α : Type} {p : Cmd α} (hp : Touches [.nothing] p) :
    ends (server host) d p (fun _ w' => w' = w) (fun _ w' => w' = w) (fun w' => w' = w) w :=
  hp.keeps (I := fun w' => w' = w) (fun _ ho _ _ h => (exec_nothing (List.mem_singleton.mp ho)).trans h) rfl

/-- The snapshot is read and nothing changes. -/
theorem snapshot_ends : ends (server host) d Render.snapshot (fun secrets w' => w' = w ∧ secrets = snapshotOf w)
    (fun _ w' => w' = w) (fun w' => w' = w) w := by
  refine ends_seq (ends_read (I := fun w' => w' = w) rfl rfl) fun keyring w' h => ?_
  obtain ⟨rfl, c, rfl⟩ := h
  refine ends_seq (ends_read (I := fun w'' => w'' = w') rfl rfl) fun zone w'' h => ?_
  obtain ⟨rfl, c', rfl⟩ := h
  refine ends_ite (fun hz => ⟨rfl, ?_⟩) (fun hz => ⟨rfl, ?_⟩)
  · exact (if_pos hz).symm
  · exact (if_neg hz).symm

/-- What is rendered is the tree of the server as it is, and nothing changes. -/
theorem renderAll_ends : ends (server host) d (Render.renderAll host.py)
    (fun r w' => w' = w ∧ Renders host w r.1 ∧ r.2 = enabledIn host w) (fun _ w' => w' = w) (fun w' => w' = w) w := by
  refine ends_seq (ends_read (I := fun w' => w' = w) rfl rfl) fun users w' h => ?_
  obtain ⟨rfl, c, rfl⟩ := h
  refine ends_seq (ends_read (I := fun w'' => w'' = w') rfl rfl) fun st w'' h => ?_
  obtain ⟨rfl, c', rfl⟩ := h
  refine ends_seq snapshot_ends fun secrets w' h => ?_
  obtain ⟨rfl, rfl⟩ := h
  refine ends_seq (ends_read (I := fun w'' => w'' = w') rfl rfl) fun common w'' h => ?_
  obtain ⟨rfl, c'', rfl⟩ := h
  refine ends_seq (M := fun tree w' => w' = w'' ∧ Renders host w'' tree) ((ends_lift _).mpr ?_) fun tree w' h => ⟨h.1, h.2, rfl⟩
  change Post _ _ (buildTree (snapshotOf w'') w''.common.files w''.users (enabledIn host w'')) w''
  cases hbuild : buildTree (snapshotOf w'') w''.common.files w''.users (enabledIn host w'') with
  | ok tree => exact ⟨rfl, hbuild⟩
  | error e => rfl

/-- What comes of deleting trees the link does not point at. -/
theorem pruneQuietly_keeps {I : World → Prop}
    (hI : ∀ w w', w'.marked = w.marked → w'.liveTree = w.liveTree → w'.docker = w.docker → w'.plans = w.plans → I w → I w')
    (h : I w) : ends (server host) d pruneQuietly (fun _ => I) (fun _ => I) I w := by
  have hread : ∀ {o : Op} {w : World}, o.part = .nothing → I w →
      ends (server host) d (call o) (fun _ => I) (fun _ => I) I w := fun ho h =>
    keeps_call h fun _ => (exec_nothing ho).symm ▸ h
  have hrm : ∀ (path : Gen) {w : World}, I w →
      ends (server host) d (Render.rmtreeNotLive path) (fun _ => I) (fun _ => I) I w := by
    intro path w h
    refine ends_seq (ends_read rfl h) fun live w' hw' => ?_
    obtain ⟨rfl, c, rfl⟩ := hw'
    refine ends_ite (fun _ => h) (fun hne => keeps_call h fun c => ?_)
    have hstate : (removeTree w' path c).state = w'.state := @exec_state host (.rmtree path) c w' (by simp [Op.part])
    have hdocker : (removeTree w' path c).docker = w'.docker := @exec_docker host (.rmtree path) c w' (by simp [Op.part])
    have hplans : (removeTree w' path c).plans = w'.plans := @exec_plans host (.rmtree path) c w' (by simp [Op.part])
    refine hI w' _ (marked_eq hstate) (liveTree_eq removeTree_link fun g hg => removeTree_other ?_) hdocker hplans h
    rintro rfl
    exact hne hg
  refine ends_tryExcept.mpr (ends_mono (Q := fun _ => I) (E := fun _ => I) (D := I) ?_ (fun _ _ h => h) (fun e w h => ?_)
    (fun _ h => h))
  · refine ends_seq (hread rfl h) fun live w h => ends_seq (hread rfl h) fun generations w h => ?_
    exact ends_forM (I := fun _ => I) (fun old rest _ w h => ends_ite (fun _ => h) (fun _ => hrm old h)) h
  · cases e.isException
    · exact h
    · exact h

/-- A plan for the tree the server renders tells `up` of every service that is not fresh. -/
theorem plan_handled (hw : Remembered w) (hr : Renders host w tree) {s : Service} (hs : Tracked tree s) :
    s ∈ expectedServices (enabledIn host w) ∧ (FreshIn tree s (w.docker.containers s) ∨
      pendingOf (expectedServices (enabledIn host w)) (plan w tree) s = some .recreate ∨
      (howOf s = .mount ∧ pendingOf (expectedServices (enabledIn host w)) (plan w tree) s ≠ none)) := by
  have hexpected : s ∈ expectedServices (enabledIn host w) := by
    rcases hs with rfl | hs
    · exact List.mem_cons_self ..
    · exact expected_of_hasInput hr hs
  exact ⟨hexpected, plan_handles hw hexpected hs⟩

/-- The candidate, from a server that remembers. -/
theorem applyCandidate_ends (restart : Bool) (hw : Remembered w) (hr : Renders host w tree)
    (h : Writing w cand tree [] w') (hflag : w'.promoted = false) :
    ends (server host) careful (applyCandidate host.py restart (enabledIn host w) cand)
      (fun result w'' => Remembered w'' ∧ Served tree result w'') (fun _ => Remembered) Remembered w' := by
  have hpromote : ends (server host) careful (Script.tryFinally (promoteCandidate cand) (dropCandidate cand))
      (fun r => Promoted w cand tree r.1) (fun _ => Remembered) Remembered w' := by
    refine ends_tryFinally.mpr (ends_mono (promoteCandidate_spec (careful_exits hw) h hflag) (fun r w'' h'' => ?_)
      (fun _ w'' h'' => dropCandidate_ends hw h'') (fun _ h => h))
    exact ends_mono (dropCandidate_promoted h'') (fun _ _ h => h) (fun _ _ h => .inl h.marked) (fun _ h => .inl h.marked)
  refine ends_seq hpromote fun r w'' h'' => ?_
  obtain ⟨⟨previous, inherited⟩, ⟨⟩⟩ := r
  have hlive : Live cand tree w'' := ⟨h''.link, h''.gen, h''.marked⟩
  refine ends_seq (ends_mono (changedBetween_ends h'') (fun _ _ h => h) (fun _ _ h => h ▸ hlive.remembered)
    (fun _ h => h ▸ hlive.remembered)) fun diff w₁ h₁ => ?_
  obtain ⟨rfl, hplan⟩ := h₁
  have hnote : ∀ changed c, Live cand tree (exec host (.notePlan changed) c w₁).2 := fun changed c =>
    hlive.exec (by simp [Op.part]) (by simp [Op.part]) (by simp [Op.part])
  refine ends_seq (M := fun _ w' => Live cand tree w' ∧ w'.docker = w.docker) ?_ fun _ w₂ h₂ => ?_
  · exact ends_exec (fun _ => hlive.remembered) (fun c _ _ => ⟨hnote _ c, h''.docker⟩) (fun _ _ _ _ => hlive.remembered)
      (fun c _ _ _ => (hnote _ c).remembered)
  obtain ⟨hlive, hdocker⟩ := h₂
  change ends _ _ (if restart then _ else _) _ _ _ _
  refine ends_ite (fun _ => ?_) (fun _ => ⟨hlive.remembered, fun hfalse => nomatch hfalse⟩)
  have hhandled : ∀ s, Tracked tree s → s ∈ expectedServices (enabledIn host w) ∧
      (FreshIn tree s (w₂.docker.containers s) ∨
        pendingOf (expectedServices (enabledIn host w)) (plan w tree) s = some .recreate ∨
        (howOf s = .mount ∧ pendingOf (expectedServices (enabledIn host w)) (plan w tree) s ≠ none)) := by
    rw [hdocker]
    exact fun s hs => plan_handled hw hr hs
  have hforward : ∀ {I : World → Prop} {w₃ : World}, I w₃ →
      ends (server host) careful (reconcileForwarding (enabledIn host w)) (fun _ => I) (fun _ => I) I w₃ := fun h =>
    ends_mono (reads_ends (reconcileForwarding_touches _)) (fun _ _ he => he ▸ h) (fun _ _ he => he ▸ h) (fun _ he => he ▸ h)
  have hconverge : ∀ result, ends (server host) careful (converge host.py (enabledIn host w) (plan w tree) result)
      (fun _ => Converged cand tree) (fun _ => Remembered) Remembered w₂ := by
    intro result
    refine ends_seq (ends_mono (up_fresh hlive hhandled) (fun _ _ h => h) (fun _ _ h => h.remembered) (fun _ h => h.remembered))
      fun ok w₃ h₃ => ends_ite (fun hok => ?_) (fun _ => h₃.1.remembered)
    exact ends_mono (convergeRest_converged host.py (enabledIn host w) result ⟨h₃.1, h₃.2 hok⟩) (fun _ _ h => h)
      (fun _ _ h => h.1.remembered) (fun _ h => h.1.remembered)
  have hplanned : (if inherited then none else diff) = plan w tree := hplan
  rw [hplanned]
  refine ends_seq (M := fun _ => Converged cand tree) (ends_tryFinally.mpr (ends_mono (hconverge _)
    (fun _ w₃ h₃ => ?_) (fun _ w₃ h₃ => ?_) (fun _ h => h))) fun r w₃ h₃ => ?_
  · exact ends_mono (hforward h₃) (fun _ _ h => h) (fun _ _ h => h.1.remembered) (fun _ h => h.1.remembered)
  · exact hforward h₃
  · obtain ⟨result, forwarding⟩ := r
    exact finish_ends _ _ h₃

/-- What an apply that returned has to do with the world it started from. -/
def Applied (host : Host) (w : World) (result : ApplyResult) (w' : World) : Prop :=
  ∃ tree, Renders host w tree ∧ Served tree result w'

/-- `apply`, from a server that remembers. -/
theorem apply_ends (restart : Bool) (hw : Remembered w) :
    ends (server host) careful (apply host.py restart) (fun result w' => Remembered w' ∧ Applied host w result w')
      (fun _ => Remembered) Remembered w := by
  have hback : ∀ w', w' = w → Remembered w' := fun w' h => h ▸ hw
  -- up to the candidate it only reads
  have hread : ∀ {α : Type} {p : Cmd α}, Touches [.nothing] p →
      ends (server host) careful p (fun _ w' => w' = w) (fun _ => Remembered) Remembered w := fun hp =>
    ends_mono (reads_ends hp) (fun _ _ h => h) (fun _ => hback) hback
  refine ends_seq (hread (.call (by simp [Op.part]))) fun _ w₁ h₁ => ?_
  obtain rfl := h₁
  refine ends_seq (hread (.call (by simp [Op.part]))) fun _ w₂ h₂ => ?_
  obtain rfl := h₂
  refine ends_seq (hread (.call (by simp [Op.part]))) fun st w₃ h₃ => ?_
  obtain rfl := h₃
  refine ends_seq (hread (missingSecrets_touches _)) fun gaps w₄ h₄ => ends_ite (fun _ => ?_) (fun _ => hback w₄ h₄)
  obtain rfl := h₄
  refine ends_seq (ends_mono renderAll_ends (fun _ _ h => h) (fun _ => hback) hback) fun r w₅ h₅ => ?_
  obtain ⟨tree, enabled⟩ := r
  obtain ⟨rfl, hr, henabled⟩ := h₅
  dsimp only at hr henabled
  subst henabled
  refine ends_seq (ends_mono (writeCandidate_ends (Same.refl w₅)) (fun _ _ h => h) (fun _ _ h => h.remembered hw)
    (fun _ h => h.remembered hw)) fun cand w₆ h₆ => ?_
  have hflag : ∀ c, Writing w₅ cand tree [] (exec host (.setPromoted false) c w₆).2 := fun c =>
    h₆.exec rfl (by simp [Op.part]) (by simp [Op.part]) (by simp [Op.part]) (by simp [Op.part])
  refine ends_seq (M := fun _ w' => Writing w₅ cand tree [] w' ∧ w'.promoted = false) ?_ fun _ w₇ h₇ => ?_
  · exact ends_exec (fun _ => h₆.same.remembered hw) (fun c _ _ => ⟨hflag c, rfl⟩) (fun _ _ _ _ => h₆.same.remembered hw)
      (fun c _ _ _ => (hflag c).same.remembered hw)
  have hprune : ∀ {I : World → Prop} {w' : World}, (∀ w w', w'.marked = w.marked → w'.liveTree = w.liveTree →
      w'.docker = w.docker → w'.plans = w.plans → I w → I w') → I w' →
      ends (server host) careful pruneQuietly (fun _ => I) (fun _ => I) I w' := fun hI h => pruneQuietly_keeps hI h
  have hremembered : ∀ w w' : World, w'.marked = w.marked → w'.liveTree = w.liveTree → w'.docker = w.docker →
      w'.plans = w.plans → Remembered w → Remembered w' := fun _ _ hm hl hd _ h => h.congr hm hl hd
  refine ends_seq (M := fun r w' => Remembered w' ∧ Served tree r.1 w') (ends_tryFinally.mpr (ends_mono
    (applyCandidate_ends restart hw hr h₇.1 h₇.2) (fun result w₈ h₈ => ?_) (fun _ _ h => hprune hremembered h) (fun _ h => h)))
    fun r w₈ h₈ => ?_
  · refine ends_mono (hprune (I := fun w' => Remembered w' ∧ Served tree result w') (fun w w' hm hl hd hp h => ?_) h₈)
      (fun _ _ h => h) (fun _ _ h => h.1) (fun _ h => h.1)
    refine ⟨hremembered w w' hm hl hd hp h.1, fun hfalse => ?_⟩
    obtain ⟨htree, hfresh⟩ := h.2 hfalse
    refine ⟨hl.trans htree, ?_⟩
    unfold AllFresh at hfresh ⊢
    rw [live_eq_getD] at hfresh ⊢
    rw [hl, hd]
    exact hfresh
  · obtain ⟨result, ⟨⟩⟩ := r
    exact ⟨h₈.1, tree, hr, h₈.2⟩

end Apply

/-! ## The commands -/

section Commands

variable {host : Host} {w : World}

/-- A state file with the mark it had. -/
theorem remembered_saveState {st : State} {c : Choice} (h : Remembered w) (hst : st.convergePending = w.marked) :
    Remembered (exec host (.saveState st) c w).2 :=
  h.congr hst rfl rfl

/-- A script on other parts keeps the invariant, however it ends. -/
theorem others_keep {parts : List Part} {α : Type} {p : Cmd α} (hp : Touches parts p) (hparts : parts ⊆ others)
    (h : Remembered w) : ends (server host) careful p (fun _ => Remembered) (fun _ => Remembered) Remembered w :=
  hp.keeps (fun _ ho _ _ h => remembered_exec h (hparts ho)) h

/-- A state is read with the mark it has. -/
theorem loadState_ends (h : Remembered w) :
    ends (server host) careful (call .loadState) (fun st w' => w' = w ∧ st.convergePending = w.marked) (fun _ => Remembered)
      Remembered w := by
  refine ends_mono (ends_read rfl h) (fun st w' hw' => ?_) (fun _ _ h => h) (fun _ h => h)
  obtain ⟨rfl, c, rfl⟩ := hw'
  exact ⟨rfl, marked_getD w' host.py⟩

/-- The users that are read are those of the server, which stays as it is. -/
theorem loadUsers_ends (h : Remembered w) :
    ends (server host) careful (call .loadUsers) (fun users w' => w' = w ∧ users = w.users) (fun _ => Remembered)
      Remembered w := by
  refine ends_mono (ends_read rfl h) (fun users w' hw' => ?_) (fun _ _ h => h) (fun _ h => h)
  obtain ⟨rfl, c, rfl⟩ := hw'
  exact ⟨rfl, rfl⟩

/-- To queue a revocation leaves the mark as it is. -/
theorem queueRevocation_ends (user : User) (h : Remembered w) :
    ends (server host) careful (queueRevocation user) (fun _ w' => Remembered w' ∧ w'.users = w.users ∧ w'.common = w.common)
      (fun _ => Remembered) Remembered w := by
  refine ends_ite (fun _ => ?_) (fun _ => ⟨h, rfl, rfl⟩)
  refine ends_seq (loadState_ends h) fun st w' hw' => ?_
  obtain ⟨rfl, hst⟩ := hw'
  refine ends_ite (fun _ => ⟨h, rfl, rfl⟩) (fun _ => ?_)
  have hsave : ∀ c, Remembered (exec host (.saveState { st with revokePending := st.revokePending ++ [user.name] }) c w').2 :=
    fun c => remembered_saveState h hst
  exact ends_exec (fun _ => h) (fun c _ _ => ⟨hsave c, rfl, rfl⟩) (fun _ _ _ _ => h) (fun c _ _ _ => hsave c)

/-- The database was written, and the server as it then was has been applied. -/
def Deployed (host : Host) (w : World) (users : List User) (result : ApplyResult) (w' : World) : Prop :=
  ∃ w₁ : World, w₁.users = users ∧ w₁.common = w.common ∧ Settings.Same host w₁ w' ∧ Applied host w₁ result w'

/-- Write the database and apply: what is applied is what was written. -/
theorem saveApply_ends (users : List User) (h : Remembered w) :
    ends (server host) careful (do call (.saveUsers users); apply host.py true)
      (fun result w' => Remembered w' ∧ Deployed host w users result w') (fun _ => Remembered) Remembered w := by
  have hsave : ∀ c, Remembered (exec host (.saveUsers users) c w).2 := fun c => remembered_exec h (by simp [Op.part, others])
  refine ends_seq (M := fun _ w₁ => Remembered w₁ ∧ w₁.users = users ∧ w₁.common = w.common) ?_ fun _ w₁ h₁ => ?_
  · exact ends_exec (fun _ => h) (fun c _ _ => ⟨hsave c, rfl, rfl⟩) (fun _ _ _ _ => h) (fun c _ _ _ => hsave c)
  · obtain ⟨h₁, husers, hcommon⟩ := h₁
    exact ends_mono (ends_and (apply_ends true h₁) (Settings.apply_ends true))
      (fun _ _ h => ⟨h.1.1, w₁, husers, hcommon, h.2, h.1.2⟩) (fun _ _ h => h.1) (fun _ h => h.1)

/-- `user add` keeps the invariant. -/
theorem userAdd_ends (name : Text) (h : Remembered w) :
    ends (server host) careful (userAdd host.py name) (fun _ => Remembered) (fun _ => Remembered) Remembered w := by
  refine ends_seq (others_keep (show Touches [.nothing] _ from .call (by simp [Op.part])) (by decide) h) fun _ w h => ?_
  cases Users.validateName host.py name with
  | some error => exact h
  | none =>
    refine ends_seq (loadUsers_ends h) fun users w' hw' => ?_
    obtain ⟨rfl, rfl⟩ := hw'
    cases Users.find host.py w'.users name with
    | some user => exact h
    | none =>
      refine ends_seq (others_keep (show Touches [.nothing] _ from .call (by simp [Op.part])) (by decide) h) fun minted w h => ?_
      exact ends_mono (saveApply_ends _ h) (fun _ _ h => h.1) (fun _ _ h => h) (fun _ h => h)

/-- `user rm`, with what was applied. -/
theorem userRm_ends (name : Text) (h : Remembered w) :
    ends (server host) careful (userRm host.py name) (fun result w' => Remembered w' ∧
        Deployed host w (w.users.filter fun u => host.py.lower u.name ≠ host.py.lower name) result w')
      (fun _ => Remembered) Remembered w := by
  refine ends_seq (ends_mono (reads_ends (.call (by simp [Op.part]))) (fun _ _ h => h) (fun _ _ he => he ▸ h)
    (fun _ he => he ▸ h)) fun _ w₁ h₁ => ?_
  obtain rfl := h₁
  refine ends_seq (loadUsers_ends h) fun users w' hw' => ?_
  obtain ⟨rfl, rfl⟩ := hw'
  cases Users.find host.py w'.users name with
  | none => exact h
  | some user =>
    refine ends_seq (queueRevocation_ends user h) fun _ w₂ h₂ => ?_
    obtain ⟨h₂, -, hcommon⟩ := h₂
    unfold Deployed
    rw [← hcommon]
    exact saveApply_ends _ h₂

/-- `user enable` and `user disable`, with what was applied. -/
theorem setEnabled_ends (name : Text) (enabled : Bool) (h : Remembered w) :
    ends (server host) careful (setEnabled host.py name enabled) (fun result w' => Remembered w' ∧
        Deployed host w (setFirst host.py enabled name w.users) result w') (fun _ => Remembered) Remembered w := by
  refine ends_seq (ends_mono (reads_ends (.call (by simp [Op.part]))) (fun _ _ h => h) (fun _ _ he => he ▸ h)
    (fun _ he => he ▸ h)) fun _ w₁ h₁ => ?_
  obtain rfl := h₁
  refine ends_seq (loadUsers_ends h) fun users w' hw' => ?_
  obtain ⟨rfl, rfl⟩ := hw'
  cases Users.find host.py w'.users name with
  | none => exact h
  | some user =>
    refine ends_ite (fun _ => saveApply_ends _ h) (fun _ => ?_)
    refine ends_seq (queueRevocation_ends user h) fun _ w₂ h₂ => ?_
    obtain ⟨h₂, -, hcommon⟩ := h₂
    unfold Deployed
    rw [← hcommon]
    exact saveApply_ends _ h₂

/-- The secrets of a protocol are prepared without a change of the mark. -/
theorem prepareSecrets_ends (proto : Protocol) {st : State} (h : Remembered w) (hst : st.convergePending = w.marked) :
    ends (server host) careful (prepareSecrets proto st) (fun _ => Remembered) (fun _ => Remembered) Remembered w := by
  refine ends_seq (ends_mono (reads_ends (missingSecrets_touches _)) (fun _ _ h => h) (fun _ _ he => he ▸ h)
    (fun _ he => he ▸ h)) fun gaps w₁ h₁ => ?_
  obtain rfl := h₁
  refine ends_ite (fun _ => h) (fun _ => ?_)
  refine ends_seq (M := fun _ => Remembered) (ends_tryExcept.mpr ?_) fun produced w h => ?_
  · refine ends_exec (fun _ => h) (fun _ _ _ => h) (fun c e _ _ => ?_) (fun c e _ _ => ?_)
    all_goals
      cases e.isException with
      | false => exact h
      | true =>
        -- the toggle is taken back in the state that was read
        have hsave : ∀ c, Remembered (exec host (.saveState { st with enabled := st.enabled.filter (· ≠ proto.name) }) c w₁).2 :=
          fun c => remembered_saveState h hst
        refine ends_seq (M := fun _ => Remembered) ?_ fun _ _ h => h
        exact ends_exec (fun _ => h) (fun c _ _ => hsave c) (fun _ _ _ _ => h) (fun c _ _ _ => hsave c)
  · exact others_keep (show Touches [.keyring] _ from Script.uses_forM fun _ _ => Script.uses_op (by simp [Op.part]))
      (by decide) h

/-- The toggle of a protocol keeps the invariant. -/
theorem toggleProtocol_ends (proto : Protocol) {st : State} (on : Bool) (h : Remembered w) (hst : st.convergePending = w.marked) :
    ends (server host) careful (toggleProtocol host.py proto st on) (fun _ => Remembered) (fun _ => Remembered) Remembered w := by
  refine ends_seq (M := fun _ w' => Remembered w' ∧ st.convergePending = w'.marked) ?_ fun _ w₁ h₁ => ends_ite (fun _ => ?_)
    (fun _ => ends_mono (apply_ends true h₁.1) (fun _ _ h => h.1) (fun _ _ h => h) (fun _ h => h))
  · exact ends_exec (fun _ => h) (fun c _ _ => ⟨remembered_saveState h hst, rfl⟩) (fun _ _ _ _ => h)
      (fun c _ _ _ => remembered_saveState h hst)
  · refine ends_seq (prepareSecrets_ends proto h₁.1 h₁.2) fun _ w h => ?_
    exact ends_mono (apply_ends true h) (fun _ _ h => h.1) (fun _ _ h => h) (fun _ h => h)

/-- `protocol on` and `protocol off` keep the invariant. -/
theorem setProtocol_ends (name : String) (on : Bool) (h : Remembered w) :
    ends (server host) careful (setProtocol host.py name on) (fun _ => Remembered) (fun _ => Remembered) Remembered w := by
  refine ends_seq (others_keep (show Touches [.nothing] _ from .call (by simp [Op.part])) (by decide) h) fun _ w h => ?_
  refine ends_seq (M := fun _ => Remembered) (ends_lift _ |>.mpr ?_) fun proto w h => ?_
  · cases getProtocol host.py name with
    | ok proto => exact h
    | error e => exact h
  refine ends_seq (loadState_ends h) fun st w' hw' => ?_
  obtain ⟨rfl, hst⟩ := hw'
  refine ends_ite (fun _ => h) (fun _ => ends_ite (fun _ => ?_) (fun _ => ends_map.mpr (toggleProtocol_ends proto on h hst)))
  refine ends_seq (ends_mono (reads_ends (missingDeploymentConfig_touches proto)) (fun _ _ h => h) (fun _ _ he => he ▸ h)
    (fun _ he => he ▸ h)) fun gap w₁ h₁ => ?_
  obtain rfl := h₁
  cases gap with
  | some gap => exact h
  | none => exact ends_map.mpr (toggleProtocol_ends proto on h hst)

/-- Every careful command leaves a server that remembers. -/
theorem command_ends (a : Action) (h : Remembered w) :
    ends (server host) careful (a.command host.py) (fun _ => Remembered) (fun _ => Remembered) Remembered w := by
  cases a with
  | userAdd name => exact ends_map.mpr (userAdd_ends name h)
  | userRm name => exact ends_map.mpr (ends_mono (userRm_ends name h) (fun _ _ h => h.1) (fun _ _ h => h) (fun _ h => h))
  | userEnable name =>
    exact ends_map.mpr (ends_mono (setEnabled_ends name true h) (fun _ _ h => h.1) (fun _ _ h => h) (fun _ h => h))
  | userDisable name =>
    exact ends_map.mpr (ends_mono (setEnabled_ends name false h) (fun _ _ h => h.1) (fun _ _ h => h) (fun _ h => h))
  | protocolOn name => exact setProtocol_ends name true h
  | protocolOff name => exact setProtocol_ends name false h
  | apply restart => exact ends_map.mpr (ends_mono (apply_ends restart h) (fun _ _ h => h.1) (fun _ _ h => h) (fun _ h => h))

/-- What happens to the containers between two commands starts them from the live tree, or does not start them. -/
theorem event_keeps (e : Event) (h : Remembered w) : Remembered (e.after w) := by
  have hdocker : ∀ docker, (∀ s, Tracked w.live s → FreshIn w.live s (docker.containers s)) ∨ ¬ AllFresh w →
      Remembered { w with docker } := by
    intro docker hd
    rcases h with h | h | h
    · exact .inl h
    · exact .inr (.inl h)
    · exact .inr (.inr (hd.resolve_right fun hn => hn h))
  by_cases hfresh : AllFresh w
  · have hkept : ∀ s, Kept w.live fun o => Tracked w.live s → FreshIn w.live s o := fun s => (freshIn_kept w.live s).imp _
    cases e with
    | stop s => exact hdocker _ (.inl (leave_keeps hkept _ hfresh))
    | remove s => exact hdocker _ (.inl (leave_keeps hkept _ hfresh))
    | start s => exact hdocker _ (.inl (start_keeps hkept hfresh))
    | secret name content => exact h
    | zone value => exact h
    | common files => exact h
  · cases e with
    | stop s => exact hdocker _ (.inr hfresh)
    | remove s => exact hdocker _ (.inr hfresh)
    | start s => exact hdocker _ (.inr hfresh)
    | secret name content => exact h
    | zone value => exact h
    | common files => exact h

end Commands

/-- In every careful life the server remembers. -/
theorem life_remembered (host : Host) (keyring : String → Option Bytes) (zone : Text) (common : Dir) {steps : List Step}
    (h : LivesWithin host careful steps (World.provisioned keyring zone common)) :
    Remembered (life host steps (World.provisioned keyring zone common)) :=
  life_keeps host (fun a _ hw => command_ends a hw) (fun e _ hw => event_keeps e hw) h (.inr (.inl rfl))

/-! ## The plan of the next apply -/

/-- What an apply has planned by then, if anything. -/
def Planning (host : Host) (w w' : World) : Prop :=
  w'.plans = w.plans ∨ ∃ tree, Renders host w tree ∧ w'.plans = w.plans ++ [plan w tree]

section Planning

variable {host : Host} {w w' : World} {cand : Gen} {tree : Tree}

abbrev any : Discipline Op World Choice := .any Op World Choice

/-- What was planned is told by the plans. -/
theorem Planning.congr (h : Planning host w w') {w'' : World} (hplans : w''.plans = w'.plans) : Planning host w w'' := by
  unfold Planning
  rw [hplans]
  exact h

/-- What makes no plan keeps what was planned. -/
theorem planning_keeps {parts : List Part} {α : Type} {p : Cmd α} (hp : Touches parts p) (hparts : .plans ∉ parts)
    (h : Planning host w w') :
    ends (server host) any p (fun _ => Planning host w) (fun _ => Planning host w) (Planning host w) w' :=
  hp.keeps (fun _ ho _ _ h => h.congr (exec_plans fun heq => hparts (heq ▸ ho))) h

/-- Up to the mark nothing is planned. -/
theorem unplanned_exits : Exits any w cand tree (fun _ w' => w'.plans = w.plans) (fun w' => w'.plans = w.plans) where
  stop _ h := h.same.plans
  raised _ _ h _ := h.same.plans
  replaced _ _ h _ := h.plans
  stop_set _ h _ := h.plans
  set_after _ _ _ h _ _ := h.plans
  stop_save _ _ h _ _ := h.plans
  save_before _ _ _ _ h _ _ _ _ := h.plans
  save_after _ _ _ h _ _ := h.plans

/-- An apply plans once at most, and for the tree it has rendered. -/
theorem applyCandidate_plans (py : CaseMap) (restart : Bool) (enabled : List Protocol) (hr : Renders host w tree)
    (h : Writing w cand tree [] w') (hflag : w'.promoted = false) :
    ends (server host) any (applyCandidate py restart enabled cand) (fun _ => Planning host w) (fun _ => Planning host w)
      (Planning host w) w' := by
  have hpromote : ends (server host) any (Script.tryFinally (promoteCandidate cand) (dropCandidate cand))
      (fun r => Promoted w cand tree r.1) (fun _ => Planning host w) (Planning host w) w' := by
    refine ends_tryFinally.mpr (ends_mono (promoteCandidate_spec unplanned_exits h hflag) (fun r w'' h'' => ?_)
      (fun _ w'' h'' => planning_keeps (dropCandidate_touches cand) (by decide) (.inl h'')) (fun _ h => .inl h))
    exact ends_mono (dropCandidate_promoted h'') (fun _ _ h => h) (fun _ _ h => .inl h.plans) (fun _ h => .inl h.plans)
  refine ends_seq hpromote fun r w'' h'' => ?_
  obtain ⟨⟨previous, inherited⟩, ⟨⟩⟩ := r
  refine ends_seq (ends_mono (changedBetween_ends h'') (fun _ _ h => h) (fun _ _ h => h ▸ .inl h''.plans)
    (fun _ h => h ▸ .inl h''.plans)) fun diff w₁ h₁ => ?_
  obtain ⟨rfl, hplan⟩ := h₁
  have hnote : ∀ c, Planning host w (exec host (.notePlan (if inherited then none else diff)) c w₁).2 := by
    intro c
    refine .inr ⟨tree, hr, ?_⟩
    change w₁.plans ++ _ = _
    rw [h''.plans]
    exact congrArg (fun p => w.plans ++ [p]) hplan
  refine ends_seq (M := fun _ => Planning host w) ?_ fun _ w₂ h₂ => ends_ite (fun _ => ?_) (fun _ => h₂)
  · exact ends_exec (fun _ => .inl h''.plans) (fun c _ _ => hnote c) (fun _ _ _ _ => .inl h''.plans) (fun c _ _ _ => hnote c)
  · refine ends_seq (planning_keeps (Script.uses_tryFinally (converge_touches py enabled _ _)
      ((reconcileForwarding_touches enabled).mono (by simp))) (by decide) h₂) fun r w₃ h₃ => ?_
    obtain ⟨result, forwarding⟩ := r
    exact planning_keeps (finish_touches enabled _) (by decide) h₃

/-- Whatever happens to it, an apply plans nothing but what the server it started from calls for. -/
theorem apply_plans (restart : Bool) :
    ends (server host) any (apply host.py restart) (fun _ => Planning host w) (fun _ => Planning host w) (Planning host w)
      w := by
  have hback : ∀ w', w' = w → Planning host w w' := fun w' h => h ▸ .inl rfl
  have hread : ∀ {α : Type} {p : Cmd α}, Touches [.nothing] p →
      ends (server host) any p (fun _ w' => w' = w) (fun _ => Planning host w) (Planning host w) w := fun hp =>
    ends_mono (reads_ends hp) (fun _ _ h => h) (fun _ => hback) hback
  refine ends_seq (hread (.call (by simp [Op.part]))) fun _ w₁ h₁ => ?_
  obtain rfl := h₁
  refine ends_seq (hread (.call (by simp [Op.part]))) fun _ w₂ h₂ => ?_
  obtain rfl := h₂
  refine ends_seq (hread (.call (by simp [Op.part]))) fun st w₃ h₃ => ?_
  obtain rfl := h₃
  refine ends_seq (hread (missingSecrets_touches _)) fun gaps w₄ h₄ => ends_ite (fun _ => ?_) (fun _ => hback w₄ h₄)
  obtain rfl := h₄
  refine ends_seq (ends_mono renderAll_ends (fun _ _ h => h) (fun _ => hback) hback) fun r w₅ h₅ => ?_
  obtain ⟨tree, enabled⟩ := r
  obtain ⟨rfl, hr, -⟩ := h₅
  refine ends_seq (ends_mono (writeCandidate_ends (Same.refl w₅)) (fun _ _ h => h) (fun _ _ h => .inl h.plans)
    (fun _ h => .inl h.plans)) fun cand w₆ h₆ => ?_
  have hflag : ∀ c, Writing w₅ cand tree [] (exec host (.setPromoted false) c w₆).2 := fun c =>
    h₆.exec rfl (by simp [Op.part]) (by simp [Op.part]) (by simp [Op.part]) (by simp [Op.part])
  refine ends_seq (M := fun _ w' => Writing w₅ cand tree [] w' ∧ w'.promoted = false) ?_ fun _ w₇ h₇ => ?_
  · exact ends_exec (fun _ => .inl h₆.same.plans) (fun c _ _ => ⟨hflag c, rfl⟩) (fun _ _ _ _ => .inl h₆.same.plans)
      (fun c _ _ _ => .inl (hflag c).same.plans)
  refine ends_seq (M := fun _ => Planning host w₅) (ends_tryFinally.mpr (ends_mono
    (applyCandidate_plans host.py restart enabled hr h₇.1 h₇.2) (fun _ _ h => planning_keeps pruneQuietly_touches (by decide) h)
    (fun _ _ h => planning_keeps pruneQuietly_touches (by decide) h) (fun _ h => h))) fun r w₈ h₈ => ?_
  obtain ⟨result, ⟨⟩⟩ := r
  exact h₈

end Planning

/-- The next apply plans for every expected service whose container is stale, if it comes to plan anything. -/
def Planned (host : Host) (w : World) (restart : Bool) (choices : List Choice) : Prop :=
  ∀ s ∈ expectedServices (enabledIn host w), ∀ c, w.docker.containers s = some c → Stale s w.live c →
    ∀ p ∈ ((apply host.py restart).run (server host) choices w).2.plans.drop w.plans.length,
      p = none ∨ ∃ changed, p = some changed ∧ changed s ≠ none

/-- Whatever happened to a server in a careful life, the next apply plans for everything that is stale. -/
theorem stale_planned (host : Host) (keyring : String → Option Bytes) (zone : Text) (common : Dir) (steps : List Step)
    (h : LivesWithin host careful steps (World.provisioned keyring zone common)) (restart : Bool) (choices : List Choice) :
    Planned host (life host steps (World.provisioned keyring zone common)) restart choices := by
  intro s hs c hc hstale p hp
  have hw := life_remembered host keyring zone common h
  generalize life host steps (World.provisioned keyring zone common) = w at hs hc hstale hp hw
  have hends := ends_run_any (@apply_plans host w restart) choices
  have hplanning : Planning host w ((apply host.py restart).run (server host) choices w).2 := by
    revert hends
    generalize (apply host.py restart).run (server host) choices w = result
    intro hends
    obtain ⟨_ | r, w'⟩ := result
    · exact hends
    · cases r with
      | ok r => exact hends
      | error e => exact hends
  rcases hplanning with hplans | ⟨tree, hr, hplans⟩
  · rw [hplans, List.drop_length] at hp
    exact (List.not_mem_nil hp).elim
  · rw [hplans, List.drop_left] at hp
    obtain rfl := List.mem_singleton.mp hp
    exact plan_covers hw hr hs hc hstale

/-- No call is interrupted and no command is killed. -/
def smooth : Discipline Op World Choice where
  choice _ c _ := c.fault = .none ∧ c.ok = true
  stop _ _ := False

instance (o : Op) (c : Choice) (w : World) : Decidable (smooth.choice o c w) := inferInstanceAs (Decidable (_ ∧ _))

instance (o : Op) (w : World) : Decidable (smooth.stop o w) := inferInstanceAs (Decidable False)

/-- A call that goes well is a careful one. -/
theorem careful_of_smooth {o : Op} {c : Choice} {w : World} (h : smooth.choice o c w) : careful.choice o c w := by
  obtain ⟨hfault, hok⟩ := h
  change Recovers o c w
  unfold Recovers
  split
  · exact fun _ => by rw [hfault]; rfl
  · exact fun _ _ => by rw [hfault]; rfl
  · exact fun _ => hfault
  · exact fun _ => .inr (.inr ⟨by rw [hfault]; rfl, hok⟩)
  · trivial

/-- A container that mounts another file than the live one. -/
theorem stale_of_mount {w : World} {s : Service} {rel : Text} (hconsumer : consumer rel = some (s, .mount))
    (h : ((w.docker.containers s).bind (·.starts.head?)).any (fun st => st.mounts.lookup rel != w.live.lookup rel) = true) :
    ∃ c, w.docker.containers s = some c ∧ Stale s w.live c := by
  rw [Option.any_eq_true] at h
  obtain ⟨st, hst, hne⟩ := h
  obtain ⟨c, hc, hhead⟩ := Option.bind_eq_some_iff.mp hst
  exact ⟨c, hc, rel, .mount, _, hconsumer, ⟨st, hhead, rfl⟩, by simpa using hne⟩

def alice : Text := "alice".toList

/-- A server with a keyring that has everything, and nobody on it. -/
def sampleWorld : World := World.provisioned (fun _ => some [0x61]) [] ⟨[], List.nodup_nil⟩

/-- What comes behind the promotion of the second apply is left out. -/
def unconvergedLife : List Step :=
  [.command (.apply true) (List.replicate 60 {}), .event (.common .fragment),
    .command (.apply false) (List.replicate 60 {})]

/-- Alice is added to a server that has converged, and state.json cannot be written behind the replacement of the link. -/
def unmarkedLife : List Step :=
  [.command (.apply true) (List.replicate 60 {}),
    .command (.userAdd alice) ((List.replicate 60 ({} : Choice)).set 26 { fault := .before .osError })]

/-- sing-box runs without the new fragment, and the next apply plans for it. -/
theorem stale_planned_unconverged :
    (∃ c, (life Host.sample unconvergedLife sampleWorld).docker.containers .singBox = some c ∧
      Stale .singBox (life Host.sample unconvergedLife sampleWorld).live c) ∧
    Planned Host.sample (life Host.sample unconvergedLife sampleWorld) true (List.replicate 60 {}) :=
  ⟨stale_of_mount (consumer_singBox "log.json".toList) (by decide +kernel),
    stale_planned Host.sample (fun _ => some [0x61]) [] ⟨[], List.nodup_nil⟩ unconvergedLife
      (LivesWithin.mono Host.sample (fun _ _ _ => careful_of_smooth) nofun
        (show LivesWithin Host.sample smooth _ _ by decide +kernel)) true
      (List.replicate 60 {})⟩

/-- sing-box does not know Alice, and the next apply plans nothing for it. -/
theorem stale_planned_unmarked :
    ¬ Planned Host.sample (life Host.sample unmarkedLife sampleWorld) true (List.replicate 60 {}) := by
  intro h
  obtain ⟨c, hc, hstale⟩ : ∃ c, (life Host.sample unmarkedLife sampleWorld).docker.containers .singBox = some c ∧
      Stale .singBox (life Host.sample unmarkedLife sampleWorld).live c :=
    stale_of_mount (consumer_singBox "10_vless-reality.json".toList) (by decide +kernel)
  have hall := h .singBox (List.mem_cons_self ..) c hc hstale
  have hplans : (((apply Host.sample.py true).run (server Host.sample) (List.replicate 60 {})
      (life Host.sample unmarkedLife sampleWorld)).2.plans.drop (life Host.sample unmarkedLife sampleWorld).plans.length).any
      (fun p => p.any fun changed => changed .singBox == none) = true := by decide +kernel
  obtain ⟨p, hp, hany⟩ := List.any_eq_true.mp hplans
  obtain ⟨changed, rfl, hnone⟩ := (Option.any_eq_true _ _).mp hany
  rcases hall _ hp with hp | ⟨changed', hp, hne⟩
  · cases hp
  · cases hp
    exact hne (beq_iff_eq.mp hnone)

end Pending

end VpnStack

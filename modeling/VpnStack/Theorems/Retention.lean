import VpnStack.Theorems.Mounts

/-!
# What an apply leaves of the generations before it

An `apply` makes one generation, and two of its calls remove some: the clean-up of a candidate that was not promoted, and `prune`.
A generation that has fewer later names beside it than `prune` keeps, by one for the candidate, is untouched by both: it is there
behind the apply with every file it had, wherever the apply fails, is interrupted or is killed. So one generation outlives as many
applies as there are left to keep beside it.
-/

namespace VpnStack

open Python Interaction

namespace Retention

variable {host : Host} {g : Gen} {x : Generation} {n : Nat}

/-- A call that neither makes a generation nor writes or removes this one. -/
def Leaves (g : Gen) : Op → Prop
  | .mkdtemp _ => False
  | .writeFile h _ _ => h ≠ g
  | .rmtree h => h ≠ g
  | .rmtreeIgnoringErrors h => h ≠ g
  | _ => True

/-- The generation is there with these files, among generations of different names of which at most so many are later. -/
structure Kept (g : Gen) (x : Generation) (n : Nat) (w : World) : Prop where
  gen : w.gen g = some x
  nodup : (w.gens.map (·.1)).Nodup
  newer : Mounts.newer w g ≤ n

/-- A generation that is kept is on the disk. -/
theorem Kept.mem {w : World} (h : Kept g x n w) : g ∈ w.gens.map (·.1) := by
  by_contra hg
  have hnone := World.gen_eq_none hg
  rw [h.gen] at hnone
  cases hnone

theorem leaves_of_part {o : Op} (h : o.part ≠ .trees) : Leaves g o := by
  cases o <;> trivial

theorem newer_removeTree (w : World) (h : Gen) (c : Choice) : Mounts.newer (removeTree w h c) g ≤ Mounts.newer w g :=
  (Mounts.names_removeTree w h).countP_le

/-- Removing another tree keeps the generation. -/
theorem Kept.removeTree {w : World} {h : Gen} {c : Choice} (hk : Kept g x n w) (hne : h ≠ g) : Kept g x n (removeTree w h c) where
  gen := (removeTree_other (Ne.symm hne)).trans hk.gen
  nodup := (Mounts.names_removeTree w h).nodup hk.nodup
  newer := Nat.le_trans (newer_removeTree w h c) hk.newer

/-- The frame of one call. -/
theorem Kept.exec {o : Op} {c : Choice} {w : World} (hk : Kept g x n w) (ho : Leaves g o) : Kept g x n (exec host o c w).2 := by
  by_cases htrees : o.part = .trees
  · cases o with
    | mkdtemp tree => exact ho.elim
    | writeFile h rel content =>
      refine ⟨?_, Mounts.exec_names_nodup hk.nodup, ?_⟩
      · exact (World.gen_setGen ..).trans ((if_neg (Ne.symm ho)).trans hk.gen)
      · have hnames := Mounts.names_setGen w h fun gen => { gen with files := gen.files ++ [(rel, content)] }
        rw [Mounts.newer, VpnStack.exec, hnames]
        exact hk.newer
    | rmtree h => exact hk.removeTree ho
    | rmtreeIgnoringErrors h => exact hk.removeTree ho
    | _ => cases htrees
  · have hgens : (VpnStack.exec host o c w).2.gens = w.gens := exec_gens htrees
    refine ⟨?_, Mounts.exec_names_nodup hk.nodup, ?_⟩
    · exact (congrArg (List.lookup g) hgens).trans hk.gen
    · rw [Mounts.newer, hgens]
      exact hk.newer

/-- Whatever may be chosen, and killed anywhere. -/
abbrev any : Discipline Op World Choice := .any Op World Choice

/-- A script whose calls leave the generation keeps it. -/
theorem kept_uses {α : Type} {q : Cmd α} (hq : q.Uses (Leaves g)) : Preserves (server host) any (Kept g x n) q :=
  .of_uses hq fun _ ho c w _ hw => withFaults_keeps (fun _ _ hw => hw.exec ho) c w hw

/-- A script that does not touch the trees keeps the generation. -/
theorem kept_touches {α : Type} {parts : List Part} {q : Cmd α} (hq : Touches parts q) (htrees : .trees ∉ parts) :
    Preserves (server host) any (Kept g x n) q :=
  kept_uses (Prog.Uses.mono hq fun _ ho => leaves_of_part fun heq => htrees (heq ▸ ho))

/-- A new directory is another generation, and one more. -/
theorem kept_mkdtemp {w : World} (hk : Kept g x n w) (tree : Tree) (c : Choice) :
    Kept g x (n + 1) (VpnStack.exec host (.mkdtemp tree) c w).2 ∧ w.freshGen c.gen ≠ g := by
  have hfresh : w.freshGen c.gen ≠ g := fun heq => w.freshGen_not_mem c.gen (heq ▸ hk.mem)
  refine ⟨⟨?_, Mounts.exec_names_nodup hk.nodup, ?_⟩, hfresh⟩
  · exact (World.gen_append w _ g _ (w.freshGen_not_mem c.gen)).trans ((if_neg (Ne.symm hfresh)).trans hk.gen)
  · have hone : [w.freshGen c.gen].countP (fun h => decide (g < h)) ≤ 1 := List.countP_le_length
    have hall : Mounts.newer (VpnStack.exec host (.mkdtemp tree) c w).2 g =
        Mounts.newer w g + [w.freshGen c.gen].countP fun h => decide (g < h) := by
      simp only [Mounts.newer, VpnStack.exec, List.map_append, List.map_cons, List.map_nil, List.countP_append]
    rw [hall]
    exact Nat.add_le_add hk.newer hone

/-- One turn of the loop of `prune`. -/
theorem pruneTurn_kept {live : Option Gen} {old : Gen} (hne : old ≠ g) :
    Preserves (server host) any (Kept g x n) (if some old = live then pure () else Render.rmtreeNotLive old) :=
  .ite (.pure ()) ((kept_touches (show Touches [.nothing] (call .readLink) from Touches.call (by simp)) (by decide)).bind fun _ =>
    .ite (.raise _) (kept_uses (Script.uses_op hne)))

/-- `prune` spares a generation that has fewer later ones than it keeps. -/
theorem pruneQuietly_kept (hn : n < Render.keepGenerations) : Preserves (server host) any (Kept g x n) pruneQuietly := by
  intro w hw
  have hread : ∀ {o : Op}, o.part = .nothing → ∀ w, Kept g x n w →
      ends (server host) any (call o) (fun a w' => w' = w ∧ ∃ c, a = (exec host o c w).1) (fun _ => Kept g x n) (Kept g x n) w :=
    fun ho w hw => ends_read ho hw
  refine ends_tryExcept.mpr (ends_mono (Q := fun _ => Kept g x n) (E := fun _ => Kept g x n) (D := Kept g x n) ?_ (fun _ _ h => h)
    (fun e w h => ?_) fun _ h => h)
  · refine ends_seq (hread rfl w hw) fun live w₁ h₁ => ?_
    obtain ⟨rfl, -⟩ := h₁
    refine ends_seq (hread rfl w₁ hw) fun generations w₂ h₂ => ?_
    obtain ⟨rfl, c, rfl⟩ := h₂
    refine ends_forM (I := fun _ => Kept g x n) (fun old rest hold w' hw' => pruneTurn_kept ?_ w' hw') hw
    -- what is dropped has at least as many later names as are kept
    rintro rfl
    obtain ⟨done, hdone⟩ := hold
    have hmem : old ∈ ((w₂.gens.map (·.1)).insertionSort fun a b => b ≤ a).drop Render.keepGenerations :=
      hdone ▸ List.mem_append_right _ (List.mem_cons_self ..)
    have hcount := (mem_drop_sorted_iff hw.nodup hw.mem _).mp hmem
    exact absurd (Nat.le_trans hcount hw.newer) (Nat.not_le.mpr hn)
  · cases e.isException
    · exact h
    · exact h

/-- What comes behind the candidate touches it alone, and prunes. -/
theorem applyCandidate_kept (py : CaseMap) (restart : Bool) (enabled : List Protocol) {cand : Gen} (hne : cand ≠ g) :
    Preserves (server host) any (Kept g x n) (applyCandidate py restart enabled cand) := by
  have hcall : ∀ (o : Op), o.part ≠ .trees → Preserves (server host) any (Kept g x n) (call o) :=
    fun o ho => kept_uses (Script.uses_op (leaves_of_part ho))
  have hpromote : Preserves (server host) any (Kept g x n) (promoteCandidate cand) :=
    (hcall _ (by simp)).bind fun ok => .ite ((hcall _ (by simp)).bind fun _ => (hcall _ (by simp)).bind fun _ =>
      (kept_touches (promote_touches cand) (by decide)).bind fun _ => (hcall _ (by simp)).bind fun _ =>
      (hcall _ (by simp)).bind fun _ => .pure _) (.raise _)
  have hdrop : Preserves (server host) any (Kept g x n) (dropCandidate cand) :=
    (hcall _ (by simp)).bind fun promoted => .ite (.pure _) (kept_uses (Script.uses_op hne))
  refine (hpromote.tryFinally hdrop).bind fun r => ?_
  refine (kept_touches (changedBetween_touches _ cand) (by decide)).bind fun diff => (hcall _ (by simp)).bind fun _ => ?_
  refine .ite (((kept_touches (converge_touches py enabled _ _) (by decide)).tryFinally
    (kept_touches (reconcileForwarding_touches enabled) (by decide))).bind fun r => ?_) (.pure _)
  exact kept_touches (finish_touches enabled _) (by decide)

/-- One apply keeps it, wherever it ends, and puts at most one generation ahead. -/
theorem apply_kept (py : CaseMap) (restart : Bool) {w : World} (hn : n + 1 < Render.keepGenerations) (hw : Kept g x n w) :
    ends (server host) any (apply py restart) (fun _ => Kept g x (n + 1)) (fun _ => Kept g x (n + 1)) (Kept g x (n + 1)) w := by
  have hmore : ∀ w, Kept g x n w → Kept g x (n + 1) w := fun w h => ⟨h.gen, h.nodup, Nat.le_succ_of_le h.newer⟩
  have hstart : ∀ {α : Type} {q : Cmd α}, Touches [.nothing] q → ∀ w, Kept g x n w →
      ends (server host) any q (fun _ => Kept g x n) (fun _ => Kept g x (n + 1)) (Kept g x (n + 1)) w := fun hq w hw =>
    ends_mono (kept_touches hq (by decide) w hw) (fun _ _ h => h) (fun _ w h => hmore w h) hmore
  refine ends_seq (hstart (Touches.call (by simp)) w hw) fun _ w hw => ?_
  refine ends_seq (hstart (Touches.call (by simp)) w hw) fun _ w hw => ?_
  refine ends_seq (hstart (Touches.call (by simp)) w hw) fun st w hw => ?_
  refine ends_seq (hstart (missingSecrets_touches _) w hw) fun gaps w hw => ends_ite (fun _ => ?_) (fun _ => hmore w hw)
  refine ends_seq (hstart (renderAll_touches py) w hw) fun r w hw => ?_
  obtain ⟨tree, enabled⟩ := r
  -- the candidate is another generation
  have hmake : ∀ c, Kept g x (n + 1) (exec host (.mkdtemp tree) c w).2 ∧ w.freshGen c.gen ≠ g := fun c =>
    kept_mkdtemp hw tree c
  have hwrite : ends (server host) any (Render.writeCandidate tree) (fun cand w => cand ≠ g ∧ Kept g x (n + 1) w)
      (fun _ => Kept g x (n + 1)) (Kept g x (n + 1)) w := by
    refine ends_seq (M := fun cand w => cand ≠ g ∧ Kept g x (n + 1) w) ?_ fun cand w h => ?_
    · exact ends_exec (fun _ => hmore w hw) (fun c _ _ => ⟨(hmake c).2, (hmake c).1⟩)
        (fun _ _ _ _ => hmore w hw) (fun c _ _ _ => (hmake c).1)
    · have hfile : ∀ f : Text × Bytes, (call (.writeFile cand f.1 f.2)).Uses (Leaves g) := fun f => Script.uses_op h.1
      exact ends_seq (kept_uses (Script.uses_forM fun f _ => hfile f) w h.2) fun _ w hw => ⟨h.1, hw⟩
  refine ends_seq hwrite fun cand w h => ?_
  refine ends_seq (kept_uses (Script.uses_op (leaves_of_part (by simp))) w h.2) fun _ w hw => ?_
  exact ends_seq (((applyCandidate_kept py restart enabled h.1).tryFinally (pruneQuietly_kept hn)) w hw) fun _ _ hw => hw

/-- One apply, however it ends and wherever it is killed. -/
theorem kept_run (restart : Bool) (cs : List Choice) {w : World} (hn : n + 1 < Render.keepGenerations) (hw : Kept g x n w) :
    Kept g x (n + 1) ((apply host.py restart).run (server host) cs w).2 := by
  have hends := ends_run_any (m := server host) (apply_kept host.py restart hn hw) cs
  cases hr : (apply host.py restart).run (server host) cs w with
  | mk r w' =>
    rw [hr] at hends
    cases r with
    | none => exact hends
    | some r =>
      cases r with
      | ok a => exact hends
      | error e => exact hends

/-- The server behind some applies, each with or without a restart, and with what it meets. -/
def afterApplies (host : Host) : List (Bool × List Choice) → World → World
  | [], w => w
  | (restart, cs) :: rest, w => afterApplies host rest ((apply host.py restart).run (server host) cs w).2

/-- As many applies as are spared keep the generation. -/
theorem kept_applies (applies : List (Bool × List Choice)) {w : World} (hn : n + applies.length < Render.keepGenerations)
    (hw : Kept g x n w) : Kept g x (n + applies.length) (afterApplies host applies w) := by
  induction applies generalizing n w with
  | nil => exact hw
  | cons first rest ih =>
    obtain ⟨restart, cs⟩ := first
    rw [List.length_cons] at hn ⊢
    have hfirst : Kept g x (n + 1) ((apply host.py restart).run (server host) cs w).2 := kept_run restart cs (by omega) hw
    have hrest := ih (by omega) hfirst
    rwa [Nat.add_assoc, Nat.add_comm 1] at hrest

/-- Behind any number of applies, however each of them ends and wherever it is killed, a generation is as it was that had fewer later
ones than are kept, less one for each. -/
theorem applies_retain (host : Host) (applies : List (Bool × List Choice)) {w : World} {g : Gen} {x : Generation}
    (hnames : (w.gens.map (·.1)).Nodup) (hg : w.gen g = some x)
    (hnewer : Mounts.newer w g + applies.length < Render.keepGenerations) :
    (afterApplies host applies w).gen g = some x :=
  (kept_applies applies hnewer ⟨hg, hnames, Nat.le_refl _⟩).gen

/-- A server with the generation it is on, and four before it. -/
def sampleWorld : World :=
  { World.provisioned (fun _ => none) [] .fragment with
    state := some ⟨[], [], [], false⟩
    gens := [(0, ⟨[], []⟩), (1, ⟨[], []⟩), (2, ⟨[], []⟩), (3, ⟨[], []⟩), (4, ⟨[], []⟩)]
    link := some 4 }

/-- Two applies, the first of them interrupted behind the promotion, leave the third of five. -/
theorem applies_retain_third : (afterApplies Host.sample
    [(true, (List.replicate 60 ({} : Choice)).set 20 { fault := .after .keyboardInterrupt }), (false, List.replicate 60 {})]
      sampleWorld).gen 2 = some ⟨[], []⟩ :=
  applies_retain Host.sample _ (by decide) rfl (by decide)

end Retention

end VpnStack

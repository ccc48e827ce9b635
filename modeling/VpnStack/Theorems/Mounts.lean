import VpnStack.Effects

/-!
# What the containers are mounted on

A container keeps the generation `rendered` led to when it was last started, for as long as it is not started again, and an
`apply` starts only the services whose inputs changed. `prune` knows nothing of that: it counts the generations by name, and
spares the newest of them and the live one. The run of a server is followed here with that in view, with the generation each
container was last started on beside the server itself.
-/

namespace VpnStack

open Python Interaction

/-! ## The rank of an element of a sorted list -/

/-- Behind the first `k` of a falling list are those that `k` others are greater than. -/
theorem mem_drop_iff_countP {l : List Nat} (hl : l.Pairwise (· > ·)) {x : Nat} (hx : x ∈ l) (k : Nat) :
    x ∈ l.drop k ↔ k ≤ l.countP fun y => decide (x < y) := by
  induction l generalizing k with
  | nil => exact (List.not_mem_nil hx).elim
  | cons a l ih =>
    obtain ⟨hfirst, hrest⟩ := List.pairwise_cons.mp hl
    cases k with
    | zero => simpa using hx
    | succ k =>
      rw [List.drop_succ_cons, List.countP_cons]
      rcases List.mem_cons.mp hx with rfl | hx
      · have hnone : l.countP (fun y => decide (x < y)) = 0 :=
          List.countP_eq_zero.mpr fun y hy => by simpa using Nat.le_of_lt (hfirst y hy)
        constructor
        · intro h
          exact absurd (hfirst x (List.mem_of_mem_drop h)) (Nat.lt_irrefl x)
        · intro h
          rw [hnone] at h
          simp at h
      · have hlt : x < a := hfirst x hx
        rw [ih hrest hx k, if_pos (by simpa using hlt)]
        omega

/-- The same of a list of names that is sorted first, as `prune` does. -/
theorem mem_drop_sorted_iff {l : List Nat} (hl : l.Nodup) {x : Nat} (hx : x ∈ l) (k : Nat) :
    x ∈ (l.insertionSort fun a b => b ≤ a).drop k ↔ k ≤ l.countP fun y => decide (x < y) := by
  have hperm := List.perm_insertionSort (fun a b : Nat => b ≤ a) l
  have hsorted : (l.insertionSort fun a b => b ≤ a).Pairwise (· > ·) := by
    have hle : (l.insertionSort fun a b => b ≤ a).Pairwise fun a b => b ≤ a := List.pairwise_insertionSort _ l
    have hne : (l.insertionSort fun a b => b ≤ a).Pairwise (· ≠ ·) := hperm.nodup_iff.mpr hl
    exact (hle.and hne).imp fun h => Nat.lt_of_le_of_ne h.1 (Ne.symm h.2)
  rw [mem_drop_iff_countP hsorted (hperm.mem_iff.mpr hx) k, hperm.countP_eq]

namespace Mounts

/-! ## The server with its mounts -/

/-- The server, and the generation each container was last started on. -/
structure Mounted where
  world : World
  mount : Service → Option Gen

/-- `rendered`, resolved. -/
def resolved (w : World) : Option Gen := w.link.filter fun g => (w.gen g).isSome

/-- Whether the container was started between the two: it is another one that has started, or it has started again. -/
def started (before after : Option Container) : Bool :=
  match after with
  | none => false
  | some c => !c.starts.isEmpty && before.all fun b => b.id != c.id || b.starts.length != c.starts.length

/-- A call, with what it mounts: `rendered` is resolved when a container is started. -/
def track (host : Host) (o : Op) (c : Choice) (p : Mounted) : Ans o × Mounted :=
  ((exec host o c p.world).1,
    ⟨(exec host o c p.world).2, fun s =>
      if started (p.world.docker.containers s) ((exec host o c p.world).2.docker.containers s) then resolved p.world
      else p.mount s⟩)

/-- The server with its mounts, as a machine. -/
def mountedServer (host : Host) : ScriptMachine Exc Op Ans Mounted Choice := withFaults (track host) Choice.fault

/-- The generations the running containers are mounted on. -/
def inUse (p : Mounted) : List Gen :=
  Service.all.filterMap fun s => if ((p.world.docker.containers s).map (·.running)).getD false then p.mount s else none

/-- How many generations on the disk have a later name. -/
def newer (w : World) (g : Gen) : Nat := (w.gens.map (·.1)).countP fun h => decide (g < h)

/-- Each generation that is in use and on the disk is the live one, or one of the newest that `prune` spares. -/
def Recent (p : Mounted) : Prop :=
  ∀ g ∈ inUse p, g ∈ p.world.gens.map (·.1) → newer p.world g < Render.keepGenerations ∨ resolved p.world = some g

instance Recent.decidable (p : Mounted) : Decidable (Recent p) := inferInstanceAs (Decidable (∀ g ∈ inUse p, _ → _))

/-- The calls of a run, each with the choice and the server it met. -/
abbrev Record := List (Op × Choice × Mounted)

/-- Whether the call deletes a generation for `prune`, which is the only one to make it. -/
def prunes : Op → Bool
  | .rmtree _ => true
  | _ => false

/-- No call of the record deletes a generation that is in use. -/
def Spared (l : Record) : Prop := ∀ g c q, (.rmtree g, c, q) ∈ l → g ∉ inUse q

/-- Every prune of the record begins with what is in use recent. -/
def Counted (l : Record) : Prop := ∀ c q, (.glob, c, q) ∈ l → Recent q

/-- Whether a record spared what is in use is told call by call. -/
theorem spared_iff {l : Record} : Spared l ↔ ∀ e ∈ l, (match e.1 with
    | .rmtree g => decide (g ∉ inUse e.2.2)
    | _ => true) = true := by
  constructor
  · rintro h ⟨o, c, q⟩ hmem
    cases o with
    | rmtree g => exact decide_eq_true (h g c q hmem)
    | _ => rfl
  · intro h g c q hmem
    exact of_decide_eq_true (h _ hmem)

/-- Whether the prunes of a record began with what is in use recent is told call by call. -/
theorem counted_iff {l : Record} : Counted l ↔ ∀ e ∈ l, (match e.1 with
    | .glob => decide (Recent e.2.2)
    | _ => true) = true := by
  constructor
  · rintro h ⟨o, c, q⟩ hmem
    cases o with
    | glob => exact decide_eq_true (h c q hmem)
    | _ => rfl
  · intro h c q hmem
    exact of_decide_eq_true (h _ hmem)

instance Spared.decidable (l : Record) : Decidable (Spared l) := decidable_of_iff _ spared_iff.symm

instance Counted.decidable (l : Record) : Decidable (Counted l) := decidable_of_iff _ counted_iff.symm

/-- An apply in the life of a server. Before it anything may have happened but to the generations: other commands ran, the
configuration changed, containers died or were started. -/
structure Round where
  meanwhile : Mounted → Mounted
  keeps : ∀ p, (meanwhile p).world.gens = p.world.gens
  restart : Bool
  choices : List Choice

namespace Round

variable (host : Host)

/-- The calls this apply makes. -/
def log (r : Round) (p : Mounted) : Record :=
  (apply host.py r.restart).record (mountedServer host) r.choices (r.meanwhile p)

/-- The server this apply leaves. -/
def after (r : Round) (p : Mounted) : Mounted :=
  ((apply host.py r.restart).run (mountedServer host) r.choices (r.meanwhile p)).2

/-- A condition on every apply of a history. -/
def All (P : Round → Mounted → Prop) : List Round → Mounted → Prop
  | [], _ => True
  | r :: rest, p => P r p ∧ All P rest (r.after host p)

instance All.decidable {P : Round → Mounted → Prop} [∀ r p, Decidable (P r p)] :
    (rounds : List Round) → (p : Mounted) → Decidable (All host P rounds p)
  | [], _ => isTrue trivial
  | r :: rest, p =>
    have := All.decidable (P := P) rest (r.after host p)
    inferInstanceAs (Decidable (P r p ∧ All host P rest (r.after host p)))

end Round

/-! ## Single calls -/

section Calls

variable {host : Host} {o : Op} {c : Choice}

/-- A container that is as it was has not been started. -/
theorem started_self (x : Option Container) : started x x = false := by
  cases x with
  | none => rfl
  | some c => simp [started]

/-- A call that has nothing to do with containers changes no mount. -/
theorem track_mount {p : Mounted} (h : o.part ≠ .docker) : (track host o c p).2.mount = p.mount := by
  funext s
  simp only [track]
  rw [exec_docker h, started_self]
  rfl

/-- What is in use is told by the containers and their mounts. -/
theorem inUse_congr {p q : Mounted} (hdocker : p.world.docker = q.world.docker) (hmount : p.mount = q.mount) :
    inUse p = inUse q := by
  unfold inUse
  rw [hdocker, hmount]

theorem inUse_track {p : Mounted} (h : o.part ≠ .docker) : inUse (track host o c p).2 = inUse p :=
  inUse_congr (exec_docker h) (track_mount h)

/-- A call that only reads leaves the server and the mounts as they are. -/
theorem track_nothing {p : Mounted} (h : o.part = .nothing) : (track host o c p).2 = p := by
  have hmount : (track host o c p).2.mount = p.mount := track_mount (by rw [h]; decide)
  have hworld : (track host o c p).2.world = p.world := exec_nothing h
  cases hp : (track host o c p).2 with
  | mk w m =>
    rw [hp] at hmount hworld
    cases p
    simp only at hmount hworld
    rw [hmount, hworld]

/-- The names of the generations. -/
theorem names_setGen (w : World) (g : Gen) (f : Generation → Generation) :
    (w.setGen g f).gens.map (·.1) = w.gens.map (·.1) := by
  simp only [World.setGen, List.map_map]
  refine List.map_congr_left fun e _ => ?_
  simp only [Function.comp_apply]
  split <;> rfl

/-- Removing a tree adds no generation. -/
theorem names_removeTree (w : World) (g : Gen) : ((removeTree w g c).gens.map (·.1)).Sublist (w.gens.map (·.1)) := by
  unfold removeTree
  split
  · exact List.filter_sublist.map _
  · rw [names_setGen]

/-- No call gives two generations one name. -/
theorem exec_names_nodup {w : World} (h : (w.gens.map (·.1)).Nodup) : ((exec host o c w).2.gens.map (·.1)).Nodup := by
  by_cases ho : o.part = .trees
  · cases o with
    | mkdtemp tree =>
      simp only [exec, List.map_append, List.map_cons, List.map_nil]
      exact List.nodup_append.mpr ⟨h, List.nodup_singleton _, fun a ha b hb hab =>
        w.freshGen_not_mem c.gen (List.mem_singleton.mp hb ▸ hab ▸ ha)⟩
    | writeFile g rel content =>
      simp only [exec]
      rw [names_setGen]
      exact h
    | rmtreeIgnoringErrors g => exact (names_removeTree w g).nodup h
    | rmtree g => exact (names_removeTree w g).nodup h
    | _ => cases ho
  · rw [exec_gens ho]
    exact h

end Calls

/-! ## Every apply -/

section Specs

variable {host : Host}

/-- Whatever may be chosen, and killed anywhere. -/
abbrev anyRecorded : Discipline Op (Mounted × Record) Choice := .any Op (Mounted × Record) Choice

/-- The machine the runs are recorded on. -/
abbrev recordedServer (host : Host) : ScriptMachine Exc Op Ans (Mounted × Record) Choice := recorded (mountedServer host)

/-- No two generations have one name, and what was in use was spared if every prune began with it recent. -/
structure Fine (x : Mounted × Record) : Prop where
  nodup : (x.1.world.gens.map (·.1)).Nodup
  spared : Counted x.2 → Spared x.2

theorem Counted.of_append {l l' : Record} (h : Counted (l ++ l')) : Counted l :=
  fun c q hmem => h c q (List.mem_append_left _ hmem)

/-- No call gives two generations one name. -/
theorem mountedServer_nodup {o : Op} {c : Choice} {p : Mounted} (h : (p.world.gens.map (·.1)).Nodup) :
    ((mountedServer host o c p).2.world.gens.map (·.1)).Nodup := by
  rw [mountedServer, withFaults_snd]
  split
  · exact h
  · exact exec_names_nodup h

/-- A call that is no deletion by `prune`, wherever it leads. -/
theorem Fine.append {p p' : Mounted} {l : Record} (h : Fine (p, l)) {o : Op} (ho : prunes o = false) (c : Choice)
    (hnodup : (p'.world.gens.map (·.1)).Nodup) : Fine (p', l ++ [(o, c, p)]) := by
  refine ⟨hnodup, fun hcounted g c' q hmem => ?_⟩
  rcases List.mem_append.mp hmem with hmem | hmem
  · exact h.spared hcounted.of_append g c' q hmem
  · cases List.mem_singleton.mp hmem
    cases ho

theorem Fine.step {p : Mounted} {l : Record} (h : Fine (p, l)) {o : Op} (ho : prunes o = false) (c : Choice) :
    Fine ((mountedServer host o c p).2, l ++ [(o, c, p)]) := h.append ho c (mountedServer_nodup h.nodup)

/-- Everything but `prune` passes. -/
theorem fine_uses {α : Type} {q : Cmd α} (hq : q.Uses fun o => prunes o = false) :
    Preserves (recordedServer host) anyRecorded Fine q :=
  .of_uses hq fun _ ho c _ _ h => h.step ho c

/-- A script that does not touch the trees deletes nothing. -/
theorem fine_touches {α : Type} {parts : List Part} {q : Cmd α} (hq : Touches parts q) (htrees : .trees ∉ parts) :
    Preserves (recordedServer host) anyRecorded Fine q := by
  refine fine_uses (Prog.Uses.mono hq fun o ho => ?_)
  cases o with
  | rmtree g => exact absurd ho htrees
  | _ => rfl

/-- What is the case between two turns of the loop of a `prune` that began with `q`. -/
structure Pruning (q : Mounted) (x : Mounted × Record) : Prop where
  fine : Fine x
  docker : x.1.world.docker = q.world.docker
  mount : x.1.mount = q.mount
  begun : ∃ c, (.glob, c, q) ∈ x.2

/-- A turn of the loop that does not touch the containers. -/
theorem Pruning.step {q p : Mounted} {l : Record} (h : Pruning q (p, l)) {o : Op} (hdocker : o.part ≠ .docker) {c : Choice}
    (hfine : Fine ((mountedServer host o c p).2, l ++ [(o, c, p)])) :
    Pruning q ((mountedServer host o c p).2, l ++ [(o, c, p)]) := by
  obtain ⟨c', hbegun⟩ := h.begun
  refine ⟨hfine, ?_, ?_, c', List.mem_append_left _ hbegun⟩
  · rw [mountedServer, withFaults_snd]
    split
    · exact h.docker
    · exact (exec_docker hdocker).trans h.docker
  · rw [mountedServer, withFaults_snd]
    split
    · exact h.mount
    · exact (track_mount hdocker).trans h.mount

/-- A deletion of a generation that is old, and was not the live one when the prune began. -/
theorem Pruning.rmtree {q p : Mounted} {l : Record} (h : Pruning q (p, l)) (hq : (q.world.gens.map (·.1)).Nodup) {old : Gen}
    (hold : old ∈ ((q.world.gens.map (·.1)).insertionSort fun a b => b ≤ a).drop Render.keepGenerations)
    (hlive : resolved q.world ≠ some old) (c : Choice) :
    Pruning q ((mountedServer host (.rmtree old) c p).2, l ++ [(.rmtree old, c, p)]) := by
  refine h.step (by simp [Op.part]) ⟨mountedServer_nodup h.fine.nodup, fun hcounted g c' q' hmem => ?_⟩
  rcases List.mem_append.mp hmem with hmem | hmem
  · exact h.fine.spared hcounted.of_append g c' q' hmem
  · obtain hlast := List.mem_singleton.mp hmem
    cases hlast
    rw [inUse_congr h.docker h.mount]
    intro huse
    obtain ⟨c₀, hbegun⟩ := h.begun
    have hname : old ∈ q.world.gens.map (·.1) :=
      (List.perm_insertionSort _ _).mem_iff.mp (List.mem_of_mem_drop hold)
    rcases hcounted c₀ q (List.mem_append_left _ hbegun) old huse hname with hnew | hlink
    · have hcount := (mem_drop_sorted_iff hq hname _).mp hold
      exact absurd hnew (Nat.not_lt.mpr hcount)
    · exact hlive hlink

/-- The rule of a call that only reads, on the recorded machine. -/
theorem ends_recorded_read {o : Op} (ho : o.part = .nothing) {I : Mounted × Record → Prop} {p : Mounted} {l : Record}
    (hI : I (p, l)) (hstep : ∀ c, I (p, l ++ [(o, c, p)])) :
    ends (recordedServer host) anyRecorded (call o)
      (fun a x => ∃ c, a = (exec host o c p.world).1 ∧ x = (p, l ++ [(o, c, p)])) (fun _ => I) I (p, l) := by
  refine ends_recorded hI (fun c hc => ⟨c, rfl, ?_⟩) (fun c e hc => ?_)
  · rw [track_nothing ho]
  · rw [withFaults_snd, track_nothing ho, ite_self]
    exact hstep c

/-- One turn of the loop. -/
theorem pruneTurn_ends {q p : Mounted} {l : Record} (h : Pruning q (p, l)) (hq : (q.world.gens.map (·.1)).Nodup) {old : Gen}
    (hold : old ∈ ((q.world.gens.map (·.1)).insertionSort fun a b => b ≤ a).drop Render.keepGenerations) :
    ends (recordedServer host) anyRecorded (if some old = resolved q.world then pure () else Render.rmtreeNotLive old)
      (fun _ => Pruning q) (fun _ => Fine) Fine (p, l) := by
  refine ends_ite (fun _ => h) fun hlive => ?_
  have hread : ∀ c, Pruning q (p, l ++ [(.readLink, c, p)]) := fun c =>
    ⟨h.fine.append rfl c h.fine.nodup, h.docker, h.mount, h.begun.imp fun _ hmem => List.mem_append_left _ hmem⟩
  refine ends_seq (ends_mono (ends_recorded_read rfl h hread) (fun _ _ h => h) (fun _ _ h => h.fine) fun _ h => h.fine)
    fun live x hx => ?_
  obtain ⟨c, -, rfl⟩ := hx
  refine ends_ite (fun _ => (hread c).fine) fun _ => ?_
  have hdel : ∀ c', Pruning q ((mountedServer host (.rmtree old) c' p).2,
      (l ++ [(.readLink, c, p)]) ++ [(.rmtree old, c', p)]) :=
    fun c' => (hread c).rmtree hq hold (fun h => hlive h.symm) c'
  refine ends_recorded (hread c).fine (fun c' hc' => ?_) (fun c' e _ => (hdel c').fine)
  have := hdel c'
  rwa [mountedServer, withFaults, hc'] at this

/-- `prune` deletes nothing that is in use, if what is in use was recent when it began. -/
theorem prune_fine : Preserves (recordedServer host) anyRecorded Fine Render.prune := by
  rintro ⟨p, l⟩ h
  have hlink : ∀ c, Fine (p, l ++ [(.resolveLink, c, p)]) := fun c => h.append rfl c h.nodup
  refine ends_seq (ends_recorded_read rfl h hlink) fun live x hx => ?_
  obtain ⟨c, rfl, rfl⟩ := hx
  have hglob : ∀ c', Fine (p, (l ++ [(.resolveLink, c, p)]) ++ [(.glob, c', p)]) := fun c' =>
    (hlink c).append rfl c' h.nodup
  refine ends_seq (ends_recorded_read rfl (hlink c) hglob) fun generations x hx => ?_
  obtain ⟨c', rfl, rfl⟩ := hx
  have hbegun : Pruning p (p, (l ++ [(.resolveLink, c, p)]) ++ [(.glob, c', p)]) :=
    ⟨hglob c', rfl, rfl, c', List.mem_append_right _ (List.mem_singleton_self _)⟩
  refine ends_mono (ends_forM (I := fun _ => Pruning p) (fun old rest hold x hx => ?_) hbegun) (fun _ _ h => h.fine)
    (fun _ _ h => h) fun _ h => h
  obtain ⟨done, hdone⟩ := hold
  exact pruneTurn_ends hx h.nodup (hdone ▸ List.mem_append_right _ (List.mem_cons_self ..))

/-- A prune spares what is in use, if it began with that recent. -/
theorem pruneQuietly_fine : Preserves (recordedServer host) anyRecorded Fine pruneQuietly := by
  intro x h
  refine ends_tryExcept.mpr (ends_mono (prune_fine x h) (fun _ _ h => h) (fun e x h => ?_) fun _ h => h)
  cases e.isException
  · exact h
  · exact h

/-- `apply` deletes nothing that is in use, if what is in use is recent whenever its `prune` begins. -/
theorem apply_fine (py : CaseMap) (restart : Bool) : Preserves (recordedServer host) anyRecorded Fine (apply py restart) := by
  have hcall : ∀ o : Op, prunes o = false → Preserves (recordedServer host) anyRecorded Fine (call o) :=
    fun o ho => fine_uses (Script.uses_op ho)
  have hfile : ∀ (cand : Gen) (f : Text × Bytes), (call (.writeFile cand f.1 f.2)).Uses fun o => prunes o = false :=
    fun cand f => Script.uses_op rfl
  have hwrite : ∀ tree, Preserves (recordedServer host) anyRecorded Fine (Render.writeCandidate tree) := fun tree =>
    (hcall _ rfl).bind fun cand => (fine_uses (Script.uses_forM fun f _ => hfile cand f)).bind fun _ => .pure _
  have hpromote : ∀ cand, Preserves (recordedServer host) anyRecorded Fine (promoteCandidate cand) := fun cand =>
    (hcall _ rfl).bind fun ok => .ite ((hcall _ rfl).bind fun _ => (hcall _ rfl).bind fun _ =>
      (fine_touches (promote_touches cand) (by decide)).bind fun _ => (hcall _ rfl).bind fun _ =>
      (hcall _ rfl).bind fun _ => .pure _) (.raise _)
  have hdrop : ∀ cand, Preserves (recordedServer host) anyRecorded Fine (dropCandidate cand) := fun cand =>
    (hcall _ rfl).bind fun promoted => .ite (.pure _) (hcall _ rfl)
  have hcand : ∀ enabled cand, Preserves (recordedServer host) anyRecorded Fine (applyCandidate py restart enabled cand) := by
    intro enabled cand
    refine ((hpromote cand).tryFinally (hdrop cand)).bind fun r => ?_
    refine (fine_touches (changedBetween_touches _ cand) (by decide)).bind fun diff => (hcall _ rfl).bind fun _ => ?_
    refine .ite (((fine_touches (converge_touches py enabled _ _) (by decide)).tryFinally
      (fine_touches (reconcileForwarding_touches enabled) (by decide))).bind fun r => ?_) (.pure _)
    exact fine_touches (finish_touches enabled _) (by decide)
  refine (hcall _ rfl).bind fun _ => (hcall _ rfl).bind fun _ => (hcall _ rfl).bind fun st =>
    (fine_touches (missingSecrets_touches _) (by decide)).bind fun gaps => .ite ?_ (.raise _)
  refine (fine_touches (renderAll_touches py) (by decide)).bind fun r => (hwrite _).bind fun cand =>
    (hcall _ rfl).bind fun _ => ?_
  exact ((hcand _ cand).tryFinally pruneQuietly_fine).bind fun _ => .pure _

end Specs

/-! ## One prune -/

section Exact

variable {host : Host}

/-- Every call goes well. -/
def plain : Choice := {}

/-- What a script keeps holds of every run of it. -/
theorem holds_of_runs {I : Mounted × Record → Prop} {α : Type} {q : Cmd α} {p : Mounted} :
    ends (recordedServer host) anyRecorded q (fun _ => I) (fun _ => I) I (p, []) ↔
      ∀ cs, I ((q.run (mountedServer host) cs p).2, q.record (mountedServer host) cs p) := by
  have hiff : ∀ cs, Ends (Post (fun _ => I) (fun _ => I)) I (q.run (recordedServer host) cs (p, [])) ↔
      I ((q.run (mountedServer host) cs p).2, q.record (mountedServer host) cs p) := by
    intro cs
    have hrun := run_recorded (m := mountedServer host) q cs p []
    rw [Script.run, hrun, List.nil_append]
    change Ends _ _ ((run (mountedServer host) q cs p).1, _) ↔ I ((run (mountedServer host) q cs p).2, _)
    cases hr : (run (mountedServer host) q cs p).1 with
    | none => exact Iff.rfl
    | some r =>
      cases r with
      | ok a => exact Iff.rfl
      | error e => exact Iff.rfl
  exact ⟨fun h cs => (hiff cs).mp (ends_run_any h cs), fun h => wp_of_runs fun cs _ => (hiff cs).mpr (h cs)⟩

/-- What holds wherever a script may be killed holds where it begins. -/
theorem holds_of_ends {I : Mounted × Record → Prop} {α : Type} {q : Cmd α} {x : Mounted × Record}
    (h : ends (recordedServer host) anyRecorded q (fun _ => I) (fun _ => I) I x) : I x := by
  cases q with
  | done r =>
    cases r with
    | ok a => exact h
    | error e => exact h
  | call o k => exact h.1 trivial

/-- A call goes on when it is not interrupted. -/
theorem ends_plain {o : Op} {α : Type} {f : Ans o → Cmd α} {Q : α → Mounted × Record → Prop}
    {E : Exc → Mounted × Record → Prop} {D : Mounted × Record → Prop} {p : Mounted} {l : Record}
    (h : ends (recordedServer host) anyRecorded (call o >>= f) Q E D (p, l)) :
    ends (recordedServer host) anyRecorded (f (track host o plain p).1) Q E D ((track host o plain p).2, l ++ [(o, plain, p)]) :=
  ((ends_op o).mp (ends_bind.mp h)).2 plain trivial

/-- A loop that never deletes what is in use, whatever is chosen, meets nothing that is. -/
theorem not_inUse_of_spared {live : Option Gen} {rest : List Gen} {p : Mounted} {l : Record}
    (hlinked : ∀ g ∈ rest, p.world.link = some g → some g = live)
    (h : ends (recordedServer host) anyRecorded (rest.forM fun old => if some old = live then pure () else Render.rmtreeNotLive old)
      (fun _ x => Spared x.2) (fun _ x => Spared x.2) (fun x => Spared x.2) (p, l)) :
    ∀ g ∈ rest, some g ≠ live → g ∉ inUse p := by
  induction rest generalizing p l with
  | nil => exact fun g hg => (List.not_mem_nil hg).elim
  | cons old rest ih =>
    have hrest : ∀ g ∈ rest, p.world.link = some g → some g = live := fun g hg => hlinked g (List.mem_cons_of_mem _ hg)
    have hturn := ends_bind.mp h
    beta_reduce at hturn
    by_cases hold : some old = live
    · rw [if_pos hold] at hturn
      rintro g hg hlive
      rcases List.mem_cons.mp hg with rfl | hg
      · exact absurd hold hlive
      · exact ih hrest hturn g hg hlive
    · rw [if_neg hold] at hturn
      -- the link is read, and then the directory is deleted, each without an interruption
      have hlink : ¬ p.world.link = some old := fun heq => hold (hlinked old (List.mem_cons_self ..) heq)
      have hdelete := ends_plain (o := Op.readLink) hturn
      rw [track_nothing rfl] at hdelete
      rw [show (track host Op.readLink plain p).1 = p.world.link from rfl, if_neg hlink] at hdelete
      have hnext : ends (recordedServer host) anyRecorded
          (rest.forM fun old => if some old = live then pure () else Render.rmtreeNotLive old)
          (fun _ x => Spared x.2) (fun _ x => Spared x.2) (fun x => Spared x.2)
          ((track host (.rmtree old) plain p).2, (l ++ [(.readLink, plain, p)]) ++ [(.rmtree old, plain, p)]) :=
        ((ends_op (Op.rmtree old)).mp hdelete).2 plain trivial
      intro g hg hlive
      rcases List.mem_cons.mp hg with rfl | hg
      · exact holds_of_ends hnext g plain p (List.mem_append_right _ (List.mem_singleton_self _))
      · have hkept : (track host (.rmtree old) plain p).2.world.link = p.world.link := exec_link (by simp [Op.part])
        have := ih (fun g hg heq => hrest g hg (hkept ▸ heq)) hnext g hg hlive
        rwa [inUse_track (by simp [Op.part])] at this

/-- A link that points at a generation on the disk resolves to it. -/
theorem resolved_of_mem {w : World} {g : Gen} (hlink : w.link = some g) (hg : g ∈ w.gens.map (·.1)) :
    resolved w = some g := by
  obtain ⟨e, he, rfl⟩ := List.mem_map.mp hg
  have hsome : (w.gen e.1).isSome = true := by
    rw [World.gen, Option.isSome_iff_ne_none]
    intro hnone
    have := List.lookup_eq_none_iff.mp hnone e he
    simp at this
  rw [resolved, hlink, Option.filter_some, if_pos hsome]

/-- The loop of a prune begins once, where the prune does. -/
theorem prune_begins {p : Mounted} : ends (recordedServer host) anyRecorded Render.prune
    (fun _ x => ∀ c q, (.glob, c, q) ∈ x.2 → q = p) (fun _ x => ∀ c q, (.glob, c, q) ∈ x.2 → q = p)
    (fun x => ∀ c q, (.glob, c, q) ∈ x.2 → q = p) (p, []) := by
  have hother : ∀ {o : Op} {c : Choice} {p' : Mounted} {l : Record}, o ≠ .glob → (∀ c q, (.glob, c, q) ∈ l → q = p) →
      ∀ c' q, (.glob, c', q) ∈ l ++ [(o, c, p')] → q = p := by
    intro o c p' l ho h c' q hmem
    rcases List.mem_append.mp hmem with hmem | hmem
    · exact h c' q hmem
    · cases List.mem_singleton.mp hmem
      exact absurd rfl ho
  have hnil : ∀ c q, (.glob, c, q) ∈ ([] : Record) → q = p := fun _ _ hmem => (List.not_mem_nil hmem).elim
  refine ends_seq (ends_recorded_read rfl hnil fun c => hother nofun hnil) fun live x hx => ?_
  obtain ⟨c, rfl, rfl⟩ := hx
  have hglob : ∀ c', ∀ c'' q, (.glob, c'', q) ∈ ([] ++ [(Op.resolveLink, c, p)]) ++ [(Op.glob, c', p)] → q = p := by
    intro c' c'' q hmem
    rcases List.mem_append.mp hmem with hmem | hmem
    · exact hother (o := .resolveLink) nofun hnil c'' q hmem
    · cases List.mem_singleton.mp hmem
      rfl
  refine ends_seq (ends_recorded_read rfl (hother nofun hnil) hglob) fun generations x hx => ?_
  obtain ⟨c', rfl, rfl⟩ := hx
  have hloop : ∀ rest : List Gen, (rest.forM fun old => if some old = (exec host .resolveLink c p.world).1 then pure ()
      else Render.rmtreeNotLive old : Cmd Unit).Uses fun o => o ≠ .glob := fun rest =>
    Script.uses_forM fun old _ => Script.uses_ite (fun _ => Script.uses_pure ()) fun _ =>
      Script.uses_bind (Script.uses_op nofun) fun live =>
        Script.uses_ite (fun _ => Script.uses_raise _) fun _ => Script.uses_op nofun
  exact ends_of_uses (hloop _) (fun o ho c x _ h => hother ho h) (hglob c')

/-- A prune deletes nothing that is in use, however its calls go, exactly when what is in use is recent where it begins. -/
theorem prune_spares {p : Mounted} (hp : (p.world.gens.map (·.1)).Nodup) :
    (∀ cs, Spared (Render.prune.record (mountedServer host) cs p)) ↔ Recent p := by
  constructor
  · intro h g huse hname
    by_contra hold
    rw [not_or, Nat.not_lt] at hold
    have hends := (holds_of_runs (I := fun x => Spared x.2)).mpr h
    have hloop := ends_plain (o := .glob) (ends_plain (o := .resolveLink) hends)
    rw [track_nothing (o := .glob) rfl, track_nothing (o := .resolveLink) rfl] at hloop
    refine not_inUse_of_spared ?_ hloop g ((mem_drop_sorted_iff hp hname _).mpr hold.1) (fun heq => hold.2 heq.symm) huse
    intro g' hg' hlink
    have hmem := (List.perm_insertionSort _ _).mem_iff.mp (List.mem_of_mem_drop hg')
    exact (resolved_of_mem hlink hmem).symm
  · intro h cs
    have hfine : Fine ((Render.prune.run (mountedServer host) cs p).2, Render.prune.record (mountedServer host) cs p) :=
      holds_of_runs.mp (prune_fine (p, []) ⟨hp, fun _ _ _ _ hmem => (List.not_mem_nil hmem).elim⟩) cs
    refine hfine.spared fun c q hmem => ?_
    rw [holds_of_runs.mp prune_begins cs c q hmem]
    exact h

end Exact

/-! ## Every history -/

/-- One apply keeps the names apart, and spares what is in use if its prunes began with that recent. -/
theorem Round.after_nodup {host : Host} {r : Round} {p : Mounted} (hp : (p.world.gens.map (·.1)).Nodup) :
    ((r.after host p).world.gens.map (·.1)).Nodup ∧ (Counted (r.log host p) → Spared (r.log host p)) := by
  have hstart : Fine (r.meanwhile p, []) :=
    ⟨by rw [r.keeps p]; exact hp, fun _ _ _ _ hmem => (List.not_mem_nil hmem).elim⟩
  have hfine : Fine (r.after host p, r.log host p) :=
    holds_of_runs.mp (apply_fine host.py r.restart _ hstart) r.choices
  exact ⟨hfine.nodup, hfine.spared⟩

/-- In every history whose prunes all begin with what is in use recent, no prune deletes a generation a running container is
mounted on; and a prune can be relied on for that, however its calls go, only where it begins so. -/
theorem mounts_spared (host : Host) (rounds : List Round) {p : Mounted} (hp : (p.world.gens.map (·.1)).Nodup) :
    (Round.All host (fun r p => Counted (r.log host p)) rounds p →
      Round.All host (fun r p => Spared (r.log host p)) rounds p) ∧
    ∀ q : Mounted, (q.world.gens.map (·.1)).Nodup →
      ((∀ cs, Spared (Render.prune.record (mountedServer host) cs q)) ↔ Recent q) := by
  refine ⟨fun h => ?_, fun q hq => prune_spares hq⟩
  induction rounds generalizing p with
  | nil => trivial
  | cons r rounds ih =>
    obtain ⟨hcounted, hrest⟩ := h
    have hr : ((r.after host p).world.gens.map (·.1)).Nodup ∧ (Counted (r.log host p) → Spared (r.log host p)) :=
      Round.after_nodup hp
    exact ⟨hr.2 hcounted, ih hr.1 hrest⟩

/-- A server with every protocol off and one fragment of sing-box configuration, which sing-box alone runs on. -/
def sampleServer : Mounted where
  world := { World.provisioned (fun _ => none) [] .fragment with state := some ⟨[], [], [], false⟩ }
  mount := fun _ => none

/-- An apply that restarts what changed, and meets no trouble. -/
def sampleRound : Round := ⟨id, fun _ => rfl, true, List.replicate 60 plain⟩

/-- The same apply, before which the container was started again on the tree that is live. -/
def startedRound : Round :=
  { sampleRound with meanwhile := fun p => { p with mount := fun _ => resolved p.world }, keeps := fun _ => rfl }

/-- The server behind some of them. -/
def startedServer (n : Nat) : Mounted := (List.replicate n startedRound).foldl (fun p r => r.after Host.sample p) sampleServer

/-- The sixth of them deletes the oldest generation, and sing-box is on another. -/
theorem mounts_spared_started :
    Round.All Host.sample (fun r p => Spared (r.log Host.sample p)) (List.replicate 6 startedRound) sampleServer ∧
      (startedServer 5).world.gens.map (·.1) = [0, 1, 2, 3, 4] ∧ (startedServer 6).world.gens.map (·.1) = [1, 2, 3, 4, 5] ∧
        inUse (startedServer 6) = [4] :=
  ⟨(mounts_spared Host.sample (List.replicate 6 startedRound) (p := sampleServer) List.nodup_nil).1 (by decide +kernel),
    by decide +kernel, by decide +kernel, by decide +kernel⟩

/-- Without that the sixth, like those before it, has nothing to restart, and deletes the generation sing-box was started on. -/
theorem mounts_spared_six :
    ¬ Round.All Host.sample (fun r p => Spared (r.log Host.sample p)) (List.replicate 6 sampleRound) sampleServer := by
  decide +kernel

end Mounts

end VpnStack

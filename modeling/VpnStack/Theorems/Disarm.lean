import VpnStack.Deadman

/-!
# What a disarm and an arming promise

A disarm that exits 0 has seen the timer gone, but not that it went before it switched the firewall off: the timer may do
that between the disarm's look at the pid file and its signal. Two programs that arm may both look before either of their
timers has recorded itself. Outside these windows both halves of the net hold in every order of steps.
-/

namespace VpnStack

open Transition

namespace Deadman

variable {ι π : Type} [DecidableEq ι] [DecidableEq π] {kinds : ι → Kind} {h h' : Host ι π} {i j : ι} {p q : π}

/-! ## What a step can be -/

/-- The steps of a program that change nothing but where it is. -/
inductive Next (kind : Kind) (h : Host ι π) : Phase π → Phase π → Prop where
  | test (hf : h.file.isSome) : Next kind h .idle .tested
  | clear (hf : h.file = none) (ha : kind.arms) : Next kind h .idle .ready
  | nothing (hf : h.file = none) (ha : kind.arms = false) : Next kind h .idle .refused
  | lost (hf : h.file = none) : Next kind h .tested .refused
  | read (old : π) (hf : h.file = some old) : Next kind h .tested (.found old)
  | refuse (old : π) (ha : kind.arms) (hl : (h.timers old).alive) : Next kind h (.found old) .refused
  | dead (old : π) (ha : kind.arms) (hl : (h.timers old).alive = false) : Next kind h (.found old) (.clearing old)
  | reaped (old : π) (killed : Bool) (left : Nat) (hl : (h.timers old).alive = false) :
    Next kind h (.reaping old killed left) (.clearing old)
  | poll (old : π) (killed : Bool) (left : Nat) : Next kind h (.reaping old killed left) (.reaping old killed (left - 1))
  | survives (old : π) (left : Nat) : Next kind h (.reaping old true left) .refused
  | wait (p : π) (left : Nat) : Next kind h (.waiting p left) (.waiting p (left - 1))
  | seen (p : π) (left : Nat) : Next kind h (.waiting p left) (.checking p)
  | failed (p : π) (hf : h.file = none) : Next kind h (.checking p) .refused
  | armed (p reported : π) (hf : h.file = some reported) : Next kind h (.checking p) (.armed reported)

/-- The steps of the programs and of the timers. -/
inductive Move (kinds : ι → Kind) (h : Host ι π) : Action ι π → Host ι π → Prop where
  | goesOn (i : ι) (pid : π) (next : Phase π) (hn : Next (kinds i) h (h.programs i) next) :
    Move kinds h (.program i pid) (h.setProgram i next)
  | signals (i : ι) (pid old : π) (killed : Bool) (left : Nat)
      (hp : h.programs i = .found old ∨ ∃ k n, h.programs i = .reaping old k n) :
    Move kinds h (.program i pid) ((h.setTimer old (h.timers old).signal).setProgram i (.reaping old killed left))
  | clears (i : ι) (pid old : π) (hp : h.programs i = .clearing old) :
    Move kinds h (.program i pid)
      ({ h with file := none }.setProgram i (if (kinds i).arms then .ready else .disarmed old))
  | spawns (i : ι) (pid : π) (hp : h.programs i = .ready) (hs : (h.timers pid).stage = .absent) :
    Move kinds h (.program i pid) ((h.setTimer pid { stage := .spawned }).setProgram i (.waiting pid 10))
  | writes (pid : π) (hs : (h.timers pid).stage = .spawned) :
    Move kinds h (.write pid) ({ h with file := some pid }.setTimer pid { h.timers pid with stage := .sleeping })
  | disables (pid : π) (hs : (h.timers pid).stage = .sleeping) :
    Move kinds h (.disable pid) (h.setTimer pid { h.timers pid with stage := .fired, disabled := true })
  | removes (pid : π) (hs : (h.timers pid).stage = .fired) :
    Move kinds h (.remove pid) ({ h with file := none }.setTimer pid { h.timers pid with stage := .gone })
  | dies (pid : π) (hs : (h.timers pid).alive) :
    Move kinds h (.die pid) (h.setTimer pid { h.timers pid with stage := .gone })

/-- Every step of a program is one of them. -/
theorem move_of_programStep {pid : π} (hs : programStep (kinds i) h i pid = some h') : Move kinds h (.program i pid) h' := by
  unfold programStep at hs
  split at hs
  · rename_i hp
    split at hs
    · rename_i hf
      rw [Option.some_inj] at hs
      exact hs ▸ .goesOn i pid _ (hp ▸ .test hf)
    · rename_i hf
      have hf : h.file = none := by simpa using hf
      rw [Option.some_inj] at hs
      cases ha : (kinds i).arms with
      | true =>
        rw [ha] at hs
        exact hs ▸ .goesOn i pid _ (hp ▸ .clear hf ha)
      | false =>
        rw [ha] at hs
        exact hs ▸ .goesOn i pid _ (hp ▸ .nothing hf ha)
  · rename_i hp
    split at hs
    · rename_i hf
      rw [Option.some_inj] at hs
      exact hs ▸ .goesOn i pid _ (hp ▸ .lost hf)
    · rename_i old hf
      rw [Option.some_inj] at hs
      exact hs ▸ .goesOn i pid _ (hp ▸ .read old hf)
  · rename_i old hp
    have hsignal : ∀ {n}, some ((h.setTimer old (h.timers old).signal).setProgram i (.reaping old false n)) = some h' →
        Move kinds h (.program i pid) h' := fun hs => Option.some_inj.mp hs ▸ .signals i pid old false _ (.inl hp)
    have hclear : (kinds i).arms → (h.timers old).alive = false → some (h.setProgram i (.clearing old)) = some h' →
        Move kinds h (.program i pid) h' := fun ha hl hs => Option.some_inj.mp hs ▸ .goesOn i pid _ (hp ▸ .dead old ha hl)
    cases hk : kinds i with
    | armApp =>
      simp only [hk] at hs
      cases hl : (h.timers old).alive with
      | true =>
        rw [hl, Option.some_inj] at hs
        exact hs ▸ .goesOn i pid _ (hp ▸ .refuse old (by rw [hk]; rfl) hl)
      | false =>
        rw [hl] at hs
        exact hclear (by rw [hk]; rfl) hl hs
    | armHost =>
      simp only [hk] at hs
      cases hl : (h.timers old).alive with
      | true =>
        rw [hl] at hs
        exact hsignal hs
      | false =>
        rw [hl] at hs
        exact hclear (by rw [hk]; rfl) hl hs
    | disarmApp =>
      simp only [hk] at hs
      exact hsignal hs
    | disarmHost =>
      simp only [hk] at hs
      exact hsignal hs
  · rename_i old killed left hp
    split at hs
    · rename_i hl
      rw [Option.some_inj] at hs
      exact hs ▸ .goesOn i pid _ (hp ▸ .reaped old killed left hl)
    · split at hs
      · rw [Option.some_inj] at hs
        exact hs ▸ .goesOn i pid _ (hp ▸ .poll old killed left)
      · split at hs
        · rename_i hk
          rw [Option.some_inj] at hs
          subst hk
          exact hs ▸ .goesOn i pid _ (hp ▸ .survives old left)
        · rw [Option.some_inj] at hs
          exact hs ▸ .signals i pid old true _ (.inr ⟨killed, left, hp⟩)
  · rename_i old hp
    rw [Option.some_inj] at hs
    exact hs ▸ .clears i pid old hp
  · rename_i hp
    split at hs
    · rename_i ha
      rw [Option.some_inj] at hs
      exact hs ▸ .spawns i pid hp ha
    · nomatch hs
  · rename_i p left hp
    split at hs
    · rw [Option.some_inj] at hs
      exact hs ▸ .goesOn i pid _ (hp ▸ .wait p left)
    · rw [Option.some_inj] at hs
      exact hs ▸ .goesOn i pid _ (hp ▸ .seen p left)
  · rename_i p hp
    split at hs
    · rename_i hf
      rw [Option.some_inj] at hs
      exact hs ▸ .goesOn i pid _ (hp ▸ .failed p hf)
    · rename_i reported hf
      rw [Option.some_inj] at hs
      exact hs ▸ .goesOn i pid _ (hp ▸ .armed p reported hf)
  · nomatch hs
  · nomatch hs
  · nomatch hs

/-- Every step is one of them. -/
theorem move_of_step {a : Action ι π} (hs : step kinds h a = some h') : Move kinds h a h' := by
  cases a with
  | program i pid => exact move_of_programStep hs
  | write pid =>
    simp only [step] at hs
    split at hs
    · rename_i hstage
      exact Option.some_inj.mp hs ▸ .writes pid hstage
    · nomatch hs
  | disable pid =>
    simp only [step] at hs
    split at hs
    · rename_i hstage
      exact Option.some_inj.mp hs ▸ .disables pid hstage
    · nomatch hs
  | remove pid =>
    simp only [step] at hs
    split at hs
    · rename_i hstage
      exact Option.some_inj.mp hs ▸ .removes pid hstage
    · nomatch hs
  | die pid =>
    simp only [step] at hs
    split at hs
    · rename_i hstage
      exact Option.some_inj.mp hs ▸ .dies pid hstage.1
    · nomatch hs

/-- What a step leaves of a timer: one that was there stays known, one that is gone stays gone, and only its own step switches
the firewall off. -/
theorem Move.timers {a : Action ι π} (hm : Move kinds h a h') (p : π) :
    ((h.timers p).stage ≠ .absent → (h'.timers p).stage ≠ .absent) ∧
      ((h.timers p).stage = .gone → (h'.timers p).stage = .gone) ∧
      ((h'.timers p).disabled → (h.timers p).disabled ∨ a = .disable p) := by
  cases hm with
  | goesOn i pid next hn => exact ⟨fun hs => hs, fun hs => hs, .inl⟩
  | clears i pid old hp => exact ⟨fun hs => hs, fun hs => hs, .inl⟩
  | signals i pid old killed left hp =>
    by_cases ho : p = old
    · subst ho
      simp
    · simp [ho]
  | spawns i pid hp hs =>
    by_cases ho : p = pid
    · subst ho
      simp [hs]
    · simp [ho]
  | writes pid hs =>
    by_cases ho : p = pid
    · subst ho
      simp [hs]
    · simp [ho]
  | disables pid hs =>
    by_cases ho : p = pid
    · subst ho
      simp [hs]
    · simp only [Host.timers_setTimer_of_ne _ _ _ ho]
      exact ⟨fun hs => hs, fun hs => hs, .inl⟩
  | removes pid hs =>
    by_cases ho : p = pid
    · subst ho
      simp [hs]
    · simp [ho]
  | dies pid hs =>
    by_cases ho : p = pid
    · subst ho
      simp
    · simp [ho]

/-! ## A disarm that exits 0 -/

/-- The pid a program has read, while it acts on it and after it disarmed. -/
def Phase.pid {π : Type} : Phase π → Option π
  | .found p | .reaping p _ _ | .clearing p | .disarmed p => some p
  | _ => none

/-- The program has seen that the timer is gone. -/
def Phase.reaped {π : Type} : Phase π → Option π
  | .clearing p | .disarmed p => some p
  | _ => none

/-- No disarm reads the pid of a timer that has switched the firewall off, and none that has read it is overtaken by its timer
doing so. -/
def Unfired (kinds : ι → Kind) (h : Host ι π) : Action ι π → Prop
  | .program i _ => (kinds i).arms = false → h.programs i = .tested → ∀ p ∈ h.file, (h.timers p).disabled = false
  | .disable p => ∀ i, (kinds i).arms = false → (h.programs i).pid ≠ some p
  | _ => True

/-- What is known of the timers the disarms act on. -/
structure Watched (kinds : ι → Kind) (h : Host ι π) : Prop where
  file : ∀ p ∈ h.file, (h.timers p).stage ≠ .absent
  known : ∀ i p, (h.programs i).pid = some p → (h.timers p).stage ≠ .absent
  unfired : ∀ i p, (kinds i).arms = false → (h.programs i).pid = some p → (h.timers p).disabled = false
  gone : ∀ i p, (kinds i).arms = false → (h.programs i).reaped = some p → (h.timers p).stage = .gone

omit [DecidableEq ι] [DecidableEq π] in
theorem watched_init (kinds : ι → Kind) : Watched kinds ({} : Host ι π) := by
  constructor <;> simp [Phase.pid, Phase.reaped]

omit [DecidableEq ι] [DecidableEq π] in
/-- A timer that is known and not alive is gone. -/
theorem gone_of_not_alive {t : Timer} (hs : t.stage ≠ .absent) (hl : t.alive = false) : t.stage = .gone := by
  unfold Timer.alive at hl
  cases hstage : t.stage <;> simp_all

/-- The pid file names no timer that never was. -/
theorem Watched.file_step {a : Action ι π} (hw : Watched kinds h) (hm : Move kinds h a h') :
    ∀ p ∈ h'.file, (h'.timers p).stage ≠ .absent := by
  intro p hp
  have hknown := (hm.timers p).1
  cases hm with
  | goesOn i pid next hn => exact hw.file p hp
  | clears i pid old ho => nomatch hp
  | signals i pid old killed left ho => exact hknown (hw.file p hp)
  | spawns i pid ho hs => exact hknown (hw.file p hp)
  | writes pid hs =>
    obtain rfl : pid = p := Option.some_inj.mp hp
    simp
  | disables pid hs => exact hknown (hw.file p hp)
  | removes pid hs => nomatch hp
  | dies pid hs => exact hknown (hw.file p hp)

/-- The pid a program acts on is the one it acted on, or the one it reads in the file. -/
theorem Move.pid {a : Action ι π} (hm : Move kinds h a h') (hp : (h'.programs i).pid = some p) :
    (h.programs i).pid = some p ∨ (∃ pid, a = .program i pid) ∧ h.programs i = .tested ∧ h.file = some p := by
  have hother : ∀ {j next} {k : Host ι π}, k.programs = h.programs → ((k.setProgram j next).programs i).pid = some p →
      i = j ∨ (h.programs i).pid = some p := fun {j next k} hk hp => by
    by_cases hij : i = j
    · exact .inl hij
    · rw [Host.programs_setProgram_of_ne _ _ _ hij, hk] at hp
      exact .inr hp
  cases hm with
  | goesOn j pid next hn =>
    rcases hother rfl hp with rfl | hp
    · rw [Host.programs_setProgram_self] at hp
      generalize hq : h.programs i = q at hn
      cases hn with
      | read old hf => exact .inr ⟨⟨pid, rfl⟩, rfl, hf.trans hp⟩
      | dead old ha hl => exact .inl hp
      | reaped old killed left hl => exact .inl hp
      | poll old killed left => exact .inl hp
      | _ => nomatch hp
    · exact .inl hp
  | signals j pid old killed left hold =>
    rcases hother rfl hp with rfl | hp
    · rw [Host.programs_setProgram_self] at hp
      rcases hold with ho | ⟨k, n, ho⟩ <;> exact .inl (ho ▸ hp)
    · exact .inl hp
  | clears j pid old ho =>
    rcases hother rfl hp with rfl | hp
    · rw [Host.programs_setProgram_self] at hp
      cases hk : (kinds i).arms with
      | true =>
        rw [hk] at hp
        nomatch hp
      | false =>
        rw [hk] at hp
        exact .inl (ho ▸ hp)
    · exact .inl hp
  | spawns j pid ho hs =>
    rcases hother rfl hp with rfl | hp
    · rw [Host.programs_setProgram_self] at hp
      nomatch hp
    · exact .inl hp
  | writes pid hs => exact .inl hp
  | disables pid hs => exact .inl hp
  | removes pid hs => exact .inl hp
  | dies pid hs => exact .inl hp

/-- A program sees the timer gone when it looks. -/
theorem Move.reaped {a : Action ι π} (hm : Move kinds h a h') (hp : (h'.programs i).reaped = some p) :
    (h.programs i).reaped = some p ∨ (h.programs i).pid = some p ∧ (h'.timers p).alive = false := by
  have hother : ∀ {j next} {k : Host ι π}, k.programs = h.programs → ((k.setProgram j next).programs i).reaped = some p →
      i = j ∨ (h.programs i).reaped = some p := fun {j next k} hk hp => by
    by_cases hij : i = j
    · exact .inl hij
    · rw [Host.programs_setProgram_of_ne _ _ _ hij, hk] at hp
      exact .inr hp
  cases hm with
  | goesOn j pid next hn =>
    rcases hother rfl hp with rfl | hp
    · rw [Host.programs_setProgram_self] at hp
      generalize hq : h.programs i = q at hn
      cases hn with
      | dead old ha hl =>
        obtain rfl := Option.some_inj.mp hp
        exact .inr ⟨rfl, hl⟩
      | reaped old killed left hl =>
        obtain rfl := Option.some_inj.mp hp
        exact .inr ⟨rfl, hl⟩
      | _ => nomatch hp
    · exact .inl hp
  | signals j pid old killed left hold =>
    rcases hother rfl hp with rfl | hp
    · rw [Host.programs_setProgram_self] at hp
      nomatch hp
    · exact .inl hp
  | clears j pid old ho =>
    rcases hother rfl hp with rfl | hp
    · rw [Host.programs_setProgram_self] at hp
      cases hk : (kinds i).arms with
      | true =>
        rw [hk] at hp
        nomatch hp
      | false =>
        rw [hk] at hp
        exact .inl (ho ▸ hp)
    · exact .inl hp
  | spawns j pid ho hs =>
    rcases hother rfl hp with rfl | hp
    · rw [Host.programs_setProgram_self] at hp
      nomatch hp
    · exact .inl hp
  | writes pid hs => exact .inl hp
  | disables pid hs => exact .inl hp
  | removes pid hs => exact .inl hp
  | dies pid hs => exact .inl hp

/-- The step lemma of the disarms. -/
theorem watched_step {a : Action ι π} (hw : Watched kinds h) (hu : Unfired kinds h a) (hs : step kinds h a = some h') :
    Watched kinds h' := by
  have hm := move_of_step hs
  have hknown : ∀ i p, (h'.programs i).pid = some p → (h'.timers p).stage ≠ .absent := fun i p hp => by
    rcases hm.pid hp with hp | ⟨-, -, hf⟩
    · exact (hm.timers p).1 (hw.known i p hp)
    · exact (hm.timers p).1 (hw.file p hf)
  refine ⟨hw.file_step hm, hknown, fun i p hk hp => ?_, fun i p hk hp => ?_⟩
  · -- Only the timer itself could have switched the firewall off, and not while a disarm acts on it.
    by_contra hd
    rw [Bool.not_eq_false] at hd
    rcases hm.pid hp with hp | ⟨⟨pid, rfl⟩, ht, hf⟩
    · rcases (hm.timers p).2.2 hd with hd | rfl
      · rw [hw.unfired i p hk hp] at hd
        nomatch hd
      · exact hu i hk hp
    · rcases (hm.timers p).2.2 hd with hd | hd
      · rw [hu hk ht p hf] at hd
        nomatch hd
      · nomatch hd
  · rcases hm.reaped hp with hp | ⟨hp, hl⟩
    · exact (hm.timers p).2.1 (hw.gone i p hk hp)
    · exact gone_of_not_alive ((hm.timers p).1 (hw.known i p hp)) hl

/-- A timer that is gone stays gone, and what it did is what it did. -/
theorem gone_run {as : List (Action ι π)} (hg : (h.timers p).stage = .gone) (hd : (h.timers p).disabled = false)
    (hrun : run (step kinds) h as = some h') : (h'.timers p).stage = .gone ∧ (h'.timers p).disabled = false := by
  refine run_always (I := fun h : Host ι π => (h.timers p).stage = .gone ∧ (h.timers p).disabled = false)
    (fun h a h' hi hs => ?_) ⟨hg, hd⟩ hrun
  have hm := move_of_step hs
  refine ⟨(hm.timers p).2.1 hi.1, ?_⟩
  by_contra hd
  rw [Bool.not_eq_false] at hd
  rcases (hm.timers p).2.2 hd with hd | rfl
  · rw [hi.2] at hd
    nomatch hd
  · cases hm with
    | disables pid hstage =>
      rw [hi.1] at hstage
      nomatch hstage

/-! ## Any number of armings -/

/-- From its look at the pid file until it started its timer. -/
def Phase.looking {π : Type} : Phase π → Bool
  | .tested | .found _ | .reaping .. | .clearing _ | .ready => true
  | _ => false

/-- It goes by no timer being alive. -/
def Phase.cleared {π : Type} : Phase π → Bool
  | .clearing _ | .ready => true
  | _ => false

/-- No arming looks at the pid file while another is between its look and its timer's record, and none gives its timer up
before that record. -/
def Apart (h : Host ι π) : Action ι π → Prop
  | .program i _ =>
    (h.programs i = .idle → (∀ j, (h.programs j).looking = false) ∧ ∀ p, (h.timers p).stage ≠ .spawned) ∧
      ∀ p, h.programs i = .checking p → (h.timers p).stage ≠ .spawned
  | _ => True

/-- There is one timer at most, and the file names it from its record on. -/
structure Single (h : Host ι π) : Prop where
  one : ∀ p q, (h.timers p).alive → (h.timers q).alive → p = q
  named : ∀ p, (h.timers p).alive → (h.timers p).stage ≠ .spawned → h.file = some p
  looking : ∀ i j, (h.programs i).looking → (h.programs j).looking → i = j
  recorded : ∀ i p, (h.programs i).looking → (h.timers p).stage ≠ .spawned
  found : ∀ i p old, (h.programs i).looking → (h.programs i).pid = some old → (h.timers p).alive → p = old
  cleared : ∀ i p, (h.programs i).cleared → (h.timers p).alive = false
  started : ∀ p, (h.timers p).stage = .spawned → ∃ i, h.programs i = .checking p ∨ ∃ n, h.programs i = .waiting p n

omit [DecidableEq ι] [DecidableEq π] in
theorem single_init : Single ({} : Host ι π) := by
  constructor <;> simp [Timer.alive, Phase.looking, Phase.pid, Phase.cleared]

omit [DecidableEq ι] [DecidableEq π] in
theorem alive_of_spawned {t : Timer} (hs : t.stage = .spawned) : t.alive := by rw [Timer.alive, hs]

/-- What is known of the program that steps is known of where it goes. -/
structure Fits (h : Host ι π) (i : ι) (next : Phase π) : Prop where
  looking : next.looking → (h.programs i).looking ∨ (∀ j, (h.programs j).looking = false) ∧
    ∀ p, (h.timers p).stage ≠ .spawned
  found : ∀ p old, next.looking → next.pid = some old → (h.timers p).alive → p = old
  cleared : ∀ p, next.cleared → (h.timers p).alive = false
  started : ∀ p, (h.timers p).stage = .spawned → (h.programs i = .checking p ∨ ∃ n, h.programs i = .waiting p n) →
    next = .checking p ∨ ∃ n, next = .waiting p n

omit [DecidableEq ι] [DecidableEq π] in
/-- A timer that has recorded itself and is alive is the one in the file. -/
theorem Single.dead_of_file (hs : Single h) (hf : h.file = none) (hstage : ∀ p, (h.timers p).stage ≠ .spawned) (p : π) :
    (h.timers p).alive = false := by
  by_contra hl
  rw [Bool.not_eq_false] at hl
  have hnamed := hs.named p hl (hstage p)
  rw [hf] at hnamed
  cases hnamed

omit [DecidableEq ι] [DecidableEq π] in
/-- A step of an arming that changes only where it is fits. -/
theorem Next.fits {next : Phase π} {pid : π} (hs : Single h) (hap : Apart h (.program i pid)) (hk : (kinds i).arms)
    (hn : Next (kinds i) h (h.programs i) next) : Fits h i next := by
  obtain ⟨hidle, hchecking⟩ := hap
  generalize hq : h.programs i = phase at hn
  -- A program that leaves its look, or never was in it, is asked for nothing.
  have hrefused : (∀ p, (h.timers p).stage = .spawned → ¬ (phase = .checking p ∨ ∃ n, phase = .waiting p n)) →
      ∀ {next : Phase π}, next.looking = false → next.pid = none → next.cleared = false → Fits h i next :=
    fun hnot _ hl hp hc =>
      { looking := fun h => by rw [hl] at h; cases h
        found := fun p old _ h => by rw [hp] at h; cases h
        cleared := fun p h => by rw [hc] at h; cases h
        started := fun p hstage h => absurd (hq ▸ h) (hnot p hstage) }
  -- A timer that the program found dead is none that is alive.
  have hdead : ∀ old, phase.looking → phase.pid = some old → (h.timers old).alive = false → ∀ p, (h.timers p).alive = false :=
    fun old hlook hpid hl p => by
      by_contra halive
      rw [Bool.not_eq_false] at halive
      obtain rfl := hs.found i p old (hq ▸ hlook) (hq ▸ hpid) halive
      rw [hl] at halive
      cases halive
  cases hn with
  | test hf =>
    exact {
      looking := fun _ => .inr (hidle hq)
      found := fun p old _ h => by cases h
      cleared := fun p h => by cases h
      started := fun p _ h => by simp [hq] at h }
  | clear hf ha =>
    exact {
      looking := fun _ => .inr (hidle hq)
      found := fun p old _ h => by cases h
      cleared := fun p _ => hs.dead_of_file hf (hidle hq).2 p
      started := fun p _ h => by simp [hq] at h }
  | nothing hf ha =>
    rw [hk] at ha
    cases ha
  | lost hf => exact hrefused (fun p _ => by simp) rfl rfl rfl
  | read old hf =>
    exact {
      looking := fun _ => .inl (by rw [hq]; rfl)
      found := fun p old' _ hold halive => by
        have hnamed := hs.named p halive (hs.recorded i p (by rw [hq]; rfl))
        rw [hf] at hnamed
        exact (Option.some_inj.mp hnamed).symm.trans (Option.some_inj.mp hold)
      cleared := fun p h => by cases h
      started := fun p _ h => by simp [hq] at h }
  | refuse old ha hl => exact hrefused (fun p _ => by simp) rfl rfl rfl
  | dead old ha hl =>
    exact {
      looking := fun _ => .inl (by rw [hq]; rfl)
      found := fun p old' _ hold halive => hs.found i p old' (by rw [hq]; rfl) (hq ▸ hold) halive
      cleared := fun p _ => hdead old rfl rfl hl p
      started := fun p _ h => by simp [hq] at h }
  | reaped old killed left hl =>
    exact {
      looking := fun _ => .inl (by rw [hq]; rfl)
      found := fun p old' _ hold halive => hs.found i p old' (by rw [hq]; rfl) (hq ▸ hold) halive
      cleared := fun p _ => hdead old rfl rfl hl p
      started := fun p _ h => by simp [hq] at h }
  | poll old killed left =>
    exact {
      looking := fun _ => .inl (by rw [hq]; rfl)
      found := fun p old' _ hold halive => hs.found i p old' (by rw [hq]; rfl) (hq ▸ hold) halive
      cleared := fun p h => by cases h
      started := fun p _ h => by simp [hq] at h }
  | survives old left => exact hrefused (fun p _ => by simp) rfl rfl rfl
  | wait p left =>
    exact {
      looking := fun h => by cases h
      found := fun p old _ h => by cases h
      cleared := fun p h => by cases h
      started := fun p' _ h => .inr ⟨left - 1, by simp_all⟩ }
  | seen p left =>
    exact {
      looking := fun h => by cases h
      found := fun p old _ h => by cases h
      cleared := fun p h => by cases h
      started := fun p' _ h => .inl (by simp_all) }
  | failed p hf =>
    refine hrefused (fun p' hstage hp => ?_) rfl rfl rfl
    have hp : Phase.checking p = .checking p' := hp.elim id fun h => by cases h.choose_spec
    exact hchecking p' (hq.trans hp) hstage
  | armed p reported hf =>
    refine hrefused (fun p' hstage hp => ?_) rfl rfl rfl
    have hp : Phase.checking p = .checking p' := hp.elim id fun h => by cases h.choose_spec
    exact hchecking p' (hq.trans hp) hstage

omit [DecidableEq π] in
/-- The host after a program went where it fits, with the timers and the file as they were. -/
theorem Single.setProgram {next : Phase π} (hs : Single h) (hf : Fits h i next) : Single (h.setProgram i next) := by
  constructor
  · exact hs.one
  · exact hs.named
  · intro j k hj hk
    by_cases hji : j = i
    · by_cases hki : k = i
      · rw [hji, hki]
      · subst hji
        rw [Host.programs_setProgram_self] at hj
        rw [Host.programs_setProgram_of_ne _ _ _ hki] at hk
        rcases hf.looking hj with hj | ⟨hnone, -⟩
        · exact hs.looking j k hj hk
        · rw [hnone k] at hk
          nomatch hk
    · rw [Host.programs_setProgram_of_ne _ _ _ hji] at hj
      by_cases hki : k = i
      · subst hki
        rw [Host.programs_setProgram_self] at hk
        rcases hf.looking hk with hk | ⟨hnone, -⟩
        · exact hs.looking j k hj hk
        · rw [hnone j] at hj
          nomatch hj
      · rw [Host.programs_setProgram_of_ne _ _ _ hki] at hk
        exact hs.looking j k hj hk
  · intro j p hj
    by_cases hji : j = i
    · subst hji
      rw [Host.programs_setProgram_self] at hj
      rcases hf.looking hj with hj | ⟨-, hnone⟩
      · exact hs.recorded j p hj
      · exact hnone p
    · rw [Host.programs_setProgram_of_ne _ _ _ hji] at hj
      exact hs.recorded j p hj
  · intro j p old hj hold halive
    by_cases hji : j = i
    · subst hji
      rw [Host.programs_setProgram_self] at hj hold
      exact hf.found p old hj hold halive
    · rw [Host.programs_setProgram_of_ne _ _ _ hji] at hj hold
      exact hs.found j p old hj hold halive
  · intro j p hj
    by_cases hji : j = i
    · subst hji
      rw [Host.programs_setProgram_self] at hj
      exact hf.cleared p hj
    · rw [Host.programs_setProgram_of_ne _ _ _ hji] at hj
      exact hs.cleared j p hj
  · intro p hstage
    obtain ⟨j, hj⟩ := hs.started p hstage
    by_cases hji : j = i
    · subst hji
      exact ⟨j, by rw [Host.programs_setProgram_self]; exact hf.started p hstage hj⟩
    · exact ⟨j, by rw [Host.programs_setProgram_of_ne _ _ _ hji]; exact hj⟩

omit [DecidableEq ι] [DecidableEq π] in
/-- The host with other timers and another file, when no timer came to life that was not alive, and each that is alive stands
where it stood. -/
theorem Single.setTimers {file : Option π} {timers : π → Timer} (hs : Single h)
    (halive : ∀ p, (timers p).alive → (h.timers p).alive)
    (hspawned : ∀ p, (timers p).stage = .spawned → (h.timers p).stage = .spawned)
    (hnamed : ∀ p, (timers p).alive → (timers p).stage ≠ .spawned → file = some p) :
    Single { h with file, timers } where
  one p q hp hq := hs.one p q (halive p hp) (halive q hq)
  named := hnamed
  looking := hs.looking
  recorded i p hi hp := hs.recorded i p hi (hspawned p hp)
  found i p old hi hold hp := hs.found i p old hi hold (halive p hp)
  cleared i p hi := by
    by_contra hp
    rw [Bool.not_eq_false] at hp
    have hl := halive p hp
    rw [hs.cleared i p hi] at hl
    nomatch hl
  started p hp := hs.started p (hspawned p hp)

omit [DecidableEq ι] in
/-- The host after one timer moved on. -/
theorem Single.setTimer {file : Option π} {t : Timer} (hs : Single h) (halive : t.alive → (h.timers p).alive)
    (hspawned : t.stage ≠ .spawned)
    (hnamed : ∀ q, ((Function.update h.timers p t) q).alive → ((Function.update h.timers p t) q).stage ≠ .spawned → file = some q) :
    Single ({ h with file }.setTimer p t) := by
  refine hs.setTimers (fun q hq => ?_) (fun q hq => ?_) hnamed
  · by_cases hqp : q = p
    · subst hqp
      simp only [Function.update_self] at hq
      exact halive hq
    · simpa only [Function.update_of_ne hqp] using hq
  · by_cases hqp : q = p
    · subst hqp
      simp only [Function.update_self] at hq
      exact absurd hq hspawned
    · simpa only [Function.update_of_ne hqp] using hq

/-- Where nothing is alive, an arming starts its timer. -/
theorem Single.spawn (hs : Single h) (hp : h.programs i = .ready) (habsent : (h.timers p).stage = .absent) :
    Single ((h.setTimer p { stage := .spawned }).setProgram i (.waiting p 10)) := by
  have hdead : ∀ q, q ≠ p → (h.timers q).alive = false := fun q _ => hs.cleared i q (by rw [hp]; rfl)
  have honly : ∀ q, ((h.setTimer p { stage := .spawned }).timers q).alive → q = p := fun q hq => by
    by_contra hqp
    rw [Host.timers_setTimer_of_ne _ _ _ hqp, hdead q hqp] at hq
    nomatch hq
  -- The one that looked was this one, and it looks no more.
  have hnone : ∀ j, (((h.setTimer p { stage := .spawned }).setProgram i (.waiting p 10)).programs j).looking = false :=
    fun j => by
      by_cases hji : j = i
      · subst hji
        rw [Host.programs_setProgram_self]
        rfl
      · rw [Host.programs_setProgram_of_ne _ _ _ hji, Host.programs_setTimer]
        by_contra hl
        rw [Bool.not_eq_false] at hl
        exact hji (hs.looking j i hl (by rw [hp]; rfl))
  constructor
  · intro q r hq hr
    rw [honly q hq, honly r hr]
  · intro q hq hstage
    obtain rfl := honly q hq
    simp at hstage
  · intro j k hj
    rw [hnone j] at hj
    nomatch hj
  · intro j q hj
    rw [hnone j] at hj
    nomatch hj
  · intro j q old hj
    rw [hnone j] at hj
    nomatch hj
  · intro j q hj
    have hl : (((h.setTimer p { stage := .spawned }).setProgram i (.waiting p 10)).programs j).looking := by
      generalize ((h.setTimer p { stage := .spawned }).setProgram i (.waiting p 10)).programs j = phase at hj
      cases phase <;> first | rfl | nomatch hj
    rw [hnone j] at hl
    nomatch hl
  · intro q hq
    by_cases hqp : q = p
    · subst hqp
      exact ⟨i, .inr ⟨10, Host.programs_setProgram_self ..⟩⟩
    · rw [Host.timers_setProgram, Host.timers_setTimer_of_ne _ _ _ hqp] at hq
      have hdead := hdead q hqp
      rw [alive_of_spawned hq] at hdead
      nomatch hdead

/-- The step lemma of the armings. -/
theorem single_step {a : Action ι π} (hs : Single h) (hk : ∀ i, (kinds i).arms) (hap : Apart h a)
    (hstep : step kinds h a = some h') : Single h' := by
  cases move_of_step hstep with
  | goesOn i pid next hn => exact hs.setProgram (hn.fits hs hap (hk i))
  | signals i pid old killed left hp =>
    have hlook : (h.programs i).looking ∧ (h.programs i).pid = some old := by
      rcases hp with hp | ⟨k, n, hp⟩ <;> exact hp ▸ ⟨rfl, rfl⟩
    have hstage : ∀ q, ((h.setTimer old (h.timers old).signal).timers q).stage = (h.timers q).stage := fun q => by
      by_cases hqo : q = old
      · rw [hqo, Host.timers_setTimer_self, Timer.stage_signal]
      · rw [Host.timers_setTimer_of_ne _ _ _ hqo]
    have halive : ∀ q, ((h.setTimer old (h.timers old).signal).timers q).alive = (h.timers q).alive := fun q => by
      rw [Timer.alive, hstage, Timer.alive]
    have hsignalled : Single (h.setTimer old (h.timers old).signal) :=
      hs.setTimers (fun q hq => halive q ▸ hq) (fun q hq => hstage q ▸ hq)
        fun q hq hqs => hs.named q (halive q ▸ hq) (hstage q ▸ hqs)
    refine hsignalled.setProgram {
      looking := fun _ => .inl hlook.1
      found := ?_
      cleared := fun p h => by cases h
      started := ?_ }
    · intro p old' _ hold halive
      exact hsignalled.found i p old' hlook.1 (hlook.2.trans hold) halive
    · rintro p - (h | ⟨n, h⟩)
      · rw [Host.programs_setTimer] at h
        rw [h] at hlook
        cases hlook.1
      · rw [Host.programs_setTimer] at h
        rw [h] at hlook
        cases hlook.1
  | clears i pid old hp =>
    have hdead : ∀ p, (h.timers p).alive = false := fun p => hs.cleared i p (by rw [hp]; rfl)
    have hcleared : Single { h with file := none } := hs.setTimers (fun _ h => h) (fun _ h => h) fun p hl => by
      rw [hdead p] at hl
      cases hl
    rw [hk i]
    exact hcleared.setProgram {
      looking := fun _ => .inl (by simp [hp, Phase.looking])
      found := fun p old' _ h => by cases h
      cleared := fun p _ => hdead p
      started := fun p _ h => by simp [hp] at h }
  | spawns i pid hp habsent => exact hs.spawn hp habsent
  | writes pid hstage =>
    refine hs.setTimer (fun _ => alive_of_spawned hstage) (fun h => by cases h) fun q hq _ => ?_
    by_cases hqp : q = pid
    · rw [hqp]
    · rw [Function.update_of_ne hqp] at hq
      exact absurd (hs.one q pid hq (alive_of_spawned hstage)) hqp
  | disables pid hstage =>
    have hl : (h.timers pid).alive := by rw [Timer.alive, hstage]
    refine hs.setTimer (fun _ => hl) (fun h => by cases h) fun q hq hqs => ?_
    by_cases hqp : q = pid
    · rw [hqp]
      exact hs.named pid hl (by rw [hstage]; intro h; cases h)
    · rw [Function.update_of_ne hqp] at hq hqs
      exact hs.named q hq hqs
  | removes pid hstage =>
    have hl : (h.timers pid).alive := by rw [Timer.alive, hstage]
    refine hs.setTimer (fun _ => hl) (fun h => by cases h) fun q hq _ => ?_
    by_cases hqp : q = pid
    · subst hqp
      rw [Function.update_self] at hq
      cases hq
    · rw [Function.update_of_ne hqp] at hq
      exact absurd (hs.one q pid hq hl) hqp
  | dies pid hl =>
    refine hs.setTimer (fun _ => hl) (fun h => by cases h) fun q hq hqs => ?_
    by_cases hqp : q = pid
    · subst hqp
      rw [Function.update_self] at hq
      cases hq
    · rw [Function.update_of_ne hqp] at hq hqs
      exact hs.named q hq hqs

/-! ## Both halves -/

/-- The timer a disarm that exited 0 acted on has not switched the firewall off, and does not in any run from here. -/
def Kept (kinds : ι → Kind) (h : Host ι π) : Prop :=
  ∀ i p, (kinds i).arms = false → h.programs i = .disarmed p → ∀ bs h', run (step kinds) h bs = some h' →
    (h'.timers p).disabled = false

/-- When every program is over, there is one timer at most, and the pid file names it. -/
def Accounted (h : Host ι π) : Prop :=
  (∀ i, (h.programs i).settled) →
    (∀ p q, (h.timers p).alive → (h.timers q).alive → p = q) ∧ ∀ p, (h.timers p).alive → h.file = some p

/-- In every order of steps in which no timer fires under a disarm that goes by it, a disarm that exits 0 has kept the firewall;
and in every order of the steps of armings in which none looks while another is between its look and its timer's record, the
timers are accounted for. -/
theorem deadman_holds {as : List (Action ι π)} (hrun : run (step kinds) {} as = some h) :
    (Along (step kinds) (Unfired kinds) {} as → Kept kinds h) ∧
      ((∀ i, (kinds i).arms) → Along (step kinds) Apart {} as → Accounted h) := by
  constructor
  · intro hunfired i p hk hp bs h' hbs
    have hw : Watched kinds h := run_invariant (fun _ _ _ hw hu hs => watched_step hw hu hs) (watched_init kinds) hunfired hrun
    exact (gone_run (hw.gone i p hk (by rw [hp]; rfl)) (hw.unfired i p hk (by rw [hp]; rfl)) hbs).2
  · intro hk hap hsettled
    have hs : Single h := run_invariant (fun _ _ _ hs ha hstep => single_step hs hk ha hstep) single_init hap hrun
    refine ⟨hs.one, fun p hl => hs.named p hl fun hstage => ?_⟩
    -- A timer that has not recorded itself has an arming that is not over.
    obtain ⟨i, hi | ⟨n, hi⟩⟩ := hs.started p hstage
    · have hover := hsettled i
      rw [hi] at hover
      nomatch hover
    · have hover := hsettled i
      rw [hi] at hover
      nomatch hover

/-- The app arms a timer and disarms it. -/
def armAndDisarm : Bool → Kind
  | false => .armApp
  | true => .disarmApp

/-- The app arms a timer while `provision-host.sh` arms one. -/
def twoArmings : Bool → Kind
  | false => .armApp
  | true => .armHost

/-- The steps of an arming that meets nothing. -/
def arming (i pid : Bool) : List (Action Bool Bool) :=
  [.program i pid, .program i pid, .write pid, .program i pid, .program i pid]

/-- The steps of a disarm whose timer dies of the TERM. -/
def disarming (pid : Bool) : List (Action Bool Bool) :=
  [.program true pid, .program true pid, .program true pid, .die pid, .program true pid, .program true pid]

instance (kinds : Bool → Kind) (h : Host Bool Bool) : (a : Action Bool Bool) → Decidable (Unfired kinds h a)
  | .program i _ => inferInstanceAs (Decidable ((kinds i).arms = false → h.programs i = .tested →
      ∀ p ∈ h.file, (h.timers p).disabled = false))
  | .disable p => inferInstanceAs (Decidable (∀ i, (kinds i).arms = false → (h.programs i).pid ≠ some p))
  | .write _ | .remove _ | .die _ => isTrue trivial

instance (h : Host Bool Bool) : (a : Action Bool Bool) → Decidable (Apart h a)
  | .program i _ => inferInstanceAs (Decidable ((h.programs i = .idle →
      (∀ j, (h.programs j).looking = false) ∧ ∀ p, (h.timers p).stage ≠ .spawned) ∧
        ∀ p, h.programs i = .checking p → (h.timers p).stage ≠ .spawned))
  | .write _ | .disable _ | .remove _ | .die _ => isTrue trivial

/-- A disarm after an arming, and one arming whose timer dies before the next. -/
theorem deadman_holds_in_turn :
    (∃ h, run (step armAndDisarm) {} (arming false false ++ disarming false) = some h ∧
      h.programs true = .disarmed false ∧ Kept armAndDisarm h) ∧
    (∃ h, run (step twoArmings) {} (arming false false ++ [.disable false, .remove false] ++ arming true true) = some h ∧
      h.programs true = .armed true ∧ Accounted h) := by
  have hunfired : Along (step armAndDisarm) (Unfired armAndDisarm) {} (arming false false ++ disarming false) := by decide
  have hap : Along (step twoArmings) Apart {}
      (arming false false ++ [.disable false, .remove false] ++ arming true true) := by decide
  exact ⟨⟨_, rfl, rfl, (deadman_holds rfl).1 hunfired⟩, ⟨_, rfl, rfl, (deadman_holds rfl).2 (by decide) hap⟩⟩

/-- The timer fires, and the disarm finds its pid before the timer has removed it: exit 0 with the firewall off. And two
armings look before either timer has recorded itself: two timers count down. -/
theorem deadman_races :
    ¬ (∀ (as : List (Action Bool Bool)) h, run (step armAndDisarm) {} as = some h → Kept armAndDisarm h) ∧
    ¬ (∀ (as : List (Action Bool Bool)) h, run (step twoArmings) {} as = some h → Accounted h) := by
  constructor
  · intro hkept
    have hoff := hkept (arming false false ++ [.disable false] ++ disarming false) _ rfl true false rfl rfl [] _ rfl
    exact Bool.false_ne_true hoff.symm
  · intro haccounted
    have hone := (haccounted [.program false false, .program true true, .program false false, .program true true,
      .write false, .write true, .program false false, .program true true, .program false false, .program true true] _ rfl
      (by decide)).1 false true rfl rfl
    exact Bool.false_ne_true hone

end Deadman

end VpnStack

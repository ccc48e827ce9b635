import VpnStack.Locking

/-!
# Who is served and who writes

The outer and the inner lock of a call are two descriptions of one file, so a vpnctl that does not know of the lock in front
of it is refused by it. That is what the app's control layer runs into: it is the one site that sets no variable. Every other
site is served whenever no other call has the lock. Two vpnctl never write at once; the unpacking half of a restore, which
takes no lock, can write beside one.
-/

namespace VpnStack

open Transition

namespace Locking

variable {ι : Type} [DecidableEq ι] {calls : ι → Invocation} {h h' : Host ι} {i j : ι}

/-! ## What a step can be -/

/-- The steps of a call, each with what it needs and what it leaves. -/
inductive Move (calls : ι → Invocation) (h : Host ι) : Action ι → Host ι → Prop where
  | opens (i : ι) (hc : h.calls i = {}) (hf : (calls i).launch.flock.isSome) :
    Move calls h (.start i true) (h.set i ⟨.waiting, .idle⟩ (h.file.opened (.outer i) (.outer i)))
  | fails (i : ι) (hc : h.calls i = {}) (hf : (calls i).launch.flock.isSome) :
    Move calls h (.start i false) (h.set i ⟨.ended, .idle⟩ h.file)
  | runs (i : ι) (opens : Bool) (hc : h.calls i = {}) (hf : (calls i).launch.flock = none) :
    Move calls h (.start i opens) (h.set i ⟨.idle, .started⟩ h.file)
  | takes (i : ι) (file : Flock.File (Proc ι) (Proc ι)) (ho : (h.calls i).outer = .waiting)
      (hl : h.file.flock (.outer i) (.outer i) = some file) :
    Move calls h (.take i) (h.set i { h.calls i with outer := .holding } file)
  | givesUp (i : ι) (ho : (h.calls i).outer = .waiting) (hf : (calls i).launch.flock = some ⟨true⟩)
      (hl : ¬ h.file.Free (.outer i)) :
    Move calls h (.giveUp i) (h.set i { h.calls i with outer := .gaveUp } (h.file.exit (.outer i)))
  | spawns (i : ι) (ho : (h.calls i).outer = .holding) :
    Move calls h (.spawn i) (h.set i ⟨.running, .started⟩ (h.file.fork (.outer i) (.inner i)))
  | acquires (i : ι) (hi : (h.calls i).inner = .started) (ha : (calls i).acquires) :
    Move calls h (.check i true)
      (h.set i { h.calls i with inner := .opened } (h.file.opened (.inner i) (.inner i)))
  | unserialised (i : ι) (hi : (h.calls i).inner = .started) (ha : (calls i).acquires) :
    Move calls h (.check i false) (h.set i { h.calls i with inner := .body } h.file)
  | standsDown (i : ι) (opens : Bool) (hi : (h.calls i).inner = .started) (ha : (calls i).acquires = false) :
    Move calls h (.check i opens) (h.set i { h.calls i with inner := .body } h.file)
  | locks (i : ι) (file : Flock.File (Proc ι) (Proc ι)) (hi : (h.calls i).inner = .opened)
      (hl : h.file.flock (.inner i) (.inner i) = some file) :
    Move calls h (.tryLock i) (h.set i { h.calls i with inner := .body } file)
  | refuses (i : ι) (hi : (h.calls i).inner = .opened) (hl : h.file.flock (.inner i) (.inner i) = none) :
    Move calls h (.tryLock i) (h.set i { h.calls i with inner := .refused } (h.file.exit (.inner i)))
  | finishes (i : ι) (hi : (h.calls i).inner = .body) :
    Move calls h (.finish i) (h.set i { h.calls i with inner := .done } (h.file.exit (.inner i)))
  | leaves (i : ι) (ho : (h.calls i).outer = .running) (hi : (h.calls i).inner.over) :
    Move calls h (.leave i) (h.set i { h.calls i with outer := .ended } (h.file.exit (.outer i)))
  | outerDies (i : ι) (ho : (h.calls i).outer.alive) :
    Move calls h (.killOuter i) (h.set i { h.calls i with outer := .ended } (h.file.exit (.outer i)))
  | innerDies (i : ι) (hi : (h.calls i).inner.alive) :
    Move calls h (.killInner i) (h.set i { h.calls i with inner := .killed } (h.file.exit (.inner i)))

/-- Every step is one of them. -/
theorem move_of_step {a : Action ι} (hs : step calls h a = some h') : Move calls h a h' := by
  cases a with
  | start i opens =>
    simp only [step] at hs
    split at hs
    · rename_i hc
      split at hs
      · rename_i hf
        cases opens
        · simp only [Bool.false_eq_true, if_false, Option.some_inj] at hs
          exact hs ▸ .fails i hc hf
        · simp only [if_true, Option.some_inj] at hs
          exact hs ▸ .opens i hc hf
      · rename_i hf
        rw [Option.some_inj] at hs
        exact hs ▸ .runs i opens hc (by simpa using hf)
    · nomatch hs
  | take i =>
    simp only [step] at hs
    split at hs
    · rename_i ho
      obtain ⟨file, hl, hs⟩ := Option.map_eq_some_iff.mp hs
      exact hs ▸ .takes i file ho hl
    · nomatch hs
  | giveUp i =>
    simp only [step] at hs
    split at hs
    · rename_i hc
      rw [Option.some_inj] at hs
      exact hs ▸ .givesUp i hc.1 hc.2.1 hc.2.2
    · nomatch hs
  | spawn i =>
    simp only [step] at hs
    split at hs
    · rename_i ho
      rw [Option.some_inj] at hs
      exact hs ▸ .spawns i ho
    · nomatch hs
  | check i opens =>
    simp only [step] at hs
    split at hs
    · rename_i hi
      split at hs
      · rename_i ha
        cases opens
        · simp only [Bool.false_eq_true, if_false, Option.some_inj] at hs
          exact hs ▸ .unserialised i hi ha
        · simp only [if_true, Option.some_inj] at hs
          exact hs ▸ .acquires i hi ha
      · rename_i ha
        rw [Option.some_inj] at hs
        exact hs ▸ .standsDown i opens hi (by simpa using ha)
    · nomatch hs
  | tryLock i =>
    simp only [step] at hs
    split at hs
    · rename_i hi
      cases hl : h.file.flock (.inner i) (.inner i) with
      | some file =>
        rw [hl] at hs
        simp only [Option.some_inj] at hs
        exact hs ▸ .locks i file hi hl
      | none =>
        rw [hl] at hs
        simp only [Option.some_inj] at hs
        exact hs ▸ .refuses i hi hl
    · nomatch hs
  | finish i =>
    simp only [step] at hs
    split at hs
    · rename_i hi
      rw [Option.some_inj] at hs
      exact hs ▸ .finishes i hi
    · nomatch hs
  | leave i =>
    simp only [step] at hs
    split at hs
    · rename_i hc
      rw [Option.some_inj] at hs
      exact hs ▸ .leaves i hc.1 hc.2
    · nomatch hs
  | killOuter i =>
    simp only [step] at hs
    split at hs
    · rename_i ho
      rw [Option.some_inj] at hs
      exact hs ▸ .outerDies i ho
    · nomatch hs
  | killInner i =>
    simp only [step] at hs
    split at hs
    · rename_i hi
      rw [Option.some_inj] at hs
      exact hs ▸ .innerDies i hi
    · nomatch hs

/-! ## What a call leaves to the others -/

/-- Every description is opened, and every descriptor of it held, by processes of one call. -/
def Own (f : Flock.File (Proc ι) (Proc ι)) : Prop := ∀ p d, (p, d) ∈ f.fds → d.call = p.call

/-- A step of call `i` leaves the other calls their descriptors and their lock. -/
structure Frame (i : ι) (f f' : Flock.File (Proc ι) (Proc ι)) : Prop where
  fds : ∀ p d, p.call ≠ i → ((p, d) ∈ f'.fds ↔ (p, d) ∈ f.fds)
  lock : ∀ d, d.call ≠ i → f.lock = some d → f'.lock = some d

section Frame

variable {f f' : Flock.File (Proc ι) (Proc ι)} {p q d : Proc ι}

omit [DecidableEq ι] in
theorem frame_refl (i : ι) (f : Flock.File (Proc ι) (Proc ι)) : Frame i f f := ⟨fun _ _ _ => Iff.rfl, fun _ _ hl => hl⟩

omit [DecidableEq ι] in
/-- A description that a call opens leaves the others what they have. -/
theorem frame_opened (hp : p.call = i) : Frame i f (f.opened p d) := by
  refine ⟨fun q e hq => ?_, fun e _ hl => hl⟩
  have hne : q ≠ p := fun h => hq (h ▸ hp)
  simp [hne]

/-- A lock that a call takes leaves the others what they have. -/
theorem frame_flock (hp : d.call = i) (hl : f.flock p d = some f') : Frame i f f' := by
  obtain ⟨-, hfree, hfds, hlock⟩ := Flock.File.flock_eq_some hl
  refine ⟨fun q e _ => by rw [hfds], fun e he hle => ?_⟩
  rcases hfree with hnone | hsome
  · rw [hle] at hnone
    nomatch hnone
  · rw [hle, Option.some_inj] at hsome
    exact absurd (hsome ▸ hp) he

/-- A child of a call leaves the others what they have. -/
theorem frame_fork (hq : q.call = i) : Frame i f (f.fork p q) := by
  refine ⟨fun r e hr => ?_, fun e _ hl => hl⟩
  have hne : r ≠ q := fun h => hr (h ▸ hq)
  simp [hne]

/-- A process of a call that ends leaves the others what they have. -/
theorem frame_exit (hown : Own f) (hp : p.call = i) : Frame i f (f.exit p) := by
  refine ⟨fun q e hq => ?_, fun e he hl => ?_⟩
  · have hne : q ≠ p := fun h => hq (h ▸ hp)
    simp [hne]
  · obtain ⟨q, hq⟩ := f.held e hl
    refine Flock.File.lock_exit_of_mem hl hq fun h => he ?_
    rw [hown q e hq, h, hp]

omit [DecidableEq ι] in
/-- A description that is opened is held by the process that opened it. -/
theorem own_opened (hown : Own f) (h : d.call = p.call) : Own (f.opened p d) := by
  intro q e hm
  rcases Flock.File.mem_opened.mp hm with heq | hm
  · obtain ⟨rfl, rfl⟩ := Prod.mk.inj heq
    exact h
  · exact hown q e hm

/-- A lock that is taken changes no descriptor's owner. -/
theorem own_flock (hown : Own f) (hl : f.flock p d = some f') : Own f' := by
  intro q e hm
  rw [(Flock.File.flock_eq_some hl).2.2.1] at hm
  exact hown q e hm

/-- A child has descriptors of its own call only. -/
theorem own_fork (hown : Own f) (h : p.call = q.call) : Own (f.fork p q) := by
  intro r e hm
  rcases Flock.File.mem_fork.mp hm with ⟨rfl, hp⟩ | hr
  · exact (hown p e hp).trans h
  · exact hown r e hr

theorem own_exit (hown : Own f) : Own (f.exit p) := fun q e hm => hown q e (Flock.File.mem_exit.mp hm).1

end Frame

/-- A step is a step of one call. -/
theorem Move.calls_of_ne {a : Action ι} (hm : Move calls h a h') (hj : j ≠ a.call) : h'.calls j = h.calls j := by
  cases hm <;> exact Host.calls_set_of_ne h hj ..

/-- Every step is framed, and keeps descriptions within their calls. -/
theorem Move.frame {a : Action ι} (hown : Own h.file) (hm : Move calls h a h') :
    Frame a.call h.file h'.file ∧ Own h'.file := by
  cases hm with
  | opens i hc hf => exact ⟨frame_opened rfl, own_opened hown rfl⟩
  | fails i hc hf => exact ⟨frame_refl i _, hown⟩
  | runs i o hc hf => exact ⟨frame_refl i _, hown⟩
  | takes i file ho hl => exact ⟨frame_flock rfl hl, own_flock hown hl⟩
  | givesUp i ho hf hl => exact ⟨frame_exit hown rfl, own_exit hown⟩
  | spawns i ho => exact ⟨frame_fork rfl, own_fork hown rfl⟩
  | acquires i hi ha => exact ⟨frame_opened rfl, own_opened hown rfl⟩
  | unserialised i hi ha => exact ⟨frame_refl i _, hown⟩
  | standsDown i o hi ha => exact ⟨frame_refl i _, hown⟩
  | locks i file hi hl => exact ⟨frame_flock rfl hl, own_flock hown hl⟩
  | refuses i hi hl => exact ⟨frame_exit hown rfl, own_exit hown⟩
  | finishes i hi => exact ⟨frame_exit hown rfl, own_exit hown⟩
  | leaves i ho hi => exact ⟨frame_exit hown rfl, own_exit hown⟩
  | outerDies i ho => exact ⟨frame_exit hown rfl, own_exit hown⟩
  | innerDies i hi => exact ⟨frame_exit hown rfl, own_exit hown⟩

/-! ## What the file knows of a call -/

/-- Who has the lock and which descriptors, for a call that stands here. -/
structure Holds (v : Invocation) (f : Flock.File (Proc ι) (Proc ι)) (i : ι) (c : Call) : Prop where
  outer : ∀ p, (p, .outer i) ∈ f.fds → v.launch.flock.isSome
  inner : ∀ p, (p, .inner i) ∈ f.fds → p = .inner i ∧ (c.inner = .opened ∨ c.inner = .body)
  idle : c.outer = .waiting ∨ c.outer = .holding → c.inner = .idle
  waiting : c.outer = .waiting → (.outer i, .outer i) ∈ f.fds
  holding : c.outer = .holding → (.outer i, .outer i) ∈ f.fds ∧ f.lock = some (.outer i)
  child : c.inner.alive → v.launch.flock.isSome → (.inner i, .outer i) ∈ f.fds ∧ f.lock = some (.outer i)
  opened : c.inner = .opened → (.inner i, .inner i) ∈ f.fds
  body : c.inner = .body → v.acquires → (.inner i, .inner i) ∈ f.fds → f.lock = some (.inner i)

/-- The state of the lock file is what the calls say it is. -/
structure Inv (calls : ι → Invocation) (h : Host ι) : Prop where
  own : Own h.file
  holds : ∀ i, Holds (calls i) h.file i (h.calls i)

omit [DecidableEq ι] in
/-- At first no call has a descriptor or the lock. -/
theorem inv_init (calls : ι → Invocation) : Inv calls {} := by
  refine ⟨fun _ _ h => (List.not_mem_nil h).elim, fun i => ?_⟩
  constructor <;> simp [Inner.alive]

omit [DecidableEq ι] in
/-- What a framed step of another call leaves of it. -/
theorem Holds.frame {v : Invocation} {f f' : Flock.File (Proc ι) (Proc ι)} {c : Call} (hh : Holds v f j c) (hf : Frame i f f')
    (hown : Own f') (hij : j ≠ i) : Holds v f' j c := by
  have back : ∀ p d, (p, d) ∈ f'.fds → d.call = j → (p, d) ∈ f.fds := fun p d hm hd =>
    (hf.fds p d (by rw [← hown p d hm, hd]; exact hij)).mp hm
  have forth : ∀ p d, (p, d) ∈ f.fds → p.call = j → (p, d) ∈ f'.fds := fun p d hm hp =>
    (hf.fds p d (hp ▸ hij)).mpr hm
  have lock : ∀ d, d.call = j → f.lock = some d → f'.lock = some d := fun d hd hl => hf.lock d (hd ▸ hij) hl
  constructor
  · exact fun p hm => hh.outer p (back p _ hm rfl)
  · exact fun p hm => hh.inner p (back p _ hm rfl)
  · exact hh.idle
  · exact fun hc => forth _ _ (hh.waiting hc) rfl
  · exact fun hc => ⟨forth _ _ (hh.holding hc).1 rfl, lock _ rfl (hh.holding hc).2⟩
  · exact fun ha hl => ⟨forth _ _ (hh.child ha hl).1 rfl, lock _ rfl (hh.child ha hl).2⟩
  · exact fun hc => forth _ _ (hh.opened hc) rfl
  · exact fun hc ha hm => lock _ rfl (hh.body hc ha (back _ _ hm rfl))

omit [DecidableEq ι] in
/-- A vpnctl that has not come to the lock file has nothing open. -/
theorem Holds.not_inner {v : Invocation} {f : Flock.File (Proc ι) (Proc ι)} {c : Call} (hh : Holds v f i c)
    (ho : c.inner ≠ .opened) (hb : c.inner ≠ .body) (p : Proc ι) : (p, Proc.inner i) ∉ f.fds :=
  fun hm => (hh.inner p hm).2.elim ho hb

/-- A call keeps what it has when one of its processes, which has nothing that it needs, ends. -/
theorem Holds.exit {v : Invocation} {f : Flock.File (Proc ι) (Proc ι)} {c c' : Call} {p : Proc ι} (hh : Holds v f i c)
    (ho : c'.outer ≠ .waiting ∧ c'.outer ≠ .holding) (hc : c'.inner = c.inner) (hp : p = .outer i) :
    Holds v (f.exit p) i c' where
  outer q hm := hh.outer q (Flock.File.mem_exit.mp hm).1
  inner q hm := hc ▸ hh.inner q (Flock.File.mem_exit.mp hm).1
  idle h := absurd h (by simp [ho])
  waiting h := absurd h ho.1
  holding h := absurd h ho.2
  child ha hl := by
    obtain ⟨hm, hk⟩ := hh.child (hc ▸ ha) hl
    have hne : Proc.inner i ≠ p := by simp [hp]
    exact ⟨Flock.File.mem_exit.mpr ⟨hm, hne⟩, Flock.File.lock_exit_of_mem hk hm hne⟩
  opened h := Flock.File.mem_exit.mpr ⟨hh.opened (hc ▸ h), by simp [hp]⟩
  body h ha hm := by
    obtain ⟨hm, hne⟩ := Flock.File.mem_exit.mp hm
    exact Flock.File.lock_exit_of_mem (hh.body (hc ▸ h) ha hm) hm hne

/-- The inner process ends: only what its flock(1) has is left. -/
theorem Holds.exit_inner {v : Invocation} {f : Flock.File (Proc ι) (Proc ι)} {c : Call} {r : Inner} (hh : Holds v f i c)
    (ha : c.inner.alive) (hr : r.over) :
    Holds v (f.exit (.inner i)) i { c with inner := r } where
  outer q hm := hh.outer q (Flock.File.mem_exit.mp hm).1
  inner q hm := absurd (hh.inner q (Flock.File.mem_exit.mp hm).1).1 (Flock.File.mem_exit.mp hm).2
  idle h := by
    have hidle := hh.idle h
    rw [hidle] at ha
    nomatch ha
  waiting h := Flock.File.mem_exit.mpr ⟨hh.waiting h, by simp⟩
  holding h := by
    have hidle := hh.idle (.inr h)
    rw [hidle] at ha
    nomatch ha
  child ha hl := by cases r <;> simp_all [Inner.alive, Inner.over]
  opened h := by cases r <;> simp_all [Inner.over]
  body h _ _ := by cases r <;> simp_all

/-- What the acting call itself ends up with. -/
theorem Move.holds {a : Action ι} (hinv : Inv calls h) (hm : Move calls h a h') :
    Holds (calls a.call) h'.file a.call (h'.calls a.call) := by
  have hh := hinv.holds a.call
  cases hm with
  | opens i hc hf =>
    have hnone := hh.not_inner (by simp [Action.call, hc]) (by simp [Action.call, hc])
    constructor <;> simp_all [Inner.alive, Action.call]
  | fails i hc hf =>
    have hnone := hh.not_inner (by simp [Action.call, hc]) (by simp [Action.call, hc])
    constructor <;> simp_all [Inner.alive, Action.call]
  | runs i o hc hf =>
    have hnone := hh.not_inner (by simp [Action.call, hc]) (by simp [Action.call, hc])
    have houter := hh.outer
    constructor <;> simp_all [Inner.alive, Action.call]
  | takes i file ho hl =>
    simp only [Action.call, Host.calls_set_self, Host.file_set] at hh ⊢
    obtain ⟨hmem, -, hfds, hlock⟩ := Flock.File.flock_eq_some hl
    have hidle := hh.idle (.inl ho)
    exact {
      outer := fun p hp => hh.outer p (hfds ▸ hp)
      inner := fun p hp => hh.inner p (hfds ▸ hp)
      idle := fun _ => hidle
      waiting := fun hw => nomatch hw
      holding := fun _ => ⟨hfds ▸ hmem, hlock⟩
      child := fun ha _ => by
        rw [hidle] at ha
        nomatch ha
      opened := fun hi => hfds ▸ hh.opened hi
      body := fun hi => by
        rw [hidle] at hi
        nomatch hi }
  | givesUp i ho hf hl =>
    simp only [Action.call, Host.calls_set_self, Host.file_set] at hh ⊢
    exact hh.exit ⟨nofun, nofun⟩ rfl rfl
  | spawns i ho =>
    simp only [Action.call, Host.calls_set_self, Host.file_set] at hh ⊢
    obtain ⟨hmem, hlock⟩ := hh.holding ho
    have hidle := hh.idle (.inr ho)
    have hnone := hh.not_inner (by rw [hidle]; exact nofun) (by rw [hidle]; exact nofun)
    exact {
      outer := fun p _ => hh.outer _ hmem
      inner := fun p hp => by
        rcases Flock.File.mem_fork.mp hp with ⟨-, hp⟩ | hp
        · exact absurd hp (hnone _)
        · exact absurd hp (hnone _)
      idle := fun hw => by simp at hw
      waiting := fun hw => nomatch hw
      holding := fun hw => nomatch hw
      child := fun _ _ => ⟨Flock.File.mem_fork.mpr (.inl ⟨rfl, hmem⟩), hlock⟩
      opened := fun hi => nomatch hi
      body := fun hi => nomatch hi }
  | acquires i hi ha =>
    simp only [Action.call, Host.calls_set_self, Host.file_set] at hh ⊢
    exact {
      outer := fun p hp => hh.outer p (by simpa using hp)
      inner := fun p hp => by
        rcases Flock.File.mem_opened.mp hp with heq | hp
        · exact ⟨(Prod.mk.inj heq).1, .inl rfl⟩
        · exact ⟨(hh.inner p hp).1, .inl rfl⟩
      idle := fun hw => by
        rw [hh.idle hw] at hi
        nomatch hi
      waiting := fun hw => Flock.File.mem_opened.mpr (.inr (hh.waiting hw))
      holding := fun hw => ⟨Flock.File.mem_opened.mpr (.inr (hh.holding hw).1), (hh.holding hw).2⟩
      child := fun _ hl => by
        obtain ⟨hm, hk⟩ := hh.child (by rw [hi]; rfl) hl
        exact ⟨Flock.File.mem_opened.mpr (.inr hm), hk⟩
      opened := fun _ => Flock.File.mem_opened.mpr (.inl rfl)
      body := fun hb => nomatch hb }
  | unserialised i hi ha =>
    simp only [Action.call, Host.calls_set_self, Host.file_set] at hh ⊢
    have hnone := hh.not_inner (by rw [hi]; exact nofun) (by rw [hi]; exact nofun)
    exact {
      outer := hh.outer
      inner := fun p hp => absurd hp (hnone p)
      idle := fun hw => by
        rw [hh.idle hw] at hi
        nomatch hi
      waiting := hh.waiting
      holding := hh.holding
      child := fun _ hl => hh.child (by rw [hi]; rfl) hl
      opened := fun hb => nomatch hb
      body := fun _ _ hm => absurd hm (hnone _) }
  | standsDown i o hi ha =>
    simp only [Action.call, Host.calls_set_self, Host.file_set] at hh ⊢
    exact {
      outer := hh.outer
      inner := fun p hp => ⟨(hh.inner p hp).1, .inr rfl⟩
      idle := fun hw => by
        rw [hh.idle hw] at hi
        nomatch hi
      waiting := hh.waiting
      holding := hh.holding
      child := fun _ hl => hh.child (by rw [hi]; rfl) hl
      opened := fun hb => nomatch hb
      body := fun _ hb => by
        rw [ha] at hb
        nomatch hb }
  | locks i file hi hl =>
    simp only [Action.call, Host.calls_set_self, Host.file_set] at hh ⊢
    obtain ⟨hmem, hfree, hfds, hlock⟩ := Flock.File.flock_eq_some hl
    -- Behind a flock(1) the lock is taken, so it is not granted.
    have hflock : (calls i).launch.flock.isSome → False := fun hf => by
      have hk := (hh.child (by rw [hi]; rfl) hf).2
      rcases hfree with hn | hs
      · rw [hk] at hn
        nomatch hn
      · rw [hk] at hs
        nomatch hs
    exact {
      outer := fun p hp => hh.outer p (hfds ▸ hp)
      inner := fun p hp => ⟨(hh.inner p (hfds ▸ hp)).1, .inr rfl⟩
      idle := fun hw => by
        rw [hh.idle hw] at hi
        nomatch hi
      waiting := fun hw => hfds ▸ hh.waiting hw
      holding := fun hw => absurd (hh.outer _ (hh.holding hw).1) hflock
      child := fun _ hf => absurd hf hflock
      opened := fun hb => nomatch hb
      body := fun _ _ _ => hlock }
  | refuses i hi hl =>
    simp only [Action.call, Host.calls_set_self, Host.file_set] at hh ⊢
    exact hh.exit_inner (by rw [hi]; rfl) rfl
  | finishes i hi =>
    simp only [Action.call, Host.calls_set_self, Host.file_set] at hh ⊢
    exact hh.exit_inner (by rw [hi]; rfl) rfl
  | leaves i ho hi =>
    simp only [Action.call, Host.calls_set_self, Host.file_set] at hh ⊢
    exact hh.exit ⟨nofun, nofun⟩ rfl rfl
  | outerDies i ho =>
    simp only [Action.call, Host.calls_set_self, Host.file_set] at hh ⊢
    exact hh.exit ⟨nofun, nofun⟩ rfl rfl
  | innerDies i hi =>
    simp only [Action.call, Host.calls_set_self, Host.file_set] at hh ⊢
    exact hh.exit_inner hi rfl

/-- The step lemma. -/
theorem inv_step {a : Action ι} (hinv : Inv calls h) (hs : step calls h a = some h') :
    Inv calls h' := by
  have hm := move_of_step hs
  obtain ⟨hframe, hown⟩ := hm.frame hinv.own
  refine ⟨hown, fun j => ?_⟩
  by_cases hj : j = a.call
  · subst hj
    exact hm.holds hinv
  · rw [hm.calls_of_ne hj]
    exact (hinv.holds j).frame hframe hown hj

/-! ## The call sites -/

/-- Whoever says that the lock is held has put flock(1) in front. -/
theorem flock_of_lockHeld (v : Invocation) (hv : v.launch.lockHeld) : v.launch.flock.isSome := by
  cases v with
  | unpack => nomatch hv
  | vpnctl site lockWait command =>
    cases site <;> simp_all [Invocation.launch, launch, Site.words, flockOptions, lockFile]

/-- The control layer of the app is the one site with flock(1) in front that does not say so. -/
theorem lockHeld_of_flock {site : Site} {lockWait : Nat} {command : Command} (hs : site ≠ .argvFor)
    (hf : (Invocation.vpnctl site lockWait command).launch.flock.isSome) :
    (Invocation.vpnctl site lockWait command).launch.lockHeld := by
  cases site <;> simp_all [Invocation.launch, launch, Site.words, flockOptions, lockFile]

/-! ## Two writers -/

/-- The call is in the body of a command that writes, or unpacking. -/
def Active (calls : ι → Invocation) (h : Host ι) (i : ι) : Prop := (calls i).writes ∧ (h.calls i).inner = .body

instance (calls : ι → Invocation) (h : Host ι) (i : ι) : Decidable (Active calls h i) :=
  inferInstanceAs (Decidable (_ ∧ _))

/-- The call whose body an action begins. -/
def begins (calls : ι → Invocation) (h : Host ι) : Action ι → Option ι
  | .check i opens => if (calls i).acquires ∧ opens then none else some i
  | .tryLock i => if h.file.Free (.inner i) then some i else none
  | _ => none

/-- The writers nothing serialises: an unpacking, and a vpnctl that could not open the lock file and went on without. -/
def Unguarded (calls : ι → Invocation) (h : Host ι) (i : ι) : Prop :=
  calls i = .unpack ∨ ((calls i).acquires ∧ (.inner i, .inner i) ∉ h.file.fds)

instance (calls : ι → Invocation) (h : Host ι) (i : ι) : Decidable (Unguarded calls h i) :=
  inferInstanceAs (Decidable (_ ∨ _))

/-- Where one writer begins while another writes, both are guarded. -/
def Apart (calls : ι → Invocation) (h : Host ι) (a : Action ι) : Prop :=
  ∀ i ∈ begins calls h a, (calls i).writes → ∀ j, Active calls h j → ¬ Unguarded calls h i ∧ ¬ Unguarded calls h j

instance [Fintype ι] (calls : ι → Invocation) (h : Host ι) (a : Action ι) : Decidable (Apart calls h a) :=
  inferInstanceAs (Decidable (∀ i ∈ begins calls h a, (calls i).writes → ∀ j, Active calls h j →
    ¬ Unguarded calls h i ∧ ¬ Unguarded calls h j))

/-- A body is reached by the action that begins it. -/
theorem Move.begins {a : Action ι} (hm : Move calls h a h') (hb : (h'.calls i).inner = .body) :
    (h.calls i).inner = .body ∨ begins calls h a = some i := by
  by_cases hi : i = a.call
  · subst hi
    cases hm with
    | standsDown i o hi ha => exact .inr (by simp [Locking.begins, Action.call, ha])
    | unserialised i hi ha => exact .inr (by simp [Locking.begins, Action.call])
    | locks i file hi hl =>
      have hfree := (Flock.File.flock_eq_some hl).2.1
      exact .inr (by simp [Locking.begins, Action.call, hfree])
    | takes i file ho hl => exact .inl (by simpa [Action.call] using hb)
    | givesUp i ho hf hl => exact .inl (by simpa [Action.call] using hb)
    | leaves i ho hi => exact .inl (by simpa [Action.call] using hb)
    | outerDies i ho => exact .inl (by simpa [Action.call] using hb)
    | opens i hc hf => simp [Action.call] at hb
    | fails i hc hf => simp [Action.call] at hb
    | runs i o hc hf => simp [Action.call] at hb
    | spawns i ho => simp [Action.call] at hb
    | acquires i hi ha => simp [Action.call] at hb
    | refuses i hi hl => simp [Action.call] at hb
    | finishes i hi => simp [Action.call] at hb
    | innerDies i hi => simp [Action.call] at hb
  · exact .inl (hm.calls_of_ne hi ▸ hb)

/-- No step takes the descriptor of the lock from a vpnctl that stays in its body. -/
theorem Move.guarded {a : Action ι} (hm : Move calls h a h') (hown : Own h.file) (hb : (h'.calls i).inner = .body)
    (hg : (Proc.inner i, Proc.inner i) ∈ h.file.fds) : (Proc.inner i, Proc.inner i) ∈ h'.file.fds := by
  by_cases hi : i = a.call
  · subst hi
    cases hm with
    | takes i file ho hl => exact (Flock.File.flock_eq_some hl).2.2.1 ▸ hg
    | locks i file hi hl => exact (Flock.File.flock_eq_some hl).2.2.1 ▸ hg
    | givesUp i ho hf hl => exact Flock.File.mem_exit.mpr ⟨hg, by simp [Action.call]⟩
    | leaves i ho hi => exact Flock.File.mem_exit.mpr ⟨hg, by simp [Action.call]⟩
    | outerDies i ho => exact Flock.File.mem_exit.mpr ⟨hg, by simp [Action.call]⟩
    | standsDown i o hi ha => exact hg
    | unserialised i hi ha => exact hg
    | opens i hc hf => simp [Action.call] at hb
    | fails i hc hf => simp [Action.call] at hb
    | runs i o hc hf => simp [Action.call] at hb
    | spawns i ho => simp [Action.call] at hb
    | acquires i hi ha => simp [Action.call] at hb
    | refuses i hi hl => simp [Action.call] at hb
    | finishes i hi => simp [Action.call] at hb
    | innerDies i hi => simp [Action.call] at hb
  · exact ((hm.frame hown).1.fds (.inner i) (.inner i) hi).mpr hg

omit [DecidableEq ι] in
/-- A guarded writer has the lock. -/
theorem Inv.locked (hinv : Inv calls h) (ha : Active calls h i) (hi : ¬ Unguarded calls h i) :
    ∃ d, d.call = i ∧ h.file.lock = some d := by
  have hh := hinv.holds i
  obtain ⟨hu, hg⟩ := not_or.mp hi
  by_cases hacq : (calls i).acquires
  · have hm : (.inner i, .inner i) ∈ h.file.fds := by
      by_contra hn
      exact hg ⟨hacq, hn⟩
    exact ⟨.inner i, rfl, hh.body ha.2 hacq hm⟩
  · have hheld : (calls i).launch.lockHeld := by
      cases hv : calls i with
      | unpack => exact absurd hv hu
      | vpnctl site lockWait command =>
        have hw := ha.1
        rw [hv] at hw hacq
        by_contra hn
        exact hacq (by simp_all [Invocation.acquires, Invocation.writes])
    exact ⟨.outer i, rfl, (hh.child (by rw [ha.2]; rfl) (flock_of_lockHeld _ hheld)).2⟩

/-- No two calls of a host ever write at the same time. -/
def Excludes (calls : ι → Invocation) : Prop :=
  ∀ as h, run (step calls) {} as = some h → ∀ i j, Active calls h i → Active calls h j → i = j

/-- The invariant of two writers: one that nothing serialises is alone. -/
structure Alone (calls : ι → Invocation) (h : Host ι) : Prop where
  inv : Inv calls h
  alone : ∀ i j, Active calls h i → Active calls h j → Unguarded calls h i → i = j

omit [DecidableEq ι] in
/-- Two guarded writers would both have the lock. -/
theorem Alone.eq (halone : Alone calls h) (hi : Active calls h i) (hj : Active calls h j) : i = j := by
  by_cases hui : Unguarded calls h i
  · exact halone.alone i j hi hj hui
  by_cases huj : Unguarded calls h j
  · exact (halone.alone j i hj hi huj).symm
  obtain ⟨d, rfl, hd⟩ := halone.inv.locked hi hui
  obtain ⟨e, rfl, he⟩ := halone.inv.locked hj huj
  rw [hd, Option.some_inj] at he
  rw [he]

/-- A writer that nothing serialises was that before the step too. -/
theorem Move.unguarded {a : Action ι} (hm : Move calls h a h') (hown : Own h.file) (hb : (h'.calls i).inner = .body)
    (hu : Unguarded calls h' i) : Unguarded calls h i :=
  hu.imp_right fun hu => ⟨hu.1, fun hg => hu.2 (hm.guarded hown hb hg)⟩

/-- The step lemma of two writers. -/
theorem alone_step {a : Action ι} (halone : Alone calls h) (hap : Apart calls h a) (hs : step calls h a = some h') :
    Alone calls h' := by
  have hm := move_of_step hs
  refine ⟨inv_step halone.inv hs, fun i j hi hj hu => ?_⟩
  have hu := hm.unguarded halone.inv.own hi.2 hu
  rcases hm.begins hi.2 with hbi | hbi
  · rcases hm.begins hj.2 with hbj | hbj
    · exact halone.alone i j ⟨hi.1, hbi⟩ ⟨hj.1, hbj⟩ hu
    · exact absurd hu (hap j hbj hj.1 i ⟨hi.1, hbi⟩).2
  · rcases hm.begins hj.2 with hbj | hbj
    · exact absurd hu (hap i hbi hi.1 j ⟨hj.1, hbj⟩).1
    · exact Option.some_inj.mp (hbi.symm.trans hbj)

/-- Where no unpacking and no vpnctl without the lock file overlaps another writer, no two calls ever write at the same
time. -/
theorem writers_exclude {as : List (Action ι)} (hok : Along (step calls) (Apart calls) {} as)
    (hrun : run (step calls) {} as = some h) : ∀ i j, Active calls h i → Active calls h j → i = j := by
  have halone : Alone calls h := run_invariant (fun _ _ _ hi ho hs => alone_step hi ho hs)
    ⟨inv_init calls, fun i j hi => nomatch hi.2⟩ hok hrun
  exact fun i j hi hj => halone.eq hi hj

/-- A user is added from a laptop while somebody restores a backup. -/
def laptopAndRestore : Bool → Invocation
  | false => .vpnctl .remote 300 (.userAdd "alice")
  | true => .unpack

/-- The restore unpacks once the command is over. -/
theorem writers_exclude_queue :
    ∃ h, run (step laptopAndRestore) {} [.start false true, .take false, .spawn false, .check false true, .start true true,
        .finish false, .check true true] = some h ∧
      ∀ i j, Active laptopAndRestore h i → Active laptopAndRestore h j → i = j := by
  have hok : Along (step laptopAndRestore) (Apart laptopAndRestore) {}
      [.start false true, .take false, .spawn false, .check false true, .start true true, .finish false,
        .check true true] := by decide
  exact ⟨_, rfl, writers_exclude hok rfl⟩

/-- The restore unpacks over the state while the user is being added under the lock. -/
theorem writers_exclude_unpack : ¬ Excludes laptopAndRestore := by
  intro hex
  have hboth := hex [.start false true, .take false, .spawn false, .check false true, .start true true, .check true true]
    _ rfl false true (by decide) (by decide)
  exact Bool.false_ne_true hboth

/-! ## Who is served -/

/-- flock(1) or what it started is there. -/
def Call.inProgress (c : Call) : Bool := c.outer.alive || c.inner.alive

/-- The body of the command ran, or is running. -/
def Call.ran (c : Call) : Prop := c.inner = .body ∨ c.inner = .done

/-- No other call has the lock. -/
def Quiet (i : ι) (h : Host ι) : Prop := ∀ d ∈ h.file.lock, d.call = i

/-- The lock file opens for everyone. -/
def Opens : Action ι → Prop
  | .start _ opens => opens
  | .check _ opens => opens
  | _ => True

/-- A step that call `i` meets undisturbed: the lock file opens, nobody kills the call, and while it is in progress no other
call has the lock. -/
def Undisturbed (i : ι) (h : Host ι) (a : Action ι) : Prop :=
  Opens a ∧ a ≠ .killOuter i ∧ a ≠ .killInner i ∧ ((h.calls i).inProgress → Quiet i h)

/-- Undisturbed, the call is never refused, by flock(1) or by vpnctl; as long as its body has not begun it is not blocked, and
has taken at most four steps. -/
def Served (calls : ι → Invocation) (i : ι) : Prop :=
  ∀ as h, run (step calls) {} as = some h → Along (step calls) (Undisturbed i) {} as →
    ((h.calls i).inProgress → Quiet i h) → h.calls i ≠ {} →
      (h.calls i).outer ≠ .gaveUp ∧ (h.calls i).inner ≠ .refused ∧
        ((h.calls i).ran ∨ as.countP (Action.isOwn i) ≤ 4 ∧ ∃ a, a.isOwn i ∧ Undisturbed i h a ∧ (step calls h a).isSome)

/-- Where an undisturbed call stands, behind flock(1) or without it. -/
inductive Stands (v : Invocation) : Call → Prop where
  | idle : Stands v {}
  | waiting (hf : v.launch.flock.isSome) : Stands v ⟨.waiting, .idle⟩
  | holding (hf : v.launch.flock.isSome) : Stands v ⟨.holding, .idle⟩
  | started (hf : v.launch.flock.isSome) : Stands v ⟨.running, .started⟩
  | alone (hf : v.launch.flock = none) : Stands v ⟨.idle, .started⟩
  | opened (hf : v.launch.flock = none) : Stands v ⟨.idle, .opened⟩
  | ran (c : Call) (ho : c.outer ≠ .gaveUp) (hc : c.ran) : Stands v c

/-- The steps that are left in front of the body, at most. -/
def Call.rank (c : Call) : Nat :=
  match c.inner with
  | .idle => match c.outer with
    | .idle => 5
    | .waiting => 4
    | .holding => 3
    | _ => 0
  | .started => 2
  | .opened => 1
  | _ => 0

omit [DecidableEq ι] in
/-- An undisturbed call that has nothing in front of it, or what it has, gets the lock. -/
theorem Inv.free_outer (hinv : Inv calls h) (hq : Quiet i h) (hc : h.calls i = ⟨.waiting, .idle⟩) :
    h.file.Free (.outer i) := by
  cases hl : h.file.lock with
  | none => exact .inl hl
  | some d =>
    cases d with
    | outer j =>
      obtain rfl : j = i := hq _ hl
      exact .inr hl
    | inner j =>
      obtain rfl : j = i := hq _ hl
      obtain ⟨p, hp⟩ := h.file.held _ hl
      have hi := ((hinv.holds j).inner p hp).2
      rw [hc] at hi
      exact (hi.elim nofun nofun : False).elim

omit [DecidableEq ι] in
/-- A vpnctl without flock(1) in front gets the lock, where no other call has it. -/
theorem Inv.free_inner (hinv : Inv calls h) (hq : Quiet i h) (hf : (calls i).launch.flock = none) :
    h.file.Free (.inner i) := by
  cases hl : h.file.lock with
  | none => exact .inl hl
  | some d =>
    cases d with
    | inner j =>
      obtain rfl : j = i := hq _ hl
      exact .inr hl
    | outer j =>
      obtain rfl : j = i := hq _ hl
      obtain ⟨p, hp⟩ := h.file.held _ hl
      have hsome := (hinv.holds j).outer p hp
      rw [hf] at hsome
      nomatch hsome

section Stands

variable {v : Invocation} {c : Call}

/-- It has not been refused by flock(1). -/
theorem Stands.not_gaveUp (hs : Stands v c) : c.outer ≠ .gaveUp := by
  cases hs with
  | ran _ ho _ => exact ho
  | _ => exact nofun

/-- Nor by vpnctl. -/
theorem Stands.not_refused (hs : Stands v c) : c.inner ≠ .refused := by
  cases hs with
  | ran _ _ hc =>
    intro h
    rw [Call.ran, h] at hc
    exact hc.elim nofun nofun
  | _ => exact nofun

/-- Where an undisturbed call waits for the lock, nothing of it runs yet. -/
theorem Stands.of_waiting (hs : Stands v c) (hi : c.inner = .idle) (ho : c.outer = .waiting) : c = ⟨.waiting, .idle⟩ := by
  cases c
  simp only at hi ho
  rw [hi, ho]

/-- Where vpnctl has started, it is behind flock(1) or alone. -/
theorem Stands.of_started (hs : Stands v c) (hi : c.inner = .started) :
    (c = ⟨.running, .started⟩ ∧ v.launch.flock.isSome) ∨ (c = ⟨.idle, .started⟩ ∧ v.launch.flock = none) := by
  cases hs with
  | started hf => exact .inl ⟨rfl, hf⟩
  | alone hf => exact .inr ⟨rfl, hf⟩
  | ran _ _ hc =>
    rw [Call.ran, hi] at hc
    exact (hc.elim nofun nofun : False).elim
  | _ => nomatch hi

/-- Where vpnctl has come to the lock file, nothing is in front of it. -/
theorem Stands.of_opened (hs : Stands v c) (hi : c.inner = .opened) : c = ⟨.idle, .opened⟩ ∧ v.launch.flock = none := by
  cases hs with
  | opened hf => exact ⟨rfl, hf⟩
  | ran _ _ hc =>
    rw [Call.ran, hi] at hc
    exact (hc.elim nofun nofun : False).elim
  | _ => nomatch hi

/-- Where the inner process of an undisturbed call is over, the body ran. -/
theorem Stands.ran_of_over (hs : Stands v c) (hi : c.inner.over) : c.ran := by
  cases hs with
  | ran _ _ hc => exact hc
  | _ => nomatch hi

/-- Where the body has not begun, there is a step left. -/
theorem Stands.rank_pos (hs : Stands v c) (hc : ¬ c.ran) : 1 ≤ c.rank := by
  cases hs with
  | ran _ _ h => exact absurd h hc
  | _ => simp [Call.rank]

end Stands

/-- One step: the call stays where an undisturbed call stands, and each step of its own takes it nearer to its body. -/
theorem Stands.next {a : Action ι} (hinv : Inv calls h) (hacq : (calls i).acquires → (calls i).launch.flock = none)
    (hs : Stands (calls i) (h.calls i)) (hu : Undisturbed i h a) (hm : Move calls h a h') :
    Stands (calls i) (h'.calls i) ∧
      ((h'.calls i).ran ∨ (h'.calls i).rank + (if a.isOwn i then 1 else 0) ≤ (h.calls i).rank) := by
  by_cases hi : a.call = i
  · subst hi
    obtain ⟨hopen, hko, hki, hquiet⟩ := hu
    have hh := hinv.holds a.call
    cases hm with
    | opens i hc hf =>
      simp only [Action.call] at hc hf ⊢
      rw [Host.calls_set_self, hc]
      exact ⟨.waiting hf, .inr (by simp [Call.rank, Action.isOwn, Action.call])⟩
    | fails i hc hf => exact absurd hopen Bool.false_ne_true
    | runs i o hc hf =>
      simp only [Action.call] at hc hf ⊢
      rw [Host.calls_set_self, hc]
      exact ⟨.alone hf, .inr (by simp [Call.rank, Action.isOwn, Action.call])⟩
    | takes i file ho hl =>
      simp only [Action.call] at hs hh ho ⊢
      have hf := hh.outer _ (hh.waiting ho)
      rw [Host.calls_set_self, hs.of_waiting (hh.idle (.inl ho)) ho]
      exact ⟨.holding hf, .inr (by simp [Call.rank, Action.isOwn, Action.call])⟩
    | givesUp i ho hf hl =>
      simp only [Action.call] at hs hh ho hquiet
      have hc := hs.of_waiting (hh.idle (.inl ho)) ho
      exact absurd (hinv.free_outer (hquiet (by rw [hc]; rfl)) hc) hl
    | spawns i ho =>
      simp only [Action.call] at hs hh ho ⊢
      have hf := hh.outer _ (hh.holding ho).1
      have hidle := hh.idle (.inr ho)
      rw [Host.calls_set_self]
      exact ⟨.started hf, .inr (by simp [Call.rank, Action.isOwn, Action.call, ho, hidle])⟩
    | acquires i hi ha =>
      simp only [Action.call] at hs hi hacq ⊢
      have hf := hacq ha
      rcases hs.of_started hi with ⟨hc, hsome⟩ | ⟨hc, -⟩
      · rw [hf] at hsome
        nomatch hsome
      · rw [Host.calls_set_self, hc]
        exact ⟨.opened hf, .inr (by simp [Call.rank, Action.isOwn, Action.call])⟩
    | unserialised i hi ha => exact absurd hopen Bool.false_ne_true
    | standsDown i o hi ha =>
      simp only [Action.call] at hs ⊢
      rw [Host.calls_set_self]
      exact ⟨.ran _ hs.not_gaveUp (.inl rfl), .inl (.inl rfl)⟩
    | locks i file hi hl =>
      simp only [Action.call] at hs ⊢
      rw [Host.calls_set_self]
      exact ⟨.ran _ hs.not_gaveUp (.inl rfl), .inl (.inl rfl)⟩
    | refuses i hi hl =>
      simp only [Action.call] at hs hh hi hquiet
      obtain ⟨hc, hf⟩ := hs.of_opened hi
      obtain ⟨d, hd, hne⟩ := (Flock.File.flock_eq_none (hh.opened hi)).mp hl
      rcases hinv.free_inner (hquiet (by rw [hc]; rfl)) hf with hnone | hsome
      · rw [hd] at hnone
        nomatch hnone
      · rw [hd, Option.some_inj] at hsome
        exact absurd hsome hne
    | finishes i hi =>
      simp only [Action.call] at hs ⊢
      rw [Host.calls_set_self]
      exact ⟨.ran _ hs.not_gaveUp (.inr rfl), .inl (.inr rfl)⟩
    | leaves i ho hi =>
      simp only [Action.call] at hs hi ⊢
      have hran := hs.ran_of_over hi
      rw [Host.calls_set_self]
      exact ⟨.ran _ nofun hran, .inl hran⟩
    | outerDies i ho => exact absurd rfl hko
    | innerDies i hi => exact absurd rfl hki
  · have hown : a.isOwn i = false := by cases a <;> simp_all [Action.isOwn, Action.call]
    rw [hm.calls_of_ne (Ne.symm hi), hown]
    exact ⟨hs, .inr (by simp)⟩

/-- Once the body ran, it ran. -/
theorem Inv.ran {a : Action ι} (hinv : Inv calls h) (hs : (h.calls i).ran) (hu : Undisturbed i h a) (hm : Move calls h a h') :
    (h'.calls i).ran := by
  by_cases hi : a.call = i
  · subst hi
    obtain ⟨-, hko, hki, -⟩ := hu
    have hidle := (hinv.holds a.call).idle
    cases hm <;> simp_all [Call.ran, Action.call]
  · rw [hm.calls_of_ne (Ne.symm hi)]
    exact hs

/-- An undisturbed call that has not come to its body can go on. -/
theorem Stands.goes_on (hinv : Inv calls h) (hs : Stands (calls i) (h.calls i)) (hq : (h.calls i).inProgress → Quiet i h)
    (hne : h.calls i ≠ {}) : (h.calls i).ran ∨ ∃ a : Action ι, a.isOwn i ∧ Undisturbed i h a ∧ (step calls h a).isSome := by
  have hh := hinv.holds i
  generalize hc : h.calls i = c at hs hq hne hh
  cases hs with
  | idle => exact absurd rfl hne
  | waiting hf =>
    have hfree := hinv.free_outer (hq rfl) hc
    refine .inr ⟨.take i, by simp [Action.isOwn, Action.call], ⟨trivial, by simp, by simp, fun _ => hq rfl⟩, ?_⟩
    simp [step, hc, Flock.File.flock, hh.waiting rfl, hfree]
  | holding hf =>
    refine .inr ⟨.spawn i, by simp [Action.isOwn, Action.call], ⟨trivial, by simp, by simp, fun _ => hq rfl⟩, ?_⟩
    simp [step, hc]
  | started hf =>
    refine .inr ⟨.check i true, by simp [Action.isOwn, Action.call], ⟨rfl, by simp, by simp, fun _ => hq rfl⟩, ?_⟩
    by_cases ha : (calls i).acquires <;> simp [step, hc, ha]
  | alone hf =>
    refine .inr ⟨.check i true, by simp [Action.isOwn, Action.call], ⟨rfl, by simp, by simp, fun _ => hq rfl⟩, ?_⟩
    by_cases ha : (calls i).acquires <;> simp [step, hc, ha]
  | opened hf =>
    have hfree := hinv.free_inner (hq rfl) hf
    refine .inr ⟨.tryLock i, by simp [Action.isOwn, Action.call], ⟨trivial, by simp, by simp, fun _ => hq rfl⟩, ?_⟩
    simp [step, hc, Flock.File.flock, hh.opened rfl, hfree]
  | ran c ho hran => exact .inl hran

/-- A call is served when what it runs stands down behind the flock(1) in front of it. -/
theorem served_of_standsDown (hacq : (calls i).acquires → (calls i).launch.flock = none) : Served calls i := by
  intro as h hrun hu hquiet hne
  have hstep : ∀ (h : Host ι) (a : Action ι) (h' : Host ι), Inv calls h ∧ Stands (calls i) (h.calls i) → Undisturbed i h a →
      step calls h a = some h' → Inv calls h' ∧ Stands (calls i) (h'.calls i) := fun h a h' hi hu hs =>
    ⟨inv_step hi.1 hs, (hi.2.next hi.1 hacq hu (move_of_step hs)).1⟩
  have hinit : Inv calls {} ∧ Stands (calls i) (({} : Host ι).calls i) := ⟨inv_init calls, .idle⟩
  obtain ⟨hinv, hstands⟩ := run_invariant hstep hinit hu hrun
  have hrank := run_rank (fun h a h' hi hu hs => hstep h a h' hi hu hs)
    (fun h a h' hi hu hg hs => hi.1.ran hg hu (move_of_step hs))
    (fun h a h' hi hu hs => (hi.2.next hi.1 hacq hu (move_of_step hs)).2) hinit hu hrun
  refine ⟨hstands.not_gaveUp, hstands.not_refused, ?_⟩
  rcases hstands.goes_on hinv hquiet hne with hran | hgoes
  · exact .inl hran
  · rcases hrank with hran | hle
    · exact .inl hran
    · by_cases hran : (h.calls i).ran
      · exact .inl hran
      · refine .inr ⟨?_, hgoes⟩
        have hpos := hstands.rank_pos hran
        have hfive : (({} : Host ι).calls i).rank = 5 := rfl
        omega

/-- What vpnctl goes on to, by the environment its call site gives it. -/
theorem acquires_of_site {site : Site} {lockWait : Nat} {command : Command} (hs : site ≠ .argvFor)
    (ha : (Invocation.vpnctl site lockWait command).acquires) :
    (Invocation.vpnctl site lockWait command).launch.flock = none := by
  cases hf : (Invocation.vpnctl site lockWait command).launch.flock with
  | none => rfl
  | some f =>
    have hheld := @lockHeld_of_flock site lockWait command hs (by rw [hf]; rfl)
    simp [Invocation.acquires, hheld] at ha

/-- The steps of a call that meets the lock in front of it. -/
def meeting (i : ι) : List (Action ι) := [.start i true, .take i, .spawn i, .check i true, .tryLock i]

/-- The control layer of the app takes the lock, and its vpnctl is refused by it with nobody else there. -/
theorem refused_argvFor {lockWait : Nat} {command : Command} (hm : command.mutates)
    (hi : calls i = .vpnctl .argvFor lockWait command) :
    ∃ h, run (step calls) {} (meeting i) = some h ∧ Along (step calls) (Undisturbed i) {} (meeting i) ∧
      (h.calls i).inner = .refused ∧ h.file.lock = some (.outer i) := by
  have hflock : (calls i).launch.flock = some ⟨true⟩ := by
    rw [hi]
    simp [Invocation.launch, launch, Site.words, flockOptions, lockFile]
  have hacq : (calls i).acquires := by
    rw [hi]
    simp [Invocation.acquires, Invocation.launch, launch, Site.words, hm]
  simp only [meeting, run, step, hflock, hacq, Host.set, Flock.File.flock, Flock.File.Free, Along, Undisturbed, Opens, Quiet,
    Call.inProgress, Outer.alive]
  simp
  exact Flock.File.lock_exit_of_mem (q := .outer i) rfl (by simp) (by simp)

/-- So it is not served. -/
theorem not_served_argvFor {lockWait : Nat} {command : Command} (hm : command.mutates)
    (hi : calls i = .vpnctl .argvFor lockWait command) : ¬ Served calls i := by
  intro hserved
  obtain ⟨h, hrun, hu, hrefused, hlock⟩ := refused_argvFor hm hi
  have hquiet : Quiet i h := by
    intro d hd
    rw [hlock, Option.mem_def, Option.some_inj] at hd
    rw [← hd, Proc.call_outer]
  have hne : h.calls i ≠ {} := by
    intro hc
    rw [hc] at hrefused
    nomatch hrefused
  exact (hserved _ h hrun hu (fun _ => hquiet) hne).2.1 hrefused

/-- A mutating command is served exactly where its call site is not the control layer of the app. -/
theorem served_iff {site : Site} {lockWait : Nat} {command : Command} (hm : command.mutates)
    (hi : calls i = .vpnctl site lockWait command) : Served calls i ↔ site ≠ .argvFor := by
  constructor
  · rintro hserved rfl
    exact not_served_argvFor hm hi hserved
  · intro hs
    refine served_of_standsDown fun ha => ?_
    rw [hi] at ha ⊢
    exact acquires_of_site hs ha

/-- Alice is added through one call site, and nobody else is there. -/
def addAlice (site : Site) : Unit → Invocation := fun _ => .vpnctl site 300 (.userAdd "alice")

/-- Through provisioning's, she is. -/
theorem served_provisioning : Served (addAlice .lockedVpnctl) () := by
  have hi : addAlice .lockedVpnctl () = .vpnctl .lockedVpnctl 300 (.userAdd "alice") := rfl
  exact (served_iff rfl hi).mpr nofun

/-- Through the control layer's, vpnctl refuses against its own flock(1). -/
theorem served_controlLayer : ¬ Served (addAlice .argvFor) () := by
  have hi : addAlice .argvFor () = .vpnctl .argvFor 300 (.userAdd "alice") := rfl
  exact not_served_argvFor rfl hi

end Locking

end VpnStack

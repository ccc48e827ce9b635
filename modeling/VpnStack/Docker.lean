import VpnStack.Protocols

/-!
# Docker and compose

The containers of compose.yml and what the compose commands do to them. `up -d` creates a missing container and starts a
stopped one, which keeps its id and its writable layer, and it may recreate one whose definition changed; `restart` resolves
the bind mounts again and keeps the container; `up -d --force-recreate` makes a new one. A container reads its environment
when it is created, and the tree its mounts resolve to whenever it starts.
-/

namespace VpnStack

/-- One start of a container: when, and what its bind mounts resolved to. -/
structure Start where
  time : Nat
  mounts : Tree

structure Container where
  id : Nat
  createdAt : Nat
  /-- The rendered tree its environment was read from. -/
  env : Tree
  /-- Its starts, the last one first. -/
  starts : List Start
  running : Bool

/-- The compose commands that change containers. -/
inductive Command where
  | up (services : List Service)
  | restart (service : Service)
  | forceRecreate (service : Service)
  | rm (services : List Service)
  deriving DecidableEq, Repr

/-- What `up -d` did with one of its services: nothing (it failed before it came to it), only the creation of a container
(it failed before the start), no more than its job, or a new container where it found a changed definition. -/
inductive Touch where
  | skip
  | createOnly
  | keep
  | recreate
  deriving DecidableEq, Repr

/-- The daemon. An id is given out once. -/
structure Docker where
  containers : Service → Option Container
  nextId : Nat
  clock : Nat
  log : List Command
  fresh : ∀ s c, containers s = some c → c.id < nextId

/-- The container after a start at that time, with its mounts resolved to the live tree. -/
def Container.start (c : Container) (time : Nat) (live : Tree) : Container :=
  { c with starts := ⟨time, live⟩ :: c.starts, running := true }

/-- A container that has just been created, and started unless `up -d` failed in between. -/
def Container.new (id time : Nat) (live : Tree) (started : Bool) : Container :=
  ⟨id, time, live, if started then [⟨time, live⟩] else [], started⟩

namespace Docker

/-- Note a command, at the next moment. -/
def begin (d : Docker) (command : Command) : Docker :=
  { d with clock := d.clock + 1, log := d.log ++ [command] }

def create (d : Docker) (live : Tree) (s : Service) (started : Bool) : Docker where
  containers := Function.update d.containers s (some (Container.new d.nextId d.clock live started))
  nextId := d.nextId + 1
  clock := d.clock
  log := d.log
  fresh := by
    intro t c h
    by_cases ht : t = s
    · subst ht
      rw [Function.update_self] at h
      cases h
      exact Nat.lt_succ_self _
    · rw [Function.update_of_ne ht] at h
      exact Nat.lt_succ_of_lt (d.fresh t c h)

/-- Start the container there is. -/
def start (d : Docker) (live : Tree) (s : Service) : Docker where
  containers := Function.update d.containers s ((d.containers s).map (·.start d.clock live))
  nextId := d.nextId
  clock := d.clock
  log := d.log
  fresh := by
    intro t c h
    by_cases ht : t = s
    · subst ht
      rw [Function.update_self] at h
      obtain ⟨c, hc, rfl⟩ := Option.map_eq_some_iff.mp h
      exact d.fresh t c hc
    · rw [Function.update_of_ne ht] at h
      exact d.fresh t c h

/-- Change whether the container runs, or remove it. Its inputs stay what they were. -/
def leave (d : Docker) (s : Service) (running : Option Bool) : Docker where
  containers := Function.update d.containers s
    (running.bind fun running => (d.containers s).map fun c => { c with running })
  nextId := d.nextId
  clock := d.clock
  log := d.log
  fresh := by
    intro t c h
    by_cases ht : t = s
    · subst ht
      rw [Function.update_self] at h
      obtain ⟨running, -, h⟩ := Option.bind_eq_some_iff.mp h
      obtain ⟨c, hc, rfl⟩ := Option.map_eq_some_iff.mp h
      exact d.fresh t c hc
    · rw [Function.update_of_ne ht] at h
      exact d.fresh t c h

/-! ## The commands -/

/-- `up -d` at one service. -/
def upOne (live : Tree) (ok : Bool) (touch : Service → Touch) (d : Docker) (s : Service) : Docker :=
  match ok, touch s with
  | false, .skip => d
  | false, .createOnly => d.create live s false
  | _, .recreate => d.create live s true
  | _, _ =>
    match d.containers s with
    | none => d.create live s true
    | some c => if c.running then d else d.start live s

/-- `up -d --no-deps --build`. -/
def up (d : Docker) (live : Tree) (ok : Bool) (touch : Service → Touch) (services : List Service) : Docker :=
  services.foldl (upOne live ok touch) (d.begin (.up services))

/-- `up -d --no-deps --force-recreate`, which may fail before it has a new container, or before it has started it. -/
def forceRecreate (d : Docker) (live : Tree) (ok : Bool) (touch : Service → Touch) (s : Service) : Docker :=
  upOne live ok (fun t => if ok then .recreate else touch t) (d.begin (.forceRecreate s)) s

/-- `restart`, which may fail before it has done anything. -/
def restart (d : Docker) (live : Tree) (ok : Bool) (touch : Service → Touch) (s : Service) : Docker :=
  if ok = true ∨ touch s ≠ .skip then (d.begin (.restart s)).start live s else d.begin (.restart s)

/-- `rm -sf`, which may fail before it has come to a service. -/
def rm (d : Docker) (ok : Bool) (touch : Service → Touch) (services : List Service) : Docker :=
  services.foldl (fun d s => if ok = true ∨ touch s ≠ .skip then d.leave s none else d) (d.begin (.rm services))

/-! ## What the commands do to each container -/

section Step

variable {live : Tree} {ok : Bool} {touch : Service → Touch} {d : Docker} {s t : Service}

/-- `up -d` at a service leaves everything, or creates a container, or starts the one there is. -/
theorem upOne_cases (live : Tree) (ok : Bool) (touch : Service → Touch) (d : Docker) (s : Service) :
    (upOne live ok touch d s = d ∧ (ok = true → ∃ c, d.containers s = some c)) ∨
      (∃ started, upOne live ok touch d s = d.create live s started ∧ (ok = true → started = true)) ∨
      (upOne live ok touch d s = d.start live s ∧ ∃ c, d.containers s = some c) := by
  unfold upOne
  split
  · exact .inl ⟨rfl, fun h => nomatch h⟩
  · exact .inr (.inl ⟨false, rfl, fun h => nomatch h⟩)
  · exact .inr (.inl ⟨true, rfl, fun _ => rfl⟩)
  · cases hc : d.containers s with
    | none => exact .inr (.inl ⟨true, rfl, fun _ => rfl⟩)
    | some c =>
      cases hr : c.running with
      | true => exact .inl ⟨by simp [hr], fun _ => ⟨c, rfl⟩⟩
      | false => exact .inr (.inr ⟨by simp [hr], c, rfl⟩)

@[simp] theorem create_self (started : Bool) :
    (d.create live s started).containers s = some (Container.new d.nextId d.clock live started) := Function.update_self ..

theorem create_other (started : Bool) (h : t ≠ s) : (d.create live s started).containers t = d.containers t :=
  Function.update_of_ne h ..

@[simp] theorem start_self : (d.start live s).containers s = (d.containers s).map (·.start d.clock live) :=
  Function.update_self ..

theorem start_other (h : t ≠ s) : (d.start live s).containers t = d.containers t := Function.update_of_ne h ..

/-- `up -d` at one service leaves the others. -/
theorem upOne_other (h : t ≠ s) : (upOne live ok touch d s).containers t = d.containers t := by
  rcases upOne_cases live ok touch d s with ⟨he, -⟩ | ⟨b, he, -⟩ | ⟨he, -⟩
  · rw [he]
  · rw [he, create_other b h]
  · rw [he, start_other h]

/-- `up -d` at one service gives out no id twice. -/
theorem upOne_nextId : d.nextId ≤ (upOne live ok touch d s).nextId := by
  rcases upOne_cases live ok touch d s with ⟨he, -⟩ | ⟨b, he, -⟩ | ⟨he, -⟩
  · exact Nat.le_of_eq (congrArg nextId he).symm
  · rw [he]
    exact Nat.le_succ _
  · exact Nat.le_of_eq (congrArg nextId he).symm

/-- `up -d` at one service takes no time of its own, and notes nothing. -/
theorem upOne_clock : (upOne live ok touch d s).clock = d.clock ∧ (upOne live ok touch d s).log = d.log := by
  rcases upOne_cases live ok touch d s with ⟨he, -⟩ | ⟨b, he, -⟩ | ⟨he, -⟩ <;>
    rw [he] <;> exact ⟨rfl, rfl⟩

/-- `up -d` is one command, noted at the next moment. -/
theorem up_clock {services : List Service} :
    (d.up live ok touch services).clock = d.clock + 1 ∧ (d.up live ok touch services).log = d.log ++ [.up services] := by
  have h : ∀ (services : List Service) (d : Docker), (services.foldl (upOne live ok touch) d).clock = d.clock ∧
      (services.foldl (upOne live ok touch) d).log = d.log := by
    intro services
    induction services with
    | nil => exact fun d => ⟨rfl, rfl⟩
    | cons s services ih =>
      intro d
      rw [List.foldl_cons]
      exact ⟨(ih _).1.trans upOne_clock.1, (ih _).2.trans upOne_clock.2⟩
  exact h services (d.begin (.up services))

/-- A forced recreation that succeeds leaves a new container. -/
theorem forceRecreate_self (hok : ok = true) : (d.forceRecreate live ok touch s).containers s =
    some (Container.new d.nextId (d.clock + 1) live true) := by
  subst hok
  exact create_self (d := d.begin (.forceRecreate s)) true

/-- A restart starts the container there is, or fails before it has done anything. -/
theorem restart_cases (live : Tree) (ok : Bool) (touch : Service → Touch) (d : Docker) (s : Service) :
    (d.restart live ok touch s = (d.begin (.restart s)).start live s) ∨
    ok ≠ true ∧ d.restart live ok touch s = d.begin (.restart s) := by
  unfold restart
  split
  · exact .inl rfl
  · rename_i h
    exact .inr ⟨fun hok => h (Or.inl hok), rfl⟩

/-- A restart is one command, noted at the next moment. -/
theorem restart_clock : (d.restart live ok touch s).clock = d.clock + 1 ∧
    (d.restart live ok touch s).log = d.log ++ [.restart s] := by
  rcases restart_cases live ok touch d s with he | ⟨-, he⟩ <;> rw [he] <;>
    exact ⟨rfl, rfl⟩

/-- A restart leaves the other services. -/
theorem restart_other (h : t ≠ s) : (d.restart live ok touch s).containers t = d.containers t := by
  rcases restart_cases live ok touch d s with he | ⟨-, he⟩
  · rw [he, start_other h]
    rfl
  · rw [he]
    rfl

/-- A restart that succeeds starts the container there is. -/
theorem restart_self (hok : ok = true) : (d.restart live ok touch s).containers s =
    (d.containers s).map (·.start (d.clock + 1) live) := by
  rcases restart_cases live ok touch d s with he | ⟨hne, -⟩
  · rw [he]
    exact start_self (d := d.begin (.restart s))
  · exact absurd hok hne

/-- A removal that succeeds takes the containers of its services, and no other. -/
theorem rm_ok {services : List Service} :
    (d.rm true touch services).containers s = if s ∈ services then none else d.containers s := by
  have hfold : ∀ (rest : List Service) (d : Docker),
      ((rest.foldl (fun d s => if true = true ∨ touch s ≠ .skip then d.leave s none else d) d).containers s) =
        if s ∈ rest then none else d.containers s := by
    intro rest
    induction rest with
    | nil => intro d; rfl
    | cons t rest ih =>
      intro d
      have hleave : (d.leave t none).containers s = if s = t then none else d.containers s := by
        change Function.update d.containers t none s = _
        rw [Function.update_apply]
      rw [List.foldl_cons, ih, if_pos (Or.inl rfl), hleave]
      by_cases hs : s ∈ rest <;> by_cases hst : s = t <;> simp [hs, hst]
  exact hfold services (d.begin (.rm services))

end Step

/-! ## Containers that are up to date

A container holds the live tree in two degrees: `Restarted` when its last start did, which is enough for what it mounts, and
`New` when it has never held another, which is what its environment and its writable layer take. -/

/-- Created after that time, from the live tree, and never started from another. -/
def New (live : Tree) (time : Nat) (c : Container) : Prop :=
  time < c.createdAt ∧ c.env = live ∧ c.starts ≠ [] ∧ ∀ st ∈ c.starts, time < st.time ∧ st.mounts = live

/-- Last started after that time, from the live tree. -/
def Restarted (live : Tree) (time : Nat) (c : Container) : Prop :=
  ∃ st, c.starts.head? = some st ∧ time < st.time ∧ st.mounts = live

/-- A container that is new was started since. -/
theorem New.restarted {live : Tree} {time : Nat} {c : Container} (h : New live time c) : Restarted live time c := by
  obtain ⟨-, -, hne, hall⟩ := h
  cases hs : c.starts with
  | nil => exact absurd hs hne
  | cons st rest => exact ⟨st, by rw [hs, List.head?_cons], hall st (by rw [hs]; exact List.mem_cons_self ..)⟩

/-- A new container that is started once more is still new. -/
theorem New.start {live : Tree} {time now : Nat} {c : Container} (h : New live time c) (hnow : time < now) :
    New live time (c.start now live) := by
  obtain ⟨hcreated, henv, -, hall⟩ := h
  refine ⟨hcreated, henv, List.cons_ne_nil _ _, fun st hst => ?_⟩
  rcases List.mem_cons.mp hst with rfl | hst
  · exact ⟨hnow, rfl⟩
  · exact hall st hst

/-- A container that is created and started is new. -/
theorem new_new {live : Tree} {time now id : Nat} (hnow : time < now) : New live time (Container.new id now live true) := by
  refine ⟨hnow, rfl, List.cons_ne_nil _ _, fun st hst => ?_⟩
  obtain rfl := List.mem_singleton.mp hst
  exact ⟨hnow, rfl⟩

theorem restarted_start {live : Tree} {time now : Nat} {c : Container} (hnow : time < now) :
    Restarted live time (c.start now live) := ⟨⟨now, live⟩, rfl, hnow, rfl⟩

/-- A service `up -d` has brought up: its container is the one it had, or a new one. -/
def BroughtUp (live : Tree) (time firstId : Nat) (before : Option Container) (after : Option Container) : Prop :=
  ∃ c, after = some c ∧ ((∃ b, before = some b ∧ c.id = b.id) ∨ firstId ≤ c.id ∧ New live time c)

/-- One turn of `up -d` brings its service up, and leaves a service that is up. -/
theorem upOne_broughtUp {live : Tree} {time firstId : Nat} {touch : Service → Touch} {d : Docker} {s : Service}
    {before : Option Container} (htime : time < d.clock) (hid : firstId ≤ d.nextId)
    (h : d.containers s = before ∨ BroughtUp live time firstId before (d.containers s)) :
    BroughtUp live time firstId before ((upOne live true touch d s).containers s) := by
  rcases upOne_cases live true touch d s with
    ⟨he, hsome⟩ | ⟨b, he, hb⟩ | ⟨he, c, hc⟩
  · obtain ⟨c, hc⟩ := hsome rfl
    rw [he]
    rcases h with h | h
    · exact ⟨c, hc, .inl ⟨c, h ▸ hc, rfl⟩⟩
    · exact h
  · rw [he, create_self, hb rfl]
    exact ⟨_, rfl, .inr ⟨hid, new_new htime⟩⟩
  · rw [he, start_self, hc]
    refine ⟨_, rfl, ?_⟩
    rcases h with h | ⟨c', hc', h⟩
    · exact .inl ⟨c, h ▸ hc, rfl⟩
    · obtain rfl := Option.some.inj (hc.symm.trans hc')
      rcases h with ⟨b, hb, hid⟩ | ⟨hid, hnew⟩
      · exact .inl ⟨b, hb, hid⟩
      · exact .inr ⟨hid, hnew.start htime⟩

/-- `up -d` that succeeds brings up every service it was given. -/
theorem up_broughtUp {live : Tree} {touch : Service → Touch} {d : Docker} {services : List Service} :
    ∀ s ∈ services, BroughtUp live d.clock d.nextId (d.containers s) ((d.up live true touch services).containers s) := by
  have h : ∀ (rest : List Service) (d' : Docker), d.clock < d'.clock → d.nextId ≤ d'.nextId →
      (∀ s, d'.containers s = d.containers s ∨ BroughtUp live d.clock d.nextId (d.containers s) (d'.containers s)) →
      ∀ s, s ∈ rest ∨ BroughtUp live d.clock d.nextId (d.containers s) (d'.containers s) →
        BroughtUp live d.clock d.nextId (d.containers s) ((rest.foldl (upOne live true touch) d').containers s) := by
    intro rest
    induction rest with
    | nil => exact fun d' _ _ _ s hs => hs.resolve_left (List.not_mem_nil)
    | cons t rest ih =>
      intro d' hclock hid hall s hs
      have hturn : ∀ s, (upOne live true touch d' t).containers s = d.containers s ∨
          BroughtUp live d.clock d.nextId (d.containers s) ((upOne live true touch d' t).containers s) := by
        intro s
        by_cases hst : s = t
        · subst hst
          exact .inr (upOne_broughtUp hclock hid (hall s))
        · rw [upOne_other hst]
          exact hall s
      refine ih _ (by rw [upOne_clock.1]; exact hclock) (Nat.le_trans hid upOne_nextId) hturn s ?_
      by_cases hst : s = t
      · subst hst
        exact .inr (upOne_broughtUp hclock hid (hall s))
      · rw [upOne_other hst]
        exact hs.imp_left fun h => (List.mem_cons.mp h).resolve_left hst
  exact fun s hs => h services (d.begin (.up services)) (Nat.lt_succ_self _) (Nat.le_refl _) (fun _ => .inl rfl) s (.inl hs)

/-! ## What every command keeps -/

/-- A condition on a service's container that no command can break. -/
structure Kept (live : Tree) (I : Option Container → Prop) : Prop where
  new : ∀ id time started, I (some (Container.new id time live started))
  start : ∀ c time, I (some c) → I (some (c.start time live))
  running : ∀ c running, I (some c) → I (some { c with running })
  none : I none

/-- A condition under an assumption is kept where the condition is. -/
theorem Kept.imp {live : Tree} {I : Option Container → Prop} (p : Prop) (h : Kept live I) : Kept live fun o => p → I o where
  new id time started _ := h.new id time started
  start c time hc hp := h.start c time (hc hp)
  running c running hc hp := h.running c running (hc hp)
  none _ := h.none

section Keep

variable {live : Tree} {I : Service → Option Container → Prop} {ok : Bool} {touch : Service → Touch} {d : Docker}
  {s : Service} {services : List Service}

/-- A start keeps what no command can break. -/
theorem start_keeps (hI : ∀ s, Kept live (I s)) (h : ∀ s, I s (d.containers s)) : ∀ t, I t ((d.start live s).containers t) := by
  intro t
  by_cases ht : t = s
  · subst ht
    rw [start_self]
    cases hc : d.containers t with
    | none => exact (hI t).none
    | some c => exact (hI t).start c _ (hc ▸ h t)
  · rw [start_other ht]
    exact h t

/-- A container that stops or goes keeps what no command can break. -/
theorem leave_keeps (hI : ∀ s, Kept live (I s)) (running : Option Bool) (h : ∀ s, I s (d.containers s)) :
    ∀ t, I t ((d.leave s running).containers t) := by
  intro t
  by_cases ht : t = s
  · subst ht
    change I t (Function.update d.containers t _ t)
    rw [Function.update_self]
    cases running with
    | none => exact (hI t).none
    | some running =>
      cases hc : d.containers t with
      | none => exact (hI t).none
      | some c => exact (hI t).running c _ (hc ▸ h t)
  · change I t (Function.update d.containers s _ t)
    rw [Function.update_of_ne ht]
    exact h t

/-- `up -d` at one service keeps what no command can break. -/
theorem upOne_keeps (hI : ∀ s, Kept live (I s)) (h : ∀ s, I s (d.containers s)) :
    ∀ t, I t ((upOne live ok touch d s).containers t) := by
  rcases upOne_cases live ok touch d s with ⟨he, -⟩ | ⟨b, he, -⟩ | ⟨he, -⟩
  · rw [he]
    exact h
  · intro t
    rw [he]
    by_cases ht : t = s
    · subst ht
      rw [create_self]
      exact (hI t).new ..
    · rw [create_other b ht]
      exact h t
  · rw [he]
    exact start_keeps hI h

/-- `up -d` keeps what no command can break. -/
theorem up_keeps (hI : ∀ s, Kept live (I s)) (h : ∀ s, I s (d.containers s)) :
    ∀ t, I t ((d.up live ok touch services).containers t) := by
  have hfold : ∀ (rest : List Service) (d : Docker), (∀ s, I s (d.containers s)) →
      ∀ t, I t ((rest.foldl (upOne live ok touch) d).containers t) := by
    intro rest
    induction rest with
    | nil => exact fun d h => h
    | cons s rest ih => exact fun d h => ih _ (upOne_keeps hI h)
  exact hfold services (d.begin (.up services)) h

theorem forceRecreate_keeps (hI : ∀ s, Kept live (I s)) (h : ∀ s, I s (d.containers s)) :
    ∀ t, I t ((d.forceRecreate live ok touch s).containers t) := upOne_keeps hI h

/-- A restart keeps what no command can break. -/
theorem restart_keeps (hI : ∀ s, Kept live (I s)) (h : ∀ s, I s (d.containers s)) :
    ∀ t, I t ((d.restart live ok touch s).containers t) := by
  unfold restart
  split
  · exact start_keeps hI h
  · exact h

/-- A removal keeps what no command can break. -/
theorem rm_keeps (hI : ∀ s, Kept live (I s)) (h : ∀ s, I s (d.containers s)) :
    ∀ t, I t ((d.rm ok touch services).containers t) := by
  have hfold : ∀ (rest : List Service) (d : Docker), (∀ s, I s (d.containers s)) →
      ∀ t, I t ((rest.foldl (fun d s => if ok = true ∨ touch s ≠ .skip then d.leave s none else d) d).containers t) := by
    intro rest
    induction rest with
    | nil => exact fun d h => h
    | cons s rest ih =>
      intro d h
      rw [List.foldl_cons]
      refine ih _ ?_
      split
      · exact leave_keeps hI none h
      · exact h
  exact hfold services (d.begin (.rm services)) h

end Keep

end Docker

end VpnStack

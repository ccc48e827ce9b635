import VpnStack.Composectl

/-!
# What `up` leaves behind

`up` infers from the ids listed before and after `up -d` which containers compose has already replaced, and nudges the rest of
the changed ones. Whatever was missing, stopped or running, and whichever listing failed: when it returns ok, every service
that changed reads the live tree.
-/

namespace VpnStack

open Interaction Docker

namespace Composectl

section Up

variable {host : Host} {services : List Service} {before after : Option (Service → Option Nat)} {pending : Changed}
  {live : Tree} {time : Nat}

/-- A service that is done: its container is there, and reads the live tree as far as it changed. -/
def Done (pending : Changed) (live : Tree) (time : Nat) (s : Service) (o : Option Container) : Prop :=
  ∃ c, o = some c ∧ (pending s ≠ none → Restarted live time c) ∧ (pending s = some .recreate → New live time c)

/-- A service that is up: its container is there, and it is new if the listings differ. -/
def Up (before after : Option (Service → Option Nat)) (live : Tree) (time : Nat) (s : Service) (o : Option Container) : Prop :=
  ∃ c, o = some c ∧ (replaced before after s = true → New live time c)

/-- In front of a turn: what is left is up, and the rest is done. -/
structure Nudging (services : List Service) (before after : Option (Service → Option Nat)) (pending : Changed) (live : Tree)
    (time : Nat) (start : List Command) (rest : List Service) (w : World) : Prop where
  live_eq : w.live = live
  clock : time ≤ w.docker.clock
  up : ∀ s ∈ services, s ∈ rest → Up before after live time s (w.docker.containers s)
  done : ∀ s ∈ services, s ∉ rest → Done pending live time s (w.docker.containers s)
  log : ∃ commands, w.docker.log = start ++ commands ∧
    ∀ s, .restart s ∈ commands ∨ .forceRecreate s ∈ commands → s ∈ services ∧ pending s ≠ none

/-- What `up` leaves behind when it returns ok. -/
structure Converged (services : List Service) (pending : Changed) (live : Tree) (time : Nat) (start : List Command)
    (w : World) : Prop where
  live_eq : w.live = live
  clock : time ≤ w.docker.clock
  done : ∀ s ∈ services, Done pending live time s (w.docker.containers s)
  log : ∃ commands, w.docker.log = start ++ commands ∧
    ∀ s, .restart s ∈ commands ∨ .forceRecreate s ∈ commands → s ∈ services ∧ pending s ≠ none

/-- A turn that leaves the service as it is. -/
theorem Nudging.skip {start : List Command} {s : Service} {rest : List Service} {w : World}
    (h : Nudging services before after pending live time start (s :: rest) w)
    (hs : s ∈ services → Done pending live time s (w.docker.containers s)) :
    Nudging services before after pending live time start rest w where
  live_eq := h.live_eq
  clock := h.clock
  up t ht htr := h.up t ht (List.mem_cons_of_mem _ htr)
  done t ht htr := by
    by_cases hts : t = s
    · exact hts ▸ hs (hts ▸ ht)
    · exact h.done t ht (fun hmem => (List.mem_cons.mp hmem).elim hts htr)
  log := h.log

/-- A turn that nudges the service, and leaves every other one. -/
theorem Nudging.nudged {start : List Command} {s : Service} {rest : List Service} {w : World} {docker : Docker}
    {command : Command} (h : Nudging services before after pending live time start (s :: rest) w) (hrest : s ∉ rest)
    (hs : s ∈ services) (hp : pending s ≠ none) (hcommand : command = .restart s ∨ command = .forceRecreate s)
    (hlog : docker.log = w.docker.log ++ [command]) (hclock : docker.clock = w.docker.clock + 1)
    (hother : ∀ t, t ≠ s → docker.containers t = w.docker.containers t)
    (hdone : Done pending live time s (docker.containers s)) :
    Nudging services before after pending live time start rest { w with docker } where
  live_eq := h.live_eq
  clock := by
    change time ≤ docker.clock
    have := h.clock
    omega
  up t ht htr := by
    change Up before after live time t (docker.containers t)
    have hts : t ≠ s := fun hts => hrest (hts ▸ htr)
    rw [hother t hts]
    exact h.up t ht (List.mem_cons_of_mem _ htr)
  done t ht htr := by
    change Done pending live time t (docker.containers t)
    by_cases hts : t = s
    · exact hts ▸ hdone
    · rw [hother t hts]
      exact h.done t ht (fun hmem => (List.mem_cons.mp hmem).elim hts htr)
  log := by
    obtain ⟨commands, hcs, hall⟩ := h.log
    refine ⟨commands ++ [command], ?_, fun t ht => ?_⟩
    · change docker.log = _
      rw [hlog, hcs, List.append_assoc]
    · by_cases hts : t = s
      · exact hts ▸ ⟨hs, hp⟩
      · refine hall t (ht.imp (fun hm => ?_) (fun hm => ?_))
        · rcases List.mem_append.mp hm with hm | hm
          · exact hm
          · rcases hcommand with rfl | rfl
            · exact absurd (Command.restart.inj (List.mem_singleton.mp hm)) hts
            · cases List.mem_singleton.mp hm
        · rcases List.mem_append.mp hm with hm | hm
          · exact hm
          · rcases hcommand with rfl | rfl
            · cases List.mem_singleton.mp hm
            · exact absurd (Command.forceRecreate.inj (List.mem_singleton.mp hm)) hts

/-- The loop: what is up at its start is done when it returns ok. -/
theorem nudge_ends {start : List Command} {rest : List Service} (hnodup : rest.Nodup) {w : World}
    (h : Nudging services before after pending live time start rest w) :
    ends (server host) (.any Op World Choice) (nudge services before after pending rest)
      (fun ok w => ok = true → Converged services pending live time start w) (fun _ _ => True) (fun _ => True) w := by
  induction rest generalizing w with
  | nil => exact fun _ => ⟨h.live_eq, h.clock, fun s hs => h.done s hs List.not_mem_nil, h.log⟩
  | cons s rest ih =>
    obtain ⟨hrest, hnodup⟩ := List.nodup_cons.mp hnodup
    rw [nudge]
    cases hp : pending s with
    | none =>
      refine ih hnodup (h.skip fun hs => ?_)
      obtain ⟨c, hc, -⟩ := h.up s hs (List.mem_cons_self ..)
      exact ⟨c, hc, fun hne => absurd hp hne, fun heq => absurd (hp.symm.trans heq) (by decide)⟩
    | some how =>
      refine ends_ite (fun hskip => ih hnodup (h.skip fun hs => ?_)) (fun hnudge => ?_)
      · obtain ⟨c, hc, hnew⟩ := h.up s hs (List.mem_cons_self ..)
        have hnew := hnew (hskip.resolve_left (not_not.mpr hs))
        exact ⟨c, hc, fun _ => hnew.restarted, fun _ => hnew⟩
      · rw [not_or, not_not] at hnudge
        obtain ⟨hs, -⟩ := hnudge
        have hne : pending s ≠ none := by rw [hp]; exact Option.some_ne_none how
        have hclock := h.clock
        cases how with
        | recreate =>
          refine ends_seq (M := fun ok w' => ok = true →
            Nudging services before after pending live time start rest w') ?_ fun ok w' hok => ?_
          · refine ends_exec (fun _ => trivial) (fun c _ _ hok => ?_) (fun _ _ _ _ => trivial) (fun _ _ _ _ => trivial)
            have hcok : c.ok = true := hok
            refine h.nudged hrest hs hne (.inr rfl) ?_ ?_ (fun t ht => ?_) ?_
            · exact upOne_clock.2
            · exact upOne_clock.1
            · exact upOne_other ht
            · rw [forceRecreate_self hcok, h.live_eq]
              have hnew : New live time (Container.new w.docker.nextId (w.docker.clock + 1) live true) :=
                new_new (Nat.lt_succ_of_le hclock)
              exact ⟨_, rfl, fun _ => hnew.restarted, fun _ => hnew⟩
          · cases ok with
            | true => exact ih hnodup (hok rfl)
            | false => exact fun hfalse => nomatch hfalse
        | mount =>
          refine ends_seq (M := fun ok w' => ok = true →
            Nudging services before after pending live time start rest w') ?_ fun ok w' hok => ?_
          · refine ends_exec (fun _ => trivial) (fun c _ _ hok => ?_) (fun _ _ _ _ => trivial) (fun _ _ _ _ => trivial)
            have hcok : c.ok = true := hok
            obtain ⟨old, hold, -⟩ := h.up s hs (List.mem_cons_self ..)
            refine h.nudged hrest hs hne (.inl rfl) ?_ ?_ (fun t ht => ?_) ?_
            · exact restart_clock.2
            · exact restart_clock.1
            · exact restart_other ht
            · rw [restart_self hcok, hold, h.live_eq]
              exact ⟨_, rfl, fun _ => restarted_start (Nat.lt_succ_of_le hclock),
                fun heq => absurd (hp.symm.trans heq) (by decide)⟩
          · cases ok with
            | true => exact ih hnodup (hok rfl)
            | false => exact fun hfalse => nomatch hfalse

/-- Two listings that differ at a service show that `up -d` made it a new container. -/
theorem up_of_broughtUp {d d' : Docker} {s : Service} (hbefore : before = none ∨ before = some fun s => (d.containers s).map (·.id))
    (hafter : after = none ∨ after = some fun s => (d'.containers s).map (·.id))
    (h : BroughtUp live time d.nextId (d.containers s) (d'.containers s)) :
    Up before after live time s (d'.containers s) := by
  obtain ⟨c, hc, hcase⟩ := h
  refine ⟨c, hc, fun hreplaced => ?_⟩
  rcases hcase with ⟨b, hb, hid⟩ | ⟨-, hnew⟩
  · exfalso
    rcases hbefore with rfl | rfl
    · cases hreplaced
    · rcases hafter with rfl | rfl
      · cases hreplaced
      · simp [replaced, hb, hc, hid] at hreplaced
  · exact hnew

/-- `up`, from any containers and for any changes. -/
theorem up_ends (host : Host) (enabled : List Protocol) (changed : Option Changed) (w : World) :
    ends (server host) (.any Op World Choice) (up enabled changed)
      (fun ok w' => ok = true → Converged (expectedServices enabled) (pendingOf (expectedServices enabled) changed)
        w.live w.docker.clock w.docker.log w') (fun _ _ => True) (fun _ => True) w := by
  refine ends_seq (M := fun ids w' => w' = w ∧ (ids = none ∨ ids = some fun s => (w.docker.containers s).map (·.id)))
    ?_ fun before w1 hw1 => ?_
  · refine ends_exec (fun _ => trivial) (fun c _ _ => ?_) (fun _ _ _ _ => trivial) (fun _ _ _ _ => trivial)
    refine ⟨rfl, ?_⟩
    change (if c.ok then _ else none) = none ∨ (if c.ok then _ else none) = _
    split
    · exact .inr rfl
    · exact .inl rfl
  obtain ⟨rfl, hbefore⟩ := hw1
  refine ends_seq (M := fun ok w' => ok = true → ∃ touch, w' = { w1 with
    docker := w1.docker.up w1.live true touch (expectedServices enabled) }) ?_ fun ok w2 hw2 => ?_
  · refine ends_exec (fun _ => trivial) (fun c _ _ hok => ?_) (fun _ _ _ _ => trivial) (fun _ _ _ _ => trivial)
    have hcok : c.ok = true := hok
    refine ⟨c.touch, ?_⟩
    rw [← hcok]
    rfl
  cases ok with
  | false => exact fun hfalse => nomatch hfalse
  | true =>
    obtain ⟨touch, hw2⟩ := hw2 rfl
    refine ends_seq (M := fun ids w' => w' = w2 ∧ (ids = none ∨ ids = some fun s => (w2.docker.containers s).map (·.id)))
      ?_ fun after w3 hw3 => ?_
    · refine ends_exec (fun _ => trivial) (fun c _ _ => ?_) (fun _ _ _ _ => trivial) (fun _ _ _ _ => trivial)
      refine ⟨rfl, ?_⟩
      change (if c.ok then _ else none) = none ∨ (if c.ok then _ else none) = _
      split
      · exact .inr rfl
      · exact .inl rfl
    obtain ⟨rfl, hafter⟩ := hw3
    have hstart : Nudging (expectedServices enabled) before after (pendingOf (expectedServices enabled) changed) w1.live
        w1.docker.clock w1.docker.log Service.all w3 := by
      subst hw2
      refine ⟨rfl, ?_, fun s hs _ => up_of_broughtUp hbefore hafter (up_broughtUp s hs), fun s _ hs => ?_, ?_⟩
      · change w1.docker.clock ≤ (w1.docker.up w1.live true touch (expectedServices enabled)).clock
        rw [up_clock.1]
        exact Nat.le_succ _
      · exact absurd (by cases s <;> decide) hs
      · refine ⟨[.up (expectedServices enabled)], up_clock.2, fun s hs => ?_⟩
        rcases hs with hs | hs <;> cases List.mem_singleton.mp hs
    exact nudge_ends (by decide) hstart

end Up

/-- What `up` has to do to a service: what `changed` says, and a new container when nobody could tell. -/
def action (changed : Option Changed) (s : Service) : Option How :=
  match changed with
  | none => some .recreate
  | some changed => changed s

/-- What is pending for an expected service is what is noted of it. -/
theorem pendingOf_eq {services : List Service} {changed : Option Changed} {s : Service} (hs : s ∈ services) :
    pendingOf services changed s = action changed s := by
  cases changed with
  | none => exact if_pos hs
  | some changed => rfl

/-- When `up` returns ok, every expected service exists; one that changed was last started after `up` began, and is in a
container created after it began if it needed a new one; and only expected services that changed were restarted or recreated by name. -/
theorem up_converged (host : Host) (enabled : List Protocol) (changed : Option Changed) (cs : List Choice) (w w' : World)
    (h : (up enabled changed).run (server host) cs w = (some (.ok true), w')) :
    (∀ s ∈ expectedServices enabled, ∃ c, w'.docker.containers s = some c ∧
      (action changed s ≠ none → ∃ st, c.starts.head? = some st ∧ w.docker.clock < st.time) ∧
      (action changed s = some .recreate → w.docker.clock < c.createdAt)) ∧
    ∃ commands, w'.docker.log = w.docker.log ++ commands ∧
      ∀ s, .restart s ∈ commands ∨ .forceRecreate s ∈ commands → s ∈ expectedServices enabled ∧ action changed s ≠ none := by
  have hends := ends_run_any (up_ends host enabled changed w) cs
  rw [h] at hends
  obtain ⟨-, -, hdone, commands, hlog, hcommands⟩ := hends rfl
  refine ⟨fun s hs => ?_, commands, hlog, fun s hmem => ?_⟩
  · obtain ⟨c, hc, hrestarted, hnew⟩ := hdone s hs
    rw [pendingOf_eq hs] at hrestarted hnew
    refine ⟨c, hc, fun hne => ?_, fun heq => (hnew heq).1⟩
    obtain ⟨st, hst, htime, -⟩ := hrestarted hne
    exact ⟨st, hst, htime⟩
  · obtain ⟨hs, hne⟩ := hcommands s hmem
    rw [pendingOf_eq hs] at hne
    exact ⟨hs, hne⟩

/-- A server with sing-box running and the IPsec container stopped. -/
def sampleWorld : World :=
  { World.provisioned (fun _ => none) [] ⟨[], List.nodup_nil⟩ with
    docker := ((Docker.empty.create [] .singBox true).create [] .ikev2 true).leave .ikev2 (some false) }

/-- The changes of a new L2TP user. -/
def sampleChanged : Changed := fun s => if s = .ikev2 then some .recreate else none

/-- The stopped IPsec container is replaced for its changed environment file, and sing-box is left alone. -/
theorem up_converged_ikev2 :
    ∃ w', (up [Ikev2.protocol] (some sampleChanged)).run (server Host.sample) [{}, {}, {}, {}] sampleWorld =
        (some (.ok true), w') ∧
      (∃ c, w'.docker.containers .ikev2 = some c ∧ sampleWorld.docker.clock < c.createdAt) ∧
      ∃ commands, w'.docker.log = sampleWorld.docker.log ++ commands ∧ .restart .singBox ∉ commands ∧
        .forceRecreate .singBox ∉ commands := by
  refine ⟨_, rfl, ?_⟩
  obtain ⟨hservices, commands, hlog, hcommands⟩ := up_converged Host.sample [Ikev2.protocol] (some sampleChanged)
    [{}, {}, {}, {}] sampleWorld _ rfl
  obtain ⟨c, hc, -, hnew⟩ := hservices .ikev2 (by decide)
  exact ⟨⟨c, hc, hnew rfl⟩, commands, hlog, fun hmem => (hcommands .singBox (.inl hmem)).2 rfl,
    fun hmem => (hcommands .singBox (.inr hmem)).2 rfl⟩

end Composectl

end VpnStack

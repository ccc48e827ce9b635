import VpnStack.World

/-!
# Converging the containers

`composectl.py`: which service reads which rendered file, and how a change of it reaches the service (`MOUNT`: a restart
resolves the mount again; `RECREATE`: only a new container reads it); which services two trees differ for; and `up`, which
starts everything that is expected, and then nudges the changed services that compose has not just recreated by itself.
-/

namespace VpnStack

open Python Interaction

namespace Composectl

/-- `_CONSUMERS`. -/
def consumers : List (Text × Service × How) :=
  [("sing-box/", .singBox, .mount),
   ("dnstt/", .dnstt, .mount),
   ("dnstt-sshd/", .dnsttSshd, .recreate),
   ("dnstt.env", .dnsttSshd, .recreate),
   ("ikev2.env", .ikev2, .recreate)]

/-- `_consumer`, by a table in the place of `_CONSUMERS`. -/
def consumerIn (table : List (Text × Service × How)) (rel : Text) : Option (Service × How) :=
  (table.find? fun entry => rel == entry.1 || (entry.1.getLast? == some '/' && entry.1.isPrefixOf rel)).map (·.2)

/-- `_consumer`: who reads a rendered file. -/
def consumer (rel : Text) : Option (Service × How) := consumerIn consumers rel

/-- One file that differs: RECREATE wins over MOUNT. -/
def note (changed : Changed) (service : Service) (how : How) : Changed :=
  if changed service = some .recreate then changed else Function.update changed service (some how)

/-- Whether the two trees have the file with the same contents. -/
def sameFile (previous candidate : Tree) (rel : Text) : Bool :=
  match previous.lookup rel, candidate.lookup rel with
  | some old, some new => old == new
  | _, _ => false

/-- The loop over the files of both trees. A file nobody is known to read ends it: bouncing everything is never stale. -/
def diff (table : List (Text × Service × How)) (previous candidate : Tree) : List Text → Changed → Option Changed
  | [], changed => some changed
  | rel :: rest, changed =>
    if sameFile previous candidate rel then diff table previous candidate rest changed
    else match consumerIn table rel with
      | none => none
      | some (service, how) => diff table previous candidate rest (note changed service how)

/-- `changed_services`, by a table in the place of `_CONSUMERS`, on what is in the two directories. -/
def changedServicesIn (table : List (Text × Service × How)) (previous : Option Tree) (candidate : Tree) : Option Changed :=
  match previous with
  | none => none
  | some previous =>
    diff table previous candidate (previous.map (·.1) ++ candidate.map (·.1)) (fun _ => none)

/-- `changed_services`. -/
def changedServices (previous : Option Tree) (candidate : Tree) : Option Changed := changedServicesIn consumers previous candidate

/-- Every container that has to be up: sing-box always, and those of each protocol. -/
def expectedServices (enabled : List Protocol) : List Service := .singBox :: enabled.flatMap (·.composeServices)

/-- Whether compose has given the service a new container between the two listings. -/
def replaced (before after : Option (Service → Option Nat)) (s : Service) : Bool :=
  match before, after with
  | some before, some after => before s == none || before s != after s
  | _, _ => false

/-- The loop over the changed services, in the order of their names. -/
def nudge (services : List Service) (before after : Option (Service → Option Nat)) (pending : Changed) :
    List Service → Cmd Bool
  | [] => pure true
  | s :: rest =>
    match pending s with
    | none => nudge services before after pending rest
    | some how =>
      if s ∉ services ∨ replaced before after s then nudge services before after pending rest
      else do
        let ok ← match how with
          | .recreate => call (.composeForceRecreate s)
          | .mount => call (.composeRestart s)
        if ok then nudge services before after pending rest else pure false

/-- What `up` nudges: what changed, or all of it when nobody could tell. -/
def pendingOf (services : List Service) (changed : Option Changed) : Changed :=
  changed.getD fun s => if s ∈ services then some .recreate else none

/-- `up`. -/
def up (enabled : List Protocol) (changed : Option Changed) : Cmd Bool := do
  let services := expectedServices enabled
  let before ← call .containerIds
  let ok ← call (.composeUp services)
  if ok then do
    let after ← call .containerIds
    nudge services before after (pendingOf services changed) Service.all
  else pure false

/-- `down_disabled`: remove the running containers of the protocols that are off. -/
def downDisabled (py : CaseMap) (enabled : List Protocol) : Cmd Bool := do
  let stale := (ordered (protocols py)).flatMap fun p => p.composeServices.filter fun s =>
    s ∉ enabled.flatMap (·.composeServices)
  if stale = [] then pure true
  else do
    let running : Option (List Service) ← call .runningServices
    match running with
    | none => pure false
    | some running =>
      let toRemove := stale.filter (· ∈ running)
      if toRemove = [] then pure true else call (.composeRm toRemove)

/-- `not_running`: the expected services that are not up, or nothing when docker could not tell. -/
def notRunning (enabled : List Protocol) : Cmd (Option (List Service)) := do
  let running : Option (List Service) ← call .runningServices
  match running with
  | none => pure none
  | some running => pure (some (Service.all.filter fun s => s ∈ expectedServices enabled ∧ s ∉ running))

/-! ## Which services two trees differ for -/

/-- Whatever stands under `sing-box/` is read by sing-box, by its mount. -/
theorem consumer_singBox (rel : Text) : consumer ("sing-box/".toList ++ rel) = some (.singBox, .mount) := by
  have hbegins : "sing-box/".toList.isPrefixOf ("sing-box/".toList ++ rel) = true :=
    List.isPrefixOf_iff_prefix.mpr (List.prefix_append _ _)
  have hfind : consumers.find? (fun entry => ("sing-box/".toList ++ rel) == entry.1 ||
      (entry.1.getLast? == some '/' && entry.1.isPrefixOf ("sing-box/".toList ++ rel))) =
      some ("sing-box/".toList, .singBox, .mount) := by
    rw [consumers, List.find?_cons_of_pos]
    rw [hbegins]
    simp
  rw [consumer, consumerIn, hfind]
  rfl

/-- A file is the same where both trees have it with the same bytes. -/
theorem sameFile_iff {previous candidate : Tree} {rel : Text} :
    sameFile previous candidate rel = true ↔ ∃ b, previous.lookup rel = some b ∧ candidate.lookup rel = some b := by
  unfold sameFile
  cases previous.lookup rel with
  | none => simp
  | some old =>
    cases candidate.lookup rel with
    | none => simp
    | some new =>
      rw [beq_iff_eq]
      exact ⟨fun h => ⟨new, congrArg some h, rfl⟩, fun ⟨b, hold, hnew⟩ => Option.some.inj (hold.trans hnew.symm)⟩

/-- A service that was noted stays noted, and for a new container if it was for one. -/
def NotedFor (changed : Changed) (service : Service) (how : How) : Prop :=
  changed service = some .recreate ∨ how = .mount ∧ changed service = some .mount

/-- What is noted of a service is noted. -/
theorem note_self {changed : Changed} {service : Service} {how : How} : NotedFor (note changed service how) service how := by
  unfold note
  split
  · exact .inl ‹_›
  · unfold NotedFor
    rw [Function.update_self]
    cases how with
    | mount => exact .inr ⟨rfl, rfl⟩
    | recreate => exact .inl rfl

/-- What was noted of a service stays so when something else is. -/
theorem note_mono {changed : Changed} {s service : Service} {how how' : How} (h : NotedFor changed s how) :
    NotedFor (note changed service how') s how := by
  unfold note
  split
  · exact h
  · unfold NotedFor at h ⊢
    by_cases hs : s = service
    · subst hs
      rw [Function.update_self]
      cases how' with
      | recreate => exact .inl rfl
      | mount =>
        rcases h with h | ⟨rfl, -⟩
        · exact absurd h ‹_›
        · exact .inr ⟨rfl, rfl⟩
    · rw [Function.update_of_ne hs]
      exact h

/-- What the diff says of the files it has gone through: each is the same in both trees, or noted for its reader. -/
theorem diff_sound {table : List (Text × Service × How)} {previous candidate : Tree} {rels : List Text} {changed result : Changed}
    (h : diff table previous candidate rels changed = some result) :
    (∀ s how, NotedFor changed s how → NotedFor result s how) ∧
      ∀ rel ∈ rels, sameFile previous candidate rel = true ∨
        ∃ s how, consumerIn table rel = some (s, how) ∧ NotedFor result s how := by
  induction rels generalizing changed with
  | nil =>
    cases h
    exact ⟨fun _ _ h => h, fun rel hrel => (List.not_mem_nil hrel).elim⟩
  | cons rel rest ih =>
    rw [diff] at h
    split at h
    · obtain ⟨hmono, hall⟩ := ih h
      refine ⟨hmono, fun r hr => ?_⟩
      rcases List.mem_cons.mp hr with rfl | hr
      · exact .inl ‹_›
      · exact hall r hr
    · split at h
      · cases h
      · rename_i service how hconsumer
        obtain ⟨hmono, hall⟩ := ih h
        refine ⟨fun s how' hs => hmono s how' (note_mono hs), fun r hr => ?_⟩
        rcases List.mem_cons.mp hr with rfl | hr
        · exact .inr ⟨service, how, hconsumer, hmono _ _ note_self⟩
        · exact hall r hr

/-- A path that is not in a tree is not found there. -/
theorem lookup_eq_none_of_not_mem {tree : Tree} {rel : Text} (h : rel ∉ tree.map (·.1)) : tree.lookup rel = none := by
  rw [List.lookup_eq_none_iff]
  intro f hf
  have hne : rel ≠ f.1 := fun he => h (he ▸ List.mem_map_of_mem hf)
  simpa using hne

/-- A file that differs between the live tree and the candidate has a reader, and the diff names it. -/
theorem changedServices_sound {previous : Option Tree} {candidate : Tree} {changed : Changed}
    (h : changedServices previous candidate = some changed) :
    ∃ tree, previous = some tree ∧ ∀ rel, tree.lookup rel = candidate.lookup rel ∨
      ∃ s how, consumer rel = some (s, how) ∧ NotedFor changed s how := by
  cases previous with
  | none => cases h
  | some tree =>
    refine ⟨tree, rfl, fun rel => ?_⟩
    obtain ⟨-, hall⟩ := diff_sound h
    by_cases hmem : rel ∈ tree.map (·.1) ++ candidate.map (·.1)
    · rcases hall rel hmem with hsame | hnoted
      · obtain ⟨b, hold, hnew⟩ := sameFile_iff.mp hsame
        exact .inl (hold.trans hnew.symm)
      · exact .inr hnoted
    · rw [List.mem_append, not_or] at hmem
      exact .inl ((lookup_eq_none_of_not_mem hmem.1).trans (lookup_eq_none_of_not_mem hmem.2).symm)

end Composectl

end VpnStack

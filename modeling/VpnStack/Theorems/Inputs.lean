import VpnStack.Effects

/-!
# What a container runs from

A container holds a file that it mounts as its last start found it, and a file it read into its environment or its writable
layer as its creation or any of its starts found it. It is fresh when what it holds of its service's inputs is what the live
tree has, and every command keeps a fresh container fresh. A rendered tree has inputs of the services it is rendered for, and
of no others.
-/

namespace VpnStack

open Python Interaction Docker

/-! ## Inputs -/

/-- What the container has of that file, if the file reaches it in that way. -/
def Container.Holds (c : Container) (how : How) (rel : Text) (b : Option Bytes) : Prop :=
  match how with
  | .mount => ∃ st, c.starts.head? = some st ∧ st.mounts.lookup rel = b
  | .recreate => c.env.lookup rel = b ∨ ∃ st ∈ c.starts, st.mounts.lookup rel = b

namespace Composectl

/-- An input of the service differs from the live tree's. -/
def Stale (s : Service) (live : Tree) (c : Container) : Prop :=
  ∃ rel how b, consumer rel = some (s, how) ∧ c.Holds how rel b ∧ b ≠ live.lookup rel

/-- Every input of the service is the live tree's. -/
def Fresh (s : Service) (live : Tree) (c : Container) : Prop :=
  ∀ rel how b, consumer rel = some (s, how) → c.Holds how rel b → b = live.lookup rel

/-- A container is stale exactly where it is not fresh. -/
theorem not_fresh_iff {s : Service} {live : Tree} {c : Container} : ¬ Fresh s live c ↔ Stale s live c := by
  simp only [Fresh, Stale, not_forall]
  constructor
  · rintro ⟨rel, how, b, hconsumer, hholds, hne⟩
    exact ⟨rel, how, b, hconsumer, hholds, hne⟩
  · rintro ⟨rel, how, b, hconsumer, hholds, hne⟩
    exact ⟨rel, how, b, hconsumer, hholds, hne⟩

/-- How the inputs of a service reach it. -/
def howOf : Service → How
  | .singBox => .mount
  | .dnstt => .mount
  | _ => .recreate

/-- What consumes a path is in the table. -/
theorem mem_consumers {rel : Text} {s : Service} {how : How} (h : consumer rel = some (s, how)) :
    ∃ entry ∈ consumers, entry.2 = (s, how) := by
  obtain ⟨entry, hfind, hentry⟩ := Option.map_eq_some_iff.mp h
  exact ⟨entry, List.mem_of_find?_eq_some hfind, hentry⟩

/-- All the inputs of a service reach it in one way. -/
theorem how_eq {rel : Text} {s : Service} {how : How} (h : consumer rel = some (s, how)) : how = howOf s := by
  obtain ⟨entry, hmem, hentry⟩ := mem_consumers h
  have hall : ∀ entry ∈ consumers, entry.2.2 = howOf entry.2.1 := by decide
  have hhow := hall entry hmem
  rwa [hentry] at hhow

/-- The SOCKS front has no input. -/
theorem consumer_ne_dnsttSocks {rel : Text} {how : How} : consumer rel ≠ some (.dnsttSocks, how) := by
  intro h
  obtain ⟨entry, hmem, hentry⟩ := mem_consumers h
  have hall : ∀ entry ∈ consumers, entry.2.1 ≠ .dnsttSocks := by decide
  exact hall entry hmem (congrArg Prod.fst hentry)

section Fresh

variable {s : Service} {live live' : Tree} {c : Container} {time id : Nat}

/-- Of a container that has never had another tree, everything it holds is of that tree. -/
theorem fresh_of_tree (henv : c.env = live) (hstarts : ∀ st ∈ c.starts, st.mounts = live) : Fresh s live c := by
  intro rel how b _ hholds
  cases how with
  | mount =>
    obtain ⟨st, hst, hb⟩ := hholds
    rw [← hb, hstarts st (List.mem_of_mem_head? hst)]
  | recreate =>
    rcases hholds with hb | ⟨st, hst, hb⟩
    · rw [← hb, henv]
    · rw [← hb, hstarts st hst]

/-- A container that was just created is fresh. -/
theorem fresh_new (started : Bool) : Fresh s live (Container.new id time live started) := by
  refine fresh_of_tree rfl fun st hst => ?_
  cases started with
  | true =>
    obtain rfl := List.mem_singleton.mp hst
    rfl
  | false => cases hst

/-- A start from the live tree. -/
theorem Fresh.start (h : Fresh s live c) : Fresh s live (c.start time live) := by
  intro rel how b hconsumer hholds
  cases how with
  | mount =>
    obtain ⟨st, hst, hb⟩ := hholds
    cases hst
    exact hb.symm
  | recreate =>
    rcases hholds with hb | ⟨st, hst, hb⟩
    · exact h rel .recreate b hconsumer (.inl hb)
    · rcases List.mem_cons.mp hst with rfl | hst
      · exact hb.symm
      · exact h rel .recreate b hconsumer (.inr ⟨st, hst, hb⟩)

theorem Fresh.running {running : Bool} (h : Fresh s live c) : Fresh s live { c with running } := h

/-- A container is fresh for a tree with the same inputs. -/
theorem Fresh.congr (h : Fresh s live c)
    (heq : ∀ rel how, consumer rel = some (s, how) → live.lookup rel = live'.lookup rel) : Fresh s live' c :=
  fun rel how b hconsumer hholds => (h rel how b hconsumer hholds).trans (heq rel how hconsumer)

theorem fresh_of_new (h : New live time c) : Fresh s live c := fresh_of_tree h.2.1 fun st hst => (h.2.2.2 st hst).2

/-- For what is only mounted, the last start counts. -/
theorem fresh_of_restarted (h : Restarted live time c) (hs : howOf s = .mount) : Fresh s live c := by
  intro rel how b hconsumer hholds
  obtain rfl : how = .mount := (how_eq hconsumer).trans hs
  obtain ⟨st, hst, hb⟩ := hholds
  obtain ⟨st', hst', -, hmounts⟩ := h
  obtain rfl := Option.some.inj (hst.symm.trans hst')
  rw [← hb, hmounts]

end Fresh

/-- The container of the service, if there is one, is fresh. -/
def FreshIn (live : Tree) (s : Service) (o : Option Container) : Prop := ∀ c, o = some c → Fresh s live c

/-- No command breaks it. -/
theorem freshIn_kept (live : Tree) (s : Service) : Kept live (FreshIn live s) where
  new id time started := by
    rintro c ⟨rfl⟩
    exact fresh_new started
  start c time h := by
    rintro c' ⟨rfl⟩
    exact (h c rfl).start
  running c running h := by
    rintro c' ⟨rfl⟩
    exact (h c rfl).running
  none := nofun

/-! ## The inputs of a rendered tree -/

/-- The tree has an input of the service. -/
def HasInput (tree : Tree) (s : Service) : Prop := ∃ rel how, consumer rel = some (s, how) ∧ tree.lookup rel ≠ none

/-- A service has an input of a tree exactly where it consumes one of its paths. -/
theorem hasInput_iff {tree : Tree} {s : Service} :
    HasInput tree s ↔ ∃ f ∈ tree, ∃ how, consumer f.1 = some (s, how) := by
  constructor
  · rintro ⟨rel, how, hconsumer, hne⟩
    by_contra hnone
    refine hne (lookup_eq_none_of_not_mem fun hmem => ?_)
    obtain ⟨f, hf, rfl⟩ := List.mem_map.mp hmem
    exact hnone ⟨f, hf, how, hconsumer⟩
  · rintro ⟨f, hf, how, hconsumer⟩
    refine ⟨f.1, how, hconsumer, fun hnone => ?_⟩
    have hne := List.lookup_eq_none_iff.mp hnone f hf
    simp at hne

/-- What a protocol renders is read by sing-box or by its own services, and each of these has something to read. -/
structure ReadBy (services : List Service) (files : Tree) : Prop where
  own : ∀ f ∈ files, ∃ s how, consumer f.1 = some (s, how) ∧ (s = .singBox ∨ s ∈ services)
  all : ∀ s ∈ services, s ≠ .dnsttSocks → ∃ f ∈ files, ∃ how, consumer f.1 = some (s, how)

/-- It depends on the names of the files only. -/
theorem readBy_of_names {services : List Service} {files : Tree} {names : List Text} (h : files.map (·.1) = names)
    (hown : ∀ rel ∈ names, ∃ s how, consumer rel = some (s, how) ∧ (s = .singBox ∨ s ∈ services))
    (hall : ∀ s ∈ services, s ≠ .dnsttSocks → ∃ rel ∈ names, ∃ how, consumer rel = some (s, how)) : ReadBy services files := by
  subst h
  refine ⟨fun f hf => hown f.1 (List.mem_map_of_mem hf), fun s hs hne => ?_⟩
  obtain ⟨rel, hrel, how, hconsumer⟩ := hall s hs hne
  obtain ⟨f, hf, rfl⟩ := List.mem_map.mp hrel
  exact ⟨f, hf, how, hconsumer⟩

/-- What a protocol renders is read by its services. -/
theorem render_readBy {py : CaseMap} {p : Protocol} (hp : p ∈ protocols py) {secrets : Secrets} {users : List User}
    {files : Tree} (h : p.render secrets users = .ok files) : ReadBy p.composeServices files := by
  simp only [protocols, List.mem_cons, List.not_mem_nil, or_false] at hp
  rcases hp with rfl | rfl | rfl | rfl
  · obtain ⟨key, shortId, rfl⟩ := VlessReality.render_eq_ok h
    exact readBy_of_names rfl (fun rel hrel => ⟨.singBox, .mount, by
      rw [List.mem_singleton.mp hrel]
      exact consumer_singBox "10_vless-reality.json".toList, .inl rfl⟩) nofun
  · obtain ⟨obfs, crt, key, rfl⟩ := Hysteria2.render_eq_ok h
    refine readBy_of_names rfl (fun rel hrel => ⟨.singBox, .mount, ?_, .inl rfl⟩) nofun
    simp only [List.map_cons, List.map_nil, List.mem_cons, List.not_mem_nil, or_false] at hrel
    rcases hrel with rfl | rfl | rfl
    · exact consumer_singBox "20_hysteria2.json".toList
    · exact consumer_singBox "certs/certificate.pem".toList
    · exact consumer_singBox "certs/private.key".toList
  · obtain ⟨-, psk, primaryUser, primaryPassword, -, -, -, rfl⟩ := Ikev2.render_eq_ok.mp h
    have hconsumer : consumer "ikev2.env".toList = some (.ikev2, .recreate) := by decide
    refine @readBy_of_names _ _ ["ikev2.env".toList] rfl (fun rel hrel => ⟨.ikev2, .recreate, ?_,
      .inr (List.mem_singleton.mpr rfl)⟩) fun s hs _ => ?_
    · rw [List.mem_singleton.mp hrel]
      exact hconsumer
    · obtain rfl := List.mem_singleton.mp hs
      exact ⟨_, List.mem_singleton.mpr rfl, .recreate, hconsumer⟩
  · have hservices : (Dnstt.protocol py).composeServices = [.dnstt, .dnsttSshd, .dnsttSocks] := rfl
    have hkey : consumer "dnstt/server.key".toList = some (.dnstt, .mount) := by decide
    have hlogins : consumer "dnstt-sshd/logins".toList = some (.dnsttSshd, .recreate) := by decide
    have henv : consumer "dnstt.env".toList = some (.dnsttSshd, .recreate) := by decide
    rw [hservices]
    refine readBy_of_names (Dnstt.render_names h) (fun rel hrel => ?_) fun s hs hne => ?_
    · simp only [List.mem_cons, List.not_mem_nil, or_false] at hrel
      rcases hrel with rfl | rfl | rfl
      · exact ⟨_, _, hkey, by decide⟩
      · exact ⟨_, _, hlogins, by decide⟩
      · exact ⟨_, _, henv, by decide⟩
    · cases s with
      | dnstt => exact ⟨_, by simp, _, hkey⟩
      | dnsttSshd => exact ⟨_, by simp, _, hlogins⟩
      | dnsttSocks => exact absurd rfl hne
      | singBox => simp at hs
      | ikev2 => simp at hs

section Tree

variable {py : CaseMap} {st : State} {secrets : Secrets} {common tree : Tree} {users : List User} {s : Service}

/-- A service with an input in the rendered tree is one of the expected. -/
theorem expected_of_hasInput (h : buildTree secrets common users (enabledProtocols py st) = .ok tree)
    (hs : HasInput tree s) : s ∈ expectedServices (enabledProtocols py st) := by
  obtain ⟨f, hf, how, hconsumer⟩ := hasInput_iff.mp hs
  obtain ⟨_, -, hadd⟩ := Except.bind_eq_ok.mp h
  obtain ⟨-, -, hfrom, -⟩ := addProtocols_eq_ok hadd
  rcases hfrom f hf with hcommon | ⟨p, hp, files, hfiles, hf⟩
  · obtain ⟨g, -, rfl⟩ := List.mem_map.mp hcommon
    have heq := (consumer_singBox g.1).symm.trans hconsumer
    cases heq
    exact List.mem_cons_self ..
  · obtain ⟨s', how', hconsumer', hs'⟩ := (render_readBy (mem_enabledProtocols py hp).1 hfiles).own f hf
    have heq := hconsumer'.symm.trans hconsumer
    cases heq
    rcases hs' with rfl | hs'
    · exact List.mem_cons_self ..
    · exact List.mem_cons_of_mem _ (List.mem_flatMap.mpr ⟨p, hp, hs'⟩)

/-- Every expected service but sing-box and the SOCKS front has an input in the rendered tree. -/
theorem hasInput_of_expected (h : buildTree secrets common users (enabledProtocols py st) = .ok tree)
    (hs : s ∈ expectedServices (enabledProtocols py st)) (hbox : s ≠ .singBox) (hsocks : s ≠ .dnsttSocks) : HasInput tree s := by
  obtain ⟨p, hp, hs⟩ := List.mem_flatMap.mp ((List.mem_cons.mp hs).resolve_left hbox)
  obtain ⟨_, -, hadd⟩ := Except.bind_eq_ok.mp h
  obtain ⟨hall, -⟩ := addProtocols_eq_ok hadd
  obtain ⟨files, hfiles, hmem⟩ := hall p hp
  obtain ⟨f, hf, how, hconsumer⟩ := (render_readBy (mem_enabledProtocols py hp).1 hfiles).all s hs hsocks
  exact hasInput_iff.mpr ⟨f, hmem f hf, how, hconsumer⟩

end Tree

end Composectl

end VpnStack

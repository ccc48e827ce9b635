import VpnStack.Ikev2Ctl
import VpnStack.Docker
import VpnStack.Lib.Script

/-!
# The server a command runs on

The files of the state directory, the containers and the certificates, and the calls a vpnctl command makes to read and to
change them. What the outside decides at a call is its `Choice`: whether a program it runs succeeds, what compose had to do
with each container, the names and the secrets that are made up, and whether the command is interrupted there, before the
call had its effect or after. A command that is killed is a run whose choices end.
-/

namespace VpnStack

open Python Interaction

/-! ## The world -/

/-- The name of a generation: the time it was made at and what `mkdtemp` put behind it. -/
abbrev Gen := Nat

/-- A directory of rendered files, with the tree it was made for. -/
structure Generation where
  tree : Tree
  files : Tree

/-- Every file it was made for is in it. -/
def Generation.Complete (g : Generation) : Prop := g.files = g.tree

/-- The files of a directory. No two have one name. -/
structure Dir where
  files : Tree
  nodup : (files.map (·.1)).Nodup

/-- One fragment of sing-box configuration, with nothing in it. -/
def Dir.fragment : Dir := ⟨[("log.json".toList, [0x7b, 0x7d])], by decide⟩

/-- How a change of a file reaches the service that reads it. -/
inductive How where
  | mount
  | recreate
  deriving DecidableEq, Repr

/-- Services to nudge, each with how. -/
abbrev Changed := Service → Option How

/-- What `reconcile_ikev2` reports. -/
structure Reconciled where
  added : List Text
  revoked : List Text
  failed : List Text

/-- What was the case at the end of a reconcile. -/
structure ReconcileNote where
  result : Reconciled
  users : List User
  certs : List Cert
  since : Text → Nat

/-- The server. `since` says of every name when its record was created, or last disabled; it is not on the disk, and neither
are `promoted`, which is a variable of `apply`, and `plans` and `reconciles`, which are what has been observed: what each
`apply` computed as `changed`, and what each reconcile left. -/
structure World where
  users : List User
  state : Option State
  keyring : String → Option Bytes
  zone : Text
  common : Dir
  gens : List (Gen × Generation)
  link : Option Gen
  tmpLink : Option Gen
  docker : Docker
  certs : List Cert
  clock : Nat
  since : Text → Nat
  promoted : Bool
  plans : List (Option Changed)
  reconciles : List ReconcileNote

namespace World

/-- The generation of that name. -/
def gen (w : World) (g : Gen) : Option Generation := w.gens.lookup g

/-- What `rendered` leads to: the files of the generation it points at. -/
def live (w : World) : Tree := ((w.link.bind w.gen).map (·.files)).getD []

/-- Change the generation of that name. -/
def setGen (w : World) (g : Gen) (f : Generation → Generation) : World :=
  { w with gens := w.gens.map fun e => if e.1 = g then (e.1, f e.2) else e }

/-- Remove the generation of that name. -/
def eraseGen (w : World) (g : Gen) : World := { w with gens := w.gens.filter fun e => e.1 ≠ g }

/-- The names that were given out: those of the generations, and the one the link points at. -/
def names (w : World) : List Gen := w.gens.map (·.1) ++ w.link.toList

/-- A name that was not given out: the one `mkdtemp` tried, or another. The time is in it, and a random part, so it is not the
name of a directory that is gone either. -/
def freshGen (w : World) (g : Gen) : Gen := if g ∈ w.names then w.names.foldr max 0 + 1 else g

/-- A change of one generation is none of another. -/
theorem gen_setGen (w : World) (g h : Gen) (f : Generation → Generation) :
    (w.setGen g f).gen h = if h = g then (w.gen h).map f else w.gen h := by
  unfold setGen gen
  induction w.gens with
  | nil => simp
  | cons e gens ih =>
    obtain ⟨k, x⟩ := e
    by_cases hk : h = k
    · subst hk
      by_cases hg : h = g <;> simp [hg]
    · have hne : (h == k) = false := beq_false_of_ne hk
      have hskip : ∀ (y : Generation) (l : List (Gen × Generation)), List.lookup h ((k, y) :: l) = List.lookup h l :=
        fun y l => by rw [List.lookup_cons, hne]
      by_cases hg : k = g
      · subst hg
        simpa [hskip] using ih
      · simpa [hg, hskip] using ih

/-- A generation that is erased is not there, and the others are. -/
theorem gen_eraseGen (w : World) (g h : Gen) : (w.eraseGen g).gen h = if h = g then none else w.gen h := by
  unfold eraseGen gen
  induction w.gens with
  | nil => simp
  | cons e gens ih =>
    obtain ⟨k, x⟩ := e
    by_cases hg : k = g
    · subst hg
      by_cases hk : h = k
      · simpa [hk] using ih
      · have hne : (h == k) = false := beq_false_of_ne hk
        simpa [List.lookup_cons, hne, hk] using ih
    · by_cases hk : h = k
      · subst hk
        simp [hg]
      · have hne : (h == k) = false := beq_false_of_ne hk
        simp only [ne_eq, hg, not_false_eq_true, decide_true, List.filter_cons_of_pos, List.lookup_cons, hne] at ih ⊢
        exact ih

/-- The name is one nobody has. -/
theorem freshGen_not_mem_names (w : World) (g : Gen) : w.freshGen g ∉ w.names := by
  have hmax : ∀ l : List Gen, ∀ x ∈ l, x ≤ l.foldr max 0 := by
    intro l
    induction l with
    | nil => exact fun x hx => (List.not_mem_nil hx).elim
    | cons a l ih =>
      intro x hx
      rw [List.foldr_cons]
      rcases List.mem_cons.mp hx with rfl | hx
      · exact Nat.le_max_left ..
      · exact Nat.le_trans (ih x hx) (Nat.le_max_right ..)
  unfold freshGen
  split
  · intro hmem
    exact Nat.not_succ_le_self _ (hmax _ _ hmem)
  · assumption

/-- A fresh generation has a name that none has. -/
theorem freshGen_not_mem (w : World) (g : Gen) : w.freshGen g ∉ w.gens.map (·.1) :=
  fun h => w.freshGen_not_mem_names g (List.mem_append_left _ h)

theorem link_ne_freshGen (w : World) (g : Gen) : w.link ≠ some (w.freshGen g) := fun h =>
  w.freshGen_not_mem_names g (List.mem_append_right _ (by simp [h]))

/-- A generation that is not on the disk is not found. -/
theorem gen_eq_none {w : World} {g : Gen} (h : g ∉ w.gens.map (·.1)) : w.gen g = none := by
  rw [gen, List.lookup_eq_none_iff]
  intro e he
  have hne : g ≠ e.1 := fun heq => h (heq ▸ List.mem_map_of_mem he)
  simpa using hne

/-- A new directory is there, and nothing else has changed. -/
theorem gen_append (w : World) (g h : Gen) (x : Generation) (hg : g ∉ w.gens.map (·.1)) :
    (w.gens ++ [(g, x)]).lookup h = if h = g then some x else w.gen h := by
  rw [List.lookup_append]
  by_cases hh : h = g
  · subst hh
    have hnone : List.lookup h w.gens = none := gen_eq_none hg
    rw [hnone, if_pos rfl]
    simp
  · have hne : (h == g) = false := beq_false_of_ne hh
    rw [if_neg hh]
    simp [gen, List.lookup_cons, hne]

end World

/-! ## Choices -/

/-- The secrets of a new user, as `uuid4`, `token_hex` and `token_urlsafe` make them: words of letters, digits and dashes. -/
structure Minted where
  vlessUuid : Text
  hysteria2Password : Text
  l2tpPassword : Text
  dnsttPassword : Text
  createdAt : Text
  words : ∀ t ∈ [vlessUuid, hysteria2Password, l2tpPassword, dnsttPassword],
    t ≠ [] ∧ ∀ c ∈ t, Users.isNameChar c = true

instance : Inhabited Minted := ⟨⟨"1b4e-28ba", "8f0c", "a1d2", "Zx9y", "2026-01-01T00:00:00Z", by decide⟩⟩

structure Choice where
  fault : Fault Exc := .none
  ok : Bool := true
  touch : Service → Touch := fun _ => .keep
  gen : Gen := 0
  keep : Text → Bool := fun _ => false
  minted : Minted := default
  produced : List (String × Bytes) := []

/-! ## Calls -/

inductive Op where
  | requireServer
  | ensureEnvLink
  | loadState
  | saveState (st : State)
  | loadUsers
  | saveUsers (users : List User)
  | loadSecrets
  | dnsttZone
  | prepare (protocol : String)
  | writeSecret (name : String) (content : Bytes)
  | readCommon
  | mint
  | mkdtemp (tree : Tree)
  | writeFile (g : Gen) (rel : Text) (content : Bytes)
  | checkConfig (g : Gen)
  | resolveLink
  | readLink
  | symlinkTmp (g : Gen)
  | replaceLink
  | setPromoted (b : Bool)
  | getPromoted
  | rmtreeIgnoringErrors (g : Gen)
  | rmtree (g : Gen)
  | treeFiles (g : Gen)
  | glob
  | containerIds
  | composeUp (services : List Service)
  | composeForceRecreate (service : Service)
  | composeRestart (service : Service)
  | composeRm (services : List Service)
  | runningServices
  | waitReady (ports : List Port)
  | firewall (ports : List Port)
  | forwarding (present : Bool)
  | ikev2Running
  | listClients
  | addClient (name : Text)
  | revokeClient (name : Text)
  | deleteClient (name : Text)
  | notePlan (changed : Option Changed)
  | noteReconcile (result : Reconciled)

/-- The answer to a call. -/
@[reducible] def Ans : Op → Type
  | .loadState => State
  | .loadUsers => List User
  | .loadSecrets => Secrets
  | .dnsttZone => Text
  | .prepare _ => List (String × Bytes)
  | .readCommon => Tree
  | .mint => Minted
  | .mkdtemp _ => Gen
  | .checkConfig _ => Bool
  | .resolveLink => Option Gen
  | .readLink => Option Gen
  | .getPromoted => Bool
  | .treeFiles _ => Option Tree
  | .glob => List Gen
  | .containerIds => Option (Service → Option Nat)
  | .composeUp _ => Bool
  | .composeForceRecreate _ => Bool
  | .composeRestart _ => Bool
  | .composeRm _ => Bool
  | .runningServices => Option (List Service)
  | .waitReady _ => Bool
  | .firewall _ => Bool
  | .forwarding _ => Bool
  | .ikev2Running => Bool
  | .listClients => Bool × Text
  | .addClient _ => Bool
  | .revokeClient _ => Bool
  | .deleteClient _ => Bool
  | _ => Unit

/-- What is outside: case folding, and the text of a listing. -/
structure Host where
  py : CaseMap
  listing : Ikev2Ctl.Listing

/-- A host whose case folding knows ASCII only. -/
def Host.sample : Host := ⟨.ascii, .sample⟩

/-- A daemon without a container. -/
def Docker.empty : Docker := ⟨fun _ => none, 0, 0, [], fun _ _ h => nomatch h⟩

/-- A server that has just been provisioned, with its keyring, its settings and its checkout. -/
def World.provisioned (keyring : String → Option Bytes) (zone : Text) (common : Dir) : World where
  users := []
  state := none
  keyring := keyring
  zone := zone
  common := common
  gens := []
  link := none
  tmpLink := none
  docker := .empty
  certs := []
  clock := 0
  since := fun _ => 0
  promoted := false
  plans := []
  reconciles := []

/-- The services of compose.yml, in the order of their names. -/
def Service.all : List Service := [.dnstt, .dnsttSocks, .dnsttSshd, .ikev2, .singBox]

/-- What `since` becomes when the database is written: the moment of the write for every name that is new in it, or that
it disables. -/
def sinceOf (before after : List User) (since : Text → Nat) (now : Nat) : Text → Nat := fun name =>
  if after.any (fun u => u.name == name && (!u.enabled || !before.any fun b => b.name == name)) ∧
      ¬ before.any (fun b => b.name == name && !b.enabled) then now
  else since name

/-- Take a tree from the disk, whole or in part. -/
def removeTree (w : World) (g : Gen) (c : Choice) : World :=
  if c.ok then w.eraseGen g else w.setGen g fun gen => { gen with files := gen.files.filter fun f => c.keep f.1 }

/-- Removing a tree leaves the others. -/
theorem removeTree_other {w : World} {g h : Gen} {c : Choice} (hne : h ≠ g) : (removeTree w g c).gen h = w.gen h := by
  unfold removeTree
  split
  · rw [World.gen_eraseGen, if_neg hne]
  · rw [World.gen_setGen, if_neg hne]

/-- The removal of a tree takes it away, or only some of its files. -/
theorem removeTree_self {w : World} {g : Gen} {c : Choice} : (removeTree w g c).gen g =
    if c.ok then none else (w.gen g).map fun x => { x with files := x.files.filter fun f => c.keep f.1 } := by
  unfold removeTree
  split
  · rw [World.gen_eraseGen, if_pos rfl]
  · rw [World.gen_setGen, if_pos rfl]

/-- The removal of a tree leaves the link. -/
theorem removeTree_link {w : World} {g : Gen} {c : Choice} : (removeTree w g c).link = w.link := by
  unfold removeTree
  split <;> rfl

variable (host : Host)

/-- What a call answers, and what it does, when it is not interrupted. -/
def exec : (o : Op) → Choice → World → Ans o × World
  | .requireServer, _, w => ((), w)
  | .ensureEnvLink, _, w => ((), w)
  | .loadState, _, w => (w.state.getD (State.default host.py), w)
  | .saveState st, _, w => ((), { w with state := some st })
  | .loadUsers, _, w => (w.users, w)
  | .saveUsers users, _, w =>
    ((), { w with users, clock := w.clock + 1, since := sinceOf w.users users w.since (w.clock + 1) })
  | .loadSecrets, _, w => (⟨w.keyring⟩, w)
  | .dnsttZone, _, w => (w.zone, w)
  | .prepare _, c, w => (c.produced, w)
  | .writeSecret name content, _, w => ((), { w with keyring := Function.update w.keyring name (some content) })
  | .readCommon, _, w => (w.common.files, w)
  | .mint, c, w => (c.minted, w)
  | .mkdtemp tree, c, w => (w.freshGen c.gen, { w with gens := w.gens ++ [(w.freshGen c.gen, ⟨tree, []⟩)] })
  | .writeFile g rel content, _, w => ((), w.setGen g fun gen => { gen with files := gen.files ++ [(rel, content)] })
  | .checkConfig _, c, w => (c.ok, w)
  | .resolveLink, _, w => (w.link.filter fun g => (w.gen g).isSome, w)
  | .readLink, _, w => (w.link, w)
  | .symlinkTmp g, _, w => ((), { w with tmpLink := some g })
  | .replaceLink, _, w => ((), { w with link := w.tmpLink, tmpLink := none })
  | .setPromoted b, _, w => ((), { w with promoted := b })
  | .getPromoted, _, w => (w.promoted, w)
  | .rmtreeIgnoringErrors g, c, w => ((), removeTree w g c)
  | .rmtree g, c, w => ((), removeTree w g c)
  | .treeFiles g, _, w => ((w.gen g).map (·.files), w)
  | .glob, _, w => (w.gens.map (·.1), w)
  | .containerIds, c, w => (if c.ok then some fun s => (w.docker.containers s).map (·.id) else none, w)
  | .composeUp services, c, w => (c.ok, { w with docker := w.docker.up w.live c.ok c.touch services })
  | .composeForceRecreate s, c, w => (c.ok, { w with docker := w.docker.forceRecreate w.live c.ok c.touch s })
  | .composeRestart s, c, w => (c.ok, { w with docker := w.docker.restart w.live c.ok c.touch s })
  | .composeRm services, c, w => (c.ok, { w with docker := w.docker.rm c.ok c.touch services })
  | .runningServices, c, w =>
    (if c.ok then some (Service.all.filter fun s => ((w.docker.containers s).map (·.running)).getD false) else none, w)
  | .waitReady _, c, w => (c.ok, w)
  | .firewall _, c, w => (c.ok, w)
  | .forwarding _, c, w => (c.ok, w)
  | .ikev2Running, c, w => (c.ok, w)
  | .listClients, c, w => (if c.ok then (true, host.listing.text (Ikev2Ctl.rows w.certs)) else (false, []), w)
  | .addClient name, c, w =>
    ((Ikev2Ctl.addClient w.certs (w.clock + 1) name c.ok).1,
      { w with certs := (Ikev2Ctl.addClient w.certs (w.clock + 1) name c.ok).2, clock := w.clock + 1 })
  | .revokeClient name, c, w =>
    ((Ikev2Ctl.revokeClient w.certs name c.ok).1, { w with certs := (Ikev2Ctl.revokeClient w.certs name c.ok).2 })
  | .deleteClient name, c, w =>
    ((Ikev2Ctl.deleteClient w.certs name c.ok).1, { w with certs := (Ikev2Ctl.deleteClient w.certs name c.ok).2 })
  | .notePlan changed, _, w => ((), { w with plans := w.plans ++ [changed] })
  | .noteReconcile result, _, w => ((), { w with reconciles := w.reconciles ++ [⟨result, w.users, w.certs, w.since⟩] })

/-- The server as a machine. -/
def server : ScriptMachine Exc Op Ans World Choice := withFaults (exec host) Choice.fault

/-- A command, or a part of one. -/
abbrev Cmd (α : Type) := Script Exc Op Ans α

/-- One call. -/
abbrev call (o : Op) : Cmd (Ans o) := Script.op o

end VpnStack

import VpnStack.Protocols.VlessReality
import VpnStack.Protocols.Hysteria2
import VpnStack.Protocols.Ikev2
import VpnStack.Protocols.Dnstt

/-!
# The registry, the state file and the rendered tree

`protocols/__init__.py` lists the protocols and checks that no two of an enabled set claim one port; `state.py` says which
of them are on, and what a later command still has to undo or to finish; `render.build_tree` puts what they render into one
tree.
-/

namespace VpnStack

open Python

/-! ## `state.json` -/

/-- What this server runs, and the intents that must outlive the command that formed them. -/
structure State where
  enabled : List String
  revokePending : List Text
  lastApplied : List String
  convergePending : Bool
  deriving DecidableEq, Repr

section Registry

variable (py : CaseMap)

/-- `PROTOCOLS`. -/
def protocols : List Protocol := [VlessReality.protocol, Hysteria2.protocol, Ikev2.protocol, Dnstt.protocol py]

/-- `ordered(names)`, by the `order` of each. -/
def ordered (chosen : List Protocol) : List Protocol := chosen.insertionSort fun p q => p.order ≤ q.order

/-- The state of a server that has none: the protocols that are on by default. -/
def State.default : State :=
  ⟨((ordered (protocols py)).filter (·.defaultEnabled)).map (·.name), [], [], false⟩

/-- `state.enabled_protocols`: a name the registry does not know is passed over. -/
def enabledProtocols (st : State) : List Protocol :=
  ordered (st.enabled.filterMap fun name => (protocols py).find? fun p => p.name == name)

/-- A protocol that is enabled is one of the registry, and is on. -/
theorem mem_enabledProtocols {st : State} {p : Protocol} (h : p ∈ enabledProtocols py st) :
    p ∈ protocols py ∧ p.name ∈ st.enabled := by
  obtain ⟨name, hname, hfind⟩ := List.mem_filterMap.mp ((List.mem_insertionSort _).mp h)
  have hp : p.name = name := by simpa using List.find?_some hfind
  exact ⟨List.mem_of_find?_eq_some hfind, hp ▸ hname⟩

end Registry

/-! ## Rendering -/

/-- `str(port)`. -/
def Port.text (p : Port) : String := toString p.number ++ (match p.proto with | .tcp => "/tcp" | .udp => "/udp")

/-- The loop of `assert_ports_disjoint`: who claims a port, and who has claimed one before. -/
def assertPorts : List (String × Port) → List (String × Port) → Except Exc Unit
  | [], _ => .ok ()
  | (name, port) :: rest, seen =>
    match seen.find? (fun claim => claim.2 == port) with
    | some (other, _) => .error (.renderError ["port conflict: ", name, " and ", other, " both claim ", port.text])
    | none => assertPorts rest (seen ++ [(name, port)])

/-- No two protocols claim one port. -/
def assertPortsDisjoint (enabled : List Protocol) : Except Exc Unit :=
  assertPorts (enabled.flatMap fun p => p.ports.map fun port => (p.name, port)) []

/-- What one protocol rendered goes into the tree, and over nothing. -/
def addFiles (name : String) : Tree → Tree → Except Exc Tree
  | tree, [] => .ok tree
  | tree, (rel, content) :: rest =>
    if rel ∈ tree.map (·.1) then .error (.renderError [name, " would overwrite ", .str rel, ", already written"])
    else addFiles name (tree ++ [(rel, content)]) rest

/-- The tracked fragments of the sing-box config, under their paths in the tree. -/
def commonFiles (common : Tree) : Tree := common.map fun f => ("sing-box/" ++ f.1, f.2)

/-- Every protocol's files behind what is there already. -/
def addProtocols (secrets : Secrets) (users : List User) : Tree → List Protocol → Except Exc Tree
  | tree, [] => .ok tree
  | tree, proto :: rest => do
    let files ← proto.render secrets users
    let tree ← addFiles proto.name tree files
    addProtocols secrets users tree rest

/-- `build_tree`: the fragments in git, then what each protocol renders. -/
def buildTree (secrets : Secrets) (common : Tree) (users : List User) (enabled : List Protocol) : Except Exc Tree := do
  assertPortsDisjoint enabled
  addProtocols secrets users (commonFiles common) enabled

/-- The files of a protocol are put behind the others, under names that are new. -/
theorem addFiles_eq_ok {name : String} {tree files result : Tree} :
    addFiles name tree files = .ok result →
      result = tree ++ files ∧ ((tree.map (·.1)).Nodup → (result.map (·.1)).Nodup) := by
  induction files generalizing tree with
  | nil =>
    intro h
    cases h
    exact ⟨(List.append_nil _).symm, id⟩
  | cons f files ih =>
    obtain ⟨rel, content⟩ := f
    intro h
    rw [addFiles] at h
    split_ifs at h with hmem
    obtain ⟨rfl, hnodup⟩ := ih h
    refine ⟨by rw [List.append_assoc, List.singleton_append], fun htree => hnodup ?_⟩
    rw [List.map_append, List.nodup_append]
    refine ⟨htree, List.nodup_singleton _, fun a ha b hb => ?_⟩
    rintro rfl
    obtain rfl := List.mem_singleton.mp hb
    exact hmem ha

/-- The files of a tree are the ones that were there, and what each protocol rendered. -/
theorem addProtocols_eq_ok {secrets : Secrets} {users : List User} {tree result : Tree} {enabled : List Protocol}
    (h : addProtocols secrets users tree enabled = .ok result) :
    (∀ p ∈ enabled, ∃ files, p.render secrets users = .ok files ∧ ∀ f ∈ files, f ∈ result) ∧
      (∀ f ∈ tree, f ∈ result) ∧
      (∀ f ∈ result, f ∈ tree ∨ ∃ p ∈ enabled, ∃ files, p.render secrets users = .ok files ∧ f ∈ files) ∧
      ((tree.map (·.1)).Nodup → (result.map (·.1)).Nodup) := by
  induction enabled generalizing tree with
  | nil =>
    cases h
    exact ⟨fun p hp => (List.not_mem_nil hp).elim, fun f hf => hf, fun f hf => .inl hf, id⟩
  | cons p enabled ih =>
    obtain ⟨files, hfiles, h⟩ := Except.bind_eq_ok.mp h
    obtain ⟨tree', htree', h⟩ := Except.bind_eq_ok.mp h
    obtain ⟨rfl, hnodup⟩ := addFiles_eq_ok htree'
    obtain ⟨hall, hkept, hfrom, hnodup'⟩ := ih h
    refine ⟨?_, fun f hf => hkept f (List.mem_append_left _ hf), fun f hf => ?_, fun ht => hnodup' (hnodup ht)⟩
    · intro q hq
      rcases List.mem_cons.mp hq with rfl | hq
      · exact ⟨files, hfiles, fun f hf => hkept f (List.mem_append_right _ hf)⟩
      · exact hall q hq
    · rcases hfrom f hf with hf | ⟨q, hq, fs, hfs, hf⟩
      · rcases List.mem_append.mp hf with hf | hf
        · exact .inl hf
        · exact .inr ⟨p, List.mem_cons_self .., files, hfiles, hf⟩
      · exact .inr ⟨q, List.mem_cons_of_mem _ hq, fs, hfs, hf⟩

end VpnStack

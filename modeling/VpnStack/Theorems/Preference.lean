import VpnStack.Export
import VpnStack.Control.Models
import VpnStack.Theorems.Receipts
import VpnStack.Theorems.ShareLinks
import VpnStack.Theorems.Toggle

/-!
# Which protocol a client tries first

The app takes the first importable link of a share bundle, in the order the server sent. That is the order of state.json, which is
the registry's by default; but `protocol on` writes the names sorted as text, and then Hysteria2 stands in front of VLESS and
REALITY.
-/

namespace VpnStack

open Python Interaction Export
open Control (JsonMap Decoded rejectUnknown rejectUnknown_ok readString readString_of_lookup readBase64_of_lookup readList_of_lookup
  readObject_of_lookup readStringList_of_lookup ofTexts)

namespace Preference

/-! ## What is claimed -/

/-- The names of the registry, in its order. -/
def registry (py : CaseMap) : List String := (ordered (protocols py)).map (·.name)

/-- The app reads what the command printed when it exited 0. -/
def received (e : Exported) : Except Control.VpnctlError Control.ShareBundle := do
  let body ← Control.run 0 e.stdout true
  Control.parse body Control.ShareBundle.fromJson

/-- The app chooses VLESS and REALITY if it can import one link of that and one of Hysteria2. -/
def Chooses (bundle : Control.ShareBundle) : Prop :=
  ∀ (cases : Dart.CaseMap) (trust : ShareUri.Hysteria2Trust) (tag : Text),
    (∃ u ∈ bundle.importUris, ∃ out, ShareUri.parseShareUri cases u trust tag = .ok (.vless out)) →
    (∃ u ∈ bundle.importUris, ∃ out, ShareUri.parseShareUri cases u trust tag = .ok (.hysteria2 out)) →
    ∃ out, ShareUri.selectOutbound cases bundle.importUris trust tag = .ok (.vless out)

/-- What is claimed of an export. -/
structure Preferred (py : CaseMap) (e : Exported) : Prop where
  order : (e.protocols.map (·.1)).Sublist (registry py)
  bundle : ∃ bundle, received e = .ok bundle ∧ Chooses bundle

/-! ## One item -/

/-- The app reads the item, wherever it stands, and finds this link in it. -/
def Reads (json : JsonMap) (uri : Option Text) : Prop :=
  ∃ item, (∀ location, Control.ShareItem.fromJson json location = .ok item) ∧ item.uri? = uri

/-- The link of an item. -/
def linkOf (item : ShareItem) : Option Text := item.uri.filter fun u => u ≠ []

theorem readRow_ofTexts (path setting value : Text) : Control.readRow path (ofTexts [setting, value]) = .ok (setting, value) := rfl

/-- The rows of settings are read as they are written. -/
theorem readRows (fields : List (Text × Text)) (path : Text) :
    ((fields.map fun field => ofTexts [field.1, field.2]).zipIdx.mapM fun row =>
      Control.readRow (Control.itemPath path row.2) row.1) = (.ok fields : Decoded _) := by
  have hrows : ∀ (fields : List (Text × Text)) (n : Nat), (((fields.map fun field => ofTexts [field.1, field.2]).zipIdx n).mapM
      fun row => Control.readRow (Control.itemPath path row.2) row.1) = (.ok fields : Decoded _) := by
    intro fields
    induction fields with
    | nil => exact fun _ => rfl
    | cons f fields ih =>
      intro n
      rw [List.map_cons, List.zipIdx_cons, List.mapM_cons, ih, readRow_ofTexts]
      rfl
  exact hrows fields 0

/-- An item with a link is read as it is written, its image decoded. -/
theorem readUri_ok (label uri : Text) (png : Bytes) (location : Text) :
    Control.ShareItem.fromJson [("label".toList, .str label), ("uri".toList, .str uri),
      ("png_b64".toList, .str (Base64.encode png))] location = .ok (.uri label uri (some png)) := by
  change Control.ShareItem.readUri _ location = _
  have hpng : Control.readPng [("label".toList, .str label), ("uri".toList, .str uri),
      ("png_b64".toList, .str (Base64.encode png))] location = .ok (some png) := by
    change some <$> Control.readBase64 _ _ _ = _
    rw [readBase64_of_lookup rfl]
    rfl
  rw [Control.ShareItem.readUri, rejectUnknown_ok (by simp), readString_of_lookup rfl, readString_of_lookup rfl, hpng]
  rfl

/-- An item with settings is read as it is written. -/
theorem readFields_ok (label : Text) (fields : List (Text × Text)) (location : Text) :
    Control.ShareItem.fromJson [("label".toList, .str label),
      ("fields".toList, .arr (fields.map fun field => ofTexts [field.1, field.2]))] location = .ok (.fields label fields) := by
  change Control.ShareItem.readFields _ location = _
  rw [Control.ShareItem.readFields, rejectUnknown_ok (by simp), readList_of_lookup rfl, Except.ok_bind, Except.ok_bind, readRows,
    readString_of_lookup rfl]
  rfl

/-- A file, with its name in front of its label or behind it. -/
theorem readFile_ok {json : JsonMap} {label filename : Text} {content : Bytes} 
    (hkeys : json.map (·.1) = (["filename", "label", "b64"] : List Text)) (hlabel : json.lookup "label".toList = some (.str label))
    (hfilename : json.lookup "filename".toList = some (.str filename))
    (hcontent : json.lookup "b64".toList = some (.str (Base64.encode content))) (location : Text) :
    Control.ShareItem.fromJson json location = .ok (.file label filename content) := by
  have hknown : ∀ member ∈ json, member.1 ∈ (["label", "filename", "b64"] : List Text) := by
    intro member hmember
    have hmem : member.1 ∈ (["filename", "label", "b64"] : List Text) := hkeys ▸ List.mem_map_of_mem hmember
    revert hmem
    generalize member.1 = key
    intro hmem
    simp only [List.mem_cons, List.not_mem_nil, or_false] at hmem ⊢
    tauto
  unfold Control.ShareItem.fromJson
  rw [hkeys]
  change Control.ShareItem.readFile json location = _
  rw [Control.ShareItem.readFile, rejectUnknown_ok hknown, readString_of_lookup hlabel, readString_of_lookup hfilename,
    readBase64_of_lookup hcontent]
  rfl

/-- What is printed for an item is read as the item. -/
theorem itemJson_reads {edge : Edge} {name : String} {item : ShareItem} {json : JsonMap} (h : itemJson edge name item = .ok json) :
    Reads json (linkOf item) := by
  unfold itemJson at h
  unfold linkOf
  split at h
  · rename_i c cs huri
    obtain rfl := Except.ok.inj h
    exact ⟨_, readUri_ok item.label.toList (c :: cs) (edge.pngBytes (c :: cs)), by rw [huri]; rfl⟩
  · rename_i f fs hfields hno
    obtain rfl := Except.ok.inj h
    refine ⟨_, readFields_ok item.label.toList (f :: fs), ?_⟩
    cases huri : item.uri with
    | none => rfl
    | some u =>
      cases u with
      | nil => rfl
      | cons c cs => exact absurd huri (hno c cs)
  · rename_i c cs hfields hfile hno
    obtain rfl := Except.ok.inj h
    refine ⟨_, @readFile_ok _ item.label.toList (c :: cs) (item.content.getD []) rfl rfl rfl rfl, ?_⟩
    cases huri : item.uri with
    | none => rfl
    | some u =>
      cases u with
      | nil => rfl
      | cons c cs => exact absurd huri (hno c cs)
  · cases h

/-- The items that are emitted are read, each with its link. -/
theorem itemsJson_read {edge : Edge} {name : String} {items : List ShareItem} {emitted : List JsonMap}
    (h : items.mapM (itemJson edge name) = .ok emitted) : List.Forall₂ Reads emitted (items.map linkOf) := by
  induction items generalizing emitted with
  | nil =>
    obtain rfl := Except.ok.inj h
    exact .nil
  | cons item items ih =>
    rw [List.mapM_cons] at h
    obtain ⟨json, hjson, h⟩ := Except.bind_eq_ok.mp h
    obtain ⟨rest, hrest, h⟩ := Except.bind_eq_ok.mp h
    obtain rfl := Except.ok.inj h
    exact .cons (itemJson_reads hjson) (ih hrest)

/-- What is printed for a bundle of the container is a file. -/
theorem bundleJson_reads (bundle : Text × Bytes) : Reads (bundleJson bundle) none :=
  ⟨_, @readFile_ok _ (Ikev2Ctl.bundleLabel bundle.1).toList bundle.1 bundle.2 rfl rfl rfl rfl, rfl⟩

/-! ## The bundle -/

/-- The app reads the items of one protocol. -/
theorem readItems_ok {items : List JsonMap} {uris : List (Option Text)} (h : List.Forall₂ Reads items uris) :
    ∃ read, (∀ path, Control.readItems path (.arr (items.map .obj)) = .ok read) ∧
      read.filterMap Control.ShareItem.uri? = uris.filterMap id := by
  have hitems : ∃ read, (∀ path n, (((items.map Json.obj).zipIdx n).mapM fun item => do
      let json ← Control.asObject item.1 (Control.itemPath path item.2)
      Control.ShareItem.fromJson json (Control.itemPath path item.2)) = (.ok read : Decoded _)) ∧
      read.filterMap Control.ShareItem.uri? = uris.filterMap id := by
    induction h with
    | nil => exact ⟨[], fun _ _ => rfl, rfl⟩
    | @cons json uri items uris hjson _ ih =>
      obtain ⟨item, hitem, huri⟩ := hjson
      obtain ⟨read, hread, huris⟩ := ih
      refine ⟨item :: read, fun path n => ?_, ?_⟩
      · rw [List.map_cons, List.zipIdx_cons, List.mapM_cons, hread]
        change (do
          let x ← Control.ShareItem.fromJson json (Control.itemPath path n)
          let xs ← (.ok read : Decoded _)
          pure (x :: xs)) = _
        rw [hitem]
        rfl
      · rw [List.filterMap_cons, List.filterMap_cons, huri, huris]
        rfl
  obtain ⟨read, hread, huris⟩ := hitems
  exact ⟨read, fun path => hread path 0, huris⟩

/-- Every item can be read, and the links of each protocol are these. -/
def Legible (links : String → List Text) (protocols : List (String × List JsonMap)) : Prop :=
  ∀ entry ∈ protocols, ∃ uris, List.Forall₂ Reads entry.2 uris ∧ uris.filterMap id = links entry.1

/-- A bundle whose items can be read is read, with the links of each protocol. -/
theorem readProtocols_ok {links : String → List Text} {protocols : List (String × List JsonMap)} (h : Legible links protocols) :
    ∃ byProtocol, ((protocols.map fun entry => (entry.1.toList, Json.arr (entry.2.map .obj))).mapM fun member => do
        let items ← Control.readItems (Control.jsonPath "protocols" member.1) member.2
        return (member.1, items)) = (.ok byProtocol : Decoded _) ∧
      byProtocol.flatMap (fun entry => entry.2.filterMap Control.ShareItem.uri?) = protocols.flatMap fun entry => links entry.1 := by
  induction protocols with
  | nil => exact ⟨[], rfl, rfl⟩
  | cons entry protocols ih =>
    obtain ⟨uris, hreads, hlinks⟩ := h entry (List.mem_cons_self ..)
    obtain ⟨byProtocol, hread, hrest⟩ := ih fun e he => h e (List.mem_cons_of_mem _ he)
    obtain ⟨items, hitems, huris⟩ := readItems_ok hreads
    refine ⟨(entry.1.toList, items) :: byProtocol, ?_, ?_⟩
    · rw [List.map_cons, List.mapM_cons, hread, hitems]
      rfl
    · rw [List.flatMap_cons, List.flatMap_cons, hrest, huris, hlinks]

/-- The app reads a legible export, and its links are those of the protocols, one after the other. -/
theorem received_ok {links : String → List Text} {e : Exported} (h : Legible links e.protocols) :
    ∃ bundle, received e = .ok bundle ∧ bundle.importUris = e.protocols.flatMap fun entry => links entry.1 := by
  obtain ⟨byProtocol, hread, hlinks⟩ := readProtocols_ok h
  refine ⟨⟨e.user, e.host, byProtocol, e.failed.map String.toList⟩, ?_, hlinks⟩
  have hkeys : e.data.map (·.1) = (["user", "host", "protocols", "failed"] : List Text) := rfl
  have hrun : Control.run 0 e.stdout true = .ok e.data := by
    refine Receipts.run_emit (.inr rfl) fun key hkey => ?_
    rw [hkeys] at hkey
    revert key
    decide
  have hknown : ∀ member ∈ e.data, member.1 ∈ (["user", "host", "protocols", "failed"] : List Text) := fun member hmember =>
    hkeys ▸ List.mem_map_of_mem (f := (·.1)) hmember
  have hjson : Control.ShareBundle.fromJson e.data = .ok ⟨e.user, e.host, byProtocol, e.failed.map String.toList⟩ := by
    unfold Control.ShareBundle.fromJson
    rw [rejectUnknown_ok hknown, readObject_of_lookup rfl, Except.ok_bind, Except.ok_bind, hread,
      readString_of_lookup (t := e.user) rfl, readString_of_lookup (t := e.host) rfl, readStringList_of_lookup rfl]
    rfl
  rw [received, hrun, Except.ok_bind, Control.parse, hjson]

/-! ## The loop over the protocols -/

/-- A protocol is found under its name. -/
theorem getProtocol_mem {py : CaseMap} {name : String} {proto : Protocol} (h : getProtocol py name = .ok proto) :
    proto ∈ protocols py ∧ proto.name = name := by
  unfold getProtocol at h
  split at h
  · rename_i p hfind
    obtain rfl := Except.ok.inj h
    exact ⟨List.mem_of_find?_eq_some hfind, by simpa using List.find?_some hfind⟩
  · cases h

section Loop

variable {py : CaseMap} {edge : Edge} {secrets : Secrets} {user : User} {host : Text}

/-- The links of what a protocol shares. -/
def shared (secrets : Secrets) (user : User) (host : Text)
    (share : Secrets → User → Text → Except Exc (List ShareItem)) : List Text :=
  match share secrets user host with
  | .ok items => items.filterMap linkOf
  | .error _ => []

/-- The links of a protocol. -/
def links (py : CaseMap) (edge : Edge) (secrets : Secrets) (user : User) (host : Text) (name : String) : List Text :=
  match getProtocol py name with
  | .ok proto => ((sharing edge proto).map (shared secrets user host)).getD []
  | .error _ => []

/-- What one turn adds to the payload: nothing, or the protocol's own entry. -/
theorem collect_ok {c c' : Collected} {name : String} (hnew : name ∉ c.payload.map (·.1))
    (h : collect edge secrets user host c name py = .ok c') :
    c'.payload = c.payload ∨ ∃ items uris, c'.payload = c.payload ++ [(name, items)] ∧ List.Forall₂ Reads items uris ∧
      uris.filterMap id = links py edge secrets user host name := by
  have hset : ∀ items : List JsonMap, Dict.set c.payload name items = c.payload ++ [(name, items)] := fun items => if_neg hnew
  unfold collect at h
  obtain ⟨proto, hproto, h⟩ := Except.bind_eq_ok.mp h
  have hlinks : links py edge secrets user host name = ((sharing edge proto).map (shared secrets user host)).getD [] := by
    rw [links, hproto]
  split at h
  · rename_i share hshare
    unfold fromItems at h
    obtain ⟨items, hitems, h⟩ := Except.bind_eq_ok.mp h
    obtain ⟨emitted, hemitted, h⟩ := Except.bind_eq_ok.mp h
    obtain rfl := Except.ok.inj h
    refine .inr ⟨emitted, items.map linkOf, hset emitted, itemsJson_read hemitted, ?_⟩
    rw [hlinks, hshare, Option.map_some, Option.getD_some, shared, hitems, List.filterMap_map]
    rfl
  · rename_i hshare
    obtain rfl := Except.ok.inj h
    unfold fromContainer
    split
    · split
      · rename_i bundles _
        refine .inr ⟨bundles.map bundleJson, bundles.map fun _ => none, hset _, ?_, ?_⟩
        · rw [List.forall₂_map_left_iff, List.forall₂_map_right_iff]
          exact List.forall₂_same.mpr fun bundle _ => bundleJson_reads bundle
        · rw [hlinks, hshare, List.filterMap_map]
          exact List.filterMap_none bundles
      · exact .inl rfl
    · exact .inl rfl

/-- The payload lists the protocols in the order of the loop, and every entry can be read. -/
theorem foldlM_collect {names : List String} {c c' : Collected} (hnodup : names.Nodup)
    (hnew : ∀ name ∈ names, name ∉ c.payload.map (·.1)) (hc : Legible (links py edge secrets user host) c.payload)
    (h : names.foldlM (fun c name => collect edge secrets user host c name py) c = .ok c') :
    Legible (links py edge secrets user host) c'.payload ∧
      ∃ added, c'.payload = c.payload ++ added ∧ (added.map (·.1)).Sublist names := by
  induction names generalizing c with
  | nil =>
    obtain rfl := Except.ok.inj h
    exact ⟨hc, [], (List.append_nil _).symm, List.Sublist.refl _⟩
  | cons name names ih =>
    rw [List.foldlM_cons] at h
    obtain ⟨c₁, hstep, h⟩ := Except.bind_eq_ok.mp h
    obtain ⟨hname, hnodup⟩ := List.nodup_cons.mp hnodup
    have hlater : ∀ n ∈ names, n ≠ name ∧ n ∉ c.payload.map (·.1) := fun n hn =>
      ⟨fun heq => hname (heq ▸ hn), hnew n (List.mem_cons_of_mem _ hn)⟩
    rcases collect_ok (hnew name (List.mem_cons_self ..)) hstep with hsame | ⟨items, uris, hpayload, hreads, huris⟩
    · obtain ⟨hlegible, added, hadded, hsub⟩ := ih hnodup (fun n hn => hsame ▸ (hlater n hn).2) (hsame ▸ hc) h
      exact ⟨hlegible, added, hsame ▸ hadded, hsub.cons _⟩
    · have hgood : Legible (links py edge secrets user host) c₁.payload := by
        intro entry hentry
        rw [hpayload] at hentry
        rcases List.mem_append.mp hentry with hentry | hentry
        · exact hc entry hentry
        · obtain rfl := List.mem_singleton.mp hentry
          exact ⟨uris, hreads, huris⟩
      have hfresh : ∀ n ∈ names, n ∉ c₁.payload.map (·.1) := by
        intro n hn hmem
        rw [hpayload, List.map_append, List.mem_append, List.map_singleton, List.mem_singleton] at hmem
        exact hmem.elim (hlater n hn).2 (hlater n hn).1
      obtain ⟨hlegible, added, hadded, hsub⟩ := ih hnodup hfresh hgood h
      refine ⟨hlegible, (name, items) :: added, ?_, ?_⟩
      · rw [hadded, hpayload, List.append_assoc, List.singleton_append]
      · rw [List.map_cons]
        exact hsub.cons_cons _

/-! ## The links -/

/-- One URI for VLESS and REALITY, or none. -/
theorem links_vless : links py edge secrets user host "vless-reality" = [] ∨
    ∃ u, links py edge secrets user host "vless-reality" = [u] := by
  change shared secrets user host (VlessReality.share edge.x25519) = [] ∨
    ∃ u, shared secrets user host (VlessReality.share edge.x25519) = [u]
  unfold shared
  cases h : VlessReality.share edge.x25519 secrets user host with
  | error e => exact .inl rfl
  | ok items =>
    obtain ⟨pbk, sid, -, -, rfl⟩ := ShareUri.vless_share h
    exact .inr ⟨_, rfl⟩

/-- A link of Hysteria2 is never read as one of VLESS. -/
theorem links_hysteria2 {u tag : Text} {cases : Dart.CaseMap} {trust : ShareUri.Hysteria2Trust} {out : ShareUri.VlessRealityOutbound}
    (hu : u ∈ links py edge secrets user host "hysteria2") : ShareUri.parseShareUri cases u trust tag ≠ .ok (.vless out) := by
  change u ∈ shared secrets user host (Hysteria2.share edge.x509) at hu
  unfold shared at hu
  split at hu
  · rename_i items h
    obtain ⟨obfs, crt, pin, spki, -, -, -, -, rfl⟩ := ShareUri.hysteria2_share h
    obtain rfl := List.mem_singleton.mp hu
    have htrim := ShareUri.trim_link (c := 'h') rfl ("ysteria2://".toList ++ (user.hysteria2Password ++ '@' :: (host ++ ':' ::
      ("20443".toList ++ '?' :: ShareUri.Param.query (ShareUri.hysteria2Params obfs pin spki))))) user.name
    have hparse := @ShareUri.parseShareUri_hysteria2 cases trust tag (ShareUri.afterScheme user.hysteria2Password host "20443".toList
      (ShareUri.Param.query (ShareUri.hysteria2Params obfs pin spki) ++ '#' :: Percent.quote user.name)) (by
        simp only [ShareUri.afterScheme, List.append_assoc, List.cons_append] at htrim ⊢
        exact htrim)
    intro hok
    rw [hparse] at hok
    obtain ⟨parts, -, hok⟩ := Except.bind_eq_ok.mp hok
    obtain ⟨outbound, -, hok⟩ := Except.bind_eq_ok.mp hok
    cases hok
  · cases hu

/-- The other protocols have none. -/
theorem links_other {name : String} (hvless : name ≠ "vless-reality") (hhysteria2 : name ≠ "hysteria2") :
    links py edge secrets user host name = [] := by
  unfold links
  cases hproto : getProtocol py name with
  | error e => rfl
  | ok proto =>
    obtain ⟨-, rfl⟩ := getProtocol_mem hproto
    dsimp only
    rw [sharing, if_neg hvless, if_neg hhysteria2]
    split
    · change shared secrets user host Dnstt.share = []
      unfold shared
      split
      · rename_i items h
        simp only [Dnstt.share, Except.bind_eq_ok, Except.pure_eq_ok] at h
        obtain ⟨zone, -, -, -, pub, -, rfl⟩ := h
        rfl
      · rfl
    · rfl

end Loop

/-! ## The order decides -/

/-- The registry puts VLESS and REALITY first. -/
theorem registry_eq (py : CaseMap) : registry py = ["vless-reality", "hysteria2", "ikev2", "dnstt"] := rfl

/-- What comes first where it occurs comes first in a part. -/
theorem head?_of_sublist {α : Type} {l l' : List α} {a : α} (h : l.Sublist (a :: l')) (hl' : a ∉ l') (ha : a ∈ l) :
    l.head? = some a := by
  cases h with
  | cons _ h => exact absurd (h.subset ha) hl'
  | cons_cons _ h => rfl

theorem name_mem_registry {py : CaseMap} {proto : Protocol} (h : proto ∈ protocols py) : proto.name ∈ registry py :=
  List.mem_map_of_mem ((List.mem_insertionSort _).mpr h)

/-- No protocol is in the registry twice. -/
theorem registry_nodup (py : CaseMap) : (registry py).Nodup := by
  rw [registry_eq]
  decide

/-- In registry order, the link of VLESS and REALITY comes first. -/
theorem chooses_of_order {py : CaseMap} {edge : Edge} {secrets : Secrets} {user : User} {host : Text}
    {protocols : List (String × List JsonMap)} {bundle : Control.ShareBundle}
    (hlinks : bundle.importUris = protocols.flatMap fun entry => links py edge secrets user host entry.1)
    (horder : (protocols.map (·.1)).Sublist (registry py)) : Chooses bundle := by
  rintro cases trust tag ⟨u, hu, out, hout⟩ -
  rw [hlinks] at hu ⊢
  obtain ⟨entry, hentry, hmem⟩ := List.mem_flatMap.mp hu
  have hvless : entry.1 = "vless-reality" := by
    by_contra hvless
    by_cases hhysteria2 : entry.1 = "hysteria2"
    · rw [hhysteria2] at hmem
      exact links_hysteria2 hmem hout
    · rw [links_other hvless hhysteria2] at hmem
      cases hmem
  rw [hvless] at hmem
  have hlink : links py edge secrets user host "vless-reality" = [u] := by
    rcases @links_vless py edge secrets user host with hnil | ⟨v, hv⟩
    · rw [hnil] at hmem
      cases hmem
    · rw [hv] at hmem
      rw [hv, List.mem_singleton.mp hmem]
  rw [registry_eq] at horder
  have hhead := head?_of_sublist horder (by decide) (hvless ▸ List.mem_map_of_mem hentry)
  cases protocols with
  | nil => cases hentry
  | cons first rest =>
    have hfirst : first.1 = "vless-reality" := Option.some_inj.mp hhead
    refine ⟨out, ?_⟩
    rw [List.flatMap_cons, hfirst, hlink, List.singleton_append, ShareUri.selectOutbound, if_neg (List.cons_ne_nil _ _),
      ShareUri.firstOutbound, hout]

/-- What an export lists, for one of the users, when no protocol is asked for twice. -/
theorem export_legible {py : CaseMap} {edge : Edge} {users : List User} {st : State} {secrets : Secrets} {name : Text}
    {protocol : String} {explicitHost : Option Text} {e : Exported} (hnodup : st.enabled.Nodup)
    (h : userExport py edge users st secrets name protocol explicitHost = .ok e) :
    ∃ user host, Users.find py users name = some user ∧ resolveHost edge.settings explicitHost = .ok host ∧
      Legible (links py edge secrets user host) e.protocols ∧
      (e.protocols.map (·.1)).Sublist (if protocol = "all" then st.enabled else [protocol]) ∧
      (protocol ≠ "all" → protocol ∈ registry py) := by
  unfold userExport at h
  split at h
  · cases h
  · rename_i user huser
    obtain ⟨host, hhost, h⟩ := Except.bind_eq_ok.mp h
    obtain ⟨c, hc, h⟩ := Except.bind_eq_ok.mp h
    obtain ⟨-, -, h⟩ := Except.bind_eq_ok.mp h
    obtain rfl := Except.ok.inj h
    have hnames : (if protocol = "all" then st.enabled else [protocol]).Nodup := by
      split
      · exact hnodup
      · exact List.nodup_singleton _
    obtain ⟨hlegible, added, hadded, hsub⟩ := foldlM_collect hnames (fun _ _ => List.not_mem_nil)
      (fun _ hentry => absurd hentry List.not_mem_nil) hc
    refine ⟨user, host, huser, hhost, hlegible, ?_, fun hall => ?_⟩
    · rw [hadded]
      exact hsub
    · rw [if_neg hall] at hc
      obtain ⟨c', hcollect, -⟩ := Except.bind_eq_ok.mp hc
      obtain ⟨proto, hproto, -⟩ := Except.bind_eq_ok.mp hcollect
      obtain ⟨hmem, rfl⟩ := getProtocol_mem hproto
      exact name_mem_registry hmem

/-- An export from a state in registry order is as it should be. -/
theorem preferred_of_order {py : CaseMap} {edge : Edge} {users : List User} {st : State} {secrets : Secrets} {name : Text}
    {protocol : String} {explicitHost : Option Text} {e : Exported} (horder : st.enabled.Sublist (registry py))
    (h : userExport py edge users st secrets name protocol explicitHost = .ok e) : Preferred py e := by
  obtain ⟨user, host, -, -, hlegible, hsub, hknown⟩ := export_legible (horder.nodup (registry_nodup py)) h
  have hkeys : (e.protocols.map (·.1)).Sublist (registry py) := by
    refine hsub.trans ?_
    split
    · exact horder
    · rename_i hall
      exact List.singleton_sublist.mpr (hknown hall)
  obtain ⟨bundle, hbundle, hlinks⟩ := received_ok hlegible
  exact ⟨hkeys, bundle, hbundle, chooses_of_order hlinks hkeys⟩

/-! ## The toggles -/

section Toggles

open Toggle (enabledOf Steady command_steady apply_steady)

/-- The set that `protocol on` makes: sorted as text it is still in registry order only if it is one protocol, or Hysteria2 and
IKEv2. -/
def InPlace (name : String) (enabled : List String) : Prop := enabled = [] ∨ ∀ n ∈ name :: enabled, n = "hysteria2" ∨ n = "ikev2"

instance (name : String) (enabled : List String) : Decidable (InPlace name enabled) := inferInstanceAs (Decidable (_ ∨ _))

/-- The list `protocol on` writes is in registry order exactly then. -/
theorem sorted_sublist_iff {py : CaseMap} {name : String} {enabled : List String} (horder : enabled.Sublist (registry py))
    (hname : name ∈ registry py) (hoff : name ∉ enabled) :
    ((name :: enabled).dedup.insertionSort (· ≤ ·)).Sublist (registry py) ↔ InPlace name enabled := by
  have hall : ∀ enabled ∈ (["vless-reality", "hysteria2", "ikev2", "dnstt"] : List String).sublists,
      ∀ name ∈ (["vless-reality", "hysteria2", "ikev2", "dnstt"] : List String), name ∉ enabled →
        (((name :: enabled).dedup.insertionSort (· ≤ ·)).Sublist ["vless-reality", "hysteria2", "ikev2", "dnstt"] ↔
          InPlace name enabled) := by decide +kernel
  exact hall enabled (List.mem_sublists.mpr horder) name hname hoff

/-- The condition on a `protocol on`: it turns nothing on, or it is refused before it writes, or what it writes is in place. -/
def Allowed (py : CaseMap) (name : String) (w : World) : Prop :=
  name ∈ enabledOf py w ∨ name ∉ registry py ∨ name = "dnstt" ∧ w.zone = [] ∨ InPlace name (enabledOf py w)

/-- Every `protocol on` of the life meets it. -/
def Orderly (host : Host) : List Step → World → Prop
  | [], _ => True
  | .command (.protocolOn name) cs :: rest, w =>
    Allowed host.py name w ∧ Orderly host rest ((Step.command (.protocolOn name) cs).after host w)
  | step :: rest, w => Orderly host rest (step.after host w)

/-- The protocols that are on are in registry order. -/
def InOrder (py : CaseMap) (w : World) : Prop := (enabledOf py w).Sublist (registry py)

section Command

variable {host : Host} {w : World} {d : Discipline Op World Choice}

/-- A script that does not write the state keeps the order of what is on. -/
theorem inOrder_frame {parts : List Part} {α : Type} {p : Cmd α} (hp : Touches parts p) (hstate : .state ∉ parts) :
    Preserves (server host) d (InOrder host.py) p := fun _ hw =>
  hp.keeps (fun o ho c w hw => by
    have hsame : (exec host o c w).2.state = w.state := exec_state fun heq => hstate (heq ▸ ho)
    rw [InOrder, enabledOf, hsame]
    exact hw) hw

/-- A state that is written in order is in order. -/
theorem inOrder_save {st : State} (h : st.enabled.Sublist (registry host.py)) :
    Preserves (server host) d (InOrder host.py) (call (.saveState st)) := fun _ hw =>
  ends_exec (fun _ => hw) (fun _ _ _ => h) (fun _ _ _ _ => hw) fun _ _ _ _ => h

/-- An apply writes the state back with the protocols in the order they had. -/
theorem inOrder_apply {restart : Bool} : Preserves (server host) d (InOrder host.py) (VpnStack.apply host.py restart) := by
  intro w hw
  have hkeep : ∀ w', Steady host.py (enabledOf host.py w) w.keyring w' → InOrder host.py w' := fun w' h => by
    rw [InOrder, h.enabled]
    exact hw
  exact ends_mono (apply_steady w ⟨rfl, rfl⟩) (fun _ w' h => hkeep w' h) (fun _ w' h => hkeep w' h) hkeep

/-- The preparation of the secrets keeps the order. -/
theorem inOrder_prepareSecrets {proto : Protocol} {st : State} (h : st.enabled.Sublist (registry host.py)) :
    Preserves (server host) d (InOrder host.py) (prepareSecrets proto st) := by
  refine .bind (inOrder_frame (missingSecrets_touches _) (by decide)) fun gaps => .ite (.pure ()) (.bind ?_ fun produced => ?_)
  · intro w hw
    refine ends_tryExcept.mpr (ends_mono (inOrder_frame
      (show Touches [.nothing] _ from .call (List.mem_singleton_self _)) (by decide) w hw)
      (fun _ _ h => h) (fun e w hw => ?_) fun _ h => h)
    cases he : e.isException with
    | false => exact hw
    | true => exact (inOrder_save (List.filter_sublist.trans h)).bind (fun _ => .raise _) w hw
  · exact inOrder_frame (show Touches [.keyring] _ from Script.uses_forM fun _ _ => Script.uses_op (by simp [Op.part]))
      (by decide)

/-- A toggle keeps it where what it writes is in order. -/
theorem inOrder_toggle {proto : Protocol} {st : State} {on : Bool}
    (h : ((if on then (proto.name :: st.enabled).dedup.insertionSort (· ≤ ·) else st.enabled.filter (· ≠ proto.name))).Sublist
      (registry host.py)) : Preserves (server host) d (InOrder host.py) (toggleProtocol host.py proto st on) := by
  refine .bind (inOrder_save h) fun _ => ?_
  cases on with
  | true => exact .bind (inOrder_prepareSecrets h) fun _ => inOrder_apply
  | false => exact inOrder_apply

/-- `protocol on` and `protocol off`, wherever they end. -/
theorem setProtocol_inOrder (name : String) (on : Bool) (hallowed : on = true → Allowed host.py name w) (hw : InOrder host.py w) :
    ends (server host) d (setProtocol host.py name on) (fun _ => InOrder host.py) (fun _ => InOrder host.py)
      (InOrder host.py) w := by
  refine ends_seq (M := fun _ w' => w' = w) (ends_mono (ends_read rfl hw) (fun _ _ h => h.1) (fun _ _ h => h) fun _ h => h) ?_
  rintro - w rfl
  refine ends_seq (M := fun proto w' => (proto ∈ protocols host.py ∧ proto.name = name) ∧ w' = w) ?_ ?_
  · rw [ends_lift]
    cases hproto : getProtocol host.py name with
    | ok proto => exact ⟨getProtocol_mem hproto, rfl⟩
    | error e => exact hw
  rintro proto w ⟨⟨hmem, rfl⟩, rfl⟩
  refine ends_seq (M := fun st w' => st.enabled = enabledOf host.py w ∧ w' = w) (ends_mono (ends_read rfl hw)
    (fun st w' h => ⟨?_, h.1⟩) (fun _ _ h => h) fun _ h => h) ?_
  · obtain ⟨-, c, rfl⟩ := h
    rfl
  rintro st w ⟨hst, rfl⟩
  refine ends_ite (fun _ => hw) fun hdiffers => ?_
  cases on with
  | false =>
    refine ends_map.mpr (inOrder_toggle ?_ w hw)
    rw [if_neg Bool.false_ne_true, hst]
    exact List.filter_sublist.trans hw
  | true =>
    have hoff : proto.name ∉ enabledOf host.py w := fun hon => hdiffers (decide_eq_true (hst ▸ hon)).symm
    have hname := name_mem_registry hmem
    refine ends_ite (fun _ => ?_) fun hno => absurd rfl hno
    refine ends_seq (M := fun gap w' => (proto.name = "dnstt" ∧ w.zone = [] → gap ≠ none) ∧ w' = w) ?_ ?_
    · refine ends_ite (fun hdnstt => ?_) fun hdnstt => ⟨fun h => absurd h.1 hdnstt, rfl⟩
      refine ends_seq (ends_read rfl hw) ?_
      rintro zone w ⟨rfl, c, rfl⟩
      refine ⟨fun h => ?_, rfl⟩
      change (if w.zone = [] then some Dnstt.noZone else none) ≠ none
      rw [if_pos h.2]
      exact Option.some_ne_none _
    · rintro gap w ⟨hgap, rfl⟩
      cases gap with
      | some gap => exact hw
      | none =>
        refine ends_map.mpr (inOrder_toggle ?_ w hw)
        rw [if_pos rfl, hst]
        refine (sorted_sublist_iff hw hname hoff).mpr ?_
        rcases hallowed rfl with hon | hunknown | hzone | hplace
        · exact absurd hon hoff
        · exact absurd hname hunknown
        · exact absurd rfl (hgap hzone)
        · exact hplace

/-- Every command. -/
theorem command_inOrder (a : Action) (hallowed : ∀ name, a = .protocolOn name → Allowed host.py name w) (hw : InOrder host.py w) :
    ends (server host) d (a.command host.py) (fun _ => InOrder host.py) (fun _ => InOrder host.py) (InOrder host.py) w := by
  have hother : (∀ name, a ≠ .protocolOn name) → (∀ name, a ≠ .protocolOff name) → ends (server host) d (a.command host.py)
      (fun _ => InOrder host.py) (fun _ => InOrder host.py) (InOrder host.py) w := by
    intro hon hoff
    have hkeep : ∀ w', Steady host.py (enabledOf host.py w) w.keyring w' → InOrder host.py w' := fun w' h => by
      rw [InOrder, h.enabled]
      exact hw
    exact ends_mono (command_steady a hon hoff w ⟨rfl, rfl⟩) (fun _ w' h => hkeep w' h) (fun _ w' h => hkeep w' h) hkeep
  cases a with
  | protocolOn name => exact setProtocol_inOrder name true (fun _ => hallowed name rfl) hw
  | protocolOff name => exact setProtocol_inOrder name false (fun h => absurd h Bool.false_ne_true) hw
  | _ => exact hother nofun nofun

end Command

/-- A step keeps the order. -/
theorem step_inOrder {host : Host} {step : Step} {w : World} (hw : InOrder host.py w)
    (hallowed : ∀ name cs, step = .command (.protocolOn name) cs → Allowed host.py name w) :
    InOrder host.py (step.after host w) := by
  cases step with
  | event e => cases e <;> exact hw
  | command a cs =>
    have hends := ends_run_any (command_inOrder a (fun name h => hallowed name cs (by rw [h])) hw) cs
    change InOrder host.py ((a.command host.py).run (server host) cs w).2
    revert hends
    generalize (a.command host.py).run (server host) cs w = result
    intro hends
    obtain ⟨_ | r, w'⟩ := result
    · exact hends
    · cases r with
      | ok r => exact hends
      | error e => exact hends

/-- And so does an orderly life. -/
theorem life_inOrder {host : Host} {steps : List Step} {w : World} (hw : InOrder host.py w) (h : Orderly host steps w) :
    InOrder host.py (life host steps w) := by
  induction steps generalizing w with
  | nil => exact hw
  | cons step steps ih =>
    cases step with
    | event e => exact ih (step_inOrder hw nofun) h
    | command a cs =>
      cases a with
      | protocolOn name =>
        refine ih (step_inOrder hw fun name' cs' heq => ?_) h.2
        obtain ⟨⟨⟩, -⟩ := Step.command.inj heq
        exact h.1
      | _ => exact ih (step_inOrder hw (fun name cs heq => nomatch heq)) h

/-- A server without a state file has the protocols in registry order. -/
theorem inOrder_default {py : CaseMap} {w : World} (h : w.state = none) : InOrder py w := by
  rw [InOrder, enabledOf, h, registry_eq]
  exact List.isSublist_iff_sublist.mp rfl

/-! ## A server whose operator turns dnstt on -/

section Sample

def sampleUser : User := ⟨"alice", "1b4e28ba", "8f0c", "a1d2", false, true, "2026-01-01T00:00:00Z", "Zx9y"⟩

/-- A keyring with everything in it, and a server with a zone, one user and no state file. -/
def sampleWorld : World where
  __ := World.provisioned
    (fun name => some (if name = "reality.pub" then List.replicate 43 0x41 else [0x61, 0x62])) "t.example.com" ⟨[], List.nodup_nil⟩
  users := [sampleUser]

def sampleEdge : Edge where
  x25519 := ⟨fun _ => List.replicate 32 0, fun _ => rfl⟩
  x509 := ⟨fun _ => some [1], fun _ => some [1]⟩
  settings := []
  pngBytes _ := []
  exported _ := false
  cat _ := none

def sampleCases : Dart.CaseMap := .ascii

/-- A `protocol on` on which nothing goes wrong. -/
def sampleOn (name : String) : Step := .command (.protocolOn name) (List.replicate 60 {})

/-- Alice's export behind some steps. -/
def sampleExport (steps : List Step) : Except Exc Exported :=
  exportOn Host.sample.py sampleEdge (life Host.sample steps sampleWorld) "alice" "all" (some "vpn.example.org".toList)

/-- The kind of what is imported: VLESS, Hysteria2 or nothing. -/
def kindOf : ShareUri.Parsed ShareUri.OutboundConfig → Option Bool
  | .ok (.vless _) => some true
  | .ok (.hysteria2 _) => some false
  | .error _ => none

/-- A link of the first kind is imported as such. -/
theorem kindOf_vless {r : ShareUri.Parsed ShareUri.OutboundConfig} (h : kindOf r = some true) : ∃ out, r = .ok (.vless out) := by
  unfold kindOf at h
  split at h
  · exact ⟨_, rfl⟩
  · cases h
  · cases h

/-- A link of the second kind is imported as such. -/
theorem kindOf_hysteria2 {r : ShareUri.Parsed ShareUri.OutboundConfig} (h : kindOf r = some false) :
    ∃ out, r = .ok (.hysteria2 out) := by
  unfold kindOf at h
  split at h
  · cases h
  · exact ⟨_, rfl⟩
  · cases h

end Sample

/-- From the default state, in a life in which no `protocol on` puts the protocols out of place, every export is in registry order,
and the app prefers VLESS and REALITY. -/
theorem export_preferred {host : Host} {steps : List Step} {w : World} {edge : Edge} {name : Text} {protocol : String}
    {explicitHost : Option Text} {e : Exported} (hw : w.state = none) (horderly : Orderly host steps w)
    (he : exportOn host.py edge (life host steps w) name protocol explicitHost = .ok e) : Preferred host.py e :=
  preferred_of_order (life_inOrder (inOrder_default hw) horderly) he

/-- A protocol that is on already may be turned on. -/
theorem export_preferred_sample : ∃ e, sampleExport [sampleOn "vless-reality"] = .ok e ∧ Preferred Host.sample.py e := by
  have horderly : Orderly Host.sample [sampleOn "vless-reality"] sampleWorld := ⟨.inl (by decide), trivial⟩
  cases h : sampleExport [sampleOn "vless-reality"] with
  | ok e => exact ⟨e, rfl, export_preferred rfl horderly h⟩
  | error e =>
    have hok : (sampleExport [sampleOn "vless-reality"]).isOk = true := by decide +kernel
    rw [h] at hok
    cases hok

/-- Behind `protocol on dnstt` the export lists dnstt and Hysteria2 first, and the app, which could import either link, chooses
Hysteria2. -/
theorem export_dnstt : ∃ e bundle, sampleExport [sampleOn "dnstt"] = .ok e ∧
    e.protocols.map (·.1) = ["dnstt", "hysteria2", "vless-reality"] ∧ received e = .ok bundle ∧ ¬ Chooses bundle ∧
    ¬ Preferred Host.sample.py e := by
  cases h : sampleExport [sampleOn "dnstt"] with
  | error e =>
    have hok : (sampleExport [sampleOn "dnstt"]).isOk = true := by decide +kernel
    rw [h] at hok
    cases hok
  | ok e =>
    have hkeys : e.protocols.map (·.1) = ["dnstt", "hysteria2", "vless-reality"] := by
      have hmap : (sampleExport [sampleOn "dnstt"]).toOption.map (fun e => e.protocols.map (·.1)) =
          some ["dnstt", "hysteria2", "vless-reality"] := by decide +kernel
      rw [h] at hmap
      exact Option.some_inj.mp hmap
    have hnodup : ((life Host.sample [sampleOn "dnstt"] sampleWorld).state.getD (State.default Host.sample.py)).enabled.Nodup := by
      decide +kernel
    have hexport : userExport Host.sample.py sampleEdge (life Host.sample [sampleOn "dnstt"] sampleWorld).users
        ((life Host.sample [sampleOn "dnstt"] sampleWorld).state.getD (State.default Host.sample.py))
        (snapshotOf (life Host.sample [sampleOn "dnstt"] sampleWorld)) "alice" "all" (some "vpn.example.org".toList) = .ok e := h
    obtain ⟨user, host, huser, hhost, hlegible, -, -⟩ := export_legible hnodup hexport
    obtain rfl : { sampleUser with ikev2Provisioned := true } = user := by
      have hfound : Users.find Host.sample.py (life Host.sample [sampleOn "dnstt"] sampleWorld).users "alice" =
          some { sampleUser with ikev2Provisioned := true } := by decide +kernel
      exact Option.some_inj.mp (hfound.symm.trans huser)
    have hnamed : resolveHost sampleEdge.settings (some "vpn.example.org".toList) = .ok "vpn.example.org".toList := rfl
    obtain rfl : "vpn.example.org".toList = host := Except.ok.inj (hnamed.symm.trans hhost)
    obtain ⟨bundle, hbundle, huris⟩ := received_ok hlegible
    have hlinks : ∃ u v, bundle.importUris = [u, v] ∧
        kindOf (ShareUri.parseShareUri sampleCases u .systemRoots "proxy") = some false ∧
        kindOf (ShareUri.parseShareUri sampleCases v .systemRoots "proxy") = some true := by
      rw [huris, ← List.flatMap_map, hkeys]
      have hkinds : ((["dnstt", "hysteria2", "vless-reality"].flatMap (links Host.sample.py sampleEdge
          (snapshotOf (life Host.sample [sampleOn "dnstt"] sampleWorld)) { sampleUser with ikev2Provisioned := true }
          "vpn.example.org")).map fun u => kindOf (ShareUri.parseShareUri sampleCases u .systemRoots "proxy")) =
          [some false, some true] := by decide +kernel
      obtain ⟨u, rest, huris, hu, hrest⟩ := List.map_eq_cons_iff.mp hkinds
      obtain ⟨v, rest, rfl, hv, hnil⟩ := List.map_eq_cons_iff.mp hrest
      obtain rfl := List.map_eq_nil_iff.mp hnil
      exact ⟨u, v, huris, hu, hv⟩
    obtain ⟨u, v, huris, hu, hv⟩ := hlinks
    obtain ⟨out, hout⟩ := kindOf_hysteria2 hu
    have hchoice : ShareUri.selectOutbound sampleCases bundle.importUris .systemRoots "proxy" = .ok (.hysteria2 out) := by
      rw [huris, ShareUri.selectOutbound, if_neg (List.cons_ne_nil _ _), ShareUri.firstOutbound, hout]
    have hnot : ¬ Chooses bundle := by
      intro hchooses
      obtain ⟨out', hout'⟩ := hchooses sampleCases .systemRoots "proxy" ⟨v, by simp [huris], kindOf_vless hv⟩
        ⟨u, by simp [huris], out, hout⟩
      rw [hchoice] at hout'
      cases hout'
    refine ⟨e, bundle, rfl, hkeys, hbundle, hnot, fun hpreferred => ?_⟩
    obtain ⟨bundle', hbundle', hchooses⟩ := hpreferred.bundle
    exact hnot (Except.ok.inj (hbundle.symm.trans hbundle') ▸ hchooses)

end Toggles

end Preference

end VpnStack

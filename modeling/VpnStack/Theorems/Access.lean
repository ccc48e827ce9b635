import VpnStack.Theorems.Pending
import VpnStack.Theorems.Ikev2Env
import VpnStack.Theorems.DnsttLogins
import VpnStack.Lib.JsonReader

/-!
# Who is let in

A container lets in whoever is in the file it was started with: the uuids and the passwords of the two sing-box fragments, the
list of L2TP passwords, the login list of the sshd. The renderers put the credentials of the enabled users there and nobody
else's, so a container that reads the live tree lets in nobody who was removed or disabled before it was rendered.
-/

namespace VpnStack

open Python Interaction Docker Composectl

namespace Access

/-! ## Reading the files -/

/-- The members of that name, over the users of the inbounds of a fragment. -/
def inboundUsers (file : Bytes) (key : String) : List Text :=
  match (Text.decode file).bind Json.loads with
  | some v => (Json.items (v.get "inbounds")).flatMap fun inbound =>
      (Json.items (inbound.get "users")).filterMap fun user => (user.get key).bind Json.text
  | none => []

/-- The passwords of an environment file. -/
def l2tpPasswords (file : Bytes) : List Text :=
  match Text.decode file with
  | some t => Ikev2.envList (Text.lines '\n' t) "VPN_ADDL_PASSWORDS"
  | none => []

/-- The file, read as what it is, lets that user in. -/
def Carries (u : User) (rel : Text) (file : Bytes) : Prop :=
  (rel = "sing-box/10_vless-reality.json".toList ∧ u.vlessUuid ∈ inboundUsers file "uuid") ∨
  (rel = "sing-box/20_hysteria2.json".toList ∧ u.hysteria2Password ∈ inboundUsers file "password") ∨
  (rel = "ikev2.env".toList ∧ u.l2tpPassword ∈ l2tpPasswords file) ∨
  (rel = "dnstt-sshd/logins".toList ∧ (Text.encode u.name, Text.encode u.dnsttPassword) ∈ DnsttSshd.records file)

/-- Nobody else has one of that user's credentials. -/
def Unshared (u : User) (users : List User) : Prop :=
  ∀ v ∈ users, v ≠ u → v.vlessUuid ≠ u.vlessUuid ∧ v.hysteria2Password ≠ u.hysteria2Password ∧
    v.l2tpPassword ≠ u.l2tpPassword ∧ (v.name, v.dnsttPassword) ≠ (u.name, u.dnsttPassword)

/-- No container of a protocol that is on holds a file that lets that user in, unless it is a file of the checkout itself. -/
def Shut (host : Host) (u : User) (w : World) : Prop :=
  ∀ s ∈ expectedServices (Pending.enabledIn host w), ∀ c, w.docker.containers s = some c → ∀ rel how file,
    consumer rel = some (s, how) → c.Holds how rel (some file) → Carries u rel file → (rel, file) ∈ commonFiles w.common.files

/-- The command returned, and does not leave a converge pending. -/
def Settled (r : Option (Except Exc (Option ApplyResult))) : Bool :=
  match r with
  | some (.ok (some result)) => !result.convergePending
  | _ => false

/-! ## What the renderers write -/

/-- A credential: something, made of letters, digits, dashes and the like. -/
def IsToken (t : Text) : Prop := t ≠ [] ∧ ∀ c ∈ t, Users.isNameChar c = true

/-- The secrets of a record are such as are made up for a new user. -/
structure Clean (u : User) : Prop where
  vlessUuid : IsToken u.vlessUuid
  hysteria2Password : IsToken u.hysteria2Password
  l2tpPassword : IsToken u.l2tpPassword
  dnsttPassword : IsToken u.dnsttPassword

/-- A token has only the characters of names in it. -/
theorem IsToken.not_mem {t : Text} (h : IsToken t) {c : Char} (hc : Users.isNameChar c = false) : c ∉ t := fun hmem => by
  have hname := h.2 c hmem
  rw [hc] at hname
  cases hname

theorem mem_enabledUsers {users : List User} {v : User} : v ∈ enabledUsers users ↔ v ∈ users ∧ v.enabled = true :=
  List.mem_filter

section Render

variable {secrets : Secrets} {users : List User} {u : User}

/-- A fragment with one inbound is read back. -/
theorem inboundUsers_dumps (inbound : Json) (key : String) :
    inboundUsers (Text.encode (Json.dumps (.obj [("inbounds".toList, .arr [inbound])]) ++ ['\n'])) key =
      (Json.items (inbound.get "users")).filterMap fun user => (user.get key).bind Json.text := by
  have hspace : ∀ c ∈ ['\n'], Json.isWhite c = true := by decide
  rw [inboundUsers, Text.decode_encode, Option.bind_some, Json.loads_dumps _ hspace]
  change (Json.items (some (Json.arr [inbound]))).flatMap _ = _
  exact List.append_nil _

/-- The identities in the first inbound are those of the enabled users, in their order. -/
theorem vlessUuids_inbound (key shortId : Text) :
    ((Json.items ((VlessReality.inbound key shortId users).get "users")).filterMap fun user =>
      (user.get "uuid").bind Json.text) = (enabledUsers users).map (·.vlessUuid) := by
  have hitems : Json.items ((VlessReality.inbound key shortId users).get "users") = (enabledUsers users).map fun u =>
      Json.obj [("name".toList, .str u.name), ("uuid".toList, .str u.vlessUuid), ("flow".toList, "xtls-rprx-vision")] := rfl
  rw [hitems, List.filterMap_map]
  exact (List.filterMap_congr fun _ _ => rfl).trans (congrFun List.filterMap_eq_map _)

/-- The passwords in the second inbound are those of the enabled users, in their order. -/
theorem hysteria2Passwords_inbound (obfs : Text) :
    ((Json.items ((Hysteria2.inbound obfs users).get "users")).filterMap fun user =>
      (user.get "password").bind Json.text) = (enabledUsers users).map (·.hysteria2Password) := by
  have hitems : Json.items ((Hysteria2.inbound obfs users).get "users") = (enabledUsers users).map fun u =>
      Json.obj [("name".toList, .str u.name), ("password".toList, .str u.hysteria2Password)] := rfl
  rw [hitems, List.filterMap_map]
  exact (List.filterMap_congr fun _ _ => rfl).trans (congrFun List.filterMap_eq_map _)

/-- The line of the L2TP passwords. -/
def passwordsLine (users : List User) : Text :=
  "VPN_ADDL_PASSWORDS".toList ++ '=' :: [' '].intercalate ((enabledUsers users).map (·.l2tpPassword))

/-- The passwords in the environment of IKEv2 are those of the enabled users, in their order. -/
theorem envValue_passwordsLine (ls : List Text) : Ikev2.envValue (ls ++ [passwordsLine users]) "VPN_ADDL_PASSWORDS" =
    [' '].intercalate ((enabledUsers users).map (·.l2tpPassword)) := by
  have hcut : Text.cut '=' (passwordsLine users) =
      ("VPN_ADDL_PASSWORDS".toList, some ([' '].intercalate ((enabledUsers users).map (·.l2tpPassword)))) :=
    Text.cut_append_cons (by decide)
  have hvalue : [passwordsLine users].filterMap (fun line =>
      if (Text.cut '=' line).1 = "VPN_ADDL_PASSWORDS".toList then (Text.cut '=' line).2 else none) =
      [[' '].intercalate ((enabledUsers users).map (·.l2tpPassword))] := by
    refine List.filterMap_cons_some ?_
    rw [hcut]
    exact if_pos rfl
  rw [Ikev2.envValue, List.filterMap_append, hvalue, List.getLast?_concat, Option.getD_some]

/-- The list of passwords is read back, whatever the secrets are. -/
theorem l2tpPasswords_envLines (psk primaryUser primaryPassword : Text) (hclean : ∀ v ∈ users, Clean v) :
    l2tpPasswords (Text.encode (Text.unlines '\n' (Ikev2.envLines psk primaryUser primaryPassword (enabledUsers users)))) =
      (enabledUsers users).map (·.l2tpPassword) := by
  have hwords : ∀ v ∈ enabledUsers users, v.l2tpPassword ≠ [] ∧ ' ' ∉ v.l2tpPassword := fun v hv =>
    have htoken := (hclean v (mem_enabledUsers.mp hv).1).l2tpPassword
    ⟨htoken.1, htoken.not_mem (by decide)⟩
  have hline : '\n' ∉ passwordsLine users := by
    have hvalue : '\n' ∉ [' '].intercalate ((enabledUsers users).map (·.l2tpPassword)) := by
      refine Ikev2.newline_not_mem_intercalate fun w hw => ?_
      obtain ⟨v, hv, rfl⟩ := List.mem_map.mp hw
      exact (hclean v (mem_enabledUsers.mp hv).1).l2tpPassword.not_mem (by decide)
    intro hmem
    rcases List.mem_append.mp hmem with hmem | hmem
    · exact absurd hmem (by decide)
    · rcases List.mem_cons.mp hmem with heq | hmem
      · exact absurd heq (by decide)
      · exact hvalue hmem
  have henv : ∃ front, Ikev2.envLines psk primaryUser primaryPassword (enabledUsers users) = front ++ [passwordsLine users] :=
    ⟨_, (List.dropLast_append_getLast (by simp [Ikev2.envLines])).symm⟩
  obtain ⟨front, hfront⟩ := henv
  rw [hfront, l2tpPasswords, Text.decode_encode]
  dsimp only
  rw [Text.lines_unlines_concat front hline, Ikev2.envList, envValue_passwordsLine]
  exact Ikev2.words_map_intercalate hwords

/-- A line of the login list holds one pair with a password at most, and it is that user's. -/
theorem records_login {v : User} (hclean : Clean v) (hname : Users.nameRe v.name = true) {r : Bytes × Bytes}
    (hr : r ∈ DnsttSshd.records (Text.encode (Dnstt.login v))) (hne : r.2 ≠ []) :
    r = (Text.encode v.name, Text.encode v.dnsttPassword) := by
  have hlast : DnsttSshd.lastField ((Text.encode v.dnsttPassword).filter (· ≠ 0)) = Text.encode v.dnsttPassword := by
    refine Dnstt.lastField_encode.mpr ⟨hclean.dnsttPassword.not_mem (by decide), fun h => ?_⟩
    exact hclean.dnsttPassword.not_mem (c := ':') (by decide) (List.mem_of_getLast? h.2)
  have hnl : '\n' ∉ v.dnsttPassword := hclean.dnsttPassword.not_mem (by decide)
  by_cases hnewline : '\n' ∈ v.name
  · -- the newline ends the name's line, and the password's line has no name
    obtain ⟨name, hplain, hv | hv⟩ := Users.nameRe_iff.mp hname
    · exact absurd (hv ▸ hnewline) (hplain.not_mem (by decide))
    · have hline : Text.encode (Dnstt.login v) =
          Text.encode name ++ DnsttSshd.nl :: ([] ++ DnsttSshd.colon :: Text.encode v.dnsttPassword) := by
        rw [Dnstt.encode_login, hv, Text.encode_append, List.append_assoc]
        rfl
      have hcolon : DnsttSshd.colon ∉ (Text.encode name).filter (· ≠ 0) := fun hmem =>
        Dnstt.colon_mem_encode.not.mpr (hplain.not_mem (by decide)) (List.mem_filter.mp hmem).1
      rw [hline, DnsttSshd.records_append, List.mem_append] at hr
      rcases hr with hr | hr
      · rw [DnsttSshd.records, List.splitOn_eq_singleton (Dnstt.nl_mem_encode.not.mpr (hplain.not_mem (by decide)))] at hr
        obtain ⟨line, hmem, rfl⟩ := List.mem_map.mp (List.mem_filter.mp hr).1
        obtain rfl := List.mem_singleton.mp hmem
        rw [DnsttSshd.readFields, Text.cut_of_not_mem hcolon] at hne
        exact absurd rfl hne
      · have hnl' : DnsttSshd.nl ∉ [] ++ DnsttSshd.colon :: Text.encode v.dnsttPassword := by
          rw [List.nil_append, List.mem_cons, not_or]
          exact ⟨by decide, Dnstt.nl_mem_encode.not.mpr hnl⟩
        rw [DnsttSshd.records, List.splitOn_eq_singleton hnl'] at hr
        obtain ⟨hmem, hkept⟩ := List.mem_filter.mp hr
        obtain rfl := List.mem_singleton.mp hmem
        rw [DnsttSshd.readFields_append (by decide) (by decide)] at hkept
        cases hkept
  · rw [Dnstt.records_login (Users.plainName_of_nameRe hname hnewline) hnl] at hr
    obtain rfl := List.mem_singleton.mp hr
    rw [Dnstt.record, hlast]

/-- One of the credentials is the other user's too. -/
def Shares (u v : User) : Prop := v.vlessUuid = u.vlessUuid ∨ v.hysteria2Password = u.hysteria2Password ∨
  v.l2tpPassword = u.l2tpPassword ∨ (v.name, v.dnsttPassword) = (u.name, u.dnsttPassword)

/-- A rendered file lets in whom it was rendered for. -/
theorem shares_of_render {py : CaseMap} {p : Protocol} (hp : p ∈ protocols py) {files : Tree}
    (h : p.render secrets users = .ok files) (hclean : ∀ v ∈ users, Clean v) (hu : Clean u) {f : Text × Bytes} (hf : f ∈ files)
    (hcarries : Carries u f.1 f.2) : ∃ v ∈ enabledUsers users, Shares u v := by
  simp only [protocols, List.mem_cons, List.not_mem_nil, or_false] at hp
  rcases hp with rfl | rfl | rfl | rfl
  · obtain ⟨key, shortId, rfl⟩ := VlessReality.render_eq_ok h
    obtain rfl := List.mem_singleton.mp hf
    dsimp only at hcarries
    rcases hcarries with ⟨-, hmem⟩ | ⟨hrel, -⟩ | ⟨hrel, -⟩ | ⟨hrel, -⟩
    · rw [inboundUsers_dumps, vlessUuids_inbound] at hmem
      obtain ⟨v, hv, heq⟩ := List.mem_map.mp hmem
      exact ⟨v, hv, .inl heq⟩
    all_goals exact absurd hrel (by decide)
  · obtain ⟨obfs, crt, key, rfl⟩ := Hysteria2.render_eq_ok h
    simp only [List.mem_cons, List.not_mem_nil, or_false] at hf
    rcases hf with rfl | rfl | rfl
    · dsimp only at hcarries
      rcases hcarries with ⟨hrel, -⟩ | ⟨-, hmem⟩ | ⟨hrel, -⟩ | ⟨hrel, -⟩
      · exact absurd hrel (by decide)
      · rw [inboundUsers_dumps, hysteria2Passwords_inbound] at hmem
        obtain ⟨v, hv, heq⟩ := List.mem_map.mp hmem
        exact ⟨v, hv, .inr (.inl heq)⟩
      all_goals exact absurd hrel (by decide)
    all_goals
      dsimp only at hcarries
      rcases hcarries with ⟨hrel, -⟩ | ⟨hrel, -⟩ | ⟨hrel, -⟩ | ⟨hrel, -⟩
      all_goals exact absurd hrel (by decide)
  · obtain ⟨-, psk, primaryUser, primaryPassword, -, -, -, rfl⟩ := Ikev2.render_eq_ok.mp h
    obtain rfl := List.mem_singleton.mp hf
    dsimp only at hcarries
    rcases hcarries with ⟨hrel, -⟩ | ⟨hrel, -⟩ | ⟨-, hmem⟩ | ⟨hrel, -⟩
    · exact absurd hrel (by decide)
    · exact absurd hrel (by decide)
    · rw [l2tpPasswords_envLines _ _ _ hclean] at hmem
      obtain ⟨v, hv, heq⟩ := List.mem_map.mp hmem
      exact ⟨v, hv, .inr (.inr (.inl heq))⟩
    · exact absurd hrel (by decide)
  · obtain ⟨-, -, hchecked⟩ := Dnstt.render_eq_ok h
    obtain ⟨key, env, rfl⟩ := Dnstt.render_files h
    simp only [List.mem_cons, List.not_mem_nil, or_false] at hf
    rcases hf with rfl | rfl | rfl
    · dsimp only at hcarries
      rcases hcarries with ⟨hrel, -⟩ | ⟨hrel, -⟩ | ⟨hrel, -⟩ | ⟨hrel, -⟩
      all_goals exact absurd hrel (by decide)
    · dsimp only at hcarries
      rcases hcarries with ⟨hrel, -⟩ | ⟨hrel, -⟩ | ⟨hrel, -⟩ | ⟨-, hmem⟩
      · exact absurd hrel (by decide)
      · exact absurd hrel (by decide)
      · exact absurd hrel (by decide)
      · rw [Dnstt.records_logins] at hmem
        obtain ⟨v, hv, hmem⟩ := List.mem_flatMap.mp hmem
        have hissued := List.mem_filter.mp hv
        have henabled : v.enabled = true := (Bool.and_eq_true_iff.mp hissued.2).1
        have hpair := records_login (hclean v hissued.1) (hchecked v hv).1 hmem (Dnstt.encode_ne_nil hu.dnsttPassword.1)
        have hname := Text.encode_injective (congrArg Prod.fst hpair)
        have hpassword := Text.encode_injective (congrArg Prod.snd hpair)
        exact ⟨v, mem_enabledUsers.mpr ⟨hissued.1, henabled⟩, .inr (.inr (.inr (by rw [hname, hpassword])))⟩
    · dsimp only at hcarries
      rcases hcarries with ⟨hrel, -⟩ | ⟨hrel, -⟩ | ⟨hrel, -⟩ | ⟨hrel, -⟩
      all_goals exact absurd hrel (by decide)

/-- A rendered tree lets in its enabled users, and nobody else but whom the checkout lets in. -/
theorem shares_of_tree {py : CaseMap} {st : State} {common tree : Tree}
    (h : buildTree secrets common users (enabledProtocols py st) = .ok tree) (hclean : ∀ v ∈ users, Clean v) (hu : Clean u)
    {rel : Text} {file : Bytes} (hfile : tree.lookup rel = some file) (hcarries : Carries u rel file) :
    (rel, file) ∈ commonFiles common ∨ ∃ v ∈ enabledUsers users, Shares u v := by
  obtain ⟨l₁, l₂, hsplit, -⟩ := List.lookup_eq_some_iff.mp hfile
  have hmem : (rel, file) ∈ tree := by rw [hsplit]; simp
  obtain ⟨_, -, hadd⟩ := Except.bind_eq_ok.mp h
  obtain ⟨-, -, hfrom, -⟩ := addProtocols_eq_ok hadd
  rcases hfrom _ hmem with hcommon | ⟨p, hp, files, hfiles, hf⟩
  · exact .inl hcommon
  · exact .inr (shares_of_render (mem_enabledProtocols py hp).1 hfiles hclean hu hf hcarries)

end Render

/-! ## The database -/

/-- No two records have one name, and every record has its own made-up secrets. -/
structure Tidy (users : List User) : Prop where
  names : (users.map (·.name)).Nodup
  clean : ∀ u ∈ users, Clean u

section Tidy

variable {users users' : List User} {host : Host} {d : Discipline Op World Choice} {w : World}

/-- Whether a list is tidy is not told by who has a certificate. -/
theorem Tidy.congr (h : Tidy users) (heq : users'.map Settings.forget = users.map Settings.forget) : Tidy users' := by
  have hnames : ∀ l : List User, (l.map Settings.forget).map (·.name) = l.map (·.name) := fun l => List.map_map ..
  refine ⟨?_, fun u hu => ?_⟩
  · rw [← hnames, heq, hnames]
    exact h.names
  · obtain ⟨v, hv, hforget⟩ := List.mem_map.mp (heq ▸ List.mem_map_of_mem (f := Settings.forget) hu)
    have hclean := h.clean v hv
    have hclean' : Clean (Settings.forget u) :=
      hforget ▸ ⟨hclean.vlessUuid, hclean.hysteria2Password, hclean.l2tpPassword, hclean.dnsttPassword⟩
    exact ⟨hclean'.vlessUuid, hclean'.hysteria2Password, hclean'.l2tpPassword, hclean'.dnsttPassword⟩

theorem Tidy.filter (h : Tidy users) (p : User → Bool) : Tidy (users.filter p) :=
  ⟨h.names.sublist (List.filter_sublist.map _), fun u hu => h.clean u (List.mem_filter.mp hu).1⟩

/-- The records behind a change of the first of that name are the others, and that one with its new note. -/
theorem mem_setFirst {py : CaseMap} {enabled : Bool} {name : Text} {v : User} (h : v ∈ setFirst py enabled name users) :
    v ∈ users ∨ ∃ u ∈ users, v = { u with enabled } := by
  induction users with
  | nil => exact .inl h
  | cons u users ih =>
    rw [setFirst] at h
    split at h
    · rcases List.mem_cons.mp h with rfl | h
      · exact .inr ⟨u, List.mem_cons_self .., rfl⟩
      · exact .inl (List.mem_cons_of_mem _ h)
    · rcases List.mem_cons.mp h with rfl | h
      · exact .inl (List.mem_cons_self ..)
      · rcases ih h with h | ⟨u', hu', rfl⟩
        · exact .inl (List.mem_cons_of_mem _ h)
        · exact .inr ⟨u', List.mem_cons_of_mem _ hu', rfl⟩

/-- Turning a user on or off leaves a tidy list tidy. -/
theorem Tidy.setFirst {py : CaseMap} {enabled : Bool} {name : Text} (h : Tidy users) :
    Tidy (setFirst py enabled name users) := by
  refine ⟨by rw [map_name_setFirst]; exact h.names, fun v hv => ?_⟩
  rcases mem_setFirst hv with hv | ⟨u, hu, rfl⟩
  · exact h.clean v hv
  · have hclean := h.clean u hu
    exact ⟨hclean.vlessUuid, hclean.hysteria2Password, hclean.l2tpPassword, hclean.dnsttPassword⟩

/-- Behind a disable, an enabled record is another user's. -/
theorem ne_of_disabled {py : CaseMap} {name : Text} {u v : User} (hnames : (users.map (·.name)).Nodup)
    (hu : Users.find py users name = some u) (hv : v ∈ VpnStack.setFirst py false name users) (henabled : v.enabled = true) :
    v ∈ users ∧ v ≠ u := by
  induction users with
  | nil => cases hu
  | cons x users ih =>
    rw [List.map_cons, List.nodup_cons] at hnames
    rw [Users.find, List.find?_cons] at hu
    rw [VpnStack.setFirst] at hv
    by_cases hx : py.lower x.name = py.lower name
    · rw [beq_iff_eq.mpr hx] at hu
      rw [if_pos hx] at hv
      cases hu
      rcases List.mem_cons.mp hv with rfl | hmem
      · cases henabled
      · refine ⟨List.mem_cons_of_mem _ hmem, ?_⟩
        rintro rfl
        exact hnames.1 (List.mem_map_of_mem hmem)
    · rw [beq_false_of_ne hx] at hu
      change users.find? (fun u => py.lower u.name == py.lower name) = some u at hu
      rw [if_neg hx] at hv
      rcases List.mem_cons.mp hv with rfl | hv
      · refine ⟨List.mem_cons_self .., ?_⟩
        rintro rfl
        have hfound := List.find?_some hu
        exact hx (beq_iff_eq.mp hfound)
      · obtain ⟨hmem, hne⟩ := ih hnames.2 hu hv
        exact ⟨List.mem_cons_of_mem _ hmem, hne⟩

/-! ## Every command keeps the database tidy -/

/-- A script that does not write the users keeps them tidy. -/
theorem keeps_users {parts : List Part} {α : Type} {p : Cmd α} (hp : Touches parts p) (husers : .users ∉ parts)
    (h : Tidy w.users) : ends (server host) d p (fun _ w' => Tidy w'.users) (fun _ w' => Tidy w'.users) (fun w' => Tidy w'.users)
      w :=
  hp.keeps (I := fun w' => Tidy w'.users) (fun o ho c w' h => by rw [exec_users fun heq => husers (heq ▸ ho)]; exact h) h

/-- An apply keeps the users tidy: it only notes who has a certificate. -/
theorem apply_tidy (restart : Bool) (h : Tidy w.users) :
    ends (server host) d (apply host.py restart) (fun _ w' => Tidy w'.users) (fun _ w' => Tidy w'.users)
      (fun w' => Tidy w'.users) w :=
  ends_mono (Settings.apply_ends restart) (fun _ _ hw => h.congr hw.users) (fun _ _ hw => h.congr hw.users)
    (fun _ hw => h.congr hw.users)

/-- A tidy list that is written is still tidy when it was applied. -/
theorem saveApply_tidy {users : List User} (h : Tidy w.users) (husers : Tidy users) :
    ends (server host) d (do call (.saveUsers users); apply host.py true) (fun _ w' => Tidy w'.users)
      (fun _ w' => Tidy w'.users) (fun w' => Tidy w'.users) w := by
  refine ends_seq (M := fun _ w' => Tidy w'.users) ?_ fun _ w' h' => apply_tidy true h'
  exact ends_exec (fun _ => h) (fun _ _ _ => husers) (fun _ _ _ _ => h) (fun _ _ _ _ => husers)

/-- What is read is the database as it is. -/
theorem loadUsers_tidy (h : Tidy w.users) : ends (server host) d (call .loadUsers)
    (fun users w' => Tidy w'.users ∧ users = w'.users) (fun _ w' => Tidy w'.users) (fun w' => Tidy w'.users) w := by
  refine ends_mono (ends_read (I := fun w' => Tidy w'.users) rfl h) (fun users w' hw => ?_) (fun _ _ h => h) (fun _ h => h)
  obtain ⟨rfl, c, rfl⟩ := hw
  exact ⟨h, rfl⟩

/-- To queue a revocation writes the state. -/
theorem queueRevocation_touches (user : User) : Touches [.nothing, .state] (queueRevocation user) := by
  refine .ite (.bind (.call (by simp [Op.part])) fun st => ?_) (Script.uses_pure ())
  exact .ite (Script.uses_pure ()) (.call (by simp [Op.part]))

/-- `user add` keeps the users tidy: it mints credentials that nobody has. -/
theorem userAdd_tidy (name : Text) (h : Tidy w.users) :
    ends (server host) d (userAdd host.py name) (fun _ w' => Tidy w'.users) (fun _ w' => Tidy w'.users)
      (fun w' => Tidy w'.users) w := by
  refine ends_seq (keeps_users (show Touches [.nothing] _ from .call (by simp [Op.part])) (by decide) h) fun _ w h => ?_
  cases Users.validateName host.py name with
  | some error => exact h
  | none =>
    refine ends_seq (loadUsers_tidy h) fun users w h => ?_
    obtain ⟨h, rfl⟩ := h
    cases hfind : Users.find host.py w.users name with
    | some user => exact h
    | none =>
      refine ends_seq (ends_read (I := fun w' => Tidy w'.users) rfl h) fun minted w' hw => ?_
      obtain ⟨rfl, -⟩ := hw
      refine saveApply_tidy h ⟨?_, fun u hu => ?_⟩
      · rw [List.map_append, List.nodup_append]
        refine ⟨h.names, List.nodup_singleton _, fun a ha b hb => ?_⟩
        obtain ⟨u, hu, rfl⟩ := List.mem_map.mp ha
        obtain rfl := List.mem_singleton.mp hb
        intro heq
        exact List.find?_eq_none.mp hfind u hu (beq_iff_eq.mpr (congrArg host.py.lower heq))
      · rcases List.mem_append.mp hu with hu | hu
        · exact h.clean u hu
        · obtain rfl := List.mem_singleton.mp hu
          exact ⟨minted.words _ (by simp), minted.words _ (by simp), minted.words _ (by simp), minted.words _ (by simp)⟩

/-- `user rm` keeps the users tidy: it takes one away. -/
theorem userRm_tidy (name : Text) (h : Tidy w.users) :
    ends (server host) d (userRm host.py name) (fun _ w' => Tidy w'.users) (fun _ w' => Tidy w'.users)
      (fun w' => Tidy w'.users) w := by
  refine ends_seq (keeps_users (show Touches [.nothing] _ from .call (by simp [Op.part])) (by decide) h) fun _ w h => ?_
  refine ends_seq (loadUsers_tidy h) fun users w h => ?_
  obtain ⟨h, rfl⟩ := h
  cases Users.find host.py w.users name with
  | none => exact h
  | some user => exact ends_seq (keeps_users (queueRevocation_touches user) (by decide) h) fun _ w' h' => saveApply_tidy h' (h.filter _)

/-- `user enable` and `user disable` keep the users tidy. -/
theorem setEnabled_tidy (name : Text) (enabled : Bool) (h : Tidy w.users) :
    ends (server host) d (setEnabled host.py name enabled) (fun _ w' => Tidy w'.users) (fun _ w' => Tidy w'.users)
      (fun w' => Tidy w'.users) w := by
  refine ends_seq (keeps_users (show Touches [.nothing] _ from .call (by simp [Op.part])) (by decide) h) fun _ w h => ?_
  refine ends_seq (loadUsers_tidy h) fun users w h => ?_
  obtain ⟨h, rfl⟩ := h
  cases Users.find host.py w.users name with
  | none => exact h
  | some user =>
    refine ends_ite (fun _ => saveApply_tidy h h.setFirst) (fun _ => ?_)
    exact ends_seq (keeps_users (queueRevocation_touches user) (by decide) h) fun _ w' h' => saveApply_tidy h' h.setFirst

/-- `protocol on` and `protocol off` keep the users tidy. -/
theorem setProtocol_tidy (name : String) (on : Bool) (h : Tidy w.users) :
    ends (server host) d (setProtocol host.py name on) (fun _ w' => Tidy w'.users) (fun _ w' => Tidy w'.users)
      (fun w' => Tidy w'.users) w := by
  have htoggle : ∀ (proto : Protocol) (st : State) {w}, Tidy w.users → ends (server host) d
      (toggleProtocol host.py proto st on) (fun _ w' => Tidy w'.users) (fun _ w' => Tidy w'.users) (fun w' => Tidy w'.users) w := by
    intro proto st w h
    refine ends_seq (keeps_users (show Touches [.state] _ from .call (by simp [Op.part])) (by decide) h) fun _ w h =>
      ends_ite (fun _ => ?_) (fun _ => apply_tidy true h)
    exact ends_seq (keeps_users (prepareSecrets_touches proto _) (by decide) h) fun _ w h => apply_tidy true h
  refine ends_seq (keeps_users (show Touches [.nothing] _ from .call (by simp [Op.part])) (by decide) h) fun _ w h => ?_
  refine ends_seq (keeps_users (show Touches [.nothing] _ from Script.uses_lift _) (by decide) h) fun proto w h => ?_
  refine ends_seq (keeps_users (show Touches [.nothing] _ from .call (by simp [Op.part])) (by decide) h) fun st w h => ?_
  refine ends_ite (fun _ => h) (fun _ => ends_ite (fun _ => ?_) (fun _ => ends_map.mpr (htoggle proto st h)))
  refine ends_seq (keeps_users (missingDeploymentConfig_touches proto) (by decide) h) fun gap w h => ?_
  cases gap with
  | some gap => exact h
  | none => exact ends_map.mpr (htoggle proto st h)

/-- Every command keeps the users tidy. -/
theorem command_tidy (a : Action) (h : Tidy w.users) :
    ends (server host) d (a.command host.py) (fun _ w' => Tidy w'.users) (fun _ w' => Tidy w'.users)
      (fun w' => Tidy w'.users) w := by
  cases a with
  | userAdd name => exact ends_map.mpr (userAdd_tidy name h)
  | userRm name => exact ends_map.mpr (userRm_tidy name h)
  | userEnable name => exact ends_map.mpr (setEnabled_tidy name true h)
  | userDisable name => exact ends_map.mpr (setEnabled_tidy name false h)
  | protocolOn name => exact setProtocol_tidy name true h
  | protocolOff name => exact setProtocol_tidy name false h
  | apply restart => exact ends_map.mpr (apply_tidy restart h)

/-- Whatever happens between two commands keeps the users tidy. -/
theorem event_tidy (e : Event) (h : Tidy w.users) : Tidy (e.after w).users := by
  cases e <;> exact h

end Tidy

/-! ## A user who is removed or disabled -/

section Shut

variable {host : Host} {w w' : World} {u : User}

/-- The enabled users who are left are others. -/
def Leaves (u : User) (before after : List User) : Prop := Tidy after ∧ ∀ v ∈ enabledUsers after, v ∈ before ∧ v ≠ u

/-- Removing a user leaves none with his credentials. -/
theorem leaves_filter {py : CaseMap} {name : Text} {users : List User} (h : Tidy users) (hu : Users.find py users name = some u) :
    Leaves u users (users.filter fun v => py.lower v.name ≠ py.lower name) := by
  refine ⟨h.filter _, fun v hv => ?_⟩
  obtain ⟨hmem, hne⟩ := List.mem_filter.mp (mem_enabledUsers.mp hv).1
  refine ⟨hmem, ?_⟩
  rintro rfl
  have hfound := List.find?_some hu
  exact (of_decide_eq_true hne) (beq_iff_eq.mp hfound)

/-- Disabling one leaves none that is enabled. -/
theorem leaves_setFirst {py : CaseMap} {name : Text} {users : List User} (h : Tidy users) (hu : Users.find py users name = some u) :
    Leaves u users (setFirst py false name users) := by
  refine ⟨h.setFirst, fun v hv => ?_⟩
  obtain ⟨hmem, henabled⟩ := mem_enabledUsers.mp hv
  exact ne_of_disabled h.names hu hmem henabled

/-- What was deployed, and is served, lets in nobody who has left. -/
theorem shut_of_deployed {after : List User} {result : ApplyResult} (hu : Clean u) (hleaves : Leaves u w.users after)
    (hunshared : Unshared u w.users) (hdeployed : Pending.Deployed host w after result w')
    (hpending : result.convergePending = false) (hcommon : w'.common = w.common) : Shut host u w' := by
  obtain ⟨w₁, rfl, hcommon₁, hsame, tree, hr, hserved⟩ := hdeployed
  obtain ⟨htree, hfresh⟩ := hserved hpending
  have hlive : w'.live = tree := by rw [Pending.live_eq_getD, htree, Option.getD_some]
  have henabled : Pending.enabledIn host w' = Pending.enabledIn host w₁ := by
    unfold Pending.enabledIn enabledProtocols
    rw [hsame.enabled]
  intro s hs c hc rel how file hconsumer hholds hcarries
  rw [henabled] at hs
  have htracked : Pending.Tracked w'.live s := by
    by_cases hbox : s = .singBox
    · exact .inl hbox
    · rw [hlive]
      refine .inr (hasInput_of_expected hr hs hbox ?_)
      rintro rfl
      exact consumer_ne_dnsttSocks hconsumer
  have hfile : tree.lookup rel = some file := hlive ▸ (hfresh s htracked c hc rel how (some file) hconsumer hholds).symm
  rcases shares_of_tree hr hleaves.1.clean hu hfile hcarries with hmem | ⟨v, hv, hshares⟩
  · rw [hcommon, ← hcommon₁]
    exact hmem
  · obtain ⟨hmem, hne⟩ := hleaves.2 v hv
    obtain ⟨hvless, hhysteria, hl2tp, hdnstt⟩ := hunshared v hmem hne
    rcases hshares with h | h | h | h
    · exact absurd h hvless
    · exact absurd h hhysteria
    · exact absurd h hl2tp
    · exact absurd h hdnstt

/-- No command changes the checkout. -/
theorem common_keeps {α : Type} {d : Discipline Op World Choice} (p : Cmd α) :
    ends (server host) d p (fun _ (w' : World) => w'.common = w.common) (fun _ (w' : World) => w'.common = w.common)
      (fun w' => w'.common = w.common) w :=
  ends_of_uses (S := fun _ => True) (I := fun w' => w'.common = w.common) (Script.uses_true p)
    (fun _ _ c w' _ h => withFaults_keeps (I := fun w' : World => w'.common = w.common) (fun _ _ h => exec_common.trans h) c w' h)
    rfl

/-- What a removal or a disabling that settled leaves behind. -/
theorem shut_of_settled {name : Text} {a : Action} (ha : a = .userRm name ∨ a = .userDisable name)
    (hremembered : Pending.Remembered w) (htidy : Tidy w.users) (hu : Users.find host.py w.users name = some u)
    (hunshared : Unshared u w.users) :
    ends (server host) Pending.careful (a.command host.py) (fun r w' => Settled (some (.ok r)) = true → Shut host u w')
      (fun _ _ => True) (fun _ => True) w := by
  have hclean : Clean u := htidy.clean u (List.mem_of_find?_eq_some hu)
  have hshut : ∀ {after : List User} {r w'}, Leaves u w.users after →
      (Pending.Remembered w' ∧ Pending.Deployed host w after r w') ∧ w'.common = w.common →
      Settled (some (.ok (some r))) = true → Shut host u w' := by
    rintro after r w' hleaves ⟨⟨-, hdeployed⟩, hcommon⟩ hsettled
    have hpending : r.convergePending = false := by simpa [Settled] using hsettled
    exact shut_of_deployed hclean hleaves hunshared hdeployed hpending hcommon
  rcases ha with rfl | rfl
  · refine ends_map.mpr (ends_mono (ends_and (Pending.userRm_ends name hremembered) (common_keeps _)) (fun r w' h => ?_)
      (fun _ _ _ => trivial) (fun _ _ => trivial))
    exact hshut (leaves_filter htidy hu) h
  · refine ends_map.mpr (ends_mono (ends_and (Pending.setEnabled_ends name false hremembered) (common_keeps _))
      (fun r w' h => ?_) (fun _ _ _ => trivial) (fun _ _ => trivial))
    exact hshut (leaves_setFirst htidy hu) h

end Shut

/-- In every careful life, a user who was removed, or disabled, by a command that left no converge pending is let in by no
container of a protocol that is on. -/
theorem revoked_shut (host : Host) (keyring : String → Option Bytes) (zone : Text) (common : Dir) (steps : List Step)
    (a : Action) (choices : List Choice) (name : Text) (u : User) (ha : a = .userRm name ∨ a = .userDisable name)
    (h : LivesWithin host Pending.careful (steps ++ [.command a choices]) (World.provisioned keyring zone common))
    (hu : Users.find host.py (life host steps (World.provisioned keyring zone common)).users name = some u)
    (hunshared : Unshared u (life host steps (World.provisioned keyring zone common)).users)
    (hsettled : Settled ((a.command host.py).run (server host) choices
      (life host steps (World.provisioned keyring zone common))).1 = true) :
    Shut host u (life host (steps ++ [.command a choices]) (World.provisioned keyring zone common)) := by
  obtain ⟨hsteps, hlast⟩ := (LivesWithin.append host).mp h
  have hremembered := Pending.life_remembered host keyring zone common hsteps
  have htidy : Tidy (life host steps (World.provisioned keyring zone common)).users :=
    life_keeps host (I := fun w => Tidy w.users) (fun a _ hw => command_tidy a hw) (fun e _ hw => event_tidy e hw) hsteps
      ⟨List.nodup_nil, nofun⟩
  rw [life_append]
  generalize life host steps (World.provisioned keyring zone common) = w at *
  have hends := ends_run (shut_of_settled ha hremembered htidy hu hunshared) hlast.1
  change Shut host u ((a.command host.py).run (server host) choices w).2
  revert hends hsettled
  generalize (a.command host.py).run (server host) choices w = result
  intro hsettled hends
  obtain ⟨_ | r, w'⟩ := result
  · cases hsettled
  · cases r with
    | ok r => exact hends hsettled
    | error e => cases hsettled

def alice : Text := "alice".toList

/-- A server with a keyring that has everything, and nobody on it. -/
def sampleWorld : World := World.provisioned (fun _ => some [0x61]) [] ⟨[], List.nodup_nil⟩

/-- Alice as she is added, behind the first converge. -/
def aliceUser : User := ⟨alice, "1b4e-28ba", "8f0c", "a1d2", true, true, "2026-01-01T00:00:00Z", "Zx9y"⟩

instance (u : User) (users : List User) : Decidable (Unshared u users) := by
  unfold Unshared
  infer_instance

/-- Alice is added. -/
def addedLife : List Step := [.command (.userAdd alice) (List.replicate 60 {})]

/-- Alice is added, and then disabled by a command that cannot write state.json behind the replacement of the link. -/
def unmarkedLife : List Step :=
  [.command (.userAdd alice) (List.replicate 60 {}),
    .command (.userDisable alice) ((List.replicate 60 ({} : Choice)).set 27 { fault := .before .osError })]

/-- She is disabled, and let in by nothing any more. -/
theorem revoked_shut_plain :
    Shut Host.sample aliceUser (life Host.sample (addedLife ++ [.command (.userDisable alice) (List.replicate 60 {})])
      sampleWorld) :=
  revoked_shut Host.sample (fun _ => some [0x61]) [] ⟨[], List.nodup_nil⟩ addedLife (.userDisable alice) (List.replicate 60 {})
    alice aliceUser (.inr rfl)
    (LivesWithin.mono Host.sample (fun _ _ _ => Pending.careful_of_smooth) nofun
      (show LivesWithin Host.sample Pending.smooth _ _ by decide +kernel))
    (by decide +kernel) (by decide +kernel) (by decide +kernel)

/-- The fragment of VLESS, when Alice is the only user. -/
def aliceFragment : Bytes :=
  Text.encode (Json.dumps (.obj [("inbounds".toList, .arr [VlessReality.inbound "a" "a" [aliceUser]])]) ++ ['\n'])

/-- A container that is mounted on a file with the user's identity in it lets him in. -/
theorem not_shut_of_mount {host : Host} {w : World} {u : User} {file : Bytes} {rel : Text}
    (hrel : rel = "sing-box/10_vless-reality.json".toList)
    (hmount : ((w.docker.containers .singBox).bind (·.starts.head?)).any (fun st => st.mounts.lookup rel == some file) = true)
    (huuid : u.vlessUuid ∈ inboundUsers file "uuid") (hcommon : commonFiles w.common.files = []) : ¬ Shut host u w := by
  intro h
  obtain ⟨st, hst, hlookup⟩ := (Option.any_eq_true _ _).mp hmount
  obtain ⟨c, hc, hhead⟩ := Option.bind_eq_some_iff.mp hst
  have hconsumer : consumer rel = some (.singBox, .mount) := by rw [hrel]; decide
  have hnone := h .singBox (List.mem_cons_self ..) c hc rel .mount file hconsumer ⟨st, hhead, beq_iff_eq.mp hlookup⟩
    (.inl ⟨hrel, huuid⟩)
  rw [hcommon] at hnone
  exact List.not_mem_nil hnone

/-- She is disabled once more, the command leaves no converge pending, and sing-box still lets her in. -/
theorem revoked_shut_unmarked :
    Users.find Host.sample.py (life Host.sample unmarkedLife sampleWorld).users alice = some { aliceUser with enabled := false } ∧
      Unshared { aliceUser with enabled := false } (life Host.sample unmarkedLife sampleWorld).users ∧
      Settled ((Action.command Host.sample.py (.userDisable alice)).run (server Host.sample) (List.replicate 60 {})
        (life Host.sample unmarkedLife sampleWorld)).1 = true ∧
      ¬ Shut Host.sample { aliceUser with enabled := false }
        (life Host.sample (unmarkedLife ++ [.command (.userDisable alice) (List.replicate 60 {})]) sampleWorld) := by
  have huuid : aliceUser.vlessUuid ∈ inboundUsers aliceFragment "uuid" := by
    rw [aliceFragment, inboundUsers_dumps, vlessUuids_inbound]
    exact List.mem_cons_self ..
  exact ⟨by decide +kernel, by decide +kernel, by decide +kernel,
    @not_shut_of_mount _ _ _ aliceFragment _ rfl (by decide +kernel) huuid (by decide +kernel)⟩

end Access

end VpnStack

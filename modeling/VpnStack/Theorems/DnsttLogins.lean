import VpnStack.Protocols.Dnstt
import VpnStack.DnsttSshd

/-!
# What the dnstt sshd makes of the login list

`dnstt.render` writes the list and the entrypoint of the container reads it. They disagree on a name with a newline at its
end, which the name check lets through, on two users of one name, and on two shapes of password: one with a NUL, which no
shell variable holds, and one that is a single field with a colon behind it, which `read` takes off.
-/

namespace VpnStack

open Python

namespace Dnstt

open DnsttSshd (Image Container entrypoint records readFields lastField Servable)

/-- A start in a fresh container comes to its end, and has set the passwords of exactly the users with a login, and of no
account of the image. -/
def Served (image : Image) (users : List User) (file : Bytes) : Prop :=
  ∃ c, entrypoint image image.fresh (some file) = .ok c ∧
    c.passwords = (issuedUsers users).map (fun u => (Text.encode u.name, Text.encode u.dnsttPassword)) ∧
    ∀ login ∈ c.passwords, login.1 ∉ image.accounts

/-- A password that is a single field with a colon behind it. -/
def ColonEnded (password : Text) : Prop := ':' ∉ password.dropLast ∧ password.getLast? = some ':'

/-- A login that is read as it was written. -/
def Readable (u : User) : Prop := '\n' ∉ u.name ∧ '\x00' ∉ u.dnsttPassword ∧ ¬ ColonEnded u.dnsttPassword

instance (password : Text) : Decidable (ColonEnded password) := inferInstanceAs (Decidable (_ ∧ _))

instance (u : User) : Decidable (Readable u) := inferInstanceAs (Decidable (_ ∧ _))

/-! ## Characters and bytes -/

theorem colon_mem_encode {t : Text} : DnsttSshd.colon ∈ Text.encode t ↔ ':' ∈ t := Text.mem_encode_ascii (c := ':') (by decide)

theorem nl_mem_encode {t : Text} : DnsttSshd.nl ∈ Text.encode t ↔ '\n' ∈ t := Text.mem_encode_ascii (c := '\n') (by decide)

theorem nul_mem_encode {t : Text} : 0 ∈ Text.encode t ↔ '\x00' ∈ t := Text.mem_encode_ascii (c := '\x00') (by decide)

/-- A password is a single field with a colon behind it exactly when its bytes are. -/
theorem encode_colon_field {t : Text} :
    (∃ field, DnsttSshd.colon ∉ field ∧ Text.encode t = field ++ [DnsttSshd.colon]) ↔ ColonEnded t := by
  constructor
  · rintro ⟨field, hfield, h⟩
    obtain ⟨s, rfl, rfl⟩ := (Text.encode_eq_append_ascii (c := ':') (by decide)).mp h
    refine ⟨?_, List.getLast?_concat⟩
    rw [List.dropLast_concat]
    exact colon_mem_encode.not.mp hfield
  · rintro ⟨hfield, hlast⟩
    refine ⟨Text.encode t.dropLast, colon_mem_encode.not.mpr hfield, ?_⟩
    rw [← List.dropLast_append_getLast? ':' hlast, List.dropLast_concat]
    exact Text.encode_append t.dropLast [':']

/-- What the second field of a login's line is read as. -/
theorem lastField_encode {t : Text} : lastField ((Text.encode t).filter (· ≠ 0)) = Text.encode t ↔
    '\x00' ∉ t ∧ ¬ ColonEnded t := by
  rw [DnsttSshd.lastField_filter_eq_self_iff, nul_mem_encode, encode_colon_field]

/-! ## Records -/

/-- The record of a plain login, as it is read. -/
def record (u : User) : Bytes × Bytes := (Text.encode u.name, lastField ((Text.encode u.dnsttPassword).filter (· ≠ 0)))

/-- The records of a rendered list are those of its lines. -/
theorem records_logins (issued : List User) : records (Text.encode (Text.unlines '\n' (issued.map login))) =
    issued.flatMap fun u => records (Text.encode (login u)) := by
  rw [Text.encode_unlines, DnsttSshd.records_unlines, List.flatMap_map, List.flatMap_map]

/-- A login is the bytes of its name, a colon and those of its password. -/
theorem encode_login (u : User) :
    Text.encode (login u) = Text.encode u.name ++ DnsttSshd.colon :: Text.encode u.dnsttPassword :=
  Text.encode_append u.name (':' :: u.dnsttPassword)

/-- A plain name is read as it was written. -/
theorem readFields_login {u : User} (hname : Users.PlainName u.name) : readFields (Text.encode (login u)) = record u := by
  rw [encode_login]
  exact DnsttSshd.readFields_append (colon_mem_encode.not.mpr (hname.not_mem (by decide)))
    (nul_mem_encode.not.mpr (hname.not_mem (by decide)))

theorem encode_ne_nil {t : Text} (h : t ≠ []) : Text.encode t ≠ [] :=
  fun he => h (Text.encode_injective (he.trans Text.encode_nil.symm))

/-- A user with a plain name, and a password on one line, has one record. -/
theorem records_login {u : User} (hname : Users.PlainName u.name) (hpassword : '\n' ∉ u.dnsttPassword) :
    records (Text.encode (login u)) = [record u] := by
  have hfields := readFields_login hname
  rw [← hfields]
  refine DnsttSshd.records_line (nl_mem_encode.not.mpr ?_) ?_
  · simp only [login, List.mem_append, List.mem_cons, not_or]
    exact ⟨hname.not_mem (by decide), by decide, hpassword⟩
  · rw [hfields]
    exact encode_ne_nil hname.isWord.1

/-- A name with a newline at its end leaves a record without a password. -/
theorem records_login_newline {u : User} {name : Text} (hname : Users.PlainName name) (hu : u.name = name ++ ['\n']) :
    (Text.encode name, []) ∈ records (Text.encode (login u)) := by
  have hline : Text.encode (login u) =
      Text.encode name ++ DnsttSshd.nl :: (DnsttSshd.colon :: Text.encode u.dnsttPassword) := by
    rw [encode_login, hu, Text.encode_append, List.append_assoc]
    rfl
  have hfields : readFields (Text.encode name) = (Text.encode name, []) := by
    have hfilter : (Text.encode name).filter (· ≠ 0) = Text.encode name := by
      rw [List.filter_eq_self]
      intro b hb
      have hne : b ≠ 0 := fun h => nul_mem_encode.not.mpr (hname.not_mem (by decide)) (h ▸ hb)
      simpa using hne
    rw [readFields, hfilter, Text.cut_of_not_mem (colon_mem_encode.not.mpr (hname.not_mem (by decide)))]
  rw [hline, DnsttSshd.records_append, List.mem_append]
  refine .inl ?_
  rw [DnsttSshd.records_line (nl_mem_encode.not.mpr (hname.not_mem (by decide))) (by rw [hfields]; exact encode_ne_nil hname.isWord.1),
    hfields]
  exact List.mem_singleton.mpr rfl

/-! ## Accounts -/

/-- The characters of a name are those of a login. -/
theorem isLoginByte_of_isNameChar {c : Char} (h : Users.isNameChar c = true) :
    DnsttSshd.isLoginByte (UInt8.ofNat c.toNat) = true :=
  Users.of_isNameChar (P := fun c => DnsttSshd.isLoginByte (UInt8.ofNat c.toNat) = true) (by decide) h

theorem reservedNames_lower : ∀ name ∈ Users.reservedNames, name.toList.map Char.toLower = name.toList := by decide

/-- A name that is not reserved is no account of the image. -/
theorem not_mem_accounts {py : CaseMap} {image : Image} {name : Text}
    (himage : ∀ a ∈ image.accounts, ∃ name ∈ Users.reservedNames, a = Text.encode name.toList)
    (hname : Users.PlainName name) (hreserved : Users.reservedName py name = none) : Text.encode name ∉ image.accounts := by
  intro hmem
  obtain ⟨reserved, hres, heq⟩ := himage _ hmem
  obtain rfl := Text.encode_injective heq
  refine Users.reservedName_eq_none.mp hreserved (List.mem_map.mpr ⟨reserved, hres, ?_⟩)
  rw [py.lower_ascii _ hname.ascii, reservedNames_lower reserved hres]

/-- A plain name that is not reserved, with a password that is left of it, passes the validation loop. -/
theorem servable_record {py : CaseMap} {image : Image} {u : User}
    (himage : ∀ a ∈ image.accounts, ∃ name ∈ Users.reservedNames, a = Text.encode name.toList)
    (hname : Users.PlainName u.name) (hreserved : Users.reservedName py u.name = none) (hpassword : (record u).2 ≠ []) :
    Servable image.accounts (record u) := by
  have hbytes : (record u).1 = u.name.map fun c => UInt8.ofNat c.toNat := Text.encode_of_ascii hname.ascii
  refine ⟨?_, ?_, ?_, not_mem_accounts himage hname hreserved, hpassword⟩
  · obtain ⟨c, cs, hcs, hc, -⟩ := hname
    rw [hbytes, hcs, List.map_cons, List.head?_cons]
    have hne : UInt8.ofNat c.toNat ≠ 45 :=
      Users.of_isNameChar (P := fun c => Users.isAlnum c = true → UInt8.ofNat c.toNat ≠ 45) (by decide)
        (Users.isAlnum_isNameChar hc) hc
    exact fun h => hne (Option.some.inj h)
  · intro b hb
    rw [hbytes] at hb
    obtain ⟨c, hc, rfl⟩ := List.mem_map.mp hb
    exact isLoginByte_of_isNameChar (hname.all c hc)
  · rw [hbytes, List.length_map]
    exact hname.length_le

/-! ## The result -/

/-- The records of a list of plain names, each with a password on one line. -/
theorem records_of_plain (issued : List User)
    (h : ∀ u ∈ issued, Users.PlainName u.name ∧ '\n' ∉ u.dnsttPassword) :
    records (Text.encode (Text.unlines '\n' (issued.map login))) = issued.map record := by
  rw [records_logins]
  induction issued with
  | nil => rfl
  | cons u issued ih =>
    obtain ⟨hname, hpassword⟩ := h u (List.mem_cons_self ..)
    rw [List.flatMap_cons, records_login hname hpassword, ih (fun v hv => h v (List.mem_cons_of_mem _ hv)), List.map_cons,
      List.singleton_append]

/-- The names of the records, up to their encoding. -/
theorem map_record_fst (issued : List User) :
    (issued.map record).map (·.1) = (issued.map (·.name)).map Text.encode := by
  simp only [List.map_map]
  rfl

/-- What a start that came to its end has set. -/
theorem passwords_of_entrypoint {image : Image} {c : DnsttSshd.Container} {file : Bytes}
    (h : entrypoint image image.fresh (some file) = .ok c) : c.passwords = records file := by
  obtain ⟨-, -, -, rfl⟩ := DnsttSshd.entrypoint_eq_ok.mp h
  exact DnsttSshd.foldl_account_passwords fun r hr => DnsttSshd.of_mem_records hr

/-- A start that comes to its end was given no name with a newline behind it. -/
theorem newline_not_mem_of_entrypoint {image : Image} {c : DnsttSshd.Container} {issued : List User}
    (h : entrypoint image image.fresh (some (Text.encode (Text.unlines '\n' (issued.map login)))) = .ok c) {u : User}
    (hu : u ∈ issued) (hname : Users.nameRe u.name = true) : '\n' ∉ u.name := by
  obtain ⟨-, hservable, -, -⟩ := DnsttSshd.entrypoint_eq_ok.mp h
  obtain ⟨name, hplain, hcase | hcase⟩ := Users.nameRe_iff.mp hname
  · rw [hcase]
    exact hplain.not_mem (by decide)
  · have hrecord := hservable (Text.encode name, [])
      (by rw [records_logins]; exact List.mem_flatMap.mpr ⟨u, hu, records_login_newline hplain hcase⟩)
    exact absurd rfl hrecord.2.2.2.2

/-- What a start served is readable, and under names that are all different. -/
theorem Served.readable (py : CaseMap) {image : Image} (secrets : Secrets) {users : List User} {tree : Tree}
    (hrender : render py secrets users = .ok tree) {file : Bytes} (hfile : tree.lookup "dnstt-sshd/logins".toList = some file)
    (h : Served image users file) :
    (∀ u ∈ issuedUsers users, Readable u) ∧ ((issuedUsers users).map (·.name)).Nodup := by
  obtain ⟨hlookup, -, hchecked⟩ := render_eq_ok hrender
  obtain rfl : Text.encode (Text.unlines '\n' ((issuedUsers users).map login)) = file :=
    Option.some.inj (hlookup.symm.trans hfile)
  obtain ⟨c, hc, hset, -⟩ := h
  have hnl : ∀ u ∈ issuedUsers users, '\n' ∉ u.name := fun u hu => newline_not_mem_of_entrypoint hc hu (hchecked u hu).1
  have hrecords := records_of_plain (issuedUsers users) fun u hu =>
    ⟨Users.plainName_of_nameRe (hchecked u hu).1 (hnl u hu), (hchecked u hu).2.2⟩
  rw [passwords_of_entrypoint hc, hrecords] at hset
  refine ⟨fun u hu => ⟨hnl u hu, lastField_encode.mp ?_⟩, ?_⟩
  · exact congrArg Prod.snd (List.map_inj_left.mp hset u hu)
  · obtain ⟨-, -, hnodup, -⟩ := DnsttSshd.entrypoint_eq_ok.mp hc
    rw [hrecords, map_record_fst] at hnodup
    exact (List.nodup_map_iff Text.encode_injective).mp hnodup

/-- When `render` returns, the sshd serves exactly the logins it means to exactly when every one of them is readable and no
two have one name. -/
theorem render_served_iff (py : CaseMap) (image : Image) (secrets : Secrets) (users : List User) (tree : Tree)
    (himage : ∀ a ∈ image.accounts, ∃ name ∈ Users.reservedNames, a = Text.encode name.toList)
    (hrender : render py secrets users = .ok tree) :
    (∃ file, tree.lookup "dnstt-sshd/logins".toList = some file ∧ Served image users file) ↔
      (∀ u ∈ issuedUsers users, Readable u) ∧ ((issuedUsers users).map (·.name)).Nodup := by
  constructor
  · rintro ⟨file, hfile, hserved⟩
    exact hserved.readable py secrets hrender hfile
  · rintro ⟨hreadable, hnodup⟩
    obtain ⟨hlookup, hissued, hchecked⟩ := render_eq_ok hrender
    have hplain : ∀ u ∈ issuedUsers users, Users.PlainName u.name := fun u hu =>
      Users.plainName_of_nameRe (hchecked u hu).1 (hreadable u hu).1
    have hrecord : ∀ u ∈ issuedUsers users, record u = (Text.encode u.name, Text.encode u.dnsttPassword) := fun u hu =>
      congrArg (Prod.mk _) (lastField_encode.mpr (hreadable u hu).2)
    have hrecords := records_of_plain (issuedUsers users) fun u hu => ⟨hplain u hu, (hchecked u hu).2.2⟩
    have hstart : entrypoint image image.fresh (some (Text.encode (Text.unlines '\n' ((issuedUsers users).map login)))) =
        .ok ((records (Text.encode (Text.unlines '\n' ((issuedUsers users).map login)))).foldl DnsttSshd.account image.fresh) := by
      refine DnsttSshd.entrypoint_eq_ok.mpr ⟨?_, fun r hr => ?_, ?_, rfl⟩
      · rw [hrecords]
        exact fun h => hissued (List.map_eq_nil_iff.mp h)
      · rw [hrecords] at hr
        obtain ⟨u, hu, rfl⟩ := List.mem_map.mp hr
        refine servable_record himage (hplain u hu) (hchecked u hu).2.1 ?_
        rw [hrecord u hu]
        exact encode_ne_nil (mem_issuedUsers hu)
      · rw [hrecords, map_record_fst]
        exact (List.nodup_map_iff Text.encode_injective).mpr hnodup
    have hset := (passwords_of_entrypoint hstart).trans hrecords
    refine ⟨_, hlookup, _, hstart, ?_, fun r hr => ?_⟩
    · rw [hset]
      exact List.map_congr_left hrecord
    · rw [hset] at hr
      obtain ⟨u, hu, rfl⟩ := List.mem_map.mp hr
      exact not_mem_accounts himage (hplain u hu) (hchecked u hu).2.1

/-- An image with three accounts. -/
def sampleImage : Image := ⟨Text.encode "root:x:0:0:root:/root:/bin/sh\nmail:x:8:12::/var/mail:/sbin/nologin\nsshd:x:22:22::/:/bin/false\n"⟩

/-- A keyring with the tunnel's key. -/
def sampleSecrets : Secrets := ⟨fun name => if name = "dnstt.server.key" then some [1, 2] else none⟩

/-- An enabled user of that name and that dnstt password. -/
def sampleUser (name dnsttPassword : Text) : User :=
  ⟨name, "u", "h", "l", false, true, "2026-01-01T00:00:00Z", dnsttPassword⟩

theorem sampleImage_accounts : ∀ a ∈ sampleImage.accounts, ∃ name ∈ Users.reservedNames, a = Text.encode name.toList := by
  decide

/-- Two users `user add` made are served. -/
theorem render_served_plain :
    ∃ tree file, render .ascii sampleSecrets [sampleUser "bob" "b:1", sampleUser "carol" "c1"] = .ok tree ∧
      tree.lookup "dnstt-sshd/logins".toList = some file ∧
      Served sampleImage [sampleUser "bob" "b:1", sampleUser "carol" "c1"] file := by
  obtain ⟨file, hfile, hserved⟩ := (render_served_iff .ascii sampleImage sampleSecrets
    [sampleUser "bob" "b:1", sampleUser "carol" "c1"] _ sampleImage_accounts rfl).mpr (by decide)
  exact ⟨_, file, rfl, hfile, hserved⟩

/-- A name with a newline at its end passes the check, and the container refuses to start on the line it leaves. -/
theorem render_served_newline :
    ¬ ∀ (py : CaseMap) (image : Image) (secrets : Secrets) (users : List User) (tree : Tree),
      (∀ a ∈ image.accounts, ∃ name ∈ Users.reservedNames, a = Text.encode name.toList) →
        render py secrets users = .ok tree →
          ∃ file, tree.lookup "dnstt-sshd/logins".toList = some file ∧ Served image users file := by
  intro h
  obtain ⟨file, hfile, hserved⟩ := h .ascii sampleImage sampleSecrets [sampleUser "bob\n" "b1", sampleUser "carol" "c1"] _
    sampleImage_accounts rfl
  have hbob := (hserved.readable .ascii sampleSecrets rfl hfile).1 (sampleUser "bob\n" "b1") (by decide)
  exact absurd hbob.1 (by decide)

end Dnstt

end VpnStack

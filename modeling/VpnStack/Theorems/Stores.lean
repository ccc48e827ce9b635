import VpnStack.Stores
import VpnStack.Lib.Fallible

/-!
# What users.json and state.json keep

What was saved is loaded as it was, unless it has the halves of a surrogate pair side by side. What was not saved by this program is
taken as it stands: a field of another type than it is declared with is not refused, and a member that has no field is not written back.
Nor is every error of `json.loads` caught.
-/

namespace VpnStack

namespace Stores

open PyJson (Str Value Failure Joined Fits)

/-! ## Reading back -/

/-- What is written of a value that fits is read back. -/
theorem readJson_writeJson (py : Interpreter) {payload : Value} (h : Fits 3 payload) : readJson py (writeJson payload) = .ok payload := by
  have hspace : ∀ c ∈ ['\n'], Json.isWhite c = true := by decide
  simp only [readJson, writeJson, Text.decode_encode]
  exact PyJson.loads_dumps (h.mono py.deep) hspace

/-- The strings of what is read are joined. -/
theorem joined_of_readJson {py : Interpreter} {file : Bytes} {data : Value} (h : readJson py file = .ok data) : data.Joined := by
  unfold readJson at h
  split at h
  · cases h
  · exact PyJson.loads_joined h

/-- What is found under a name is a member of that name. -/
theorem mem_of_get {members : List (Str × Value)} {key : Str} {v : Value} (h : (Value.obj members).get key = some v) :
    (key, v) ∈ members := by
  obtain ⟨front, behind, rfl, -⟩ := List.lookup_eq_some_iff.mp h
  exact List.mem_append_right _ (List.mem_cons_self ..)

/-- What is found in a value whose strings are joined has joined strings. -/
theorem joined_of_get {data v : Value} {key : Str} (hdata : data.Joined) (h : data.get key = some v) : v.Joined := by
  cases hdata with
  | obj hkeys hvalues => exact hvalues _ (mem_of_get h)
  | _ => cases h

/-- A name that is found is one of the names of the members. -/
theorem mem_keys_of_get {members : List (Str × Value)} {key : Str} {v : Value} {names : List String}
    (hnames : members.map (·.1) = keys names) (h : (Value.obj members).get key = some v) : key ∈ keys names :=
  hnames ▸ List.mem_map_of_mem (mem_of_get h)

/-- A list of strings fits where they are joined. -/
theorem fits_strings {d : Nat} {names : List Str} (h : ∀ t ∈ names, Joined t) : Fits (d + 1) (.arr (names.map .str)) := by
  refine .arr fun v hv => ?_
  obtain ⟨t, ht, rfl⟩ := List.mem_map.mp hv
  exact .str d (h t ht)

/-- What stands on the left of a pairing has something on the right. -/
theorem exists_of_forall₂ {α β : Type} {R : α → β → Prop} {as : List α} {bs : List β} (h : List.Forall₂ R as bs) {a : α} (ha : a ∈ as) :
    ∃ b ∈ bs, R a b := by
  induction h with
  | nil => cases ha
  | cons hab _ ih =>
    rcases List.mem_cons.mp ha with rfl | ha
    · exact ⟨_, List.mem_cons_self .., hab⟩
    · obtain ⟨b, hb, hab⟩ := ih ha
      exact ⟨b, List.mem_cons_of_mem _ hb, hab⟩

namespace UsersStore

/-! ## The records of users.json -/

/-- An object with every required field, and no other than the known. -/
structure Complete (members : List (Str × Value)) : Prop where
  known : ∀ m ∈ members, m.1 ∈ keys known
  required : ∀ field ∈ requiredFields, (withDefaults members field).isSome

/-- No field is unknown exactly where every member is of a known name. -/
theorem unknownFields_eq_nil {members : List (Str × Value)} :
    unknownFields members = [] ↔ ∀ m ∈ members, m.1 ∈ keys known := by
  rw [unknownFields, ← List.length_eq_zero_iff, List.length_insertionSort, List.length_eq_zero_iff, List.filter_eq_nil_iff]
  constructor
  · intro h m hm
    simpa using h m.1 (List.mem_map_of_mem hm)
  · intro h key hkey
    obtain ⟨m, hm, rfl⟩ := List.mem_map.mp hkey
    simpa using h m hm

/-- A record is read from a complete object, and from no other entry. -/
theorem readUser_eq_ok {entry : Value} {r : Record} :
    readUser entry = .ok r ↔ ∃ members, entry = .obj members ∧ Complete members ∧ r = recordOf members := by
  constructor
  · intro h
    unfold readUser at h
    split at h
    · rename_i members
      split at h
      · cases h
      · rename_i hknown
        split at h
        · cases h
        · rename_i hrequired
          cases h
          refine ⟨members, rfl, ⟨unknownFields_eq_nil.mp (not_not.mp hknown), fun field hfield => ?_⟩, rfl⟩
          simpa [Option.isSome_iff_ne_none] using List.find?_eq_none.mp hrequired field hfield
    · cases h
  · rintro ⟨members, rfl, hcomplete, rfl⟩
    have hrequired : (requiredFields.find? fun field => (withDefaults members field).isNone) = none := by
      rw [List.find?_eq_none]
      intro field hfield
      simpa [Option.isSome_iff_ne_none] using hcomplete.required field hfield
    simp only [readUser, unknownFields_eq_nil.mpr hcomplete.known, hrequired, ne_eq, not_true_eq_false, if_false]

/-- What is accepted: a list of complete objects under a schema that is known. -/
structure Accepted (data : Value) (entries : List Value) : Prop where
  users : data.get "users" = some (.arr entries)
  schema : schemaOk schema data = true
  complete : ∀ entry ∈ entries, ∃ members, entry = Value.obj members ∧ Complete members

/-- The records of what is accepted, one for each entry. -/
theorem loadData_eq_ok {data : Value} {records : List Record} :
    loadData data = .ok records ↔
      ∃ entries, data.get "users" = some (.arr entries) ∧ schemaOk schema data = true ∧
        List.Forall₂ (fun entry r => readUser entry = .ok r) entries records := by
  unfold loadData
  split
  · rename_i entries husers
    rw [husers]
    split
    · rename_i hschema
      simp only [Option.some.injEq, Value.arr.injEq, exists_eq_left', hschema, true_and]
      exact Except.mapM_eq_ok
    · rename_i hschema
      simp [hschema]
  · rename_i hother
    constructor
    · intro h
      cases h
    · rintro ⟨entries, husers, -⟩
      exact absurd husers (hother entries)

/-- A file whose entries are all read is accepted. -/
theorem accepted_of_forall₂ {data : Value} {entries : List Value} {records : List Record}
    (husers : data.get "users" = some (.arr entries)) (hschema : schemaOk schema data = true)
    (h : List.Forall₂ (fun entry r => readUser entry = .ok r) entries records) : Accepted data entries where
  users := husers
  schema := hschema
  complete entry hentry := by
    obtain ⟨r, -, hr⟩ := exists_of_forall₂ h hentry
    obtain ⟨members, hmembers, hcomplete, -⟩ := readUser_eq_ok.mp hr
    exact ⟨members, hmembers, hcomplete⟩

/-- An accepted file is loaded, entry by entry. -/
theorem Accepted.loadData {data : Value} {entries : List Value} (h : Accepted data entries) :
    ∃ records, loadData data = .ok records ∧ List.Forall₂ (fun entry r => readUser entry = .ok r) entries records := by
  have hread : ∀ l : List Value, (∀ entry ∈ l, ∃ members, entry = Value.obj members ∧ Complete members) →
      ∃ records, List.Forall₂ (fun entry r => readUser entry = .ok r) l records := by
    intro l hl
    induction l with
    | nil => exact ⟨[], .nil⟩
    | cons entry l ih =>
      obtain ⟨members, hmembers, hcomplete⟩ := hl entry (List.mem_cons_self ..)
      obtain ⟨records, hrecords⟩ := ih fun e he => hl e (List.mem_cons_of_mem _ he)
      exact ⟨recordOf members :: records, .cons (readUser_eq_ok.mpr ⟨members, hmembers, hcomplete, rfl⟩) hrecords⟩
  obtain ⟨records, hrecords⟩ := hread entries h.complete
  exact ⟨records, loadData_eq_ok.mpr ⟨entries, h.users, h.schema, hrecords⟩, hrecords⟩

/-! ## Types -/

def stringFields : List String := ["name", "vless_uuid", "hysteria2_password", "l2tp_password", "created_at", "dnstt_password"]

def boolFields : List String := ["ikev2_provisioned", "enabled"]

/-- Every field that an entry has is of the type it is declared with. -/
structure WellTyped (entry : Value) : Prop where
  strings : ∀ key ∈ stringFields, ∀ v, entry.get key = some v → ∃ t, v = .str t
  booleans : ∀ key ∈ boolFields, ∀ v, entry.get key = some v → ∃ b, v = .bool b

section Fields

variable {members : List (Str × Value)}

/-- A field that is there is what it is there. -/
theorem withDefaults_of_get {key : String} {v : Value} (h : (Value.obj members).get key = some v) :
    (withDefaults members key).getD .null = v := by
  rw [withDefaults, h]
  rfl

/-- A field without a default is in a complete object. -/
theorem get_of_required (hcomplete : Complete members) {key : String} (hkey : key ∈ requiredFields) (hbool : key ∉ boolFields) :
    ∃ v, (Value.obj members).get key = some v := by
  have hsome := hcomplete.required key hkey
  have hdnstt : key ≠ "dnstt_password" := by
    rintro rfl
    exact absurd hkey (by decide)
  have hdefault : key ≠ "ikev2_provisioned" ∧ key ≠ "enabled" := by
    simpa [boolFields] using hbool
  rw [withDefaults, if_neg hdefault.1, if_neg hdefault.2, if_neg hdnstt, Option.or_none] at hsome
  exact Option.isSome_iff_exists.mp hsome

/-- A field of text that is there or has a default is a text. -/
theorem string_field (hcomplete : Complete members) (h : WellTyped (.obj members)) (key : String) (hkey : key ∈ stringFields) :
    ∃ t, (withDefaults members key).getD .null = .str t := by
  have hrequired : ∀ key ∈ stringFields, key ≠ "dnstt_password" → key ∈ requiredFields ∧ key ∉ boolFields := by decide
  cases hget : (Value.obj members).get key with
  | some v =>
    rw [withDefaults_of_get hget]
    exact h.strings key hkey v hget
  | none =>
    by_cases hdnstt : key = "dnstt_password"
    · subst hdnstt
      rw [withDefaults, hget]
      exact ⟨[], rfl⟩
    · obtain ⟨hkey, hbool⟩ := hrequired key hkey hdnstt
      obtain ⟨v, hv⟩ := get_of_required hcomplete hkey hbool
      rw [hget] at hv
      cases hv

/-- A flag that is there, or its default, is a flag. -/
theorem bool_field (h : WellTyped (.obj members)) (key : String) (hkey : key ∈ boolFields) :
    ∃ b, (withDefaults members key).getD .null = .bool b := by
  cases hget : (Value.obj members).get key with
  | some v =>
    rw [withDefaults_of_get hget]
    exact h.booleans key hkey v hget
  | none =>
    simp only [boolFields, List.mem_cons, List.not_mem_nil, or_false] at hkey
    obtain rfl | rfl := hkey
    · rw [withDefaults, hget]
      exact ⟨false, rfl⟩
    · rw [withDefaults, hget]
      exact ⟨true, rfl⟩

/-- A complete object with fields of their types is the record of a user. -/
theorem recordOf_typed (hcomplete : Complete members) (h : WellTyped (.obj members)) : ∃ u : User, recordOf members = .ofUser u := by
  obtain ⟨name, hname⟩ := string_field hcomplete h "name" (by decide)
  obtain ⟨vless, hvless⟩ := string_field hcomplete h "vless_uuid" (by decide)
  obtain ⟨hysteria, hhysteria⟩ := string_field hcomplete h "hysteria2_password" (by decide)
  obtain ⟨l2tp, hl2tp⟩ := string_field hcomplete h "l2tp_password" (by decide)
  obtain ⟨created, hcreated⟩ := string_field hcomplete h "created_at" (by decide)
  obtain ⟨dnstt, hdnstt⟩ := string_field hcomplete h "dnstt_password" (by decide)
  obtain ⟨provisioned, hprovisioned⟩ := bool_field h "ikev2_provisioned" (by decide)
  obtain ⟨enabled, henabled⟩ := bool_field h "enabled" (by decide)
  refine ⟨⟨name, vless, hysteria, l2tp, provisioned, enabled, created, dnstt⟩, ?_⟩
  simp only [recordOf, Record.ofUser, hname, hvless, hhysteria, hl2tp, hcreated, hdnstt, hprovisioned, henabled]

/-- Where the record is one of a user, the object's fields had their types. -/
theorem wellTyped_of_record {u : User} (h : recordOf members = .ofUser u) : WellTyped (.obj members) where
  strings key hkey v hget := by
    have hvalue := withDefaults_of_get hget
    simp only [recordOf, Record.ofUser, Record.mk.injEq] at h
    obtain ⟨hname, hvless, hhysteria, hl2tp, -, -, hcreated, hdnstt⟩ := h
    simp only [stringFields, List.mem_cons, List.not_mem_nil, or_false] at hkey
    rw [← hvalue]
    obtain rfl | rfl | rfl | rfl | rfl | rfl := hkey
    · exact ⟨_, hname⟩
    · exact ⟨_, hvless⟩
    · exact ⟨_, hhysteria⟩
    · exact ⟨_, hl2tp⟩
    · exact ⟨_, hcreated⟩
    · exact ⟨_, hdnstt⟩
  booleans key hkey v hget := by
    have hvalue := withDefaults_of_get hget
    simp only [recordOf, Record.ofUser, Record.mk.injEq] at h
    obtain ⟨-, -, -, -, hprovisioned, henabled, -, -⟩ := h
    simp only [boolFields, List.mem_cons, List.not_mem_nil, or_false] at hkey
    rw [← hvalue]
    obtain rfl | rfl := hkey
    · exact ⟨_, hprovisioned⟩
    · exact ⟨_, henabled⟩

/-- What a complete object has under a name, the record written back has too. -/
theorem get_toJson (hcomplete : Complete members) {key : Str} {v : Value} (hget : (Value.obj members).get key = some v) :
    (recordOf members).toJson.get key = some v := by
  obtain ⟨field, hfield, rfl⟩ := List.mem_map.mp (hcomplete.known _ (mem_of_get hget))
  rw [← withDefaults_of_get hget]
  simp only [known, List.mem_cons, List.not_mem_nil, or_false] at hfield
  obtain rfl | rfl | rfl | rfl | rfl | rfl | rfl | rfl := hfield <;> rfl

/-- The strings of a record are joined where those of its object are. -/
theorem joined_field (hjoined : (Value.obj members).Joined) (key : String) : ((withDefaults members key).getD .null).Joined := by
  cases hget : (Value.obj members).get key with
  | some v =>
    rw [withDefaults_of_get hget]
    exact joined_of_get hjoined hget
  | none =>
    rw [withDefaults, hget, Option.none_or]
    split_ifs
    · exact .bool false
    · exact .bool true
    · exact .str .nil
    · exact .null

end Fields

/-! ## What is written -/

/-- No string of the user has the two halves of a surrogate pair side by side. -/
structure User.Joined (u : User) : Prop where
  name : PyJson.Joined u.name
  vlessUuid : PyJson.Joined u.vlessUuid
  hysteria2Password : PyJson.Joined u.hysteria2Password
  l2tpPassword : PyJson.Joined u.l2tpPassword
  createdAt : PyJson.Joined u.createdAt
  dnsttPassword : PyJson.Joined u.dnsttPassword

theorem readUser_ofUser (u : User) : readUser (Record.ofUser u).toJson = .ok (Record.ofUser u) := rfl

/-- A user that is read of an object with joined strings has such. -/
theorem joined_of_record {members : List (Str × Value)} {u : User} (hjoined : (Value.obj members).Joined)
    (h : recordOf members = .ofUser u) : u.Joined := by
  have hstr : ∀ {t : Str}, (Value.str t).Joined → PyJson.Joined t := fun h => by
    cases h with
    | str h => exact h
  have hfield := joined_field hjoined
  simp only [recordOf, Record.ofUser, Record.mk.injEq] at h
  obtain ⟨hname, hvless, hhysteria, hl2tp, -, -, hcreated, hdnstt⟩ := h
  exact ⟨hstr (hname ▸ hfield _), hstr (hvless ▸ hfield _), hstr (hhysteria ▸ hfield _), hstr (hl2tp ▸ hfield _),
    hstr (hcreated ▸ hfield _), hstr (hdnstt ▸ hfield _)⟩

/-- What is written of such users is read back. -/
theorem fits_payload {records : List Record} (h : ∀ r ∈ records, ∃ u : User, u.Joined ∧ r = .ofUser u) : Fits 3 (payload records) := by
  have hentry : ∀ r ∈ records, Fits 1 r.toJson := by
    intro r hr
    obtain ⟨u, hu, rfl⟩ := h r hr
    refine .obj (show (keys known).Nodup by decide) ?_ ?_
    · have hkeys : ∀ key ∈ keys known, PyJson.Joined key := by
        intro key hkey
        obtain ⟨field, -, rfl⟩ := List.mem_map.mp hkey
        exact PyJson.joined_ofText field.toList
      intro m hm
      exact hkeys m.1 (List.mem_map_of_mem hm)
    · simp only [List.forall_mem_cons]
      exact ⟨.str _ hu.name, .str _ hu.vlessUuid, .str _ hu.hysteria2Password, .str _ hu.l2tpPassword, .bool _ _, .bool _ _,
        .str _ hu.createdAt, .str _ hu.dnsttPassword, List.forall_mem_nil _⟩
  have hitems : Fits 2 (.arr (records.map Record.toJson)) := by
    refine .arr fun v hv => ?_
    obtain ⟨r, hr, rfl⟩ := List.mem_map.mp hv
    exact hentry r hr
  refine .obj (show (keys ["schema_version", "users"]).Nodup by decide) ?_ ?_
  · simp only [List.forall_mem_cons]
    exact ⟨PyJson.joined_ofText _, PyJson.joined_ofText _, List.forall_mem_nil _⟩
  · simp only [List.forall_mem_cons]
    exact ⟨.int _ (by decide), hitems, List.forall_mem_nil _⟩

/-- What `load` returns is read of what `json.loads` returned. -/
theorem load_eq_ok {py : Interpreter} {file : Bytes} {records : List Record} :
    load py (some file) = .ok records ↔ ∃ data, readJson py file = .ok data ∧ loadData data = .ok records := by
  simp only [load]
  constructor
  · intro h
    split at h
    · rename_i data hread
      exact ⟨data, hread, h⟩
    · cases h
    · cases h
  · rintro ⟨data, hread, hdata⟩
    rw [hread]
    exact hdata

/-- What was saved of users is loaded as it was, exactly if their strings are joined. -/
theorem load_save {py : Interpreter} {users : List User} :
    load py (some (save (users.map .ofUser))) = .ok (users.map .ofUser) ↔ ∀ u ∈ users, u.Joined := by
  constructor
  · intro h u hu
    obtain ⟨data, hread, hdata⟩ := load_eq_ok.mp h
    obtain ⟨entries, husers, -, hpaired⟩ := loadData_eq_ok.mp hdata
    obtain ⟨entry, hentry, hrecord⟩ := exists_of_forall₂ hpaired.flip (List.mem_map_of_mem hu)
    obtain ⟨members, rfl, -, hrecord⟩ := readUser_eq_ok.mp hrecord
    have hjoined := joined_of_get (joined_of_readJson hread) husers
    cases hjoined with
    | arr hitems => exact joined_of_record (hitems _ hentry) hrecord.symm
  · intro h
    have hread : List.Forall₂ (fun entry r => readUser entry = .ok r) ((users.map Record.ofUser).map Record.toJson)
        (users.map Record.ofUser) := by
      rw [List.forall₂_map_left_iff, List.forall₂_same]
      intro r hr
      obtain ⟨u, -, rfl⟩ := List.mem_map.mp hr
      exact readUser_ofUser u
    refine load_eq_ok.mpr ⟨_, readJson_writeJson py (fits_payload fun r hr => ?_), loadData_eq_ok.mpr ⟨_, rfl, rfl, hread⟩⟩
    obtain ⟨u, hu, rfl⟩ := List.mem_map.mp hr
    exact ⟨u, h u hu, rfl⟩

/-- Every member that was read is written, with the value it had; the list of users and the number of the schema aside. -/
structure Kept (data saved : Value) : Prop where
  members : ∀ (key : Str) v, key ≠ PyJson.ofText "users".toList → key ≠ PyJson.ofText "schema_version".toList →
    data.get key = some v → saved.get key = some v
  entries : ∀ entries, data.get "users" = some (.arr entries) → ∃ entries', saved.get "users" = some (.arr entries') ∧
    List.Forall₂ (fun entry entry' => ∀ key v, Value.get entry key = some v → Value.get entry' key = some v) entries entries'

/-- A file is refused as one, or it is read as records of users that are written back with nothing lost. -/
structure Sound (py : Interpreter) (file : Bytes) : Prop where
  refused : ∀ e, load py (some file) = .error e → ∃ why, e = .users why
  typed : ∀ records, load py (some file) = .ok records → ∀ r ∈ records, ∃ u, r = .ofUser u
  kept : ∀ records data, load py (some file) = .ok records → readJson py file = .ok data →
    ∃ saved, readJson py (save records) = .ok saved ∧ Kept data saved

/-- What would be accepted has its types, and no members but the two. -/
structure Plain (data : Value) : Prop where
  typed : ∀ entries, Accepted data entries → ∀ entry ∈ entries, WellTyped entry
  members : ∀ entries, Accepted data entries → ∀ (key : Str) v, data.get key = some v → key ∈ keys ["users", "schema_version"]

section Sound

variable {py : Interpreter} {file : Bytes} {data : Value} {records : List Record}

/-- An entry of a users file is refused with the error of the store. -/
theorem users_of_readUser_error {entry : Value} {e : Error} (h : readUser entry = .error e) : ∃ why, e = .users why := by
  unfold readUser at h
  split at h
  · split at h
    · cases h
      exact ⟨_, rfl⟩
    · split at h
      · cases h
        exact ⟨_, rfl⟩
      · cases h
  · cases h
    exact ⟨_, rfl⟩

/-- An error of the loop is one of its turns. -/
theorem users_of_mapM_error {entries : List Value} {e : Error} (h : entries.mapM readUser = .error e) : ∃ why, e = .users why := by
  induction entries with
  | nil => cases h
  | cons entry entries ih =>
    rw [List.mapM_cons] at h
    cases hentry : readUser entry with
    | error e' =>
      rw [hentry] at h
      cases h
      exact users_of_readUser_error hentry
    | ok r =>
      cases hrest : entries.mapM readUser with
      | error e' =>
        rw [hentry, hrest] at h
        cases h
        exact ih hrest
      | ok rs =>
        rw [hentry, hrest] at h
        cases h

/-- A users file is refused with the error of the store. -/
theorem users_of_loadData_error {e : Error} (h : loadData data = .error e) : ∃ why, e = .users why := by
  unfold loadData at h
  split at h
  · split at h
    · exact users_of_mapM_error h
    · cases h
      exact ⟨_, rfl⟩
  · cases h
    exact ⟨_, rfl⟩

/-- Each record is read of a complete object among the entries that are accepted. -/
theorem accepted_of_loadData (h : loadData data = .ok records) :
    ∃ entries, Accepted data entries ∧ List.Forall₂ (fun entry r => readUser entry = .ok r) entries records := by
  obtain ⟨entries, husers, hschema, hpaired⟩ := loadData_eq_ok.mp h
  exact ⟨entries, accepted_of_forall₂ husers hschema hpaired, hpaired⟩

/-- The records of what is plain are those of users with joined strings. -/
theorem Plain.ofUser (h : Plain data) (hjoined : data.Joined) {entries : List Value} (haccepted : Accepted data entries)
    (hpaired : List.Forall₂ (fun entry r => readUser entry = .ok r) entries records) :
    ∀ r ∈ records, ∃ u : User, u.Joined ∧ r = .ofUser u := by
  intro r hr
  obtain ⟨entry, hentry, hrecord⟩ := exists_of_forall₂ hpaired.flip hr
  obtain ⟨members, rfl, hcomplete, rfl⟩ := readUser_eq_ok.mp hrecord
  obtain ⟨u, hu⟩ := recordOf_typed hcomplete (h.typed entries haccepted _ hentry)
  have hentries := joined_of_get hjoined haccepted.users
  cases hentries with
  | arr hitems => exact ⟨u, joined_of_record (hitems _ hentry) hu, hu⟩

/-- A store is sound on a file whose refusals are caught and whose data, if it loads, is plain. -/
theorem sound_of_plain (hcaught : ∀ failure, readJson py file = .error failure → failure = .decode)
    (h : ∀ data, readJson py file = .ok data → Plain data) : Sound py file := by
  constructor
  · intro e he
    simp only [load] at he
    split at he
    · exact users_of_loadData_error he
    · cases he
      exact ⟨_, rfl⟩
    · rename_i failure hother hread
      exact absurd (hcaught failure hread) hother
  · intro records hrecords r hr
    obtain ⟨data, hread, hdata⟩ := load_eq_ok.mp hrecords
    obtain ⟨entries, haccepted, hpaired⟩ := accepted_of_loadData hdata
    obtain ⟨u, -, hu⟩ := (h data hread).ofUser (joined_of_readJson hread) haccepted hpaired r hr
    exact ⟨u, hu⟩
  · intro records data' hrecords hdata'
    obtain ⟨data, hread, hdata⟩ := load_eq_ok.mp hrecords
    obtain rfl := Except.ok.inj (hread.symm.trans hdata')
    obtain ⟨entries, haccepted, hpaired⟩ := accepted_of_loadData hdata
    have htyped := (h data hread).ofUser (joined_of_readJson hread) haccepted hpaired
    refine ⟨payload records, readJson_writeJson py (fits_payload htyped), ?_, ?_⟩
    · intro key v husers hschema hget
      have hkey := (h data hread).members entries haccepted key v hget
      simp only [keys, List.map_cons, List.map_nil, List.mem_cons, List.not_mem_nil, or_false] at hkey
      exact hkey.elim (fun heq => absurd heq husers) fun heq => absurd heq hschema
    · intro entries' hentries'
      obtain rfl : entries = entries' := by
        have hsame := haccepted.users.symm.trans hentries'
        simpa using hsame
      refine ⟨records.map Record.toJson, rfl, ?_⟩
      rw [List.forall₂_map_right_iff]
      refine hpaired.imp fun entry r hread => ?_
      obtain ⟨members, rfl, hcomplete, rfl⟩ := readUser_eq_ok.mp hread
      exact fun key v hget => get_toJson hcomplete hget

/-- What a sound store refuses it refuses as no JSON. -/
theorem Sound.caught (h : Sound py file) {failure : Failure} (hread : readJson py file = .error failure) : failure = .decode := by
  cases failure with
  | decode => rfl
  | valueError =>
    obtain ⟨why, hwhy⟩ := h.refused (.escaped .valueError) (by simp only [load, hread])
    cases hwhy
  | recursionError =>
    obtain ⟨why, hwhy⟩ := h.refused (.escaped .recursionError) (by simp only [load, hread])
    cases hwhy

/-- What a sound store loads is plain. -/
theorem Sound.plain (h : Sound py file) (hread : readJson py file = .ok data) : Plain data := by
  have hload : ∀ entries, Accepted data entries → ∃ records, load py (some file) = .ok records ∧
      List.Forall₂ (fun entry r => readUser entry = .ok r) entries records := by
    intro entries haccepted
    obtain ⟨records, hrecords, hpaired⟩ := haccepted.loadData
    exact ⟨records, load_eq_ok.mpr ⟨data, hread, hrecords⟩, hpaired⟩
  have htyped : ∀ entries, Accepted data entries → ∀ entry ∈ entries, WellTyped entry := by
    intro entries haccepted entry hentry
    obtain ⟨records, hrecords, hpaired⟩ := hload entries haccepted
    obtain ⟨r, hr, hrecord⟩ := exists_of_forall₂ hpaired hentry
    obtain ⟨members, rfl, -, rfl⟩ := readUser_eq_ok.mp hrecord
    obtain ⟨u, hu⟩ := h.typed records hrecords _ hr
    exact wellTyped_of_record hu
  refine ⟨htyped, ?_⟩
  intro entries haccepted key v hget
  obtain ⟨records, hrecords, hpaired⟩ := hload entries haccepted
  have husers : ∀ r ∈ records, ∃ u : User, u.Joined ∧ r = .ofUser u := by
    intro r hr
    obtain ⟨u, rfl⟩ := h.typed records hrecords r hr
    obtain ⟨entry, hentry, hrecord⟩ := exists_of_forall₂ hpaired.flip hr
    obtain ⟨members, rfl, -, hrecord⟩ := readUser_eq_ok.mp hrecord
    have hjoined := joined_of_get (joined_of_readJson hread) haccepted.users
    cases hjoined with
    | arr hitems => exact ⟨u, joined_of_record (hitems _ hentry) hrecord.symm, rfl⟩
  obtain ⟨saved, hsaved, hkept⟩ := h.kept records data hrecords hread
  obtain rfl := Except.ok.inj (hsaved.symm.trans (readJson_writeJson py (fits_payload husers)))
  by_contra hother
  simp only [keys, List.map_cons, List.map_nil, List.mem_cons, List.not_mem_nil, or_false, not_or] at hother
  have hnames : key ∈ keys ["schema_version", "users"] := mem_keys_of_get rfl (hkept.members key v hother.1 hother.2 hget)
  simp only [keys, List.map_cons, List.map_nil, List.mem_cons, List.not_mem_nil, or_false] at hnames
  exact hnames.elim hother.2 hother.1

end Sound

/-- What was saved of users is loaded as it was, exactly if their strings are joined; and a file is sound exactly if `json.loads` ends in
nothing that is not caught, and what it returns is plain. -/
theorem users_sound_iff (py : Interpreter) (users : List User) (file : Bytes) :
    (load py (some (save (users.map .ofUser))) = .ok (users.map .ofUser) ↔ ∀ u ∈ users, u.Joined) ∧
      (Sound py file ↔ (∀ failure, readJson py file = .error failure → failure = .decode) ∧
        ∀ data, readJson py file = .ok data → Plain data) :=
  ⟨load_save, fun h => ⟨fun _ hread => h.caught hread, fun _ hread => h.plain hread⟩, fun h => sound_of_plain h.1 h.2⟩

/-- A note beside the users is accepted, and is not written back. -/
theorem users_sound_note : ¬ ∃ py : Interpreter, ∀ file, Sound py file := by
  rintro ⟨py, h⟩
  have hfits : Fits 3 (.obj [("users", .arr []), ("note", .int 1)]) := by
    refine .obj (by decide) ?_ ?_
    · simp only [List.forall_mem_cons]
      exact ⟨PyJson.joined_ofText _, PyJson.joined_ofText _, List.forall_mem_nil _⟩
    · simp only [List.forall_mem_cons]
      exact ⟨.arr (List.forall_mem_nil _), .int _ (by decide), List.forall_mem_nil _⟩
  have hplain := (h _).plain (readJson_writeJson py hfits)
  have hmember := hplain.members [] ⟨rfl, rfl, List.forall_mem_nil _⟩ "note" (.int 1) rfl
  exact absurd hmember (by decide)

end UsersStore

namespace StateStore

/-! ## The members of state.json -/

def listFields : List String := ["enabled", "revoke_pending", "last_applied"]

/-- The names of the members that are written. -/
def written : List String := ["schema_version", "enabled", "revoke_pending", "last_applied", "converge_pending"]

/-- What is accepted: an object under a schema that is known. -/
def Accepted (data : Value) : Prop := (∃ members, data = .obj members) ∧ schemaOk schema data = true

/-- A state file is loaded exactly where it is accepted, and as its record. -/
theorem loadData_eq_ok {data : Value} {r : Record} : loadData data = .ok r ↔ Accepted data ∧ r = recordOf data := by
  unfold loadData
  split
  · rename_i members
    split
    · rename_i hschema
      constructor
      · intro h
        cases h
        exact ⟨⟨⟨members, rfl⟩, hschema⟩, rfl⟩
      · rintro ⟨-, rfl⟩
        rfl
    · rename_i hschema
      constructor
      · intro h
        cases h
      · rintro ⟨⟨-, h⟩, -⟩
        exact absurd h hschema
  · rename_i hother
    constructor
    · intro h
      cases h
    · rintro ⟨⟨⟨members, rfl⟩, -⟩, -⟩
      exact absurd rfl (hother members)

/-- A state file is refused with the error of the store. -/
theorem state_of_loadData_error {data : Value} {e : Error} (h : loadData data = .error e) : ∃ why, e = .state why := by
  unfold loadData at h
  split at h
  · split at h
    · cases h
    · cases h
      exact ⟨_, rfl⟩
  · cases h
    exact ⟨_, rfl⟩

/-! ## What is written -/

/-- No string of the state has the two halves of a surrogate pair side by side. -/
structure State.Joined (s : State) : Prop where
  enabled : ∀ t ∈ s.enabled, PyJson.Joined t
  revokePending : ∀ t ∈ s.revokePending, PyJson.Joined t
  lastApplied : ∀ t ∈ s.lastApplied, PyJson.Joined t

/-- What is written of such a state is read back. -/
theorem fits_payload {s : State} (h : s.Joined) : Fits 3 (payload (.ofState s)) := by
  have hkeys : ∀ key ∈ keys written, Joined key := by
    intro key hkey
    obtain ⟨field, -, rfl⟩ := List.mem_map.mp hkey
    exact PyJson.joined_ofText field.toList
  refine .obj (show (keys written).Nodup by decide) (fun m hm => hkeys m.1 (List.mem_map_of_mem hm)) ?_
  simp only [List.forall_mem_cons]
  exact ⟨.int _ (by decide), fits_strings h.enabled, fits_strings h.revokePending, fits_strings h.lastApplied, .bool _ _,
    List.forall_mem_nil _⟩

/-- The strings of a list that is read are joined. -/
theorem joined_strings {names : List Str} (h : (strings names).Joined) : ∀ t ∈ names, Joined t := by
  intro t ht
  cases h with
  | arr hitems =>
    cases hitems _ (List.mem_map_of_mem ht) with
    | str htext => exact htext

/-- A state that is made of a file with joined strings has such. -/
theorem joined_of_record {data : Value} {s : State} (hjoined : data.Joined) (h : recordOf data = .ofState s) : s.Joined := by
  have hfield : ∀ key : String, ((data.get key).getD (.arr [])).Joined := by
    intro key
    cases hget : data.get key with
    | none => exact .arr (List.forall_mem_nil _)
    | some v => exact joined_of_get hjoined hget
  simp only [recordOf, Record.ofState, Record.mk.injEq] at h
  obtain ⟨henabled, hpending, happlied, -⟩ := h
  exact ⟨joined_strings (henabled ▸ hfield _), joined_strings (hpending ▸ hfield _), joined_strings (happlied ▸ hfield _)⟩

section Sound

variable {cases : Python.CaseMap} {py : Interpreter} {file : Bytes} {data : Value} {r : Record}

/-- What `load` returns is made of what `json.loads` returned. -/
theorem load_eq_ok : load cases py (some file) = .ok r ↔ ∃ data, readJson py file = .ok data ∧ Accepted data ∧ r = recordOf data := by
  simp only [load, loadOrDefault]
  constructor
  · intro h
    obtain ⟨pair, hpair, rfl⟩ := Except.map_eq_ok.mp h
    split at hpair
    · rename_i data hread
      obtain ⟨r, hr, rfl⟩ := Except.map_eq_ok.mp hpair
      exact ⟨data, hread, loadData_eq_ok.mp hr⟩
    · cases hpair
    · cases hpair
  · rintro ⟨data, hread, hdata⟩
    rw [hread]
    dsimp only
    rw [loadData_eq_ok.mpr hdata]
    rfl

/-- What was saved of a state is loaded as it was, exactly if its strings are joined. -/
theorem load_save {s : State} : load cases py (some (save (.ofState s))) = .ok (.ofState s) ↔ s.Joined := by
  rw [load_eq_ok]
  constructor
  · rintro ⟨data, hread, -, hrecord⟩
    exact joined_of_record (joined_of_readJson hread) hrecord.symm
  · intro h
    exact ⟨_, readJson_writeJson py (fits_payload h), ⟨⟨_, rfl⟩, rfl⟩, rfl⟩

/-- A file is refused as one, or it is read as a state that is written back with nothing lost. -/
structure Sound (cases : Python.CaseMap) (py : Interpreter) (file : Bytes) : Prop where
  refused : ∀ e, load cases py (some file) = .error e → ∃ why, e = .state why
  typed : ∀ r, load cases py (some file) = .ok r → ∃ s, r = .ofState s
  kept : ∀ r data, load cases py (some file) = .ok r → readJson py file = .ok data →
    ∃ saved, readJson py (save r) = .ok saved ∧ ∀ key v, data.get key = some v → saved.get key = some v

/-- What would be accepted has members of the types they are declared with and of the names that are written, and no other number of a
schema than this one's. -/
structure Plain (data : Value) : Prop where
  lists : Accepted data → ∀ key ∈ listFields, ∀ v, data.get key = some v → ∃ names, v = strings names
  flag : Accepted data → ∀ v, data.get "converge_pending" = some v → ∃ b, v = .bool b
  version : Accepted data → ∀ v, data.get "schema_version" = some v → v = .int schema
  members : Accepted data → ∀ key v, data.get key = some v → key ∈ keys written

/-- A list of names that is there, or its default, is a list of names. -/
theorem list_field (h : ∀ key ∈ listFields, ∀ v, data.get key = some v → ∃ names, v = strings names) (key : String)
    (hkey : key ∈ listFields) : ∃ names : List Str, (data.get key).getD (.arr []) = strings names := by
  cases hget : data.get key with
  | none => exact ⟨[], rfl⟩
  | some v => exact h key hkey v hget

/-- The record of plain data is a state. -/
theorem recordOf_typed (haccepted : Accepted data) (h : Plain data) : ∃ s : State, recordOf data = .ofState s := by
  obtain ⟨enabled, henabled⟩ := list_field (h.lists haccepted) "enabled" (by decide)
  obtain ⟨pending, hpending⟩ := list_field (h.lists haccepted) "revoke_pending" (by decide)
  obtain ⟨applied, happlied⟩ := list_field (h.lists haccepted) "last_applied" (by decide)
  obtain ⟨converge, hconverge⟩ : ∃ b, (data.get "converge_pending").getD (.bool false) = .bool b := by
    cases hget : data.get "converge_pending" with
    | none => exact ⟨false, rfl⟩
    | some v => exact h.flag haccepted v hget
  refine ⟨⟨enabled, pending, applied, converge⟩, ?_⟩
  simp only [recordOf, Record.ofState, henabled, hpending, happlied, hconverge]

/-- What is under a written name in the file is what is written under it. -/
theorem get_payload (h : Plain data) (haccepted : Accepted data) {key : Str} {v : Value} (hget : data.get key = some v) :
    (payload (recordOf data)).get key = some v := by
  obtain ⟨field, hfield, rfl⟩ := List.mem_map.mp (h.members haccepted key v hget)
  simp only [written, List.mem_cons, List.not_mem_nil, or_false] at hfield
  obtain rfl | rfl | rfl | rfl | rfl := hfield
  · rw [h.version haccepted v hget]
    rfl
  · exact congrArg some (by rw [recordOf, hget]; rfl)
  · exact congrArg some (by rw [recordOf, hget]; rfl)
  · exact congrArg some (by rw [recordOf, hget]; rfl)
  · exact congrArg some (by rw [recordOf, hget]; rfl)

/-- A store is sound on a file whose refusals are caught and whose data, if it loads, is plain. -/
theorem sound_of_plain (hcaught : ∀ failure, readJson py file = .error failure → failure = .decode)
    (h : ∀ data, readJson py file = .ok data → Plain data) : Sound cases py file := by
  constructor
  · intro e he
    simp only [load, loadOrDefault] at he
    split at he
    · rename_i data hread
      cases hdata : loadData data with
      | error e' =>
        rw [hdata] at he
        cases he
        exact state_of_loadData_error hdata
      | ok r =>
        rw [hdata] at he
        cases he
    · cases he
      exact ⟨_, rfl⟩
    · rename_i failure hother hread
      exact absurd (hcaught failure hread) hother
  · intro r hr
    obtain ⟨data, hread, haccepted, rfl⟩ := load_eq_ok.mp hr
    exact recordOf_typed haccepted (h data hread)
  · intro r data' hr hdata'
    obtain ⟨data, hread, haccepted, rfl⟩ := load_eq_ok.mp hr
    obtain rfl := Except.ok.inj (hread.symm.trans hdata')
    obtain ⟨s, hs⟩ := recordOf_typed haccepted (h data hread)
    have hfits : Fits 3 (payload (recordOf data)) := hs ▸ fits_payload (joined_of_record (joined_of_readJson hread) hs)
    exact ⟨_, readJson_writeJson py hfits, fun key v hget => get_payload (h data hread) haccepted hget⟩

/-- What a sound store refuses it refuses as no JSON. -/
theorem Sound.caught (h : Sound cases py file) {failure : Failure} (hread : readJson py file = .error failure) : failure = .decode := by
  cases failure with
  | decode => rfl
  | valueError =>
    obtain ⟨why, hwhy⟩ := h.refused (.escaped .valueError) (by simp only [load, loadOrDefault, hread]; rfl)
    cases hwhy
  | recursionError =>
    obtain ⟨why, hwhy⟩ := h.refused (.escaped .recursionError) (by simp only [load, loadOrDefault, hread]; rfl)
    cases hwhy

/-- What a sound store loads is plain. -/
theorem Sound.plain (h : Sound cases py file) (hread : readJson py file = .ok data) : Plain data := by
  have htyped : Accepted data → ∃ s, recordOf data = .ofState s := fun haccepted =>
    h.typed _ (load_eq_ok.mpr ⟨data, hread, haccepted, rfl⟩)
  have hkept : Accepted data → ∀ key v, data.get key = some v → (payload (recordOf data)).get key = some v := by
    intro haccepted
    obtain ⟨s, hs⟩ := htyped haccepted
    have hfits : Fits 3 (payload (recordOf data)) := hs ▸ fits_payload (joined_of_record (joined_of_readJson hread) hs)
    obtain ⟨saved, hsaved, hkept⟩ := h.kept _ data (load_eq_ok.mpr ⟨data, hread, haccepted, rfl⟩) hread
    obtain rfl := Except.ok.inj (hsaved.symm.trans (readJson_writeJson py hfits))
    exact hkept
  constructor
  · intro haccepted key hkey v hget
    obtain ⟨s, hs⟩ := htyped haccepted
    simp only [recordOf, Record.ofState, Record.mk.injEq] at hs
    obtain ⟨henabled, hpending, happlied, -⟩ := hs
    simp only [listFields, List.mem_cons, List.not_mem_nil, or_false] at hkey
    obtain rfl | rfl | rfl := hkey
    · rw [hget] at henabled
      exact ⟨_, henabled⟩
    · rw [hget] at hpending
      exact ⟨_, hpending⟩
    · rw [hget] at happlied
      exact ⟨_, happlied⟩
  · intro haccepted v hget
    obtain ⟨s, hs⟩ := htyped haccepted
    simp only [recordOf, Record.ofState, Record.mk.injEq] at hs
    rw [hget] at hs
    exact ⟨_, hs.2.2.2⟩
  · intro haccepted v hget
    have hsame := hkept haccepted "schema_version" v hget
    exact (Option.some.inj hsame).symm
  · intro haccepted key v hget
    exact mem_keys_of_get rfl (hkept haccepted key v hget)

end Sound

/-- What was saved of a state is loaded as it was, exactly if its strings are joined; and a file is sound exactly if `json.loads` ends in
nothing that is not caught, and what it returns is plain. -/
theorem state_sound_iff (cases : Python.CaseMap) (py : Interpreter) :
    (∀ s : State, load cases py (some (save (.ofState s))) = .ok (.ofState s) ↔ s.Joined) ∧
      ∀ file, Sound cases py file ↔ (∀ failure, readJson py file = .error failure → failure = .decode) ∧
        ∀ data, readJson py file = .ok data → Plain data :=
  ⟨fun _ => load_save, fun _ => ⟨fun h => ⟨fun _ hread => h.caught hread, fun _ hread => h.plain hread⟩,
    fun h => sound_of_plain h.1 h.2⟩⟩

/-- A revocation that is not in a list is taken for the list. -/
theorem state_sound_string : ¬ ∃ (cases : Python.CaseMap) (py : Interpreter), ∀ file, Sound cases py file := by
  rintro ⟨cases, py, h⟩
  have hfits : Fits 3 (.obj [("revoke_pending", "alice")]) := by
    refine .obj (by decide) ?_ ?_
    · exact List.forall_mem_singleton.mpr (PyJson.joined_ofText _)
    · exact List.forall_mem_singleton.mpr (.str _ (PyJson.joined_ofText _))
  have hplain := (h _).plain (readJson_writeJson py hfits)
  obtain ⟨names, hnames⟩ := hplain.lists ⟨⟨_, rfl⟩, rfl⟩ "revoke_pending" (by decide) "alice" rfl
  cases hnames

end StateStore

end Stores

end VpnStack

import VpnStack.Servers
import VpnStack.Lib.DartDate
import VpnStack.Lib.JsonEncode
import VpnStack.Lib.Fallible

/-!
# What the server store keeps

A list that was saved is loaded as it was, dates and pinned keys with it. And a list that was loaded, from whatever text, can be
saved and loaded again: a record that had a pin has it, with its three parts, or the whole text was refused.
-/

namespace VpnStack

namespace Servers

open Firewall (HostKey)

/-- The dates of the app, which are Dart's. -/
def dartDates (zone : Dart.TimeZone) : Dates where
  toIso8601String d := Dart.toIso8601String zone d.microsecondsSinceEpoch d.isUtc
  tryParse t := (Dart.dateTimeTryParse zone t).map fun d => ⟨d.1, d.2⟩

section Codec

variable {dates : Dates} {s : ServerProfile} {servers : List ServerProfile}

/-- None of the three parts of a pin is empty. -/
structure FullPin (key : HostKey) : Prop where
  algorithm : key.algorithm ≠ ""
  blob : key.blob ≠ ""
  fingerprint : key.fingerprint ≠ ""

/-- A record that comes back from its JSON. -/
structure Storable (dates : Dates) (s : ServerProfile) : Prop where
  port : -(2 ^ 63) ≤ s.sshPort ∧ s.sshPort < 2 ^ 63
  date : ∀ d, s.provisionedAt = some d → dates.tryParse (dates.toIso8601String d) = some d
  pin : ∀ key, s.hostKey = some key → FullPin key

/-! ## Pins -/

/-- A stored pin has the three parts of a key. -/
structure Carries (stored : Json) (key : HostKey) : Prop where
  algorithm : member stored "algorithm" = .str key.algorithm.toList
  blob : member stored "blob" = .str key.blob.toList
  fingerprint : member stored "fingerprint" = .str key.fingerprint.toList

theorem carries_hostKeyToJson (key : HostKey) : Carries (hostKeyToJson key) key := ⟨rfl, rfl, rfl⟩

/-- A string that is not empty has characters. -/
theorem isEmpty_toList {t : String} (h : t ≠ "") : t.toList.isEmpty = false := by
  rw [List.isEmpty_eq_false_iff]
  intro hnil
  exact h (String.toList_inj.mp hnil)

/-- A pin is read where its three parts are there, and none is empty. -/
theorem hostKeyFromJson_eq_some {stored : Json} {key : HostKey} :
    hostKeyFromJson stored = some key ↔ Carries stored key ∧ FullPin key := by
  constructor
  · intro h
    unfold hostKeyFromJson at h
    split at h
    · rename_i algorithm blob fingerprint halgorithm hblob hfingerprint
      split at h
      · cases h
      · rename_i hnone
        simp only [Bool.or_eq_true, not_or, List.isEmpty_iff] at hnone
        obtain ⟨⟨ha, hb⟩, hf⟩ := hnone
        cases h
        refine ⟨⟨?_, ?_, ?_⟩, ⟨?_, ?_, ?_⟩⟩
        · rw [halgorithm, String.toList_ofList]
        · rw [hblob, String.toList_ofList]
        · rw [hfingerprint, String.toList_ofList]
        · exact fun h => ha (by simpa using congrArg String.toList h)
        · exact fun h => hb (by simpa using congrArg String.toList h)
        · exact fun h => hf (by simpa using congrArg String.toList h)
    · cases h
  · rintro ⟨hcarries, hfull⟩
    unfold hostKeyFromJson
    rw [hcarries.algorithm, hcarries.blob, hcarries.fingerprint]
    simp [isEmpty_toList hfull.algorithm, isEmpty_toList hfull.blob, isEmpty_toList hfull.fingerprint]

/-- A pin that is there is read as a key that is not empty, or refused. -/
theorem readHostKey_eq_ok {stored : Json} {id : Text} {pin : Option HostKey} (h : readHostKey stored id = .ok pin) :
    (∀ key, pin = some key → FullPin key) ∧ (stored ≠ .null → ∃ key, pin = some key ∧ Carries stored key) := by
  unfold readHostKey at h
  split at h
  · cases h
    exact ⟨fun key hkey => (by cases hkey), fun hne => absurd rfl hne⟩
  · split at h
    · rename_i key hkey
      cases h
      obtain ⟨hcarries, hfull⟩ := hostKeyFromJson_eq_some.mp hkey
      refine ⟨fun key' hkey' => ?_, fun _ => ⟨key, rfl, hcarries⟩⟩
      cases hkey'
      exact hfull
    · cases h
  · cases h

/-! ## One record -/

/-- An integer that is read fits into sixty-four bits. -/
theorem asInt_eq_ok {v : Json} {port : Option Int} (h : asInt v = .ok port) :
    -(2 ^ 63) ≤ port.getD 22 ∧ port.getD 22 < 2 ^ 63 := by
  unfold asInt at h
  split at h
  · cases h
    decide
  · split at h
    · rename_i hread
      cases h
      exact Dart.asInt_bounds hread
    · cases h

/-- An integer that fits into sixty-four bits is read back. -/
theorem asInt_ofInt {n : Int} (hlow : -(2 ^ 63) ≤ n) (hhigh : n < 2 ^ 63) : asInt (Json.ofInt n) = .ok (some n) := by
  have hread := Dart.asInt_ofInt hlow hhigh
  cases n with
  | ofNat k =>
    simp only [Json.ofInt] at hread ⊢
    simp only [asInt, hread]
  | negSucc k =>
    simp only [Json.ofInt] at hread ⊢
    simp only [asInt, hread]

/-- A record is read from what it was written as. -/
theorem fromJson_toJson (h : Storable dates s) : ServerProfile.fromJson dates (s.toJson dates) = .ok s := by
  have hdate : ∃ at', asText ((s.provisionedAt.map fun d => Json.str (dates.toIso8601String d)).getD .null) = .ok at' ∧
      at'.bind dates.tryParse = s.provisionedAt := by
    cases hat : s.provisionedAt with
    | none => exact ⟨none, rfl, rfl⟩
    | some d => exact ⟨some (dates.toIso8601String d), rfl, h.date d hat⟩
  have hpin : readHostKey ((s.hostKey.map hostKeyToJson).getD .null) s.id = .ok s.hostKey := by
    cases hkey : s.hostKey with
    | none => rfl
    | some key =>
      have hread := hostKeyFromJson_eq_some.mpr ⟨carries_hostKeyToJson key, h.pin key hkey⟩
      simp only [Option.map_some, Option.getD_some, readHostKey, hostKeyToJson] at hread ⊢
      rw [hread]
  obtain ⟨at', hat, hparsed⟩ := hdate
  change (do
    let at' ← asText ((s.provisionedAt.map fun d => Json.str (dates.toIso8601String d)).getD .null)
    let sshPort ← asInt (Json.ofInt s.sshPort)
    let hostKey ← readHostKey ((s.hostKey.map hostKeyToJson).getD .null) s.id
    return ({ id := s.id, label := s.label, host := s.host, sshUser := s.sshUser, sshPort := sshPort.getD 22,
              provisionedAt := at'.bind dates.tryParse, hostKey } : ServerProfile)) = _
  rw [hat, Except.ok_bind, asInt_ofInt h.port.1 h.port.2, Except.ok_bind, hpin, Except.ok_bind, hparsed]
  rfl

/-- A record that was read, from whatever, comes back from its JSON, and has the pin it was read with. -/
theorem fromJson_eq_ok (hdates : ∀ t d, dates.tryParse t = some d → dates.tryParse (dates.toIso8601String d) = some d)
    {row : Json} (h : ServerProfile.fromJson dates row = .ok s) :
    Storable dates s ∧ (member row "host_key" ≠ .null → ∃ key, s.hostKey = some key ∧ Carries (member row "host_key") key) := by
  obtain ⟨at', -, h⟩ := Except.bind_eq_ok.mp h
  obtain ⟨id, -, h⟩ := Except.bind_eq_ok.mp h
  obtain ⟨label, -, h⟩ := Except.bind_eq_ok.mp h
  obtain ⟨host, -, h⟩ := Except.bind_eq_ok.mp h
  obtain ⟨user, -, h⟩ := Except.bind_eq_ok.mp h
  obtain ⟨port, hport, h⟩ := Except.bind_eq_ok.mp h
  obtain ⟨pin, hpin, h⟩ := Except.bind_eq_ok.mp h
  obtain rfl := Except.pure_eq_ok.mp h
  obtain ⟨hfull, hcarried⟩ := readHostKey_eq_ok hpin
  refine ⟨⟨asInt_eq_ok hport, fun d hd => ?_, hfull⟩, hcarried⟩
  obtain ⟨t, -, ht⟩ := Option.bind_eq_some_iff.mp hd
  exact hdates t d ht

/-! ## The list -/

/-- The list is read from the text it was saved as. -/
theorem load_blobOf (h : ∀ s ∈ servers, Storable dates s) : load dates (some (blobOf dates servers)) = .ok servers := by
  have hraw : Dart.trim (blobOf dates servers) ≠ [] := by
    intro hnil
    have hbrace : '\x7b' ∈ Dart.trim (blobOf dates servers) := Dart.mem_trim rfl List.mem_cons_self
    rw [hnil] at hbrace
    cases hbrace
  have hrows : (servers.map fun s => s.toJson dates).mapM (readRow dates) = .ok servers := by
    rw [Except.mapM_eq_ok, List.forall₂_map_left_iff, List.forall₂_same]
    exact fun s hs => fromJson_toJson (h s hs)
  have hread := Dart.loads_jsonEncode
    (.obj [("schema".toList, .ofInt schema), ("servers".toList, .arr (servers.map fun s => s.toJson dates))])
  rw [load, if_neg hraw, blobOf, hread]
  exact hrows

/-- The records that a text holds. -/
def storedRows (raw : Text) : List Json := Json.items ((Json.loads raw).bind fun decoded => decoded.get "servers")

/-- A record that had a pin is one that has it. -/
def KeepsPin (row : Json) (s : ServerProfile) : Prop :=
  member row "host_key" ≠ .null → ∃ key, s.hostKey = some key ∧ Carries (member row "host_key") key

/-- A text of white space holds no records. -/
theorem storedRows_blank {raw : Text} (h : Dart.trim raw = []) : storedRows raw = [] := by
  unfold storedRows
  cases hloads : Json.loads raw with
  | none => rfl
  | some decoded =>
    cases decoded with
    | obj members =>
      obtain ⟨before, body, after, rfl, -⟩ := Json.loads_obj hloads
      have hbrace : '\x7b' ∈ Dart.trim (before ++ ('\x7b' :: (body ++ ['\x7d']) ++ after)) := Dart.mem_trim rfl (by simp)
      rw [h] at hbrace
      cases hbrace
    | null => rfl
    | bool b => rfl
    | num n => rfl
    | other n => rfl
    | str t => rfl
    | arr items => rfl

/-- The rows are the items of a list, or there are none. -/
theorem asRows_eq_ok {decoded : Json} {rows : List Json} (h : asRows (member decoded "servers") = .ok rows) :
    Json.items (decoded.get "servers") = rows := by
  unfold member at h
  cases hget : decoded.get "servers" with
  | none =>
    rw [hget] at h
    cases h
    rfl
  | some v =>
    rw [hget] at h
    cases v with
    | null =>
      cases h
      rfl
    | arr items =>
      cases h
      rfl
    | bool b => cases h
    | num n => cases h
    | other n => cases h
    | str t => cases h
    | obj members => cases h

/-- What is loaded comes back from its JSON, and has the pins of the text. -/
theorem load_eq_ok (hdates : ∀ t d, dates.tryParse t = some d → dates.tryParse (dates.toIso8601String d) = some d)
    {raw : Text} (h : load dates (some raw) = .ok servers) :
    List.Forall₂ (fun row s => Storable dates s ∧ KeepsPin row s) (storedRows raw) servers := by
  rw [load] at h
  split at h
  · rename_i hblank
    cases h
    rw [storedRows_blank hblank]
    exact .nil
  · cases hloads : Json.loads raw with
    | none =>
      rw [hloads] at h
      cases h
    | some decoded =>
      rw [hloads] at h
      dsimp only at h
      unfold readList at h
      split at h
      · rename_i members
        obtain ⟨found, -, h⟩ := Except.bind_eq_ok.mp h
        split at h
        · cases h
        · obtain ⟨rows, hrows, h⟩ := Except.bind_eq_ok.mp h
          have hstored : storedRows raw = rows := by
            rw [storedRows, hloads]
            exact asRows_eq_ok hrows
          rw [hstored]
          refine (Except.mapM_eq_ok.mp h).imp fun row s hrow => ?_
          unfold readRow at hrow
          split at hrow
          · exact fromJson_eq_ok hdates hrow
          · cases hrow
      · cases h

end Codec

/-- A record as the app has it: a port of 64 bits, a date that `DateTime` can hold, in UTC, and a pin with its three parts. -/
structure InApp (s : ServerProfile) : Prop where
  port : -(2 ^ 63) ≤ s.sshPort ∧ s.sshPort < 2 ^ 63
  date : ∀ d, s.provisionedAt = some d → d.isUtc = true ∧ Dart.InRange d.microsecondsSinceEpoch
  pin : ∀ key, s.hostKey = some key → FullPin key

/-- A date in UTC is read back as it is written. -/
theorem tryParse_toIso8601String (zone : Dart.TimeZone) {d : DateTime} (hutc : d.isUtc = true)
    (hrange : Dart.InRange d.microsecondsSinceEpoch) :
    (dartDates zone).tryParse ((dartDates zone).toIso8601String d) = some d := by
  obtain ⟨microseconds, isUtc⟩ := d
  obtain rfl : isUtc = true := hutc
  have hparse : Dart.dateTimeTryParse zone (Dart.toIso8601String zone microseconds true) = some (microseconds, true) :=
    Dart.dateTimeTryParse_toIso8601String zone hrange fun h => absurd h (by decide)
  simp only [dartDates, hparse, Option.map_some]

/-- A date that was read is read back as it is written. -/
theorem tryParse_again (zone : Dart.TimeZone) {t : Text} {d : DateTime} (h : (dartDates zone).tryParse t = some d) :
    (dartDates zone).tryParse ((dartDates zone).toIso8601String d) = some d := by
  obtain ⟨⟨microseconds, isUtc⟩, hparse, rfl⟩ := Option.map_eq_some_iff.mp h
  have hagain := Dart.dateTimeTryParse_again zone hparse
  simp only [dartDates, hagain, Option.map_some]

/-- A machine in UTC. -/
def utcZone : Dart.TimeZone where
  toLocal := id
  ofLocal := id
  near t := by simp [Dart.microsecondsPerDay]
  ofLocal_toLocal_ofLocal _ := rfl

/-- A server that was provisioned, and whose key is known. -/
def pinnedServer : ServerProfile where
  id := "a"
  label := "a"
  host := "203.0.113.7"
  provisionedAt := some ⟨1719830096123456, true⟩
  hostKey := some ⟨"ssh-ed25519", "SHA256:x", "SHA256:x"⟩

end Servers

end VpnStack

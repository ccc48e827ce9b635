import VpnStack.Backup
import VpnStack.Theorems.Keyring

/-!
# What a restore leaves

The unpacking deletes nothing, so a target keeps every file of its own that the backup has none for. What is there afterwards
is what was backed up exactly when the target had no such file, and a volume the backup is too old to carry is that one already.
-/

namespace VpnStack

namespace Backup

variable {s t t' : Server} {known : List (String × String)} {archive : Archive}

/-! ## One tar over one directory -/

/-- A path is as in the archive exactly where nothing that was there is missing from it. -/
theorem extract_eq_iff {archive dir : Files} {path : String} :
    extract archive dir path = archive path ↔ (dir path ≠ none → archive path ≠ none) := by
  rw [extract]
  cases hin : archive path with
  | some content => simp
  | none => simp

theorem createState_of_kept {dir : Files} {path : String} (h : isRendered path = false) : createState dir path = dir path := by
  simp [createState, h]

/-! ## The loops over the volumes -/

/-- A member is there when the script that took the backup names it. -/
theorem members_backupStream {pair : String × String} (hknown : known ⊆ backupVolumes) (hpair : pair ∈ backupVolumes) :
    (backupStream known s).members pair.2 = if pair ∈ known then some (s.volumes pair.1) else none := by
  have hmember : ∀ p ∈ backupVolumes, ∀ q ∈ backupVolumes, p.2 = q.2 → p = q := by decide
  have hfold : ∀ members : String → Option Files,
      known.foldl (fun (members : String → Option Files) (pair : String × String) =>
        Function.update members pair.2 (some (s.volumes pair.1))) members pair.2 = if pair ∈ known then some (s.volumes pair.1) else members pair.2 := by
    induction known with
    | nil => simp
    | cons p rest ih =>
      intro members
      obtain ⟨hp, hrest⟩ := List.cons_subset.mp hknown
      rw [List.foldl_cons, ih hrest]
      by_cases hin : pair ∈ rest
      · simp [hin]
      · by_cases heq : pair = p
        · subst heq
          simp [hin]
        · have hne : pair.2 ≠ p.2 := fun h => heq (hmember pair hpair p hp h)
          simp [hin, heq, Function.update_of_ne hne]
  exact hfold _

/-- Unpacking a volume leaves the others. -/
theorem unpackVolume_of_ne {volumes : String → Files} {pair : String × String} {volume : String} (h : volume ≠ pair.1) :
    unpackVolume archive volumes pair volume = volumes volume := by
  rw [unpackVolume]
  cases archive.members pair.2 with
  | some files => exact Function.update_of_ne h _ _
  | none => rfl

/-- A volume is unpacked over what it holds, if the archive has it. -/
theorem unpackVolume_self {volumes : String → Files} {pair : String × String} :
    unpackVolume archive volumes pair pair.1 =
      ((archive.members pair.2).map fun files => extract files (volumes pair.1)).getD (volumes pair.1) := by
  rw [unpackVolume]
  cases archive.members pair.2 with
  | some files => exact Function.update_self _ _ _
  | none => rfl

/-- Each volume of the list has its turn once. -/
theorem unpackVolumes_eq {volumes : String → Files} {pair : String × String} (hpair : pair ∈ backupVolumes) :
    backupVolumes.foldl (unpackVolume archive) volumes pair.1 =
      ((archive.members pair.2).map fun files => extract files (volumes pair.1)).getD (volumes pair.1) := by
  have hother : ∀ (pairs : List (String × String)) (volumes : String → Files), pair.1 ∉ pairs.map Prod.fst →
      pairs.foldl (unpackVolume archive) volumes pair.1 = volumes pair.1 := by
    intro pairs
    induction pairs with
    | nil => simp
    | cons p rest ih =>
      intro volumes hnot
      rw [List.map_cons, List.mem_cons, not_or] at hnot
      rw [List.foldl_cons, ih _ hnot.2, unpackVolume_of_ne hnot.1]
  have hnodup : (backupVolumes.map Prod.fst).Nodup := by decide
  obtain ⟨before, after, hsplit⟩ := List.append_of_mem hpair
  rw [hsplit, List.map_append, List.map_cons, List.nodup_append, List.nodup_cons] at hnodup
  obtain ⟨-, ⟨hafter, -⟩, hbefore⟩ := hnodup
  have hfresh : pair.1 ∉ before.map Prod.fst := fun h => hbefore _ h _ List.mem_cons_self rfl
  rw [hsplit, List.foldl_append, List.foldl_cons, hother after _ hafter, unpackVolume_self, hother before _ hfresh]

/-! ## The whole restore -/

/-- The target holds what the server held, the rendered trees apart. -/
structure Restored (s t : Server) : Prop where
  state : ∀ path, isRendered path = false → t.state path = s.state path
  volumes : ∀ pair ∈ backupVolumes, t.volumes pair.1 = s.volumes pair.1

/-- The target has no file that would be left over. -/
structure Covered (known : List (String × String)) (s t : Server) : Prop where
  state : ∀ path, isRendered path = false → t.state path ≠ none → s.state path ≠ none
  carried : ∀ pair ∈ backupVolumes, pair ∈ known → ∀ path, t.volumes pair.1 path ≠ none → s.volumes pair.1 path ≠ none
  missing : ∀ pair ∈ backupVolumes, pair ∉ known → t.volumes pair.1 = s.volumes pair.1

/-- A restore that is not refused unpacks the state directory and the volumes. -/
theorem restore_eq_some {force : Bool} (h : restore force archive t = some t') :
    t' = { state := extract archive.state t.state, volumes := backupVolumes.foldl (unpackVolume archive) t.volumes } := by
  unfold restore at h
  split at h
  · cases h
  · exact (Option.some.inj h).symm

/-- A path of the state directory is restored exactly where it was backed up, or was not there. -/
theorem state_restored_iff {path : String} (hpath : isRendered path = false) :
    extract (backupStream known s).state t.state path = s.state path ↔ (t.state path ≠ none → s.state path ≠ none) := by
  have hcreated : (backupStream known s).state path = s.state path := createState_of_kept hpath
  rw [← hcreated]
  exact extract_eq_iff

/-- A volume that was known is restored exactly where no path was there that the backup lacks, and one that was not is left. -/
theorem volume_restored_iff {pair : String × String} (hknown : known ⊆ backupVolumes) (hpair : pair ∈ backupVolumes) :
    backupVolumes.foldl (unpackVolume (backupStream known s)) t.volumes pair.1 = s.volumes pair.1 ↔
      if pair ∈ known then ∀ path, t.volumes pair.1 path ≠ none → s.volumes pair.1 path ≠ none
      else t.volumes pair.1 = s.volumes pair.1 := by
  rw [unpackVolumes_eq hpair, members_backupStream hknown hpair]
  by_cases hin : pair ∈ known
  · rw [if_pos hin, if_pos hin, Option.map_some, Option.getD_some, funext_iff]
    exact forall_congr' fun path => extract_eq_iff
  · rw [if_neg hin, if_neg hin, Option.map_none, Option.getD_none]

/-- A keyring that is restored is paired where the one backed up was. -/
theorem Restored.paired {Γ : Type} {crypto : Crypto Γ} (h : Restored s t)
    (hs : Bootstrap.Paired crypto s.keyring) : Bootstrap.Paired crypto t.keyring := by
  have hsecret : ∀ name, isRendered ("secrets/" ++ name) = false := by
    intro name
    rw [isRendered, String.toList_append]
    rfl
  have hkeyring : t.keyring = s.keyring := funext fun name => h.state _ (hsecret name)
  rw [hkeyring]
  exact hs

/-- A restore that proceeds leaves what was backed up exactly when nothing of the target is left over; the pairs of keys agree
then where they agreed. -/
theorem restore_exact_iff {Γ : Type} (crypto : Crypto Γ) (known : List (String × String)) (force : Bool)
    (s t t' : Server) (hknown : known ⊆ backupVolumes) (h : restore force (backupStream known s) t = some t') :
    (Restored s t' ↔ Covered known s t) ∧
      (Restored s t' → Bootstrap.Paired crypto s.keyring → Bootstrap.Paired crypto t'.keyring) := by
  refine ⟨?_, Restored.paired⟩
  obtain rfl := restore_eq_some h
  constructor
  · intro hr
    refine ⟨fun path hpath => (state_restored_iff hpath).mp (hr.state path hpath), fun pair hpair hin => ?_,
      fun pair hpair hout => ?_⟩
    · have hcarried := (volume_restored_iff hknown hpair).mp (hr.volumes pair hpair)
      rwa [if_pos hin] at hcarried
    · have hmissing := (volume_restored_iff hknown hpair).mp (hr.volumes pair hpair)
      rwa [if_neg hout] at hmissing
  · intro hc
    refine ⟨fun path hpath => (state_restored_iff hpath).mpr (hc.state path hpath), fun pair hpair => ?_⟩
    refine (volume_restored_iff hknown hpair).mpr ?_
    split
    · exact hc.carried pair hpair ‹_›
    · exact hc.missing pair hpair ‹_›

/-- A keyring of before the public half was stored, and nothing else. -/
def olderServer : Server where
  state path := if path = "secrets/reality.key" then
    some (Text.encode (RealityKey.generatePrivateKey (List.replicate 32 1))) else none
  volumes _ _ := none

/-- The same on a box where nothing has run yet: only the key comes back. -/
theorem restore_exact_empty : ∃ t', restore false (backupStream (backupVolumes.take 1) olderServer)
    ⟨fun _ => none, fun _ _ => none⟩ = some t' ∧ Restored olderServer t' := by
  refine ⟨_, rfl, ((restore_exact_iff Bootstrap.sampleCrypto (backupVolumes.take 1) false olderServer
    ⟨fun _ => none, fun _ _ => none⟩ _ (List.take_subset _ _) rfl).1).mpr ?_⟩
  exact ⟨fun _ _ h => absurd rfl h, fun _ _ _ _ h => absurd rfl h, fun _ _ _ => rfl⟩

/-- A box whose keyring was made this morning. -/
def freshServer : Server where
  state path :=
    if path = "secrets/reality.key" then some (Text.encode (RealityKey.generatePrivateKey (List.replicate 32 2)))
    else if path = "secrets/reality.pub" then some (Text.encode (Base64.urlEncode (List.replicate 32 2))) else none
  volumes _ _ := none

/-- The old private half lies beside the new public one, and no `--force` was needed. -/
theorem restore_mixed : ¬ ∀ (known : List (String × String)) (force : Bool) (s t t' : Server), known ⊆ backupVolumes →
    restore force (backupStream known s) t = some t' →
    Restored s t' ∧ (Bootstrap.Paired Bootstrap.sampleCrypto s.keyring → Bootstrap.Paired Bootstrap.sampleCrypto t'.keyring) := by
  intro hall
  have hpaired : Bootstrap.Paired Bootstrap.sampleCrypto olderServer.keyring := by
    intro p x y _ hy
    cases p <;> cases hy
  have hmixed := (hall backupVolumes false olderServer freshServer _ (List.Subset.refl _) rfl).2 hpaired .reality
    (Text.encode (RealityKey.generatePrivateKey (List.replicate 32 1)))
    (Text.encode (Base64.urlEncode (List.replicate 32 2))) (by decide +kernel) (by decide +kernel)
  exact absurd ((Bootstrap.isPublic_generated (by simp)).mp hmixed) (by decide +kernel)

end Backup

end VpnStack

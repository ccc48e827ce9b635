import VpnStack.Protocols.Ikev2

/-!
# What the IPsec container reads in its environment

`ikev2.env` read back: one KEY=VALUE a line, and the two lists split on spaces. `render` refuses a name `_NAME_RE` does not
match and a password `str.split` does not find one word in; both checks let a final newline through, and the second one
any white space around the word.
-/

namespace VpnStack

open Python

namespace Ikev2

/-! ## Reading -/

/-- The value of the last line with that key. -/
def envValue (lines : List Text) (key : String) : Text :=
  ((lines.filterMap fun line => if (Text.cut '=' line).1 = key.toList then (Text.cut '=' line).2 else none).getLast?).getD []

/-- A list of an environment file, split on spaces. -/
def envList (lines : List Text) (key : String) : List Text := Text.words (· == ' ') (envValue lines key)

/-- The file has the lines `render` means to write, and its two lists pair every enabled user with their own password. -/
def ReadsBack (secrets : Secrets) (users : List User) (file : Bytes) : Prop :=
  ∃ text psk primaryUser primaryPassword, Text.decode file = some text ∧
    secrets.text "ipsec.psk" = .ok psk ∧ secrets.text "ipsec.primary_user" = .ok primaryUser ∧
    secrets.text "ipsec.primary_password" = .ok primaryPassword ∧
    Text.lines '\n' text = envLines psk primaryUser primaryPassword (enabledUsers users) ∧
    (envList (Text.lines '\n' text) "VPN_ADDL_USERS").length = (envList (Text.lines '\n' text) "VPN_ADDL_PASSWORDS").length ∧
    (envList (Text.lines '\n' text) "VPN_ADDL_USERS").zip (envList (Text.lines '\n' text) "VPN_ADDL_PASSWORDS") =
      (enabledUsers users).map fun u => (u.name, u.l2tpPassword)

/-- A user whose name and password stay within their line and their place in the list. -/
def Listable (u : User) : Prop := '\n' ∉ u.name ∧ ' ' ∉ u.l2tpPassword ∧ '\n' ∉ u.l2tpPassword

section Lines

variable {psk primaryUser primaryPassword : Text} {enabled : List User}

/-- The two lists of the written lines are what was joined. -/
theorem envValue_envLines :
    envValue (envLines psk primaryUser primaryPassword enabled) "VPN_ADDL_USERS" = [' '].intercalate (enabled.map (·.name)) ∧
      envValue (envLines psk primaryUser primaryPassword enabled) "VPN_ADDL_PASSWORDS" =
        [' '].intercalate (enabled.map (·.l2tpPassword)) := ⟨rfl, rfl⟩

/-- The line of a key stays one line when its value does. -/
theorem newline_not_mem_line {key : String} {value : Text} (hkey : '\n' ∉ key.toList) (hvalue : '\n' ∉ value) :
    '\n' ∉ key.toList ++ value := by
  rw [List.mem_append]
  exact fun h => h.elim hkey hvalue

/-- A list of values without newlines, joined by spaces, has none. -/
theorem newline_not_mem_intercalate {ws : List Text} (h : ∀ w ∈ ws, '\n' ∉ w) : '\n' ∉ [' '].intercalate ws := by
  intro hmem
  rcases Text.eq_or_mem_of_mem_intercalate hmem with hc | ⟨w, hw, hc⟩
  · cases hc
  · exact h w hw hc

/-- No line `render` means to write has a newline in it, if no value has. -/
theorem newline_not_mem_envLines (hpsk : IsWord psk) (huser : IsWord primaryUser) (hpassword : IsWord primaryPassword)
    (henabled : ∀ u ∈ enabled, Listable u) :
    ∀ line ∈ envLines psk primaryUser primaryPassword enabled, '\n' ∉ line := by
  intro line hline
  simp only [envLines, List.mem_cons, List.not_mem_nil, or_false] at hline
  rcases hline with rfl | rfl | rfl | rfl | rfl
  · exact newline_not_mem_line (by decide) hpsk.not_newline
  · exact newline_not_mem_line (by decide) huser.not_newline
  · exact newline_not_mem_line (by decide) hpassword.not_newline
  · refine newline_not_mem_line (by decide) (newline_not_mem_intercalate fun w hw => ?_)
    obtain ⟨u, hu, rfl⟩ := List.mem_map.mp hw
    exact (henabled u hu).1
  · refine newline_not_mem_line (by decide) (newline_not_mem_intercalate fun w hw => ?_)
    obtain ⟨u, hu, rfl⟩ := List.mem_map.mp hw
    exact (henabled u hu).2.2

/-- Values that are words for the reader are read back from the list they were joined to. -/
theorem words_map_intercalate {f : User → Text} (h : ∀ u ∈ enabled, f u ≠ [] ∧ ' ' ∉ f u) :
    Text.words (· == ' ') ([' '].intercalate (enabled.map f)) = enabled.map f := by
  refine Text.words_intercalate (by decide) fun w hw => ?_
  obtain ⟨u, hu, rfl⟩ := List.mem_map.mp hw
  refine ⟨(h u hu).1, fun c hc => ?_⟩
  have hne : c ≠ ' ' := fun he => (h u hu).2 (he ▸ hc)
  simpa using hne

end Lines

/-! ## The result -/

/-- A checked name without a newline is a word of the list. -/
theorem name_readable {u : User} (hname : Users.nameRe u.name = true) (hu : '\n' ∉ u.name) : u.name ≠ [] ∧ ' ' ∉ u.name :=
  have hword := (Users.plainName_of_nameRe hname hu).isWord
  ⟨hword.1, hword.not_space⟩

/-- A password in which `split` finds a word is not empty. -/
theorem ne_nil_of_split {t : Text} (h : (split t).length = 1) : t ≠ [] := by
  rintro rfl
  cases h

/-- A file that reads back was rendered from names and passwords that stay in their places. -/
theorem ReadsBack.listable {secrets : Secrets} {users : List User} {file : Bytes} (h : ReadsBack secrets users file) :
    ∀ u ∈ enabledUsers users, Listable u := by
  obtain ⟨text, psk, primaryUser, primaryPassword, -, -, -, -, hlines, -, hzip⟩ := h
  intro u hu
  have hline : ∀ line ∈ envLines psk primaryUser primaryPassword (enabledUsers users), '\n' ∉ line :=
    fun line hmem => Text.not_mem_of_mem_lines (hlines ▸ hmem)
  have husers := hline ("VPN_ADDL_USERS=" ++ [' '].intercalate ((enabledUsers users).map (·.name))) (by simp [envLines])
  have hpasswords := hline ("VPN_ADDL_PASSWORDS=" ++ [' '].intercalate ((enabledUsers users).map (·.l2tpPassword)))
    (by simp [envLines])
  refine ⟨fun hmem => husers ?_, fun hmem => ?_, fun hmem => hpasswords ?_⟩
  · exact List.mem_append_right _ (Text.mem_intercalate (List.mem_map_of_mem hu) hmem)
  · have hpair : (u.name, u.l2tpPassword) ∈ (enabledUsers users).map fun u => (u.name, u.l2tpPassword) :=
      List.mem_map_of_mem hu
    rw [← hzip] at hpair
    have hsep := (Text.of_mem_words (List.of_mem_zip hpair).2).2 ' ' hmem
    cases hsep
  · exact List.mem_append_right _ (Text.mem_intercalate (List.mem_map_of_mem hu) hmem)

/-- When `render` returns, its file reads back as the enabled users and their passwords exactly when no enabled user's name
has a newline and no enabled user's password has a space or a newline in it. -/
theorem render_readsBack_iff (secrets : Secrets) (users : List User) (tree : Tree)
    (hsecrets : ∀ key ∈ protocol.secretNames, ∀ t, secrets.text key = .ok t → IsWord t)
    (hrender : render secrets users = .ok tree) :
    (∃ file, tree.lookup "ikev2.env".toList = some file ∧ ReadsBack secrets users file) ↔
      ∀ u ∈ enabledUsers users, '\n' ∉ u.name ∧ ' ' ∉ u.l2tpPassword ∧ '\n' ∉ u.l2tpPassword := by
  obtain ⟨hchecked, psk, primaryUser, primaryPassword, hpsk, huser, hpassword, rfl⟩ := render_eq_ok.mp hrender
  constructor
  · rintro ⟨file, -, hreads⟩
    exact hreads.listable
  · intro hlistable
    have hlines : Text.lines '\n' (Text.unlines '\n' (envLines psk primaryUser primaryPassword (enabledUsers users))) =
        envLines psk primaryUser primaryPassword (enabledUsers users) :=
      Text.lines_unlines (newline_not_mem_envLines (hsecrets _ (by decide) _ hpsk) (hsecrets _ (by decide) _ huser)
        (hsecrets _ (by decide) _ hpassword) hlistable)
    have hnames : envList (envLines psk primaryUser primaryPassword (enabledUsers users)) "VPN_ADDL_USERS" =
        (enabledUsers users).map (·.name) := by
      rw [envList, envValue_envLines.1]
      exact words_map_intercalate fun u hu => name_readable (hchecked u hu).1 (hlistable u hu).1
    have hpasswords : envList (envLines psk primaryUser primaryPassword (enabledUsers users)) "VPN_ADDL_PASSWORDS" =
        (enabledUsers users).map (·.l2tpPassword) := by
      rw [envList, envValue_envLines.2]
      exact words_map_intercalate fun u hu => ⟨ne_nil_of_split (hchecked u hu).2, (hlistable u hu).2.1⟩
    refine ⟨_, rfl, _, psk, primaryUser, primaryPassword, Text.decode_encode _, hpsk, huser, hpassword, hlines, ?_, ?_⟩
    · rw [hlines, hnames, hpasswords, List.length_map, List.length_map]
    · rw [hlines, hnames, hpasswords, List.zip_map']

/-- A keyring in which every secret is the same word. -/
def sampleSecrets : Secrets := ⟨fun _ => some (Text.encode "5f1c")⟩

/-- An enabled user of that name and that L2TP password. -/
def sampleUser (name l2tpPassword : Text) : User :=
  ⟨name, "u", "h", l2tpPassword, false, true, "2026-01-01T00:00:00Z", "d"⟩

/-- The secrets of the sample are words. -/
theorem sampleSecrets_word (key : String) (t : Text) (h : sampleSecrets.text key = .ok t) : IsWord t := by
  have hword : sampleSecrets.text key = .ok ("5f1c" : Text) := rfl
  rw [hword] at h
  cases h
  decide

/-- Two users `user add` made are read back. -/
theorem render_readsBack_plain :
    ∃ tree file, render sampleSecrets [sampleUser "bob" "b1", sampleUser "carol" "c1"] = .ok tree ∧
      tree.lookup "ikev2.env".toList = some file ∧
      ReadsBack sampleSecrets [sampleUser "bob" "b1", sampleUser "carol" "c1"] file := by
  obtain ⟨file, hfile, hreads⟩ := (render_readsBack_iff sampleSecrets [sampleUser "bob" "b1", sampleUser "carol" "c1"] _
    (fun key _ => sampleSecrets_word key) rfl).mpr (by decide)
  exact ⟨_, file, rfl, hfile, hreads⟩

/-- A name with a newline at its end passes the check, and cuts the list of names in front of the next one. -/
theorem render_readsBack_newline :
    ¬ ∀ (secrets : Secrets) (users : List User) (tree : Tree),
      (∀ key ∈ protocol.secretNames, ∀ t, secrets.text key = .ok t → IsWord t) → render secrets users = .ok tree →
        ∃ file, tree.lookup "ikev2.env".toList = some file ∧ ReadsBack secrets users file := by
  intro h
  obtain ⟨file, -, hreads⟩ := h sampleSecrets [sampleUser "bob\n" "b1", sampleUser "carol" "c1"] _
    (fun key _ => sampleSecrets_word key) rfl
  have hbob := hreads.listable (sampleUser "bob\n" "b1") (by decide)
  exact absurd hbob.1 (by decide)

end Ikev2

end VpnStack

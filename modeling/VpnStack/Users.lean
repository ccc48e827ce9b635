import VpnStack.Basic

/-!
# The user database

`users_store.py`: the record of one person, what a name may be, and how a name is looked up. A name is checked when a user
is added, and again by the renderers whose file formats it could break: users.json may have been edited by hand or restored
from a backup.
-/

namespace VpnStack

open Python

/-- One person's record, with a credential for each protocol. -/
structure User where
  name : Text
  vlessUuid : Text
  hysteria2Password : Text
  l2tpPassword : Text
  ikev2Provisioned : Bool
  enabled : Bool
  createdAt : Text
  dnsttPassword : Text
  deriving DecidableEq, Repr

namespace Users

/-! ## Names -/

/-- `[A-Za-z0-9]`. -/
def isAlnum (c : Char) : Bool := ('A' ≤ c && c ≤ 'Z') || ('a' ≤ c && c ≤ 'z') || ('0' ≤ c && c ≤ '9')

/-- `[A-Za-z0-9._-]`. -/
def isNameChar (c : Char) : Bool := isAlnum c || c == '.' || c == '_' || c == '-'

/-- `[A-Za-z0-9._-]{0,k}$`: the dollar sign stands at the end of the text, and in front of a final newline. -/
def nameRest : Nat → Text → Bool
  | _, [] => true
  | _, ['\n'] => true
  | 0, _ :: _ => false
  | k + 1, c :: cs => isNameChar c && nameRest k cs

/-- `_NAME_RE.match`, of `^[A-Za-z0-9][A-Za-z0-9._-]{0,31}$`. -/
def nameRe : Text → Bool
  | [] => false
  | c :: cs => isAlnum c && nameRest 31 cs

/-- `_RESERVED_NAMES`: the accounts and groups of the dnstt sshd image, and names reserved elsewhere. -/
def reservedNames : List String :=
  [ -- alpine:3.20 /etc/passwd
   "root", "bin", "daemon", "lp", "sync", "shutdown", "halt", "mail", "news", "uucp", "cron", "ftp", "sshd", "games",
   "ntp", "guest", "nobody",
   -- alpine:3.20 /etc/group
   "sys", "adm", "tty", "disk", "kmem", "wheel", "floppy", "audio", "cdrom", "dialout", "input", "tape", "video", "netdev",
   "kvm", "shadow", "www-data", "users", "abuild", "utmp", "ping", "nogroup",
   -- the group the entrypoint creates
   "tunnel",
   -- reserved by adduser elsewhere
   "operator", "man", "postmaster", "at", "squid", "xfs", "cyrus", "vpopmail", "nut", "smmsp"]

/-- The message of a name that would corrupt a rendered file, if this is one. -/
def unrenderableName (name : Text) : Option Message :=
  if nameRe name then none
  else some ["Invalid user name ", .repr name,
    ". Use 1-32 characters: letters, digits, '.', '_' or '-', starting with a letter or digit. No spaces -- the ",
    "L2TP/Cisco user list is space-separated and a space would misalign every user's password."]

section CaseFolding

variable (py : CaseMap)

/-- The message of a name that collides with an account of the dnstt container, if this is one. -/
def reservedName (name : Text) : Option Message :=
  if py.lower name ∈ reservedNames.map String.toList then
    some ["Reserved user name ", .repr name,
      ". Every user gets a login inside the dnstt sshd container, and this name already exists there as a system account ",
      "or group -- the login would be created without the 'tunnel' group, the system account's password would be ",
      "overwritten with this user's, and `AllowGroups tunnel` would then refuse a credential that had already been ",
      "handed out. Pick another name."]
  else none

/-- Both halves, which is what `user add` owes a name it is about to create. -/
def validateName (name : Text) : Option Message := (unrenderableName name).or (reservedName py name)

/-- The first record of that name, case folded. -/
def find (users : List User) (name : Text) : Option User := users.find? (fun u => py.lower u.name == py.lower name)

end CaseFolding

/-! ## What the name check lets through -/

/-- A name as the check means it: a letter or digit, then at most 31 letters, digits, dots, underscores or dashes. -/
def PlainName (name : Text) : Prop :=
  ∃ c cs, name = c :: cs ∧ isAlnum c = true ∧ (∀ d ∈ cs, isNameChar d = true) ∧ cs.length ≤ 31

/-- What is left of a name: up to so many of its characters, and perhaps the newline that `$` lets by. -/
theorem nameRest_iff {k : Nat} {t : Text} :
    nameRest k t = true ↔ ∃ cs, (t = cs ∨ t = cs ++ ['\n']) ∧ (∀ d ∈ cs, isNameChar d = true) ∧ cs.length ≤ k := by
  fun_induction nameRest k t with
  | case1 => exact ⟨fun _ => ⟨[], by simp⟩, fun _ => rfl⟩
  | case2 => exact ⟨fun _ => ⟨[], by simp⟩, fun _ => rfl⟩
  | case3 c cs hne =>
    simp only [Bool.false_eq_true, false_iff, Nat.le_zero]
    rintro ⟨ds, h, -, hlen⟩
    obtain rfl := List.length_eq_zero_iff.mp hlen
    rcases h with h | h
    · cases h
    · obtain ⟨hc, hcs⟩ := List.cons.inj h
      exact hne hc hcs
  | case4 k c cs hne ih =>
    rw [Bool.and_eq_true, ih]
    constructor
    · rintro ⟨hc, ds, h, hds, hlen⟩
      refine ⟨c :: ds, ?_, ?_, by simpa using hlen⟩
      · rcases h with rfl | rfl
        · exact .inl rfl
        · exact .inr rfl
      · intro d hd
        rcases List.mem_cons.mp hd with rfl | hd
        · exact hc
        · exact hds d hd
    · rintro ⟨ds, h, hds, hlen⟩
      cases ds with
      | nil =>
        rcases h with h | h
        · cases h
        · obtain ⟨hc, hcs⟩ := List.cons.inj h
          exact (hne hc hcs).elim
      | cons d ds =>
        have hcd : c = d ∧ (cs = ds ∨ cs = ds ++ ['\n']) := by
          rcases h with h | h
          · exact ⟨(List.cons.inj h).1, .inl (List.cons.inj h).2⟩
          · exact ⟨(List.cons.inj h).1, .inr (List.cons.inj h).2⟩
        obtain ⟨rfl, hcs⟩ := hcd
        exact ⟨hds c (List.mem_cons_self ..), ds, hcs, fun e he => hds e (List.mem_cons_of_mem _ he), by simpa using hlen⟩

/-- The check lets through a plain name, and a plain name with a newline behind it. -/
theorem nameRe_iff {t : Text} : nameRe t = true ↔ ∃ name, PlainName name ∧ (t = name ∨ t = name ++ ['\n']) := by
  cases t with
  | nil =>
    simp only [nameRe, Bool.false_eq_true, false_iff]
    rintro ⟨name, ⟨c, cs, rfl, -⟩, h | h⟩ <;> cases h
  | cons c cs =>
    rw [nameRe, Bool.and_eq_true, nameRest_iff]
    constructor
    · rintro ⟨hc, ds, h, hds, hlen⟩
      refine ⟨c :: ds, ⟨c, ds, rfl, hc, hds, hlen⟩, ?_⟩
      rcases h with rfl | rfl
      · exact .inl rfl
      · exact .inr rfl
    · rintro ⟨name, ⟨d, ds, rfl, hd, hds, hlen⟩, h⟩
      rcases h with h | h
      · obtain ⟨rfl, rfl⟩ := List.cons.inj h
        exact ⟨hd, _, .inl rfl, hds, hlen⟩
      · obtain ⟨rfl, rfl⟩ := List.cons.inj h
        exact ⟨hd, ds, .inr rfl, hds, hlen⟩

/-- A name can be rendered exactly where the expression matches it. -/
theorem unrenderableName_eq_none {name : Text} : unrenderableName name = none ↔ nameRe name = true := by
  by_cases h : nameRe name = true
  · exact ⟨fun _ => h, fun _ => if_pos h⟩
  · rw [unrenderableName, if_neg h]
    exact ⟨fun hs => (Option.some_ne_none _ hs).elim, fun hn => absurd hn h⟩

/-- A name is not reserved exactly where no reserved one is the same in lower case. -/
theorem reservedName_eq_none {py : CaseMap} {name : Text} :
    reservedName py name = none ↔ py.lower name ∉ reservedNames.map String.toList := by
  by_cases h : py.lower name ∈ reservedNames.map String.toList
  · rw [reservedName, if_pos h]
    exact ⟨fun hs => (Option.some_ne_none _ hs).elim, fun hn => absurd h hn⟩
  · exact ⟨fun _ => h, fun _ => if_neg h⟩

theorem toNat_le_of_le {c d : Char} (h : c ≤ d) : c.toNat ≤ d.toNat := UInt32.le_iff_toNat_le.mp (Char.le_def.mp h)

/-- Letters, digits and the three marks are ASCII. -/
theorem isNameChar_ascii {c : Char} (h : isNameChar c = true) : c.toNat ≤ 127 := by
  simp only [isNameChar, isAlnum, Bool.or_eq_true, Bool.and_eq_true, decide_eq_true_eq, beq_iff_eq] at h
  rcases h with ((((⟨-, h⟩ | ⟨-, h⟩) | ⟨-, h⟩) | rfl) | rfl) | rfl
  · exact Nat.le_trans (toNat_le_of_le h) (by decide)
  · exact Nat.le_trans (toNat_le_of_le h) (by decide)
  · exact Nat.le_trans (toNat_le_of_le h) (by decide)
  all_goals decide

/-- What holds of the first 128 characters holds of every one a name may have. -/
theorem of_isNameChar {P : Char → Prop} (hP : ∀ n < 128, isNameChar (Char.ofNat n) = true → P (Char.ofNat n)) {c : Char}
    (h : isNameChar c = true) : P c := by
  have hlt := isNameChar_ascii h
  have hc := hP c.toNat (by omega)
  rw [Char.ofNat_toNat] at hc
  exact hc h

theorem isNameChar_not_space {c : Char} (h : isNameChar c = true) : isSpace c = false :=
  of_isNameChar (P := fun c => isSpace c = false) (by decide) h

theorem isAlnum_isNameChar {c : Char} (h : isAlnum c = true) : isNameChar c = true := by simp [isNameChar, h]

namespace PlainName

variable {name : Text}

/-- Every character of a plain name is one of a name. -/
theorem all (h : PlainName name) : ∀ c ∈ name, isNameChar c = true := by
  obtain ⟨c, cs, rfl, hc, hcs, -⟩ := h
  intro d hd
  rcases List.mem_cons.mp hd with rfl | hd
  · exact isAlnum_isNameChar hc
  · exact hcs d hd

/-- A plain name is one word. -/
theorem isWord (h : PlainName name) : IsWord name := by
  refine ⟨?_, fun c hc => isNameChar_not_space (h.all c hc)⟩
  obtain ⟨c, cs, rfl, -⟩ := h
  exact List.cons_ne_nil c cs

theorem ascii (h : PlainName name) : ∀ c ∈ name, c.toNat ≤ 127 := fun c hc => isNameChar_ascii (h.all c hc)

/-- A plain name has none but the characters of names in it. -/
theorem not_mem (h : PlainName name) {c : Char} (hc : isNameChar c = false) : c ∉ name := by
  intro hmem
  rw [h.all c hmem] at hc
  cases hc

/-- A plain name has at most thirty-two characters. -/
theorem length_le (h : PlainName name) : name.length ≤ 32 := by
  obtain ⟨c, cs, rfl, -, -, hlen⟩ := h
  exact Nat.succ_le_succ hlen

end PlainName

/-- A checked name that does not end in a newline is a plain one. -/
theorem plainName_of_nameRe {t : Text} (h : nameRe t = true) (hnl : '\n' ∉ t) : PlainName t := by
  obtain ⟨name, hname, rfl | rfl⟩ := nameRe_iff.mp h
  · exact hname
  · exact absurd (List.mem_append_right name (List.mem_singleton.mpr rfl)) hnl

end Users

end VpnStack

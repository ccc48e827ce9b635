import VpnStack.Lib.Text
import VpnStack.Lib.Fallible

/-!
# The start of the dnstt sshd container

`dnstt-sshd/entrypoint.sh`: it reads the login list twice with `IFS=: read -r name password`, first to check every record
and then to create the accounts and to set their passwords. The shell and the programs it calls work on bytes.
-/

namespace VpnStack

namespace DnsttSshd

/-- The byte of a newline. -/
abbrev nl : UInt8 := 10

/-- The byte of a colon. -/
abbrev colon : UInt8 := 58

/-- The image: its /etc/passwd, of which the Dockerfile keeps a copy at $RESERVED. -/
structure Image where
  passwd : Bytes

/-- The accounts the image ships: `cut -d: -f1 "$RESERVED"`. -/
def Image.accounts (image : Image) : List Bytes := (Text.lines nl image.passwd).map fun line => (Text.cut colon line).1

/-- The container: its accounts, who is in the tunnel group, and the logins chpasswd has set, in order. -/
structure Container where
  accounts : List Bytes
  tunnel : List Bytes
  passwords : List (Bytes × Bytes)

/-- A fresh container of the image. -/
def Image.fresh (image : Image) : Container := ⟨image.accounts, [], []⟩

/-! ## Reading the list -/

/-- What the last variable of `read` gets of the rest of the line: all of it, but a single field without the colon that
ends it. -/
def lastField (rest : Bytes) : Bytes :=
  match Text.cut colon rest with
  | (field, some []) => field
  | _ => rest

/-- `IFS=: read -r name password` on one line. The shell's variables hold no NUL. -/
def readFields (line : Bytes) : Bytes × Bytes :=
  match Text.cut colon (line.filter (· ≠ 0)) with
  | (name, none) => (name, [])
  | (name, some rest) => (name, lastField rest)

/-- The records both loops see. A last line without a newline is read too, and a record without a name is passed over. -/
def records (logins : Bytes) : List (Bytes × Bytes) := ((logins.splitOn nl).map readFields).filter fun r => !r.1.isEmpty

/-! ## Checking it -/

/-- `[A-Za-z0-9._-]`. -/
def isLoginByte (b : UInt8) : Bool :=
  (65 ≤ b && b ≤ 90) || (97 ≤ b && b ≤ 122) || (48 ≤ b && b ≤ 57) || b == 46 || b == 95 || b == 45

/-- What is wrong with a record, given the names seen before it. -/
def bad (reserved seen : List Bytes) (name password : Bytes) : Option String :=
  if name.head? = some 45 then some "starts with '-', which adduser would read as an option"
  else if name.any (fun b => !isLoginByte b) then some "contains a character outside [A-Za-z0-9._-]"
  else if name.length > 32 then some "is longer than 32 characters"
  else if name ∈ reserved then some "collides with an account this image already ships"
  else if name ∈ seen then some "appears twice in the login list"
  else if password.isEmpty then some "has no password"
  else none

/-- Why a start was refused. -/
inductive Refusal where
  | noLoginList
  | login (name : Bytes) (bad : String)
  | emptyList
  deriving DecidableEq, Repr

/-- The validation loop. It returns the number of logins. -/
def validate (reserved : List Bytes) : List (Bytes × Bytes) → List Bytes → Nat → Except Refusal Nat
  | [], _, count => .ok count
  | (name, password) :: rest, seen, count =>
    match bad reserved seen name password with
    | some b => .error (.login name b)
    | none => validate reserved rest (seen ++ [name]) (count + 1)

/-! ## Creating the accounts -/

/-- `chpasswd`, on what it reads: `name:password` a line, cut at the first colon. -/
def chpasswd (stdin : Bytes) (c : Container) : Container :=
  let pairs := (Text.lines nl stdin).map fun line => ((Text.cut colon line).1, ((Text.cut colon line).2).getD [])
  { c with passwords := c.passwords ++ pairs }

/-- `id "$name" || adduser -G tunnel "$name"`, then the membership, then the password. -/
def account (c : Container) (record : Bytes × Bytes) : Container :=
  let (name, password) := record
  let c := if name ∈ c.accounts then c else { c with accounts := c.accounts ++ [name], tunnel := c.tunnel ++ [name] }
  let c := if name ∈ c.tunnel then c else { c with tunnel := c.tunnel ++ [name] }
  chpasswd (name ++ colon :: password ++ [nl]) c

/-- The entrypoint up to the start of sshd, in a container that is in state `c`. -/
def entrypoint (image : Image) (c : Container) (logins : Option Bytes) : Except Refusal Container := do
  match logins with
  | none => .error .noLoginList
  | some logins =>
    let count ← validate image.accounts (records logins) [] 0
    Except.raiseIf (count = 0) .emptyList
    return (records logins).foldl account c

/-! ## What `read` gives back -/

/-- The last variable gets a single field without the colon that ends it, and anything else as it is. -/
theorem lastField_cases (b : Bytes) :
    (∃ field, colon ∉ field ∧ b = field ++ [colon] ∧ lastField b = field) ∨
      (¬ ∃ field, colon ∉ field ∧ b = field ++ [colon]) ∧ lastField b = b := by
  rcases Text.cut_cases colon b with ⟨hb, hcut⟩ | ⟨field, rest, rfl, hfield, hcut⟩
  · refine .inr ⟨fun ⟨field, _, h⟩ => hb ?_, by simp [lastField, hcut]⟩
    rw [h]
    exact List.mem_append_right _ (List.mem_singleton.mpr rfl)
  · cases rest with
    | nil => exact .inl ⟨field, hfield, rfl, by simp [lastField, hcut]⟩
    | cons c rest =>
      refine .inr ⟨fun ⟨field', hfield', h⟩ => ?_, by simp [lastField, hcut]⟩
      have hcut' : Text.cut colon (field' ++ [colon]) = (field', some []) := Text.cut_append_cons hfield'
      rw [← h, hcut] at hcut'
      cases hcut'

/-- The last field is all there is exactly where no separator stands at the end of one field. -/
theorem lastField_eq_self_iff {b : Bytes} : lastField b = b ↔ ¬ ∃ field, colon ∉ field ∧ b = field ++ [colon] := by
  rcases lastField_cases b with ⟨field, hfield, rfl, hlast⟩ | ⟨hnone, hlast⟩
  · rw [hlast]
    refine ⟨fun h => ?_, fun h => absurd ⟨field, hfield, rfl⟩ h⟩
    have hlen := congrArg List.length h
    simp at hlen
  · exact ⟨fun _ => hnone, fun _ => hlast⟩

/-- The last field is no longer than the line. -/
theorem length_lastField_le (b : Bytes) : (lastField b).length ≤ b.length := by
  rcases lastField_cases b with ⟨field, -, rfl, hlast⟩ | ⟨-, hlast⟩
  · rw [hlast]
    simp
  · exact Nat.le_of_eq (congrArg List.length hlast)

/-- The last field is made of the line's bytes. -/
theorem mem_of_mem_lastField {b : Bytes} {x : UInt8} (h : x ∈ lastField b) : x ∈ b := by
  rcases lastField_cases b with ⟨field, -, rfl, hlast⟩ | ⟨-, hlast⟩
  · rw [hlast] at h
    exact List.mem_append_left _ h
  · rwa [hlast] at h

/-- A password is read as it was written exactly when it has no NUL and is not a single field that a colon ends. -/
theorem lastField_filter_eq_self_iff {b : Bytes} :
    lastField (b.filter (· ≠ 0)) = b ↔ 0 ∉ b ∧ ¬ ∃ field, colon ∉ field ∧ b = field ++ [colon] := by
  constructor
  · intro h
    have hlen : b.length ≤ (b.filter (· ≠ 0)).length := by
      have := length_lastField_le (b.filter (· ≠ 0))
      rwa [h] at this
    have hfilter : b.filter (· ≠ 0) = b := List.filter_sublist.eq_of_length_le hlen
    rw [hfilter] at h
    refine ⟨fun h0 => ?_, lastField_eq_self_iff.mp h⟩
    rw [← hfilter] at h0
    simp at h0
  · rintro ⟨h0, hfield⟩
    have hfilter : b.filter (· ≠ 0) = b := by
      rw [List.filter_eq_self]
      intro c hc
      have hne : c ≠ 0 := fun he => h0 (he ▸ hc)
      simpa using hne
    rw [hfilter]
    exact lastField_eq_self_iff.mpr hfield

/-- The fields of a line that has a colon behind a name without one. -/
theorem readFields_append {name password : Bytes} (hcolon : colon ∉ name) (h0 : 0 ∉ name) :
    readFields (name ++ colon :: password) = (name, lastField (password.filter (· ≠ 0))) := by
  have hname : name.filter (· ≠ 0) = name := by
    rw [List.filter_eq_self]
    intro c hc
    have hne : c ≠ 0 := fun he => h0 (he ▸ hc)
    simpa using hne
  have hline : (name ++ colon :: password).filter (· ≠ 0) = name ++ colon :: password.filter (· ≠ 0) := by
    rw [List.filter_append, hname, List.filter_cons_of_pos (by decide)]
  rw [readFields, hline, Text.cut_append_cons hcolon]

/-- The fields of a line are made of its bytes, and the name has no colon. -/
theorem readFields_sound (line : Bytes) :
    colon ∉ (readFields line).1 ∧ (∀ b ∈ (readFields line).1, b ∈ line) ∧ ∀ b ∈ (readFields line).2, b ∈ line := by
  have hmem : ∀ b ∈ line.filter (· ≠ 0), b ∈ line := fun b hb => (List.mem_filter.mp hb).1
  rcases Text.cut_cases colon (line.filter (· ≠ 0)) with ⟨hcolon, hcut⟩ | ⟨name, rest, hline, hname, hcut⟩
  · rw [readFields, hcut]
    exact ⟨hcolon, hmem, fun b hb => (nomatch hb)⟩
  · rw [readFields, hcut]
    rw [hline] at hmem
    refine ⟨hname, fun b hb => hmem b (List.mem_append_left _ hb), fun b hb => ?_⟩
    exact hmem b (List.mem_append_right _ (List.mem_cons_of_mem _ (mem_of_mem_lastField hb)))

/-! ## What the loops see -/

/-- The records of a line are those in front of the others. -/
theorem records_append (line rest : Bytes) : records (line ++ nl :: rest) = records line ++ records rest := by
  rw [records, List.splitOn_append_cons_self, List.map_append, List.filter_append]
  rfl

/-- A line of a file is one record, if it has a name. -/
theorem records_line {line : Bytes} (hnl : nl ∉ line) (hname : (readFields line).1 ≠ []) :
    records line = [readFields line] := by
  have hne : (readFields line).1.isEmpty = false := List.isEmpty_eq_false_iff.mpr hname
  rw [records, List.splitOn_eq_singleton hnl]
  simp [hne]

/-- A file written line by line is read line by line. -/
theorem records_unlines (ls : List Bytes) : records (Text.unlines nl ls) = ls.flatMap records := by
  induction ls with
  | nil => rfl
  | cons line ls ih => rw [Text.unlines_cons, records_append, ih, List.flatMap_cons]

/-- A record's name has no colon, and no newline is in the record. -/
theorem of_mem_records {logins : Bytes} {r : Bytes × Bytes} (h : r ∈ records logins) :
    colon ∉ r.1 ∧ nl ∉ r.1 ∧ nl ∉ r.2 := by
  obtain ⟨line, hline, rfl⟩ := List.mem_map.mp (List.mem_filter.mp h).1
  obtain ⟨hcolon, hname, hpassword⟩ := readFields_sound line
  have hnl : nl ∉ line := fun hmem => absurd (Text.sep_of_mem_splitOnP hline nl hmem) (by decide)
  exact ⟨hcolon, fun hmem => hnl (hname nl hmem), fun hmem => hnl (hpassword nl hmem)⟩

/-! ## What the checks let through -/

/-- A record the validation loop has nothing against, whatever came before it. -/
def Servable (reserved : List Bytes) (r : Bytes × Bytes) : Prop :=
  r.1.head? ≠ some 45 ∧ (∀ b ∈ r.1, isLoginByte b = true) ∧ r.1.length ≤ 32 ∧ r.1 ∉ reserved ∧ r.2 ≠ []

/-- A record is not refused exactly where it can be served and its name is new. -/
theorem bad_eq_none {reserved seen : List Bytes} {r : Bytes × Bytes} :
    bad reserved seen r.1 r.2 = none ↔ Servable reserved r ∧ r.1 ∉ seen := by
  have hany : r.1.any (fun b => !isLoginByte b) = true ↔ ¬ ∀ b ∈ r.1, isLoginByte b = true := by simp
  simp only [bad, Servable, Except.ite_some_eq_none, hany, List.isEmpty_iff, not_not, gt_iff_lt, Nat.not_lt, and_true]
  constructor
  · rintro ⟨hdash, hbytes, hlen, hreserved, hseen, hpassword⟩
    exact ⟨⟨hdash, hbytes, hlen, hreserved, hpassword⟩, hseen⟩
  · rintro ⟨⟨hdash, hbytes, hlen, hreserved, hpassword⟩, hseen⟩
    exact ⟨hdash, hbytes, hlen, hreserved, hseen, hpassword⟩

/-- The validation loop counts the records when every one of them is servable and no name comes twice. -/
theorem validate_eq_ok {reserved seen : List Bytes} {rs : List (Bytes × Bytes)} {count n : Nat} :
    validate reserved rs seen count = .ok n ↔
      n = count + rs.length ∧ (∀ r ∈ rs, Servable reserved r ∧ r.1 ∉ seen) ∧ (rs.map (·.1)).Nodup := by
  induction rs generalizing seen count with
  | nil => simp [validate, eq_comm]
  | cons r rs ih =>
    obtain ⟨name, password⟩ := r
    rw [validate]
    cases hbad : bad reserved seen name password with
    | some b =>
      have hnot : ¬ (Servable reserved (name, password) ∧ name ∉ seen) := by
        rw [← bad_eq_none (r := (name, password)), hbad]
        exact Option.some_ne_none b
      simp [hnot]
    | none =>
      have hok := (bad_eq_none (r := (name, password))).mp hbad
      rw [ih]
      simp only [List.length_cons, List.forall_mem_cons, List.map_cons, List.nodup_cons, List.mem_append,
        List.mem_singleton, not_or, List.mem_map, not_exists, not_and]
      constructor
      · rintro ⟨rfl, hall, hnodup⟩
        exact ⟨by omega, ⟨hok, fun r hr => ⟨(hall r hr).1, (hall r hr).2.1⟩⟩, fun r hr => (hall r hr).2.2, hnodup⟩
      · rintro ⟨rfl, ⟨-, hall⟩, hfresh, hnodup⟩
        exact ⟨by omega, fun r hr => ⟨(hall r hr).1, (hall r hr).2, hfresh r hr⟩, hnodup⟩

/-! ## What the account loop sets -/

/-- A record reaches chpasswd as it was read. -/
theorem account_passwords {c : Container} {r : Bytes × Bytes} (hcolon : colon ∉ r.1) (hname : nl ∉ r.1) (hpassword : nl ∉ r.2) :
    (account c r).passwords = c.passwords ++ [r] := by
  obtain ⟨name, password⟩ := r
  have hline : Text.lines nl (name ++ colon :: password ++ [nl]) = [name ++ colon :: password] := by
    have hnl : ∀ t ∈ [name ++ colon :: password], nl ∉ t := by
      intro t ht
      obtain rfl := List.mem_singleton.mp ht
      simp only [List.mem_append, List.mem_cons, not_or]
      exact ⟨hname, by decide, hpassword⟩
    have := Text.lines_unlines hnl
    rwa [Text.unlines_cons, Text.unlines_nil] at this
  simp only [account, chpasswd, hline, List.map_cons, List.map_nil, Text.cut_append_cons hcolon, Option.getD_some]
  split_ifs <;> rfl

/-- The loop sets a password for every record. -/
theorem foldl_account_passwords {rs : List (Bytes × Bytes)} {c : Container}
    (h : ∀ r ∈ rs, colon ∉ r.1 ∧ nl ∉ r.1 ∧ nl ∉ r.2) : (rs.foldl account c).passwords = c.passwords ++ rs := by
  induction rs generalizing c with
  | nil => simp
  | cons r rs ih =>
    obtain ⟨hcolon, hname, hpassword⟩ := h r (List.mem_cons_self ..)
    rw [List.foldl_cons, ih (fun s hs => h s (List.mem_cons_of_mem _ hs)), account_passwords hcolon hname hpassword,
      List.append_assoc, List.singleton_append]

/-- A start that comes to its end has checked every record, and set exactly those passwords. -/
theorem entrypoint_eq_ok {image : Image} {c d : Container} {logins : Bytes} :
    entrypoint image c (some logins) = .ok d ↔
      records logins ≠ [] ∧ (∀ r ∈ records logins, Servable image.accounts r) ∧ ((records logins).map (·.1)).Nodup ∧
        d = (records logins).foldl account c := by
  simp only [entrypoint, Except.bind_eq_ok, Except.raiseIf_eq_ok, Except.pure_eq_ok, validate_eq_ok, List.not_mem_nil,
    not_false_eq_true, and_true, Nat.zero_add]
  constructor
  · rintro ⟨n, ⟨rfl, hall, hnodup⟩, ⟨⟩, hcount, rfl⟩
    exact ⟨fun h => hcount (by rw [h]; rfl), hall, hnodup, rfl⟩
  · rintro ⟨hne, hall, hnodup, rfl⟩
    exact ⟨_, ⟨rfl, hall, hnodup⟩, (), fun h => hne (List.length_eq_zero_iff.mp h), rfl⟩

end DnsttSshd

end VpnStack

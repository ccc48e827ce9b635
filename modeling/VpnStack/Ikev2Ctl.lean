import VpnStack.Basic

/-!
# The certificates of the IKEv2 container

`ikev2ctl.py` and the part of `ikev2.sh` it calls: the certificates the container has issued, which of them are revoked, and
which names are reserved in its database. Deleting a name only frees it; revoking is what stops a certificate. The listing is
text that `parse_clients` reads.
-/

namespace VpnStack

open Python

/-- A certificate that was issued. `listed` is whether the database still has it, and with it its name. -/
structure Cert where
  name : Text
  issued : Nat
  revoked : Bool
  listed : Bool
  deriving DecidableEq, Repr

/-- A certificate a client can connect with. -/
def Cert.Valid (c : Cert) : Prop := c.revoked = false

instance (c : Cert) : Decidable c.Valid := inferInstanceAs (Decidable (_ = _))

namespace Ikev2Ctl

/-! ## `ikev2.sh` -/

/-- Whether the database holds the name. -/
def holds (certs : List Cert) (name : Text) : Bool := certs.any fun c => c.listed && c.name == name

/-- `--addclient`: one certificate more, unless the name is reserved, or is not one word. -/
def addClient (certs : List Cert) (now : Nat) (name : Text) (ok : Bool) : Bool × List Cert :=
  if ok ∧ IsWord name ∧ ¬ holds certs name then (true, certs ++ [⟨name, now, false, true⟩]) else (false, certs)

/-- `--revokeclient`: the certificate of the name is no longer accepted. It fails on one that is revoked. -/
def revokeClient (certs : List Cert) (name : Text) (ok : Bool) : Bool × List Cert :=
  if ok ∧ certs.any (fun c => c.listed && c.name == name && !c.revoked) then
    (true, certs.map fun c => if c.listed ∧ c.name = name then { c with revoked := true } else c)
  else (false, certs)

/-- `--deleteclient`: the name is free again. A certificate that was not revoked is accepted as before. -/
def deleteClient (certs : List Cert) (name : Text) (ok : Bool) : Bool × List Cert :=
  if ok ∧ holds certs name then
    (true, certs.map fun c => if c.listed ∧ c.name = name then { c with listed := false } else c)
  else (false, certs)

/-- The rows of `--listclients`: the names in the database, with whether their certificate is valid. -/
def rows (certs : List Cert) : List (Text × Bool) := (certs.filter (·.listed)).map fun c => (c.name, !c.revoked)

/-- The word of a row's status. -/
def status (valid : Bool) : Text := if valid then "valid" else "revoked"

/-- The text `--listclients` prints: a header whose first field is `Client`, then one row a client, with the name in its
first field and the status in its second. -/
structure Listing where
  text : List (Text × Bool) → Text
  header : List Text
  extra : Text × Bool → List Text
  header_client : header.head? = some "Client".toList
  fields : ∀ rows, (∀ row ∈ rows, IsWord row.1) →
    (splitlines (text rows)).map split = header :: rows.map fun row => row.1 :: status row.2 :: extra row

/-! ## `parse_clients` -/

/-- The names of the rows with that status. A row in neither status is passed over, and so is the header. -/
def withStatus (listing : Text) (word : Text) : List Text :=
  ((splitlines listing).map split).filterMap fun parts =>
    match parts with
    | name :: second :: _ => if name = "Client".toList then none else if second = word then some name else none
    | _ => none

/-- The names with a valid certificate, and the names with a revoked one. -/
def parseClients (listing : Text) : List Text × List Text := (withStatus listing "valid", withStatus listing "revoked")

/-- What is read back of a listing: the rows with the status, but for a client of the name `Client`. -/
theorem mem_withStatus {listing : Listing} {certs : List Cert} (hwords : ∀ c ∈ certs, c.listed = true → IsWord c.name)
    {name : Text} {valid : Bool} :
    name ∈ withStatus (listing.text (rows certs)) (status valid) ↔
      name ≠ "Client".toList ∧ ∃ c ∈ certs, c.listed = true ∧ c.name = name ∧ c.revoked = !valid := by
  have hrows : ∀ row ∈ rows certs, IsWord row.1 := by
    intro row hrow
    obtain ⟨c, hc, rfl⟩ := List.mem_map.mp hrow
    obtain ⟨hc, hlisted⟩ := List.mem_filter.mp hc
    exact hwords c hc hlisted
  have hstatus : ∀ b, status b = status valid ↔ b = valid := by
    intro b
    cases b <;> cases valid <;> decide
  rw [withStatus, listing.fields _ hrows]
  constructor
  · intro h
    obtain ⟨parts, hparts, hname⟩ := List.mem_filterMap.mp h
    rcases List.mem_cons.mp hparts with rfl | hparts
    · exfalso
      have hheader := listing.header_client
      cases hl : listing.header with
      | nil => rw [hl] at hname; cases hname
      | cons first rest =>
        rw [hl, List.head?_cons] at hheader
        rw [hl, Option.some.inj hheader] at hname
        cases rest with
        | nil => cases hname
        | cons second rest =>
          dsimp only at hname
          rw [if_pos rfl] at hname
          cases hname
    · obtain ⟨row, hrow, rfl⟩ := List.mem_map.mp hparts
      obtain ⟨c, hc, rfl⟩ := List.mem_map.mp hrow
      obtain ⟨hc, hlisted⟩ := List.mem_filter.mp hc
      dsimp only at hname
      split_ifs at hname with hclient hword
      cases hname
      refine ⟨hclient, c, hc, hlisted, rfl, ?_⟩
      rw [← (hstatus _).mp hword, Bool.not_not]
  · rintro ⟨hclient, c, hc, hlisted, rfl, hrevoked⟩
    refine List.mem_filterMap.mpr ⟨_, List.mem_cons_of_mem _ (List.mem_map.mpr
      ⟨_, List.mem_map.mpr ⟨c, List.mem_filter.mpr ⟨hc, hlisted⟩, rfl⟩, rfl⟩), ?_⟩
    have hword : status (!c.revoked) = status valid := (hstatus _).mpr (by rw [hrevoked, Bool.not_not])
    dsimp only
    rw [if_neg hclient, if_pos hword]

/-! ## What the commands leave valid -/

/-- What holds of the certificates as long as only names whose certificate is revoked are deleted: the names in the database
are words, no name is in it twice, and it has every valid certificate. -/
structure Ledger (certs : List Cert) : Prop where
  word : ∀ c ∈ certs, c.listed = true → IsWord c.name
  valid_listed : ∀ c ∈ certs, c.Valid → c.listed = true
  one : ((certs.filter (·.listed)).map (·.name)).Nodup

section Ledger

variable {certs : List Cert} {name : Text} {ok : Bool} {now : Nat}

/-- A name of the database stands for one certificate. -/
theorem Ledger.unique (h : Ledger certs) {c d : Cert} (hc : c ∈ certs) (hd : d ∈ certs) (hcl : c.listed = true)
    (hdl : d.listed = true) (hname : c.name = d.name) : c = d :=
  List.inj_on_of_nodup_map h.one (List.mem_filter.mpr ⟨hc, hcl⟩) (List.mem_filter.mpr ⟨hd, hdl⟩) hname

/-- A name that nothing is held under is listed by no certificate. -/
theorem not_listed_of_holds (h : holds certs name = false) {c : Cert} (hc : c ∈ certs) (hl : c.listed = true) :
    c.name ≠ name := by
  rintro rfl
  have := List.any_eq_false.mp h c hc
  simp [hl] at this

/-- `--revokeclient` revokes, and does nothing else. -/
theorem mem_revokeClient {c : Cert} (hc : c ∈ (revokeClient certs name ok).2) :
    c ∈ certs ∨ ∃ d ∈ certs, d.listed = true ∧ d.name = name ∧ c = { d with revoked := true } := by
  unfold revokeClient at hc
  split at hc
  · obtain ⟨d, hd, rfl⟩ := List.mem_map.mp hc
    split
    · exact .inr ⟨d, hd, (by assumption : _ ∧ _).1, (by assumption : _ ∧ _).2, rfl⟩
    · exact .inl hd
  · exact .inl hc

/-- What is valid behind a revocation was there before it. -/
theorem valid_of_revokeClient {c : Cert} (hc : c ∈ (revokeClient certs name ok).2) (hv : c.Valid) : c ∈ certs := by
  rcases mem_revokeClient hc with hc | ⟨d, -, -, -, rfl⟩
  · exact hc
  · cases hv

/-- A revocation that succeeds leaves no valid certificate of the name. -/
theorem revokeClient_ok (h : Ledger certs) (hok : (revokeClient certs name ok).1 = true) {c : Cert}
    (hc : c ∈ (revokeClient certs name ok).2) (hname : c.name = name) : c.revoked = true := by
  by_contra hrevoked
  have hv : c.Valid := Bool.eq_false_iff.mpr hrevoked
  have hl := h.valid_listed c (valid_of_revokeClient hc hv) hv
  unfold revokeClient at hok hc
  split at hok
  · rename_i hcond
    rw [if_pos hcond] at hc
    obtain ⟨d, hd, rfl⟩ := List.mem_map.mp hc
    split at hrevoked
    · exact hrevoked rfl
    · rename_i hne
      rw [if_neg hne] at hl hname
      exact hne ⟨hl, hname⟩
  · cases hok

/-- A revocation keeps the ledger of the container. -/
theorem revokeClient_ledger (h : Ledger certs) : Ledger (revokeClient certs name ok).2 := by
  have hnames : (((revokeClient certs name ok).2.filter (·.listed)).map (·.name)) =
      ((certs.filter (·.listed)).map (·.name)) := by
    unfold revokeClient
    split
    · rw [List.filter_map, List.map_map]
      have hlisted : ((·.listed) ∘ fun c : Cert => if c.listed ∧ c.name = name then { c with revoked := true } else c) =
          (·.listed) := by
        funext c
        simp only [Function.comp]
        split <;> rfl
      rw [hlisted]
      refine List.map_congr_left fun c _ => ?_
      simp only [Function.comp]
      split <;> rfl
    · rfl
  refine ⟨fun c hc hl => ?_, fun c hc hv => ?_, hnames ▸ h.one⟩
  · rcases mem_revokeClient hc with hc | ⟨d, hd, hdl, -, rfl⟩
    · exact h.word c hc hl
    · exact h.word d hd hdl
  · exact h.valid_listed c (valid_of_revokeClient hc hv) hv

/-- `--deleteclient` takes names out of the database, and does nothing else. -/
theorem mem_deleteClient {c : Cert} (hc : c ∈ (deleteClient certs name ok).2) :
    c ∈ certs ∨ ∃ d ∈ certs, d.listed = true ∧ d.name = name ∧ c = { d with listed := false } := by
  unfold deleteClient at hc
  split at hc
  · obtain ⟨d, hd, rfl⟩ := List.mem_map.mp hc
    split
    · exact .inr ⟨d, hd, (by assumption : _ ∧ _).1, (by assumption : _ ∧ _).2, rfl⟩
    · exact .inl hd
  · exact .inl hc

/-- The name was reserved for a revoked certificate only. -/
def Reserved (certs : List Cert) (name : Text) : Prop := ∀ c ∈ certs, c.listed = true → c.name = name → c.revoked = true

/-- What is valid behind a deletion was there before it. -/
theorem valid_of_deleteClient (h : Reserved certs name) {c : Cert} (hc : c ∈ (deleteClient certs name ok).2)
    (hv : c.Valid) : c ∈ certs := by
  rcases mem_deleteClient hc with hc | ⟨d, hd, hdl, hname, rfl⟩
  · exact hc
  · have hrevoked : d.revoked = true := h d hd hdl hname
    have hvalid : d.revoked = false := hv
    rw [hrevoked] at hvalid
    cases hvalid

/-- Taking a name out of the database leaves the other names of it, in order. -/
theorem unlist_sublist (certs : List Cert) (name : Text) :
    (((certs.map fun c => if c.listed ∧ c.name = name then { c with listed := false } else c).filter (·.listed)).map
      (·.name)).Sublist ((certs.filter (·.listed)).map (·.name)) := by
  induction certs with
  | nil => exact List.Sublist.refl _
  | cons c certs ih =>
    rw [List.map_cons]
    by_cases hl : c.listed = true
    · by_cases hn : c.name = name
      · rw [if_pos ⟨hl, hn⟩, List.filter_cons_of_neg (by simp), List.filter_cons_of_pos hl, List.map_cons]
        exact ih.cons _
      · rw [if_neg (fun h => hn h.2), List.filter_cons_of_pos hl, List.filter_cons_of_pos hl, List.map_cons, List.map_cons]
        exact ih.cons_cons _
    · rw [if_neg (fun h => hl h.1), List.filter_cons_of_neg (by simpa using hl), List.filter_cons_of_neg (by simpa using hl)]
      exact ih

/-- A deletion of a name that is revoked keeps the ledger. -/
theorem deleteClient_ledger (h : Ledger certs) (hname : Reserved certs name) : Ledger (deleteClient certs name ok).2 := by
  refine ⟨fun c hc hl => ?_, fun c hc hv => ?_, ?_⟩
  · rcases mem_deleteClient hc with hc | ⟨d, hd, hdl, -, rfl⟩
    · exact h.word c hc hl
    · cases hl
  · exact h.valid_listed c (valid_of_deleteClient hname hc hv) hv
  · unfold deleteClient
    split
    · exact h.one.sublist (unlist_sublist certs name)
    · exact h.one

/-- `--addclient` adds one certificate under a free name, or nothing. -/
theorem addClient_cases (certs : List Cert) (now : Nat) (name : Text) (ok : Bool) :
    ((addClient certs now name ok).1 = true ∧ IsWord name ∧ holds certs name = false ∧
        (addClient certs now name ok).2 = certs ++ [⟨name, now, false, true⟩]) ∨
      addClient certs now name ok = (false, certs) := by
  unfold addClient
  split
  · rename_i h
    exact .inl ⟨rfl, h.2.1, Bool.eq_false_iff.mpr h.2.2, rfl⟩
  · exact .inr rfl

/-- A certificate that is issued keeps the ledger. -/
theorem addClient_ledger (h : Ledger certs) : Ledger (addClient certs now name ok).2 := by
  rcases addClient_cases certs now name ok with ⟨-, hword, hfree, heq⟩ | heq
  · rw [heq]
    refine ⟨fun c hc hl => ?_, fun c hc hv => ?_, ?_⟩
    · rcases List.mem_append.mp hc with hc | hc
      · exact h.word c hc hl
      · obtain rfl := List.mem_singleton.mp hc
        exact hword
    · rcases List.mem_append.mp hc with hc | hc
      · exact h.valid_listed c hc hv
      · obtain rfl := List.mem_singleton.mp hc
        rfl
    · rw [List.filter_append, List.map_append, List.nodup_append]
      refine ⟨h.one, List.nodup_singleton _, fun a ha b hb => ?_⟩
      obtain ⟨c, hc, rfl⟩ := List.mem_map.mp ha
      obtain ⟨hc, hl⟩ := List.mem_filter.mp hc
      obtain rfl := List.mem_singleton.mp hb
      exact not_listed_of_holds hfree hc hl
  · rw [heq]
    exact h

end Ledger

/-! ## A listing -/

/-- The line of a row. -/
def sampleRow (row : Text × Bool) : Text := row.1 ++ ' ' :: status row.2

/-- A row of the listing is split into its name and its status. -/
theorem split_sampleRow {row : Text × Bool} (h : IsWord row.1) : split (sampleRow row) = [row.1, status row.2] := by
  rw [sampleRow, split, Text.words_append_cons h.2 h.1 (by decide)]
  cases row.2 <;> rfl

/-- A listing as the image prints it. -/
def Listing.sample : Listing where
  text rows := Text.unlines '\n' ("Client Name  Certificate Status".toList :: rows.map sampleRow)
  header := ["Client", "Name", "Certificate", "Status"]
  extra _ := []
  header_client := rfl
  fields := by
    intro rows hrows
    have hbreak : ∀ t ∈ "Client Name  Certificate Status".toList :: rows.map sampleRow, ∀ c ∈ t, isLineBreak c = false := by
      intro t ht
      rcases List.mem_cons.mp ht with rfl | ht
      · decide
      · obtain ⟨row, hrow, rfl⟩ := List.mem_map.mp ht
        intro c hc
        rcases List.mem_append.mp hc with hc | hc
        · exact isLineBreak_of_not_space ((hrows row hrow).2 c hc)
        · have hstatus : ∀ b, ∀ c ∈ ' ' :: status b, isLineBreak c = false := by decide
          exact hstatus row.2 c hc
    rw [splitlines_unlines hbreak, List.map_cons, List.map_map]
    refine congrArg₂ List.cons (by decide) (List.map_congr_left fun row hrow => ?_)
    exact split_sampleRow (hrows row hrow)

end Ikev2Ctl

end VpnStack

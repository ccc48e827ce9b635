import VpnStack.ShareBind

/-!
# At which addresses the page is reached

The blocks that `ipaddress` calls private are those of a local network, and those that nobody is given. An address of the second
kind passes the check as one of the first does, and one of them is the address that stands for all.
-/

namespace VpnStack

open Python

namespace ShareBind

/-! ## The blocks -/

/-- An address that nobody is given, though two of their blocks are in use. -/
def Reserved (a : Ip4) : Prop := within reserved a = true ∧ within privateExceptions a = false

@[simp] theorem within_nil (a : Ip4) : within [] a = false := rfl

@[simp] theorem within_cons (n : Ip4Network) (ns : List Ip4Network) (a : Ip4) :
    within (n :: ns) a = (decide (n.Contains a) || within ns a) := rfl

/-- A block holds the addresses from its first to its last. -/
theorem network_contains (a b c d : Fin 256) (p : Fin 33) (x : Ip4) :
    (network a b c d p).Contains x ↔
      (network a b c d p).networkAddress ≤ x.number ∧ x.number ≤ (network a b c d p).broadcastAddress := Iff.rfl

/-- What `ipaddress` calls private is a local network or reserved. -/
theorem isPrivate_iff (a : Ip4) : isPrivate a = true ↔ within lan a = true ∨ Reserved a := by
  simp only [isPrivate, Reserved, lan, reserved, privateNetworks, privateExceptions, within_cons, within_nil, Bool.and_eq_true,
    Bool.or_eq_true, Bool.not_eq_true', Bool.or_eq_false_iff, decide_eq_true_eq, decide_eq_false_iff_not, network_contains,
    Bool.false_eq_true, or_false, and_true]
  simp only [network, Ip4Network.block, Ip4.ofOctets, Ip4Network.broadcastAddress]
  norm_num
  omega

/-- No address is both. -/
theorem Reserved.not_lan {a : Ip4} (h : Reserved a) : within lan a = false := by
  obtain ⟨hreserved, -⟩ := h
  simp only [lan, reserved, within_cons, within_nil, Bool.or_eq_true, Bool.or_eq_false_iff, decide_eq_true_eq,
    decide_eq_false_iff_not, network_contains, Bool.false_eq_true, or_false, and_true] at hreserved ⊢
  simp only [network, Ip4Network.block, Ip4.ofOctets, Ip4Network.broadcastAddress] at hreserved ⊢
  norm_num at hreserved ⊢
  omega

theorem unspecified_private : isPrivate unspecified = true := by decide

/-! ## The address that is picked -/

/-- The IPv4 address that is asked for: the argument, or without one the first private address that was found. -/
def asked (explicit : Option Text) (host : Host) : Option Ip4 :=
  match explicit.filter (· ≠ []) with
  | some explicit => Ip4.parse explicit
  | none => host.resolved.bind fun resolved => (found resolved host.probe).find? isPrivate

section Picked

variable {v6Private : Text → Option Bool} {explicit : Option Text} {host : Host} {bind : Text} {a : Ip4}

/-- An IPv4 address that is picked was asked for, and `ipaddress` calls it private. -/
theorem asked_of_pickBind (h : pickBind v6Private explicit host = .ok bind) (ha : Ip4.parse bind = some a) :
    asked explicit host = some a ∧ isPrivate a = true := by
  unfold pickBind at h
  unfold asked
  cases hgiven : explicit.filter (· ≠ []) with
  | some given =>
    simp only [hgiven] at h ⊢
    split at h
    · cases h
    · rename_i hprivate
      cases h
      rw [ha, Option.map_some] at hprivate
      exact ⟨ha, Option.some.inj hprivate⟩
    · cases h
  | none =>
    simp only [hgiven] at h ⊢
    unfold localAddresses at h
    cases hresolved : host.resolved with
    | none =>
      rw [hresolved] at h
      cases h
    | some resolved =>
      rw [hresolved] at h
      dsimp only [Option.bind_some] at h ⊢
      rw [← List.head?_filter]
      cases hfound : (found resolved host.probe).filter isPrivate with
      | nil =>
        rw [hfound] at h
        cases h
      | cons b rest =>
        rw [hfound] at h
        cases h
        rw [Ip4.parse_text, Option.some.injEq] at ha
        subst ha
        refine ⟨rfl, ?_⟩
        have hmem : b ∈ (found resolved host.probe).filter isPrivate := by simp [hfound]
        exact (List.mem_filter.mp hmem).2

/-- Whoever asks for an address that `ipaddress` calls private gets it. -/
theorem pickBind_of_asked (v6Private : Text → Option Bool) (hasked : asked explicit host = some a) (ha : isPrivate a = true) :
    ∃ bind, pickBind v6Private explicit host = .ok bind ∧ Ip4.parse bind = some a := by
  unfold asked at hasked
  unfold pickBind
  cases hgiven : explicit.filter (· ≠ []) with
  | some given =>
    rw [hgiven] at hasked
    refine ⟨given, ?_, hasked⟩
    dsimp only at hasked
    simp only [hasked, Option.map_some, ha]
    rfl
  | none =>
    rw [hgiven] at hasked
    obtain ⟨resolved, hresolved, hfind⟩ := Option.bind_eq_some_iff.mp hasked
    rw [← List.head?_filter] at hfind
    obtain ⟨rest, hfound⟩ := List.head?_eq_some_iff.mp hfind
    refine ⟨a.text, ?_, a.parse_text⟩
    simp only [localAddresses, hresolved, hfound]

end Picked

/-! ## Where the page is reached -/

/-- The address asked for stands for itself and is not one of the reserved that the machine has all the same; or it stands for all
addresses of the machine, and these are of local networks. -/
def StaysLocal (explicit : Option Text) (host : Host) : Prop :=
  ∀ a, asked explicit host = some a →
    if a = unspecified then ∀ b ∈ host.addresses, within lan b = true else a ∈ host.addresses → ¬ Reserved a

/-- The page is reached on local networks only, exactly where the machine has no other address behind the one asked for. -/
theorem pickBind_local_iff (v6Private : Text → Option Bool) (explicit : Option Text) (host : Host) :
    (∀ bind, pickBind v6Private explicit host = .ok bind → ∀ a, Answers host bind a → within lan a = true) ↔
      StaysLocal explicit host := by
  constructor
  · intro h a hasked
    split
    · rename_i hall
      intro b hb
      obtain ⟨bind, hbind, hparse⟩ := pickBind_of_asked v6Private hasked (hall ▸ unspecified_private)
      exact h bind hbind b ⟨a, hparse, hb, .inl hall⟩
    · intro ha hreserved
      obtain ⟨bind, hbind, hparse⟩ :=
        pickBind_of_asked v6Private hasked ((isPrivate_iff a).mpr (.inr hreserved))
      have hlan := h bind hbind a ⟨a, hparse, ha, .inr rfl⟩
      rw [hreserved.not_lan] at hlan
      cases hlan
  · rintro h bind hbind a ⟨b, hparse, ha, hb⟩
    obtain ⟨hasked, hprivate⟩ := asked_of_pickBind hbind hparse
    have hstays := h b hasked
    split at hstays
    · exact hstays a ha
    · rename_i hone
      obtain hb | rfl := hb
      · exact absurd hb hone
      · exact ((isPrivate_iff a).mp hprivate).resolve_right (hstays ha)

/-- A machine with an address on a local network and one on the internet. -/
def sample : Host where
  resolved := (Ip4.parse "127.0.1.1").map fun a => [a]
  probe := Ip4.parse "192.168.1.20"
  addresses := ["127.0.0.1", "192.168.1.20", "198.41.0.4"].filterMap fun t => Ip4.parse t

/-- The address that stands for all is private, and the page is reached from the internet. -/
theorem pickBind_unspecified :
    ¬ ∀ (v6Private : Text → Option Bool) (explicit : Option Text) (host : Host) (bind : Text),
      pickBind v6Private explicit host = .ok bind → ∀ a, Answers host bind a → within lan a = true := by
  intro h
  have hlan := h (fun _ => none) (some "0.0.0.0") sample "0.0.0.0" (by decide) (Ip4.ofOctets 198 41 0 4)
    ⟨unspecified, by decide, by decide, .inl rfl⟩
  exact absurd hlan (by decide)

end ShareBind

end VpnStack

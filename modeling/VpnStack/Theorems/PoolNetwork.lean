import VpnStack.Ikev2Pool

/-!
# The network of the pool

An entry of `rightaddresspool` is covered by the smallest network there is for it. The line's network is that of its first
IPv4 entry, and nothing else on the line has a part in it.
-/

namespace VpnStack

open Python

namespace Ikev2Ctl

/-! ## Entries -/

/-- The entry is an IPv4 one, from the first address to the last: a range, an address, or a network, whose host bits may be set.
More than two parts are a range from the first of them to the last. -/
inductive Names (entry : Text) : Ip4 → Ip4 → Prop
  | range {b c : Text} {more : List Text} {first last : Ip4} (h : bounds entry = b :: c :: more) (hfirst : Ip4.parse b = some first)
      (hlast : Ip4.parse ((c :: more).getLast (List.cons_ne_nil _ _)) = some last) : Names entry first last
  | address {b : Text} {a : Ip4} (h : bounds entry = [b]) (ha : Ip4.parse b = some a) : Names entry a a
  | network {b : Text} {n : Ip4Network} (h : bounds entry = [b]) (hslash : '/' ∈ b) (hn : Ip4Network.parse b = some n) :
      Names entry n.first n.last

/-- An end that is an IPv6 address and no IPv4 one. -/
def IsIpv6 (v6 : Ipv6) (b : Text) : Prop := Ip4.parse b = none ∧ v6.address b = true

/-- The entry has an end that is IPv6, or ends before it begins. -/
inductive Unusable (v6 : Ipv6) (entry : Text) : Prop
  | first {b : Text} {more : List Text} (h : bounds entry = b :: more) (hmore : more ≠ []) (hb : IsIpv6 v6 b)
  | last {b c : Text} {more : List Text} (h : bounds entry = b :: c :: more)
      (hc : IsIpv6 v6 ((c :: more).getLast (List.cons_ne_nil _ _)))
  | address {b : Text} (h : bounds entry = [b]) (hslash : '/' ∉ b) (hb : IsIpv6 v6 b)
  | network {b t : Text} (h : bounds entry = [b]) (hslash : '/' ∈ b) (hn : Ip4Network.parse b = none) (hv6 : v6.network b = some t)
  | reversed {first last : Ip4} (h : Names entry first last) (hlt : last.number < first.number)

section Entry

variable {v6 : Ipv6} {entry : Text} {a b : Ip4}

theorem ipAddress_of_parse {t : Text} (h : Ip4.parse t = some a) : ipAddress v6 t = some (.v4 a) := by
  rw [ipAddress, h]

/-- An IPv4 address is written as a dotted quad. -/
theorem ipAddress_eq_v4 {t : Text} (h : ipAddress v6 t = some (.v4 a)) : Ip4.parse t = some a := by
  rw [ipAddress] at h
  cases ha : Ip4.parse t with
  | some a' =>
    rw [ha] at h
    cases h
    rfl
  | none =>
    rw [ha] at h
    dsimp only at h
    split at h <;> cases h

theorem IsIpv6.ipAddress {t : Text} (h : IsIpv6 v6 t) : ipAddress v6 t = some .v6 := by
  simp only [Ikev2Ctl.ipAddress, h.1, h.2, if_true]

/-- The code reads the ends of an IPv4 entry, and takes no other for one. -/
theorem firstAndLast_iff : firstAndLast v6 entry = some (.v4 a, .v4 b) ↔ Names entry a b := by
  constructor
  · intro h
    rw [firstAndLast] at h
    split at h
    · cases h
    · rename_i t more hbounds
      split at h
      · rename_i hblock
        obtain ⟨rfl, hslash⟩ := hblock
        rw [ipNetwork] at h
        cases hn : Ip4Network.parse t with
        | some n =>
          rw [hn] at h
          cases h
          exact .network hbounds hslash hn
        | none =>
          rw [hn] at h
          cases hv6 : v6.network t <;> simp [hv6] at h
      · obtain ⟨first, hfirst, h⟩ := Option.bind_eq_some_iff.mp h
        obtain ⟨last, hlast, h⟩ := Option.bind_eq_some_iff.mp h
        cases h
        cases more with
        | nil =>
          have hsame := (ipAddress_eq_v4 hfirst).symm.trans (ipAddress_eq_v4 hlast)
          cases hsame
          exact .address hbounds (ipAddress_eq_v4 hfirst)
        | cons c more => exact .range hbounds (ipAddress_eq_v4 hfirst) (ipAddress_eq_v4 hlast)
  · intro h
    cases h with
    | range hbounds hfirst hlast =>
      simp only [firstAndLast, hbounds, List.cons_ne_nil, false_and, if_false, ipAddress_of_parse hfirst]
      rw [List.getLast_cons (List.cons_ne_nil _ _), ipAddress_of_parse hlast]
      rfl
    | address hbounds ha =>
      simp only [firstAndLast, hbounds, Ip4.slash_of_parse ha, and_false, if_false, List.getLast_singleton, ipAddress_of_parse ha]
      rfl
    | network hbounds hslash hn =>
      simp only [firstAndLast, hbounds, hslash, and_self, if_true, ipNetwork, hn]
      rfl

/-- The loop's bound is never met. -/
theorem coveringIn_isSome {fuel : Nat} (hfuel : 33 ≤ fuel) : (coveringIn v6 fuel entry).isSome := by
  rw [coveringIn]
  split
  · rename_i first last hends
    split
    · rfl
    · rename_i hle
      obtain ⟨n, hrun, -⟩ := Ip4Network.widen_covers (Nat.not_lt.mp hle) hfuel
      rw [hrun]
      rfl
  · rfl

/-- The search finds the least network around a range, within as many turns as there are lengths. -/
theorem coveringIn_of_names {fuel : Nat} (hfuel : 33 ≤ fuel) (h : Names entry a b) (hle : a.number ≤ b.number) :
    ∃ n, coveringIn v6 fuel entry = some (some n) ∧ Ip4Network.Covers a b n := by
  obtain ⟨n, hrun, hcovers⟩ := Ip4Network.widen_covers hle hfuel
  refine ⟨n, ?_, hcovers⟩
  simp only [coveringIn, firstAndLast_iff.mpr h, if_neg (Nat.not_lt.mpr hle), hrun]
  rfl

/-- The search finds no network where the entry names no range. -/
theorem coveringIn_of_not {fuel : Nat} (h : ∀ a b, Names entry a b → b.number < a.number) : coveringIn v6 fuel entry = some none := by
  rw [coveringIn]
  split
  · rename_i first last hends
    exact if_pos (h first last (firstAndLast_iff.mp hends))
  · rfl

/-- Two readings of one entry are the same. -/
theorem Names.unique {a' b' : Ip4} (h : Names entry a b) (h' : Names entry a' b') : a = a' ∧ b = b' := by
  have hsame := (@firstAndLast_iff .sample _ _ _).mpr h
  rw [firstAndLast_iff.mpr h'] at hsame
  cases hsame
  exact ⟨rfl, rfl⟩

/-- An entry that cannot be used names no range of IPv4 addresses that begins before it ends. -/
theorem Unusable.names (hu : Unusable v6 entry) (h : Names entry a b) : b.number < a.number := by
  have hends := (@firstAndLast_iff v6 _ _ _).mpr h
  cases hu with
  | first hb hmore hv6 =>
    simp only [firstAndLast, hb, hmore, false_and, if_false, hv6.ipAddress, Option.bind_eq_bind, Option.bind_some] at hends
    obtain ⟨last, -, hends⟩ := Option.bind_eq_some_iff.mp hends
    cases hends
  | last hb hv6 =>
    simp only [firstAndLast, hb, List.cons_ne_nil, false_and, if_false] at hends
    rw [List.getLast_cons (List.cons_ne_nil _ _), hv6.ipAddress] at hends
    obtain ⟨first, -, hends⟩ := Option.bind_eq_some_iff.mp hends
    cases hends
  | address hb hslash hv6 =>
    simp [firstAndLast, hb, hslash, hv6.ipAddress] at hends
  | network hb hslash hn hv6 =>
    simp [firstAndLast, hb, hslash, ipNetwork, hn, hv6] at hends
  | reversed h' hlt =>
    obtain ⟨rfl, rfl⟩ := h.unique h'
    exact hlt

end Entry

/-! ## The smallest network -/

/-- `_covering_net` ends, whatever the entry: with the smallest network that holds every address of an IPv4 entry, and with
none where an end is IPv6 or the last comes before the first. -/
theorem coveringNet_least (v6 : Ipv6) (entry : Text) {fuel : Nat} (hfuel : 33 ≤ fuel) :
    (coveringIn v6 fuel entry).isSome ∧
      (∀ a b, Names entry a b → a.number ≤ b.number →
        ∃ n, coveringIn v6 fuel entry = some (some n) ∧ coveringNet v6 entry = some n.text ∧ Ip4Network.Covers a b n ∧
          ∀ c : Ip4, a.number ≤ c.number → c.number ≤ b.number → n.Contains c) ∧
      (Unusable v6 entry → coveringIn v6 fuel entry = some none ∧ coveringNet v6 entry = none) := by
  refine ⟨coveringIn_isSome hfuel, fun a b h hle => ?_, fun hu => ?_⟩
  · obtain ⟨n, hrun, hcovers⟩ := coveringIn_of_names hfuel h hle
    obtain ⟨n', hrun', hcovers'⟩ := @coveringIn_of_names v6 _ _ _ 33 le_rfl h hle
    obtain rfl := hcovers.unique hcovers'
    refine ⟨n, hrun, ?_, hcovers, fun c hac hcb => ⟨le_trans hcovers.first.1 hac, le_trans hcb hcovers.last.2⟩⟩
    rw [coveringNet, hrun']
    rfl
  · have hnot : ∀ a b, Names entry a b → b.number < a.number := fun a b h => hu.names h
    refine ⟨coveringIn_of_not hnot, ?_⟩
    rw [coveringNet, coveringIn_of_not hnot]
    rfl

/-- A pool that straddles a boundary between two networks of 256 addresses. -/
theorem coveringNet_least_straddling :
    ∃ n, coveringIn .sample 33 "192.168.43.10-192.168.44.250" = some (some n) ∧
      coveringNet .sample "192.168.43.10-192.168.44.250" = some n.text ∧
      Ip4Network.Covers (.ofOctets 192 168 43 10) (.ofOctets 192 168 44 250) n := by
  obtain ⟨-, hnames, -⟩ := coveringNet_least .sample "192.168.43.10-192.168.44.250" (le_refl 33)
  have hbounds : bounds "192.168.43.10-192.168.44.250" = ["192.168.43.10".toList, "192.168.44.250".toList] := by decide
  obtain ⟨n, hrun, htext, hcovers, -⟩ := hnames _ _ (.range hbounds (show Ip4.parse _ = some (.ofOctets 192 168 43 10) by decide)
    (show Ip4.parse "192.168.44.250" = some (.ofOctets 192 168 44 250) by decide)) (by decide)
  exact ⟨n, hrun, htext, hcovers⟩

/-! ## The network of the line -/

section Line

variable {v6 : Ipv6} {entry pool conf : Text} {a b : Ip4}

/-- Two addresses agree in all the leading bits in which the first and the last agree. -/
def Alike (first last a : Ip4) : Prop :=
  ∀ k, k ≤ 32 → first.number / 2 ^ k = last.number / 2 ^ k → a.number / 2 ^ k = first.number / 2 ^ k

/-- A covering network contains what is like both ends of its range. -/
theorem covers_contains {first last : Ip4} {n : Ip4Network} (h : Ip4Network.Covers first last n) :
    n.Contains a ↔ Alike first last a := by
  have hn := Ip4Network.eq_block h.first
  have hlen := n.prefixlen_le
  constructor
  · intro ha k hk hagree
    have hlast : (Ip4Network.block first (32 - k) (Nat.sub_le ..)).Contains last := by
      rw [Ip4Network.block_contains, Nat.sub_sub_self hk]
      exact hagree.symm
    have hle := h.least _ (Ip4Network.block_self (Nat.sub_le ..)) hlast
    rw [Ip4Network.block_prefixlen] at hle
    rw [hn, Ip4Network.block_contains] at ha
    exact Ip4Network.div_eq_of_le ha (by omega)
  · intro ha
    have hlast := h.last
    rw [hn, Ip4Network.block_contains] at hlast ⊢
    exact ha _ (Nat.sub_le ..) hlast.symm

/-- No network covers an entry that names no range. -/
theorem coveringNet_eq_none (h : ∀ a b, Names entry a b → b.number < a.number) : coveringNet v6 entry = none := by
  rw [coveringNet, coveringIn_of_not h]
  rfl

/-- The line's network is that of its first IPv4 entry. -/
theorem poolNetwork_first {before after : List Text} {n : Ip4Network} {xauthNet : Option Text}
    (hpool : rightaddresspool conf = some pool) (hentries : pool.splitOn ',' = before ++ entry :: after)
    (hbefore : ∀ e ∈ before, ∀ a b, Names e a b → b.number < a.number) (h : Names entry a b) (hle : a.number ≤ b.number)
    (hn : Ip4Network.Covers a b n) :
    poolNetwork v6 (some conf) xauthNet = (n.text, confProvenance) := by
  have hconf : (some conf).filter (· ≠ []) = some conf := by
    refine Option.filter_some_pos (decide_eq_true ?_)
    rintro rfl
    cases hpool
  obtain ⟨n', hrun, hcovers⟩ := @coveringIn_of_names v6 _ _ _ 33 le_rfl h hle
  obtain rfl := hcovers.unique hn
  have hnet : coveringNet v6 entry = some n'.text := by
    rw [coveringNet, hrun]
    rfl
  have hfind : (pool.splitOn ',').findSome? (coveringNet v6) = some n'.text := by
    rw [hentries, List.findSome?_append, List.findSome?_cons, hnet]
    have hnone : before.findSome? (coveringNet v6) = none :=
      List.findSome?_eq_none_iff.mpr fun e he => coveringNet_eq_none (hbefore e he)
    rw [hnone]
    rfl
  rw [poolNetwork, hconf]
  simp only [hpool, hfind]

/-- The answer is taken from the line, and its network holds every address of every IPv4 entry on it. -/
def Right (v6 : Ipv6) (conf pool : Text) (xauthNet : Option Text) : Prop :=
  ∃ n : Ip4Network, poolNetwork v6 (some conf) xauthNet = (n.text, confProvenance) ∧
    ∀ e ∈ pool.splitOn ',', ∀ a b, Names e a b → ∀ c : Ip4, a.number ≤ c.number → c.number ≤ b.number → n.Contains c

end Line

/-- The answer covers the line exactly when every IPv4 entry of it lies where the first one does: its two ends agree with the first
entry's in all the leading bits that the first entry's own two ends share. -/
theorem poolNetwork_right_iff (v6 : Ipv6) (conf pool : Text) (xauthNet : Option Text) {before after : List Text} {entry : Text}
    {first last : Ip4} (hpool : rightaddresspool conf = some pool) (hentries : pool.splitOn ',' = before ++ entry :: after)
    (hbefore : ∀ e ∈ before, ∀ a b, Names e a b → b.number < a.number) (h : Names entry first last)
    (hle : first.number ≤ last.number) :
    Right v6 conf pool xauthNet ↔
      ∀ e ∈ pool.splitOn ',', ∀ a b, Names e a b → a.number ≤ b.number → Alike first last a ∧ Alike first last b := by
  obtain ⟨n, -, hcovers⟩ := @coveringIn_of_names v6 _ _ _ 33 le_rfl h hle
  have hnet := @poolNetwork_first v6 _ _ _ _ _ _ _ _ xauthNet hpool hentries hbefore h hle hcovers
  constructor
  · rintro ⟨n', hnet', hcontains⟩ e he a b hab hle'
    obtain rfl := Ip4Network.text_injective (congrArg Prod.fst (hnet.symm.trans hnet'))
    exact ⟨(covers_contains hcovers).mp (hcontains e he a b hab a le_rfl hle'),
      (covers_contains hcovers).mp (hcontains e he a b hab b hle' le_rfl)⟩
  · intro halike
    refine ⟨n, hnet, fun e he a b hab c hac hcb => ?_⟩
    obtain ⟨ha, hb⟩ := halike e he a b hab (le_trans hac hcb)
    exact ⟨le_trans ((covers_contains hcovers).mpr ha).1 hac, le_trans hcb ((covers_contains hcovers).mpr hb).2⟩

/-- The stock line: one range of IPv4 addresses, and one of IPv6. -/
theorem poolNetwork_right_stock :
    Right .sample "  rightaddresspool=192.168.43.10-192.168.43.250,fddd:500:500:500::1000-fddd:500:500:500::9999"
      "192.168.43.10-192.168.43.250,fddd:500:500:500::1000-fddd:500:500:500::9999" none := by
  have hnames : Names "192.168.43.10-192.168.43.250" (.ofOctets 192 168 43 10) (.ofOctets 192 168 43 250) :=
    (@firstAndLast_iff .sample _ _ _).mp (by decide +kernel)
  have hsplit : List.splitOn ',' "192.168.43.10-192.168.43.250,fddd:500:500:500::1000-fddd:500:500:500::9999".toList =
      [] ++ "192.168.43.10-192.168.43.250".toList :: ["fddd:500:500:500::1000-fddd:500:500:500::9999".toList] := by decide +kernel
  refine (poolNetwork_right_iff .sample _ _ none (by decide +kernel) hsplit (fun e he => by cases he) hnames (by decide)).mpr ?_
  rw [hsplit]
  intro e he a b h hle
  rcases List.mem_cons.mp he with rfl | he
  · obtain ⟨rfl, rfl⟩ := h.unique hnames
    exact ⟨fun k _ _ => rfl, fun k _ hk => hk.symm⟩
  · obtain rfl := List.mem_singleton.mp he
    have hends := (@firstAndLast_iff .sample _ _ _).mpr h
    rw [show firstAndLast .sample "fddd:500:500:500::1000-fddd:500:500:500::9999" = none by decide +kernel] at hends
    cases hends

/-- A second range the clients are handed addresses from is outside the network. -/
theorem poolNetwork_wrong :
    ¬ ∀ (v6 : Ipv6) (conf pool : Text) (xauthNet : Option Text), rightaddresspool conf = some pool →
      (∃ e ∈ pool.splitOn ',', ∃ a b, Names e a b ∧ a.number ≤ b.number) → Right v6 conf pool xauthNet := by
  intro h
  have hfirst : Names "10.0.0.10-10.0.0.20" (.ofOctets 10 0 0 10) (.ofOctets 10 0 0 20) :=
    (@firstAndLast_iff .sample _ _ _).mp (by decide +kernel)
  have hsecond : Names "10.0.5.0/24" (.ofOctets 10 0 5 0) (.ofOctets 10 0 5 255) :=
    (@firstAndLast_iff .sample _ _ _).mp (by decide +kernel)
  obtain ⟨n, hnet, hcontains⟩ := h .sample "rightaddresspool=10.0.0.10-10.0.0.20,10.0.5.0/24" "10.0.0.10-10.0.0.20,10.0.5.0/24" none
    (by decide) ⟨"10.0.0.10-10.0.0.20".toList, by decide, _, _, hfirst, by decide⟩
  have htext : n.text = (Ip4Network.block (.ofOctets 10 0 0 0) 27 (by decide)).text := by
    rw [show poolNetwork .sample (some "rightaddresspool=10.0.0.10-10.0.0.20,10.0.5.0/24".toList) none =
      ("10.0.0.0/27".toList, confProvenance) by decide +kernel] at hnet
    rw [← (Prod.mk.inj hnet).1]
    decide
  obtain rfl := Ip4Network.text_injective htext
  have hc := hcontains "10.0.5.0/24" (by decide) _ _ hsecond (.ofOctets 10 0 5 0) (by decide) (by decide)
  exact absurd hc (by decide)

end Ikev2Ctl

end VpnStack

import VpnStack.Smoke

/-!
# The network of the health check

The shell asks about one entry of its line, the first that looks like IPv4, without the white space in it; Python asks about one
entry of its line after the other. Where either finds nothing of use it falls back to `VPN_XAUTH_NET`, which the shell reads up to
the end of its first line and in either family, and Python stripped and in IPv4 only.
-/

namespace VpnStack

open Python Ikev2Ctl

namespace Smoke

variable {v6 : Ipv6} {conf value net : Text}

/-! ## The entry that is taken -/

/-- Python takes the first entry of its line that `_covering_net` has a network for. -/
inductive PythonTakes (v6 : Ipv6) (conf net : Text) : Prop
  | intro {pool entry : Text} {before after : List Text} (hpool : rightaddresspool conf = some pool)
      (hsplit : pool.splitOn ',' = before ++ entry :: after) (hbefore : ∀ e ∈ before, Ikev2Ctl.coveringNet v6 e = none)
      (hnet : Ikev2Ctl.coveringNet v6 entry = some net)

/-- The shell takes the first entry of its line that looks like IPv4, if there is a network for it without its white space. -/
inductive ShellTakes (v6 : Ipv6) (conf net : Text) : Prop
  | intro {line entry : Text} {before after : List Text} (hline : sedLine conf = some line)
      (hsplit : line.splitOn ',' = before ++ entry :: after) (hbefore : ∀ e ∈ before, looksIpv4 e = false)
      (hlooks : looksIpv4 entry = true) (hnet : Ikev2Ctl.coveringNet v6 (noSpaces entry) = some net)

/-- What vpnctl takes of the file is the first entry that names a network. -/
theorem pythonTakes_iff :
    ((rightaddresspool conf).bind fun pool => (pool.splitOn ',').findSome? (Ikev2Ctl.coveringNet v6)) = some net ↔
      PythonTakes v6 conf net := by
  rw [Option.bind_eq_some_iff]
  constructor
  · rintro ⟨pool, hpool, hfind⟩
    obtain ⟨before, entry, after, hsplit, hnet, hbefore⟩ := List.findSome?_eq_some_iff.mp hfind
    exact ⟨hpool, hsplit, hbefore, hnet⟩
  · rintro ⟨hpool, hsplit, hbefore, hnet⟩
    exact ⟨_, hpool, List.findSome?_eq_some_iff.mpr ⟨_, _, _, hsplit, hnet, hbefore⟩⟩

theorem coveringNet_nil (v6 : Ipv6) : Ikev2Ctl.coveringNet v6 [] = none := rfl

/-- The check of `covering_net` that there is something changes nothing. -/
theorem coveringNet_eq (entry : Text) : coveringNet v6 entry = Ikev2Ctl.coveringNet v6 entry := by
  rw [coveringNet]
  split
  · rename_i hnil
    rw [hnil, coveringNet_nil]
  · rfl

/-- What smoke.sh takes is the entry its expression finds. -/
theorem shellTakes_iff :
    ((sedLine conf).bind fun line => Ikev2Ctl.coveringNet v6 (poolEntry line)) = some net ↔ ShellTakes v6 conf net := by
  rw [Option.bind_eq_some_iff]
  constructor
  · rintro ⟨line, hline, hnet⟩
    rw [poolEntry] at hnet
    cases hfind : (line.splitOn ',').find? looksIpv4 with
    | none =>
      rw [hfind] at hnet
      cases hnet
    | some entry =>
      rw [hfind, Option.getD_some] at hnet
      obtain ⟨hlooks, before, after, hsplit, hbefore⟩ := List.find?_eq_some_iff_append.mp hfind
      exact ⟨hline, hsplit, fun e he => Bool.not_eq_true' _ ▸ hbefore e he, hlooks, hnet⟩
  · rintro ⟨hline, hsplit, hbefore, hlooks, hnet⟩
    refine ⟨_, hline, ?_⟩
    have hfind := List.find?_eq_some_iff_append.mpr ⟨hlooks, _, _, hsplit, fun e he => (Bool.not_eq_true' _).mpr (hbefore e he)⟩
    rw [poolEntry, hfind, Option.getD_some, hnet]

/-! ## What they fall back to -/

/-- The network Python has from `VPN_XAUTH_NET`: a block of IPv4, with white space around it, or else the default. -/
def pythonValue (v6 : Ipv6) (value : Text) : Text :=
  match ipNetwork v6 (strip value) with
  | some (.v4 block) => block.text
  | _ => ipv4NetDefault

/-- The network the shell has from `VPN_XAUTH_NET`: a block of either family, up to the end of its line, or else the default. -/
def shellValue (v6 : Ipv6) (value : Text) : Text := (validNet v6 (xauthLine value)).getD ipv4NetDefault

/-- An empty value is no block of IPv4. -/
theorem pythonValue_nil (v6 : Ipv6) : pythonValue v6 [] = ipv4NetDefault := by
  have hempty : ipNetwork v6 (strip []) = (v6.network []).map .v6 := rfl
  rw [pythonValue, hempty]
  cases v6.network [] with
  | none => rfl
  | some t => rfl

/-- Without a pool vpnctl falls back on the variable. -/
theorem xauthNetwork_eq (xauthNet : Option Text) (why : List Piece) :
    (xauthNetwork v6 xauthNet why).1 = pythonValue v6 (xauthNet.getD []) := by
  cases xauthNet with
  | none => exact (pythonValue_nil v6).symm
  | some value =>
    by_cases hvalue : value = []
    · subst hvalue
      exact (pythonValue_nil v6).symm
    · have hfilter : (some value).filter (· ≠ []) = some value := Option.filter_some_pos (decide_eq_true hvalue)
      rw [xauthNetwork, hfilter, Option.getD_some, pythonValue]
      cases hnet : ipNetwork v6 (strip value) with
      | none => simp only [hnet]
      | some n => cases n <;> simp only [hnet]

/-- Without a pool smoke.sh falls back on the variable. -/
theorem xauthPool_eq (xauthNet : Option Text) (why : List Piece) :
    (xauthPool v6 xauthNet why).1 = shellValue v6 (xauthNet.getD []) := by
  rw [xauthPool, shellValue]
  split
  · rename_i hnil
    rw [hnil]
    rfl
  · cases validNet v6 (xauthLine (xauthNet.getD [])) <;> simp only [Option.getD_none, Option.getD_some]

/-! ## Where the two agree -/

/-- How the two come to the same network: each takes an entry, and they have the same network; neither does, and they fall back to
the same; or one takes an entry whose network is what the other falls back to. -/
inductive Agree (v6 : Ipv6) (conf value : Text) : Prop
  | entry (net : Text) (hpython : PythonTakes v6 conf net) (hshell : ShellTakes v6 conf net)
  | value (hpython : ∀ net, ¬ PythonTakes v6 conf net) (hshell : ∀ net, ¬ ShellTakes v6 conf net)
      (hvalue : shellValue v6 value = pythonValue v6 value)
  | python (hpython : PythonTakes v6 conf (shellValue v6 value)) (hshell : ∀ net, ¬ ShellTakes v6 conf net)
  | shell (hpython : ∀ net, ¬ PythonTakes v6 conf net) (hshell : ShellTakes v6 conf (pythonValue v6 value))

/-- The line that Python goes through. -/
theorem poolNetwork_eq (v6 : Ipv6) (conf xauthNet : Option Text) : (poolNetwork v6 conf xauthNet).1 =
    ((rightaddresspool (conf.getD [])).bind fun pool => (pool.splitOn ',').findSome? (Ikev2Ctl.coveringNet v6)).getD
      (pythonValue v6 (xauthNet.getD [])) := by
  by_cases hconf : conf.getD [] = []
  · have hfilter : conf.filter (· ≠ []) = none := by
      cases conf with
      | none => rfl
      | some c =>
        obtain rfl : c = [] := hconf
        rfl
    rw [poolNetwork, hfilter, hconf]
    exact xauthNetwork_eq xauthNet _
  · cases conf with
    | none => exact absurd rfl hconf
    | some c =>
      have hfilter : (some c).filter (· ≠ []) = some c := Option.filter_some_pos (decide_eq_true hconf)
      rw [poolNetwork, hfilter, Option.getD_some]
      dsimp only
      cases hpool : rightaddresspool c with
      | none => exact xauthNetwork_eq xauthNet _
      | some pool =>
        dsimp only
        rw [Option.bind_some]
        cases hfind : (pool.splitOn ',').findSome? (Ikev2Ctl.coveringNet v6) with
        | none => exact xauthNetwork_eq xauthNet _
        | some net => rfl

/-- The line that the shell goes through. -/
theorem ikev2Pool_eq (v6 : Ipv6) (conf xauthNet : Option Text) : (ikev2Pool v6 conf xauthNet).1 =
    ((sedLine (conf.getD [])).bind fun line => Ikev2Ctl.coveringNet v6 (poolEntry line)).getD
      (shellValue v6 (xauthNet.getD [])) := by
  unfold ikev2Pool
  cases hline : sedLine (conf.getD []) with
  | none => exact xauthPool_eq xauthNet _
  | some line =>
    rw [Option.getD_some, Option.bind_some, ← coveringNet_eq]
    dsimp only
    split
    · rename_i hnil
      subst hnil
      exact xauthPool_eq xauthNet _
    · cases hnet : coveringNet v6 (poolEntry line) with
      | none => exact xauthPool_eq xauthNet _
      | some net => rfl

/-- Nothing is taken. -/
theorem takes_none {o : Option Text} {P : Text → Prop} (h : ∀ net, o = some net ↔ P net) : o = none ↔ ∀ net, ¬ P net := by
  rw [Option.eq_none_iff_forall_ne_some]
  exact forall_congr' fun net => not_congr (h net)

/-- White space behind the entries, and entries that neither reads, make no difference. -/
example : (ikev2Pool .sample (some "rightaddresspool=192.168.43.10-192.168.43.250,10.0.0.300,10.0.0.1 0\x0bfoo") none).1 =
    (poolNetwork .sample (some "rightaddresspool=192.168.43.10-192.168.43.250,10.0.0.300,10.0.0.1 0\x0bfoo") none).1 := by
  decide +kernel

end Smoke

end VpnStack

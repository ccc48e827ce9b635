import VpnStack.Forwarding

/-!
# The accept pair

A run of `ensure_ipv4_forwarding` that says it went well leaves both rules in the chain, in front of what was there. A run of
`remove_ipv4_forwarding` that says so has removed the first eight copies of each.
-/

namespace VpnStack

open Python Interaction Ikev2Ctl

namespace Forwarding

/-- Any call may meet anything, and the program may be stopped anywhere. -/
abbrev any : Discipline Op (List Rule) Choice := .any Op (List Rule) Choice

variable {rule : Rule} {rules chain : List Rule}

/-! ## The three calls -/

/-- `-C` answers whether the rule is there, and changes nothing. -/
theorem ends_check (rule : Rule) (chain : List Rule) :
    ends iptables any (call (.check rule)) (fun a w => w = chain ∧ (a.1 = true ↔ rule ∈ chain)) (fun _ w => w = chain)
      (fun w => w = chain) chain :=
  ends_exec (fun _ => rfl) (fun _ _ _ => ⟨rfl, decide_eq_true_iff⟩) (fun _ _ _ _ => rfl) (fun _ _ _ _ => rfl)

/-- `-I` puts the rule in front when it succeeds. -/
theorem ends_insert (rule : Rule) (chain : List Rule) :
    ends iptables any (call (.insert rule)) (fun a w => a.1 = true → w = rule :: chain) (fun _ _ => True) (fun _ => True) chain := by
  refine ends_exec (fun _ => trivial) (fun c _ _ => ?_) (fun _ _ _ _ => trivial) (fun _ _ _ _ => trivial)
  intro h
  exact if_pos h

/-- `-D` takes one copy of the rule away when it succeeds. -/
theorem ends_delete (rule : Rule) (chain : List Rule) :
    ends iptables any (call (.delete rule)) (fun a w => a.1 = true → rule ∈ chain ∧ w = chain.erase rule) (fun _ _ => True)
      (fun _ => True) chain := by
  refine ends_exec (fun _ => trivial) (fun c _ _ => ?_) (fun _ _ _ _ => trivial) (fun _ _ _ _ => trivial)
  intro h
  obtain ⟨hok, hmem⟩ := Bool.and_eq_true_iff.mp h
  exact ⟨of_decide_eq_true hmem, if_pos hok⟩

/-! ## Ensuring -/

/-- What is put in front of a chain: some of the rules, none of them twice, and none that was there. -/
structure Missing (rules chain added : List Rule) : Prop where
  subset : added ⊆ rules
  nodup : added.Nodup
  absent : ∀ rule ∈ added, rule ∉ chain

theorem Missing.nil : Missing rules chain [] := ⟨List.nil_subset _, List.nodup_nil, List.forall_mem_nil _⟩

/-- A rule that is not there is missing. -/
theorem Missing.single (h : rule ∉ chain) : Missing (rule :: rules) chain [rule] :=
  ⟨by simp, List.nodup_singleton rule, by simpa using h⟩

/-- What is missing behind what was put in front is put in front of it. -/
theorem Missing.append {added front : List Rule} (h : Missing rules (front ++ chain) added) (hfront : Missing (rule :: rules) chain front) :
    Missing (rule :: rules) chain (added ++ front) := by
  refine ⟨List.append_subset.mpr ⟨fun x hx => List.mem_cons_of_mem _ (h.subset hx), hfront.subset⟩, ?_, ?_⟩
  · have hdisjoint : added.Disjoint front := fun x hx hx' => h.absent x hx (List.mem_append_left _ hx')
    exact List.nodup_append'.mpr ⟨h.nodup, hfront.nodup, hdisjoint⟩
  · intro r hr
    rcases List.mem_append.mp hr with hr | hr
    · exact fun hmem => h.absent r hr (List.mem_append_right _ hmem)
    · exact hfront.absent r hr

/-- What ensuring some rules adds to a chain: those of them that were missing, each once and in front, and then all of them are
in it. -/
structure Ensured (rules chain w : List Rule) : Prop where
  added : ∃ added, w = added ++ chain ∧ Missing rules chain added
  present : ∀ rule ∈ rules, rule ∈ w

/-- The loop that inserts ends with every rule ensured, or with an error. -/
theorem ensureRules_ends (rules chain : List Rule) :
    ends iptables any (ensureRules rules) (fun r w => r = none → Ensured rules chain w) (fun _ _ => True) (fun _ => True) chain := by
  induction rules generalizing chain with
  | nil =>
    exact (ends_pure _).mpr fun _ => ⟨⟨[], rfl, .nil⟩, List.forall_mem_nil _⟩
  | cons rule rules ih =>
    -- with this rule in the chain, the rest adds what it adds
    have hrest : ∀ chain', rule ∈ chain' → (∃ front, chain' = front ++ chain ∧ Missing (rule :: rules) chain front) →
        ends iptables any (ensureRules rules) (fun r w => r = none → Ensured (rule :: rules) chain w) (fun _ _ => True)
          (fun _ => True) chain' := by
      rintro chain' hmem ⟨front, rfl, hfront⟩
      refine ends_mono (ih _) (fun r w h hr => ?_) (fun _ _ _ => trivial) (fun _ _ => trivial)
      obtain ⟨⟨added, rfl, hadded⟩, hpresent⟩ := h hr
      refine ⟨⟨added ++ front, (List.append_assoc ..).symm, hadded.append hfront⟩, List.forall_mem_cons.mpr ⟨?_, hpresent⟩⟩
      exact List.mem_append_right _ hmem
    rw [ensureRules]
    refine ends_seq (ends_mono (ends_check rule chain) (fun _ _ h => h) (fun _ _ _ => trivial) fun _ _ => trivial) fun check w h => ?_
    obtain ⟨rfl, hcheck⟩ := h
    refine ends_ite (fun hfound => ?_) (fun hmissing => ?_)
    · exact hrest w (hcheck.mp hfound) ⟨[], rfl, .nil⟩
    · refine ends_seq (ends_insert rule w) fun add w' hadd => ?_
      refine ends_ite (fun hok => ?_) (fun _ => (ends_pure _).mpr fun h => by cases h)
      rw [hadd hok]
      exact hrest _ (List.mem_cons_self ..) ⟨[rule], rfl, .single fun hmem => hmissing (hcheck.mpr hmem)⟩

/-- With the rules in the chain there is nothing to do, whatever the calls meet. -/
theorem ensureRules_keeps (h : ∀ rule ∈ rules, rule ∈ chain) :
    ends iptables any (ensureRules rules) (fun _ w => w = chain) (fun _ w => w = chain) (fun w => w = chain) chain := by
  induction rules with
  | nil => exact (ends_pure _).mpr rfl
  | cons rule rules ih =>
    rw [ensureRules]
    refine ends_seq (ends_check rule chain) fun check w hcheck => ?_
    obtain ⟨rfl, hcheck⟩ := hcheck
    refine ends_ite (fun _ => ?_) (fun hmissing => ?_)
    · exact ih fun r hr => h r (List.mem_cons_of_mem _ hr)
    · exact absurd (hcheck.mpr (h rule (List.mem_cons_self ..))) hmissing

/-! ## Removing -/

/-- What is left of a chain without up to so many copies of a rule. -/
structure Shortened (rule : Rule) (bound : Nat) (chain w : List Rule) : Prop where
  count : w.count rule = chain.count rule - bound
  others : w.filter (· ≠ rule) = chain.filter (· ≠ rule)

/-- A copy that is taken away is of no other rule. -/
theorem filter_ne_erase (rule : Rule) (chain : List Rule) : (chain.erase rule).filter (· ≠ rule) = chain.filter (· ≠ rule) := by
  induction chain with
  | nil => rfl
  | cons r chain ih =>
    by_cases hr : r = rule
    · subst hr
      rw [List.erase_cons_head, List.filter_cons_of_neg (by simp)]
    · rw [List.erase_cons_tail (by simpa using hr), List.filter_cons_of_pos (by simpa using hr),
        List.filter_cons_of_pos (by simpa using hr), ih]

/-- The loop that deletes copies of a rule leaves what its bound leaves. -/
theorem removeCopies_ends (rule : Rule) (bound removed : Nat) (chain : List Rule) :
    ends iptables any (removeCopies rule bound removed) (fun r w => ∀ n, r = .ok n → Shortened rule bound chain w)
      (fun _ _ => True) (fun _ => True) chain := by
  induction bound generalizing removed chain with
  | zero => exact (ends_pure _).mpr fun _ _ => ⟨rfl, rfl⟩
  | succ bound ih =>
    rw [removeCopies]
    refine ends_seq (ends_mono (ends_check rule chain) (fun _ _ h => h) (fun _ _ _ => trivial) fun _ _ => trivial) fun check w h => ?_
    obtain ⟨rfl, hcheck⟩ := h
    refine ends_ite (fun hfound => ?_) (fun hmissing => ?_)
    · refine ends_seq (ends_delete rule w) fun delete w' hdelete => ?_
      refine ends_ite (fun hok => ?_) (fun _ => (ends_pure _).mpr fun n h => by cases h)
      obtain ⟨hmem, rfl⟩ := hdelete hok
      refine ends_mono (ih (removed + 1) (w.erase rule)) (fun r w'' h n hr => ?_) (fun _ _ _ => trivial) (fun _ _ => trivial)
      obtain ⟨hcount, hothers⟩ := h n hr
      refine ⟨?_, hothers.trans (filter_ne_erase rule w)⟩
      rw [hcount, List.count_erase_self]
      omega
    · refine (ends_pure _).mpr fun _ _ => ⟨?_, rfl⟩
      rw [List.count_eq_zero_of_not_mem fun hmem => hmissing (hcheck.mpr hmem), Nat.zero_sub]

/-- What is left of a chain without the first copies of some rules. -/
structure Removed (rules chain w : List Rule) : Prop where
  count : ∀ rule ∈ rules, w.count rule = chain.count rule - removalBound
  others : w.filter (· ∉ rules) = chain.filter (· ∉ rules)

/-- A rule that the filter keeps is there as often as in the filtered chain. -/
theorem count_eq_of_filter {p : Rule → Bool} {w w' : List Rule} (h : w.filter p = w'.filter p) (hp : p rule = true) :
    w.count rule = w'.count rule := by
  rw [← List.count_filter hp, h, List.count_filter hp]

/-- A rule that is shortened, and then the others. -/
theorem Removed.cons (hrule : rule ∉ rules) {w w' : List Rule} (h : Shortened rule removalBound chain w)
    (h' : Removed rules w w') : Removed (rule :: rules) chain w' := by
  refine ⟨List.forall_mem_cons.mpr ⟨?_, fun r hr => ?_⟩, ?_⟩
  · rw [count_eq_of_filter h'.others (decide_eq_true hrule), h.count]
  · have hne : r ≠ rule := by
      rintro rfl
      exact hrule hr
    rw [h'.count r hr, count_eq_of_filter h.others (decide_eq_true hne)]
  · have hsplit : ∀ l : List Rule, l.filter (· ∉ rule :: rules) = (l.filter (· ∉ rules)).filter (· ≠ rule) := by
      intro l
      rw [List.filter_filter]
      refine List.filter_congr fun r _ => ?_
      simp only [List.mem_cons, not_or, Bool.decide_and]
    have hswap : ∀ l : List Rule, (l.filter (· ∉ rules)).filter (· ≠ rule) = (l.filter (· ≠ rule)).filter (· ∉ rules) := by
      intro l
      rw [List.filter_filter, List.filter_filter]
      exact List.filter_congr fun r _ => Bool.and_comm ..
    rw [hsplit, h'.others, hswap, h.others, ← hswap, ← hsplit]

/-- The loop over the rules shortens each of them. -/
theorem removeRules_ends (hrules : rules.Nodup) (removed : Nat) (chain : List Rule) :
    ends iptables any (removeRules rules removed) (fun r w => ∀ n, r = .ok n → Removed rules chain w) (fun _ _ => True)
      (fun _ => True) chain := by
  induction rules generalizing removed chain with
  | nil => exact (ends_pure _).mpr fun _ _ => ⟨fun r hr => (List.not_mem_nil hr).elim, rfl⟩
  | cons rule rules ih =>
    obtain ⟨hrule, hrules⟩ := List.nodup_cons.mp hrules
    rw [removeRules]
    refine ends_seq (removeCopies_ends rule removalBound removed chain) fun r w h => ?_
    cases r with
    | error output => exact (ends_pure _).mpr fun n h => by cases h
    | ok removed =>
      exact ends_mono (ih hrules removed w) (fun r w' h' n hr => .cons hrule (h removed rfl) (h' n hr)) (fun _ _ _ => trivial)
        (fun _ _ => trivial)

theorem forwardRules_nodup (iface net : Text) : (forwardRules iface net).Nodup := by
  simp [forwardRules]

/-! ## The two functions -/

section Functions

variable (v6 : Ipv6) (conf xauthNet : Option Text) (iface : Text)

/-- The network the pair is for. -/
abbrev pairNet : Text := (poolNetwork v6 conf xauthNet).1

/-- When it reports success, the rules of the pool are ensured. -/
theorem ensure_ends (chain : List Rule) :
    ends iptables any (ensureIpv4Forwarding v6 (some iface) conf xauthNet)
      (fun r w => r.1 = true → Ensured (forwardRules iface (pairNet v6 conf xauthNet)) chain w) (fun _ _ => True) (fun _ => True)
      chain := by
  refine ends_seq (ensureRules_ends _ chain) fun r w h => ?_
  cases r with
  | some output => exact (ends_pure _).mpr fun h => by cases h
  | none => exact (ends_pure _).mpr fun _ => h rfl

/-- Where every rule is there it leaves the chain as it is, however it ends. -/
theorem ensure_keeps {chain : List Rule} (h : ∀ rule ∈ forwardRules iface (pairNet v6 conf xauthNet), rule ∈ chain) :
    ends iptables any (ensureIpv4Forwarding v6 (some iface) conf xauthNet) (fun _ w => w = chain) (fun _ w => w = chain)
      (fun w => w = chain) chain := by
  refine ends_seq (ensureRules_keeps h) fun r w hw => ?_
  cases r with
  | some output => exact (ends_pure _).mpr hw
  | none => exact (ends_pure _).mpr hw

/-- When it reports success, every rule of the pool is shortened. -/
theorem remove_ends (chain : List Rule) :
    ends iptables any (removeIpv4Forwarding v6 (some iface) conf xauthNet)
      (fun r w => r.1 = true → Removed (forwardRules iface (pairNet v6 conf xauthNet)) chain w) (fun _ _ => True) (fun _ => True)
      chain := by
  refine ends_seq (removeRules_ends (forwardRules_nodup ..) 0 chain) fun r w h => ?_
  cases r with
  | error output => exact (ends_pure _).mpr fun h => by cases h
  | ok removed => exact (ends_pure _).mpr fun _ => h removed rfl

end Functions

/-- What a run of a script that can end anywhere comes to. -/
theorem of_run {p : Cmd (Bool × List Piece)} {Q : Bool × List Piece → List Rule → Prop} {E : Exc → List Rule → Prop}
    {D : List Rule → Prop} {chain w : List Rule} {cs : List Choice} {r : Bool × List Piece} (h : ends iptables any p Q E D chain)
    (hrun : p.run iptables cs chain = (some (.ok r), w)) : Q r w := by
  have hends := ends_run_any h cs
  rw [hrun] at hends
  exact hends

/-- The rule for what comes back to the stock network through `net0`. -/
def backRule : Rule :=
  ["-i", "net0", "-d", "192.168.43.0/24", "-m", "conntrack", "--ctstate", "RELATED,ESTABLISHED", "-j", "ACCEPT"].map String.toList

/-- The rule for what leaves the stock network through `net0`. -/
def outRule : Rule := ["-s", "192.168.43.0/24", "-o", "net0", "-j", "ACCEPT"].map String.toList

/-- A rule of somebody else. -/
def dropRule : Rule := ["-j", "DROP"].map String.toList

end Forwarding

end VpnStack

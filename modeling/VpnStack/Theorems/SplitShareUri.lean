import VpnStack.ShareUri

/-!
# How a share URI is split

`splitShareUri` cuts at the first hash, the first question mark, the last at sign, and then at the brackets and colons of the host,
and decodes each part once. What is percent-encoded is cut nowhere; what is put into a link as it is is read as it is exactly when
nothing in it means something to the reader.
-/

namespace VpnStack

namespace ShareUri

/-! ## Refusals -/

theorem ok_bind {α β : Type} (a : α) (f : α → Parsed β) : ((.ok a : Parsed α) >>= f) = f a := rfl

theorem refuse_ne_ok {α : Type} {w r : Text} {a : α} : (refuse w r : Parsed α) ≠ .ok a := nofun

theorem refuseIf_eq_ok {c : Prop} [Decidable c] {w r : Text} {u : Unit} : refuseIf c w r = .ok u ↔ ¬ c := Except.raiseIf_eq_ok

theorem refuseIf_neg {c : Prop} [Decidable c] {w r : Text} (h : ¬ c) : refuseIf c w r = .ok () := refuseIf_eq_ok.mpr h

/-- What is decoded is what the decoder makes of it. -/
theorem decode_eq_ok {w v what t : Text} : decode w v what = .ok t ↔ Percent.decodeComponent v = some t := by
  unfold decode
  cases Percent.decodeComponent v with
  | none => exact ⟨nofun, nofun⟩
  | some s => exact ⟨fun h => congrArg some (Except.ok.inj h), fun h => congrArg Except.ok (Option.some_inj.mp h)⟩

/-! ## Hosts -/

/-- The address itself: a literal is in brackets only where it stands in a URI. -/
def bare (host : Text) : Text := if host.head? = some '[' ∧ host.getLast? = some ']' then host.tail.dropLast else host

/-- A host the reader can tell from what stands around it: a name or an address without a colon, or a literal in brackets. -/
inductive PlainHost : Text → Prop where
  | name {host : Text} (hne : host ≠ []) (hopen : host.head? ≠ some '[')
      (hmarks : ∀ c ∈ host, c ∉ ['#', '?', '@', '/', ':']) : PlainHost host
  | literal {inner : Text} (hne : inner ≠ []) (hmarks : ∀ c ∈ inner, c ∉ ['#', '?', '@', '/', ']']) :
      PlainHost ('[' :: (inner ++ [']']))

/-- A literal is told without its brackets. -/
theorem bare_literal (inner : Text) : bare ('[' :: (inner ++ [']'])) = inner := by
  have hlast : ('[' :: (inner ++ [']'])).getLast? = some ']' := by
    rw [← List.cons_append]
    exact List.getLast?_concat
  rw [bare, if_pos ⟨rfl, hlast⟩, List.tail_cons, List.dropLast_concat]

theorem bare_of_head {host : Text} (h : host.head? ≠ some '[') : bare host = host := if_neg fun hb => h hb.1

/-- But for brackets, what is in a host is in its address. -/
theorem mem_bare {host : Text} {c : Char} (hopen : c ≠ '[') (hclose : c ≠ ']') (h : c ∈ host) : c ∈ bare host := by
  unfold bare
  split
  · rename_i hb
    obtain ⟨t, rfl⟩ := List.head?_eq_some_iff.mp hb.1
    have ht : c ∈ t := (List.mem_cons.mp h).resolve_left hopen
    rw [List.tail_cons]
    rcases List.eq_nil_or_concat t with rfl | ⟨inner, d, rfl⟩
    · nomatch ht
    · have hd : d = ']' := by
        have hlast := hb.2
        rw [List.concat_eq_append, ← List.cons_append, List.getLast?_concat] at hlast
        exact Option.some_inj.mp hlast
      rw [List.concat_eq_append] at ht ⊢
      rw [List.dropLast_concat]
      rcases List.mem_append.mp ht with ht | ht
      · exact ht
      · exact absurd (hd ▸ List.mem_singleton.mp ht) hclose
  · exact h

/-- A host has none of the marks in it that end it. -/
theorem PlainHost.marks {host : Text} (h : PlainHost host) : ∀ c ∈ host, c ∉ ['#', '?', '@', '/'] := by
  intro c hc
  cases h with
  | name hne hopen hmarks =>
    have hm := hmarks c hc
    simp only [List.mem_cons, List.not_mem_nil, or_false, not_or] at hm ⊢
    exact ⟨hm.1, hm.2.1, hm.2.2.1, hm.2.2.2.1⟩
  | literal hne hmarks =>
    rcases List.mem_cons.mp hc with rfl | hc
    · decide
    · rcases List.mem_append.mp hc with hc | hc
      · have hm := hmarks c hc
        simp only [List.mem_cons, List.not_mem_nil, or_false, not_or] at hm ⊢
        exact ⟨hm.1, hm.2.1, hm.2.2.1, hm.2.2.2.1⟩
      · rw [List.mem_singleton.mp hc]
        decide

/-- The numeral of a port. -/
structure PortText (port : Text) (number : Nat) : Prop where
  parsed : Dart.intTryParse port = some (number : Int)
  range : 1 ≤ number ∧ number ≤ 65535
  marks : ∀ c ∈ port, c ∉ ['#', '?', '@', '/', ':']

theorem PortText.not_mem {port : Text} {number : Nat} (h : PortText port number) {c : Char} (hc : c ∈ ['#', '?', '@', '/', ':']) :
    c ∉ port := fun hmem => h.marks c hmem hc

/-- A port is read as the number it is written for. -/
theorem PortText.readPort {port : Text} {number : Nat} (h : PortText port number) (w : Text) : readPort w port = .ok number := by
  have hrange := h.range
  have hnumber : ¬ ((number : Int) < 1 ∨ (number : Int) > 65535) := by omega
  rw [ShareUri.readPort, h.parsed]
  exact if_neg hnumber

section Authority

variable {host port : Text} (hcolon : ':' ∉ port) (w : Text)

include hcolon

/-- A host and a port are split at the colon between them. -/
theorem splitAuthority_plain (h : PlainHost host) : splitAuthority w (host ++ ':' :: port) = .ok (bare host, port) := by
  cases h with
  | name hne hopen hmarks =>
    have hhost : ':' ∉ host := fun hmem => hmarks _ hmem (by decide)
    obtain ⟨c, t, rfl⟩ := List.exists_cons_of_ne_nil hne
    have hc : c ≠ '[' := fun hc => hopen (congrArg some hc)
    have hcut := @Text.cut_append_cons _ _ ':' (c :: t) port hhost
    have hlast := Text.cutLast_append_cons (t := c :: t) hcolon
    rw [bare_of_head hopen, splitAuthority]
    · rw [hcut, hlast]
      exact if_neg (not_not.mpr rfl)
    · intro literal heq
      exact hc (List.cons.inj heq).1
  | @literal inner hne hmarks =>
    have hclose : ']' ∉ inner := fun hmem => hmarks _ hmem (by decide)
    have hauthority : '[' :: (inner ++ [']']) ++ ':' :: port = '[' :: (inner ++ ']' :: ':' :: port) := by simp
    rw [bare_literal, hauthority, splitAuthority, Text.cut_append_cons hclose]
    rfl

/-- What the reader takes for a host and a port, when the port stands behind the last colon, is the address of a plain host. -/
theorem plainHost_of_splitAuthority {host' portText : Text} (hmarks : ∀ c ∈ host, c ∉ ['#', '?', '@', '/']) (hne : host' ≠ [])
    (hnumber : Dart.intTryParse portText ≠ none) (h : splitAuthority w (host ++ ':' :: port) = .ok (host', portText)) :
    PlainHost host := by
  have hlast := Text.cutLast_append_cons (t := host) hcolon
  have hclear : ∀ {c : Char} {d : Char}, c ∈ host → c ≠ d → c ∉ ['#', '?', '@', '/', d] := by
    intro c d hc hd hmem
    rcases List.mem_append.mp (show c ∈ ['#', '?', '@', '/'] ++ [d] from hmem) with hmem | hmem
    · exact hmarks c hc hmem
    · exact hd (List.mem_singleton.mp hmem)
  unfold splitAuthority at h
  split at h
  · rename_i literal heq
    split at h
    · nomatch h
    · rename_i inner portText' hcut
      obtain ⟨rfl, rfl⟩ := Prod.mk.inj (Except.ok.inj h)
      rcases Text.cut_cases ']' literal with ⟨-, hnone⟩ | ⟨a, b, hliteral, ha, hsome⟩
      · rw [hnone] at hcut
        nomatch (Prod.mk.inj hcut).2
      · rw [hsome] at hcut
        obtain ⟨rfl, hb⟩ := Prod.mk.inj hcut
        obtain rfl := Option.some_inj.mp hb
        have hnone : ':' ∉ portText' := fun hmem => hnumber (Dart.intTryParse_eq_none hmem)
        have hlast' := Text.cutLast_append_cons (t := '[' :: (a ++ [']'])) hnone
        have hwhole : host ++ ':' :: port = '[' :: (a ++ [']']) ++ ':' :: portText' := by
          rw [heq, hliteral]
          simp
        rw [hwhole, hlast'] at hlast
        have hhost : host = '[' :: (a ++ [']']) := (Prod.mk.inj (Option.some_inj.mp hlast)).1.symm
        subst hhost
        refine .literal hne fun c hc => hclear ?_ fun heq => ha (heq ▸ hc)
        exact List.mem_cons_of_mem _ (List.mem_append_left _ hc)
    · nomatch h
  · rename_i hopen
    split at h
    · rename_i a b c d hcut hlast'
      split at h
      · nomatch h
      · rename_i hsame
        obtain ⟨rfl, rfl⟩ := Prod.mk.inj (Except.ok.inj h)
        rw [hlast] at hlast'
        have hhost : host = c := (Prod.mk.inj (Option.some_inj.mp hlast')).1
        have hac : a = c := not_not.mp hsame
        have ha : ':' ∉ a := by
          have := @Text.not_mem_cut _ _ ':' (host ++ ':' :: port)
          rwa [hcut] at this
        have hfree : ':' ∉ host := by rwa [hhost, ← hac]
        refine .name (by rw [hhost, ← hac]; exact hne) ?_ fun c hc => hclear hc fun heq => hfree (heq ▸ hc)
        intro hhead
        obtain ⟨t, rfl⟩ := List.head?_eq_some_iff.mp hhead
        exact hopen _ rfl
    · nomatch h

end Authority

/-! ## What stands in front of the query -/

/-- A credential that is itself in a link. -/
structure PlainCredential (credential : Text) : Prop where
  ne : credential ≠ []
  plain : ∀ c ∈ credential, c.toNat ≤ 127 ∧ c ∉ ['%', '#', '?']

/-- What follows the scheme. -/
def afterScheme (credential host port tail : Text) : Text := credential ++ '@' :: (host ++ ':' :: (port ++ '?' :: tail))

/-- The name of a profile: an empty one is none. -/
def label (name : Text) : Option Text := if name = [] then none else some name

/-- The URI, as messages about what follows the port give it. -/
def located (scheme host : Text) (number : Nat) : Text :=
  if ':' ∈ host then scheme ++ "://…@[".toList ++ host ++ "]:".toList ++ decimal number
  else scheme ++ "://…@".toList ++ host ++ ':' :: decimal number

section Rest

variable {credential host port : Text} {number : Nat} (hport : PortText port number) (scheme tail : Text)

include hport

/-- When no mark in the credential or the host cuts them short, the fragment and the query are what is left to read. -/
theorem splitRest_read {raw : Text} (hraw : ∀ c ∈ raw, c ∉ ['#', '?']) (hdecode : Percent.decodeComponent raw = some credential)
    (hhost : PlainHost host) :
    splitRest scheme (afterScheme raw host port tail) = (do
      let name ← decode (scheme ++ "://…".toList) ((Text.cut '#' tail).2.getD []) "the #fragment"
      refuseIf (credential = []) (scheme ++ "://…".toList) "the credential before @ is empty"
      let params ← ((Text.cut '#' tail).1.splitOn '&').foldlM (addParam (located scheme (bare host) number)) []
      return ⟨scheme, located scheme (bare host) number, credential, bare host, number, params, label name⟩) := by
  have hfree : ∀ c ∈ ['#', '?'], c ∉ raw ∧ c ∉ host ++ ':' :: port := by
    intro c hc
    refine ⟨fun hmem => hraw c hmem hc, fun hmem => ?_⟩
    have hmarks : c ∈ ['#', '?', '@', '/'] := List.mem_append_left ['@', '/'] hc
    rcases List.mem_append.mp hmem with hmem | hmem
    · exact hhost.marks c hmem hmarks
    · rcases List.mem_cons.mp hmem with rfl | hmem
      · exact absurd hmarks (by decide)
      · exact hport.marks c hmem (List.mem_append_left [':'] hmarks)
  have hfront : ∀ c ∈ ['#', '?'], c ∉ raw ++ '@' :: (host ++ ':' :: port) := by
    intro c hc hmem
    rcases List.mem_append.mp hmem with hmem | hmem
    · exact (hfree c hc).1 hmem
    · rcases List.mem_cons.mp hmem with rfl | hmem
      · exact absurd hc (by decide)
      · exact (hfree c hc).2 hmem
  have hauthority : ∀ c ∈ ['@', '/'], c ∉ host ++ ':' :: port := by
    intro c hc hmem
    have hmarks : c ∈ ['#', '?', '@', '/'] := List.mem_append_right ['#', '?'] hc
    rcases List.mem_append.mp hmem with hmem | hmem
    · exact hhost.marks c hmem hmarks
    · rcases List.mem_cons.mp hmem with rfl | hmem
      · exact absurd hmarks (by decide)
      · exact hport.marks c hmem (List.mem_append_left [':'] hmarks)
  have htext : afterScheme raw host port tail = (raw ++ '@' :: (host ++ ':' :: port)) ++ '?' :: tail := by
    simp [afterScheme]
  have hquery : Text.cut '#' ('?' :: tail) = ('?' :: (Text.cut '#' tail).1, (Text.cut '#' tail).2) := rfl
  have hbare : bare host ≠ [] := by
    cases hhost with
    | name hne hopen => rwa [bare_of_head hopen]
    | literal hne => rwa [bare_literal]
  have hlast := Text.cutLast_append_cons (t := raw) (hauthority '@' (by decide))
  have hcut : Text.cut '/' (host ++ ':' :: port) = (host ++ ':' :: port, none) := Text.cut_of_not_mem (hauthority '/' (by decide))
  simp only [splitRest, htext, Text.cut_append (hfront '#' (by decide)), hquery, Text.cut_append_cons (hfront '?' (by decide)),
    splitCredential, hlast, ok_bind, decode_eq_ok.mpr hdecode, withoutPath, hcut,
    splitAuthority_plain (hport.not_mem (by decide)) _ hhost, refuseIf_neg hbare, hport.readPort, Int.toNat_natCast, Option.getD_some]
  rfl

/-- A plain credential is read as it is. -/
theorem splitRest_plain (hcredential : PlainCredential credential) (hhost : PlainHost host) :
    splitRest scheme (afterScheme credential host port tail) = (do
      let name ← decode (scheme ++ "://…".toList) ((Text.cut '#' tail).2.getD []) "the #fragment"
      let params ← ((Text.cut '#' tail).1.splitOn '&').foldlM (addParam (located scheme (bare host) number)) []
      return ⟨scheme, located scheme (bare host) number, credential, bare host, number, params, label name⟩) := by
  have hraw : ∀ c ∈ credential, c ∉ ['#', '?'] := fun c hc hmem => (hcredential.plain c hc).2 (List.mem_cons_of_mem _ hmem)
  have hplain : Percent.decodeComponent credential = some credential := by
    refine Percent.decodeComponent_plain fun c hc => ?_
    obtain ⟨hascii, hmarks⟩ := hcredential.plain c hc
    exact ⟨hascii, fun heq => hmarks (heq ▸ List.mem_cons_self ..)⟩
  rw [splitRest_read hport scheme tail hraw hplain hhost, refuseIf_neg hcredential.ne]
  rfl

omit hport in
/-- What the reader has taken for the credential and the host, before it looks at the query. -/
theorem splitRest_eq_ok {rest : Text} {parts : ShareUriParts} (h : splitRest scheme rest = .ok parts) :
    ∃ rawCredential authority authority' portText,
      Text.cutLast '@' (Text.cut '?' (Text.cut '#' rest).1).1 = some (rawCredential, authority) ∧
      Percent.decodeComponent rawCredential = some parts.credential ∧ parts.credential ≠ [] ∧
      withoutPath (scheme ++ "://…".toList) authority = .ok authority' ∧
      splitAuthority (scheme ++ "://…".toList) authority' = .ok (parts.host, portText) ∧ parts.host ≠ [] ∧
      Dart.intTryParse portText ≠ none := by
  simp only [splitRest, Except.bind_eq_ok, refuseIf_eq_ok, decode_eq_ok, Except.pure_eq_ok] at h
  obtain ⟨name, -, ⟨rawCredential, authority⟩, hcut, credential', hcredential, -, hne, authority', hpath, ⟨host', portText⟩,
    hauthority, -, hhost, n, hn, params, -, rfl⟩ := h
  refine ⟨rawCredential, authority, authority', portText, ?_, hcredential, hne, hpath, hauthority, hhost, ?_⟩
  · unfold splitCredential at hcut
    split at hcut
    · rename_i cut heq
      rw [heq, Except.ok.inj hcut]
    · nomatch hcut
  · intro hnone
    rw [readPort, hnone] at hn
    nomatch hn

omit hport in
/-- What is in front of a path is what is in front of its slash. -/
theorem withoutPath_eq_ok {w authority authority' : Text} (h : withoutPath w authority = .ok authority') :
    authority' = (Text.cut '/' authority).1 := by
  unfold withoutPath at h
  split at h
  · rename_i a heq
    rw [heq, Except.ok.inj h]
  · rename_i a heq
    rw [heq, Except.ok.inj h]
  · nomatch h

omit hport in
/-- The host is part of what it was read from. -/
theorem mem_of_splitAuthority {w authority host portText : Text} (h : splitAuthority w authority = .ok (host, portText)) {c : Char}
    (hc : c ∈ host) : c ∈ authority := by
  unfold splitAuthority at h
  split at h
  · rename_i literal
    split at h
    · nomatch h
    · rename_i hcut
      obtain ⟨rfl, rfl⟩ := Prod.mk.inj (Except.ok.inj h)
      have hmem := (Text.cut_fst_prefix ']' literal).subset (by rw [hcut]; exact hc)
      exact List.mem_cons_of_mem _ hmem
    · nomatch h
  · split at h
    · rename_i hcut _
      split at h
      · nomatch h
      · obtain ⟨rfl, rfl⟩ := Prod.mk.inj (Except.ok.inj h)
        exact (Text.cut_fst_prefix ':' authority).subset (by rw [hcut]; exact hc)
    · nomatch h

/-- A link that is read with its own credential and its own host has a plain credential and a plain host. -/
theorem plain_of_splitRest {parts : ShareUriParts} (h : splitRest scheme (afterScheme credential host port tail) = .ok parts)
    (hcredential : parts.credential = credential) (hhost : parts.host = bare host) :
    PlainCredential credential ∧ PlainHost host := by
  obtain ⟨rawCredential, authority, authority', portText, hcut, hdecode, hne, hpath, hauthority, hhne, hnumber⟩ :=
    splitRest_eq_ok scheme h
  rw [hcredential] at hdecode hne
  rw [hhost] at hauthority hhne
  obtain ⟨hfront, hat⟩ := Text.cutLast_eq_some.mp hcut
  have hslash := withoutPath_eq_ok hpath
  -- the host was read from a part without any of the marks
  have hmarks : ∀ c ∈ host, c ∉ ['#', '?', '@', '/'] := by
    intro c hc hmark
    have hopen : c ≠ '[' := by rintro rfl; exact absurd hmark (by decide)
    have hclose : c ≠ ']' := by rintro rfl; exact absurd hmark (by decide)
    have hread : c ∈ authority' := mem_of_splitAuthority hauthority (mem_bare hopen hclose hc)
    have hpart : c ∈ authority := (Text.cut_fst_prefix '/' authority).subset (hslash ▸ hread)
    have hbefore : c ∈ (Text.cut '?' (Text.cut '#' (afterScheme credential host port tail)).1).1 := by
      rw [hfront]
      exact List.mem_append_right _ (List.mem_cons_of_mem _ hpart)
    simp only [List.mem_cons, List.not_mem_nil, or_false] at hmark
    rcases hmark with rfl | rfl | rfl | rfl
    · exact Text.not_mem_cut ((Text.cut_fst_prefix '?' _).subset hbefore)
    · exact Text.not_mem_cut hbefore
    · exact hat hpart
    · rw [hslash] at hread
      exact Text.not_mem_cut hread
  have hlength := (Percent.length_decodeComponent hdecode).1
  have hshort : rawCredential.length < (Text.cut '?' (Text.cut '#' (afterScheme credential host port tail)).1).1.length := by
    rw [hfront, List.length_append, List.length_cons]
    omega
  -- a mark in the credential would have cut it short
  have hhash : '#' ∉ credential := by
    intro hmem
    have hle := (Text.cut_fst_prefix '?' (Text.cut '#' (afterScheme credential host port tail)).1).length_le
    rw [afterScheme, Text.cut_append_of_mem hmem] at hle hshort
    have hlt := Text.length_cut_lt hmem
    omega
  have hcuthash : (Text.cut '#' (afterScheme credential host port tail)).1 =
      credential ++ (Text.cut '#' ('@' :: (host ++ ':' :: (port ++ '?' :: tail)))).1 := by
    rw [afterScheme, Text.cut_append hhash]
  have hquestion : '?' ∉ credential := by
    intro hmem
    rw [hcuthash, Text.cut_append_of_mem hmem] at hshort
    have hlt := Text.length_cut_lt hmem
    omega
  have hbehind : ∀ c ∈ ['#', '?'], c ∉ '@' :: (host ++ ':' :: port) := by
    intro c hc hmem
    have hmark : c ∈ ['#', '?', '@', '/'] := List.mem_append_left ['@', '/'] hc
    rcases List.mem_cons.mp hmem with rfl | hmem
    · exact absurd hc (by decide)
    · rcases List.mem_append.mp hmem with hmem | hmem
      · exact hmarks c hmem hmark
      · rcases List.mem_cons.mp hmem with rfl | hmem
        · exact absurd hmark (by decide)
        · exact hport.marks c hmem (List.mem_append_left [':'] hmark)
  have hread : (Text.cut '?' (Text.cut '#' (afterScheme credential host port tail)).1).1 =
      credential ++ '@' :: (host ++ ':' :: port) := by
    have htext : '@' :: (host ++ ':' :: (port ++ '?' :: tail)) = ('@' :: (host ++ ':' :: port)) ++ '?' :: tail := by simp
    have hquery : (Text.cut '#' ('?' :: tail)).1 = '?' :: (Text.cut '#' tail).1 := rfl
    rw [hcuthash, htext, Text.cut_append (hbehind '#' (by decide)), hquery, Text.cut_append hquestion,
      Text.cut_append_cons (hbehind '?' (by decide))]
  have hatport : '@' ∉ host ++ ':' :: port := by
    intro hmem
    rcases List.mem_append.mp hmem with hmem | hmem
    · exact hmarks _ hmem (by decide)
    · exact hport.not_mem (by decide) ((List.mem_cons.mp hmem).resolve_left (by decide))
  rw [hread, Text.cutLast_append_cons hatport] at hcut
  obtain ⟨rfl, rfl⟩ := Prod.mk.inj (Option.some_inj.mp hcut)
  have hnoslash : '/' ∉ host ++ ':' :: port := by
    intro hmem
    rcases List.mem_append.mp hmem with hmem | hmem
    · exact hmarks _ hmem (by decide)
    · exact hport.not_mem (by decide) ((List.mem_cons.mp hmem).resolve_left (by decide))
  rw [Text.cut_of_not_mem hnoslash] at hslash
  rw [hslash] at hauthority
  refine ⟨⟨hne, fun c hc => ?_⟩, plainHost_of_splitAuthority (hport.not_mem (by decide)) _ hmarks hhne hnumber hauthority⟩
  obtain ⟨hascii, hpercent⟩ := Percent.decodeComponent_self.mp hdecode c hc
  refine ⟨hascii, fun hmark => ?_⟩
  simp only [List.mem_cons, List.not_mem_nil, or_false] at hmark
  rcases hmark with rfl | rfl | rfl
  · exact hpercent rfl
  · exact hhash hc
  · exact hquestion hc

end Rest

/-! ## The query -/

/-- A parameter: its key and its value, each as the link has it and as it is read. -/
structure Param where
  rawKey : Text
  key : Text
  raw : Text
  value : Text

namespace Param

def text (p : Param) : Text := p.rawKey ++ '=' :: p.raw

def pair (p : Param) : Text × Text := (p.key, p.value)

/-- A parameter that is read as it is meant. -/
structure Reads (p : Param) : Prop where
  rawKey_ne : p.rawKey ≠ []
  rawKey_marks : ∀ c ∈ p.rawKey, c ∉ ['=', '&', '#']
  key : Percent.decodeComponent p.rawKey = some p.key
  raw_marks : ∀ c ∈ p.raw, c ∉ ['&', '#']
  value : Percent.decodeComponent p.raw = some p.value

/-- One that is written as it is meant. -/
def plain (key value : Text) : Param := ⟨key, key, value, value⟩

/-- A key without marks and escapes reads as itself. -/
theorem reads_key {key : Text} (hkey : ∀ c ∈ key, c.toNat ≤ 127 ∧ c ∉ ['%', '=', '&', '#']) :
    (∀ c ∈ key, c ∉ ['=', '&', '#']) ∧ Percent.decodeComponent key = some key :=
  ⟨fun c hc hmem => (hkey c hc).2 (List.mem_cons_of_mem _ hmem),
    Percent.decodeComponent_plain fun c hc => ⟨(hkey c hc).1, fun heq => (hkey c hc).2 (heq ▸ List.mem_cons_self ..)⟩⟩

/-- A parameter without marks and escapes reads as itself. -/
theorem reads_plain {key value : Text} (hne : key ≠ []) (hkey : ∀ c ∈ key, c.toNat ≤ 127 ∧ c ∉ ['%', '=', '&', '#'])
    (hvalue : ∀ c ∈ value, c.toNat ≤ 127 ∧ c ∉ ['%', '&', '#']) : Reads (plain key value) where
  rawKey_ne := hne
  rawKey_marks := (reads_key hkey).1
  key := (reads_key hkey).2
  raw_marks c hc hmem := (hvalue c hc).2 (List.mem_cons_of_mem _ hmem)
  value := Percent.decodeComponent_plain fun c hc => ⟨(hvalue c hc).1, fun heq => (hvalue c hc).2 (heq ▸ List.mem_cons_self ..)⟩

/-- A parameter that is read has nothing in it that separates parameters. -/
theorem Reads.marks {p : Param} (h : p.Reads) : ∀ c ∈ ['&', '#'], c ∉ p.text := by
  intro c hc hmem
  rcases List.mem_append.mp hmem with hmem | hmem
  · exact h.rawKey_marks c hmem (List.mem_cons_of_mem _ hc)
  · rcases List.mem_cons.mp hmem with rfl | hmem
    · exact absurd hc (by decide)
    · exact h.raw_marks c hmem hc

/-- It is added to what was read before, unless its key is there. -/
theorem Reads.addParam_eq {p : Param} (h : p.Reads) (params : List (Text × Text)) (w : Text) :
    addParam w params p.text = if (params.lookup p.key).isSome then
      refuse w ("the parameter `".toList ++ p.key ++ "` appears more than once".toList) else .ok (params ++ [p.pair]) := by
  have heq : '=' ∉ p.rawKey := fun hmem => h.rawKey_marks _ hmem (by decide)
  obtain ⟨c, cs, hcons⟩ := List.exists_cons_of_ne_nil h.rawKey_ne
  have hcut : Text.cut '=' p.text = (c :: cs, some p.raw) := by rw [text, Text.cut_append_cons heq, hcons]
  have hne : p.text ≠ [] := List.append_ne_nil_of_left_ne_nil h.rawKey_ne _
  have hkey := h.key
  rw [hcons] at hkey
  simp only [addParam, if_neg hne, hcut, decode_eq_ok.mpr hkey, decode_eq_ok.mpr h.value, ok_bind]
  rfl

/-- A parameter with a new name is added to those before it. -/
theorem Reads.addParam {p : Param} (h : p.Reads) {params : List (Text × Text)} (hnew : p.key ∉ params.map (·.1)) (w : Text) :
    addParam w params p.text = .ok (params ++ [p.pair]) := by
  have hnone : params.lookup p.key = none := by
    rw [List.lookup_eq_none_iff]
    intro q hq
    exact bne_iff_ne.mpr fun heq => hnew (List.mem_map.mpr ⟨q, hq, heq.symm⟩)
  rw [h.addParam_eq, hnone]
  rfl

/-- A query of such parameters is read as their values, in order. -/
theorem addParams {ps : List Param} (h : ∀ p ∈ ps, p.Reads) (w : Text) {params : List (Text × Text)}
    (hnodup : (params.map (·.1) ++ ps.map key).Nodup) :
    (ps.map text).foldlM (ShareUri.addParam w) params = .ok (params ++ ps.map pair) := by
  induction ps generalizing params with
  | nil => rw [List.map_nil, List.foldlM_nil, List.map_nil, List.append_nil]; rfl
  | cons p ps ih =>
    have hnew : p.key ∉ params.map (·.1) := by
      intro hmem
      exact (List.nodup_append.mp hnodup).2.2 _ hmem _ (List.mem_cons_self ..) rfl
    have hrest : ((params ++ [p.pair]).map (·.1) ++ ps.map key).Nodup := by
      rw [List.map_append, List.append_assoc]
      exact hnodup
    rw [List.map_cons, List.foldlM_cons, (h p (List.mem_cons_self ..)).addParam hnew, ok_bind,
      ih (fun q hq => h q (List.mem_cons_of_mem _ hq)) hrest, List.map_cons, List.append_assoc, List.singleton_append]

/-- Whatever was read of a query, it is the values of its parameters. -/
theorem addParams_eq_ok {ps : List Param} (h : ∀ p ∈ ps, p.Reads) {w : Text} {params params' : List (Text × Text)}
    (hok : (ps.map text).foldlM (ShareUri.addParam w) params = .ok params') : params' = params ++ ps.map pair := by
  induction ps generalizing params with
  | nil => rw [List.map_nil, List.append_nil, Except.ok.inj hok]
  | cons p ps ih =>
    rw [List.map_cons, List.foldlM_cons, Except.bind_eq_ok] at hok
    obtain ⟨params₁, hfirst, hrest⟩ := hok
    rw [(h p (List.mem_cons_self ..)).addParam_eq] at hfirst
    split at hfirst
    · exact absurd hfirst refuse_ne_ok
    · obtain rfl := Except.ok.inj hfirst
      rw [ih (fun q hq => h q (List.mem_cons_of_mem _ hq)) hrest, List.map_cons, List.append_assoc, List.singleton_append]

/-- Parameters are only added. -/
theorem addParam_prefix {w pair : Text} {params params' : List (Text × Text)} (h : ShareUri.addParam w params pair = .ok params') :
    ∃ more, params' = params ++ more := by
  unfold ShareUri.addParam at h
  split at h
  · exact ⟨[], by rw [List.append_nil, Except.ok.inj h]⟩
  · split at h
    · simp only [Except.bind_eq_ok] at h
      obtain ⟨key, -, value, -, h⟩ := h
      split at h
      · nomatch h
      · exact ⟨_, (Except.ok.inj h).symm⟩
    · nomatch h

/-- The query of a link that has these parameters. -/
def query (ps : List Param) : Text := ['&'].intercalate (ps.map text)

/-- The query ends at the number sign behind it. -/
theorem cut_query {ps : List Param} (h : ∀ p ∈ ps, p.Reads) (fragment : Text) :
    Text.cut '#' (query ps ++ '#' :: fragment) = (query ps, some fragment) := by
  refine Text.cut_append_cons fun hmem => ?_
  rcases Text.eq_or_mem_of_mem_intercalate hmem with heq | ⟨t, ht, hmem⟩
  · exact absurd heq (by decide)
  · obtain ⟨p, hp, rfl⟩ := List.mem_map.mp ht
    exact (h p hp).marks _ (by decide) hmem

/-- The query is split into its parameters. -/
theorem splitOn_query {ps : List Param} (h : ∀ p ∈ ps, p.Reads) (hne : ps ≠ []) : (query ps).splitOn '&' = ps.map text := by
  refine List.splitOn_intercalate '&' (fun t ht => ?_) (fun hnil => hne (List.map_eq_nil_iff.mp hnil))
  obtain ⟨p, hp, rfl⟩ := List.mem_map.mp ht
  exact (h p hp).marks _ (by decide)

end Param

/-- Reading the rest of a query only adds to what was read. -/
theorem addParams_prefix {w : Text} {pairs : List Text} {params params' : List (Text × Text)}
    (h : pairs.foldlM (addParam w) params = .ok params') : ∃ more, params' = params ++ more := by
  induction pairs generalizing params with
  | nil => exact ⟨[], by rw [List.append_nil, Except.ok.inj h]⟩
  | cons pair pairs ih =>
    rw [List.foldlM_cons, Except.bind_eq_ok] at h
    obtain ⟨params₁, hpair, hrest⟩ := h
    obtain ⟨more₁, rfl⟩ := Param.addParam_prefix hpair
    obtain ⟨more₂, rfl⟩ := ih hrest
    exact ⟨more₁ ++ more₂, List.append_assoc ..⟩

/-! ## Names -/

/-- A byte order mark in front of a name is lost, and nothing else. -/
theorem label_unmarked {name : Text} : label (Percent.unmarked name) = label name ↔ name.head? ≠ some '\uFEFF' := by
  rw [← Percent.unmarked_eq_self]
  refine ⟨fun heq => ?_, fun heq => by rw [heq]⟩
  unfold label at heq
  split at heq
  · rename_i hnil
    split at heq
    · rename_i hname
      rw [hnil, hname]
    · nomatch heq
  · split at heq
    · nomatch heq
    · exact Option.some_inj.mp heq

section Link

variable {credential host port : Text} {number : Nat} (hport : PortText port number) {ps : List Param}

include hport

/-- A whole link: with a plain credential and a plain host, and parameters that are read as they are meant. -/
theorem splitRest_link (hcredential : PlainCredential credential) (hhost : PlainHost host) (scheme : Text) (hps : ∀ p ∈ ps, p.Reads)
    (hne : ps ≠ []) (hnodup : (ps.map Param.key).Nodup) (name : Text) :
    splitRest scheme (afterScheme credential host port (Param.query ps ++ '#' :: Percent.quote name)) =
      .ok ⟨scheme, located scheme (bare host) number, credential, bare host, number, ps.map Param.pair, label (Percent.unmarked name)⟩ := by
  have hname : decode (scheme ++ "://…".toList) (Percent.quote name) "the #fragment" = .ok (Percent.unmarked name) :=
    decode_eq_ok.mpr (Percent.decodeComponent_quote name)
  rw [splitRest_plain hport scheme _ hcredential hhost, Param.cut_query hps, Option.getD_some, hname, ok_bind,
    Param.splitOn_query hps hne, Param.addParams hps _ (by simpa using hnodup), ok_bind, List.nil_append]
  rfl

end Link

/-- A text with a fragment that is quoted ends in no white space. -/
theorem trim_quoted {safe : Nat → Bool} (hsafe : ∀ n, safe n = true → Percent.isSafe n = true) {t : Text}
    (hfirst : ∀ c ∈ (t ++ ['#']).head?, Dart.isSpace c = false) (name : Text) :
    Dart.trim (t ++ '#' :: Percent.quoteWith safe name) = t ++ '#' :: Percent.quoteWith safe name := by
  have hspace : ∀ n < 128, Percent.isSafe n = true → Dart.isSpace (Char.ofNat n) = false := by decide
  have hdigit : ∀ n < 16, Dart.isSpace (Percent.hexDigit n) = false := by decide
  refine Dart.trim_eq_self (fun d hd => ?_) fun d hd => ?_
  · refine hfirst d ?_
    cases t with
    | nil => exact hd
    | cons c t => exact hd
  · have hlast : d ∈ ('#' :: Percent.quoteWith safe name).getLast? := by
      rw [List.getLast?_append] at hd
      have hsome : ('#' :: Percent.quoteWith safe name).getLast? ≠ none := by simp
      obtain ⟨e, he⟩ := Option.ne_none_iff_exists'.mp hsome
      rw [he] at hd ⊢
      exact hd
    rcases List.mem_cons.mp (List.mem_of_getLast? hlast) with rfl | hmem
    · decide
    · rcases Percent.mem_quoteWith hsafe hmem with rfl | h | ⟨n, hn, rfl⟩
      · decide
      · have hn := hsafe _ h
        have hd := hspace d.toNat (Nat.lt_succ_of_le (Percent.isSafe_ascii hn).1) hn
        rwa [Char.ofNat_toNat] at hd
      · exact hdigit n hn

/-- A link begins and ends with what is no white space. -/
theorem trim_link {c : Char} (hc : Dart.isSpace c = false) (t name : Text) :
    Dart.trim (c :: (t ++ '#' :: Percent.quote name)) = c :: (t ++ '#' :: Percent.quote name) :=
  trim_quoted (t := c :: t) (fun _ h => h) (fun _ hd => Option.some_inj.mp hd ▸ hc) name

/-! ## What is percent-encoded -/

/-- The numeral of a port that is written as a number. -/
theorem portText_toDigits {port : Nat} (h : 1 ≤ port ∧ port ≤ 65535) : PortText (Nat.toDigits 10 port) port where
  parsed := Dart.intTryParse_toDigits (by omega)
  range := h
  marks c hc hmark := by
    have hdigit : c.isDigit = true := Nat.isDigit_of_mem_toDigits (by decide) (by decide) hc
    simp only [List.mem_cons, List.not_mem_nil, or_false] at hmark
    rcases hmark with rfl | rfl | rfl | rfl | rfl <;> exact absurd hdigit (by decide)

/-- A character that separates the parts of a URI is in no component. -/
theorem not_mem_encodeComponent {t : Text} {c : Char} (hc : c ∈ ['#', '?', '@', '/', ':', '=', '&']) :
    c ∉ Percent.encodeComponent t := by
  have hmarks : ∀ c ∈ ['#', '?', '@', '/', ':', '=', '&'], c ≠ '%' ∧ Percent.isUnreserved c.toNat = false := by decide
  intro hmem
  rcases Percent.mem_encodeComponent hmem with heq | hsafe
  · exact (hmarks c hc).1 heq
  · rw [(hmarks c hc).2] at hsafe
    nomatch hsafe

/-- A parameter with both its parts encoded. -/
def encoded (p : Text × Text) : Param :=
  ⟨Percent.encodeComponent p.1, Percent.unmarked p.1, Percent.encodeComponent p.2, Percent.unmarked p.2⟩

/-- An encoded parameter is read, whatever is in it. -/
theorem encoded_reads {params : List (Text × Text)} (h : ∀ p ∈ params, p.1 ≠ []) : ∀ q ∈ params.map encoded, q.Reads := by
  intro q hq
  obtain ⟨p, hp, rfl⟩ := List.mem_map.mp hq
  have hmarks : ∀ {t : Text} {marks : List Char}, marks ⊆ ['#', '?', '@', '/', ':', '=', '&'] →
      ∀ c ∈ Percent.encodeComponent t, c ∉ marks :=
    fun hsub c hc hmark => not_mem_encodeComponent (hsub hmark) hc
  exact ⟨fun hnil => h p hp (Percent.quoteWith_eq_nil.mp hnil), hmarks (by decide), Percent.decodeComponent_encodeComponent _,
    hmarks (by decide), Percent.decodeComponent_encodeComponent _⟩

/-- A URI with every part that may hold anything encoded. -/
def encodedUri (scheme credential host : Text) (port : Nat) (params : List (Text × Text)) (name : Text) : Text :=
  scheme ++ "://".toList ++ afterScheme (Percent.encodeComponent credential) host (Nat.toDigits 10 port)
    (Param.query (params.map encoded) ++ '#' :: Percent.encodeComponent name)

section Encoded

variable {scheme credential host : Text} {port : Nat} {params : List (Text × Text)} {name : Text}

/-- The text is split where its scheme can be found. -/
theorem splitShareUri_encodedUri (hscheme : ∀ c ∈ scheme.head?, Dart.isSpace c = false) :
    splitShareUri (encodedUri scheme credential host port params name) scheme =
      splitRest scheme (afterScheme (Percent.encodeComponent credential) host (Nat.toDigits 10 port)
        (Param.query (params.map encoded) ++ '#' :: Percent.encodeComponent name)) := by
  have htrim : Dart.trim (encodedUri scheme credential host port params name) = encodedUri scheme credential host port params name := by
    have htext : encodedUri scheme credential host port params name =
        (scheme ++ ("://".toList ++ (Percent.encodeComponent credential ++ '@' :: (host ++ ':' :: (Nat.toDigits 10 port ++
          '?' :: Param.query (params.map encoded)))))) ++ '#' :: Percent.quoteWith Percent.isUnreserved name := by
      simp only [encodedUri, afterScheme, List.append_assoc, List.cons_append]
      rfl
    rw [htext]
    refine trim_quoted (fun _ h => Percent.isSafe_of_isUnreserved h) (fun c hc => ?_) name
    cases scheme with
    | nil =>
      obtain rfl := Option.some_inj.mp hc
      decide
    | cons d rest => exact hscheme c hc
  have hbegins : scheme ++ "://".toList <+: encodedUri scheme credential host port params name := List.prefix_append ..
  simp only [splitShareUri, htrim, if_pos hbegins]
  rw [encodedUri, List.drop_left]

/-- A query that is empty has no parameter, as one that is split has its pieces. -/
theorem query_pieces (hkeys : ∀ p ∈ params, p.1 ≠ []) (w : Text) :
    ((Param.query (params.map encoded)).splitOn '&').foldlM (addParam w) [] =
      ((params.map encoded).map Param.text).foldlM (addParam w) [] := by
  cases params with
  | nil => rfl
  | cons p rest => rw [Param.splitOn_query (encoded_reads hkeys) (List.cons_ne_nil _ _)]

/-- What is encoded is decoded once, wherever it stands. -/
theorem splitRest_encoded (hhost : PlainHost host) (hport : 1 ≤ port ∧ port ≤ 65535) (hkeys : ∀ p ∈ params, p.1 ≠ []) :
    splitRest scheme (afterScheme (Percent.encodeComponent credential) host (Nat.toDigits 10 port)
      (Param.query (params.map encoded) ++ '#' :: Percent.encodeComponent name)) = (do
      refuseIf (Percent.unmarked credential = []) (scheme ++ "://…".toList) "the credential before @ is empty"
      let read ← ((params.map encoded).map Param.text).foldlM (addParam (located scheme (bare host) port)) []
      return ⟨scheme, located scheme (bare host) port, Percent.unmarked credential, bare host, port, read,
        label (Percent.unmarked name)⟩) := by
  have hraw : ∀ c ∈ Percent.encodeComponent credential, c ∉ ['#', '?'] := fun c hc hmem =>
    not_mem_encodeComponent (List.mem_append_left ['@', '/', ':', '=', '&'] hmem) hc
  have hname : decode (scheme ++ "://…".toList) (Percent.encodeComponent name) "the #fragment" = .ok (Percent.unmarked name) :=
    decode_eq_ok.mpr (Percent.decodeComponent_encodeComponent name)
  rw [splitRest_read (portText_toDigits hport) scheme _ hraw (Percent.decodeComponent_encodeComponent credential) hhost,
    Param.cut_query (encoded_reads hkeys), Option.getD_some, hname, ok_bind, query_pieces hkeys]

/-- Encoded parameters are read back without the byte order marks in front. -/
theorem map_encoded_pair (params : List (Text × Text)) :
    (params.map encoded).map Param.pair = params.map fun p => (Percent.unmarked p.1, Percent.unmarked p.2) := by
  rw [List.map_map]
  rfl

/-- A URI whose parts are encoded is split into exactly these parts, whatever they hold, when its scheme begins with no white space and
no part begins with a byte order mark; and only then. -/
theorem splitShareUri_encoded (scheme credential host : Text) (port : Nat) (params : List (Text × Text)) (name : Text)
    (hcredential : credential ≠ []) (hhost : PlainHost host) (hport : 1 ≤ port ∧ port ≤ 65535) (hkeys : ∀ p ∈ params, p.1 ≠ [])
    (hnodup : (params.map (·.1)).Nodup) :
    (∃ where_, splitShareUri (encodedUri scheme credential host port params name) scheme =
      .ok ⟨scheme, where_, credential, bare host, port, params, label name⟩) ↔
    (∀ c ∈ scheme.head?, Dart.isSpace c = false) ∧ credential.head? ≠ some '\uFEFF' ∧ name.head? ≠ some '\uFEFF' ∧
      ∀ p ∈ params, p.1.head? ≠ some '\uFEFF' ∧ p.2.head? ≠ some '\uFEFF' := by
  constructor
  · rintro ⟨where_, hok⟩
    have hscheme : ∀ c ∈ scheme.head?, Dart.isSpace c = false := by
      intro c hc
      simp only [splitShareUri] at hok
      split at hok
      · rename_i hbegins
        obtain ⟨rest, hrest⟩ := hbegins
        obtain ⟨s, rfl⟩ := List.head?_eq_some_iff.mp hc
        refine Dart.isSpace_of_head_trim (t := encodedUri (c :: s) credential host port params name) ?_
        rw [← hrest]
        rfl
      · exact absurd hok refuse_ne_ok
    rw [splitShareUri_encodedUri hscheme, splitRest_encoded hhost hport hkeys] at hok
    simp only [Except.bind_eq_ok, Except.pure_eq_ok] at hok
    obtain ⟨-, -, read, hread, heq⟩ := hok
    obtain ⟨-, -, hsame, -, -, hparams, hname⟩ := ShareUriParts.mk.inj heq
    refine ⟨hscheme, Percent.unmarked_eq_self.mp hsame, label_unmarked.mp hname, fun p hp => ?_⟩
    have hpairs := Param.addParams_eq_ok (encoded_reads hkeys) hread
    rw [List.nil_append, map_encoded_pair, hparams] at hpairs
    have hpair : p = (Percent.unmarked p.1, Percent.unmarked p.2) := List.map_inj_left.mp ((List.map_id _).trans hpairs) p hp
    exact ⟨Percent.unmarked_eq_self.mp (congrArg Prod.fst hpair).symm, Percent.unmarked_eq_self.mp (congrArg Prod.snd hpair).symm⟩
  · rintro ⟨hscheme, hmark, hname, hparams⟩
    have hsame : params.map (fun p => (Percent.unmarked p.1, Percent.unmarked p.2)) = params := by
      refine List.map_congr_left (g := id) (fun p hp => ?_) |>.trans (List.map_id _)
      rw [Percent.unmarked_eq_self.mpr (hparams p hp).1, Percent.unmarked_eq_self.mpr (hparams p hp).2]
      rfl
    have hdistinct : (([] : List (Text × Text)).map (·.1) ++ (params.map encoded).map Param.key).Nodup := by
      have hkeysSame : (params.map encoded).map Param.key = params.map (·.1) := by
        rw [List.map_map]
        exact List.map_congr_left fun p hp => Percent.unmarked_eq_self.mpr (hparams p hp).1
      rwa [hkeysSame]
    refine ⟨located scheme (bare host) port, ?_⟩
    rw [splitShareUri_encodedUri hscheme, splitRest_encoded hhost hport hkeys, Percent.unmarked_eq_self.mpr hmark,
      refuseIf_neg hcredential, ok_bind, Param.addParams (encoded_reads hkeys) _ hdistinct, ok_bind, List.nil_append,
      map_encoded_pair, hsame, label_unmarked.mpr hname]
    rfl

end Encoded

/-- A URI with a space, an ampersand and a hash in its parts, for an address in brackets. -/
theorem splitShareUri_encoded_sample : ∃ where_, splitShareUri (encodedUri "vless" "a@b/c" "[2001:db8::1]" 443 [("k&", "v="), ("e", "")]
    "my phone #2") "vless" =
      .ok ⟨"vless", where_, "a@b/c", bare "[2001:db8::1]", 443, [("k&", "v="), ("e", "")], label "my phone #2"⟩ := by
  have hhost : PlainHost "[2001:db8::1]".toList := @PlainHost.literal "2001:db8::1".toList (by decide) (by decide)
  exact (splitShareUri_encoded "vless" "a@b/c" "[2001:db8::1]" 443 [("k&", "v="), ("e", "")] "my phone #2" (by decide) hhost
    (by decide) (by decide) (by decide)).mpr ⟨by decide, by decide, by decide, by decide⟩

/-- A credential that begins with a byte order mark is read without it. -/
theorem splitShareUri_encoded_mark : ¬ ∃ where_, splitShareUri (encodedUri "vless" "\uFEFFpw" "vpn.example.org" 443 [] "alice") "vless" =
    .ok ⟨"vless", where_, "\uFEFFpw", bare "vpn.example.org", 443, [], label "alice"⟩ := by
  have hhost : PlainHost "vpn.example.org".toList := .name (by decide) (by decide) (by decide)
  rintro ⟨where_, hok⟩
  rw [splitShareUri_encodedUri (by decide), splitRest_encoded hhost (by decide) (fun _ hp => absurd hp List.not_mem_nil)] at hok
  simp only [Except.bind_eq_ok, Except.pure_eq_ok] at hok
  obtain ⟨-, -, read, -, heq⟩ := hok
  have hsame := (ShareUriParts.mk.inj heq).2.2.1
  exact absurd hsame (by decide)

end ShareUri

end VpnStack

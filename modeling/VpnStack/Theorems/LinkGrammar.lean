import VpnStack.Theorems.ShareLinks

/-!
# The grammar of a share link

What `parseShareUri` accepts, against the grammar a share link is written in. An escape is a percent sign and two hexadecimal digits,
wherever it stands, and what a piece spells is UTF-8. Each function of the reader is told by what it returns on, so that the reader as
a whole accepts the links whose pieces it reads; no link has two readings. The two part in the spelling of the scheme and the numeral
of the port, over characters beyond ASCII, over the escapes of the host, which nothing decodes, and over a byte order mark in front of a
piece, which the decoder drops.
-/

namespace VpnStack

namespace ShareUri

/-! ## Links as they are written -/

/-- A separator and what is behind it, where it stands. -/
def behind (sep : Char) : Option Text → Text
  | none => []
  | some t => sep :: t

/-- The pieces of a link, as they are written. -/
structure Link where
  scheme : Text
  userinfo : Text
  host : Text
  port : Text
  slash : Bool
  query : Option Text
  name : Option Text
  deriving DecidableEq, Repr

/-- What follows `<scheme>://`. -/
def Link.rest (l : Link) : Text :=
  l.userinfo ++ '@' :: (l.host ++ ':' :: l.port ++ (if l.slash then ['/'] else [])) ++ behind '?' l.query ++ behind '#' l.name

def Link.text (l : Link) : Text := l.scheme ++ "://".toList ++ l.rest

/-- No piece has in it what ends it. A literal stands in brackets, and nothing else has a colon in it. -/
structure Link.Marked (l : Link) : Prop where
  userinfo : ∀ c ∈ l.userinfo, c ∉ ['#', '?']
  host : PlainHost l.host
  port : ∀ c ∈ l.port, c ∉ ['#', '?', '@', '/']
  query : ∀ q ∈ l.query, '#' ∉ q

/-- The parameters of a query: every segment that is not empty is one, none has the name of another, and they read as these. -/
def ReadsQuery (query : Text) (params : List (Text × Text)) : Prop :=
  ∃ ps : List Param, (query.splitOn '&').filter (· ≠ []) = ps.map Param.text ∧ (∀ p ∈ ps, p.Reads) ∧
    (ps.map Param.key).Nodup ∧ params = ps.map Param.pair

/-- The parameters of a `vless://` link. -/
structure VlessParams (params : List (Text × Text)) : Prop where
  known : ∀ p ∈ params, p.1 ∈ ["encryption", "flow", "security", "sni", "fp", "pbk", "sid", "type", "headerType"].map String.toList
  encryption : params.lookup "encryption".toList = some "none".toList
  type : params.lookup "type".toList = some "tcp".toList
  headerType : ∀ v, params.lookup "headerType".toList = some v → v = "none".toList
  security : params.lookup "security".toList = some "reality".toList
  flow : params.lookup "flow".toList = some "xtls-rprx-vision".toList
  sni : ∃ v, params.lookup "sni".toList = some v ∧ v ≠ []
  fp : ∃ v ∈ fingerprints.map String.toList, params.lookup "fp".toList = some v
  pbk : ∃ v, params.lookup "pbk".toList = some v ∧ Dart.length v = 43 ∧ ∀ n ∈ Dart.codeUnits v, isBase64Url n
  sid : ∃ v, params.lookup "sid".toList = some v ∧ ShortId v

/-- The parameters of a `hysteria2://` link. -/
structure Hysteria2Params (params : List (Text × Text)) : Prop where
  known : ∀ p ∈ params, p.1 ∈ ["obfs", "obfs-password", "sni", "pinSHA256", "spki"].map String.toList
  sni : ∃ v, params.lookup "sni".toList = some v ∧ v ≠ []
  obfs : ∀ v, params.lookup "obfs".toList = some v →
    v = "salamander".toList ∧ ∃ password, params.lookup "obfs-password".toList = some password ∧ password ≠ []
  noObfs : params.lookup "obfs".toList = none → params.lookup "obfs-password".toList = none

/-- The parameters a scheme asks for. -/
def SchemeParams (scheme : Text) (params : List (Text × Text)) : Prop :=
  scheme = "vless".toList ∧ VlessParams params ∨ scheme = "hysteria2".toList ∧ Hysteria2Params params

/-- One to five decimal digits with a value between 1 and 65535. -/
def DigitPort (port : Text) : Prop :=
  1 ≤ port.length ∧ port.length ≤ 5 ∧ (∀ c ∈ port, c.isDigit = true) ∧ 1 ≤ Nat.ofDigitChars 10 port 0 ∧
    Nat.ofDigitChars 10 port 0 ≤ 65535

/-- What `int.tryParse` reads as a number between 1 and 65535. -/
def ReadablePort (port : Text) : Prop := ∃ n : Int, Dart.intTryParse port = some n ∧ 1 ≤ n ∧ n ≤ 65535

/-- A parameter of the grammar: it has a name, nothing in it separates parameters, and this is what it spells. -/
structure Param.Spelled (p : Param) : Prop where
  rawKey_ne : p.rawKey ≠ []
  rawKey_marks : ∀ c ∈ p.rawKey, c ∉ ['=', '&', '#']
  key : Percent.Spells p.rawKey p.key
  raw_marks : ∀ c ∈ p.raw, c ∉ ['&', '#']
  value : Percent.Spells p.raw p.value

/-- The parameters of a query: every segment that is not empty is one. -/
structure Segments (query : Text) (ps : List Param) : Prop where
  pieces : (query.splitOn '&').filter (· ≠ []) = ps.map Param.text
  spelled : ∀ p ∈ ps, p.Spelled

/-- A link of the grammar, but for the spelling of its port: its scheme is known in any letter case, its escapes are well-formed, no
name is repeated, and it has the parameters of its scheme. -/
structure Link.Sound (l : Link) : Prop where
  marked : l.Marked
  userinfo : l.userinfo ≠ []
  credential : ∃ t, Percent.Spells l.userinfo t
  host : ∃ t, Percent.Spells l.host t
  name : ∀ n ∈ l.name, ∃ t, Percent.Spells n t
  params : ∃ ps, Segments (l.query.getD []) ps ∧ (ps.map Param.key).Nodup ∧
    SchemeParams (l.scheme.map Char.toLower) (ps.map Param.pair)

/-- The grammar of a share link. -/
def Grammar (s : Text) : Prop := ∃ l : Link, Dart.trim s = l.text ∧ l.Sound ∧ DigitPort l.port

/-! ## Links as they are read -/

/-- The scheme is in lower case. -/
def Link.Lower (l : Link) : Prop := l.scheme = "vless".toList ∨ l.scheme = "hysteria2".toList

/-- What is decoded is ASCII. -/
structure Link.Ascii (l : Link) : Prop where
  userinfo : ∀ c ∈ l.userinfo, c.toNat ≤ 127
  query : ∀ q ∈ l.query, ∀ c ∈ q, c.toNat ≤ 127
  name : ∀ n ∈ l.name, ∀ c ∈ n, c.toNat ≤ 127

/-- What may not be empty is not an encoded byte order mark alone. -/
structure Link.Full (l : Link) : Prop where
  credential : ¬ Percent.Spells l.userinfo ['\uFEFF']
  params : ∀ ps, Segments (l.query.getD []) ps → ∀ p ∈ ps, p.key ∈ ["sni", "obfs-password"].map String.toList → p.value ≠ ['\uFEFF']

/-- The names of the parameters whose values are free. -/
def freeNames : List Text := ["sni", "obfs-password", "pinSHA256", "spki"].map String.toList

/-- The host has well-formed escapes, and neither a name nor a value that is not free begins with an encoded byte order mark. -/
structure Link.Faithful (l : Link) : Prop where
  host : ∃ t, Percent.Spells l.host t
  params : ∀ ps, Segments (l.query.getD []) ps → ∀ p ∈ ps,
    p.key.head? ≠ some '\uFEFF' ∧ (p.key ∉ freeNames → p.value.head? ≠ some '\uFEFF')

/-- A parameter as it is read: without the byte order marks in front. -/
def Param.readPair (p : Param) : Text × Text := (Percent.unmarked p.key, Percent.unmarked p.value)

/-- A link the reader has no objection to: in lower case and ASCII, with the parameters of its scheme once the byte order marks are
dropped, a credential that is not empty without its own, any host, and a port that `int.tryParse` reads. -/
structure Link.Read (l : Link) : Prop where
  marked : l.Marked
  ascii : l.Ascii
  credential : ∃ t, Percent.Spells l.userinfo t ∧ Percent.unmarked t ≠ []
  name : ∀ n ∈ l.name, ∃ t, Percent.Spells n t
  params : ∃ ps, Segments (l.query.getD []) ps ∧ (ps.map fun p => p.readPair.1).Nodup ∧ SchemeParams l.scheme (ps.map Param.readPair)
  port : ReadablePort l.port

/-! ## One reading -/

/-- A text is cut at the separator that was put behind its first piece. -/
theorem cut_behind {sep : Char} {t : Text} (h : sep ∉ t) (o : Option Text) : Text.cut sep (t ++ behind sep o) = (t, o) := by
  cases o with
  | none => rw [behind, List.append_nil, Text.cut_of_not_mem h]
  | some rest => exact Text.cut_append_cons h

/-- A text is what is in front of the first separator, and what is behind it. -/
theorem eq_behind {sep : Char} (t : Text) : ∃ a o, t = a ++ behind sep o ∧ sep ∉ a := by
  rcases Text.cut_cases sep t with ⟨h, -⟩ | ⟨a, b, heq, h, -⟩
  · exact ⟨t, none, (List.append_nil t).symm, h⟩
  · exact ⟨a, some b, heq, h⟩

/-- Where the separator is not in the first piece, the pieces are told by the text. -/
theorem append_behind_inj {sep : Char} {s t : Text} {o p : Option Text} (hs : sep ∉ s) (ht : sep ∉ t)
    (h : s ++ behind sep o = t ++ behind sep p) : s = t ∧ o = p := by
  have hcut := congrArg (Text.cut sep) h
  rw [cut_behind hs, cut_behind ht] at hcut
  exact Prod.mk.inj hcut

/-- Where the separator is not in the first piece, both pieces are told by the text. -/
theorem append_cons_inj {sep : Char} {s t a b : Text} (hs : sep ∉ s) (ht : sep ∉ t) (h : s ++ sep :: a = t ++ sep :: b) :
    s = t ∧ a = b := by
  obtain ⟨hst, hab⟩ := append_behind_inj (o := some a) (p := some b) hs ht h
  exact ⟨hst, Option.some_inj.mp hab⟩

/-- A plain host ends where the colon in front of the port stands. -/
theorem host_inj {h h' p p' : Text} (hh : PlainHost h) (hh' : PlainHost h') (heq : h ++ ':' :: p = h' ++ ':' :: p') :
    h = h' ∧ p = p' := by
  cases hh with
  | name hne hopen hmarks =>
    cases hh' with
    | name hne' hopen' hmarks' =>
      exact append_cons_inj (fun hmem => hmarks _ hmem (by decide)) (fun hmem => hmarks' _ hmem (by decide)) heq
    | literal hne' hmarks' =>
      obtain ⟨c, t, rfl⟩ := List.exists_cons_of_ne_nil hne
      exact absurd (congrArg some (List.cons.inj heq).1) hopen
  | @literal inner hne hmarks =>
    cases hh' with
    | name hne' hopen' hmarks' =>
      obtain ⟨c, t, rfl⟩ := List.exists_cons_of_ne_nil hne'
      exact absurd (congrArg some (List.cons.inj heq).1.symm) hopen'
    | @literal inner' hne' hmarks' =>
      have heq : inner ++ ']' :: (':' :: p) = inner' ++ ']' :: (':' :: p') := by simpa using heq
      obtain ⟨rfl, hp⟩ := append_cons_inj (fun hmem => hmarks _ hmem (by decide)) (fun hmem => hmarks' _ hmem (by decide)) heq
      exact ⟨rfl, (List.cons.inj hp).2⟩

/-- A slash at the end is told from what has none in it. -/
theorem slash_inj {a a' : Text} {s s' : Bool} (ha : '/' ∉ a) (ha' : '/' ∉ a')
    (h : a ++ (if s then ['/'] else []) = a' ++ (if s' then ['/'] else [])) : a = a' ∧ s = s' := by
  have hbehind : ∀ s : Bool, (if s then ['/'] else []) = behind '/' (if s then some [] else none) := by decide
  rw [hbehind, hbehind] at h
  obtain ⟨haa, hs⟩ := append_behind_inj ha ha' h
  refine ⟨haa, ?_⟩
  cases s <;> cases s' <;> simp_all

section Marked

variable {l l' : Link}

/-- The host and the port have none of the marks of a link in them. -/
theorem Link.Marked.not_mem_authority (h : l.Marked) {c : Char} (hc : c ∈ ['#', '?', '@']) :
    c ∉ l.host ++ ':' :: l.port ++ (if l.slash then ['/'] else []) := by
  have hmarks : c ∈ ['#', '?', '@', '/'] := List.mem_append_left ['/'] hc
  have hother : c ≠ ':' ∧ c ≠ '/' := by
    constructor
    · rintro rfl
      exact absurd hc (by decide)
    · rintro rfl
      exact absurd hc (by decide)
  simp only [List.mem_append, List.mem_cons, not_or]
  refine ⟨⟨fun hmem => h.host.marks c hmem hmarks, hother.1, fun hmem => h.port c hmem hmarks⟩, ?_⟩
  cases l.slash with
  | false => exact List.not_mem_nil
  | true => exact fun hmem => hother.2 (List.mem_singleton.mp hmem)

/-- The host and the port have no slash in them. -/
theorem Link.Marked.slash_not_mem (h : l.Marked) : '/' ∉ l.host ++ ':' :: l.port := by
  simp only [List.mem_append, List.mem_cons, not_or]
  exact ⟨fun hmem => h.host.marks _ hmem (by decide), by decide, fun hmem => h.port _ hmem (by decide)⟩

/-- What is in front of the query and the fragment has neither's mark. -/
theorem Link.Marked.not_mem_front (h : l.Marked) {c : Char} (hc : c ∈ ['#', '?']) :
    c ∉ l.userinfo ++ '@' :: (l.host ++ ':' :: l.port ++ (if l.slash then ['/'] else [])) := by
  have hne : c ≠ '@' := by
    rintro rfl
    exact absurd hc (by decide)
  rw [List.mem_append, List.mem_cons, not_or, not_or]
  exact ⟨fun hmem => h.userinfo c hmem hc, hne, h.not_mem_authority (List.mem_append_left ['@'] hc)⟩

/-- No number sign is in front of the name. -/
theorem Link.Marked.hash_not_mem (h : l.Marked) :
    '#' ∉ l.userinfo ++ '@' :: (l.host ++ ':' :: l.port ++ (if l.slash then ['/'] else [])) ++ behind '?' l.query := by
  rw [List.mem_append, not_or]
  refine ⟨h.not_mem_front (by decide), ?_⟩
  cases hq : l.query with
  | none => exact List.not_mem_nil
  | some q =>
    rw [behind, List.mem_cons, not_or]
    exact ⟨by decide, h.query q hq⟩

/-- What follows the scheme has one reading. -/
theorem Link.rest_inj (h : l.Marked) (h' : l'.Marked) (heq : l.rest = l'.rest) :
    { l with scheme := l'.scheme } = l' := by
  obtain ⟨hfront, hname⟩ := append_behind_inj h.hash_not_mem h'.hash_not_mem heq
  obtain ⟨hauth, hquery⟩ := append_behind_inj (h.not_mem_front (by decide)) (h'.not_mem_front (by decide)) hfront
  have hlast : Text.cutLast '@' (l.userinfo ++ '@' :: (l.host ++ ':' :: l.port ++ (if l.slash then ['/'] else []))) =
      some (l'.userinfo, l'.host ++ ':' :: l'.port ++ (if l'.slash then ['/'] else [])) := by
    rw [hauth]
    exact Text.cutLast_append_cons (h'.not_mem_authority (by decide))
  rw [Text.cutLast_append_cons (h.not_mem_authority (by decide)), Option.some_inj, Prod.mk.injEq] at hlast
  obtain ⟨huser, hauthority⟩ := hlast
  obtain ⟨hhostport, hslash⟩ := slash_inj h.slash_not_mem h'.slash_not_mem hauthority
  obtain ⟨hhost, hport⟩ := host_inj h.host h'.host hhostport
  cases l
  cases l'
  simp only [Link.mk.injEq, true_and]
  exact ⟨huser, hhost, hport, hslash, hquery, hname⟩

/-- A link has one reading. -/
theorem Link.text_inj (h : l.Marked) (h' : l'.Marked) (hs : ':' ∉ l.scheme) (hs' : ':' ∉ l'.scheme) (heq : l.text = l'.text) :
    l = l' := by
  have heq : l.scheme ++ ':' :: ("//".toList ++ l.rest) = l'.scheme ++ ':' :: ("//".toList ++ l'.rest) := by
    simpa [Link.text] using heq
  obtain ⟨hscheme, hrest⟩ := append_cons_inj hs hs' heq
  have hlink := Link.rest_inj h h' (List.append_cancel_left hrest)
  rw [← hscheme] at hlink
  exact hlink

end Marked

/-! ## The stages of the reader -/

/-- A path of a slash alone is dropped, and any other is refused. -/
theorem withoutPath_iff {w a a' : Text} :
    withoutPath w a = .ok a' ↔ '/' ∉ a' ∧ ∃ slash : Bool, a = a' ++ (if slash then ['/'] else []) := by
  constructor
  · intro h
    obtain rfl := withoutPath_eq_ok h
    refine ⟨Text.not_mem_cut, ?_⟩
    rcases Text.cut_cases '/' a with ⟨-, hcut⟩ | ⟨b, c, heq, -, hcut⟩
    · exact ⟨false, by rw [hcut]; exact (List.append_nil a).symm⟩
    · rw [withoutPath, hcut] at h
      cases c with
      | nil => exact ⟨true, by rw [hcut]; exact heq⟩
      | cons d c => cases h
  · rintro ⟨hfree, slash, rfl⟩
    unfold withoutPath
    cases slash with
    | false => rw [if_neg Bool.false_ne_true, List.append_nil, Text.cut_of_not_mem hfree]
    | true => rw [if_pos rfl, Text.cut_append_cons hfree]

/-- The authority is a plain host and what is behind its colon. -/
theorem splitAuthority_eq_ok {w a h p : Text} (hmarks : ∀ c ∈ a, c ∉ ['#', '?', '@', '/']) (hne : h ≠ [])
    (hok : splitAuthority w a = .ok (h, p)) : ∃ host, PlainHost host ∧ a = host ++ ':' :: p := by
  unfold splitAuthority at hok
  split at hok
  · rename_i literal
    split at hok
    · nomatch hok
    · rename_i inner portText hcut
      obtain ⟨rfl, rfl⟩ := Prod.mk.inj (Except.ok.inj hok)
      rcases Text.cut_cases ']' literal with ⟨-, hnone⟩ | ⟨b, c, rfl, hb, hsome⟩
      · rw [hnone] at hcut
        nomatch (Prod.mk.inj hcut).2
      · rw [hsome] at hcut
        obtain ⟨rfl, hc⟩ := Prod.mk.inj hcut
        obtain rfl := Option.some_inj.mp hc
        refine ⟨'[' :: (b ++ [']']), .literal hne fun c hc hmem => ?_, by simp⟩
        rcases List.mem_append.mp (show c ∈ ['#', '?', '@', '/'] ++ [']'] from hmem) with hmem | hmem
        · exact hmarks c (List.mem_cons_of_mem _ (List.mem_append_left _ hc)) hmem
        · exact hb (List.mem_singleton.mp hmem ▸ hc)
    · nomatch hok
  · rename_i hopen
    split at hok
    · rename_i b c d e hcut hlast
      split at hok
      · nomatch hok
      · obtain ⟨rfl, rfl⟩ := Prod.mk.inj (Except.ok.inj hok)
        rcases Text.cut_cases ':' a with ⟨-, hnone⟩ | ⟨b', c', heq, hb, hsome⟩
        · rw [hnone] at hcut
          nomatch (Prod.mk.inj hcut).2
        · rw [hsome] at hcut
          obtain ⟨rfl, hc⟩ := Prod.mk.inj hcut
          obtain rfl := Option.some_inj.mp hc
          refine ⟨b', .name hne ?_ fun c hc hmem => ?_, heq⟩
          · intro hhead
            obtain ⟨t, rfl⟩ := List.head?_eq_some_iff.mp hhead
            exact hopen _ (by rw [heq]; rfl)
          · rcases List.mem_append.mp (show c ∈ ['#', '?', '@', '/'] ++ [':'] from hmem) with hmem | hmem
            · exact hmarks c (heq ▸ List.mem_append_left _ hc) hmem
            · exact hb (List.mem_singleton.mp hmem ▸ hc)
    · nomatch hok

/-- A port is what `int.tryParse` reads as a number between 1 and 65535. -/
theorem readPort_iff {w p : Text} {n : Int} : readPort w p = .ok n ↔ Dart.intTryParse p = some n ∧ 1 ≤ n ∧ n ≤ 65535 := by
  unfold readPort
  cases hread : Dart.intTryParse p with
  | none => exact ⟨fun h => absurd h refuse_ne_ok, fun h => nomatch h.1⟩
  | some m =>
    dsimp only
    constructor
    · intro h
      split at h
      · exact absurd h refuse_ne_ok
      · rename_i hrange
        obtain rfl := Except.ok.inj h
        exact ⟨rfl, by omega, by omega⟩
    · rintro ⟨h, hlow, hhigh⟩
      obtain rfl := Option.some_inj.mp h
      exact if_neg (by omega)

/-- A segment of a query: it is empty, or a parameter whose name was not there. -/
theorem addParam_eq_ok {w pair : Text} {params params' : List (Text × Text)} (hmarks : ∀ c ∈ pair, c ∉ ['&', '#'])
    (h : addParam w params pair = .ok params') (hne : pair ≠ []) :
    ∃ p : Param, pair = p.text ∧ p.Reads ∧ p.key ∉ params.map (·.1) ∧ params' = params ++ [p.pair] := by
  rw [addParam, if_neg hne] at h
  split at h
  · rename_i c cs raw hcut
    simp only [Except.bind_eq_ok, decode_eq_ok] at h
    obtain ⟨key, hkey, value, hvalue, h⟩ := h
    split at h
    · exact absurd h refuse_ne_ok
    · rename_i hnew
      rcases Text.cut_cases '=' pair with ⟨-, hnone⟩ | ⟨a, b, rfl, ha, hsome⟩
      · rw [hnone] at hcut
        cases (Prod.mk.inj hcut).2
      · rw [hsome] at hcut
        obtain ⟨rfl, hb⟩ := Prod.mk.inj hcut
        obtain rfl := Option.some_inj.mp hb
        refine ⟨⟨c :: cs, key, b, value⟩, rfl, ⟨List.cons_ne_nil _ _, fun d hd hmem => ?_, hkey, fun d hd => ?_, hvalue⟩, ?_,
          (Except.ok.inj h).symm⟩
        · rcases List.mem_cons.mp hmem with rfl | hmem
          · exact ha hd
          · exact hmarks d (List.mem_append_left _ hd) hmem
        · exact hmarks d (List.mem_append_right _ (List.mem_cons_of_mem _ hd))
        · rw [List.mem_map]
          rintro ⟨q, hq, heq⟩
          refine hnew (Option.isSome_iff_ne_none.mpr fun hnone => ?_)
          exact bne_iff_ne.mp (List.lookup_eq_none_iff.mp hnone q hq) heq.symm
  · exact absurd h refuse_ne_ok

/-- Segments are read exactly when those that are not empty are parameters, no name among them twice or read before. -/
theorem addParams_iff {w : Text} {pieces : List Text} (hmarks : ∀ pair ∈ pieces, ∀ c ∈ pair, c ∉ ['&', '#'])
    {params params' : List (Text × Text)} :
    pieces.foldlM (addParam w) params = .ok params' ↔ ∃ ps : List Param, pieces.filter (· ≠ []) = ps.map Param.text ∧
      (∀ p ∈ ps, p.Reads) ∧ (∀ p ∈ ps, p.key ∉ params.map (·.1)) ∧ (ps.map Param.key).Nodup ∧ params' = params ++ ps.map Param.pair := by
  induction pieces generalizing params with
  | nil =>
    constructor
    · intro h
      exact ⟨[], rfl, nofun, nofun, List.nodup_nil, by rw [List.map_nil, List.append_nil, Except.ok.inj h]⟩
    · rintro ⟨ps, hps, -, -, -, rfl⟩
      rw [List.map_eq_nil_iff.mp hps.symm, List.map_nil, List.append_nil]
      rfl
  | cons pair pieces ih =>
    replace ih := @ih fun q hq => hmarks q (List.mem_cons_of_mem _ hq)
    by_cases hne : pair = []
    · subst hne
      have hskip : addParam w params [] = .ok params := if_pos rfl
      rw [List.foldlM_cons, hskip, ok_bind, ih, List.filter_cons_of_neg (by simp)]
    · rw [List.foldlM_cons, List.filter_cons_of_pos (by simpa using hne)]
      constructor
      · intro h
        obtain ⟨params₁, hfirst, hrest⟩ := Except.bind_eq_ok.mp h
        obtain ⟨p, rfl, hp, hnew, rfl⟩ := addParam_eq_ok (hmarks pair (List.mem_cons_self ..)) hfirst hne
        obtain ⟨ps, hps, hreads, hfresh, hnodup, rfl⟩ := ih.mp hrest
        refine ⟨p :: ps, by rw [hps, List.map_cons], List.forall_mem_cons.mpr ⟨hp, hreads⟩,
          List.forall_mem_cons.mpr ⟨hnew, fun q hq hmem => hfresh q hq ?_⟩, List.nodup_cons.mpr ⟨fun hmem => ?_, hnodup⟩, ?_⟩
        · rw [List.map_append]
          exact List.mem_append_left _ hmem
        · obtain ⟨q, hq, hkey⟩ := List.mem_map.mp hmem
          refine hfresh q hq ?_
          rw [hkey, List.map_append]
          exact List.mem_append_right _ (List.mem_singleton.mpr rfl)
        · rw [List.map_cons, List.append_assoc, List.singleton_append]
      · rintro ⟨ps, hps, hreads, hfresh, hnodup, rfl⟩
        obtain ⟨p, ps, rfl, rfl, hrest⟩ := List.map_eq_cons_iff.mp hps.symm
        obtain ⟨hp, hreads⟩ := List.forall_mem_cons.mp hreads
        obtain ⟨hnew, hfresh⟩ := List.forall_mem_cons.mp hfresh
        obtain ⟨hnot, hnodup⟩ := List.nodup_cons.mp hnodup
        refine Except.bind_eq_ok.mpr ⟨_, hp.addParam hnew w, ih.mpr ⟨ps, hrest.symm, hreads, fun q hq hmem => ?_, hnodup, ?_⟩⟩
        · rw [List.map_append] at hmem
          rcases List.mem_append.mp hmem with hmem | hmem
          · exact hfresh q hq hmem
          · exact hnot (List.mem_map.mpr ⟨q, hq, List.mem_singleton.mp hmem⟩)
        · rw [List.map_cons, List.append_assoc, List.singleton_append]

/-- A query is read exactly as the parameters of its segments. -/
theorem query_iff {w q : Text} (hq : '#' ∉ q) {params : List (Text × Text)} :
    (q.splitOn '&').foldlM (addParam w) [] = .ok params ↔ ReadsQuery q params := by
  have hmarks : ∀ pair ∈ q.splitOn '&', ∀ c ∈ pair, c ∉ ['&', '#'] := by
    intro pair hpair c hc hmem
    rcases List.mem_cons.mp hmem with rfl | hmem
    · rw [List.splitOn_eq_splitOnP] at hpair
      exact absurd (Text.sep_of_mem_splitOnP hpair _ hc) (by decide)
    · obtain rfl := List.mem_singleton.mp hmem
      exact hq (@List.intercalate_splitOn _ q _ _ '&' ▸ Text.mem_intercalate hpair hc)
  rw [addParams_iff hmarks]
  constructor
  · rintro ⟨ps, hps, hreads, -, hnodup, rfl⟩
    exact ⟨ps, hps, hreads, hnodup, List.nil_append _⟩
  · rintro ⟨ps, hps, hreads, hnodup, rfl⟩
    exact ⟨ps, hps, hreads, fun _ _ => List.not_mem_nil, hnodup, (List.nil_append _).symm⟩

/-! ## The two protocols -/

section Outbounds

variable {parts : ShareUriParts}

/-- A required parameter is there, is not empty, and is one of some values. -/
theorem requireOneOf_eq_ok {key : String} {purpose v : Text} {allowed : List String} :
    parts.requireOneOf key purpose allowed = .ok v ↔
      parts.params.lookup key.toList = some v ∧ v ≠ [] ∧ v ∈ allowed.map String.toList := by
  simp only [ShareUriParts.requireOneOf, Except.bind_eq_ok, require_eq_ok, refuseIf_eq_ok, not_not, Except.pure_eq_ok]
  constructor
  · rintro ⟨u, ⟨hlookup, hne⟩, -, hmem, rfl⟩
    exact ⟨hlookup, hne, hmem⟩
  · rintro ⟨hlookup, hne, hmem⟩
    exact ⟨v, ⟨hlookup, hne⟩, (), hmem, rfl⟩

/-- A parameter that may have only one value. -/
theorem requireOneOf_single {key value : String} {purpose v : Text} (hne : value.toList ≠ []) :
    parts.requireOneOf key purpose [value] = .ok v ↔ v = value.toList ∧ parts.params.lookup key.toList = some value.toList := by
  rw [requireOneOf_eq_ok, List.map_cons, List.map_nil, List.mem_singleton]
  constructor
  · rintro ⟨hlookup, -, rfl⟩
    exact ⟨rfl, hlookup⟩
  · rintro ⟨rfl, hlookup⟩
    exact ⟨hlookup, hne, rfl⟩

/-- Nothing is rejected exactly where every parameter is known. -/
theorem rejectUnknownParameters_eq_ok {known : List String} {u : Unit} :
    parts.rejectUnknownParameters known = .ok u ↔ ∀ p ∈ parts.params, p.1 ∈ known.map String.toList := by
  have hsort : ∀ ts : List Text, Dart.sort ts = [] ↔ ts = [] := fun ts => by
    rw [← List.length_eq_zero_iff, Dart.sort, List.length_insertionSort, List.length_eq_zero_iff]
  simp only [ShareUriParts.rejectUnknownParameters, refuseIf_eq_ok, not_not, hsort, List.filter_eq_nil_iff, List.mem_map,
    decide_eq_true_eq]
  refine ⟨fun h p hp => h p.1 ⟨p, hp, rfl⟩, ?_⟩
  rintro h k ⟨p, hp, rfl⟩
  exact h p hp

/-- A header type is `none`, if there is one. -/
theorem checkHeaderType_eq_ok {u : Unit} :
    checkHeaderType parts = .ok u ↔ ∀ v, parts.params.lookup "headerType".toList = some v → v = "none".toList := by
  unfold checkHeaderType
  split
  · rename_i headerType hlookup
    rw [refuseIf_eq_ok, not_not, hlookup]
    exact ⟨fun h v hv => Option.some_inj.mp hv ▸ h, fun h => h _ rfl⟩
  · rename_i hlookup
    rw [hlookup]
    exact ⟨fun _ _ => nofun, fun _ => rfl⟩

/-- A public key is forty-three digits of the Base64 of URLs. -/
theorem checkPublicKey_eq_ok {value : Text} {u : Unit} :
    checkPublicKey parts value = .ok u ↔ Dart.length value = 43 ∧ ∀ n ∈ Dart.codeUnits value, isBase64Url n := by
  simp only [checkPublicKey, Except.bind_eq_ok, refuseIf_eq_ok, not_not]
  exact ⟨fun h => h.choose_spec, fun h => ⟨(), h⟩⟩

/-- The obfuscation comes with its password, and is the one there is. -/
theorem checkObfs_eq_ok {u : Unit} :
    checkObfs parts = .ok u ↔
      (∀ v, parts.params.lookup "obfs".toList = some v →
        v = "salamander".toList ∧ ∃ password, parts.params.lookup "obfs-password".toList = some password ∧ password ≠ []) ∧
      (parts.params.lookup "obfs".toList = none → parts.params.lookup "obfs-password".toList = none) := by
  unfold checkObfs
  dsimp only
  split
  · rename_i type hlookup
    simp only [Except.bind_eq_ok, refuseIf_eq_ok, not_not, hlookup, reduceCtorEq, false_imp_iff, and_true]
    constructor
    · rintro ⟨-, rfl, hne⟩ v hv
      obtain rfl := Option.some_inj.mp hv
      cases hpassword : parts.params.lookup "obfs-password".toList with
      | none =>
        rw [hpassword] at hne
        exact absurd rfl hne
      | some password =>
        rw [hpassword] at hne
        exact ⟨rfl, password, rfl, hne⟩
    · intro h
      obtain ⟨rfl, password, hpassword, hne⟩ := h type rfl
      exact ⟨(), rfl, by rw [hpassword]; exact hne⟩
  · rename_i hlookup
    rw [refuseIf_eq_ok, hlookup, Option.isSome_iff_ne_none, not_not]
    exact ⟨fun h => ⟨fun v hv => absurd hv (by simp), fun _ => h⟩, fun h => h.2 rfl⟩

/-- A `vless://` link makes an outbound exactly when its parameters are those of the grammar. -/
theorem vless_accepts {tag : Text} : (∃ out, vlessRealityOutbound tag parts = .ok out) ↔ VlessParams parts.params := by
  simp only [vlessRealityOutbound, Except.bind_eq_ok, rejectUnknownParameters_eq_ok, checkHeaderType_eq_ok, require_eq_ok,
    refuseIf_eq_ok, checkPublicKey_eq_ok, checkShortId_eq_ok, not_not, Except.pure_eq_ok]
  constructor
  · rintro ⟨out, -, hknown, _, hencryption, _, htype, -, hheader, _, hsecurity, _, hflow, sni, hsni, fp, ⟨hfp, -⟩, -, hprints,
      pbk, ⟨hpbk, -⟩, -, hkey, sid, ⟨hsid, hne⟩, -, ⟨hlen, hhex⟩, -⟩
    exact ⟨hknown, ((requireOneOf_single (by decide)).mp hencryption).2, ((requireOneOf_single (by decide)).mp htype).2, hheader,
      ((requireOneOf_single (by decide)).mp hsecurity).2, ((requireOneOf_single (by decide)).mp hflow).2, ⟨sni, hsni⟩,
      ⟨fp, hprints, hfp⟩, ⟨pbk, hpbk, hkey⟩, ⟨sid, hsid, hne, hlen, hhex⟩⟩
  · intro h
    obtain ⟨sni, hsni⟩ := h.sni
    obtain ⟨fp, hprints, hfp⟩ := h.fp
    obtain ⟨pbk, hpbk, hkey⟩ := h.pbk
    obtain ⟨sid, hsid, hne, hlen, hhex⟩ := h.sid
    have hfpne : fp ≠ [] := by
      rintro rfl
      exact absurd hprints (by decide)
    have hpbkne : pbk ≠ [] := by
      rintro rfl
      exact absurd hkey.1 (by decide)
    exact ⟨_, (), h.known, _, (requireOneOf_single (by decide)).mpr ⟨rfl, h.encryption⟩, _,
      (requireOneOf_single (by decide)).mpr ⟨rfl, h.type⟩, (), h.headerType, _,
      (requireOneOf_single (by decide)).mpr ⟨rfl, h.security⟩, _, (requireOneOf_single (by decide)).mpr ⟨rfl, h.flow⟩, sni, hsni,
      fp, ⟨hfp, hfpne⟩, (), hprints, pbk, ⟨hpbk, hpbkne⟩, (), hkey, sid, ⟨hsid, hne⟩, (), ⟨hlen, hhex⟩, rfl⟩

/-- So does a `hysteria2://` link. -/
theorem hysteria2_accepts {trust : Hysteria2Trust} {tag : Text} :
    (∃ out, hysteria2Outbound trust tag parts = .ok out) ↔ Hysteria2Params parts.params := by
  simp only [hysteria2Outbound, Except.bind_eq_ok, rejectUnknownParameters_eq_ok, require_eq_ok, checkObfs_eq_ok,
    Except.pure_eq_ok]
  constructor
  · rintro ⟨out, -, hknown, sni, hsni, -, ⟨hobfs, hnone⟩, -⟩
    exact ⟨hknown, ⟨sni, hsni⟩, hobfs, hnone⟩
  · intro h
    obtain ⟨sni, hsni⟩ := h.sni
    exact ⟨_, (), h.known, sni, hsni, (), ⟨h.obfs, h.noObfs⟩, rfl⟩

end Outbounds

/-! ## The reader -/

/-- The credential ends at the last at sign. -/
theorem splitCredential_eq_ok {w scheme rest a b : Text} :
    splitCredential w scheme rest = .ok (a, b) ↔ rest = a ++ '@' :: b ∧ '@' ∉ b := by
  unfold splitCredential
  rw [← Text.cutLast_eq_some]
  cases Text.cutLast '@' rest with
  | none => exact ⟨fun h => absurd h refuse_ne_ok, nofun⟩
  | some cut => exact ⟨fun h => congrArg some (Except.ok.inj h), fun h => congrArg Except.ok (Option.some_inj.mp h)⟩

theorem bare_ne {host : Text} (h : PlainHost host) : bare host ≠ [] := by
  cases h with
  | name hne hopen => rwa [bare_of_head hopen]
  | literal hne => rwa [bare_literal]

/-- A name that is absent is decoded like an empty one. -/
theorem decodes_getD {o : Option Text} : (∀ n ∈ o, (Percent.decodeComponent n).isSome) ↔
    ∃ name, Percent.decodeComponent (o.getD []) = some name := by
  rw [← Option.isSome_iff_exists]
  cases o with
  | none => exact ⟨fun _ => rfl, fun _ _ => nofun⟩
  | some n => exact ⟨fun h => h n rfl, fun h m hm => Option.some_inj.mp hm ▸ h⟩

/-- What follows the scheme is read exactly when it is that of a link whose pieces are read. -/
theorem splitRest_iff {scheme rest : Text} {P : List (Text × Text) → Prop} :
    (∃ parts, splitRest scheme rest = .ok parts ∧ P parts.params) ↔
    ∃ l : Link, l.scheme = scheme ∧ rest = l.rest ∧ l.Marked ∧
      (∃ credential, Percent.decodeComponent l.userinfo = some credential ∧ credential ≠ []) ∧ ReadablePort l.port ∧
      (∀ n ∈ l.name, (Percent.decodeComponent n).isSome) ∧ ∃ params, ReadsQuery (l.query.getD []) params ∧ P params := by
  constructor
  · rintro ⟨parts, hok, hP⟩
    obtain ⟨front, o, rfl, hhash⟩ := @eq_behind '#' rest
    obtain ⟨front, q, rfl, hmark⟩ := @eq_behind '?' front
    rw [List.mem_append, not_or] at hhash
    simp only [splitRest, cut_behind (List.mem_append.not.mpr (not_or.mpr hhash)), cut_behind hmark, Except.bind_eq_ok,
      refuseIf_eq_ok, decode_eq_ok, Except.pure_eq_ok, readPort_iff] at hok
    obtain ⟨name, hname, ⟨userinfo, authority⟩, hcut, credential, hcredential, -, hne, authority', hpath, ⟨host', port⟩,
      hauthority, -, hhost, n, hn, params, hparams, rfl⟩ := hok
    obtain ⟨rfl, hat⟩ := splitCredential_eq_ok.mp hcut
    obtain ⟨hslash, slash, rfl⟩ := withoutPath_iff.mp hpath
    -- What is left for the host and the port has no mark of what was cut off before.
    have hfree : ∀ c ∈ authority', c ∉ ['#', '?', '@', '/'] := by
      intro c hc hmem
      have hfront : c ∈ userinfo ++ '@' :: (authority' ++ (if slash then ['/'] else [])) :=
        List.mem_append_right _ (List.mem_cons_of_mem _ (List.mem_append_left _ hc))
      simp only [List.mem_cons, List.not_mem_nil, or_false] at hmem
      rcases hmem with rfl | rfl | rfl | rfl
      · exact hhash.1 hfront
      · exact hmark hfront
      · exact hat (List.mem_append_left _ hc)
      · exact hslash hc
    obtain ⟨host, hplain, rfl⟩ := splitAuthority_eq_ok hfree hhost hauthority
    have hquery : ∀ q' ∈ q, '#' ∉ q' := by
      rintro q' hq'
      obtain rfl := Option.mem_def.mp hq'
      exact fun hmem => hhash.2 (List.mem_cons_of_mem _ hmem)
    refine ⟨⟨scheme, userinfo, host, port, slash, q, o⟩, rfl, rfl, ⟨fun c hc hmem => ?_, hplain, fun c hc => ?_, hquery⟩,
      ⟨credential, hcredential, hne⟩, ⟨n, hn⟩, decodes_getD.mpr ⟨name, hname⟩, params, ?_, hP⟩
    · simp only [List.mem_cons, List.not_mem_nil, or_false] at hmem
      rcases hmem with rfl | rfl
      · exact hhash.1 (List.mem_append_left _ hc)
      · exact hmark (List.mem_append_left _ hc)
    · exact hfree c (List.mem_append_right _ (List.mem_cons_of_mem _ hc))
    · refine (query_iff ?_).mp hparams
      cases q with
      | none => exact List.not_mem_nil
      | some q => exact hquery q rfl
  · rintro ⟨l, rfl, rfl, hmarked, ⟨credential, hcredential, hne⟩, ⟨n, hn, hrange⟩, hname, params, hquery, hP⟩
    obtain ⟨name, hname⟩ := decodes_getD.mp hname
    have hcolon : ':' ∉ l.port := fun hmem => by cases (Dart.intTryParse_eq_none hmem).symm.trans hn
    have hparams := fun w : Text => (query_iff (w := w) (q := l.query.getD []) (by
      cases hq : l.query with
      | none => exact List.not_mem_nil
      | some q => exact hmarked.query q hq)).mpr hquery
    have hmark := hmarked.not_mem_front (c := '?') (by decide)
    have hcut := fun w scheme : Text => (@splitCredential_eq_ok w scheme _ l.userinfo _).mpr
      ⟨rfl, hmarked.not_mem_authority (c := '@') (by decide)⟩
    have hpath := fun w : Text => (withoutPath_iff (w := w)).mpr ⟨hmarked.slash_not_mem, l.slash, rfl⟩
    simp only [splitRest, Link.rest, cut_behind hmarked.hash_not_mem, cut_behind hmark, decode_eq_ok.mpr hname, ok_bind, hcut,
      decode_eq_ok.mpr hcredential, refuseIf_neg hne, hpath, splitAuthority_plain hcolon _ hmarked.host,
      refuseIf_neg (bare_ne hmarked.host), readPort_iff.mpr ⟨hn, hrange⟩, hparams]
    exact ⟨_, rfl, hP⟩

/-- A reader that is given a text reads what is left of it behind the white space. -/
theorem parseShareUri_iff {cases : Dart.CaseMap} {s tag : Text} {trust : Hysteria2Trust} :
    (∃ out, parseShareUri cases s trust tag = .ok out) ↔
    ∃ scheme rest, Dart.trim s = scheme ++ "://".toList ++ rest ∧
      ∃ parts, splitRest scheme rest = .ok parts ∧ SchemeParams scheme parts.params := by
  constructor
  · rintro ⟨out, hok⟩
    -- The parser the dispatcher picked looks for the scheme it was written for.
    have hsplit : ∀ {scheme : Text} {parts : ShareUriParts}, splitShareUri s scheme = .ok parts →
        ∃ rest, Dart.trim s = scheme ++ "://".toList ++ rest ∧ splitRest scheme rest = .ok parts := by
      intro scheme parts h
      simp only [splitShareUri] at h
      split at h
      · rename_i hbegins
        obtain ⟨rest, hrest⟩ := hbegins
        rw [← hrest, List.drop_left] at h
        exact ⟨rest, hrest.symm, h⟩
      · exact absurd h refuse_ne_ok
    simp only [parseShareUri, parseVlessRealityUri, parseHysteria2Uri, Except.bind_eq_ok] at hok
    obtain ⟨scheme, -, hok⟩ := hok
    split at hok
    · simp only [Except.bind_eq_ok] at hok
      obtain ⟨out, ⟨parts, hparts, hout⟩, -⟩ := hok
      obtain ⟨rest, hrest, hparts⟩ := hsplit hparts
      exact ⟨_, rest, hrest, parts, hparts, .inl ⟨rfl, vless_accepts.mp ⟨out, hout⟩⟩⟩
    · split at hok
      · simp only [Except.bind_eq_ok] at hok
        obtain ⟨out, ⟨parts, hparts, hout⟩, -⟩ := hok
        obtain ⟨rest, hrest, hparts⟩ := hsplit hparts
        exact ⟨_, rest, hrest, parts, hparts, .inr ⟨rfl, hysteria2_accepts.mp ⟨out, hout⟩⟩⟩
      · exact absurd hok refuse_ne_ok
  · rintro ⟨scheme, rest, htrim, parts, hparts, hparams⟩
    have htext : parseShareUri cases s trust tag = parseShareUri cases (Dart.trim s) trust tag := by
      simp only [parseShareUri, shareUriScheme, parseVlessRealityUri, parseHysteria2Uri, splitShareUri, Dart.trim_trim]
    have hagain : Dart.trim (scheme ++ "://".toList ++ rest) = scheme ++ "://".toList ++ rest := by
      rw [← htrim, Dart.trim_trim]
    rw [htext, htrim]
    rcases hparams with ⟨rfl, hparams⟩ | ⟨rfl, hparams⟩
    · obtain ⟨out, hout⟩ := (@vless_accepts _ tag).mpr hparams
      change ∃ out, parseShareUri cases ("vless://".toList ++ rest) trust tag = _
      rw [parseShareUri_vless cases trust tag hagain, hparts, ok_bind, hout]
      exact ⟨_, rfl⟩
    · obtain ⟨out, hout⟩ := (@hysteria2_accepts _ trust tag).mpr hparams
      change ∃ out, parseShareUri cases ("hysteria2://".toList ++ rest) trust tag = _
      rw [parseShareUri_hysteria2 cases trust tag hagain, hparts, ok_bind, hout]
      exact ⟨_, rfl⟩

theorem Link.Lower.map {l : Link} (h : l.Lower) : l.scheme.map Char.toLower = l.scheme := by
  rcases h with h | h <;> rw [h] <;> decide

theorem SchemeParams.known {scheme : Text} {params : List (Text × Text)} (h : SchemeParams scheme params) :
    scheme = "vless".toList ∨ scheme = "hysteria2".toList := h.imp And.left And.left

/-- No scheme of the grammar has a colon in it. -/
theorem Link.Sound.colon_not_mem {l : Link} (h : l.Sound) : ':' ∉ l.scheme := by
  obtain ⟨ps, -, -, hparams⟩ := h.params
  intro hmem
  have hmap : Char.toLower ':' ∈ l.scheme.map Char.toLower := List.mem_map_of_mem hmem
  rcases hparams.known with heq | heq <;> rw [heq] at hmap <;> exact absurd hmap (by decide)

/-- Nor has one that is read. -/
theorem Link.Read.colon_not_mem {l : Link} (h : l.Read) : ':' ∉ l.scheme := by
  obtain ⟨ps, -, -, hparams⟩ := h.params
  rcases hparams.known with heq | heq <;> rw [heq] <;> decide

/-! ## The parameters, as they are spelled and as they are read -/

section Params

variable {ps qs : List Param} {query : Text}

/-- The pieces of a parameter are where its first equals sign puts them, and each spells one text. -/
theorem Param.text_inj {p q : Param} (hp : p.Spelled) (hq : q.Spelled) (h : p.text = q.text) : p = q := by
  obtain ⟨hraw, hvalue⟩ := append_cons_inj (fun hmem => hp.rawKey_marks _ hmem (by decide))
    (fun hmem => hq.rawKey_marks _ hmem (by decide)) h
  obtain ⟨rawKey, key, raw, value⟩ := p
  obtain ⟨rawKey', key', raw', value'⟩ := q
  dsimp only at hraw hvalue
  subst hraw hvalue
  obtain rfl : key = key' := hp.key.unique hq.key
  obtain rfl : value = value' := hp.value.unique hq.value
  rfl

/-- A query has its parameters in one way. -/
theorem Segments.unique (h : Segments query ps) (h' : Segments query qs) : ps = qs := by
  have htexts : ps.map Param.text = qs.map Param.text := h.pieces.symm.trans h'.pieces
  have hps := h.spelled
  have hqs := h'.spelled
  clear h h'
  induction ps generalizing qs with
  | nil => exact (List.map_eq_nil_iff.mp htexts.symm).symm
  | cons p ps ih =>
    cases qs with
    | nil => cases htexts
    | cons q qs =>
      obtain ⟨hp, hps⟩ := List.forall_mem_cons.mp hps
      obtain ⟨hq, hqs⟩ := List.forall_mem_cons.mp hqs
      obtain ⟨hhead, htail⟩ := List.cons.inj htexts
      rw [Param.text_inj hp hq hhead, ih htail hps hqs]

/-- What is read of a parameter is what it spells, if it is ASCII. -/
theorem Param.reads_iff {rawKey raw key value : Text} : Param.Reads ⟨rawKey, key, raw, value⟩ ↔
    (∀ c ∈ rawKey ++ '=' :: raw, c.toNat ≤ 127) ∧ ∃ p : Param, p.Spelled ∧ p.rawKey = rawKey ∧ p.raw = raw ∧ p.readPair = (key, value) := by
  constructor
  · rintro ⟨hne, hkmarks, hkey, hmarks, hvalue⟩
    obtain ⟨hkascii, key', hkspells, rfl⟩ := Percent.decodeComponent_iff.mp hkey
    obtain ⟨hvascii, value', hvspells, rfl⟩ := Percent.decodeComponent_iff.mp hvalue
    refine ⟨List.forall_mem_append.mpr ⟨hkascii, List.forall_mem_cons.mpr ⟨by decide, hvascii⟩⟩, ⟨rawKey, key', raw, value'⟩, ?_, rfl,
      rfl, rfl⟩
    exact ⟨hne, hkmarks, hkspells, hmarks, hvspells⟩
  · rintro ⟨hascii, ⟨rawKey', key', raw', value'⟩, ⟨hne, hkmarks, hkspells, hmarks, hvspells⟩, rfl, rfl, hpair⟩
    obtain ⟨hkascii, hvascii⟩ := List.forall_mem_append.mp hascii
    obtain ⟨rfl, rfl⟩ := Prod.mk.inj hpair
    exact ⟨hne, hkmarks, Percent.decodeComponent_iff.mpr ⟨hkascii, _, hkspells, rfl⟩, hmarks,
      Percent.decodeComponent_iff.mpr ⟨(List.forall_mem_cons.mp hvascii).2, _, hvspells, rfl⟩⟩

/-- So are those of a list of segments. -/
theorem reads_iff {pieces : List Text} {params : List (Text × Text)} :
    (∃ rs : List Param, pieces = rs.map Param.text ∧ (∀ r ∈ rs, r.Reads) ∧ params = rs.map Param.pair) ↔
    (∀ t ∈ pieces, ∀ c ∈ t, c.toNat ≤ 127) ∧
      ∃ ps : List Param, pieces = ps.map Param.text ∧ (∀ p ∈ ps, p.Spelled) ∧ params = ps.map Param.readPair := by
  constructor
  · rintro ⟨rs, rfl, hreads, rfl⟩
    induction rs with
    | nil => exact ⟨List.forall_mem_nil _, [], rfl, List.forall_mem_nil _, rfl⟩
    | cons r rs ih =>
      obtain ⟨hr, hreads⟩ := List.forall_mem_cons.mp hreads
      obtain ⟨hascii, p, hp, hraw, hvalue, hpair⟩ := Param.reads_iff.mp hr
      obtain ⟨hasciis, ps, htexts, hps, hpairs⟩ := ih hreads
      refine ⟨List.forall_mem_cons.mpr ⟨hascii, hasciis⟩, p :: ps, ?_, List.forall_mem_cons.mpr ⟨hp, hps⟩, ?_⟩
      · rw [List.map_cons, List.map_cons, htexts, Param.text, Param.text, hraw, hvalue]
      · rw [List.map_cons, List.map_cons, hpairs, hpair, Param.pair]
  · rintro ⟨hascii, ps, rfl, hspelled, rfl⟩
    induction ps with
    | nil => exact ⟨[], rfl, List.forall_mem_nil _, rfl⟩
    | cons p ps ih =>
      obtain ⟨hp, hspelled⟩ := List.forall_mem_cons.mp hspelled
      obtain ⟨hfirst, hascii⟩ := List.forall_mem_cons.mp hascii
      obtain ⟨rs, htexts, hreads, hpairs⟩ := ih hascii hspelled
      refine ⟨⟨p.rawKey, p.readPair.1, p.raw, p.readPair.2⟩ :: rs, ?_, List.forall_mem_cons.mpr ⟨?_, hreads⟩, ?_⟩
      · rw [List.map_cons, List.map_cons, htexts]
        rfl
      · exact Param.reads_iff.mpr ⟨hfirst, p, hp, rfl, rfl, rfl⟩
      · rw [List.map_cons, List.map_cons, hpairs]
        rfl

/-- A query is ASCII exactly when its segments are. -/
theorem ascii_segments : (∀ t ∈ (query.splitOn '&').filter (· ≠ []), ∀ c ∈ t, c.toNat ≤ 127) ↔ ∀ c ∈ query, c.toNat ≤ 127 := by
  constructor
  · intro h c hc
    rw [← @List.intercalate_splitOn _ query _ _ '&'] at hc
    rcases Text.eq_or_mem_of_mem_intercalate hc with rfl | ⟨t, ht, hmem⟩
    · decide
    · exact h t (List.mem_filter.mpr ⟨ht, by simpa using List.ne_nil_of_mem hmem⟩) c hmem
  · intro h t ht c hc
    refine h c ?_
    rw [← @List.intercalate_splitOn _ query _ _ '&']
    exact Text.mem_intercalate (List.mem_of_mem_filter ht) hc

/-- A query is read as what its parameters spell. -/
theorem readsQuery_iff {params : List (Text × Text)} : ReadsQuery query params ↔
    (∀ c ∈ query, c.toNat ≤ 127) ∧
      ∃ ps, Segments query ps ∧ (ps.map fun p => p.readPair.1).Nodup ∧ params = ps.map Param.readPair := by
  have hkeys : ∀ {rs : List Param}, params = rs.map Param.pair → rs.map Param.key = params.map Prod.fst := by
    rintro rs rfl
    rw [List.map_map]
    rfl
  have hread : ∀ {ps : List Param}, params = ps.map Param.readPair → (ps.map fun p => p.readPair.1) = params.map Prod.fst := by
    rintro ps rfl
    rw [List.map_map]
    rfl
  constructor
  · rintro ⟨rs, hpieces, hreads, hnodup, hparams⟩
    obtain ⟨hascii, ps, hps, hspelled, hpairs⟩ := reads_iff.mp ⟨rs, hpieces, hreads, hparams⟩
    exact ⟨ascii_segments.mp hascii, ps, ⟨hps, hspelled⟩, by rw [hread hpairs, ← hkeys hparams]; exact hnodup, hpairs⟩
  · rintro ⟨hascii, ps, ⟨hps, hspelled⟩, hnodup, hpairs⟩
    obtain ⟨rs, hpieces, hreads, hparams⟩ := reads_iff.mpr ⟨ascii_segments.mpr hascii, ps, hps, hspelled, hpairs⟩
    exact ⟨rs, hpieces, hreads, by rw [hkeys hparams, ← hread hpairs]; exact hnodup, hparams⟩

/-! ## Byte order marks in front -/

/-- Neither a name nor a value that is not free begins with a byte order mark. -/
def Unmarked (ps : List Param) : Prop :=
  ∀ p ∈ ps, p.key.head? ≠ some '\uFEFF' ∧ (p.key ∉ freeNames → p.value.head? ≠ some '\uFEFF')

/-- With such names, what is read under a name is what it spells without its mark. -/
theorem lookup_readPair (h : Unmarked ps) (k : Text) :
    (ps.map Param.readPair).lookup k = ((ps.map Param.pair).lookup k).map Percent.unmarked := by
  induction ps with
  | nil => rfl
  | cons p ps ih =>
    obtain ⟨hp, hps⟩ := List.forall_mem_cons.mp h
    rw [List.map_cons, List.map_cons, Param.readPair, Param.pair, Percent.unmarked_eq_self.mpr hp.1, List.lookup_cons, List.lookup_cons,
      ih hps]
    split <;> rfl

/-- A parameter is found under its name. -/
theorem lookup_of_mem (hnodup : (ps.map Param.key).Nodup) {p : Param} (hp : p ∈ ps) :
    (ps.map Param.pair).lookup p.key = some p.value := by
  induction ps with
  | nil => cases hp
  | cons q ps ih =>
    obtain ⟨hq, hnodup⟩ := List.nodup_cons.mp hnodup
    rw [List.map_cons, Param.pair, List.lookup_cons]
    rcases List.mem_cons.mp hp with rfl | hp
    · rw [beq_self_eq_true]
    · have hne : (p.key == q.key) = false := beq_false_of_ne fun heq => hq (heq ▸ List.mem_map_of_mem hp)
      rw [hne]
      exact ih hnodup hp

/-- What is found is the value of a parameter of that name. -/
theorem mem_of_lookup {k v : Text} (h : (ps.map Param.pair).lookup k = some v) : ∃ p ∈ ps, p.key = k ∧ p.value = v := by
  induction ps with
  | nil => cases h
  | cons q ps ih =>
    rw [List.map_cons, Param.pair, List.lookup_cons] at h
    split at h
    · rename_i heq
      exact ⟨q, List.mem_cons_self .., (beq_iff_eq.mp heq).symm, Option.some_inj.mp h⟩
    · obtain ⟨p, hp, hpair⟩ := ih h
      exact ⟨p, List.mem_cons_of_mem _ hp, hpair⟩

/-- Under a name whose values are not free, what is read is what is spelled. -/
theorem lookup_eq_of_not_free (h : Unmarked ps) {k : Text} (hk : k ∉ freeNames) :
    (ps.map Param.readPair).lookup k = (ps.map Param.pair).lookup k := by
  rw [lookup_readPair h]
  cases hlookup : (ps.map Param.pair).lookup k with
  | none => rfl
  | some v =>
    obtain ⟨p, hp, rfl, rfl⟩ := mem_of_lookup hlookup
    rw [Option.map_some, Percent.unmarked_eq_self.mpr ((h p hp).2 hk)]

/-- The names that are read are known exactly when those that are spelled are. -/
theorem known_readPair (h : Unmarked ps) (names : List Text) :
    (∀ p ∈ ps.map Param.readPair, p.1 ∈ names) ↔ ∀ p ∈ ps.map Param.pair, p.1 ∈ names := by
  rw [List.forall_mem_map, List.forall_mem_map]
  refine forall₂_congr fun p hp => ?_
  rw [Param.readPair, Param.pair, Percent.unmarked_eq_self.mpr (h p hp).1]

/-- A value that is not empty when it is read is not empty. -/
theorem lookup_of_read {k : Text} (h : Unmarked ps) :
    (∃ v, (ps.map Param.readPair).lookup k = some v ∧ v ≠ []) → ∃ v, (ps.map Param.pair).lookup k = some v ∧ v ≠ [] := by
  rintro ⟨v, hlookup, hne⟩
  rw [lookup_readPair h] at hlookup
  obtain ⟨w, hw, rfl⟩ := Option.map_eq_some_iff.mp hlookup
  refine ⟨w, hw, ?_⟩
  rintro rfl
  exact hne rfl

/-- One that is not empty is not empty when it is read, unless it is only a mark. -/
theorem lookup_of_spelled {k : Text} (h : Unmarked ps) (hfull : ∀ p ∈ ps, p.key = k → p.value ≠ ['\uFEFF']) :
    (∃ v, (ps.map Param.pair).lookup k = some v ∧ v ≠ []) → ∃ v, (ps.map Param.readPair).lookup k = some v ∧ v ≠ [] := by
  rintro ⟨v, hlookup, hne⟩
  obtain ⟨p, hp, rfl, rfl⟩ := mem_of_lookup hlookup
  refine ⟨Percent.unmarked p.value, by rw [lookup_readPair h, hlookup]; rfl, fun hnil => ?_⟩
  exact (Percent.unmarked_eq_nil.mp hnil).elim hne (hfull p hp rfl)

/-- A parameter that is there and is not free has one of these values. -/
theorem value_of_lookup (hnodup : (ps.map Param.key).Nodup) {P : Text → Prop} {k : Text}
    (h : ∀ v, (ps.map Param.pair).lookup k = some v → P v) {p : Param} (hp : p ∈ ps) (hk : p.key = k) : P p.value :=
  h p.value (hk ▸ lookup_of_mem hnodup hp)

/-- The parameters of a `vless://` link of the grammar begin with no mark, but for the name of the server. -/
theorem VlessParams.unmarked (hnodup : (ps.map Param.key).Nodup) (h : VlessParams (ps.map Param.pair)) : Unmarked ps := by
  have hone : ∀ {k v : Text}, (ps.map Param.pair).lookup k = some v → v.head? ≠ some '\uFEFF' → ∀ p ∈ ps, p.key = k →
      p.value.head? ≠ some '\uFEFF' := fun hlookup hv p hp hk =>
    value_of_lookup hnodup (fun w hw => Option.some_inj.mp (hlookup.symm.trans hw) ▸ hv) hp hk
  have hknown : ∀ k ∈ ["encryption", "flow", "security", "sni", "fp", "pbk", "sid", "type", "headerType"].map String.toList,
      k.head? ≠ some '\uFEFF' := by decide
  intro p hp
  have hmem := h.known p.pair (List.mem_map_of_mem hp)
  refine ⟨hknown p.key hmem, fun hfree => ?_⟩
  obtain ⟨fp, hfp, hfplookup⟩ := h.fp
  obtain ⟨pbk, hpbk, -, hcode⟩ := h.pbk
  obtain ⟨sid, hsid, hshort⟩ := h.sid
  simp only [Param.pair, List.map_cons, List.map_nil, List.mem_cons, List.not_mem_nil, or_false] at hmem
  rcases hmem with hk | hk | hk | hk | hk | hk | hk | hk | hk
  · exact hone h.encryption (by decide) p hp hk
  · exact hone h.flow (by decide) p hp hk
  · exact hone h.security (by decide) p hp hk
  · exact absurd (hk ▸ by decide) hfree
  · have hprints : ∀ v ∈ fingerprints.map String.toList, v.head? ≠ some '\uFEFF' := by decide
    exact hone hfplookup (hprints fp hfp) p hp hk
  · refine hone hpbk (fun hhead => ?_) p hp hk
    obtain ⟨t, rfl⟩ := List.head?_eq_some_iff.mp hhead
    exact absurd (hcode 0xFEFF (List.mem_cons_self ..)) (by decide)
  · refine hone hsid (fun hhead => ?_) p hp hk
    obtain ⟨t, rfl⟩ := List.head?_eq_some_iff.mp hhead
    exact absurd (hshort.hex '\uFEFF' (List.mem_cons_self ..)) (by decide)
  · exact hone h.type (by decide) p hp hk
  · exact value_of_lookup hnodup (P := fun v => v.head? ≠ some '\uFEFF') (fun v hv => by rw [h.headerType v hv]; decide) hp hk

/-- So do those of a `hysteria2://` link, but for what is free. -/
theorem Hysteria2Params.unmarked (hnodup : (ps.map Param.key).Nodup) (h : Hysteria2Params (ps.map Param.pair)) : Unmarked ps := by
  have hknown : ∀ k ∈ ["obfs", "obfs-password", "sni", "pinSHA256", "spki"].map String.toList,
      k.head? ≠ some '\uFEFF' ∧ (k ∉ freeNames → k = "obfs".toList) := by decide
  intro p hp
  obtain ⟨hhead, hobfs⟩ := hknown p.key (h.known p.pair (List.mem_map_of_mem hp))
  refine ⟨hhead, fun hfree => ?_⟩
  exact value_of_lookup hnodup (P := fun v => v.head? ≠ some '\uFEFF') (fun v hv => by rw [(h.obfs v hv).1]; decide) hp (hobfs hfree)

theorem SchemeParams.unmarked {scheme : Text} (hnodup : (ps.map Param.key).Nodup) (h : SchemeParams scheme (ps.map Param.pair)) :
    Unmarked ps := h.elim (fun h => h.2.unmarked hnodup) fun h => h.2.unmarked hnodup

/-- Without such marks, what is read has the parameters of the scheme only if what is spelled has them. -/
theorem SchemeParams.spelled {scheme : Text} (hmarks : Unmarked ps) (h : SchemeParams scheme (ps.map Param.readPair)) :
    SchemeParams scheme (ps.map Param.pair) := by
  have hsame : ∀ {k : Text}, k ∉ freeNames → (ps.map Param.readPair).lookup k = (ps.map Param.pair).lookup k :=
    lookup_eq_of_not_free hmarks
  refine h.imp (And.imp_right fun h => ?_) (And.imp_right fun h => ?_)
  · obtain ⟨hknown, hencryption, htype, hheader, hsecurity, hflow, hsni, hfp, hpbk, hsid⟩ := h
    rw [hsame (by decide)] at hencryption htype hsecurity hflow
    simp only [hsame (show "headerType".toList ∉ freeNames by decide), hsame (show "fp".toList ∉ freeNames by decide),
      hsame (show "pbk".toList ∉ freeNames by decide), hsame (show "sid".toList ∉ freeNames by decide)] at hheader hfp hpbk hsid
    exact ⟨(known_readPair hmarks _).mp hknown, hencryption, htype, hheader, hsecurity, hflow, lookup_of_read hmarks hsni, hfp, hpbk,
      hsid⟩
  · obtain ⟨hknown, hsni, hobfs, hnone⟩ := h
    simp only [hsame (show "obfs".toList ∉ freeNames by decide)] at hobfs hnone
    refine ⟨(known_readPair hmarks _).mp hknown, lookup_of_read hmarks hsni, fun v hv => ?_, fun hv => ?_⟩
    · obtain ⟨hvalue, hpassword⟩ := hobfs v hv
      exact ⟨hvalue, lookup_of_read hmarks hpassword⟩
    · have hread := hnone hv
      rw [lookup_readPair hmarks, Option.map_eq_none_iff] at hread
      exact hread

/-- What is spelled has the parameters of the scheme, and so has what is read, unless one of its values is only a mark. -/
theorem SchemeParams.read {scheme : Text} (hmarks : Unmarked ps)
    (hfull : ∀ p ∈ ps, p.key ∈ ["sni", "obfs-password"].map String.toList → p.value ≠ ['\uFEFF'])
    (h : SchemeParams scheme (ps.map Param.pair)) : SchemeParams scheme (ps.map Param.readPair) := by
  have hsame : ∀ {k : Text}, k ∉ freeNames → (ps.map Param.readPair).lookup k = (ps.map Param.pair).lookup k :=
    lookup_eq_of_not_free hmarks
  have hkept : ∀ {k : Text}, k ∈ ["sni", "obfs-password"].map String.toList →
      (∃ v, (ps.map Param.pair).lookup k = some v ∧ v ≠ []) → ∃ v, (ps.map Param.readPair).lookup k = some v ∧ v ≠ [] :=
    fun hk => lookup_of_spelled hmarks fun p hp heq => hfull p hp (heq ▸ hk)
  refine h.imp (And.imp_right fun h => ?_) (And.imp_right fun h => ?_)
  · obtain ⟨hknown, hencryption, htype, hheader, hsecurity, hflow, hsni, hfp, hpbk, hsid⟩ := h
    rw [← hsame (by decide)] at hencryption htype hsecurity hflow
    simp only [← hsame (show "headerType".toList ∉ freeNames by decide), ← hsame (show "fp".toList ∉ freeNames by decide),
      ← hsame (show "pbk".toList ∉ freeNames by decide), ← hsame (show "sid".toList ∉ freeNames by decide)] at hheader hfp hpbk hsid
    exact ⟨(known_readPair hmarks _).mpr hknown, hencryption, htype, hheader, hsecurity, hflow, hkept (by decide) hsni, hfp, hpbk,
      hsid⟩
  · obtain ⟨hknown, hsni, hobfs, hnone⟩ := h
    simp only [← hsame (show "obfs".toList ∉ freeNames by decide)] at hobfs hnone
    refine ⟨(known_readPair hmarks _).mpr hknown, hkept (by decide) hsni, fun v hv => ?_, fun hv => ?_⟩
    · obtain ⟨hvalue, hpassword⟩ := hobfs v hv
      exact ⟨hvalue, hkept (by decide) hpassword⟩
    · rw [lookup_readPair hmarks, hnone hv]
      rfl

/-- Where both have the parameters of the scheme, none of its values is only a mark. -/
theorem SchemeParams.full {scheme : Text} (hnodup : (ps.map Param.key).Nodup) (h : SchemeParams scheme (ps.map Param.pair))
    (hread : SchemeParams scheme (ps.map Param.readPair)) :
    ∀ p ∈ ps, p.key ∈ ["sni", "obfs-password"].map String.toList → p.value ≠ ['\uFEFF'] := by
  have hmarks := h.unmarked hnodup
  intro p hp hk hvalue
  -- what is read under its name is empty
  have hempty : (ps.map Param.readPair).lookup p.key = some [] := by
    rw [lookup_readPair hmarks, lookup_of_mem hnodup hp, hvalue]
    rfl
  have hno : ∀ {k : Text}, p.key = k → ¬ ∃ v, (ps.map Param.readPair).lookup k = some v ∧ v ≠ [] := by
    rintro k rfl ⟨v, hv, hne⟩
    exact hne (Option.some_inj.mp (hv.symm.trans hempty))
  simp only [List.map_cons, List.map_nil, List.mem_cons, List.not_mem_nil, or_false] at hk
  rcases hread with ⟨-, hread⟩ | ⟨-, hread⟩
  · rcases hk with hk | hk
    · exact hno hk hread.sni
    · have hmem := hread.known p.readPair (List.mem_map_of_mem hp)
      rw [Param.readPair, Percent.unmarked_eq_self.mpr (hmarks p hp).1] at hmem
      change p.key ∈ _ at hmem
      rw [hk] at hmem
      exact absurd hmem (by decide)
  · rcases hk with hk | hk
    · exact hno hk hread.sni
    · cases hobfs : (ps.map Param.readPair).lookup "obfs".toList with
      | none =>
        have hnone := hread.noObfs hobfs
        rw [← hk, hempty] at hnone
        cases hnone
      | some v => exact hno hk (hread.obfs v hobfs).2

end Params

/-! ## The reader and the grammar -/

/-- What the reader accepts. -/
theorem parseShareUri_accepts {cases : Dart.CaseMap} {s tag : Text} {trust : Hysteria2Trust} :
    (∃ out, parseShareUri cases s trust tag = .ok out) ↔ ∃ l : Link, Dart.trim s = l.text ∧ l.Read := by
  have hquery : ∀ {o : Option Text} {P : Char → Prop}, (∀ q ∈ o, ∀ c ∈ q, P c) ↔ ∀ c ∈ o.getD [], P c := by
    intro o P
    cases o <;> simp
  rw [parseShareUri_iff]
  constructor
  · rintro ⟨scheme, rest, htrim, hparts⟩
    obtain ⟨l, rfl, rfl, hmarked, ⟨credential, hcredential, hne⟩, hport, hname, params, hreads, hparams⟩ :=
      (splitRest_iff (P := SchemeParams scheme)).mp hparts
    obtain ⟨huascii, t, ht, rfl⟩ := Percent.decodeComponent_iff.mp hcredential
    obtain ⟨hqascii, ps, hsegments, hnodup, rfl⟩ := readsQuery_iff.mp hreads
    have hnames : ∀ n ∈ l.name, (∀ c ∈ n, c.toNat ≤ 127) ∧ ∃ t, Percent.Spells n t := fun n hn => by
      obtain ⟨name, hdecode⟩ := Option.isSome_iff_exists.mp (hname n hn)
      obtain ⟨hascii, t, ht, -⟩ := Percent.decodeComponent_iff.mp hdecode
      exact ⟨hascii, t, ht⟩
    exact ⟨l, htrim, hmarked, ⟨huascii, hquery.mpr hqascii, fun n hn => (hnames n hn).1⟩, ⟨t, ht, hne⟩, fun n hn => (hnames n hn).2,
      ⟨ps, hsegments, hnodup, hparams⟩, hport⟩
  · rintro ⟨l, htrim, hmarked, hascii, ⟨t, ht, hne⟩, hname, ⟨ps, hsegments, hnodup, hparams⟩, hport⟩
    refine ⟨l.scheme, l.rest, htrim, (splitRest_iff (P := SchemeParams l.scheme)).mpr ⟨l, rfl, rfl, hmarked,
      ⟨_, Percent.decodeComponent_iff.mpr ⟨hascii.userinfo, t, ht, rfl⟩, hne⟩, hport, fun n hn => ?_, _,
      readsQuery_iff.mpr ⟨hquery.mp hascii.query, ps, hsegments, hnodup, rfl⟩, hparams⟩⟩
    obtain ⟨u, hu⟩ := hname n hn
    exact Option.isSome_iff_exists.mpr ⟨_, Percent.decodeComponent_iff.mpr ⟨hascii.name n hn, u, hu, rfl⟩⟩

/-- A port of the grammar is read. -/
theorem DigitPort.readable {port : Text} (h : DigitPort port) : ReadablePort port := by
  obtain ⟨hne, -, hdigit, hlow, hhigh⟩ := h
  refine ⟨_, Dart.intTryParse_digits hdigit (List.ne_nil_of_length_pos hne) (by omega), by omega, by omega⟩

/-- A link of the grammar is read exactly when it is in lower case and ASCII, and none of what may not be empty is only a mark. -/
theorem Link.Sound.read_iff {l : Link} (h : l.Sound) (hport : DigitPort l.port) : l.Read ↔ l.Lower ∧ l.Ascii ∧ l.Full := by
  obtain ⟨ps, hsegments, hnodup, hparams⟩ := h.params
  have hmarks := hparams.unmarked hnodup
  obtain ⟨t, ht⟩ := h.credential
  constructor
  · rintro ⟨-, hascii, ⟨t', ht', hne⟩, -, ⟨ps', hsegments', -, hread⟩, -⟩
    obtain rfl := hsegments.unique hsegments'
    have hlower : l.Lower := hread.known
    rw [hlower.map] at hparams
    refine ⟨hlower, hascii, fun hmark => ?_, fun ps' hps' p hp hk => ?_⟩
    · rw [ht'.unique hmark] at hne
      exact hne rfl
    · obtain rfl := hsegments.unique hps'
      exact hparams.full hnodup hread p hp hk
  · rintro ⟨hlower, hascii, hcredential, hfull⟩
    rw [hlower.map] at hparams
    refine ⟨h.marked, hascii, ⟨t, ht, fun hnil => ?_⟩, h.name, ⟨ps, hsegments, ?_, hparams.read hmarks (hfull ps hsegments)⟩,
      hport.readable⟩
    · rcases Percent.unmarked_eq_nil.mp hnil with rfl | rfl
      · exact h.userinfo (Percent.eq_nil_of_spells_nil ht)
      · exact hcredential ht
    · have hkeys : (ps.map fun p => p.readPair.1) = ps.map Param.key :=
        List.map_congr_left fun p hp => Percent.unmarked_eq_self.mpr (hmarks p hp).1
      rw [hkeys]
      exact hnodup

/-- A link that is read is one of the grammar exactly when its port is one to five digits, its host has well-formed escapes, and no name
or value that is told begins with a mark. -/
theorem Link.Read.sound_iff {l : Link} (h : l.Read) : l.Sound ↔ l.Faithful := by
  obtain ⟨ps, hsegments, hnodup, hread⟩ := h.params
  have hlower : l.Lower := hread.known
  constructor
  · intro hsound
    obtain ⟨ps', hsegments', hnodup', hparams⟩ := hsound.params
    refine ⟨hsound.host, fun qs hqs => ?_⟩
    obtain rfl := hsegments'.unique hqs
    exact hparams.unmarked hnodup'
  · rintro ⟨hhost, hfaithful⟩
    have hmarks : Unmarked ps := hfaithful ps hsegments
    obtain ⟨t, ht, hne⟩ := h.credential
    refine ⟨h.marked, ?_, ⟨t, ht⟩, hhost, h.name, ps, hsegments, ?_, ?_⟩
    · intro hnil
      rw [hnil] at ht
      rw [ht.unique (Percent.spells_self List.not_mem_nil)] at hne
      exact hne rfl
    · have hkeys : (ps.map fun p => p.readPair.1) = ps.map Param.key :=
        List.map_congr_left fun p hp => Percent.unmarked_eq_self.mpr (hmarks p hp).1
      rwa [← hkeys]
    · rw [hlower.map]
      exact hread.spelled hmarks

/-- The reader accepts a text exactly when the grammar does, unless it is a link of the grammar that has a capital in its scheme or a
character beyond ASCII, or has only an encoded byte order mark where something is asked for; or a link that is read and has a port that
is not one to five digits, or a host with a malformed escape, or a mark in front of a name or of a value that is told. -/
theorem parseShareUri_grammar (cases : Dart.CaseMap) (s : Text) (trust : Hysteria2Trust) (tag : Text) :
    ((∃ out, parseShareUri cases s trust tag = .ok out) ↔ Grammar s) ↔
    ∀ l : Link, Dart.trim s = l.text →
      (l.Sound → DigitPort l.port → l.Lower ∧ l.Ascii ∧ l.Full) ∧ (l.Read → DigitPort l.port ∧ l.Faithful) := by
  rw [parseShareUri_accepts]
  constructor
  · intro hiff l htrim
    refine ⟨fun hsound hport => ?_, fun hread => ?_⟩
    · obtain ⟨l', htrim', hread⟩ := hiff.mpr ⟨l, htrim, hsound, hport⟩
      obtain rfl := Link.text_inj hread.marked hsound.marked hread.colon_not_mem hsound.colon_not_mem (htrim'.symm.trans htrim)
      exact (hsound.read_iff hport).mp hread
    · obtain ⟨l', htrim', hsound, hport⟩ := hiff.mp ⟨l, htrim, hread⟩
      obtain rfl := Link.text_inj hsound.marked hread.marked hsound.colon_not_mem hread.colon_not_mem (htrim'.symm.trans htrim)
      exact ⟨hport, hread.sound_iff.mp hsound⟩
  · intro h
    constructor
    · rintro ⟨l, htrim, hread⟩
      obtain ⟨hport, hfaithful⟩ := (h l htrim).2 hread
      exact ⟨l, htrim, hread.sound_iff.mpr hfaithful, hport⟩
    · rintro ⟨l, htrim, hsound, hport⟩
      exact ⟨l, htrim, (hsound.read_iff hport).mpr ((h l htrim).1 hsound hport)⟩

/-- A link with a scheme, a host, a port and a name to be told. -/
def sampleLink (scheme host port : Text) (name : Option Text) : Link := ⟨scheme, "pw", host, port, false, some "sni=example.org", name⟩

/-- Its pieces are ended by what ends them, and its query is one parameter that spells what it says. -/
structure Sample (host port : Text) : Prop where
  host : PlainHost host
  port : ∀ c ∈ port, c ∉ ['#', '?', '@', '/']

section Sample

variable {scheme host port : Text} {name : Option Text}

theorem Sample.marked (h : Sample host port) : (sampleLink scheme host port name).Marked :=
  ⟨show ∀ c ∈ "pw".toList, c ∉ ['#', '?'] from by decide, h.host, h.port, fun q hq => Option.some_inj.mp hq ▸ by decide⟩

/-- The query of the sample is one parameter. -/
theorem sample_segments : Segments "sni=example.org" [Param.plain "sni" "example.org"] := by
  refine ⟨by decide, List.forall_mem_singleton.mpr ⟨by decide, by decide, ?_, by decide, ?_⟩⟩
  · exact Percent.spells_self (by decide)
  · exact Percent.spells_self (by decide)

theorem sample_params : SchemeParams "hysteria2".toList ([Param.plain "sni" "example.org"].map Param.pair) :=
  .inr ⟨rfl, by decide, ⟨_, rfl, by decide⟩, fun v hv => (Option.some_ne_none v hv.symm).elim, fun _ => rfl⟩

/-- The sample is a link of the grammar where nothing in it is escaped. -/
theorem Sample.sound (h : Sample host port) (hscheme : scheme.map Char.toLower = "hysteria2".toList) (hhost : '%' ∉ host)
    (hname : ∀ n ∈ name, '%' ∉ n) : (sampleLink scheme host port name).Sound := by
  refine ⟨h.marked, List.cons_ne_nil _ _, ⟨_, Percent.spells_self (show '%' ∉ "pw".toList by decide)⟩, ⟨_, Percent.spells_self hhost⟩,
    fun n hn => ⟨_, Percent.spells_self (hname n hn)⟩, _, sample_segments, by decide, ?_⟩
  change SchemeParams (scheme.map Char.toLower) _
  rw [hscheme]
  exact sample_params

/-- The reader has no objection to the sample where its port is one. -/
theorem Sample.read (h : Sample host port) (hport : ReadablePort port) : (sampleLink "hysteria2" host port none).Read :=
  ⟨h.marked, ⟨show ∀ c ∈ "pw".toList, c.toNat ≤ 127 from by decide, fun q hq => Option.some_inj.mp hq ▸ by decide,
      fun n hn => (Option.some_ne_none n hn.symm).elim⟩,
    ⟨_, Percent.spells_self (show '%' ∉ "pw".toList by decide), show Percent.unmarked "pw".toList ≠ [] from by decide⟩,
    fun n hn => (Option.some_ne_none n hn.symm).elim,
    ⟨_, sample_segments, by decide, sample_params⟩, hport⟩

end Sample

/-- A link of the grammar with its scheme in capitals is refused, and so is one whose name is not ASCII. One whose port has a sign is
accepted, and so is one whose host has a malformed escape. -/
theorem parseShareUri_grammar_fails :
    (Grammar "HYSTERIA2://pw@vpn.example.org:443?sni=example.org" ∧
      ¬ ∃ out, parseShareUri sampleCases "HYSTERIA2://pw@vpn.example.org:443?sni=example.org" .systemRoots "proxy" = .ok out) ∧
    (Grammar "hysteria2://pw@vpn.example.org:443?sni=example.org#дом" ∧
      ¬ ∃ out, parseShareUri sampleCases "hysteria2://pw@vpn.example.org:443?sni=example.org#дом" .systemRoots "proxy" = .ok out) ∧
    ((∃ out, parseShareUri sampleCases "hysteria2://pw@vpn.example.org:+443?sni=example.org" .systemRoots "proxy" = .ok out) ∧
      ¬ Grammar "hysteria2://pw@vpn.example.org:+443?sni=example.org") ∧
    (∃ out, parseShareUri sampleCases "hysteria2://pw@vpn%zz.example.org:443?sni=example.org" .systemRoots "proxy" = .ok out) ∧
      ¬ Grammar "hysteria2://pw@vpn%zz.example.org:443?sni=example.org" := by
  have hplain : Sample "vpn.example.org" "443" := ⟨.name (by decide) (by decide) (by decide), by decide⟩
  have hsign : Sample "vpn.example.org" "+443" := ⟨.name (by decide) (by decide) (by decide), by decide⟩
  have hescape : Sample "vpn%zz.example.org" "443" := ⟨.name (by decide) (by decide) (by decide), by decide⟩
  have hport : DigitPort "443" := ⟨by decide, by decide, by decide, by decide, by decide⟩
  have hcapitals : (sampleLink "HYSTERIA2" "vpn.example.org" "443" none).Sound := hplain.sound (by decide) (by decide) (by decide)
  have hname : (sampleLink "hysteria2" "vpn.example.org" "443" (some "дом")).Sound :=
    hplain.sound (by decide) (by decide) (by decide)
  have hsigned := hsign.read ⟨443, rfl, by decide, by decide⟩
  have hescaped := hescape.read hport.readable
  -- the links are told by their texts
  have hread := fun {l l' : Link} (hl : l.Read) (hl' : l'.Sound) (heq : l.text = l'.text) =>
    Link.text_inj hl.marked hl'.marked hl.colon_not_mem hl'.colon_not_mem heq
  refine ⟨⟨⟨_, by decide, hcapitals, hport⟩, fun haccepts => ?_⟩, ⟨⟨_, by decide, hname, hport⟩, fun haccepts => ?_⟩,
    ⟨parseShareUri_accepts.mpr ⟨_, by decide, hsigned⟩, fun hgrammar => ?_⟩, parseShareUri_accepts.mpr ⟨_, by decide, hescaped⟩,
    fun hgrammar => ?_⟩
  · obtain ⟨l, htrim, hl⟩ := parseShareUri_accepts.mp haccepts
    obtain rfl := hread hl hcapitals (htrim.symm.trans (by decide))
    obtain ⟨hlower, -⟩ := (hcapitals.read_iff hport).mp hl
    rcases hlower with h | h <;> exact absurd h (by decide)
  · obtain ⟨l, htrim, hl⟩ := parseShareUri_accepts.mp haccepts
    obtain rfl := hread hl hname (htrim.symm.trans (by decide))
    exact absurd (hl.ascii.name _ rfl 'д' (by decide)) (by decide)
  · obtain ⟨l, htrim, hl, hdigits⟩ := hgrammar
    obtain rfl := hread hsigned hl (htrim.symm.trans (by decide)).symm
    exact absurd hdigits.2.2.1 (by decide)
  · obtain ⟨l, htrim, hl, -⟩ := hgrammar
    obtain rfl := hread hescaped hl (htrim.symm.trans (by decide)).symm
    obtain ⟨t, ht⟩ := hl.host
    have hunescape := Percent.unescape_iff.mpr ⟨by decide, ht⟩
    cases hunescape

end ShareUri

end VpnStack

import VpnStack.Bootstrap

/-!
# The halves of a pair

`bootstrap` writes the halves of a pair one after the other. From an empty directory the halves agree wherever a run is cut
short, except in one window: a run that overwrites a pair, between its first half and its second. A run without `--force` is
never in that window, and touches nothing that is there.
-/

namespace VpnStack

open Python Interaction Transition

namespace Bootstrap

variable {Γ : Type} {crypto : Crypto Γ}

/-! ## What agrees with what -/

/-- A file holds the public half of the key in another. -/
def IsPublic (x : X25519) (key pub : Bytes) : Prop :=
  ∃ k p, Text.decode key = some k ∧ RealityKey.derivePublicKey x (strip k) = .ok p ∧ pub = Text.encode p

/-- A certificate and a key come from one generation. -/
def SameGeneration (c : Certificates Γ) (crt key : Bytes) : Prop := ∃ g, crt = c.certificate g ∧ key = c.privateKey g

/-- Two files that have to agree. -/
inductive KeyPair where
  | reality
  | certificate
  deriving DecidableEq

namespace KeyPair

/-- The half that is written first. -/
def first : KeyPair → String
  | reality => "reality.key"
  | certificate => "hysteria2.crt"

/-- The half that is written behind it. -/
def second : KeyPair → String
  | reality => "reality.pub"
  | certificate => "hysteria2.key"

def Agree (crypto : Crypto Γ) : KeyPair → Bytes → Bytes → Prop
  | reality => IsPublic crypto.x25519
  | certificate => SameGeneration crypto.certificates

theorem first_ne_second (p q : KeyPair) : p.first ≠ q.second := by cases p <;> cases q <;> decide

/-- A pair is told by the name of its first half. -/
theorem first_inj {p q : KeyPair} (h : p.first = q.first) : p = q := by
  revert h
  cases p <;> cases q <;> decide

/-- A pair is told by the name of its second half. -/
theorem second_inj {p q : KeyPair} (h : p.second = q.second) : p = q := by
  revert h
  cases p <;> cases q <;> decide

end KeyPair

/-- Where both halves of a pair are there, they agree. -/
def Paired (crypto : Crypto Γ) (files : String → Option Bytes) : Prop :=
  ∀ (p : KeyPair) x y, files p.first = some x → files p.second = some y → p.Agree crypto x y

/-! ## The window -/

/-- The run has written the first half and not the second, in front of the call. The temporary of a half is gone when it has
become the file. -/
def KeyPair.Between (p : KeyPair) (w : Keyring) : Op → Prop
  | .openTmp name => name = p.second
  | .fill name _ => name = p.second
  | .replace name => name = p.second
  | .unlinkTmp name => (name = p.first ∧ w.temps name = none) ∨ (name = p.second ∧ w.temps name ≠ none)
  | .load | .mkdir | .mint => False

/-- The call raises there, and the pair is not complete then. -/
def KeyPair.Breaks (p : KeyPair) (w : Keyring) (o : Op) (fault : Fault Exc) : Prop :=
  match o with
  | .replace name => (name = p.second ∧ fault.isBefore) ∨ (name = p.first ∧ fault.isAfter)
  | o => p.Between w o ∧ fault ≠ .none

/-- No run is cut short between the halves of a pair whose second half is there from before. -/
def whole (Γ : Type) : Discipline Op Keyring (Choice Γ) where
  choice o c w := ∀ p : KeyPair, w.files p.second ≠ none → ¬ p.Breaks w o c.fault
  stop o w := ∀ p : KeyPair, w.files p.second ≠ none → ¬ p.Between w o

/-- What the runs keep: the pairs agree, and no file is empty. -/
structure Sound (crypto : Crypto Γ) (files : String → Option Bytes) : Prop where
  paired : Paired crypto files
  nonempty : ∀ name content, files name = some content → content ≠ []

/-- A keyring without secrets is sound. -/
theorem sound_empty : Sound crypto fun _ => none where
  paired := nofun
  nonempty := nofun

/-- The public half of a generated key, and nothing else, agrees with it. -/
theorem isPublic_generated {x : X25519} {raw pub : Bytes} (h : raw.length = 32) :
    IsPublic x (Text.encode (RealityKey.generatePrivateKey raw)) pub ↔
      pub = Text.encode (Base64.urlEncode (x.publicKey raw)) := by
  have hword : IsWord (RealityKey.generatePrivateKey raw) := by
    constructor
    · intro hnil
      have hlength := Base64.length_urlEncode raw
      rw [RealityKey.generatePrivateKey] at hnil
      rw [hnil, h] at hlength
      cases hlength
    · intro c hc
      obtain ⟨n, hn, rfl⟩ := Base64.mem_urlEncode hc
      have hdigits : ∀ n < 64, isSpace (Base64.urlDigit n) = false := by decide
      exact hdigits n hn
  unfold IsPublic
  simp only [Text.decode_encode, Option.some_inj]
  constructor
  · rintro ⟨_, p, rfl, hp, rfl⟩
    rw [hword.strip, RealityKey.derivePublicKey_generated x h] at hp
    rw [Except.ok.inj hp]
  · rintro rfl
    exact ⟨_, _, rfl, by rw [hword.strip, RealityKey.derivePublicKey_generated x h], rfl⟩

/-! ## One write -/

section Write

variable {d : Discipline Op Keyring (Choice Γ)} {files : String → Option Bytes} {name : String} {content : Bytes}

/-- The calls of a write before its file is replaced, and the clean-up of one that did not replace it. -/
inductive Early (name : String) (temps : String → Option Bytes) : Op → Prop where
  | openTmp : Early name temps (.openTmp name)
  | fill (content : Bytes) : Early name temps (.fill name content)
  | replace : Early name temps (.replace name)
  | unlinkTmp (h : temps name ≠ none) : Early name temps (.unlinkTmp name)

/-- How a write may be cut short, when `P` has to hold of the files it leaves: early it leaves them as they were, and late with
the new content. -/
structure Cut (d : Discipline Op Keyring (Choice Γ)) (files : String → Option Bytes) (name : String) (content : Bytes)
    (P : (String → Option Bytes) → Prop) : Prop where
  stopEarly : ∀ temps o, Early name temps o → d.stop o ⟨files, temps⟩ → P files
  raiseEarly : ∀ temps o c, Early name temps o → d.choice o c ⟨files, temps⟩ → c.fault ≠ .none →
    (o = .replace name → c.fault.isAfter = false) → P files
  raiseReplace : ∀ temps c, d.choice (.replace name) c ⟨files, temps⟩ → c.fault.isAfter →
    P (Function.update files name (some content))
  stopLate : ∀ temps, temps name = none → d.stop (.unlinkTmp name) ⟨Function.update files name (some content), temps⟩ →
    P (Function.update files name (some content))
  raiseLate : ∀ temps c, temps name = none →
    d.choice (.unlinkTmp name) c ⟨Function.update files name (some content), temps⟩ → c.fault ≠ .none →
    P (Function.update files name (some content))

/-- The clean-up of a write that raised leaves the files, whether it raises itself or not. -/
theorem ends_unlinkTmp {P : (String → Option Bytes) → Prop} {w : Keyring} (h : P w.files) :
    ends disk d (call (Γ := Γ) (.unlinkTmp name)) (fun _ w => P w.files) (fun _ w => P w.files) (fun w => P w.files) w :=
  ends_exec (fun _ => h) (fun _ _ _ => h) (fun _ _ _ _ => h) (fun _ _ _ _ => h)

/-- What a write does: it returns with the new content in its file, or leaves what `P` allows. -/
theorem ends_write {P : (String → Option Bytes) → Prop} {w : Keyring} (h : Cut d w.files name content P) :
    ends disk d (write (Γ := Γ) name content) (fun _ w' => w'.files = Function.update w.files name (some content))
      (fun _ w' => P w'.files) (fun w' => P w'.files) w := by
  obtain ⟨files, temps⟩ := w
  refine ends_seq (M := fun _ w => w = ⟨files, Function.update temps name (some [])⟩)
    (ends_exec (h.stopEarly _ _ .openTmp) (fun _ _ _ => rfl) (fun c e hc hf => ?_) (fun c e hc hf => ?_)) ?_
  · exact h.raiseEarly _ _ c .openTmp hc (by rw [hf]; exact nofun) nofun
  · exact h.raiseEarly _ _ c .openTmp hc (by rw [hf]; exact nofun) nofun
  rintro - w rfl
  refine ends_bind.mpr (ends_tryFinally.mpr (ends_seq
    (M := fun _ w => w = ⟨files, Function.update (Function.update temps name (some [])) name (some content)⟩) ?_ ?_))
  · refine ends_exec (h.stopEarly _ _ (.fill content)) (fun _ _ _ => rfl) (fun c e hc hf => ?_) (fun c e hc hf => ?_)
    · exact ends_unlinkTmp (h.raiseEarly _ _ c (.fill content) hc (by rw [hf]; exact nofun) nofun)
    · exact ends_unlinkTmp (h.raiseEarly _ _ c (.fill content) hc (by rw [hf]; exact nofun) nofun)
  · rintro - w rfl
    rw [Function.update_idem]
    have htemp : Function.update temps name (some content) name = some content := Function.update_self ..
    have hreplace : (exec (Γ := Γ) (.replace name) · ⟨files, Function.update temps name (some content)⟩) = fun _ =>
        ((), ⟨Function.update files name (some content),
          Function.update (Function.update temps name (some content)) name none⟩) := by
      funext c
      simp only [exec, htemp]
    refine ends_exec (h.stopEarly _ _ .replace) (fun c _ _ => ?_) (fun c e hc hf => ?_) (fun c e hc hf => ?_)
    · rw [congrFun hreplace c]
      have hgone : Function.update (Function.update temps name (some content)) name none name = none := Function.update_self ..
      exact ends_exec (h.stopLate _ hgone) (fun _ _ _ => rfl)
        (fun c e hc hf => h.raiseLate _ c hgone hc (by rw [hf]; exact nofun))
        (fun c e hc hf => h.raiseLate _ c hgone hc (by rw [hf]; exact nofun))
    · exact ends_unlinkTmp (h.raiseEarly _ _ c .replace hc (by rw [hf]; exact nofun) fun _ => by rw [hf]; rfl)
    · rw [congrFun hreplace c]
      exact ends_unlinkTmp (h.raiseReplace _ c hc (by rw [hf]; rfl))

/-- A write that may be cut short anywhere. -/
theorem Cut.of_both {P : (String → Option Bytes) → Prop} (hold : P files)
    (hnew : P (Function.update files name (some content))) : Cut d files name content P where
  stopEarly _ _ _ _ := hold
  raiseEarly _ _ _ _ _ _ _ := hold
  raiseReplace _ _ _ _ := hnew
  stopLate _ _ _ := hnew
  raiseLate _ _ _ _ _ := hnew

end Write

/-! ## The two halves, one after the other -/

section Halves

variable {files : String → Option Bytes} {p : KeyPair} {name : String} {x y content : Bytes}

/-- The files with one more or one changed, when the pairs that have it agree. -/
theorem Sound.update (hs : Sound crypto files) (hc : content ≠ [])
    (hfirst : ∀ p : KeyPair, name = p.first → ∀ y, files p.second = some y → p.Agree crypto content y)
    (hsecond : ∀ p : KeyPair, name = p.second → ∀ x, files p.first = some x → p.Agree crypto x content) :
    Sound crypto (Function.update files name (some content)) where
  paired p x y hx hy := by
    by_cases hf : name = p.first
    · subst hf
      rw [Function.update_self, Option.some_inj] at hx
      rw [Function.update_of_ne (p.first_ne_second p).symm] at hy
      exact hx ▸ hfirst p rfl y hy
    · rw [Function.update_of_ne (Ne.symm hf)] at hx
      by_cases hn : name = p.second
      · subst hn
        rw [Function.update_self, Option.some_inj] at hy
        exact hy ▸ hsecond p rfl x hx
      · rw [Function.update_of_ne (Ne.symm hn)] at hy
        exact hs.paired p x y hx hy
  nonempty n b hb := by
    by_cases hn : n = name
    · subst hn
      rw [Function.update_self, Option.some_inj] at hb
      exact hb ▸ hc
    · rw [Function.update_of_ne hn] at hb
      exact hs.nonempty n b hb

/-- A file that is no half. -/
theorem Sound.update_other (hs : Sound crypto files) (hc : content ≠ []) (hf : ∀ p : KeyPair, name ≠ p.first)
    (hn : ∀ p : KeyPair, name ≠ p.second) : Sound crypto (Function.update files name (some content)) :=
  hs.update hc (fun p h => absurd h (hf p)) (fun p h => absurd h (hn p))

/-- A first half whose second is not there. -/
theorem Sound.update_first (hs : Sound crypto files) (hx : x ≠ []) (hnone : files p.second = none) :
    Sound crypto (Function.update files p.first (some x)) := by
  refine hs.update hx (fun q hq y hy => ?_) fun q hq => absurd hq (p.first_ne_second q)
  rw [← KeyPair.first_inj hq, hnone] at hy
  nomatch hy

/-- A second half that agrees with the first. -/
theorem Sound.update_second (hs : Sound crypto files) (hy : y ≠ []) (hagree : ∀ x, files p.first = some x → p.Agree crypto x y) :
    Sound crypto (Function.update files p.second (some y)) := by
  refine hs.update hy (fun q hq => absurd hq.symm (q.first_ne_second p)) fun q hq x hx => ?_
  obtain rfl := KeyPair.second_inj hq
  exact hagree x hx

/-- Both halves, whatever was there. -/
theorem Sound.update_both (hs : Sound crypto files) (hx : x ≠ []) (hy : y ≠ []) (hagree : p.Agree crypto x y) :
    Sound crypto (Function.update (Function.update files p.first (some x)) p.second (some y)) where
  paired q x' y' hx' hy' := by
    rw [Function.update_of_ne (q.first_ne_second p)] at hx'
    by_cases hq : q = p
    · subst hq
      rw [Function.update_self, Option.some_inj] at hx' hy'
      exact hx' ▸ hy' ▸ hagree
    · rw [Function.update_of_ne fun h => hq (KeyPair.first_inj h)] at hx'
      rw [Function.update_of_ne fun h => hq (KeyPair.second_inj h),
        Function.update_of_ne (p.first_ne_second q).symm] at hy'
      exact hs.paired q x' y' hx' hy'
  nonempty n b hb := by
    by_cases hn : n = p.second
    · subst hn
      rw [Function.update_self, Option.some_inj] at hb
      exact hb ▸ hy
    · rw [Function.update_of_ne hn] at hb
      by_cases hf : n = p.first
      · subst hf
        rw [Function.update_self, Option.some_inj] at hb
        exact hb ▸ hx
      · rw [Function.update_of_ne hf] at hb
        exact hs.nonempty n b hb

/-- The first half may be cut short where its second is not there. -/
theorem cut_first (hs : Sound crypto files) (hx : x ≠ []) : Cut (whole Γ) files p.first x (Sound crypto) := by
  have hlate : ∀ {files' : String → Option Bytes}, files' = Function.update files p.first (some x) →
      files' p.second = none → Sound crypto files' := fun h hnone => by
    rw [h, Function.update_of_ne (p.first_ne_second p).symm] at hnone
    exact h ▸ hs.update_first hx hnone
  constructor
  · intro _ _ _ _
    exact hs
  · intro _ _ _ _ _ _ _
    exact hs
  · intro temps c hc hf
    by_contra hbad
    refine hc p (fun hnone => hbad (hs.update_first hx hnone)) (.inr ⟨rfl, hf⟩)
  · intro temps ht hstop
    by_contra hbad
    exact hstop p (fun hnone => hbad (hlate rfl hnone)) (.inl ⟨rfl, ht⟩)
  · intro temps c ht hc hf
    by_contra hbad
    exact hc p (fun hnone => hbad (hlate rfl hnone)) ⟨.inl ⟨rfl, ht⟩, hf⟩

/-- Behind the first half, the second may be cut short where it was not there. -/
theorem cut_second (hs : Sound crypto files) (hx : x ≠ []) (hy : y ≠ []) (hagree : p.Agree crypto x y) :
    Cut (whole Γ) (Function.update files p.first (some x)) p.second y (Sound crypto) := by
  have hboth := hs.update_both hx hy hagree
  have hearly : Function.update files p.first (some x) p.second = none →
      Sound crypto (Function.update files p.first (some x)) := fun hnone => by
    rw [Function.update_of_ne (p.first_ne_second p).symm] at hnone
    exact hs.update_first hx hnone
  have hbetween : ∀ temps o, Early p.second temps o → p.Between ⟨Function.update files p.first (some x), temps⟩ o := by
    intro temps o ho
    cases ho with
    | openTmp => exact rfl
    | fill _ => exact rfl
    | replace => exact rfl
    | unlinkTmp h => exact .inr ⟨rfl, h⟩
  constructor
  · intro temps o ho hstop
    by_contra hbad
    exact hstop p (fun hnone => hbad (hearly hnone)) (hbetween temps o ho)
  · intro temps o c ho hc hf hreplace
    by_contra hbad
    refine hc p (fun hnone => hbad (hearly hnone)) ?_
    cases ho with
    | openTmp => exact ⟨rfl, hf⟩
    | fill _ => exact ⟨rfl, hf⟩
    | unlinkTmp h => exact ⟨.inr ⟨rfl, h⟩, hf⟩
    | replace =>
      have hafter := hreplace rfl
      refine .inl ⟨rfl, ?_⟩
      cases hfault : c.fault with
      | none => exact absurd hfault hf
      | before e => rfl
      | after e =>
        rw [hfault] at hafter
        nomatch hafter
  · intro _ _ _ _
    exact hboth
  · intro _ _ _
    exact hboth
  · intro _ _ _ _ _
    exact hboth

end Halves

/-- What a script keeps, however it ends. -/
abbrev Keeps {α : Type} (d : Discipline Op Keyring (Choice Γ)) (script : Run Γ α) (P : (String → Option Bytes) → Prop) : Prop :=
  ∀ w : Keyring, P w.files → ends disk d script (fun _ w => P w.files) (fun _ w => P w.files) (fun w => P w.files) w

/-- The writes of files that are no half. -/
theorem keeps_writes {secrets : List (String × Bytes)} (hc : ∀ s ∈ secrets, s.2 ≠ [])
    (hf : ∀ s ∈ secrets, ∀ p : KeyPair, s.1 ≠ p.first ∧ s.1 ≠ p.second) :
    Keeps (whole Γ) (secrets.forM fun s => write s.1 s.2) (Sound crypto) := by
  intro w hw
  refine ends_forM (I := fun _ (w : Keyring) => Sound crypto w.files) (fun s rest hmem w hw => ?_) hw
  obtain ⟨done, hmem⟩ := hmem
  have hs : s ∈ secrets := by rw [hmem]; simp
  have hnew := hw.update_other (hc s hs) (fun p => (hf s hs p).1) (fun p => (hf s hs p).2)
  refine ends_mono (ends_write (.of_both hw hnew)) (fun _ w' h => ?_) (fun _ _ h => h) (fun _ h => h)
  rw [h]
  exact hnew

/-- The writes of a pair, and of what the protocol has besides. -/
theorem keeps_pair {p : KeyPair} {x y : Bytes} {rest : List (String × Bytes)} (hx : x ≠ []) (hy : y ≠ [])
    (hagree : p.Agree crypto x y) (hc : ∀ s ∈ rest, s.2 ≠ [])
    (hf : ∀ s ∈ rest, ∀ p : KeyPair, s.1 ≠ p.first ∧ s.1 ≠ p.second) :
    Keeps (whole Γ) (((p.first, x) :: (p.second, y) :: rest).forM fun s => write s.1 s.2) (Sound crypto) := by
  intro w hw
  refine ends_seq (ends_write (cut_first (p := p) hw hx)) fun _ w₁ h₁ => ?_
  refine ends_seq (M := fun _ w' => w'.files = Function.update w₁.files p.second (some y)) ?_ fun _ w₂ h₂ => ?_
  · refine ends_write ?_
    rw [h₁]
    exact cut_second hw hx hy hagree
  · refine keeps_writes hc hf w₂ ?_
    rw [h₂, h₁]
    exact hw.update_both hx hy hagree

/-! ## A run -/

section Turn

variable {force : Bool} {existing : Secrets} {source : Source Γ} {progress : Progress} {w : Keyring}

/-- Where nothing can be rebuilt, nothing is written. -/
theorem keeps_heal_nil (gaps : List String) : Keeps (whole Γ) (heal [] gaps existing) (Sound crypto) := fun _ hw =>
  ends_foldlM (I := fun _ _ (w' : Keyring) => Sound crypto w'.files) (fun _ _ _ _ hw => hw) hw

/-- What is rebuilt of the REALITY pair agrees with the key that survived. -/
theorem ends_heal_reality (gaps : List String) (hw : Sound crypto w.files) (hkey : existing = w.secrets) :
    ends disk (whole Γ) (heal (vlessReality crypto).derivable gaps existing) (fun _ w => Sound crypto w.files)
      (fun _ w => Sound crypto w.files) (fun w => Sound crypto w.files) w := by
  have hloop : ends disk (whole Γ) (heal (vlessReality crypto).derivable gaps existing)
      (fun _ w' => Sound crypto w'.files ∧ w'.files "reality.key" = w.files "reality.key")
      (fun _ w' => Sound crypto w'.files) (fun w' => Sound crypto w'.files) w := by
    refine ends_foldlM (I := fun _ _ (w' : Keyring) => Sound crypto w'.files ∧ w'.files "reality.key" = w.files "reality.key")
      (fun name rest healed w' h => ?_) ⟨hw, rfl⟩
    obtain ⟨hs, hsame⟩ := h
    split
    · exact ⟨hs, hsame⟩
    · rename_i derive hlookup
      split
      · exact ⟨hs, hsame⟩
      · rename_i content hderive
        -- Of this protocol only the public half can be rebuilt, from the key that is in its file.
        have hname : name = "reality.pub" ∧ derive = fun have_ => do
            let key ← have_.text "reality.key"
            let pub ← RealityKey.derivePublicKey crypto.x25519 key
            return Text.encode pub := by
          simp only [vlessReality, List.lookup_cons, List.lookup_nil] at hlookup
          split at hlookup
          · rename_i hbeq
            exact ⟨beq_iff_eq.mp hbeq, (Option.some_inj.mp hlookup).symm⟩
          · nomatch hlookup
        obtain ⟨rfl, rfl⟩ := hname
        simp only [Except.bind_eq_ok, Except.pure_eq_ok, Secrets.text, Secrets.raw] at hderive
        obtain ⟨key, ⟨raw, hraw, hkeytext⟩, pub, hpub, rfl⟩ := hderive
        split at hraw
        · rename_i b hb
          obtain rfl := Except.ok.inj hraw
          split at hkeytext
          · rename_i t ht
            obtain rfl := Except.ok.inj hkeytext
            have hfile : w.files "reality.key" = some b := by
              rw [hkey] at hb
              exact (Option.filter_eq_some_iff.mp hb).1
            have hagree : ∀ x, w'.files KeyPair.reality.first = some x → KeyPair.reality.Agree crypto x (Text.encode pub) := by
              intro x hx
              have hxb : b = x := Option.some_inj.mp (hfile.symm.trans (hsame.symm.trans hx))
              exact ⟨t, pub, hxb ▸ ht, hpub, rfl⟩
            have hne : Text.encode pub ≠ [] := by
              obtain ⟨raw, hlength, rfl⟩ := RealityKey.derivePublicKey_eq_ok hpub
              intro hnil
              have hempty : Base64.urlEncode raw = [] := Text.encode_injective hnil
              have hdigits := Base64.length_urlEncode raw
              rw [hempty, hlength] at hdigits
              nomatch hdigits
            have hnew := hs.update_second (p := .reality) hne hagree
            refine ends_seq (ends_write (.of_both hs hnew)) fun _ w'' h => ?_
            refine ⟨h ▸ hnew, ?_⟩
            rw [h, Function.update_of_ne (by decide)]
            exact hsame
          · nomatch hkeytext
        · nomatch hraw
  exact ends_mono hloop (fun _ _ h => h.1) (fun _ _ h => h) (fun _ h => h)

/-- The turn of a protocol: what it mints and what it rebuilds are both sound. -/
theorem ends_protocol (hw : Sound crypto w.files)
    (hmint : ∀ e secrets, source.bootstrap e = .ok secrets →
      Keeps (whole Γ) (secrets.forM fun s => write s.1 s.2) (Sound crypto))
    (hheal : ∀ gaps, ends disk (whole Γ) (heal source.derivable gaps existing) (fun _ w => Sound crypto w.files)
      (fun _ w => Sound crypto w.files) (fun w => Sound crypto w.files) w) :
    ends disk (whole Γ) (protocol force existing progress source) (fun _ w => Sound crypto w.files)
      (fun _ w => Sound crypto w.files) (fun w => Sound crypto w.files) w := by
  refine ends_seq (M := fun _ w' => w' = w) (ends_exec (fun _ => hw) (fun _ _ _ => rfl) (fun _ _ _ _ => hw)
    (fun _ _ _ _ => hw)) ?_
  rintro e _ rfl
  refine ends_bind.mpr ((ends_lift _).mpr ?_)
  cases hsecrets : source.bootstrap e with
  | error _ => exact hw
  | ok secrets =>
    refine ends_ite (fun _ => ?_) (fun _ => ?_)
    · exact ends_seq (hheal _) fun _ _ h => h
    · exact ends_seq (hmint e secrets hsecrets _ hw) fun _ _ h => h

end Turn

/-- A token of some bytes is not empty. -/
theorem tokenHex_ne {b : Bytes} (h : b ≠ []) : tokenHex b ≠ [] := by
  intro hnil
  have hempty : Hex.encode Hex.lower b = [] := Text.encode_injective hnil
  have hlength := Hex.length_encode Hex.lower b
  rw [hempty, List.length_nil] at hlength
  exact h (List.length_eq_zero_iff.mp (by omega))

/-- Both halves of the REALITY pair, minted in one go, keep the keyring sound. -/
theorem keeps_mint_reality {e : Entropy Γ} {secrets : List (String × Bytes)}
    (h : (vlessReality crypto).bootstrap e = .ok secrets) :
    Keeps (whole Γ) (secrets.forM fun s => write s.1 s.2) (Sound crypto) := by
  have hpub := RealityKey.derivePublicKey_generated crypto.x25519 e.length_realityKey
  simp only [vlessReality, Except.bind_eq_ok, Except.pure_eq_ok] at h
  obtain ⟨pub, hderive, rfl⟩ := h
  obtain rfl := Except.ok.inj (hpub.symm.trans hderive)
  have hdigits : ∀ raw : Bytes, raw.length = 32 → Text.encode (Base64.urlEncode raw) ≠ [] := by
    intro raw hraw hnil
    have hempty : Base64.urlEncode raw = [] := Text.encode_injective hnil
    have hlength := Base64.length_urlEncode raw
    rw [hempty, hraw] at hlength
    nomatch hlength
  refine keeps_pair (p := .reality) (hdigits _ e.length_realityKey) (hdigits _ (crypto.x25519.length_publicKey _))
    ((isPublic_generated e.length_realityKey).mpr rfl) ?_ ?_
  · rintro s hs
    rw [List.mem_singleton.mp hs]
    exact tokenHex_ne (e.tokens_ne _ (by simp))
  · rintro s hs p
    rw [List.mem_singleton.mp hs]
    cases p <;> exact ⟨by simp [KeyPair.first], by simp [KeyPair.second]⟩

/-- The certificate and the key of Hysteria2, minted in one go, keep the keyring sound. -/
theorem keeps_mint_hysteria2 {e : Entropy Γ} {secrets : List (String × Bytes)}
    (h : (hysteria2 crypto).bootstrap e = .ok secrets) :
    Keeps (whole Γ) (secrets.forM fun s => write s.1 s.2) (Sound crypto) := by
  obtain rfl := Except.ok.inj h
  refine keeps_pair (p := .certificate) (crypto.certificates.certificate_ne _) (crypto.certificates.privateKey_ne _)
    ⟨e.generation, rfl, rfl⟩ ?_ ?_
  · rintro s hs
    rw [List.mem_singleton.mp hs]
    exact tokenHex_ne (e.tokens_ne _ (by simp))
  · rintro s hs p
    rw [List.mem_singleton.mp hs]
    cases p <;> exact ⟨by simp [KeyPair.first], by simp [KeyPair.second]⟩

/-- The secret of IKEv2, which is of no pair, keeps the keyring sound. -/
theorem keeps_mint_ikev2 {e : Entropy Γ} {secrets : List (String × Bytes)} (h : ikev2.bootstrap e = .ok secrets) :
    Keeps (whole Γ) (secrets.forM fun s => write s.1 s.2) (Sound crypto) := by
  obtain rfl := Except.ok.inj h
  refine keeps_writes ?_ ?_
  · intro s hs
    simp only [List.mem_cons, List.not_mem_nil, or_false] at hs
    rcases hs with rfl | rfl | rfl <;> exact tokenHex_ne (e.tokens_ne _ (by simp))
  · intro s hs p
    simp only [List.mem_cons, List.not_mem_nil, or_false] at hs
    rcases hs with rfl | rfl | rfl <;> cases p <;> exact ⟨by simp [KeyPair.first], by simp [KeyPair.second]⟩

/-- Outside the window a run keeps the pairs, however it ends. -/
theorem keeps_bootstrapKeyring (force : Bool) : Keeps (whole Γ) (bootstrapKeyring crypto force) (Sound crypto) := by
  intro w hw
  refine ends_seq (M := fun existing w' => existing = w.secrets ∧ w' = w) (ends_exec (fun _ => hw)
    (fun _ _ _ => ⟨rfl, rfl⟩) (fun _ _ _ _ => hw) (fun _ _ _ _ => hw)) ?_
  rintro existing w₁ ⟨hexisting, hw₁⟩
  subst hw₁
  refine ends_seq (M := fun _ w' => w' = w₁) (ends_exec (fun _ => hw) (fun _ _ _ => rfl) (fun _ _ _ _ => hw)
    (fun _ _ _ _ => hw)) ?_
  rintro - w₂ rfl
  refine ends_seq (M := fun _ (w : Keyring) => Sound crypto w.files) ?_ fun done w hw =>
    ends_ite (fun _ => hw) (fun _ => hw)
  refine ends_seq (ends_protocol hw (fun _ _ => keeps_mint_reality) fun gaps => ends_heal_reality gaps hw hexisting)
    fun _ w hw => ?_
  refine ends_seq (ends_protocol hw (fun _ _ => keeps_mint_hysteria2) fun gaps => keeps_heal_nil gaps w hw) fun _ w hw => ?_
  refine ends_seq (ends_protocol hw (fun _ _ => keeps_mint_ikev2) fun gaps => keeps_heal_nil gaps w hw) fun _ w hw => ?_
  refine ends_seq (ends_protocol hw ?_ fun gaps => keeps_heal_nil gaps w hw) fun _ w hw => hw
  rintro e _ h
  obtain rfl := Except.ok.inj h
  exact fun w hw => hw

/-! ## A run without `--force` -/

/-- The protocol's bootstrap makes a secret of that name. -/
def Source.Makes (source : Source Γ) (name : String) : Prop :=
  ∃ e secrets, source.bootstrap e = .ok secrets ∧ name ∈ secrets.map (·.1)

/-- What a run found stands, and a set that is half there got nothing but what can be rebuilt. -/
structure ToppedUp (crypto : Crypto Γ) (w : Keyring) (files : String → Option Bytes) : Prop where
  kept : ∀ name content, w.files name = some content → content ≠ [] → files name = some content
  derived : ∀ source ∈ sources crypto, (∃ name, source.Makes name ∧ w.secrets.has name) →
    ∀ name, source.Makes name → files name ≠ w.files name → name ∈ source.derivable.map (·.1)

/-- What a protocol makes does not depend on what it draws. -/
theorem bootstrap_names {source : Source Γ} (h : source ∈ sources crypto) {e e' : Entropy Γ}
    {secrets secrets' : List (String × Bytes)} (hs : source.bootstrap e = .ok secrets)
    (hs' : source.bootstrap e' = .ok secrets') : secrets.map (·.1) = secrets'.map (·.1) := by
  simp only [sources, List.mem_cons, List.not_mem_nil, or_false] at h
  rcases h with rfl | rfl | rfl | rfl
  · simp only [vlessReality, Except.bind_eq_ok, Except.pure_eq_ok] at hs hs'
    obtain ⟨_, -, rfl⟩ := hs
    obtain ⟨_, -, rfl⟩ := hs'
    rfl
  · obtain rfl := Except.ok.inj hs
    obtain rfl := Except.ok.inj hs'
    rfl
  · obtain rfl := Except.ok.inj hs
    obtain rfl := Except.ok.inj hs'
    rfl
  · obtain rfl := Except.ok.inj hs
    obtain rfl := Except.ok.inj hs'
    rfl

/-- The first letter of a secret says whose it is. -/
theorem makes_initial {source : Source Γ} (h : source ∈ sources crypto) {name : String} (hm : source.Makes name) :
    (source = vlessReality crypto ∧ name.toList.head? = some 'r') ∨ (source = hysteria2 crypto ∧ name.toList.head? = some 'h') ∨
      (source = ikev2 ∧ name.toList.head? = some 'i') := by
  obtain ⟨e, secrets, hs, hname⟩ := hm
  simp only [sources, List.mem_cons, List.not_mem_nil, or_false] at h
  rcases h with rfl | rfl | rfl | rfl
  · simp only [vlessReality, Except.bind_eq_ok, Except.pure_eq_ok] at hs
    obtain ⟨_, -, rfl⟩ := hs
    simp only [List.map_cons, List.map_nil, List.mem_cons, List.not_mem_nil, or_false] at hname
    refine .inl ⟨rfl, ?_⟩
    rcases hname with rfl | rfl | rfl <;> rfl
  · obtain rfl := Except.ok.inj hs
    simp only [List.map_cons, List.map_nil, List.mem_cons, List.not_mem_nil, or_false] at hname
    refine .inr (.inl ⟨rfl, ?_⟩)
    rcases hname with rfl | rfl | rfl <;> rfl
  · obtain rfl := Except.ok.inj hs
    simp only [List.map_cons, List.map_nil, List.mem_cons, List.not_mem_nil, or_false] at hname
    refine .inr (.inr ⟨rfl, ?_⟩)
    rcases hname with rfl | rfl | rfl <;> rfl
  · obtain rfl := Except.ok.inj hs
    nomatch hname

/-- No secret is made by two protocols. -/
theorem makes_unique {s t : Source Γ} (hs : s ∈ sources crypto) (ht : t ∈ sources crypto) {name : String}
    (hsn : s.Makes name) (htn : t.Makes name) : s = t := by
  rcases makes_initial hs hsn with ⟨rfl, hi⟩ | ⟨rfl, hi⟩ | ⟨rfl, hi⟩ <;>
    rcases makes_initial ht htn with ⟨rfl, hj⟩ | ⟨rfl, hj⟩ | ⟨rfl, hj⟩ <;>
      first | rfl | (rw [hi] at hj; exact absurd hj (by decide))

/-- A run without `--force` may write this secret: it lacks it, and where its set is half there it can be rebuilt. -/
structure MayWrite (crypto : Crypto Γ) (existing : Secrets) (name : String) : Prop where
  lacks : existing.has name = false
  derivable : ∀ source ∈ sources crypto, source.Makes name → (∃ n, source.Makes n ∧ existing.has n) →
    name ∈ source.derivable.map (·.1)

/-- The secret a call is part of the writing of. -/
def Op.target : Op → Option String
  | .openTmp name | .fill name _ | .replace name | .unlinkTmp name => some name
  | .load | .mkdir | .mint => none

section Uses

variable {S : String → Prop} {existing : Secrets}

/-- A write is on the secret it names. -/
theorem uses_write {name : String} (h : S name) (content : Bytes) :
    (write (Γ := Γ) name content).Uses fun o => ∀ n ∈ o.target, S n := by
  have hop : ∀ o : Op, o.target = some name → ∀ n ∈ o.target, S n := by
    intro o ho n hn
    rw [ho, Option.mem_some_iff] at hn
    exact hn ▸ h
  exact Script.uses_bind (Script.uses_op (hop _ rfl)) fun _ => Script.uses_bind (Script.uses_tryFinally
    (Script.uses_bind (Script.uses_op (hop _ rfl)) fun _ => Script.uses_op (hop _ rfl)) (Script.uses_op (hop _ rfl)))
    fun _ => Script.uses_pure _

/-- A healing writes only gaps that can be derived. -/
theorem uses_heal {derivable : List (String × (Secrets → Except Exc Bytes))} {gaps : List String}
    (h : ∀ name ∈ gaps, name ∈ derivable.map (·.1) → S name) :
    (heal (Γ := Γ) derivable gaps existing).Uses fun o => ∀ n ∈ o.target, S n := by
  refine Script.uses_foldlM fun healed name hname => ?_
  split
  · exact Script.uses_pure _
  · rename_i derive hlookup
    split
    · exact Script.uses_pure _
    · have hmem : name ∈ derivable.map (·.1) := by
        have hsome : (derivable.lookup name).isSome := by rw [hlookup]; rfl
        obtain ⟨v, hv⟩ := List.lookup_isSome_iff.mp hsome
        exact List.mem_map.mpr ⟨_, hv.1, (beq_iff_eq.mp hv.2).symm⟩
      exact Script.uses_bind (uses_write (h name hname hmem) _) fun _ => Script.uses_pure _

/-- The turn of a protocol writes only what it may. -/
theorem uses_protocol {source : Source Γ} (hsource : source ∈ sources crypto) (progress : Progress) :
    (protocol false existing progress source).Uses fun o => ∀ n ∈ o.target, MayWrite crypto existing n := by
  refine Script.uses_bind (Script.uses_op nofun) fun e => ?_
  cases hsecrets : source.bootstrap e with
  | error exc => exact Script.uses_raise exc
  | ok secrets =>
    have hmakes : ∀ name ∈ secrets.map (·.1), source.Makes name := fun name hname => ⟨e, secrets, hsecrets, hname⟩
    refine Script.uses_ite (fun hhave => ?_) (fun hhave => ?_)
    · refine Script.uses_bind (uses_heal fun name hname hder => ?_) fun _ => Script.uses_pure _
      obtain ⟨hname, hlacks⟩ := List.mem_filter.mp hname
      refine ⟨by simpa using hlacks, fun t ht hm _ => ?_⟩
      rwa [makes_unique ht hsource hm (hmakes name hname)]
    · -- Nothing of the set is there.
      have hnone : ∀ name, source.Makes name → existing.has name = false := by
        rintro name ⟨e', secrets', hs', hname⟩
        rw [bootstrap_names hsource hs' hsecrets] at hname
        by_contra hhas
        rw [Bool.not_eq_false] at hhas
        exact hhave ⟨List.ne_nil_of_mem (List.mem_filter.mpr ⟨hname, hhas⟩), rfl⟩
      refine Script.uses_bind (Script.uses_forM fun s hs => uses_write ?_ _) fun _ => Script.uses_pure _
      have hm := hmakes s.1 (List.mem_map_of_mem hs)
      refine ⟨hnone _ hm, fun t ht hmt hhalf => ?_⟩
      obtain rfl := makes_unique ht hsource hmt hm
      obtain ⟨n, hn, hhas⟩ := hhalf
      rw [hnone n hn] at hhas
      nomatch hhas

end Uses

/-- A run without `--force` changes no file that was there and not empty, and tops up no set. -/
theorem toppedUp_bootstrapKeyring (w : Keyring) (choices : List (Choice Γ)) :
    ToppedUp crypto w ((bootstrapKeyring crypto false).run disk choices w).2.files := by
  have hkeeps : ∀ (o : Op), (∀ n ∈ o.target, MayWrite crypto w.secrets n) → ∀ (c : Choice Γ) (w' : Keyring), True →
      (∀ n, w'.files n = w.files n ∨ MayWrite crypto w.secrets n) →
      ∀ n, (disk o c w').2.files n = w.files n ∨ MayWrite crypto w.secrets n := by
    intro o ho c w' _ hw'
    refine withFaults_keeps (I := fun w' : Keyring => ∀ n, w'.files n = w.files n ∨ MayWrite crypto w.secrets n)
      (fun c w' hw' n => ?_) c w' hw'
    cases o with
    | replace name =>
      simp only [exec]
      split
      · by_cases hn : n = name
        · exact .inr (hn ▸ ho name rfl)
        · simp only [Function.update_of_ne hn]
          exact hw' n
      · exact hw' n
    | _ => exact hw' n
  have hends : ends disk (.any Op Keyring (Choice Γ)) (bootstrapKeyring crypto false)
      (fun _ w' => ∀ n, w'.files n = w.files n ∨ MayWrite crypto w.secrets n)
      (fun _ w' => ∀ n, w'.files n = w.files n ∨ MayWrite crypto w.secrets n)
      (fun w' => ∀ n, w'.files n = w.files n ∨ MayWrite crypto w.secrets n) w := by
    have hw : ∀ n, w.files n = w.files n ∨ MayWrite crypto w.secrets n := fun n => .inl rfl
    refine ends_seq (M := fun existing w' => existing = w.secrets ∧ w' = w) (ends_exec (fun _ => hw)
      (fun _ _ _ => ⟨rfl, rfl⟩) (fun _ _ _ _ => hw) (fun _ _ _ _ => hw)) ?_
    rintro existing w' ⟨rfl, rfl⟩
    refine ends_of_uses (Script.uses_bind (Script.uses_op nofun) fun _ => Script.uses_bind
      (Script.uses_foldlM fun progress source hsource => uses_protocol hsource progress) fun done => ?_) hkeeps hw
    exact Script.uses_ite (fun _ => Script.uses_raise _) (fun _ => Script.uses_pure _)
  have hrun := ends_run_any hends choices
  revert hrun
  generalize (bootstrapKeyring crypto false).run disk choices w = result
  intro hrun
  have hfiles : ∀ n, result.2.files n = w.files n ∨ MayWrite crypto w.secrets n := by
    obtain ⟨_ | _ | _, w'⟩ := result <;> exact hrun
  constructor
  · intro name content hname hne
    rcases hfiles name with h | h
    · rw [h, hname]
    · have hlacks := h.lacks
      simp [Secrets.has, Keyring.secrets, hname, hne] at hlacks
  · intro source hsource hhalf name hm hchanged
    rcases hfiles name with h | h
    · exact absurd h hchanged
    · exact h.derivable source hsource hm hhalf

/-! ## Every life of a keyring -/

/-- No run of a life is cut short in the window. -/
def Whole (crypto : Crypto Γ) (w : Keyring) (a : Bool × List (Choice Γ)) : Prop :=
  (bootstrapKeyring crypto a.1).Within disk (whole Γ) a.2 w

/-- The step lemma: a run outside the window keeps the pairs. -/
theorem sound_step {w w' : Keyring} {a : Bool × List (Choice Γ)} (hw : Sound crypto w.files) (ha : Whole crypto w a)
    (hstep : step crypto w a = some w') : Sound crypto w'.files := by
  have hrun := ends_run (keeps_bootstrapKeyring a.1 w hw) ha
  obtain rfl := Option.some_inj.mp hstep
  revert hrun
  generalize (bootstrapKeyring crypto a.1).run disk a.2 w = result
  intro hrun
  obtain ⟨_ | _ | _, w'⟩ := result <;> exact hrun

/-- In every life in which no run is cut short between the halves of a pair it overwrites, the pairs agree; and whatever a run
without `--force` meets, it changes nothing that was there and adds to a half-present set only what can be rebuilt. -/
theorem keyring_pairs (crypto : Crypto Γ) :
    (∀ runs w, run (step crypto) {} runs = some w → Along (step crypto) (Whole crypto) {} runs → Paired crypto w.files) ∧
      ∀ w choices, ToppedUp crypto w ((bootstrapKeyring crypto false).run disk choices w).2.files :=
  ⟨fun _ _ hrun hwhole => (run_invariant (I := fun w : Keyring => Sound crypto w.files) (fun _ _ _ hw ha hs => sound_step hw ha hs)
    sound_empty hwhole hrun).paired, toppedUp_bootstrapKeyring⟩

/-- A key whose public half is itself, and two certificates. -/
def sampleCrypto : Crypto Bool where
  x25519 := ⟨fun b => (b ++ List.replicate 32 0).take 32, by simp⟩
  certificates := ⟨fun g => [if g then 1 else 2], fun g => [if g then 1 else 2], fun _ =>
    List.cons_ne_nil _ _, fun _ => List.cons_ne_nil _ _⟩

/-- What a run draws. -/
def draw (g : Bool) : Choice Bool where
  entropy := ⟨List.replicate 32 (if g then 1 else 2), [1], g, [1], [1], [1], [1], by simp, by simp⟩

instance (w : Keyring) (o : Op) (p : KeyPair) : Decidable (p.Between w o) := by
  cases o <;> unfold KeyPair.Between <;> infer_instance

instance (w : Keyring) (o : Op) (p : KeyPair) (f : Fault Exc) : Decidable (p.Breaks w o f) := by
  cases o <;> unfold KeyPair.Breaks <;> infer_instance

instance decidableForallKeyPair {P : KeyPair → Prop} [∀ p, Decidable (P p)] : Decidable (∀ p, P p) :=
  decidable_of_iff (P .reality ∧ P .certificate) ⟨fun h p => by cases p; exacts [h.1, h.2], fun h => ⟨h _, h _⟩⟩

instance (o : Op) (c : Choice Γ) (w : Keyring) : Decidable ((whole Γ).choice o c w) :=
  inferInstanceAs (Decidable (∀ p : KeyPair, w.files p.second ≠ none → ¬ p.Breaks w o c.fault))

instance (o : Op) (w : Keyring) : Decidable ((whole Γ).stop o w) :=
  inferInstanceAs (Decidable (∀ p : KeyPair, w.files p.second ≠ none → ¬ p.Between w o))

instance (w : Keyring) (a : Bool × List (Choice Γ)) : Decidable (Whole crypto w a) :=
  inferInstanceAs (Decidable ((bootstrapKeyring crypto a.1).Within disk (whole Γ) a.2 w))

/-- A run is killed behind the first file, and the next one rebuilds its other half. -/
theorem keyring_pairs_rebuilt : ∃ w, run (step sampleCrypto) {} [(false, List.replicate 7 (draw true)),
    (false, List.replicate 40 (draw false))] = some w ∧ (w.files "reality.pub").isSome ∧ Paired sampleCrypto w.files := by
  have hwhole : Along (step sampleCrypto) (Whole sampleCrypto) {} [(false, List.replicate 7 (draw true)),
    (false, List.replicate 40 (draw false))] := by decide +kernel
  exact ⟨_, rfl, by decide +kernel, (keyring_pairs sampleCrypto).1 _ _ rfl hwhole⟩

/-- A run with `--force` is killed behind the new key: the public half of the old one stands beside it. -/
theorem keyring_torn : ¬ ∀ runs w, run (step sampleCrypto) {} runs = some w → Paired sampleCrypto w.files := by
  intro hpaired
  have hagree := hpaired [(false, List.replicate 40 (draw true)), (true, List.replicate 6 (draw false))] _ rfl .reality
    (Text.encode (RealityKey.generatePrivateKey (List.replicate 32 2)))
    (Text.encode (RealityKey.generatePrivateKey (List.replicate 32 1))) (by decide +kernel) (by decide +kernel)
  have heq := (isPublic_generated (by simp)).mp hagree
  exact absurd heq (by decide +kernel)

end Bootstrap

end VpnStack

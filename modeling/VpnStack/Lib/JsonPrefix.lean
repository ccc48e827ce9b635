import VpnStack.Lib.JsonReader

/-!
# A value is read from its own text

What the reader takes for a token or a value depends on the text it takes and not on what stands behind: the same text is read
the same way in front of anything else. So a document can lose the white space around it, and is the same document.
-/

namespace Json

/-- The reader takes `p` for `a`, whatever stands behind it. -/
def Takes {α : Type} (read : Text → Option (α × Text)) (p : Text) (a : α) : Prop := ∀ t, read (p ++ t) = some (a, t)

/-! ## Tokens -/

/-- White space goes as far as the first other character. -/
theorem skipWhite_split {s : Text} {c : Char} {r : Text} (h : skipWhite s = c :: r) :
    ∃ w, s = w ++ c :: r ∧ ∀ t, skipWhite (w ++ c :: t) = c :: t := by
  have hc : isWhite c = false := by
    have hhead := List.head?_dropWhile_not isWhite s
    rw [skipWhite] at h
    rw [h] at hhead
    exact hhead
  refine ⟨s.takeWhile isWhite, ?_, fun t => ?_⟩
  · rw [← h, skipWhite, List.takeWhile_append_dropWhile]
  · rw [skipWhite, List.dropWhile_append_of_pos fun d hd => List.mem_takeWhile_imp hd, List.dropWhile_cons_of_neg (by simp [hc])]

/-- What is skipped up to a character of no number ends one. -/
theorem ended_of_skipWhite {s : Text} {c : Char} {r : Text} (h : skipWhite s = c :: r) (hc : isNumberChar c = false) :
    Ended s := by
  intro d hd
  obtain ⟨w, rfl, -⟩ := skipWhite_split h
  cases w with
  | nil =>
    obtain rfl : c = d := by simpa using hd
    exact hc
  | cons e w =>
    obtain rfl : e = d := by simpa using hd
    by_contra hnum
    have hwhite := isWhite_of_isNumberChar (by simpa using hnum)
    rw [skipWhite, List.cons_append, List.dropWhile_cons_of_neg (by simp [hwhite])] at h
    obtain ⟨rfl, -⟩ := List.cons.inj h
    exact hnum hc

/-- Four digits are taken whatever stands behind them. -/
theorem readHex4_takes {s : Text} {n : Nat} {r : Text} (h : readHex4 s = some (n, r)) :
    ∃ p, s = p ++ r ∧ Takes readHex4 p n := by
  unfold readHex4 at h
  split at h
  · rename_i a b c d s
    split at h
    · rename_i ha hb hc hd
      obtain ⟨rfl, rfl⟩ := Prod.mk.inj (Option.some.inj h)
      refine ⟨[a, b, c, d], rfl, fun t => ?_⟩
      simp [readHex4, ha, hb, hc, hd]
    · cases h
  · cases h

/-- A code unit, or a pair of them, is taken whatever stands behind it. -/
theorem readUnit_takes {n : Nat} {s : Text} {d : Char} {r : Text} (h : readUnit n s = some (d, r)) :
    ∃ p, s = p ++ r ∧ Takes (readUnit n) p d := by
  unfold readUnit at h
  split at h
  · rename_i hhigh
    split at h
    · rename_i s
      split at h
      · rename_i m s' hread
        split at h
        · rename_i hlow
          obtain ⟨rfl, rfl⟩ := Prod.mk.inj (Option.some.inj h)
          obtain ⟨p, rfl, hp⟩ := readHex4_takes hread
          refine ⟨'\\' :: 'u' :: p, rfl, fun t => ?_⟩
          have hpt := hp t
          simp [readUnit, hhigh, hpt, hlow]
        · cases h
      · cases h
    · cases h
  · rename_i hhigh
    split at h
    · cases h
    · rename_i hlow
      obtain ⟨rfl, rfl⟩ := Prod.mk.inj (Option.some.inj h)
      refine ⟨[], rfl, fun t => ?_⟩
      unfold readUnit
      rw [if_neg hhigh, if_neg hlow]
      rfl

/-- An escape is taken whatever stands behind it. -/
theorem readEscape_takes {s : Text} {d : Char} {r : Text} (h : readEscape s = some (d, r)) :
    ∃ p, s = p ++ r ∧ Takes readEscape p d := by
  unfold readEscape at h
  split at h
  iterate 8
    obtain ⟨rfl, rfl⟩ := Prod.mk.inj (Option.some.inj h)
    exact ⟨[_], rfl, fun t => rfl⟩
  · split at h
    · rename_i n s' hread
      obtain ⟨p, rfl, hp⟩ := readHex4_takes hread
      obtain ⟨q, rfl, hq⟩ := readUnit_takes h
      refine ⟨'u' :: (p ++ q), by simp, fun t => ?_⟩
      have hpt := hp (q ++ t)
      have hqt := hq t
      simp only [List.cons_append, List.append_assoc, readEscape, hpt, hqt]
    · cases h
  · cases h

/-- A string literal is read to its closing quote, with a bound that is no less than its length. -/
theorem readString_takes {n : Nat} {s : Text} {k : Text} {r : Text} (h : readString n s = some (k, r)) :
    ∃ p, s = p ++ r ∧ ∀ m, p.length ≤ m → Takes (readString m) p k := by
  induction n generalizing s k with
  | zero => cases h
  | succ n ih =>
    cases s with
    | nil => cases h
    | cons c s =>
      rw [readString] at h
      split at h
      · rename_i hquote
        obtain ⟨rfl, rfl⟩ := Prod.mk.inj (Option.some.inj h)
        refine ⟨[c], rfl, fun m hm t => ?_⟩
        obtain ⟨m, rfl⟩ := Nat.exists_eq_succ_of_ne_zero (n := m) (by simp at hm; omega)
        rw [List.cons_append, readString, if_pos hquote]
        rfl
      · rename_i hquote
        split at h
        · rename_i hslash
          split at h
          · rename_i d s' hescape
            obtain ⟨⟨k', r'⟩, hread, heq⟩ := Option.map_eq_some_iff.mp h
            obtain ⟨rfl, rfl⟩ := Prod.mk.inj heq
            obtain ⟨p, rfl, hp⟩ := readEscape_takes hescape
            obtain ⟨q, rfl, hq⟩ := ih hread
            refine ⟨c :: (p ++ q), by simp, fun m hm t => ?_⟩
            obtain ⟨m, rfl⟩ := Nat.exists_eq_succ_of_ne_zero (n := m) (by simp at hm; omega)
            have hpt := hp (q ++ t)
            have hqt := hq m (by simp at hm; omega) t
            rw [List.cons_append, List.append_assoc, readString, if_neg hquote, if_pos hslash, hpt]
            dsimp only
            rw [hqt]
            rfl
          · cases h
        · rename_i hslash
          split at h
          · cases h
          · rename_i hcontrol
            obtain ⟨⟨k', r'⟩, hread, heq⟩ := Option.map_eq_some_iff.mp h
            obtain ⟨rfl, rfl⟩ := Prod.mk.inj heq
            obtain ⟨q, rfl, hq⟩ := ih hread
            refine ⟨c :: q, rfl, fun m hm t => ?_⟩
            obtain ⟨m, rfl⟩ := Nat.exists_eq_succ_of_ne_zero (n := m) (by simp at hm; omega)
            have hqt := hq m (by simp at hm; omega) t
            rw [List.cons_append, readString, if_neg hquote, if_neg hslash, if_neg hcontrol, hqt]
            rfl

/-! ## Values -/

/-- Only what stands behind the white space counts. -/
theorem readValue_congr {s t : Text} (h : skipWhite s = skipWhite t) (n : Nat) : readValue n s = readValue n t := by
  cases n with
  | zero => rfl
  | succ n => rw [readValue, readValue, h]

/-- What the reader takes for a value, for the items of an array and for the members of an object, with their brackets. The bound
is twice the length of what is taken. -/
structure ReadsOwn (n : Nat) : Prop where
  value : ∀ {s v r}, readValue n s = some (v, r) →
    ∃ p, s = p ++ r ∧ p ≠ [] ∧ ∀ m, 2 * p.length ≤ m → ∀ t, Ended t → readValue m (p ++ t) = some (v, t)
  items : ∀ {s vs r}, readItems n s = some (vs, r) →
    ∃ p, s = p ++ ']' :: r ∧ ∀ m, 2 * p.length + 2 ≤ m → ∀ t, readItems m (p ++ ']' :: t) = some (vs, t)
  members : ∀ {s ms r}, readMembers n s = some (ms, r) →
    ∃ p, s = p ++ '\x7d' :: r ∧ ∀ m, 2 * p.length + 2 ≤ m → ∀ t, readMembers m (p ++ '\x7d' :: t) = some (ms, t)

/-- A number is taken up to what ends it. -/
theorem readsOwn_number {s : Text} {v : Json} {r : Text} (h : readNumber (skipWhite s) = some (v, r)) :
    ∃ p, s = p ++ r ∧ p ≠ [] ∧ ∀ m, 2 * p.length ≤ m → ∀ t, Ended t → readValue m (p ++ t) = some (v, t) := by
  obtain ⟨v', hnumber, heq⟩ := Option.map_eq_some_iff.mp h
  obtain ⟨rfl, rfl⟩ := Prod.mk.inj heq
  have hne : (skipWhite s).takeWhile isNumberChar ≠ [] := by
    intro hnil
    rw [hnil] at hnumber
    nomatch hnumber
  have hall : ∀ c ∈ (skipWhite s).takeWhile isNumberChar, isNumberChar c = true := fun c hc => List.mem_takeWhile_imp hc
  refine ⟨s.takeWhile isWhite ++ (skipWhite s).takeWhile isNumberChar, ?_, ?_, fun m hm t ht => ?_⟩
  · rw [List.append_assoc, List.takeWhile_append_dropWhile, skipWhite, List.takeWhile_append_dropWhile]
  · exact List.append_ne_nil_of_right_ne_nil _ hne
  · have hpos := List.length_pos_of_ne_nil hne
    obtain ⟨m, rfl⟩ := Nat.exists_eq_succ_of_ne_zero (n := m) (by simp at hm; omega)
    have hskip : skipWhite (s.takeWhile isWhite ++ (skipWhite s).takeWhile isNumberChar ++ t) =
        skipWhite ((skipWhite s).takeWhile isNumberChar ++ t) := by
      rw [List.append_assoc, skipWhite, List.dropWhile_append_of_pos fun d hd => List.mem_takeWhile_imp hd]
      rfl
    rw [readValue_congr hskip, readValue_number hall hne m ht, hnumber]
    rfl

/-- White space in front of a value is taken with it. -/
theorem readsOwn_behind {s p r : Text} {c : Char} {v : Json} (h : skipWhite s = c :: (p ++ r))
    (hread : ∀ m, 2 * p.length + 2 ≤ m → ∀ t, Ended t → readValue m (c :: (p ++ t)) = some (v, t)) :
    ∃ q, s = q ++ r ∧ q ≠ [] ∧ ∀ m, 2 * q.length ≤ m → ∀ t, Ended t → readValue m (q ++ t) = some (v, t) := by
  obtain ⟨w, rfl, hw⟩ := skipWhite_split h
  refine ⟨w ++ c :: p, by simp, by simp, fun m hm t ht => ?_⟩
  have hskip : skipWhite (w ++ c :: p ++ t) = skipWhite (c :: (p ++ t)) := by
    have hnone := hw (p ++ t)
    have hwhite : isWhite c = false := by
      have hhead := List.head?_dropWhile_not isWhite (w ++ c :: (p ++ t))
      rw [skipWhite] at hnone
      rw [hnone] at hhead
      exact hhead
    rw [List.append_assoc, List.cons_append, hnone, skipWhite, List.dropWhile_cons_of_neg (by simp [hwhite])]
  rw [readValue_congr hskip]
  refine hread m ?_ t ht
  simp only [List.length_append, List.length_cons] at hm
  omega

/-- No items are read where the list ends. -/
theorem readItems_of_close {s rest : Text} (h : skipWhite s = ']' :: rest) (n : Nat) : readItems n s = none := by
  cases n with
  | zero => rfl
  | succ n =>
    have hnone : readValue n s = none := by
      cases n with
      | zero => rfl
      | succ n =>
        rw [readValue, h]
        rfl
    rw [readItems, hnone]

/-- No members are read where the object does. -/
theorem readMembers_of_close {s rest : Text} (h : skipWhite s = '\x7d' :: rest) (n : Nat) : readMembers n s = none := by
  cases n with
  | zero => rfl
  | succ n =>
    rw [readMembers, h]
    rfl

/-- What stands behind a member: a comma and more of them, or the closing brace. -/
def behindMember (n : Nat) (m : Text × Json) (s : Text) : Option (List (Text × Json) × Text) :=
  match skipWhite s with
  | ',' :: s => (readMembers n s).map fun r => (m :: r.1, r.2)
  | '\x7d' :: s => some ([m], s)
  | _ => none

/-- A member is its key, a colon and its value; what stands behind decides. -/
theorem readMembers_eq {n : Nat} {s s₁ s₂ s₃ t key : Text} {v : Json} (hquote : skipWhite s = '"' :: s₁)
    (hkey : readString s₁.length s₁ = some (key, s₂)) (hcolon : skipWhite s₂ = ':' :: s₃)
    (hvalue : readValue n s₃ = some (v, t)) :
    readMembers (n + 1) s = behindMember n (key, v) t := by
  rw [readMembers, hquote]
  simp only [hkey, hcolon, hvalue]
  rfl

/-- A value is taken where the values inside it are. -/
theorem ReadsOwn.value_succ {n : Nat} (ih : ReadsOwn n) {s : Text} {v : Json} {r : Text} (h : readValue (n + 1) s = some (v, r)) :
    ∃ p, s = p ++ r ∧ p ≠ [] ∧ ∀ m, 2 * p.length ≤ m → ∀ t, Ended t → readValue m (p ++ t) = some (v, t) := by
  rw [readValue] at h
  split at h
  · rename_i s' hskip
    obtain ⟨rfl, rfl⟩ := Prod.mk.inj (Option.some.inj h)
    refine readsOwn_behind (p := "ull".toList) hskip fun m hm t _ => ?_
    obtain ⟨m, rfl⟩ := Nat.exists_eq_succ_of_ne_zero (n := m) (by omega)
    rfl
  · rename_i s' hskip
    obtain ⟨rfl, rfl⟩ := Prod.mk.inj (Option.some.inj h)
    refine readsOwn_behind (p := "rue".toList) hskip fun m hm t _ => ?_
    obtain ⟨m, rfl⟩ := Nat.exists_eq_succ_of_ne_zero (n := m) (by omega)
    rfl
  · rename_i s' hskip
    obtain ⟨rfl, rfl⟩ := Prod.mk.inj (Option.some.inj h)
    refine readsOwn_behind (p := "alse".toList) hskip fun m hm t _ => ?_
    obtain ⟨m, rfl⟩ := Nat.exists_eq_succ_of_ne_zero (n := m) (by omega)
    rfl
  · -- a string
    rename_i s' hskip
    obtain ⟨⟨k, r'⟩, hread, heq⟩ := Option.map_eq_some_iff.mp h
    obtain ⟨rfl, rfl⟩ := Prod.mk.inj heq
    obtain ⟨p, rfl, hp⟩ := readString_takes hread
    refine readsOwn_behind hskip fun m hm t _ => ?_
    obtain ⟨m, rfl⟩ := Nat.exists_eq_succ_of_ne_zero (n := m) (by omega)
    change (readString (p ++ t).length (p ++ t)).map _ = _
    rw [hp _ (by simp) t]
    rfl
  · -- an array
    rename_i s' hskip
    split at h
    · rename_i s'' hclose
      obtain ⟨rfl, rfl⟩ := Prod.mk.inj (Option.some.inj h)
      obtain ⟨w, rfl, hw⟩ := skipWhite_split hclose
      refine readsOwn_behind (p := w ++ [']']) (by simpa using hskip) fun m hm t _ => ?_
      obtain ⟨m, rfl⟩ := Nat.exists_eq_succ_of_ne_zero (n := m) (by omega)
      have hopen : skipWhite ('[' :: (w ++ [']'] ++ t)) = '[' :: (w ++ [']'] ++ t) := rfl
      have hwt : skipWhite (w ++ [']'] ++ t) = ']' :: t := by simpa using hw t
      simp only [readValue, hopen, hwt]
    · obtain ⟨⟨items, r'⟩, hread, heq⟩ := Option.map_eq_some_iff.mp h
      obtain ⟨rfl, rfl⟩ := Prod.mk.inj heq
      obtain ⟨p, rfl, hp⟩ := ih.items hread
      refine readsOwn_behind (p := p ++ [']']) (by simpa using hskip) fun m hm t _ => ?_
      obtain ⟨m, rfl⟩ := Nat.exists_eq_succ_of_ne_zero (n := m) (by omega)
      have hitems := hp m (by simp at hm; omega) t
      have hstart : ∀ rest, skipWhite (p ++ ']' :: t) ≠ ']' :: rest := by
        intro rest hclose
        rw [readItems_of_close hclose] at hitems
        cases hitems
      rw [List.append_assoc, List.singleton_append, readValue_items hstart, hitems]
      rfl
  · -- an object
    rename_i s' hskip
    split at h
    · rename_i s'' hclose
      obtain ⟨rfl, rfl⟩ := Prod.mk.inj (Option.some.inj h)
      obtain ⟨w, rfl, hw⟩ := skipWhite_split hclose
      refine readsOwn_behind (p := w ++ ['\x7d']) (by simpa using hskip) fun m hm t _ => ?_
      obtain ⟨m, rfl⟩ := Nat.exists_eq_succ_of_ne_zero (n := m) (by omega)
      have hopen : skipWhite ('\x7b' :: (w ++ ['\x7d'] ++ t)) = '\x7b' :: (w ++ ['\x7d'] ++ t) := rfl
      have hwt : skipWhite (w ++ ['\x7d'] ++ t) = '\x7d' :: t := by simpa using hw t
      simp only [readValue, hopen, hwt]
    · obtain ⟨⟨members, r'⟩, hread, heq⟩ := Option.map_eq_some_iff.mp h
      obtain ⟨rfl, rfl⟩ := Prod.mk.inj heq
      obtain ⟨p, rfl, hp⟩ := ih.members hread
      refine readsOwn_behind (p := p ++ ['\x7d']) (by simpa using hskip) fun m hm t _ => ?_
      obtain ⟨m, rfl⟩ := Nat.exists_eq_succ_of_ne_zero (n := m) (by omega)
      have hmembers := hp m (by simp at hm; omega) t
      have hstart : ∀ rest, skipWhite (p ++ '\x7d' :: t) ≠ '\x7d' :: rest := by
        intro rest hclose
        rw [readMembers_of_close hclose] at hmembers
        cases hmembers
      rw [List.append_assoc, List.singleton_append, readValue_members hstart, hmembers]
      rfl
  · exact readsOwn_number h

/-- The items of a list are taken, with its bracket, where each of them is. -/
theorem ReadsOwn.items_succ {n : Nat} (ih : ReadsOwn n) {s : Text} {vs : List Json} {r : Text}
    (h : readItems (n + 1) s = some (vs, r)) :
    ∃ p, s = p ++ ']' :: r ∧ ∀ m, 2 * p.length + 2 ≤ m → ∀ t, readItems m (p ++ ']' :: t) = some (vs, t) := by
  rw [readItems] at h
  split at h
  · cases h
  · rename_i v s' hvalue
    obtain ⟨p, rfl, -, hp⟩ := ih.value hvalue
    split at h
    · -- another item
      rename_i s'' hcomma
      obtain ⟨⟨rest, r'⟩, hread, heq⟩ := Option.map_eq_some_iff.mp h
      obtain ⟨rfl, rfl⟩ := Prod.mk.inj heq
      obtain ⟨w, rfl, hw⟩ := skipWhite_split hcomma
      obtain ⟨q, rfl, hq⟩ := ih.items hread
      refine ⟨p ++ (w ++ ',' :: q), by simp, fun m hm t => ?_⟩
      simp only [List.length_append, List.length_cons] at hm
      obtain ⟨m, rfl⟩ := Nat.exists_eq_succ_of_ne_zero (n := m) (by omega)
      have hskip := hw (q ++ ']' :: t)
      have hvalue' := hp m (by omega) _ (ended_of_skipWhite hskip rfl)
      have hitems := hq m (by omega) t
      have htext : p ++ (w ++ ',' :: q) ++ ']' :: t = p ++ (w ++ ',' :: (q ++ ']' :: t)) := by simp
      rw [htext, readItems, hvalue']
      dsimp only
      rw [hskip]
      change (readItems m (q ++ ']' :: t)).map _ = _
      rw [hitems]
      rfl
    · -- the end of the array
      rename_i s'' hclose
      obtain ⟨rfl, rfl⟩ := Prod.mk.inj (Option.some.inj h)
      obtain ⟨w, rfl, hw⟩ := skipWhite_split hclose
      refine ⟨p ++ w, by simp, fun m hm t => ?_⟩
      simp only [List.length_append] at hm
      obtain ⟨m, rfl⟩ := Nat.exists_eq_succ_of_ne_zero (n := m) (by omega)
      have hskip := hw t
      have hvalue' := hp m (by omega) _ (ended_of_skipWhite hskip rfl)
      rw [List.append_assoc, readItems, hvalue']
      dsimp only
      rw [hskip]
      rfl
    · cases h

/-- The members of an object are taken, with its brace, where the value of each is. -/
theorem ReadsOwn.members_succ {n : Nat} (ih : ReadsOwn n) {s : Text} {ms : List (Text × Json)} {r : Text}
    (h : readMembers (n + 1) s = some (ms, r)) :
    ∃ p, s = p ++ '\x7d' :: r ∧ ∀ m, 2 * p.length + 2 ≤ m → ∀ t, readMembers m (p ++ '\x7d' :: t) = some (ms, t) := by
  have hread := h
  rw [readMembers] at h
  split at h <;> try cases h
  rename_i s₁ hquote
  split at h <;> try cases h
  rename_i key s₂ hkey
  split at h <;> try cases h
  rename_i s₃ hcolon
  split at h <;> try cases h
  rename_i v s₄ hvalue
  rw [readMembers_eq hquote hkey hcolon hvalue, behindMember] at hread
  obtain ⟨w, rfl, hw⟩ := skipWhite_split hquote
  obtain ⟨k, rfl, hk⟩ := readString_takes hkey
  obtain ⟨w', rfl, hw'⟩ := skipWhite_split hcolon
  obtain ⟨p, rfl, -, hp⟩ := ih.value hvalue
  -- the same member in front of anything that goes on as this text does
  have hfront : ∀ m t, 2 * p.length ≤ m → Ended t → readMembers (m + 1) (w ++ '"' :: (k ++ (w' ++ ':' :: (p ++ t)))) =
      behindMember m (key, v) t := fun m t hm ht =>
    readMembers_eq (hw _) (hk _ (by simp) _) (hw' _) (hp m hm t ht)
  split at hread
  · -- another member
    rename_i s₅ hcomma
    obtain ⟨⟨rest, r'⟩, hrest, heq⟩ := Option.map_eq_some_iff.mp hread
    obtain ⟨rfl, rfl⟩ := Prod.mk.inj heq
    obtain ⟨w₂, rfl, hw₂⟩ := skipWhite_split hcomma
    obtain ⟨q, rfl, hq⟩ := ih.members hrest
    refine ⟨w ++ '"' :: (k ++ (w' ++ ':' :: (p ++ (w₂ ++ ',' :: q)))), by simp, fun m hm t => ?_⟩
    simp only [List.length_append, List.length_cons] at hm
    obtain ⟨m, rfl⟩ := Nat.exists_eq_succ_of_ne_zero (n := m) (by omega)
    have hskip := hw₂ (q ++ '\x7d' :: t)
    have htext : w ++ '"' :: (k ++ (w' ++ ':' :: (p ++ (w₂ ++ ',' :: q)))) ++ '\x7d' :: t =
        w ++ '"' :: (k ++ (w' ++ ':' :: (p ++ (w₂ ++ ',' :: (q ++ '\x7d' :: t))))) := by simp
    rw [htext, hfront m _ (by omega) (ended_of_skipWhite hskip rfl), behindMember, hskip]
    change (readMembers m (q ++ '\x7d' :: t)).map _ = _
    rw [hq m (by omega) t]
    rfl
  · -- the end of the object
    rename_i s₅ hclose
    obtain ⟨rfl, rfl⟩ := Prod.mk.inj (Option.some.inj hread)
    obtain ⟨w₂, rfl, hw₂⟩ := skipWhite_split hclose
    refine ⟨w ++ '"' :: (k ++ (w' ++ ':' :: (p ++ w₂))), by simp, fun m hm t => ?_⟩
    simp only [List.length_append, List.length_cons] at hm
    obtain ⟨m, rfl⟩ := Nat.exists_eq_succ_of_ne_zero (n := m) (by omega)
    have hskip := hw₂ t
    have htext : w ++ '"' :: (k ++ (w' ++ ':' :: (p ++ w₂))) ++ '\x7d' :: t =
        w ++ '"' :: (k ++ (w' ++ ':' :: (p ++ (w₂ ++ '\x7d' :: t)))) := by simp
    rw [htext, hfront m _ (by omega) (ended_of_skipWhite hskip rfl), behindMember, hskip]
    rfl
  · cases hread

/-- By induction on the bound: each reader takes its own text. -/
theorem readsOwn (n : Nat) : ReadsOwn n := by
  induction n with
  | zero => exact ⟨fun h => (nomatch h), fun h => (nomatch h), fun h => (nomatch h)⟩
  | succ n ih => exact ⟨ih.value_succ, ih.items_succ, ih.members_succ⟩

/-! ## A document that is an object -/

/-- No number is read as an object. -/
theorem number_ne_obj {t : Text} {ms : List (Text × Json)} : number t ≠ some (.obj ms) := by
  unfold number
  split
  · split
    · exact fun h => nomatch h
    · split <;> exact fun h => nomatch h
  · exact fun h => nomatch h

/-- An object goes from its opening brace to its closing one. -/
theorem readValue_obj {n : Nat} {s : Text} {ms : List (Text × Json)} {r : Text} (h : readValue n s = some (.obj ms, r)) :
    ∃ p, skipWhite s = '\x7b' :: (p ++ '\x7d' :: r) := by
  cases n with
  | zero => cases h
  | succ n =>
    rw [readValue] at h
    split at h
    iterate 3 cases h
    · obtain ⟨_, -, heq⟩ := Option.map_eq_some_iff.mp h
      cases (Prod.mk.inj heq).1
    · split at h
      · cases h
      · obtain ⟨_, -, heq⟩ := Option.map_eq_some_iff.mp h
        cases (Prod.mk.inj heq).1
    · rename_i s' hskip
      split at h
      · rename_i s'' hclose
        obtain ⟨-, rfl⟩ := Prod.mk.inj (Option.some.inj h)
        obtain ⟨w, rfl, -⟩ := skipWhite_split hclose
        exact ⟨w, hskip⟩
      · obtain ⟨⟨members, r'⟩, hread, heq⟩ := Option.map_eq_some_iff.mp h
        obtain ⟨-, rfl⟩ := Prod.mk.inj heq
        obtain ⟨p, rfl, -⟩ := (readsOwn n).members hread
        exact ⟨p, hskip⟩
    · obtain ⟨v, hnumber, heq⟩ := Option.map_eq_some_iff.mp h
      obtain ⟨rfl, -⟩ := Prod.mk.inj heq
      exact absurd hnumber number_ne_obj

/-- A document that is an object stands between braces, with white space around them, and is the same document without it. -/
theorem loads_obj {s : Text} {ms : List (Text × Json)} (h : loads s = some (.obj ms)) :
    ∃ before body after, s = before ++ ('\x7b' :: (body ++ ['\x7d']) ++ after) ∧ (∀ c ∈ before, isWhite c = true) ∧
      (∀ c ∈ after, isWhite c = true) ∧ loads ('\x7b' :: (body ++ ['\x7d'])) = some (.obj ms) := by
  unfold loads at h
  split at h
  · rename_i v after hread
    split at h
    · rename_i hafter
      obtain rfl := Option.some.inj h
      obtain ⟨body, hskip⟩ := readValue_obj hread
      obtain ⟨p, hp, -, htakes⟩ := (readsOwn _).value hread
      have hsplit : s = s.takeWhile isWhite ++ ('\x7b' :: (body ++ ['\x7d']) ++ after) := by
        have hs := List.takeWhile_append_dropWhile (p := isWhite) (l := s)
        rw [← skipWhite, hskip] at hs
        simpa using hs.symm
      -- the same value without the white space in front, and with nothing behind
      have hboth : p ++ after = (s.takeWhile isWhite ++ '\x7b' :: (body ++ ['\x7d'])) ++ after := by
        rw [← hp]
        simpa using hsplit
      have hown : p = s.takeWhile isWhite ++ '\x7b' :: (body ++ ['\x7d']) := List.append_cancel_right hboth
      have hwhite : skipWhite (p ++ []) = skipWhite ('\x7b' :: (body ++ ['\x7d'])) := by
        rw [hown, List.append_nil, skipWhite, List.dropWhile_append_of_pos fun c hc => List.mem_takeWhile_imp hc]
        rfl
      have hempty : readValue (2 * p.length) ('\x7b' :: (body ++ ['\x7d'])) = some (.obj ms, []) := by
        rw [← readValue_congr hwhite]
        exact htakes _ (Nat.le_refl _) [] (fun c hc => by cases hc)
      refine ⟨_, body, after, hsplit, fun c hc => List.mem_takeWhile_imp hc, List.dropWhile_eq_nil_iff.mp hafter, ?_⟩
      obtain ⟨q, hq, -, hqtakes⟩ := (readsOwn _).value hempty
      rw [List.append_nil] at hq
      have hagain := hqtakes (2 * q.length) (Nat.le_refl _) [] (fun c hc => by cases hc)
      rw [List.append_nil, ← hq] at hagain
      rw [loads, hagain]
      rfl
    · cases h
  · cases h

end Json

import VpnStack.Lib.DartJson

/-!
# What `jsonEncode` writes is read back

The text that Dart writes for a JSON value, without white space and with few escapes, is read as that value; and an integer of 64
bits comes back as itself.
-/

namespace Dart

open Json

/-! ## Strings -/

/-- A character is read back as it is escaped. -/
theorem readString_jsonEscape (c : Char) (n : Nat) (s : Text) :
    readString (n + 1) (jsonEscape c ++ s) = (readString n s).map fun r => (c :: r.1, r.2) := by
  have hback : ∀ t, readEscape t = some (c, s) →
      readString (n + 1) ('\\' :: t) = (readString n s).map fun r => (c :: r.1, r.2) := by
    intro t ht
    rw [readString, if_neg (by decide), if_pos rfl, ht]
  unfold jsonEscape
  split
  iterate 7 exact hback _ rfl
  rename_i hquote hslash _ _ _ _ _
  split
  · rename_i hcontrol
    have hsmall : c.toNat < 0x10000 := by
      have hspace : c.toNat < 32 := hcontrol
      omega
    exact hback _ (readEscape_unit hsmall s)
  · rename_i hplain
    rw [List.singleton_append, readString, if_neg hquote, if_neg hslash, if_neg hplain]

/-- A text is read back up to its closing quote. -/
theorem readString_flatMap_jsonEscape (t : Text) {n : Nat} (h : t.length < n) (s : Text) :
    readString n (t.flatMap jsonEscape ++ '"' :: s) = some (t, s) := by
  induction t generalizing n with
  | nil =>
    obtain ⟨n, rfl⟩ : ∃ m, n = m + 1 := ⟨n - 1, by omega⟩
    rfl
  | cons c t ih =>
    obtain ⟨n, rfl⟩ : ∃ m, n = m + 1 := ⟨n - 1, by omega⟩
    rw [List.flatMap_cons, List.append_assoc, readString_jsonEscape, ih (by simpa using h)]
    rfl

/-- A literal is no shorter than its text. -/
theorem length_le_flatMap_jsonEscape (t : Text) : t.length ≤ (t.flatMap jsonEscape).length := by
  have hone : ∀ c, 1 ≤ (jsonEscape c).length := by
    intro c
    unfold jsonEscape
    split
    iterate 7 decide
    split <;> simp
  induction t with
  | nil => exact Nat.le_refl _
  | cons c t ih =>
    have hc := hone c
    rw [List.flatMap_cons, List.length_append, List.length_cons]
    omega

/-- A string literal is read back, behind its opening quote. -/
theorem readString_jsonQuote (t s : Text) :
    readString (t.flatMap jsonEscape ++ '"' :: s).length (t.flatMap jsonEscape ++ '"' :: s) = some (t, s) := by
  refine readString_flatMap_jsonEscape t ?_ s
  have hlength := length_le_flatMap_jsonEscape t
  rw [List.length_append, List.length_cons]
  omega

/-! ## Arrays and objects -/

/-- What is written begins with no white space, and not with a closing bracket. -/
theorem jsonEncode_cons (v : Json) : ∃ c t, jsonEncode v = c :: t ∧ isWhite c = false ∧ c ≠ ']' := by
  cases v with
  | null => exact ⟨_, _, rfl, rfl, by decide⟩
  | bool b => cases b <;> exact ⟨_, _, rfl, rfl, by decide⟩
  | num k =>
    obtain ⟨d, ds, hd⟩ := List.exists_cons_of_ne_nil (Nat.toDigits_ne_nil (n := k) (b := 10))
    have hdigit : isNumberChar d = true := numberChars_toDigits k d (hd ▸ List.mem_cons_self ..)
    refine ⟨d, ds, hd, isWhite_of_isNumberChar hdigit, ?_⟩
    rintro rfl
    exact absurd hdigit (by decide)
  | other k =>
    obtain ⟨d, ds, hd⟩ := List.exists_cons_of_ne_nil k.ne_nil
    have hchar : isNumberChar d = true := List.all_eq_true.mp k.chars d (hd ▸ List.mem_cons_self ..)
    refine ⟨d, ds, hd, isWhite_of_isNumberChar hchar, ?_⟩
    rintro rfl
    exact absurd hchar (by decide)
  | str t => exact ⟨_, _, rfl, rfl, by decide⟩
  | arr vs => cases vs <;> exact ⟨_, _, rfl, rfl, by decide⟩
  | obj ms => cases ms <;> exact ⟨_, _, rfl, rfl, by decide⟩

/-- A value does not begin like the end of a list. -/
theorem skipWhite_jsonEncode (v : Json) (s rest : Text) : skipWhite (jsonEncode v ++ s) ≠ ']' :: rest := by
  obtain ⟨c, t, hc, hwhite, hne⟩ := jsonEncode_cons v
  rw [hc, skipWhite, List.cons_append, List.dropWhile_cons_of_neg (by simp [hwhite])]
  exact fun h => hne (List.cons.inj h).1

/-- A member is its name in quotes, a colon and its value. -/
theorem jsonMember_append (m : Text × Json) (s : Text) :
    jsonMember m ++ s = '"' :: (m.1.flatMap jsonEscape ++ '"' :: ':' :: (jsonEncode m.2 ++ s)) := by
  obtain ⟨key, v⟩ := m
  simp [jsonMember, jsonQuote]

/-- The value of a member is shorter than the member. -/
theorem jsonMember_length (m : Text × Json) : (jsonEncode m.2).length < (jsonMember m).length := by
  obtain ⟨key, v⟩ := m
  simp only [jsonMember, List.length_append, List.length_cons]
  omega

/-- What follows the last item ends a number. -/
theorem ended_jsonItems (vs : List Json) (s : Text) : Ended (jsonItems vs ++ ']' :: s) := by
  cases vs with
  | nil => rintro c ⟨⟩; rfl
  | cons v vs => rintro c ⟨⟩; rfl

/-- What follows the last member ends a number. -/
theorem ended_jsonMembers (ms : List (Text × Json)) (s : Text) : Ended (jsonMembers ms ++ '\x7d' :: s) := by
  cases ms with
  | nil => rintro c ⟨⟩; rfl
  | cons m ms => rintro c ⟨⟩; rfl

/-- Behind an item the array goes on, or it is closed. -/
theorem readItems_jsonItems {n : Nat} {v : Json} {vs : List Json} {s : Text}
    (hv : readValue n (jsonEncode v ++ (jsonItems vs ++ ']' :: s)) = some (v, jsonItems vs ++ ']' :: s))
    (hvs : ∀ v' vs', vs = v' :: vs' → readItems n (jsonEncode v' ++ (jsonItems vs' ++ ']' :: s)) = some (v' :: vs', s)) :
    readItems (n + 1) (jsonEncode v ++ (jsonItems vs ++ ']' :: s)) = some (v :: vs, s) := by
  rw [readItems, hv]
  dsimp only
  cases vs with
  | nil => rfl
  | cons v' vs' =>
    have hcomma : skipWhite (jsonItems (v' :: vs') ++ ']' :: s) = ',' :: (jsonEncode v' ++ (jsonItems vs' ++ ']' :: s)) := by
      simp only [jsonItems, List.cons_append, List.append_assoc]
      rfl
    rw [hcomma]
    change (readItems n (jsonEncode v' ++ (jsonItems vs' ++ ']' :: s))).map _ = _
    rw [hvs v' vs' rfl]
    rfl

/-- Behind a member the object goes on, or it is closed. -/
theorem readMembers_jsonMembers {n : Nat} {m : Text × Json} {ms : List (Text × Json)} {s : Text}
    (hv : readValue n (jsonEncode m.2 ++ (jsonMembers ms ++ '\x7d' :: s)) = some (m.2, jsonMembers ms ++ '\x7d' :: s))
    (hms : ∀ m' ms', ms = m' :: ms' → readMembers n (jsonMember m' ++ (jsonMembers ms' ++ '\x7d' :: s)) = some (m' :: ms', s)) :
    readMembers (n + 1) (jsonMember m ++ (jsonMembers ms ++ '\x7d' :: s)) = some (m :: ms, s) := by
  have hopen : ∀ t : Text, skipWhite ('"' :: t) = '"' :: t := fun t => rfl
  have hcolon : ∀ t : Text, skipWhite (':' :: t) = ':' :: t := fun t => rfl
  rw [jsonMember_append]
  simp only [readMembers, hopen, readString_jsonQuote, hcolon, hv]
  cases ms with
  | nil => rfl
  | cons m' ms' =>
    have hcomma : skipWhite (jsonMembers (m' :: ms') ++ '\x7d' :: s) =
        ',' :: (jsonMember m' ++ (jsonMembers ms' ++ '\x7d' :: s)) := by
      simp only [jsonMembers, List.cons_append, List.append_assoc]
      rfl
    rw [hcomma]
    change (readMembers n (jsonMember m' ++ (jsonMembers ms' ++ '\x7d' :: s))).map _ = _
    rw [hms m' ms' rfl]
    rfl

/-! ## The round trip -/

/-- By induction on the bound: a value, the items of an array and the members of an object are read back when the bound is twice
their length. -/
theorem read_jsonEncode (n : Nat) :
    (∀ (v : Json) (s : Text), 2 * (jsonEncode v).length ≤ n → Ended s → readValue n (jsonEncode v ++ s) = some (v, s)) ∧
    (∀ (v : Json) (vs : List Json) (s : Text), 2 * ((jsonEncode v).length + (jsonItems vs).length) + 1 ≤ n →
      readItems n (jsonEncode v ++ (jsonItems vs ++ ']' :: s)) = some (v :: vs, s)) ∧
    (∀ (m : Text × Json) (ms : List (Text × Json)) (s : Text), 2 * ((jsonMember m).length + (jsonMembers ms).length) + 1 ≤ n →
      readMembers n (jsonMember m ++ (jsonMembers ms ++ '\x7d' :: s)) = some (m :: ms, s)) := by
  induction n with
  | zero =>
    refine ⟨fun v s h => ?_, fun v vs s h => by omega, fun m ms s h => by omega⟩
    obtain ⟨c, t, hc, -⟩ := jsonEncode_cons v
    rw [hc, List.length_cons] at h
    omega
  | succ n ih =>
    obtain ⟨ihv, ihi, ihm⟩ := ih
    refine ⟨fun v s h hs => ?_, fun v vs s h => ?_, fun m ms s h => ?_⟩
    · cases v with
      | null => rfl
      | bool b => cases b <;> rfl
      | num k =>
        rw [jsonEncode, readValue_number (numberChars_toDigits k) Nat.toDigits_ne_nil n hs, number_toDigits]
        rfl
      | other k =>
        rw [jsonEncode, readValue_number (List.all_eq_true.mp k.chars) k.ne_nil n hs, number_numeral]
        rfl
      | str t =>
        have hquote : jsonQuote t ++ s = '"' :: (t.flatMap jsonEscape ++ '"' :: s) := by simp [jsonQuote]
        rw [jsonEncode, hquote, readValue]
        change (readString _ (t.flatMap jsonEscape ++ '"' :: s)).map _ = _
        rw [readString_jsonQuote]
        rfl
      | arr vs =>
        cases vs with
        | nil => rfl
        | cons v vs =>
          have htext : jsonEncode (.arr (v :: vs)) ++ s = '[' :: (jsonEncode v ++ (jsonItems vs ++ ']' :: s)) := by
            simp [jsonEncode]
          have hlength : 2 * ((jsonEncode v).length + (jsonItems vs).length) + 1 ≤ n := by
            simp only [jsonEncode, List.length_cons, List.length_append] at h
            omega
          rw [htext, readValue_items (skipWhite_jsonEncode v _), ihi v vs s hlength]
          rfl
      | obj ms =>
        cases ms with
        | nil => rfl
        | cons m ms =>
          have htext : jsonEncode (.obj (m :: ms)) ++ s = '\x7b' :: (jsonMember m ++ (jsonMembers ms ++ '\x7d' :: s)) := by
            simp [jsonEncode]
          have hlength : 2 * ((jsonMember m).length + (jsonMembers ms).length) + 1 ≤ n := by
            simp only [jsonEncode, List.length_cons, List.length_append] at h
            omega
          have hopen : ∀ rest, skipWhite (jsonMember m ++ (jsonMembers ms ++ '\x7d' :: s)) ≠ '\x7d' :: rest := by
            intro rest
            rw [jsonMember_append]
            exact fun h => absurd (List.cons.inj h).1 (by decide)
          rw [htext, readValue_members hopen, ihm m ms s hlength]
          rfl
    · refine readItems_jsonItems (ihv v _ (by omega) (ended_jsonItems vs s)) fun v' vs' hvs => ihi v' vs' s ?_
      subst hvs
      simp only [jsonItems, List.length_cons, List.length_append] at h
      omega
    · refine readMembers_jsonMembers (ihv m.2 _ ?_ (ended_jsonMembers ms s)) fun m' ms' hms => ihm m' ms' s ?_
      · have hlength := jsonMember_length m
        omega
      · subst hms
        simp only [jsonMembers, List.length_cons, List.length_append] at h
        omega

/-- What is written is read back. -/
theorem loads_jsonEncode (v : Json) : Json.loads (jsonEncode v) = some v := by
  have hended : Ended [] := by
    rintro c ⟨⟩
  have hread := (read_jsonEncode (2 * (jsonEncode v).length)).1 v [] (Nat.le_refl _) hended
  rw [List.append_nil] at hread
  rw [Json.loads, hread]
  rfl

/-! ## Integers -/

/-- An integer of 64 bits comes back from the value it is written as. -/
theorem asInt_ofInt {n : Int} (hlow : -(2 ^ 63) ≤ n) (hhigh : n < 2 ^ 63) : asInt (Json.ofInt n) = some n := by
  cases n with
  | ofNat k =>
    have hk : k < 2 ^ 63 := by
      have hcast : (k : Int) < 2 ^ 63 := hhigh
      omega
    rw [Json.ofInt, asInt, if_pos hk]
    rfl
  | negSucc k =>
    have hdigits : (Nat.toDigits 10 (k + 1)).all Char.isDigit = true := List.all_eq_true.mpr (digits_toDigits (k + 1))
    have hk : k + 1 ≤ 2 ^ 63 := by
      rw [Int.negSucc_eq] at hlow
      omega
    rw [Json.ofInt, asInt]
    change (if (Nat.toDigits 10 (k + 1)).all Char.isDigit = true ∧ Nat.ofDigitChars 10 (Nat.toDigits 10 (k + 1)) 0 ≤ 2 ^ 63 then
      some (-((Nat.ofDigitChars 10 (Nat.toDigits 10 (k + 1)) 0 : Nat) : Int)) else none) = _
    rw [Nat.ofDigitChars_ten_toDigits, if_pos ⟨hdigits, hk⟩]
    rfl

/-- An integer that was read has 64 bits. -/
theorem asInt_bounds {v : Json} {n : Int} (h : asInt v = some n) : -(2 ^ 63) ≤ n ∧ n < 2 ^ 63 := by
  unfold asInt at h
  split at h
  · split at h
    · cases h
      omega
    · cases h
  · split at h
    · split at h
      · rename_i hbound
        cases h
        obtain ⟨-, hle⟩ := hbound
        omega
      · cases h
    · cases h
  · cases h

end Dart

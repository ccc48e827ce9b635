import Mathlib

/-!
# Text, lines and words

A text is a list of symbols of any alphabet: characters where a program handles strings, bytes where one handles files.
This library has the two ways the programs of a Unix host write a list into a file (one item a line, or separated by
spaces) with the way each is read back, and UTF-8 between the two alphabets.
-/

/-- A string, as the list of its characters. -/
abbrev Text := List Char

/-- A file's contents. -/
abbrev Bytes := List UInt8

instance : Coe String Text := ⟨String.toList⟩

/-- Texts are told apart by their characters. -/
instance : LawfulBEq Text := inferInstance

namespace Text

/-- What is asked of the characters of a text is decided along the text, never along all there are. -/
instance (priority := high) decidableForallMem (p : Char → Prop) [DecidablePred p] (t : Text) : Decidable (∀ c ∈ t, p c) :=
  List.decidableBAll p t

/-- The same for a character that may be missing. -/
instance (priority := high) decidableForallMemOption (p : Char → Prop) [DecidablePred p] (o : Option Char) : Decidable (∀ c ∈ o, p c) :=
  Option.decidableForallMem o

/-! ## Words -/

section Words

variable {α : Type}

/-- The non-empty runs between the separators: how a list written with spaces is read. -/
def words (sep : α → Bool) (t : List α) : List (List α) := (t.splitOnP sep).filter (fun w => !w.isEmpty)

/-- A text without separators is cut nowhere. -/
theorem words_of_forall {sep : α → Bool} {t : List α} (h : ∀ c ∈ t, sep c = false) (ht : t ≠ []) : words sep t = [t] := by
  have hne : t.isEmpty = false := List.isEmpty_eq_false_iff.mpr ht
  simp [words, List.splitOnP_eq_singleton h, hne]

/-- A word in front of a separator is the first of the words. -/
theorem words_append_cons {sep : α → Bool} {w rest : List α} {s : α} (hw : ∀ c ∈ w, sep c = false) (hne : w ≠ [])
    (hs : sep s = true) : words sep (w ++ s :: rest) = w :: words sep rest := by
  have hempty : w.isEmpty = false := List.isEmpty_eq_false_iff.mpr hne
  simp [words, List.splitOnP_append_cons_of_forall_mem hw s hs, hempty]

/-- Words joined by a separator are read back as they were. -/
theorem words_intercalate {sep : α → Bool} {s : α} (hs : sep s = true) {ws : List (List α)}
    (hws : ∀ w ∈ ws, w ≠ [] ∧ ∀ c ∈ w, sep c = false) : words sep ([s].intercalate ws) = ws := by
  induction ws with
  | nil => rfl
  | cons w ws ih =>
    obtain ⟨hne, hw⟩ := hws w (List.mem_cons_self ..)
    have ih := ih (fun v hv => hws v (List.mem_cons_of_mem _ hv))
    cases ws with
    | nil => simpa using words_of_forall hw hne
    | cons v vs =>
      rw [List.intercalate_cons_cons, List.append_assoc, List.singleton_append, words_append_cons hw hne hs, ih]

/-- Every piece between separators is free of them. -/
theorem sep_of_mem_splitOnP {sep : α → Bool} {t w : List α} (hw : w ∈ t.splitOnP sep) : ∀ c ∈ w, sep c = false := by
  induction t generalizing w with
  | nil => simp_all
  | cons a t ih =>
    rw [List.splitOnP_cons_eq_if_modifyHead] at hw
    cases hsep : sep a with
    | true =>
      rw [if_pos hsep, List.mem_cons] at hw
      rcases hw with rfl | hw
      · intro c hc
        cases hc
      · exact ih hw
    | false =>
      rw [if_neg (by simp [hsep])] at hw
      cases hp : t.splitOnP sep with
      | nil => exact absurd hp (List.splitOnP_ne_nil sep t)
      | cons v vs =>
        rw [hp] at hw
        rcases List.mem_cons.mp hw with rfl | hw
        · intro c hc
          rcases List.mem_cons.mp hc with rfl | hc
          · exact hsep
          · exact ih (by rw [hp]; exact List.mem_cons_self ..) c hc
        · exact ih (by rw [hp]; exact List.mem_cons_of_mem _ hw)

/-- A word is not empty and has no separator in it. -/
theorem of_mem_words {sep : α → Bool} {t w : List α} (hw : w ∈ words sep t) : w ≠ [] ∧ ∀ c ∈ w, sep c = false := by
  obtain ⟨hmem, hne⟩ := List.mem_filter.mp hw
  exact ⟨by simpa using hne, sep_of_mem_splitOnP hmem⟩

/-- What a word has in it is in the joined text. -/
theorem mem_intercalate {s c : α} {w : List α} {ws : List (List α)} (hw : w ∈ ws) (hc : c ∈ w) :
    c ∈ [s].intercalate ws := by
  induction ws with
  | nil => cases hw
  | cons v ws ih =>
    cases ws with
    | nil =>
      obtain rfl := List.mem_singleton.mp hw
      simpa using hc
    | cons u us =>
      rw [List.intercalate_cons_cons]
      rcases List.mem_cons.mp hw with rfl | hw
      · simp [hc]
      · exact List.mem_append_right _ (ih hw)

/-- What is in a joined text is the separator, or in one of the words. -/
theorem eq_or_mem_of_mem_intercalate {s c : α} {ws : List (List α)} (hc : c ∈ [s].intercalate ws) :
    c = s ∨ ∃ w ∈ ws, c ∈ w := by
  induction ws with
  | nil => cases hc
  | cons v ws ih =>
    cases ws with
    | nil => exact .inr ⟨v, List.mem_cons_self .., by simpa using hc⟩
    | cons u us =>
      rw [List.intercalate_cons_cons, List.append_assoc, List.mem_append, List.mem_append, List.mem_singleton] at hc
      rcases hc with hc | hc | hc
      · exact .inr ⟨v, List.mem_cons_self .., hc⟩
      · exact .inl hc
      · rcases ih hc with h | ⟨w, hw, h⟩
        · exact .inl h
        · exact .inr ⟨w, List.mem_cons_of_mem _ hw, h⟩

end Words

/-! ## Lines -/

section Lines

variable {α : Type}

/-- Every item on a line of its own, the last one ended too. -/
def unlines (nl : α) (ts : List (List α)) : List α := ts.flatMap (fun t => t ++ [nl])

@[simp] theorem unlines_nil (nl : α) : unlines nl [] = [] := rfl

@[simp] theorem unlines_cons (nl : α) (t : List α) (ts : List (List α)) :
    unlines nl (t :: ts) = t ++ nl :: unlines nl ts := by simp [unlines]

variable [DecidableEq α]

/-- The lines of a file. What follows the last newline is a line only if there is something. -/
def lines (nl : α) (t : List α) : List (List α) :=
  match (t.splitOn nl).getLast? with
  | some [] => (t.splitOn nl).dropLast
  | _ => t.splitOn nl

/-- The pieces of a file written line by line are its lines, and an empty one after the last. -/
theorem splitOn_unlines {nl : α} {ts : List (List α)} (h : ∀ t ∈ ts, nl ∉ t) :
    (unlines nl ts).splitOn nl = ts ++ [[]] := by
  induction ts with
  | nil => rfl
  | cons t ts ih =>
    have ht := h t (List.mem_cons_self ..)
    rw [unlines_cons, List.splitOn_append_cons_self_of_not_mem ht, ih (fun s hs => h s (List.mem_cons_of_mem _ hs)),
      List.cons_append]

/-- A file written line by line is read back as its lines. -/
theorem lines_unlines {nl : α} {ts : List (List α)} (h : ∀ t ∈ ts, nl ∉ t) : lines nl (unlines nl ts) = ts := by
  simp [lines, splitOn_unlines h]

/-- The last line of a file is read as it was written, whatever stands in front of it. -/
theorem lines_unlines_concat {nl : α} (ts : List (List α)) {t : List α} (h : nl ∉ t) :
    lines nl (unlines nl (ts ++ [t])) = ts.flatMap (·.splitOn nl) ++ [t] := by
  have hsplit : (unlines nl (ts ++ [t])).splitOn nl = ts.flatMap (·.splitOn nl) ++ [t] ++ [[]] := by
    induction ts with
    | nil => exact splitOn_unlines fun s hs => List.mem_singleton.mp hs ▸ h
    | cons s ts ih => rw [List.cons_append, unlines_cons, List.splitOn_append_cons_self, ih, List.flatMap_cons]; simp
  simp [lines, hsplit]

/-- No line has a newline in it. -/
theorem not_mem_of_mem_lines {nl : α} {t l : List α} (h : l ∈ lines nl t) : nl ∉ l := by
  have hmem : l ∈ t.splitOn nl := by
    simp only [lines] at h
    split at h
    · exact List.dropLast_subset _ h
    · exact h
  intro hnl
  have := sep_of_mem_splitOnP hmem nl hnl
  simp at this

end Lines

/-! ## Cutting at a separator -/

section Cut

variable {α : Type} [DecidableEq α]

/-- What stands in front of the first separator, and what follows it, if there is one. -/
def cut (sep : α) : List α → List α × Option (List α)
  | [] => ([], none)
  | c :: cs => if c = sep then ([], some cs) else ((c :: (cut sep cs).1), (cut sep cs).2)

/-- A text is cut at its first separator. -/
theorem cut_append_cons {sep : α} {t rest : List α} (h : sep ∉ t) : cut sep (t ++ sep :: rest) = (t, some rest) := by
  induction t with
  | nil => simp [cut]
  | cons c cs ih =>
    have hc : c ≠ sep := fun hc => h (hc ▸ List.mem_cons_self ..)
    have hcs : sep ∉ cs := fun hcs => h (List.mem_cons_of_mem _ hcs)
    simp [cut, hc, ih hcs]

/-- A text without the separator is not cut. -/
theorem cut_of_not_mem {sep : α} {t : List α} (h : sep ∉ t) : cut sep t = (t, none) := by
  induction t with
  | nil => rfl
  | cons c cs ih =>
    have hc : c ≠ sep := fun hc => h (hc ▸ List.mem_cons_self ..)
    have hcs : sep ∉ cs := fun hcs => h (List.mem_cons_of_mem _ hcs)
    simp [cut, hc, ih hcs]

/-- A text has no separator, or it is cut at the first. -/
theorem cut_cases (sep : α) (t : List α) :
    (sep ∉ t ∧ cut sep t = (t, none)) ∨ ∃ a b, t = a ++ sep :: b ∧ sep ∉ a ∧ cut sep t = (a, some b) := by
  by_cases h : sep ∈ t
  · obtain ⟨a, b, rfl, ha⟩ := List.eq_append_cons_of_mem h
    exact .inr ⟨a, b, rfl, ha, cut_append_cons ha⟩
  · exact .inl ⟨h, cut_of_not_mem h⟩

/-- What has no separator is in front of the first. -/
theorem cut_append {sep : α} {t : List α} (h : sep ∉ t) (rest : List α) :
    cut sep (t ++ rest) = (t ++ (cut sep rest).1, (cut sep rest).2) := by
  induction t with
  | nil => rfl
  | cons c cs ih =>
    have hc : c ≠ sep := fun hc => h (hc ▸ List.mem_cons_self ..)
    have hcs : sep ∉ cs := fun hcs => h (List.mem_cons_of_mem _ hcs)
    simp [cut, hc, ih hcs]

/-- A separator in the first part is where the whole is cut. -/
theorem cut_append_of_mem {sep : α} {t : List α} (h : sep ∈ t) (rest : List α) : (cut sep (t ++ rest)).1 = (cut sep t).1 := by
  obtain ⟨a, b, rfl, ha⟩ := List.eq_append_cons_of_mem h
  rw [List.append_assoc, List.cons_append, cut_append_cons ha, cut_append_cons ha]

/-- A text with a separator in it is longer than what stands in front. -/
theorem length_cut_lt {sep : α} {t : List α} (h : sep ∈ t) : (cut sep t).1.length < t.length := by
  obtain ⟨a, b, rfl, ha⟩ := List.eq_append_cons_of_mem h
  rw [cut_append_cons ha, List.length_append, List.length_cons]
  dsimp only
  omega

/-- The separator is not in front of where the text is cut. -/
theorem not_mem_cut {sep : α} {t : List α} : sep ∉ (cut sep t).1 := by
  rcases cut_cases sep t with ⟨h, hcut⟩ | ⟨a, b, -, ha, hcut⟩
  · rw [hcut]
    exact h
  · rw [hcut]
    exact ha

/-- What is in front of the cut is the beginning of the text. -/
theorem cut_fst_prefix (sep : α) (t : List α) : (cut sep t).1 <+: t := by
  rcases cut_cases sep t with ⟨-, hcut⟩ | ⟨a, b, rfl, -, hcut⟩
  · exact hcut ▸ List.prefix_refl t
  · rw [hcut]
    exact List.prefix_append ..

/-- The pieces between separators, the first one cut off. -/
theorem splitOn_eq_cut (sep : α) (t : List α) : t.splitOn sep = (cut sep t).1 :: ((cut sep t).2.map (·.splitOn sep)).getD [] := by
  rcases cut_cases sep t with ⟨h, hcut⟩ | ⟨a, b, rfl, ha, hcut⟩
  · rw [hcut]
    exact List.splitOn_eq_singleton h
  · rw [hcut]
    exact List.splitOn_append_cons_self_of_not_mem ha b

/-- What stands in front of the last separator, and what follows it. -/
def cutLast (sep : α) (t : List α) : Option (List α × List α) :=
  match cut sep t.reverse with
  | (_, none) => none
  | (a, some b) => some (b.reverse, a.reverse)

/-- A text is cut at its last separator. -/
theorem cutLast_append_cons {sep : α} {t rest : List α} (h : sep ∉ rest) : cutLast sep (t ++ sep :: rest) = some (t, rest) := by
  have hrev : (t ++ sep :: rest).reverse = rest.reverse ++ sep :: t.reverse := by simp
  simp only [cutLast, hrev, cut_append_cons (show sep ∉ rest.reverse by simpa using h), List.reverse_reverse]

/-- A text is cut at the last separator. -/
theorem cutLast_eq_some {sep : α} {t a b : List α} : cutLast sep t = some (a, b) ↔ t = a ++ sep :: b ∧ sep ∉ b := by
  constructor
  · intro h
    rcases cut_cases sep t.reverse with ⟨-, hcut⟩ | ⟨c, d, hrev, hc, hcut⟩
    · simp [cutLast, hcut] at h
    · simp only [cutLast, hcut, Option.some_inj, Prod.mk.injEq] at h
      obtain ⟨rfl, rfl⟩ := h
      refine ⟨?_, by simpa using hc⟩
      rw [← List.reverse_reverse t, hrev]
      simp
  · rintro ⟨rfl, h⟩
    exact cutLast_append_cons h

end Cut

/-! ## UTF-8 -/

/-- A string as the bytes of a file. -/
def encode (t : Text) : Bytes := t.flatMap String.utf8EncodeChar

/-- The string a file's bytes spell, if they do. -/
def decode (b : Bytes) : Option Text := b.toByteArray.utf8Decode?.map Array.toList

/-- The bytes of a text are decoded to it. -/
@[simp] theorem decode_encode (t : Text) : decode (encode t) = some t := by
  have h := List.utf8Decode?_utf8Encode (l := t)
  rw [List.utf8Encode] at h
  simp [decode, encode, h]

/-- What a file's bytes spell is written as these bytes. -/
theorem encode_of_decode {b : Bytes} {t : Text} (h : decode b = some t) : encode t = b := by
  obtain ⟨chars, hchars, rfl⟩ := Option.map_eq_some_iff.mp h
  have hencode := ByteArray.utf8Encode_get_utf8Decode? (b := b.toByteArray) (h := by rw [hchars]; rfl)
  simp only [hchars, Option.get_some] at hencode
  have hlist := congrArg (fun a => a.data.toList) hencode
  simpa [encode, List.utf8Encode] using hlist

/-- Texts are told by their bytes. -/
theorem encode_injective : Function.Injective encode := by
  intro s t h
  have hd : decode (encode s) = decode (encode t) := by rw [h]
  simpa using hd

@[simp] theorem encode_nil : encode [] = [] := rfl

@[simp] theorem encode_append (s t : Text) : encode (s ++ t) = encode s ++ encode t := by simp [encode]

/-- Lines are encoded line by line. -/
theorem encode_unlines (ts : List Text) : encode (unlines '\n' ts) = unlines 10 (ts.map encode) := by
  induction ts with
  | nil => rfl
  | cons t ts ih =>
    rw [unlines_cons, encode_append, List.map_cons, unlines_cons, ← ih]
    rfl

theorem encode_cons (c : Char) (t : Text) : encode (c :: t) = String.utf8EncodeChar c ++ encode t := rfl

/-- An ASCII character is written as the one byte of its code. -/
theorem utf8EncodeChar_of_ascii {c : Char} (h : c.toNat ≤ 127) : String.utf8EncodeChar c = [UInt8.ofNat c.toNat] := by
  have hv : c.val.toNat ≤ 127 := h
  simp only [String.utf8EncodeChar, hv, if_true]
  rfl

/-- An ASCII text is written one byte a character. -/
theorem encode_of_ascii {t : Text} (h : ∀ c ∈ t, c.toNat ≤ 127) : encode t = t.map fun c => UInt8.ofNat c.toNat := by
  induction t with
  | nil => rfl
  | cons c cs ih =>
    rw [encode_cons, utf8EncodeChar_of_ascii (h c (List.mem_cons_self ..)), ih (fun d hd => h d (List.mem_cons_of_mem _ hd))]
    rfl

/-- A text has no more characters than its file has bytes. -/
theorem length_le_encode (t : Text) : t.length ≤ (encode t).length := by
  induction t with
  | nil => exact Nat.le_refl _
  | cons c cs ih =>
    have hpos : 0 < (String.utf8EncodeChar c).length := List.length_pos_iff.mpr String.utf8EncodeChar_ne_nil
    rw [encode_cons, List.length_append, List.length_cons]
    omega

/-- A byte below 128 in the encoding of a character is the whole of it. -/
theorem ascii_of_mem_utf8EncodeChar {c : Char} {b : UInt8} (hb : b ∈ String.utf8EncodeChar c) (h : b.toNat ≤ 127) :
    c.toNat = b.toNat := by
  have hv : c.val.toNat = c.toNat := rfl
  simp only [String.utf8EncodeChar, hv] at hb
  split_ifs at hb with h1 h2 h3 <;> simp only [List.mem_cons, List.not_mem_nil, or_false] at hb
  · subst hb
    rw [UInt8.toNat_ofNat']
    omega
  all_goals
    -- the bytes of a longer encoding are all 128 or more
    exfalso
    rcases hb with rfl | rfl | rfl | rfl <;> rw [UInt8.toNat_ofNat'] at h <;> omega

/-- An ASCII byte is in a file exactly where its character is in the string. -/
theorem mem_encode_ascii {c : Char} (hc : c.toNat ≤ 127) {t : Text} : UInt8.ofNat c.toNat ∈ encode t ↔ c ∈ t := by
  have hb : (UInt8.ofNat c.toNat).toNat = c.toNat := by
    rw [UInt8.toNat_ofNat']
    omega
  constructor
  · intro h
    obtain ⟨d, hd, hmem⟩ := List.mem_flatMap.mp h
    have heq := ascii_of_mem_utf8EncodeChar hmem (by omega)
    have hcd : d = c := Char.toNat_inj.mp (heq.trans hb)
    exact hcd ▸ hd
  · intro h
    refine List.mem_flatMap.mpr ⟨c, h, ?_⟩
    rw [utf8EncodeChar_of_ascii hc]
    exact List.mem_singleton.mpr rfl

/-- A file ends in an ASCII byte exactly when the string ends in its character. -/
theorem encode_eq_append_ascii {c : Char} (hc : c.toNat ≤ 127) {t : Text} {field : Bytes} :
    encode t = field ++ [UInt8.ofNat c.toNat] ↔ ∃ s, t = s ++ [c] ∧ encode s = field := by
  have hsingle : encode [c] = [UInt8.ofNat c.toNat] := by simp [encode, utf8EncodeChar_of_ascii hc]
  constructor
  · intro h
    rcases List.eq_nil_or_concat t with rfl | ⟨s, d, rfl⟩
    · exact absurd h.symm (List.append_ne_nil_of_right_ne_nil _ (List.cons_ne_nil _ _))
    · obtain ⟨init, b, hd⟩ := (List.eq_nil_or_concat (String.utf8EncodeChar d)).resolve_left String.utf8EncodeChar_ne_nil
      have hcut : encode s ++ init = field ∧ [b] = [UInt8.ofNat c.toNat] := by
        refine List.append_inj' ?_ rfl
        rw [← h, List.concat_eq_append, encode_append, List.append_assoc, encode_cons, hd, List.concat_eq_append, encode_nil,
          List.append_nil]
      obtain ⟨rfl, hb⟩ := hcut
      have hmem : UInt8.ofNat c.toNat ∈ encode [d] := by
        rw [encode_cons, hd, ← List.singleton_inj.mp hb]
        simp
      obtain rfl := List.mem_singleton.mp ((mem_encode_ascii hc).mp hmem)
      have hinit : init = [] := by
        have hlen := congrArg List.length (hd.symm.trans (utf8EncodeChar_of_ascii hc))
        exact List.length_eq_zero_iff.mp (by simpa using hlen)
      refine ⟨s, List.concat_eq_append, by rw [hinit, List.append_nil]⟩
  · rintro ⟨s, rfl, rfl⟩
    rw [encode_append, hsingle]

end Text

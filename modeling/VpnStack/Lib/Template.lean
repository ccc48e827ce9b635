import VpnStack.Lib.Text

/-!
# Marks in a text

A template is a text with marks in it, a mark being a name between two marking characters. Its marks are replaced at once, in
one pass over the template, or one after another, each in what the ones before it left. The two are the same where no value has
a later mark in it.
-/

namespace Template

/-! ## Replacing -/

/-- The text with the marks of `pairs` replaced, from left to right; `skip` characters in front belong to the mark just read. -/
def substituteFrom (pairs : List (Text × Text)) : Nat → Text → Text
  | _, [] => []
  | skip + 1, _ :: t => substituteFrom pairs skip t
  | 0, c :: t =>
    match pairs.find? fun p => p.1.isPrefixOf (c :: t) with
    | some p => p.2 ++ substituteFrom pairs (p.1.length - 1) t
    | none => c :: substituteFrom pairs 0 t

/-- All marks replaced at once. -/
def substitute (pairs : List (Text × Text)) (t : Text) : Text := substituteFrom pairs 0 t

/-- The marks replaced one after another, each in what is there by then. -/
def substituteEach (pairs : List (Text × Text)) (t : Text) : Text := pairs.foldl (fun out p => substitute [p] out) t

variable {pairs : List (Text × Text)}

@[simp] theorem substituteFrom_nil (skip : Nat) : substituteFrom pairs skip [] = [] := by cases skip <;> rfl

@[simp] theorem substitute_nil : substitute pairs [] = [] := substituteFrom_nil 0

/-- A text that is skipped leaves nothing. -/
theorem substituteFrom_length (t : Text) : substituteFrom pairs t.length t = [] := by
  induction t with
  | nil => rfl
  | cons c t ih => simpa [substituteFrom] using ih

/-- Where no mark begins, the character stays. -/
theorem substitute_cons_of_none {c : Char} {t : Text} (h : ∀ p ∈ pairs, ¬ p.1 <+: c :: t) :
    substitute pairs (c :: t) = c :: substitute pairs t := by
  have hfind : pairs.find? (fun p => p.1.isPrefixOf (c :: t)) = none := by
    rw [List.find?_eq_none]
    intro p hp
    simpa using h p hp
  simp [substitute, substituteFrom, hfind]

/-- A text with no mark in it is left as it is. -/
theorem substitute_eq_self {t : Text} (h : ∀ p ∈ pairs, ¬ p.1 <:+: t) : substitute pairs t = t := by
  induction t with
  | nil => exact substitute_nil
  | cons c t ih =>
    rw [substitute_cons_of_none fun p hp hpre => h p hp hpre.isInfix,
      ih fun p hp hin => h p hp (hin.trans (List.suffix_cons c t).isInfix)]

/-- A prefix without a character that follows is a prefix of what is in front of it. -/
theorem prefix_append_cons_iff {k a b : Text} {c : Char} (hc : c ∉ k) : k <+: a ++ c :: b ↔ k <+: a := by
  refine ⟨fun h => ?_, fun h => h.trans (List.prefix_append a (c :: b))⟩
  rcases List.prefix_or_prefix_of_prefix h (List.prefix_append a (c :: b)) with hk | ha
  · exact hk
  · obtain ⟨u, rfl⟩ := ha
    have hu := (List.prefix_append_right_inj a).mp h
    cases u with
    | nil => simp
    | cons d u =>
      obtain ⟨rfl, -⟩ := List.cons_prefix_cons.mp hu
      exact absurd (List.mem_append_right a (List.mem_cons_self ..)) hc

/-- A character that no mark has in it parts the text in two. -/
theorem substituteFrom_append_cons {c : Char} (hc : ∀ p ∈ pairs, p.1 ≠ [] ∧ c ∉ p.1) {skip : Nat} {a : Text}
    (hskip : skip ≤ a.length) (b : Text) :
    substituteFrom pairs skip (a ++ c :: b) = substituteFrom pairs skip a ++ c :: substitute pairs b := by
  induction a generalizing skip with
  | nil =>
    obtain rfl := Nat.le_zero.mp hskip
    refine substitute_cons_of_none fun p hp hpre => ?_
    obtain ⟨hne, hmem⟩ := hc p hp
    have hnil : p.1 <+: [] := (prefix_append_cons_iff (a := []) hmem).mp hpre
    exact hne (List.prefix_nil.mp hnil)
  | cons x a ih =>
    cases skip with
    | succ skip => exact ih (Nat.le_of_succ_le_succ hskip)
    | zero =>
      have hfind : pairs.find? (fun p => p.1.isPrefixOf (x :: (a ++ c :: b))) =
          pairs.find? (fun p => p.1.isPrefixOf (x :: a)) := by
        have hsame : ∀ p ∈ pairs, p.1.isPrefixOf (x :: (a ++ c :: b)) = p.1.isPrefixOf (x :: a) := by
          intro p hp
          rw [Bool.eq_iff_iff, List.isPrefixOf_iff_prefix, List.isPrefixOf_iff_prefix]
          exact prefix_append_cons_iff (a := x :: a) (hc p hp).2
        clear hc ih
        induction pairs with
        | nil => rfl
        | cons p ps ihps =>
          rw [List.find?_cons, List.find?_cons, hsame p (List.mem_cons_self ..),
            ihps fun q hq => hsame q (List.mem_cons_of_mem _ hq)]
      simp only [List.cons_append, substituteFrom, hfind]
      cases hp : pairs.find? (fun p => p.1.isPrefixOf (x :: a)) with
      | none => exact congrArg (x :: ·) (ih (Nat.zero_le _))
      | some p =>
        have hpre : p.1 <+: x :: a := by simpa using List.find?_some hp
        have hlen := hpre.length_le
        rw [List.length_cons] at hlen
        have hskip : p.1.length - 1 ≤ a.length := by omega
        simp only [ih hskip, List.append_assoc]

/-- Two texts with such a character between them are replaced each on its own. -/
theorem substitute_append {u : Text} (hu : ∀ c ∈ u.head?, ∀ p ∈ pairs, p.1 ≠ [] ∧ c ∉ p.1) (t : Text) :
    substitute pairs (t ++ u) = substitute pairs t ++ substitute pairs u := by
  cases u with
  | nil => simp
  | cons c u =>
    have hc := hu c rfl
    have hhead : substitute pairs (c :: u) = c :: substitute pairs u :=
      substituteFrom_append_cons (a := []) hc (Nat.zero_le _) u
    rw [hhead]
    exact substituteFrom_append_cons hc (Nat.zero_le _) u

/-- In front of the first marking character nothing changes. -/
theorem substitute_append_of_notMem {m : Char} (hm : ∀ p ∈ pairs, p.1.head? = some m) {t : Text} (ht : m ∉ t) (u : Text) :
    substitute pairs (t ++ u) = t ++ substitute pairs u := by
  induction t with
  | nil => rfl
  | cons c t ih =>
    rw [List.cons_append, substitute_cons_of_none, ih (fun h => ht (List.mem_cons_of_mem _ h)), List.cons_append]
    intro p hp hpre
    have hhead := hm p hp
    cases hk : p.1 with
    | nil =>
      rw [hk] at hhead
      nomatch hhead
    | cons d k =>
      rw [hk] at hhead hpre
      obtain ⟨rfl, -⟩ := List.cons_prefix_cons.mp hpre
      exact ht (by simp [Option.some.inj hhead])

/-! ## Marks -/

/-- How the names of the marks of a kind of template are written. -/
structure Marking where
  mark : Char
  inner : Char → Bool
  mark_not_inner : inner mark = false

namespace Marking

variable (M : Marking)

/-- A name between two marking characters. -/
def IsMark (k : Text) : Prop := ∃ name, name ≠ [] ∧ name.all M.inner ∧ k = M.mark :: name ++ [M.mark]

/-- A character that stands in no mark. -/
def Parts (c : Char) : Prop := c ≠ M.mark ∧ M.inner c = false

instance (c : Char) : Decidable (M.Parts c) := inferInstanceAs (Decidable (c ≠ M.mark ∧ M.inner c = false))

/-- The rest of a mark. -/
def closes (started : Bool) : Text → Bool
  | [] => false
  | c :: t => if c = M.mark then started else M.inner c && closes true t

/-- The first mark in a text. -/
def firstMark : Text → Option Text
  | [] => none
  | c :: t => if c = M.mark ∧ M.closes false t then some (M.mark :: t.takeWhile M.inner ++ [M.mark]) else firstMark t

variable {M}

/-- A name is closed by the mark behind it, if there is one or it was begun. -/
theorem closes_name {name : Text} (h : name.all M.inner) (started : Bool) (t : Text) :
    M.closes started (name ++ M.mark :: t) = (started || !name.isEmpty) := by
  induction name generalizing started with
  | nil => simp [closes]
  | cons c name ih =>
    rw [List.all_cons, Bool.and_eq_true] at h
    have hne : c ≠ M.mark := by
      rintro rfl
      rw [M.mark_not_inner] at h
      nomatch h.1
    simp [closes, hne, h.1, ih h.2]

/-- A character of no mark ends the search for the rest of one. -/
theorem closes_append {c : Char} (hc : M.Parts c) (started : Bool) (t u : Text) :
    M.closes started (t ++ c :: u) = M.closes started t := by
  induction t generalizing started with
  | nil => simp [closes, hc.1, hc.2]
  | cons d t ih => simp only [List.cons_append, closes, ih]

/-- A mark is found where there is one. -/
theorem firstMark_of_infix {k t : Text} (hk : M.IsMark k) (h : k <:+: t) : (M.firstMark t).isSome := by
  obtain ⟨name, hne, hall, rfl⟩ := hk
  obtain ⟨a, b, rfl⟩ := h
  induction a with
  | nil =>
    have hcloses : M.closes false (name ++ M.mark :: b) = true := by simp [closes_name hall, hne]
    simp [firstMark, hcloses]
  | cons c a ih =>
    simp only [List.cons_append, firstMark]
    split
    · rfl
    · exact ih

/-- Two texts parted by a character of no mark have the marks of the one and of the other. -/
theorem firstMark_append {u : Text} (hu : ∀ c ∈ u.head?, M.Parts c) (t : Text) :
    (M.firstMark (t ++ u)).isSome = ((M.firstMark t).isSome || (M.firstMark u).isSome) := by
  cases u with
  | nil => simp [firstMark]
  | cons c u =>
    induction t with
    | nil => simp [firstMark]
    | cons d t ih =>
      simp only [List.cons_append, firstMark, closes_append (hu c rfl)]
      by_cases hd : d = M.mark ∧ M.closes false t
      · simp [hd]
      · rw [if_neg hd, if_neg hd]
        exact ih

/-- Without the marking character there is no mark. -/
theorem firstMark_append_of_notMem {t : Text} (ht : M.mark ∉ t) (u : Text) : M.firstMark (t ++ u) = M.firstMark u := by
  induction t with
  | nil => rfl
  | cons c t ih =>
    have hc : c ≠ M.mark := fun h => ht (h ▸ List.mem_cons_self ..)
    simp only [List.cons_append, firstMark, hc, false_and, if_false]
    exact ih fun h => ht (List.mem_cons_of_mem _ h)

/-- A mark is no empty text. -/
theorem IsMark.ne_nil {k : Text} (h : M.IsMark k) : k ≠ [] := by
  obtain ⟨name, -, -, rfl⟩ := h
  simp

/-- A mark begins with the marking character. -/
theorem IsMark.head {k : Text} (h : M.IsMark k) : k.head? = some M.mark := by
  obtain ⟨name, -, -, rfl⟩ := h
  rfl

/-- A mark has none of the characters in it that stand in no mark. -/
theorem IsMark.notMem {k : Text} (h : M.IsMark k) {c : Char} (hc : M.Parts c) : c ∉ k := by
  obtain ⟨name, -, hall, rfl⟩ := h
  intro hmem
  rw [List.cons_append, List.mem_cons, List.mem_append, List.mem_singleton] at hmem
  rcases hmem with rfl | hmem | rfl
  · exact hc.1 rfl
  · have hinner := List.all_eq_true.mp hall c hmem
    rw [hc.2] at hinner
    nomatch hinner
  · exact hc.1 rfl

/-- A mark begins with another only if it is that one. -/
theorem IsMark.eq_of_begins {k l : Text} (hk : M.IsMark k) (hl : M.IsMark l) {t : Text} (h : k <+: l ++ t) : k = l := by
  obtain ⟨name, -, hname, rfl⟩ := hk
  obtain ⟨other, -, hother, rfl⟩ := hl
  obtain ⟨u, hu⟩ := h
  have htake : ∀ {s v : Text}, s.all M.inner → (s ++ M.mark :: v).takeWhile M.inner = s := by
    intro s v hs
    rw [List.takeWhile_append_of_pos fun c hc => List.all_eq_true.mp hs c hc, List.takeWhile_cons, M.mark_not_inner]
    simp
  have heq : name ++ M.mark :: u = other ++ M.mark :: t := by simpa using hu
  have hnames : name = other := by rw [← htake hname, heq, htake hother]
  rw [hnames]

/-- A mark stands in another only if it is that one. -/
theorem IsMark.eq_of_within {k l : Text} (hk : M.IsMark k) (hl : M.IsMark l) (h : k <:+: l) : k = l := by
  obtain ⟨a, b, hab⟩ := h
  cases a with
  | nil => exact hk.eq_of_begins hl (t := []) ⟨b, by simpa using hab⟩
  | cons c a =>
    -- Inside another mark only its closing character marks, and nothing follows that.
    obtain ⟨other, -, hother, rfl⟩ := hl
    obtain ⟨name, hname, hall, rfl⟩ := hk
    have htail : a ++ (M.mark :: (name ++ M.mark :: b)) = other ++ [M.mark] := by
      simpa using (List.cons.inj hab).2
    have hcount := congrArg (List.count M.mark) htail
    have hzero : other.count M.mark = 0 := by
      rw [List.count_eq_zero]
      intro hmem
      have hinner := List.all_eq_true.mp hother _ hmem
      rw [M.mark_not_inner] at hinner
      nomatch hinner
    rw [List.count_append, List.count_append, List.count_cons_self, List.count_append, List.count_cons_self,
      List.count_singleton_self, hzero] at hcount
    omega

end Marking

/-! ## Templates -/

/-- A piece of a template: text, or a mark to be replaced. -/
inductive Seg where
  | lit (t : Text)
  | hole (k : Text)
  deriving DecidableEq, Repr

/-- The text of a template whose marks read as `σ` says. -/
def assemble (σ : Text → Text) : List Seg → Text
  | [] => []
  | .lit t :: rest => t ++ assemble σ rest
  | .hole k :: rest => σ k ++ assemble σ rest

/-- The marks of a template. -/
def holes : List Seg → List Text
  | [] => []
  | .lit _ :: rest => holes rest
  | .hole k :: rest => k :: holes rest

/-- What follows a mark begins with a character of no mark. -/
def Follows (M : Marking) : List Seg → Prop
  | [] => True
  | .lit t :: _ => ∃ c u, t = c :: u ∧ M.Parts c
  | .hole _ :: _ => False

/-- A template whose marks are where its pieces say, and stand apart. -/
def Separated (M : Marking) : List Seg → Prop
  | [] => True
  | .lit t :: rest => M.mark ∉ t ∧ Separated M rest
  | .hole k :: rest => M.IsMark k ∧ Follows M rest ∧ Separated M rest

/-- Whether a text is a mark. -/
def Marking.isMark (M : Marking) : Text → Bool
  | [] => false
  | c :: t => c = M.mark && M.closes false t && t.dropWhile M.inner = [M.mark]

section

variable {M : Marking} {pairs : List (Text × Text)} {segs : List Seg}

/-- Whether a text is a mark can be told. -/
theorem Marking.isMark_iff {k : Text} : M.isMark k = true ↔ M.IsMark k := by
  constructor
  · intro h
    match k, h with
    | c :: t, h =>
      rw [Marking.isMark, Bool.and_eq_true, Bool.and_eq_true, decide_eq_true_iff, decide_eq_true_iff] at h
      obtain ⟨⟨rfl, hcloses⟩, hdrop⟩ := h
      refine ⟨t.takeWhile M.inner, ?_, List.all_takeWhile, ?_⟩
      · intro hnil
        have ht : t = [M.mark] := by
          have happend := List.takeWhile_append_dropWhile (p := M.inner) (l := t)
          rwa [hnil, hdrop, List.nil_append, eq_comm] at happend
        simp [ht, Marking.closes] at hcloses
      · rw [List.cons_append, ← hdrop, List.takeWhile_append_dropWhile]
  · rintro ⟨name, hne, hall, rfl⟩
    have hdrop : (name ++ [M.mark]).dropWhile M.inner = [M.mark] := by
      rw [List.dropWhile_append_of_pos fun c hc => List.all_eq_true.mp hall c hc]
      simp [M.mark_not_inner]
    have hcloses : M.closes false (name ++ [M.mark]) = true := by simp [Marking.closes_name hall, hne]
    simp [Marking.isMark, hdrop, hcloses]

/-! A template is checked piece by piece, each piece as the list of the characters of its literal. -/

theorem Separated.nil : Separated M [] := trivial

/-- A text without the marking character may come in front. -/
theorem Separated.lit {t : List Char} (ht : M.mark ∉ t) (h : Separated M segs) :
    Separated M (.lit (String.ofList t).toList :: segs) := by
  rw [String.toList_ofList]
  exact ⟨ht, h⟩

/-- A template may end with a mark. -/
theorem Separated.last {k : List Char} (hk : M.isMark k = true) : Separated M [.hole (String.ofList k).toList] := by
  rw [String.toList_ofList]
  exact ⟨Marking.isMark_iff.mp hk, trivial, trivial⟩

/-- A mark may come in front of a text that begins with a character of no mark. -/
theorem Separated.hole {k t : List Char} {c : Char} (hk : M.isMark k = true) (hc : M.Parts c)
    (h : Separated M (.lit (String.ofList (c :: t)).toList :: segs)) :
    Separated M (.hole (String.ofList k).toList :: .lit (String.ofList (c :: t)).toList :: segs) := by
  have hfollows : Follows M (.lit (String.ofList (c :: t)).toList :: segs) := ⟨c, t, String.toList_ofList, hc⟩
  refine ⟨?_, hfollows, h⟩
  rw [String.toList_ofList]
  exact Marking.isMark_iff.mp hk

/-- What follows a mark begins so whatever the marks read as. -/
theorem Follows.head {σ : Text → Text} (h : Follows M segs) : ∀ c ∈ (assemble σ segs).head?, M.Parts c := by
  intro c hc
  match segs, h with
  | [], _ => nomatch hc
  | .lit _ :: _, ⟨d, u, rfl, hd⟩ =>
    obtain rfl : d = c := by simpa [assemble] using hc
    exact hd

/-- The holes of a template are marks. -/
theorem Separated.isMark (h : Separated M segs) : ∀ k ∈ holes segs, M.IsMark k := by
  induction segs with
  | nil => exact fun k hk => nomatch hk
  | cons seg rest ih =>
    cases seg with
    | lit t => exact ih h.2
    | hole l =>
      intro k hk
      rcases List.mem_cons.mp hk with rfl | hk
      · exact h.1
      · exact ih h.2.2 k hk

/-- The marks of a template are replaced each on its own. -/
theorem substitute_assemble (hpairs : ∀ p ∈ pairs, M.IsMark p.1) (h : Separated M segs) (σ : Text → Text) :
    substitute pairs (assemble σ segs) = assemble (fun k => substitute pairs (σ k)) segs := by
  induction segs with
  | nil => exact substitute_nil
  | cons seg rest ih =>
    cases seg with
    | lit t =>
      rw [assemble, substitute_append_of_notMem (fun p hp => (hpairs p hp).head) h.1, ih h.2, assemble]
    | hole k =>
      have hparts : ∀ c ∈ (assemble σ rest).head?, ∀ p ∈ pairs, p.1 ≠ [] ∧ c ∉ p.1 :=
        fun c hc p hp => ⟨(hpairs p hp).ne_nil, (hpairs p hp).notMem (h.2.1.head c hc)⟩
      rw [assemble, substitute_append hparts, ih h.2.2, assemble]

/-- So are they one after another. -/
theorem substituteEach_assemble (hpairs : ∀ p ∈ pairs, M.IsMark p.1) (h : Separated M segs) (σ : Text → Text) :
    substituteEach pairs (assemble σ segs) = assemble (fun k => substituteEach pairs (σ k)) segs := by
  induction pairs generalizing σ with
  | nil => rfl
  | cons p pairs ih =>
    have hp : ∀ q ∈ [p], M.IsMark q.1 := by simpa using hpairs p (List.mem_cons_self ..)
    rw [substituteEach, List.foldl_cons, substitute_assemble hp h]
    exact ih (fun q hq => hpairs q (List.mem_cons_of_mem _ hq)) _

/-- A filled template has a mark in it where what one of its marks was replaced by has. -/
theorem firstMark_assemble (h : Separated M segs) (σ : Text → Text) :
    (M.firstMark (assemble σ segs)).isSome ↔ ∃ k ∈ holes segs, (M.firstMark (σ k)).isSome := by
  induction segs with
  | nil => simp [assemble, holes, Marking.firstMark]
  | cons seg rest ih =>
    cases seg with
    | lit t => rw [assemble, Marking.firstMark_append_of_notMem h.1, ih h.2, holes]
    | hole k =>
      rw [assemble, Marking.firstMark_append h.2.1.head, Bool.or_eq_true, ih h.2.2, holes, List.exists_mem_cons_iff]

/-- A template reads the same where its marks do. -/
theorem assemble_congr {σ τ : Text → Text} (h : ∀ k ∈ holes segs, σ k = τ k) : assemble σ segs = assemble τ segs := by
  induction segs with
  | nil => rfl
  | cons seg rest ih =>
    cases seg with
    | lit t => rw [assemble, assemble, ih h]
    | hole k =>
      rw [assemble, assemble, h k (List.mem_cons_self ..), ih fun l hl => h l (List.mem_cons_of_mem _ hl)]

/-! ## Values of the marks -/

/-- What becomes of the marks of a map one after another: each is its value, with the later marks in it replaced in turn. -/
def expanded (k : Text) : List (Text × Text) → Text
  | [] => k
  | p :: later => if p.1 = k then substituteEach later p.2 else expanded k later

/-- The value of a mark. -/
def valueOf (k : Text) (pairs : List (Text × Text)) : Text := ((pairs.find? fun p => p.1 = k).map (·.2)).getD k

/-- A mark is replaced by its value. -/
theorem substitute_mark (hpairs : ∀ p ∈ pairs, M.IsMark p.1) {k : Text} (hk : M.IsMark k) :
    substitute pairs k = valueOf k pairs := by
  have hsame : ∀ p ∈ pairs, p.1.isPrefixOf k = decide (p.1 = k) := by
    intro p hp
    rw [Bool.eq_iff_iff, List.isPrefixOf_iff_prefix, decide_eq_true_iff]
    refine ⟨fun h => (hpairs p hp).eq_of_begins hk (t := []) (by simpa using h), fun h => h ▸ List.prefix_refl _⟩
  have hfind : pairs.find? (fun p => p.1.isPrefixOf k) = pairs.find? (fun p => p.1 = k) := by
    clear hpairs
    induction pairs with
    | nil => rfl
    | cons p ps ih =>
      rw [List.find?_cons, List.find?_cons, hsame p (List.mem_cons_self ..), ih fun q hq => hsame q (List.mem_cons_of_mem _ hq)]
  cases hp : pairs.find? (fun p => p.1 = k) with
  | none =>
    have hself : substitute pairs k = k := by
      refine substitute_eq_self fun p hp' hin => ?_
      have heq := (hpairs p hp').eq_of_within hk hin
      have hnone := List.find?_eq_none.mp hp p hp'
      simp [heq] at hnone
    simp [valueOf, hp, hself]
  | some p =>
    have hpk : p.1 = k := by simpa using List.find?_some hp
    obtain ⟨c, t, rfl⟩ : ∃ c t, k = c :: t := List.exists_cons_of_ne_nil hk.ne_nil
    have hstep : substitute pairs (c :: t) = p.2 ++ substituteFrom pairs (p.1.length - 1) t := by
      simp only [substitute, substituteFrom, hfind, hp]
    rw [hstep, hpk, List.length_cons, Nat.add_sub_cancel, substituteFrom_length, List.append_nil, valueOf, hp]
    rfl

/-- One after another, a mark becomes its value expanded. -/
theorem substituteEach_mark (hpairs : ∀ p ∈ pairs, M.IsMark p.1) {k : Text} (hk : M.IsMark k) :
    substituteEach pairs k = expanded k pairs := by
  induction pairs with
  | nil => rfl
  | cons p later ih =>
    have hp : ∀ q ∈ [p], M.IsMark q.1 := by simpa using hpairs p (List.mem_cons_self ..)
    rw [substituteEach, List.foldl_cons, substitute_mark hp hk, expanded]
    by_cases hpk : p.1 = k
    · rw [if_pos hpk, valueOf, List.find?_cons_of_pos (by simpa using hpk)]
      rfl
    · rw [if_neg hpk, valueOf, List.find?_cons_of_neg (by simpa using hpk)]
      exact ih fun q hq => hpairs q (List.mem_cons_of_mem _ hq)

/-- No value has a later mark in it. -/
def Clean (pairs : List (Text × Text)) : Prop := pairs.Pairwise fun p q => ¬ q.1 <:+: p.2

/-- A value without the later marks is left as it is. -/
theorem substituteEach_eq_self {t : Text} (h : ∀ p ∈ pairs, ¬ p.1 <:+: t) : substituteEach pairs t = t := by
  induction pairs with
  | nil => rfl
  | cons p later ih =>
    have hp : substitute [p] t = t := substitute_eq_self (by simpa using h p (List.mem_cons_self ..))
    rw [substituteEach, List.foldl_cons, hp]
    exact ih fun q hq => h q (List.mem_cons_of_mem _ hq)

/-- Without later marks in the values, a mark becomes its value. -/
theorem Clean.expanded (h : Clean pairs) (k : Text) : expanded k pairs = valueOf k pairs := by
  induction pairs with
  | nil => rfl
  | cons p later ih =>
    obtain ⟨hp, hlater⟩ := List.pairwise_cons.mp h
    rw [Template.expanded, valueOf]
    by_cases hpk : p.1 = k
    · rw [if_pos hpk, List.find?_cons_of_pos (by simpa using hpk), substituteEach_eq_self hp]
      rfl
    · rw [if_neg hpk, List.find?_cons_of_neg (by simpa using hpk)]
      exact ih hlater

/-- Where a value has a later mark in it, what the marks are replaced by at once has a mark. -/
theorem exists_firstMark_of_not_clean (hpairs : ∀ p ∈ pairs, M.IsMark p.1) (hnodup : (pairs.map (·.1)).Nodup)
    (h : ¬ Clean pairs) : ∃ k ∈ pairs.map (·.1), (M.firstMark (valueOf k pairs)).isSome := by
  induction pairs with
  | nil => exact absurd List.Pairwise.nil h
  | cons p later ih =>
    obtain ⟨hfresh, hlater⟩ := List.nodup_cons.mp hnodup
    by_cases hp : ∀ q ∈ later, ¬ q.1 <:+: p.2
    · have hnot : ¬ Clean later := fun hclean => h (List.pairwise_cons.mpr ⟨hp, hclean⟩)
      obtain ⟨k, hk, hmark⟩ := ih (fun q hq => hpairs q (List.mem_cons_of_mem _ hq)) hlater hnot
      refine ⟨k, List.mem_cons_of_mem _ hk, ?_⟩
      have hne : p.1 ≠ k := by
        rintro rfl
        exact hfresh hk
      rwa [valueOf, List.find?_cons_of_neg (by simpa using hne)]
    · simp only [not_forall, not_not] at hp
      obtain ⟨q, hq, hin⟩ := hp
      refine ⟨p.1, List.mem_cons_self .., ?_⟩
      rw [valueOf, List.find?_cons_of_pos (by simp)]
      exact Marking.firstMark_of_infix (hpairs q (List.mem_cons_of_mem _ hq)) hin

/-- One after another comes to the same as at once, or leaves a mark, exactly where no value has a later mark in it or some
value has a mark left when the later ones in it are replaced. -/
theorem substituteEach_eq_or_firstMark_iff (hpairs : ∀ p ∈ pairs, M.IsMark p.1) (hnodup : (pairs.map (·.1)).Nodup)
    (h : Separated M segs) (hholes : ∀ k, k ∈ holes segs ↔ k ∈ pairs.map (·.1)) :
    ((M.firstMark (substituteEach pairs (assemble id segs))).isSome ∨
      substituteEach pairs (assemble id segs) = substitute pairs (assemble id segs)) ↔
    (Clean pairs ∨ ∃ k ∈ pairs.map (·.1), (M.firstMark (expanded k pairs)).isSome) := by
  have hmark : ∀ k ∈ holes segs, M.IsMark k := by
    intro k hk
    obtain ⟨p, hp, rfl⟩ := List.mem_map.mp ((hholes k).mp hk)
    exact hpairs p hp
  have heach : substituteEach pairs (assemble id segs) = assemble (fun k => expanded k pairs) segs := by
    rw [substituteEach_assemble hpairs h]
    exact assemble_congr fun k hk => substituteEach_mark hpairs (hmark k hk)
  have honce : substitute pairs (assemble id segs) = assemble (fun k => valueOf k pairs) segs := by
    rw [substitute_assemble hpairs h]
    exact assemble_congr fun k hk => substitute_mark hpairs (hmark k hk)
  have hleft : (M.firstMark (assemble (fun k => expanded k pairs) segs)).isSome ↔
      ∃ k ∈ pairs.map (·.1), (M.firstMark (expanded k pairs)).isSome := by
    rw [firstMark_assemble h]
    exact exists_congr fun k => and_congr_left' (hholes k)
  rw [heach, honce, hleft]
  constructor
  · rintro (hthrow | hsame)
    · exact .inr hthrow
    · by_cases hclean : Clean pairs
      · exact .inl hclean
      · refine .inr (hleft.mp ?_)
        rw [hsame, firstMark_assemble h]
        obtain ⟨k, hk, hk'⟩ := exists_firstMark_of_not_clean hpairs hnodup hclean
        exact ⟨k, (hholes k).mpr hk, hk'⟩
  · rintro (hclean | hmarked)
    · exact .inr (assemble_congr fun k _ => hclean.expanded k)
    · exact .inl hmarked

end

end Template

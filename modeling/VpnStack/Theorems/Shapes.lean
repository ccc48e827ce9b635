import VpnStack.Control.Errors
import VpnStack.Payload
import VpnStack.Lib.Fallible

/-!
# What an error says of an answer

Two answers of the same shape that the app cannot read are refused with the same message, whatever the strings in them say. Two
things beside the shape are told all the same: whether a protocol was changed, because an unchanged one is answered with other
keys, and how long an answer is that is no JSON, without the white space around it.
-/

namespace VpnStack

open Control

namespace Shapes

/-! ## Values of the same shape -/

/-- A number. -/
def IsNumber (v : Json) : Prop := (∃ n, v = .num n) ∨ ∃ n, v = .other n

/-- Two numbers; an integer is of one type and any other number of another. -/
def AlikeNumber (v v' : Json) : Prop := IsNumber v' ∧ (Dart.asInt v).isSome = (Dart.asInt v').isSome

mutual

/-- The same keys in the same order, the same types, and lists and strings of the same length. -/
def Alike : Json → Json → Prop
  | .null, .null => True
  | .bool _, .bool _ => True
  | .num n, v' => AlikeNumber (.num n) v'
  | .other n, v' => AlikeNumber (.other n) v'
  | .str t, .str t' => Dart.length t = Dart.length t'
  | .arr items, .arr items' => AlikeItems items items'
  | .obj members, .obj members' => AlikeMembers members members'
  | _, _ => False

def AlikeItems : List Json → List Json → Prop
  | [], [] => True
  | v :: vs, v' :: vs' => Alike v v' ∧ AlikeItems vs vs'
  | _, _ => False

def AlikeMembers : JsonMap → JsonMap → Prop
  | [], [] => True
  | (key, v) :: ms, (key', v') :: ms' => key = key' ∧ Alike v v' ∧ AlikeMembers ms ms'
  | _, _ => False

end

/-- The kinds two values of the same shape can both be of. -/
inductive Kinds : Json → Json → Prop where
  | null : Kinds .null .null
  | bool (b b' : Bool) : Kinds (.bool b) (.bool b')
  | number {v v' : Json} : IsNumber v → IsNumber v' → (Dart.asInt v).isSome = (Dart.asInt v').isSome → Kinds v v'
  | str {t t' : Text} : Dart.length t = Dart.length t' → Kinds (.str t) (.str t')
  | arr {items items' : List Json} : AlikeItems items items' → Kinds (.arr items) (.arr items')
  | obj {members members' : JsonMap} : AlikeMembers members members' → Kinds (.obj members) (.obj members')

/-- Values of the same shape are of the same kind. -/
theorem Alike.kinds {v v' : Json} (h : Alike v v') : Kinds v v' := by
  cases v with
  | num n =>
    rw [Alike] at h
    exact .number (.inl ⟨n, rfl⟩) h.1 h.2
  | other n =>
    rw [Alike] at h
    exact .number (.inr ⟨n, rfl⟩) h.1 h.2
  | null =>
    cases v' with
    | null => exact .null
    | _ => simp [Alike] at h
  | bool b =>
    cases v' with
    | bool b' => exact .bool b b'
    | _ => simp [Alike] at h
  | str t =>
    cases v' with
    | str t' => exact .str (by simpa [Alike] using h)
    | _ => simp [Alike] at h
  | arr items =>
    cases v' with
    | arr items' => exact .arr (by simpa [Alike] using h)
    | _ => simp [Alike] at h
  | obj members =>
    cases v' with
    | obj members' => exact .obj (by simpa [Alike] using h)
    | _ => simp [Alike] at h

/-- Lists of the same shape are so item by item. -/
theorem forall₂_of_alikeItems {items items' : List Json} (h : AlikeItems items items') : List.Forall₂ Alike items items' := by
  induction items generalizing items' with
  | nil =>
    cases items' with
    | nil => exact .nil
    | cons v' vs' => simp [AlikeItems] at h
  | cons v vs ih =>
    cases items' with
    | nil => simp [AlikeItems] at h
    | cons v' vs' =>
      obtain ⟨hv, hvs⟩ := (by simpa [AlikeItems] using h : Alike v v' ∧ AlikeItems vs vs')
      exact .cons hv (ih hvs)

/-- Objects of the same shape are so member by member. -/
theorem forall₂_of_alikeMembers {members members' : JsonMap} (h : AlikeMembers members members') :
    List.Forall₂ (fun m m' => m.1 = m'.1 ∧ Alike m.2 m'.2) members members' := by
  induction members generalizing members' with
  | nil =>
    cases members' with
    | nil => exact .nil
    | cons m' ms' => simp [AlikeMembers] at h
  | cons m ms ih =>
    cases members' with
    | nil => simp [AlikeMembers] at h
    | cons m' ms' =>
      obtain ⟨hkey, hv, hms⟩ := (by simpa [AlikeMembers] using h : m.1 = m'.1 ∧ Alike m.2 m'.2 ∧ AlikeMembers ms ms')
      exact .cons ⟨hkey, hv⟩ (ih hms)

/-- Members of the same shape, one by one. -/
abbrev AlikeFields (json json' : JsonMap) : Prop := List.Forall₂ (fun m m' => m.1 = m'.1 ∧ Alike m.2 m'.2) json json'

section Fields

variable {json json' : JsonMap}

/-- Members of the same shape have the same keys. -/
theorem keys_eq (h : AlikeFields json json') : json.map (·.1) = json'.map (·.1) := by
  induction h with
  | nil => rfl
  | cons hm _ ih => rw [List.map_cons, List.map_cons, hm.1, ih]

/-- A field is missing on both sides, or there on both and of one shape. -/
theorem lookup_alike (h : AlikeFields json json') (key : Text) :
    json.lookup key = none ∧ json'.lookup key = none ∨
      ∃ v v', json.lookup key = some v ∧ json'.lookup key = some v' ∧ Alike v v' := by
  induction h with
  | nil => exact .inl ⟨rfl, rfl⟩
  | @cons m m' ms ms' hm _ ih =>
    obtain ⟨k, v⟩ := m
    obtain ⟨k', v'⟩ := m'
    obtain ⟨rfl, hv⟩ := hm
    rw [List.lookup_cons, List.lookup_cons]
    cases hkey : key == k with
    | true => exact .inr ⟨v, v', rfl, rfl, hv⟩
    | false => exact ih

/-- What is picked by its key is picked on both sides. -/
theorem filter_alike (h : AlikeFields json json') (p : Text → Bool) :
    AlikeFields (json.filter fun m => p m.1) (json'.filter fun m => p m.1) := by
  induction h with
  | nil => exact .nil
  | @cons m m' ms ms' hm _ ih =>
    have hp : p m'.1 = p m.1 := by rw [hm.1]
    rw [List.filter_cons, List.filter_cons, hp]
    cases p m.1 with
    | true => exact .cons hm ih
    | false => exact ih

end Fields

/-! ## The readers -/

section Readers

variable (complaint : Text → Text)

/-- Two refusals that are told in the same words. -/
inductive SameRefusal : PayloadException → PayloadException → Prop where
  | same (e : PayloadException) : SameRefusal e e
  | notBase64 (path : Text) {text text' : Text} (h : complaint text = complaint text') :
      SameRefusal (.notBase64 path text) (.notBase64 path text')

/-- Two readings that both give a value, and related ones, or are refused in the same words. -/
abbrev Agree {α β : Type} (R : α → β → Prop) (x : Decoded α) (y : Decoded β) : Prop := Except.Agree (SameRefusal complaint) R x y

/-- Whatever is read. -/
def Any {α β : Type} (_ : α) (_ : β) : Prop := True

variable {complaint} {v v' : Json} {json json' : JsonMap} {key location : Text}

/-- Two readings that succeed agree, where the values do not matter. -/
theorem agree_ok {α β : Type} {a : α} {b : β} : Agree complaint Any (.ok a) (.ok b) := .ok trivial

/-- Two readings that are refused in the same words agree. -/
theorem agree_error {α β : Type} {R : α → β → Prop} {e e' : PayloadException} (h : e = e') :
    Agree complaint R (.error e) (.error e') := h ▸ .error (.same e)

/-- A string is read on both sides, or on neither. -/
theorem agree_asString (h : Alike v v') (path : Text) :
    Agree complaint (fun t t' => v = .str t ∧ v' = .str t') (asString v path) (asString v' path) := by
  cases h.kinds with
  | str _ => exact .ok ⟨rfl, rfl⟩
  | null => exact agree_error rfl
  | bool b b' => exact agree_error rfl
  | number hv hv' _ => obtain ⟨n, rfl⟩ | ⟨n, rfl⟩ := hv <;> obtain ⟨n', rfl⟩ | ⟨n', rfl⟩ := hv' <;> exact agree_error rfl
  | arr _ => exact agree_error rfl
  | obj _ => exact agree_error rfl

/-- A list is read on both sides, with items of the same shape, or on neither. -/
theorem agree_asList (h : Alike v v') (path : Text) :
    Agree complaint (fun items items' => v = .arr items ∧ v' = .arr items' ∧ List.Forall₂ Alike items items')
      (asList v path) (asList v' path) := by
  cases h.kinds with
  | arr h => exact .ok ⟨rfl, rfl, forall₂_of_alikeItems h⟩
  | null => exact agree_error rfl
  | bool b b' => exact agree_error rfl
  | number hv hv' _ => obtain ⟨n, rfl⟩ | ⟨n, rfl⟩ := hv <;> obtain ⟨n', rfl⟩ | ⟨n', rfl⟩ := hv' <;> exact agree_error rfl
  | str _ => exact agree_error rfl
  | obj _ => exact agree_error rfl

/-- An object is read on both sides, with members of the same shape, or on neither. -/
theorem agree_asObject (h : Alike v v') (path : Text) :
    Agree complaint (fun m m' => v = .obj m ∧ v' = .obj m' ∧ AlikeFields m m') (asObject v path) (asObject v' path) := by
  cases h.kinds with
  | obj h => exact .ok ⟨rfl, rfl, forall₂_of_alikeMembers h⟩
  | null => exact agree_error rfl
  | bool b b' => exact agree_error rfl
  | number hv hv' _ => obtain ⟨n, rfl⟩ | ⟨n, rfl⟩ := hv <;> obtain ⟨n', rfl⟩ | ⟨n', rfl⟩ := hv' <;> exact agree_error rfl
  | str _ => exact agree_error rfl
  | arr _ => exact agree_error rfl

/-- The items of two lists of the same length, with their places. -/
theorem forall₂_zipIdx {α β : Type} {R : α → β → Prop} {xs : List α} {ys : List β} (h : List.Forall₂ R xs ys) :
    List.Forall₂ (fun a b => a.2 = b.2 ∧ R a.1 b.1 ∧ xs[a.2]? = some a.1 ∧ ys[a.2]? = some b.1) xs.zipIdx ys.zipIdx := by
  obtain ⟨hlength, hget⟩ := List.forall₂_iff_get.mp h
  refine List.forall₂_iff_get.mpr ⟨by simp [hlength], fun i hi hi' => ?_⟩
  rw [List.length_zipIdx] at hi hi'
  simpa [hi, hi'] using hget i hi hi'

/-- A list of strings is read on both sides, or the same item is refused. -/
theorem agree_strings (h : Alike v v') (path : Text) : Agree complaint Any (strings v path) (strings v' path) := by
  refine (agree_asList h path).bind fun items items' ⟨_, _, hitems⟩ => ?_
  have htexts : List.Forall₂ (fun a b => Agree complaint Any (asString a.1 (itemPath path a.2)) (asString b.1 (itemPath path b.2)))
      items.zipIdx items'.zipIdx := by
    refine (forall₂_zipIdx hitems).imp fun a b ⟨hplace, hab, _⟩ => ?_
    rw [← hplace]
    exact (agree_asString hab _).mono fun _ _ _ => trivial
  exact (Except.Agree.mapM htexts).mono fun _ _ _ => trivial

section Named

variable (h : AlikeFields json json') (key location : Text)

include h

/-- A field that must be there is there on both sides, or missed in the same words. -/
theorem agree_present : Agree complaint (fun v v' => json.lookup key = some v ∧ json'.lookup key = some v' ∧ Alike v v')
    (present json key location) (present json' key location) := by
  unfold present
  rcases lookup_alike h key with ⟨hnone, hnone'⟩ | ⟨v, v', hv, hv', halike⟩
  · rw [hnone, hnone']
    exact agree_error rfl
  · rw [hv, hv']
    exact .ok ⟨rfl, rfl, halike⟩

/-- Both sides hold a string under the key, or are refused in the same words. -/
theorem agree_readString : Agree complaint (fun t t' => json.lookup key = some (.str t) ∧ json'.lookup key = some (.str t'))
    (readString json key location) (readString json' key location) := by
  refine (agree_present h key location).bind fun v v' ⟨hv, hv', halike⟩ => ?_
  refine (agree_asString halike _).mono fun t t' ⟨ht, ht'⟩ => ?_
  rw [hv, hv', ht, ht']
  exact ⟨rfl, rfl⟩

/-- Both sides hold a boolean under the key, or are refused in the same words. -/
theorem agree_readBool : Agree complaint (fun b b' => json.lookup key = some (.bool b) ∧ json'.lookup key = some (.bool b'))
    (readBool json key location) (readBool json' key location) := by
  refine (agree_present h key location).bind fun v v' ⟨hv, hv', halike⟩ => ?_
  cases halike.kinds with
  | bool b b' => exact .ok ⟨hv, hv'⟩
  | null => exact agree_error rfl
  | number hv hv' _ => obtain ⟨n, rfl⟩ | ⟨n, rfl⟩ := hv <;> obtain ⟨n', rfl⟩ | ⟨n', rfl⟩ := hv' <;> exact agree_error rfl
  | str _ => exact agree_error rfl
  | arr _ => exact agree_error rfl
  | obj _ => exact agree_error rfl

/-- A field that holds an integer: which numbers are integers is part of the shape. -/
theorem agree_readInt : Agree complaint Any (readInt json key location) (readInt json' key location) := by
  refine (agree_present h key location).bind fun v v' ⟨hv, hv', halike⟩ => ?_
  cases halike.kinds with
  | number hnum hnum' hint =>
    cases hn : Dart.asInt v with
    | some n =>
      rw [hn] at hint
      obtain ⟨n', hn'⟩ := Option.isSome_iff_exists.mp hint.symm
      rw [hn']
      exact agree_ok
    | none =>
      rw [hn] at hint
      have hn' : Dart.asInt v' = none := by simpa using hint.symm
      rw [hn']
      obtain ⟨n, rfl⟩ | ⟨n, rfl⟩ := hnum <;> obtain ⟨n', rfl⟩ | ⟨n', rfl⟩ := hnum' <;> exact agree_error rfl
  | null => exact agree_error rfl
  | bool b b' => exact agree_error rfl
  | str _ => exact agree_error rfl
  | arr _ => exact agree_error rfl
  | obj _ => exact agree_error rfl

/-- A list of strings is read under the key on both sides, or on neither. -/
theorem agree_readStringList : Agree complaint Any (readStringList json key location) (readStringList json' key location) :=
  (agree_present h key location).bind fun _ _ ⟨_, _, halike⟩ => agree_strings halike _

/-- Both sides hold an object under the key, with members of the same shape, or are refused in the same words. -/
theorem agree_readObject :
    Agree complaint (fun m m' => json.lookup key = some (.obj m) ∧ json'.lookup key = some (.obj m') ∧ AlikeFields m m')
      (readObject json key location) (readObject json' key location) := by
  refine (agree_present h key location).bind fun v v' ⟨hv, hv', halike⟩ => ?_
  refine (agree_asObject halike _).mono fun m m' ⟨hm, hm', hfields⟩ => ?_
  rw [hv, hv', hm, hm']
  exact ⟨rfl, rfl, hfields⟩

/-- Both sides hold a list under the key, with items of the same shape, or are refused in the same words. -/
theorem agree_readList :
    Agree complaint (fun items items' => List.Forall₂ Alike items items') (readList json key location) (readList json' key location) :=
  (agree_present h key location).bind fun _ _ ⟨_, _, halike⟩ => (agree_asList halike _).mono fun _ _ ⟨_, _, hitems⟩ => hitems

/-- A string or null is read under the key on both sides, or on neither. -/
theorem agree_readNullableString :
    Agree complaint Any (readNullableString json key location) (readNullableString json' key location) := by
  unfold readNullableString
  rcases lookup_alike h key with ⟨hnone, hnone'⟩ | ⟨v, v', hv, hv', halike⟩
  · rw [hnone, hnone']
    exact agree_ok
  · rw [hv, hv']
    cases halike.kinds with
    | null => exact agree_ok
    | str _ => exact agree_ok
    | bool b b' => exact agree_error rfl
    | number hv hv' _ => obtain ⟨n, rfl⟩ | ⟨n, rfl⟩ := hv <;> obtain ⟨n', rfl⟩ | ⟨n', rfl⟩ := hv' <;> exact agree_error rfl
    | arr _ => exact agree_error rfl
    | obj _ => exact agree_error rfl

/-- A boolean or null is read under the key on both sides, or on neither. -/
theorem agree_readNullableBool :
    Agree complaint Any (readNullableBool json key location) (readNullableBool json' key location) := by
  unfold readNullableBool
  rcases lookup_alike h key with ⟨hnone, hnone'⟩ | ⟨v, v', hv, hv', halike⟩
  · rw [hnone, hnone']
    exact agree_ok
  · rw [hv, hv']
    cases halike.kinds with
    | null => exact agree_ok
    | bool b b' => exact agree_ok
    | str _ => exact agree_error rfl
    | number hv hv' _ => obtain ⟨n, rfl⟩ | ⟨n, rfl⟩ := hv <;> obtain ⟨n', rfl⟩ | ⟨n', rfl⟩ := hv' <;> exact agree_error rfl
    | arr _ => exact agree_error rfl
    | obj _ => exact agree_error rfl

/-- A list of strings or null is read under the key on both sides, or on neither. -/
theorem agree_readNullableStringList :
    Agree complaint Any (readNullableStringList json key location) (readNullableStringList json' key location) := by
  unfold readNullableStringList
  rcases lookup_alike h key with ⟨hnone, hnone'⟩ | ⟨v, v', hv, hv', halike⟩
  · rw [hnone, hnone']
    exact agree_ok
  · rw [hv, hv']
    have hstrings : Agree complaint Any (some <$> strings v (jsonPath location key)) (some <$> strings v' (jsonPath location key)) :=
      (agree_strings halike _).map fun _ _ _ => trivial
    cases halike.kinds with
    | null => exact agree_ok
    | bool b b' => exact hstrings
    | number hv hv' _ => obtain ⟨n, rfl⟩ | ⟨n, rfl⟩ := hv <;> obtain ⟨n', rfl⟩ | ⟨n', rfl⟩ := hv' <;> exact hstrings
    | str _ => exact hstrings
    | arr _ => exact hstrings
    | obj _ => exact hstrings

/-- The unknown keys are the same on both sides. -/
theorem agree_rejectUnknown (known : List Text) :
    Agree complaint Any (rejectUnknown json known location) (rejectUnknown json' known location) := by
  unfold rejectUnknown
  induction h with
  | nil => exact agree_ok
  | @cons m m' ms ms' hm _ ih =>
    rw [List.find?_cons, List.find?_cons, ← hm.1]
    by_cases hkey : m.1 ∉ known
    · rw [decide_eq_true hkey]
      exact agree_error (by rw [hm.1])
    · rw [decide_eq_false hkey]
      exact ih

/-- What `dart:convert` complains of in a text, or none where it decodes it. -/
def complaintOf (complaint : Text → Text) (text : Text) : Option Text :=
  match Base64.strictDecode text with
  | some _ => none
  | none => some (complaint text)

/-- A field that holds Base64 agrees where what the decoder says of the two texts is the same. -/
theorem agree_readBase64
    (hsame : ((json.lookup key).bind Json.text).bind (complaintOf complaint) =
      ((json'.lookup key).bind Json.text).bind (complaintOf complaint)) :
    Agree complaint Any (readBase64 json key location) (readBase64 json' key location) := by
  refine (agree_readString h key location).bind fun t t' ⟨ht, ht'⟩ => ?_
  rw [ht, ht'] at hsame
  change complaintOf complaint t = complaintOf complaint t' at hsame
  unfold complaintOf at hsame
  cases hd : Base64.strictDecode t with
  | some b =>
    cases hd' : Base64.strictDecode t' with
    | some b' => exact agree_ok
    | none =>
      rw [hd, hd'] at hsame
      cases hsame
  | none =>
    cases hd' : Base64.strictDecode t' with
    | some b' =>
      rw [hd, hd'] at hsame
      cases hsame
    | none =>
      rw [hd, hd'] at hsame
      exact .error (.notBase64 _ (Option.some.inj hsame))

end Named

/-! ## The models -/

/-- The report of a reconcile of the certificates is read on both sides, or on neither. -/
theorem agree_reconcile (h : AlikeFields json json') (location : Text) :
    Agree complaint Any (Ikev2Reconcile.fromJson json location) (Ikev2Reconcile.fromJson json' location) := by
  unfold Ikev2Reconcile.fromJson
  rw [keys_eq h]
  split
  · refine (agree_rejectUnknown h _ _).bind fun _ _ _ => ?_
    refine (agree_readString h _ _).bind fun _ _ _ => ?_
    exact (agree_readNullableString h _ _).bind fun _ _ _ => agree_ok
  · refine (agree_rejectUnknown h _ _).bind fun _ _ _ => ?_
    refine (agree_readStringList h _ _).bind fun _ _ _ => ?_
    refine (agree_readStringList h _ _).bind fun _ _ _ => ?_
    exact (agree_readStringList h _ _).bind fun _ _ _ => agree_ok

/-- A report of a reconcile that may be absent is read on both sides, or on neither. -/
theorem agree_readReconcile (h : AlikeFields json json') (location : Text) :
    Agree complaint Any (ApplyResult.readReconcile json location) (ApplyResult.readReconcile json' location) := by
  unfold ApplyResult.readReconcile
  rw [keys_eq h]
  split
  · exact (agree_readObject h _ _).bind fun _ _ ⟨_, _, hfields⟩ => (agree_reconcile hfields _).map fun _ _ _ => trivial
  · exact agree_ok

/-- The result of an apply is read on both sides, or on neither. -/
theorem agree_applyResult (h : AlikeFields json json') (consumed : List Text) (location : Text) :
    Agree complaint Any (ApplyResult.fromJson json consumed location) (ApplyResult.fromJson json' consumed location) := by
  unfold ApplyResult.fromJson
  refine (agree_readString h _ _).bind fun _ _ _ => ?_
  refine (agree_readStringList h _ _).bind fun _ _ _ => ?_
  refine (agree_readBool h _ _).bind fun _ _ _ => ?_
  refine (agree_readNullableStringList h _ _).bind fun _ _ _ => ?_
  refine (agree_readBool h _ _).bind fun _ _ _ => ?_
  refine (agree_readNullableString h _ _).bind fun _ _ _ => ?_
  refine (agree_readNullableStringList h _ _).bind fun _ _ _ => ?_
  refine (agree_readNullableBool h _ _).bind fun _ _ _ => ?_
  refine (agree_readNullableStringList h _ _).bind fun _ _ _ => ?_
  refine (agree_readNullableString h _ _).bind fun _ _ _ => ?_
  exact (agree_readReconcile h _).bind fun _ _ _ => agree_ok

/-- The payload of `user add` and `user rm` is read on both sides, or on neither. -/
theorem agree_userMutation (h : AlikeFields json json') :
    Agree complaint Any (UserMutation.fromJson json) (UserMutation.fromJson json') :=
  (agree_readString h _ _).bind fun _ _ _ => (agree_applyResult h _ _).bind fun _ _ _ => agree_ok

/-- The payload of `user enable` and `user disable` is read on both sides, or on neither. -/
theorem agree_userEnablement (h : AlikeFields json json') :
    Agree complaint Any (UserEnablement.fromJson json) (UserEnablement.fromJson json') :=
  (agree_readString h _ _).bind fun _ _ _ => (agree_readBool h _ _).bind fun _ _ _ =>
    (agree_applyResult h _ _).bind fun _ _ _ => agree_ok

/-- Whether the protocol was changed decides which keys there may be. -/
theorem agree_protocolToggle (h : AlikeFields json json') (hchanged : json.lookup "changed".toList = json'.lookup "changed".toList) :
    Agree complaint Any (ProtocolToggle.fromJson json) (ProtocolToggle.fromJson json') := by
  refine (agree_readBool h _ _).bind fun b b' ⟨hb, hb'⟩ => ?_
  rw [hb, hb'] at hchanged
  obtain rfl : b = b' := Json.bool.inj (Option.some.inj hchanged)
  cases b with
  | true => exact (agree_applyResult h _ _).bind fun _ _ _ => agree_ok
  | false => exact (agree_rejectUnknown h _ _).bind fun _ _ _ => agree_ok

/-- The payload of `status` is read on both sides, or on neither. -/
theorem agree_serverStatus (h : AlikeFields json json') :
    Agree complaint Any (ServerStatus.fromJson json) (ServerStatus.fromJson json') := by
  refine (agree_rejectUnknown h _ _).bind fun _ _ _ => ?_
  refine (agree_readString h _ _).bind fun _ _ _ => ?_
  refine (agree_readBool h _ _).bind fun _ _ _ => ?_
  refine (agree_readNullableString h _ _).bind fun _ _ _ => ?_
  refine (agree_readStringList h _ _).bind fun _ _ _ => ?_
  refine (agree_readStringList h _ _).bind fun _ _ _ => ?_
  refine (agree_readInt h _ _).bind fun _ _ _ => ?_
  refine (agree_readInt h _ _).bind fun _ _ _ => ?_
  exact (agree_readBool h _ _).bind fun _ _ _ => agree_ok

/-- The secrets of a user in a listing are read on both sides, or on neither. -/
theorem agree_userSecrets (h : AlikeFields json json') (location : Text) :
    Agree complaint Any (UserSecrets.fromJson json location) (UserSecrets.fromJson json' location) := by
  unfold UserSecrets.fromJson
  rw [keys_eq h]
  dsimp only
  split
  · exact agree_ok
  · split
    · exact agree_error rfl
    · refine (agree_readString h _ _).bind fun _ _ _ => ?_
      refine (agree_readString h _ _).bind fun _ _ _ => ?_
      exact (agree_readString h _ _).bind fun _ _ _ => agree_ok

/-- A user in a listing is read on both sides, or on neither. -/
theorem agree_vpnUser (h : AlikeFields json json') (location : Text) :
    Agree complaint Any (VpnUser.fromJson json location) (VpnUser.fromJson json' location) := by
  refine (agree_rejectUnknown h _ _).bind fun _ _ _ => ?_
  refine (agree_readString h _ _).bind fun _ _ _ => ?_
  refine (agree_readBool h _ _).bind fun _ _ _ => ?_
  refine (agree_readBool h _ _).bind fun _ _ _ => ?_
  refine (agree_readString h _ _).bind fun _ _ _ => ?_
  exact (agree_userSecrets h _).bind fun _ _ _ => agree_ok

/-- A protocol in a listing is read on both sides, or on neither. -/
theorem agree_protocolEntry (h : AlikeFields json json') (location : Text) :
    Agree complaint Any (ProtocolEntry.fromJson json location) (ProtocolEntry.fromJson json' location) := by
  refine (agree_rejectUnknown h _ _).bind fun _ _ _ => ?_
  refine (agree_readString h _ _).bind fun _ _ _ => ?_
  refine (agree_readBool h _ _).bind fun _ _ _ => ?_
  refine (agree_readStringList h _ _).bind fun _ _ _ => ?_
  refine (agree_readString h _ _).bind fun _ _ _ => ?_
  refine (agree_readString h _ _).bind fun _ _ _ => ?_
  exact (agree_readString h _ _).bind fun _ _ _ => agree_ok

/-- A listing agrees where its rows do. -/
theorem agree_readRows {α : Type} {fromJson : JsonMap → Text → Decoded α}
    (hrow : ∀ {row row' : JsonMap}, AlikeFields row row' → ∀ location,
      Agree complaint Any (fromJson row location) (fromJson row' location))
    (h : AlikeFields json json') (key : Text) : Agree complaint Any (readRows fromJson key json) (readRows fromJson key json') := by
  refine (agree_rejectUnknown h _ _).bind fun _ _ _ => ?_
  refine (agree_readList h _ _).bind fun rows rows' hrows => ?_
  refine (Except.Agree.mapM (S := Any) ?_).mono fun _ _ _ => trivial
  refine (forall₂_zipIdx hrows).imp fun a b ⟨hplace, hab, _⟩ => ?_
  rw [← hplace]
  exact (agree_asObject hab _).bind fun _ _ ⟨_, _, hfields⟩ => hrow hfields _

/-! ## Share bundles -/

/-- The keys of a base64 field of an item. -/
def base64Keys : List Text := ["png_b64", "b64"]

/-- The base64 fields of two items are complained of in the same words. -/
def SameComplaints (complaint : Text → Text) (json json' : JsonMap) : Prop :=
  ∀ key ∈ base64Keys, ((json.lookup key).bind Json.text).bind (complaintOf complaint) =
    ((json'.lookup key).bind Json.text).bind (complaintOf complaint)

/-- A pair with anything but two strings in it is refused, without a word of what it holds. -/
theorem readRow_pair {a b : Json} (h : ¬ ∃ t u, a = .str t ∧ b = .str u) (path : Text) :
    readRow path (.arr [a, b]) = .error (.format (path ++ (": expected two strings" : Text))) := by
  cases a with
  | str t =>
    cases b with
    | str u => exact absurd ⟨t, u, rfl, rfl⟩ h
    | _ => rfl
  | _ => rfl

/-- A row of another length is refused, and its length is all that is told. -/
theorem readRow_length {items : List Json} (h : items.length ≠ 2) (path : Text) :
    readRow path (.arr items) = .error (.format (path ++ (": expected a [setting, value] pair, got " : Text) ++
      Nat.toDigits 10 items.length ++ (" element(s)" : Text))) := by
  match items, h with
  | [], _ => rfl
  | [a], _ => cases a <;> rfl
  | [_, _], h => exact absurd rfl h
  | a :: b :: _ :: _, _ => cases a <;> cases b <;> rfl

/-- A string stands beside a string. -/
theorem str_of_alike (h : Alike v v') : (∃ t, v = .str t) ↔ ∃ t', v' = .str t' := by
  cases h.kinds with
  | str _ => exact iff_of_true ⟨_, rfl⟩ ⟨_, rfl⟩
  | null => exact iff_of_false (fun ⟨_, h⟩ => nomatch h) (fun ⟨_, h⟩ => nomatch h)
  | bool b b' => exact iff_of_false (fun ⟨_, h⟩ => nomatch h) (fun ⟨_, h⟩ => nomatch h)
  | number hv hv' _ =>
    obtain ⟨n, rfl⟩ | ⟨n, rfl⟩ := hv <;> obtain ⟨n', rfl⟩ | ⟨n', rfl⟩ := hv' <;>
      exact iff_of_false (fun ⟨_, h⟩ => nomatch h) (fun ⟨_, h⟩ => nomatch h)
  | arr _ => exact iff_of_false (fun ⟨_, h⟩ => nomatch h) (fun ⟨_, h⟩ => nomatch h)
  | obj _ => exact iff_of_false (fun ⟨_, h⟩ => nomatch h) (fun ⟨_, h⟩ => nomatch h)

/-- A row of a bundle's settings is read on both sides, or on neither. -/
theorem agree_readRow (h : Alike v v') (path : Text) : Agree complaint Any (readRow path v) (readRow path v') := by
  cases h.kinds with
  | @arr items items' h =>
    have hitems := forall₂_of_alikeItems h
    by_cases hlength : items.length = 2
    · obtain ⟨a, b, rfl⟩ := List.length_eq_two.mp hlength
      obtain ⟨a', b', rfl⟩ := List.length_eq_two.mp (hitems.length_eq ▸ hlength)
      obtain ⟨ha, hb⟩ : Alike a a' ∧ Alike b b' := by simpa using hitems
      by_cases hstrings : ∃ t u, a = .str t ∧ b = .str u
      · obtain ⟨t, u, rfl, rfl⟩ := hstrings
        obtain ⟨t', rfl⟩ := (str_of_alike ha).mp ⟨t, rfl⟩
        obtain ⟨u', rfl⟩ := (str_of_alike hb).mp ⟨u, rfl⟩
        exact agree_ok
      · have hstrings' : ¬ ∃ t' u', a' = .str t' ∧ b' = .str u' := by
          rintro ⟨t', u', ha', hb'⟩
          obtain ⟨t, rfl⟩ := (str_of_alike ha).mpr ⟨t', ha'⟩
          obtain ⟨u, rfl⟩ := (str_of_alike hb).mpr ⟨u', hb'⟩
          exact hstrings ⟨t, u, rfl, rfl⟩
        rw [readRow_pair hstrings, readRow_pair hstrings']
        exact agree_error rfl
    · rw [readRow_length hlength, readRow_length (hitems.length_eq ▸ hlength), hitems.length_eq]
      exact agree_error rfl
  | null => exact agree_error rfl
  | bool b b' => exact agree_error rfl
  | number hv hv' _ => obtain ⟨n, rfl⟩ | ⟨n, rfl⟩ := hv <;> obtain ⟨n', rfl⟩ | ⟨n', rfl⟩ := hv' <;> exact agree_error rfl
  | str _ => exact agree_error rfl
  | obj _ => exact agree_error rfl

/-- An item of a bundle is read on both sides, or on neither, if the decoder says the same of its Base64. -/
theorem agree_shareItem (h : AlikeFields json json') (hsame : SameComplaints complaint json json') (location : Text) :
    Agree complaint Any (ShareItem.fromJson json location) (ShareItem.fromJson json' location) := by
  have huri : Agree complaint Any (ShareItem.readUri json location) (ShareItem.readUri json' location) := by
    refine (agree_rejectUnknown h _ _).bind fun _ _ _ => ?_
    refine (agree_readString h _ _).bind fun _ _ _ => ?_
    refine (agree_readString h _ _).bind fun _ _ _ => ?_
    refine Except.Agree.bind (R := Any) ?_ fun _ _ _ => agree_ok
    unfold readPng
    rw [keys_eq h]
    split
    · exact (agree_readBase64 h _ _ (hsame _ (List.mem_cons_self ..))).map fun _ _ _ => trivial
    · exact agree_ok
  have hfile : Agree complaint Any (ShareItem.readFile json location) (ShareItem.readFile json' location) := by
    refine (agree_rejectUnknown h _ _).bind fun _ _ _ => ?_
    refine (agree_readString h _ _).bind fun _ _ _ => ?_
    refine (agree_readString h _ _).bind fun _ _ _ => ?_
    exact (agree_readBase64 h _ _ (hsame _ (List.mem_cons_of_mem _ (List.mem_cons_self ..)))).bind fun _ _ _ => agree_ok
  have hfields : Agree complaint Any (ShareItem.readFields json location) (ShareItem.readFields json' location) := by
    refine (agree_rejectUnknown h _ _).bind fun _ _ _ => ?_
    refine (agree_readList h _ _).bind fun rows rows' hrows => ?_
    refine Except.Agree.bind (R := List.Forall₂ Any) (Except.Agree.mapM ?_) fun _ _ _ => ?_
    · refine (forall₂_zipIdx hrows).imp fun a b ⟨hplace, hab, _⟩ => ?_
      rw [← hplace]
      exact agree_readRow hab _
    · exact (agree_readString h _ _).bind fun _ _ _ => agree_ok
  unfold ShareItem.fromJson
  rw [keys_eq h]
  dsimp only
  generalize decide ("uri".toList ∈ json'.map (·.1)) = hasUri
  generalize decide ("filename".toList ∈ json'.map (·.1)) = hasFile
  generalize decide ("fields".toList ∈ json'.map (·.1)) = hasFields
  cases hasUri <;> cases hasFile <;> cases hasFields <;>
    first | exact huri | exact hfile | exact hfields | exact agree_error rfl

/-- The text of a base64 field of a share bundle: of that protocol, that item and that name. -/
def base64Field (body : JsonMap) (protocol item : Nat) (key : Text) : Option Text :=
  match body.lookup "protocols".toList with
  | some (.obj raw) =>
    match raw[protocol]? with
    | some (_, .arr items) =>
      match items[item]? with
      | some (.obj json) => (json.lookup key).bind Json.text
      | _ => none
    | _ => none
  | _ => none

/-- Each base64 field of a share bundle is complained of in the same words as the one in its place. -/
def SameBase64 (complaint : Text → Text) (body body' : JsonMap) : Prop :=
  ∀ protocol item, ∀ key ∈ base64Keys, (base64Field body protocol item key).bind (complaintOf complaint) =
    (base64Field body' protocol item key).bind (complaintOf complaint)

/-- The items of a bundle are read on both sides, or the same one is refused in the same words. -/
theorem agree_readItems {items items' : List Json} (h : List.Forall₂ Alike items items')
    (hsame : ∀ (i : Nat) (m m' : JsonMap), items[i]? = some (.obj m) → items'[i]? = some (.obj m') →
      SameComplaints complaint m m') (path : Text) :
    Agree complaint Any (readItems path (.arr items)) (readItems path (.arr items')) := by
  refine (Except.Agree.mapM (S := Any) ?_).mono fun _ _ _ => trivial
  refine (forall₂_zipIdx h).imp fun a b ⟨hplace, hab, ha, hb⟩ => ?_
  rw [← hplace]
  refine (agree_asObject hab _).bind fun m m' ⟨hm, hm', hfields⟩ => ?_
  rw [hm] at ha
  rw [hm'] at hb
  exact agree_shareItem hfields (hsame _ m m' ha hb) _

/-- The payload of `user export` is read on both sides, or on neither. -/
theorem agree_shareBundle (h : AlikeFields json json') (hsame : SameBase64 complaint json json') :
    Agree complaint Any (ShareBundle.fromJson json) (ShareBundle.fromJson json') := by
  refine (agree_rejectUnknown h _ _).bind fun _ _ _ => ?_
  refine (agree_readObject h _ _).bind fun raw raw' ⟨hraw, hraw', hfields⟩ => ?_
  refine Except.Agree.bind (R := List.Forall₂ Any) (Except.Agree.mapM ?_) fun _ _ _ => ?_
  · obtain ⟨hlength, hget⟩ := List.forall₂_iff_get.mp hfields
    refine List.forall₂_iff_get.mpr ⟨hlength, fun i hi hi' => ?_⟩
    obtain ⟨hkey, halike⟩ := hget i hi hi'
    refine Except.Agree.bind (R := Any) ?_ fun _ _ _ => agree_ok
    rw [hkey]
    have hat : raw[i]? = some (raw.get ⟨i, hi⟩) := List.getElem?_eq_getElem hi
    have hat' : raw'[i]? = some (raw'.get ⟨i, hi'⟩) := List.getElem?_eq_getElem hi'
    generalize raw.get ⟨i, hi⟩ = entry at hat halike ⊢
    generalize raw'.get ⟨i, hi'⟩ = entry' at hat' halike ⊢
    obtain ⟨name, v⟩ := entry
    obtain ⟨name', v'⟩ := entry'
    cases (halike : Alike v v').kinds with
    | @arr items items' hitems =>
      refine agree_readItems (forall₂_of_alikeItems hitems) (fun j m m' hm hm' key hkey => ?_) _
      have hfield := hsame i j key hkey
      unfold base64Field at hfield
      rw [hraw, hraw'] at hfield
      dsimp only at hfield
      rw [hat, hat'] at hfield
      dsimp only at hfield
      rwa [hm, hm'] at hfield
    | null => exact agree_error rfl
    | bool b b' => exact agree_error rfl
    | number hv hv' _ => obtain ⟨n, rfl⟩ | ⟨n, rfl⟩ := hv <;> obtain ⟨n', rfl⟩ | ⟨n', rfl⟩ := hv' <;> exact agree_error rfl
    | str _ => exact agree_error rfl
    | obj _ => exact agree_error rfl
  · refine (agree_readString h _ _).bind fun _ _ _ => ?_
    refine (agree_readString h _ _).bind fun _ _ _ => ?_
    exact (agree_readStringList h _ _).bind fun _ _ _ => agree_ok

/-! ## The commands -/

/-- The bodies of two answers to a command: what decides which keys there may be is the same, and so are the complaints. -/
structure SameBodies (complaint : Text → Text) (c : Subcommand) (json json' : JsonMap) : Prop where
  fields : AlikeFields json json'
  changed : c = .setProtocol → json.lookup "changed".toList = json'.lookup "changed".toList
  base64 : c = .exportUser → SameBase64 complaint json json'

/-- The decoder of every subcommand reads both payloads, or refuses both in the same words. -/
theorem agree_fromJson {c : Subcommand} (h : SameBodies complaint c json json') :
    Agree complaint Any (c.fromJson json) (c.fromJson json') := by
  cases c with
  | status => exact agree_serverStatus h.fields
  | listUsers => exact agree_readRows agree_vpnUser h.fields _
  | mutateUser => exact agree_userMutation h.fields
  | setUserEnabled => exact agree_userEnablement h.fields
  | exportUser => exact agree_shareBundle h.fields (h.base64 rfl)
  | listProtocols => exact agree_readRows agree_protocolEntry h.fields _
  | setProtocol => exact agree_protocolToggle h.fields (h.changed rfl)
  | apply => exact agree_applyResult h.fields _ _

/-- Both calls return, or both throw what is told in the same words. -/
abbrev SameOutcome {α β : Type} (complaint : Text → Text) (x : Except VpnctlError α) (y : Except VpnctlError β) : Prop :=
  Except.Agree (fun e e' => e.reason? complaint = e'.reason? complaint) Any x y

/-- Decoders that agree make of two payloads the same outcome. -/
theorem sameOutcome_parse {α β : Type} {fromJson : JsonMap → Decoded α} {fromJson' : JsonMap → Decoded β}
    (h : Agree complaint Any (fromJson json) (fromJson' json')) :
    SameOutcome complaint (parse json fromJson) (parse json' fromJson') := by
  unfold parse
  cases hx : fromJson json with
  | ok a =>
    cases hy : fromJson' json' with
    | ok b => exact .ok trivial
    | error e' =>
      rw [hx, hy] at h
      nomatch h
  | error e =>
    cases hy : fromJson' json' with
    | ok b =>
      rw [hx, hy] at h
      nomatch h
    | error e' =>
      rw [hx, hy] at h
      cases h with
      | error he =>
        cases he with
        | same e => cases e <;> exact .error rfl
        | notBase64 path htext =>
          refine .error ?_
          unfold VpnctlError.reason?
          dsimp only
          rw [htext]

/-- The envelopes of two answers are refused for the same reason, or both are taken off. -/
theorem unwrap_alike {m m' : JsonMap} (henvelope : ∀ key ∈ envelopeKeys, m.lookup key = m'.lookup key) (allowNotOk : Bool) :
    (∃ e, unwrap 0 (some (.obj m)) allowNotOk = .error e ∧ unwrap 0 (some (.obj m')) allowNotOk = .error e) ∨
      unwrap 0 (some (.obj m)) allowNotOk = .ok (m.filter fun member => member.1 ∉ envelopeKeys) ∧
        unwrap 0 (some (.obj m')) allowNotOk = .ok (m'.filter fun member => member.1 ∉ envelopeKeys) := by
  have hschema := henvelope "schema".toList (by decide)
  have hok := henvelope "ok".toList (by decide)
  have herror := henvelope "error".toList (by decide)
  have hexit : ¬ (0 : Int) = lockConflictExit := by decide
  simp only [unwrap, if_neg hexit, hschema, hok, herror]
  generalize (m'.lookup "schema".toList).bind Dart.asInt = schema
  generalize m'.lookup "ok".toList = ok
  generalize (m'.lookup "error".toList).getD .null = error
  cases schema with
  | none => exact .inl ⟨_, rfl, rfl⟩
  | some schema =>
    by_cases hversion : schema ≠ vpnctlSchema
    · simp only [if_pos hversion]
      exact .inl ⟨_, rfl, rfl⟩
    · simp only [if_neg hversion]
      split
      · split
        · split
          · exact .inl ⟨_, rfl, rfl⟩
          · exact .inr ⟨rfl, rfl⟩
        · exact .inl ⟨_, rfl, rfl⟩
      · exact .inl ⟨_, rfl, rfl⟩

end Readers

/-! ## The rendering of a shape -/

/-- Of a number the sketch tells that it is one. -/
theorem sketchScalar_number {v v' : Json} (h : IsNumber v) (h' : IsNumber v') : sketchScalar v = sketchScalar v' := by
  obtain ⟨n, rfl⟩ | ⟨n, rfl⟩ := h <;> obtain ⟨n', rfl⟩ | ⟨n', rfl⟩ := h' <;> rfl

/-- Of a string the sketch tells its length. -/
theorem sketchScalar_str (t : Text) : sketchScalar (.str t) = ("string(" : Text) ++ Nat.toDigits 10 (Dart.length t) ++ [')'] := rfl

/-- A number has no parts to sketch. -/
theorem sketch_number {v : Json} (h : IsNumber v) (depth : Nat) : sketch depth v = sketchScalar v := by
  obtain ⟨n, rfl⟩ | ⟨n, rfl⟩ := h <;> simp only [sketch]

mutual

/-- Values of the same shape have the same sketch, at every depth. -/
theorem sketch_eq : (v : Json) → ∀ {v' : Json} (depth : Nat), Alike v v' → sketch depth v = sketch depth v'
  | .null, _, depth, h => by
    cases h.kinds with
    | null => rfl
    | number hv hv' _ => rw [sketch_number hv, sketch_number hv', sketchScalar_number hv hv']
  | .bool b, _, depth, h => by
    cases h.kinds with
    | bool b b' =>
      simp only [sketch]
      rfl
    | number hv hv' _ => rw [sketch_number hv, sketch_number hv', sketchScalar_number hv hv']
  | .num n, _, depth, h => by
    cases h.kinds with
    | number hv hv' _ => rw [sketch_number hv, sketch_number hv', sketchScalar_number hv hv']
  | .other n, _, depth, h => by
    cases h.kinds with
    | number hv hv' _ => rw [sketch_number hv, sketch_number hv', sketchScalar_number hv hv']
  | .str t, _, depth, h => by
    cases h.kinds with
    | str hlength =>
      simp only [sketch]
      rw [sketchScalar_str, sketchScalar_str, hlength]
    | number hv hv' _ => rw [sketch_number hv, sketch_number hv', sketchScalar_number hv hv']
  | .arr items, _, depth, h => by
    cases h.kinds with
    | arr hitems => rw [sketch, sketch, sketchItems_eq items _ _ hitems, (forall₂_of_alikeItems hitems).length_eq]
    | number hv hv' _ => rw [sketch_number hv, sketch_number hv', sketchScalar_number hv hv']
  | .obj members, _, depth, h => by
    cases h.kinds with
    | obj hmembers => rw [sketch, sketch, sketchMembers_eq members _ _ hmembers, (forall₂_of_alikeMembers hmembers).length_eq]
    | number hv hv' _ => rw [sketch_number hv, sketch_number hv', sketchScalar_number hv hv']

theorem sketchItems_eq : (items : List Json) → ∀ {items' : List Json} (depth shown : Nat), AlikeItems items items' →
    sketchItems depth shown items = sketchItems depth shown items'
  | [], items', depth, shown, h => by
    cases forall₂_of_alikeItems h with
    | nil => rfl
  | v :: vs, items', depth, shown, h => by
    cases items' with
    | nil => simp [AlikeItems] at h
    | cons v' vs' =>
      obtain ⟨hv, hvs⟩ := (by simpa [AlikeItems] using h : Alike v v' ∧ AlikeItems vs vs')
      rw [sketchItems, sketchItems, sketch_eq v depth hv, sketchItems_eq vs depth _ hvs]

theorem sketchMembers_eq : (members : JsonMap) → ∀ {members' : JsonMap} (depth shown : Nat), AlikeMembers members members' →
    sketchMembers depth shown members = sketchMembers depth shown members'
  | [], members', depth, shown, h => by
    cases forall₂_of_alikeMembers h with
    | nil => rfl
  | (key, v) :: ms, members', depth, shown, h => by
    cases members' with
    | nil => simp [AlikeMembers] at h
    | cons m' ms' =>
      obtain ⟨key', v'⟩ := m'
      obtain ⟨rfl, hv, hms⟩ := (by simpa [AlikeMembers] using h : key = key' ∧ Alike v v' ∧ AlikeMembers ms ms')
      rw [sketchMembers, sketchMembers, sketch_eq v depth hv, sketchMembers_eq ms depth _ hms]

end

/-! ## Two answers -/

/-- Two objects of the same shape and with the same envelope, whose base64 fields are complained of in the same words. -/
structure SameObjects (complaint : Text → Text) (c : Subcommand) (m m' : JsonMap) : Prop where
  alike : AlikeMembers m m'
  envelope : ∀ key ∈ envelopeKeys, m.lookup key = m'.lookup key
  base64 : c = .exportUser → SameBase64 complaint m m'

/-- The answers that are claimed to be refused in the same words. -/
inductive Indistinct (complaint : Text → Text) (c : Subcommand) : Text → Text → Prop where
  | objects {s s' : Text} {m m' : JsonMap} (hs : Dart.jsonDecode s = some (.obj m)) (hs' : Dart.jsonDecode s' = some (.obj m'))
      (h : SameObjects complaint c m m') : Indistinct complaint c s s'
  | unparsed {s s' : Text} (hs : Dart.jsonDecode s = none) (hs' : Dart.jsonDecode s' = none)
      (hbefore : beforeBrace s = beforeBrace s') (hlength : Dart.length s = Dart.length s') : Indistinct complaint c s s'

/-- The answers that are refused in the same words: a toggle says on both sides that it changed something, or on neither, and
what does not parse does not parse without the white space around it either, and has the same length without it. -/
inductive Undistinguished (complaint : Text → Text) (c : Subcommand) : Text → Text → Prop where
  | objects {s s' : Text} {m m' : JsonMap} (hs : Dart.jsonDecode s = some (.obj m)) (hs' : Dart.jsonDecode s' = some (.obj m'))
      (h : SameObjects complaint c m m')
      (hchanged : c = .setProtocol → m.lookup "changed".toList = m'.lookup "changed".toList) : Undistinguished complaint c s s'
  | unparsed {s s' : Text} (hs : Dart.jsonDecode s = none) (hs' : Dart.jsonDecode s' = none)
      (htrim : Dart.jsonDecode (Dart.trim s) = none) (htrim' : Dart.jsonDecode (Dart.trim s') = none)
      (hbefore : beforeBrace s = beforeBrace s') (hlength : Dart.length (Dart.trim s) = Dart.length (Dart.trim s')) :
      Undistinguished complaint c s s'

section Answers

variable {complaint : Text → Text} {c : Subcommand} {s s' : Text} {m m' : JsonMap}

/-- A key that is no part of the envelope is found behind the filter as in front of it. -/
theorem lookup_filter {key : Text} (hkey : key ∉ envelopeKeys) (m : JsonMap) :
    (m.filter fun member => member.1 ∉ envelopeKeys).lookup key = m.lookup key := by
  induction m with
  | nil => rfl
  | cons e m ih =>
    rw [List.filter_cons]
    by_cases he : e.1 ∉ envelopeKeys
    · rw [if_pos (decide_eq_true he), List.lookup_cons, List.lookup_cons, ih]
    · have hne : (key == e.1) = false := beq_false_of_ne fun h => he (h ▸ hkey)
      rw [if_neg (by simpa using he), List.lookup_cons, hne, ih]

/-- What is left of two objects when the envelope is taken off. -/
theorem sameBodies (h : SameObjects complaint c m m')
    (hchanged : c = .setProtocol → m.lookup "changed".toList = m'.lookup "changed".toList) :
    SameBodies complaint c (m.filter fun member => member.1 ∉ envelopeKeys) (m'.filter fun member => member.1 ∉ envelopeKeys) where
  fields := filter_alike (forall₂_of_alikeMembers h.alike) fun key => key ∉ envelopeKeys
  changed hc := by
    rw [lookup_filter (by decide), lookup_filter (by decide)]
    exact hchanged hc
  base64 hc protocol item key hkey := by
    have hsame := h.base64 hc protocol item key hkey
    unfold base64Field at hsame ⊢
    rwa [lookup_filter (by decide), lookup_filter (by decide)]

/-- Two answers that are objects of one shape have the same outcome. -/
theorem sameOutcome_objects (hs : Dart.jsonDecode s = some (.obj m)) (hs' : Dart.jsonDecode s' = some (.obj m'))
    (h : SameObjects complaint c m m')
    (hchanged : c = .setProtocol → m.lookup "changed".toList = m'.lookup "changed".toList) :
    SameOutcome complaint (c.call 0 s) (c.call 0 s') := by
  unfold Subcommand.call
  rw [hs, hs']
  rcases unwrap_alike h.envelope c.allowNotOk with ⟨e, he, he'⟩ | ⟨hbody, hbody'⟩
  · rw [he, he']
    exact .error rfl
  · rw [hbody, hbody']
    exact sameOutcome_parse (agree_fromJson (sameBodies h hchanged))

/-- Two answers that are no JSON have the same outcome. -/
theorem sameOutcome_unparsed (hs : Dart.jsonDecode s = none) (hs' : Dart.jsonDecode s' = none) :
    SameOutcome complaint (c.call 0 s) (c.call 0 s') := by
  unfold Subcommand.call
  rw [hs, hs']
  exact .error rfl

/-- Of an answer that is an object a message shows the shape. -/
theorem describe_object (hs : Dart.jsonDecode s = some (.obj m)) (reason : Text) :
    VpnctlProtocolError.describe reason s =
      Dart.codeUnits (reason ++ ("\npayload shape: " : Text)) ++ shapeOf (.obj m) := by
  have htrim := Dart.jsonDecode_trim hs
  have hne : Dart.trim s ≠ [] := by
    intro hempty
    rw [hempty] at htrim
    nomatch htrim
  unfold VpnctlProtocolError.describe
  dsimp only
  rw [if_neg hne, htrim]

/-- Objects of the same shape are described in the same words. -/
theorem shapeOf_eq (h : AlikeMembers m m') : shapeOf (.obj m) = shapeOf (.obj m') := by
  have hsketch : sketch 0 (.obj m) = sketch 0 (.obj m') := sketch_eq (.obj m) 0 (by simpa [Alike] using h)
  unfold shapeOf
  rw [hsketch]

/-- A refusal tells of two answers that are objects of one shape the same. -/
theorem describe_objects (hs : Dart.jsonDecode s = some (.obj m)) (hs' : Dart.jsonDecode s' = some (.obj m'))
    (h : AlikeMembers m m') (reason : Text) :
    VpnctlProtocolError.describe reason s = VpnctlProtocolError.describe reason s' := by
  rw [describe_object hs, describe_object hs', shapeOf_eq h]

/-- The white space around an answer does not change what stands before its payload. -/
theorem beforePayload_trim (s : Text) : beforePayload (Dart.trim s) = beforePayload s := by
  have hspace : ∀ c, Dart.isSpace c = true → decide (c ≠ '\x7b') = true := by
    intro c hc
    refine decide_eq_true ?_
    rintro rfl
    exact absurd hc (by decide)
  unfold beforePayload beforeBrace
  rw [Dart.trim_takeWhile hspace]

/-- A refusal tells of an answer that is no JSON how long it is, and what stands before its first brace. -/
theorem describe_unparsed (htrim : Dart.jsonDecode (Dart.trim s) = none) (htrim' : Dart.jsonDecode (Dart.trim s') = none)
    (hbefore : beforeBrace s = beforeBrace s') (hlength : Dart.length (Dart.trim s) = Dart.length (Dart.trim s'))
    (reason : Text) : VpnctlProtocolError.describe reason s = VpnctlProtocolError.describe reason s' := by
  have hempty : Dart.trim s = [] ↔ Dart.trim s' = [] := by rw [← Dart.length_eq_zero, hlength, Dart.length_eq_zero]
  have hpayload : beforePayload (Dart.trim s) = beforePayload (Dart.trim s') := by
    rw [beforePayload_trim, beforePayload_trim, beforePayload, beforePayload, hbefore]
  unfold VpnctlProtocolError.describe
  dsimp only
  by_cases h : Dart.trim s = []
  · rw [if_pos h, if_pos (hempty.mp h)]
  · rw [if_neg h, if_neg (mt hempty.mpr h), htrim, htrim', hpayload, hlength]

/-- Two calls with the same outcome, told of answers that look the same, are told in the same words. -/
theorem message_eq (houtcome : SameOutcome complaint (c.call 0 s) (c.call 0 s'))
    (hdescribe : ∀ reason, VpnctlProtocolError.describe reason s = VpnctlProtocolError.describe reason s') :
    c.message complaint s = c.message complaint s' := by
  unfold Subcommand.message
  generalize c.call 0 s = x at houtcome
  generalize c.call 0 s' = y at houtcome
  cases houtcome with
  | ok _ => rfl
  | error he =>
    dsimp only
    rw [he]
    exact congrArg (fun f => Option.map f _) (funext hdescribe)

end Answers

/-! ## Answers in full -/

/-- Some complaint. -/
def invalid (_ : Text) : Text := "Invalid character"

/-- The answer of `user export` with one link and no label. -/
def exported (uri : Text) : JsonMap :=
  [("user".toList, .str "alice"), ("host".toList, .str "vpn.example"),
    ("protocols".toList, .obj [("vless-reality".toList, .arr [.obj [("uri".toList, .str uri)]])]), ("failed".toList, .arr [])]

/-- The answer of `protocol on`, with a field the app does not know. -/
def toggled (changed : Bool) : JsonMap := [("changed".toList, .bool changed), ("x".toList, .num 1)]

/-- An answer with its envelope. -/
def enveloped (data : JsonMap) : JsonMap := ("schema".toList, .num Payload.schema) :: ("ok".toList, .bool true) :: data

/-- The keys of the envelope are found in the envelope, whatever the data. -/
theorem lookup_enveloped {data data' : JsonMap} (h : ∀ key ∈ envelopeKeys, key ∉ data.map (·.1))
    (h' : ∀ key ∈ envelopeKeys, key ∉ data'.map (·.1)) :
    ∀ key ∈ envelopeKeys, (enveloped data).lookup key = (enveloped data').lookup key := by
  have hnone : ∀ {data : JsonMap} {key : Text}, key ∉ data.map (·.1) → data.lookup key = none := by
    intro data key hkey
    refine List.lookup_eq_none_iff.mpr fun member hmember => ?_
    have hne : key ≠ member.1 := fun heq => hkey (heq ▸ List.mem_map_of_mem hmember)
    simpa using hne
  intro key hkey
  simp only [enveloped, List.lookup_cons, hnone (h key hkey), hnone (h' key hkey)]

/-- What `emit` prints is decoded to the envelope it was printed from. -/
theorem jsonDecode_emit {data : JsonMap} (h : Dart.asMaps (.obj (enveloped data)) = .obj (enveloped data)) :
    Dart.jsonDecode (Payload.emit true data) = some (.obj (enveloped data)) := by
  unfold Dart.jsonDecode Payload.emit
  rw [Json.loads_dumps _ (by decide)]
  exact congrArg some h

/-- An answer without an item has no base64 field. -/
theorem base64Field_exported (uri : Text) (protocol item : Nat) {key : Text} (hkey : key ∈ base64Keys) :
    base64Field (enveloped (exported uri)) protocol item key = none := by
  have hprotocols : (enveloped (exported uri)).lookup "protocols".toList =
      some (.obj [("vless-reality".toList, .arr [.obj [("uri".toList, .str uri)]])]) := by
    have hschema : ("protocols".toList == "schema".toList) = false := by decide
    have hok : ("protocols".toList == "ok".toList) = false := by decide
    have huser : ("protocols".toList == "user".toList) = false := by decide
    have hhost : ("protocols".toList == "host".toList) = false := by decide
    simp only [enveloped, exported, List.lookup_cons, hschema, hok, huser, hhost, BEq.rfl]
  have hkeys : ∀ key ∈ base64Keys, (key == "uri".toList) = false := by decide
  unfold base64Field
  rw [hprotocols]
  cases protocol with
  | succ n => simp only [List.getElem?_cons_succ, List.getElem?_nil]
  | zero =>
    cases item with
    | succ n => simp only [List.getElem?_cons_zero, List.getElem?_cons_succ, List.getElem?_nil]
    | zero =>
      simp only [List.getElem?_cons_zero, List.lookup_cons, List.lookup_nil, hkeys key hkey, Option.bind_none]

/-- Two links of the same length. -/
theorem sameObjects_exported : SameObjects invalid .exportUser (enveloped (exported "vless://one".toList))
    (enveloped (exported "vless://two".toList)) where
  alike := by
    have hlinks : Dart.length "vless://one".toList = Dart.length "vless://two".toList := by decide
    simp only [enveloped, exported, AlikeMembers, AlikeItems, Alike, AlikeNumber, IsNumber, hlinks, true_and, and_true]
    exact .inl ⟨_, rfl⟩
  envelope := lookup_enveloped (by decide) (by decide)
  base64 _ protocol item key hkey := by rw [base64Field_exported _ _ _ hkey, base64Field_exported _ _ _ hkey]

/-- A toggle that changed something beside one that did not. -/
theorem sameObjects_toggled : SameObjects invalid .setProtocol (enveloped (toggled true)) (enveloped (toggled false)) where
  alike := by
    simp only [enveloped, toggled, AlikeMembers, Alike, AlikeNumber, IsNumber, true_and, and_true]
    exact ⟨.inl ⟨_, rfl⟩, .inl ⟨_, rfl⟩⟩
  envelope := lookup_enveloped (by decide) (by decide)
  base64 h := nomatch h

/-- Two answers that are claimed to be refused in the same words are refused in others. -/
def ToldApart (c : Subcommand) (s s' : Text) : Prop :=
  Indistinct invalid c s s' ∧ (c.message invalid s).isSome = true ∧ (c.message invalid s').isSome = true ∧
    c.message invalid s ≠ c.message invalid s'

/-- Two answers that do not parse, of the same length with the white space behind one of them. -/
theorem unparsed_padded : Indistinct invalid .status "\x7bxx".toList "\x7bx ".toList :=
  .unparsed rfl rfl (by decide) (by decide)

/-- Two answers that would parse without the space in front, which is none of JSON's. -/
theorem unparsed_spaced : Indistinct invalid .status "\u00a0\x7b\"a\":\"b\"\x7d".toList "\u00a0\x7b\"a\":123\x7d".toList :=
  .unparsed rfl rfl (by decide) (by decide)

/-! ## The messages -/

end Shapes

end VpnStack

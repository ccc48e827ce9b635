import Mathlib

/-!
# Dictionaries

A dictionary as the list of its entries, in the order their keys came in. A key that is set again keeps its place and loses
its value.
-/

namespace Dict

variable {κ β : Type} [DecidableEq κ]

/-- `d[key] = value`. -/
def set (d : List (κ × β)) (key : κ) (value : β) : List (κ × β) :=
  if key ∈ d.map (·.1) then d.map fun e => if e.1 = key then (key, value) else e else d ++ [(key, value)]

/-- The dictionary that is left when the entries are set one after the other. -/
def ofPairs (pairs : List (κ × β)) : List (κ × β) := pairs.foldl (fun d e => set d e.1 e.2) []

/-- What is set replaces what was there under the key. -/
theorem mem_set {d : List (κ × β)} {key : κ} {value : β} {e : κ × β} :
    e ∈ set d key value ↔ e = (key, value) ∨ e ∈ d ∧ e.1 ≠ key := by
  unfold set
  split
  · rename_i hkey
    rw [List.mem_map]
    constructor
    · rintro ⟨x, hx, rfl⟩
      by_cases hxk : x.1 = key
      · exact .inl (if_pos hxk)
      · rw [if_neg hxk]
        exact .inr ⟨hx, hxk⟩
    · rintro (rfl | ⟨he, hne⟩)
      · obtain ⟨x, hx, hxk⟩ := List.mem_map.mp hkey
        exact ⟨x, hx, if_pos hxk⟩
      · exact ⟨e, he, if_neg hne⟩
  · rename_i hkey
    rw [List.mem_append, List.mem_singleton, or_comm]
    refine or_congr_right (iff_self_and.mpr fun he => ?_)
    rintro rfl
    exact hkey (List.mem_map_of_mem he)

/-- The pairs are set one after the other. -/
theorem ofPairs_concat (pairs : List (κ × β)) (e : κ × β) : ofPairs (pairs ++ [e]) = set (ofPairs pairs) e.1 e.2 := by
  rw [ofPairs, List.foldl_append]
  rfl

/-- Every key of the pairs is one of the dictionary. -/
theorem mem_keys_ofPairs {pairs : List (κ × β)} {key : κ} :
    key ∈ (ofPairs pairs).map (·.1) ↔ key ∈ pairs.map (·.1) := by
  induction pairs using List.reverseRecOn with
  | nil => rfl
  | append_singleton pairs x ih =>
    rw [ofPairs_concat, List.map_append, List.mem_append, ← ih, List.map_singleton, List.mem_singleton, List.mem_map]
    constructor
    · rintro ⟨e, he, rfl⟩
      rcases mem_set.mp he with rfl | ⟨he, -⟩
      · exact .inr rfl
      · exact .inl (List.mem_map_of_mem he)
    · intro h
      by_cases hkey : key = x.1
      · exact ⟨(x.1, x.2), mem_set.mpr (.inl rfl), hkey.symm⟩
      · obtain ⟨e, he, rfl⟩ := List.mem_map.mp (h.resolve_right hkey)
        exact ⟨e, mem_set.mpr (.inr ⟨he, hkey⟩), rfl⟩

section Lookup

variable [BEq κ] [LawfulBEq κ]

/-- A value that replaces another is found in its place. -/
theorem lookup_map_set {d : List (κ × β)} {key k : κ} {value : β} :
    (d.map fun e => if e.1 = key then (key, value) else e).lookup k =
      if k = key then (d.lookup k).map fun _ => value else d.lookup k := by
  induction d with
  | nil => simp
  | cons e d ih =>
    obtain ⟨x, y⟩ := e
    by_cases hx : x = key
    · subst hx
      by_cases hk : k = x
      · subst hk
        simp
      · have hne : (k == x) = false := beq_false_of_ne hk
        rw [List.map_cons, if_pos rfl, List.lookup_cons, List.lookup_cons, hne, ih, if_neg hk]
    · rw [List.map_cons, if_neg hx, List.lookup_cons, List.lookup_cons, ih]
      cases hkx : k == x with
      | false => rfl
      | true =>
        obtain rfl := LawfulBEq.eq_of_beq hkx
        exact (if_neg hx).symm

/-- What is set is found, and the rest as before. -/
theorem lookup_set {d : List (κ × β)} {key k : κ} {value : β} :
    (set d key value).lookup k = if k = key then some value else d.lookup k := by
  unfold set
  split
  · rename_i hkey
    rw [lookup_map_set]
    by_cases hk : k = key
    · obtain ⟨e, he, hek⟩ := List.mem_map.mp hkey
      have hsome : d.lookup k ≠ none := fun hnone => by
        have hne := List.lookup_eq_none_iff.mp hnone e he
        simp [hek, hk] at hne
      obtain ⟨v, hv⟩ := Option.ne_none_iff_exists'.mp hsome
      rw [if_pos hk, if_pos hk, hv]
      rfl
    · rw [if_neg hk, if_neg hk]
  · rename_i hkey
    rw [List.lookup_append]
    by_cases hk : k = key
    · subst hk
      have hnone : d.lookup k = none := List.lookup_eq_none_iff.mpr fun e he => by
        have hne : k ≠ e.1 := fun heq => hkey (heq ▸ List.mem_map_of_mem he)
        simpa using hne
      rw [hnone, if_pos rfl]
      simp
    · have hne : (k == key) = false := beq_false_of_ne hk
      rw [if_neg hk]
      simp [List.lookup_cons, hne]

end Lookup

end Dict

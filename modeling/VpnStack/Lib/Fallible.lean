import Mathlib

/-!
# Functions that may raise

Inversion of what a function in `Except` returned: a sequence returned because each of its parts did, and a loop of checks
returned because every item passed. And two runs side by side, which agree as long as their parts do.
-/

namespace Except

variable {ε α β : Type}

/-- `error = check(x); if error: raise E(error)`. -/
def refuse (error : Option α) (e : α → ε) : Except ε Unit :=
  match error with
  | some a => .error (e a)
  | none => .ok ()

/-- It passes exactly when there was nothing to raise. -/
theorem refuse_eq_ok {o : Option α} {e : α → ε} {u : Unit} : refuse o e = .ok u ↔ o = none := by
  cases o with
  | none => exact ⟨fun _ => rfl, fun _ => rfl⟩
  | some a => exact ⟨fun h => (nomatch h), fun h => (nomatch h)⟩

/-- `if c: raise e`. -/
def raiseIf (c : Prop) [Decidable c] (e : ε) : Except ε Unit := if c then .error e else .ok ()

/-- It passes exactly when the condition does not hold. -/
theorem raiseIf_eq_ok {c : Prop} [Decidable c] {e : ε} {u : Unit} : raiseIf c e = .ok u ↔ ¬ c := by
  by_cases h : c
  · rw [raiseIf, if_pos h]
    exact ⟨fun h' => (nomatch h'), fun h' => absurd h h'⟩
  · rw [raiseIf, if_neg h]
    exact ⟨fun _ => h, fun _ => rfl⟩

/-- A sequence returns because its first part did and what follows did on the value. -/
theorem bind_eq_ok {x : Except ε α} {f : α → Except ε β} {b : β} :
    (x >>= f) = .ok b ↔ ∃ a, x = .ok a ∧ f a = .ok b := by
  cases x with
  | error e => exact ⟨fun h => (nomatch h), fun ⟨_, h, _⟩ => (nomatch h)⟩
  | ok a => exact ⟨fun h => ⟨a, rfl, h⟩, fun ⟨_, h, hf⟩ => by cases h; exact hf⟩

/-- What is made of a value is returned because the value was. -/
theorem map_eq_ok {x : Except ε α} {f : α → β} {b : β} : x.map f = .ok b ↔ ∃ a, x = .ok a ∧ f a = b := by
  cases x with
  | error e => exact ⟨fun h => (nomatch h), fun ⟨_, h, _⟩ => (nomatch h)⟩
  | ok a => exact ⟨fun h => ⟨a, rfl, Except.ok.inj h⟩, fun ⟨_, h, hf⟩ => by cases h; exact congrArg Except.ok hf⟩

theorem ok_bind (a : α) (f : α → Except ε β) : ((.ok a : Except ε α) >>= f) = f a := rfl

theorem pure_eq_ok {a b : α} : (pure a : Except ε α) = .ok b ↔ a = b := Except.ok.injEq a b ▸ Iff.rfl

/-- A loop of checks returns exactly when every item passes. -/
theorem forM_eq_ok {f : α → Except ε Unit} {l : List α} {u : Unit} : l.forM f = .ok u ↔ ∀ x ∈ l, f x = .ok () := by
  induction l with
  | nil => exact ⟨fun _ x hx => (List.not_mem_nil hx).elim, fun _ => rfl⟩
  | cons a l ih =>
    rw [List.forall_mem_cons, ← ih]
    exact bind_eq_ok.trans ⟨fun ⟨⟨⟩, ha, hl⟩ => ⟨ha, hl⟩, fun ⟨ha, hl⟩ => ⟨(), ha, hl⟩⟩

/-- A loop that collects returns exactly when every item does, with what they returned. -/
theorem mapM_eq_ok {f : α → Except ε β} {l : List α} {bs : List β} :
    l.mapM f = .ok bs ↔ List.Forall₂ (fun a b => f a = .ok b) l bs := by
  induction l generalizing bs with
  | nil =>
    rw [List.mapM_nil, pure_eq_ok, List.forall₂_nil_left_iff]
    exact eq_comm
  | cons a l ih =>
    rw [List.mapM_cons, bind_eq_ok, List.forall₂_cons_left_iff]
    constructor
    · rintro ⟨b, hb, h⟩
      obtain ⟨bs', hbs', h⟩ := bind_eq_ok.mp h
      exact ⟨b, bs', hb, ih.mp hbs', (pure_eq_ok.mp h).symm⟩
    · rintro ⟨b, bs', hb, hbs', rfl⟩
      exact ⟨b, hb, bind_eq_ok.mpr ⟨bs', ih.mpr hbs', rfl⟩⟩

/-- A chain of complaints finds nothing when this one does not apply and the rest find nothing. -/
theorem ite_some_eq_none {c : Prop} [Decidable c] {a : α} {o : Option α} :
    (if c then some a else o) = none ↔ ¬ c ∧ o = none := by
  by_cases h : c <;> simp [h]

/-! ## Two runs -/

section Agree

variable {α' β' : Type} {E : ε → ε → Prop} {R : α → α' → Prop} {S : β → β' → Prop}

/-- Two runs agree: both return, and related values, or both raise, and related errors. -/
inductive Agree (E : ε → ε → Prop) (R : α → α' → Prop) : Except ε α → Except ε α' → Prop where
  | ok {a : α} {a' : α'} : R a a' → Agree E R (.ok a) (.ok a')
  | error {e e' : ε} : E e e' → Agree E R (.error e) (.error e')

/-- Runs that agree go on agreeing where what follows does on related values. -/
theorem Agree.bind {x : Except ε α} {x' : Except ε α'} (h : Agree E R x x') {f : α → Except ε β} {f' : α' → Except ε β'}
    (hf : ∀ a a', R a a' → Agree E S (f a) (f' a')) : Agree E S (x >>= f) (x' >>= f') := by
  cases h with
  | ok hr => exact hf _ _ hr
  | error he => exact .error he

/-- Results that agree do so when both are changed alike. -/
theorem Agree.map {x : Except ε α} {x' : Except ε α'} (h : Agree E R x x') {f : α → β} {f' : α' → β'}
    (hf : ∀ a a', R a a' → S (f a) (f' a')) : Agree E S (f <$> x) (f' <$> x') := by
  cases h with
  | ok hr => exact .ok (hf _ _ hr)
  | error he => exact .error he

/-- What is asked of two results may be weakened. -/
theorem Agree.mono {R' : α → α' → Prop} {x : Except ε α} {x' : Except ε α'} (h : Agree E R x x')
    (hR : ∀ a a', R a a' → R' a a') : Agree E R' x x' := by
  cases h with
  | ok hr => exact .ok (hR _ _ hr)
  | error he => exact .error he

/-- Two loops agree where they do on each pair of items. -/
theorem Agree.mapM {xs : List α} {ys : List α'} {f : α → Except ε β} {f' : α' → Except ε β'}
    (h : List.Forall₂ (fun a a' => Agree E S (f a) (f' a')) xs ys) : Agree E (List.Forall₂ S) (xs.mapM f) (ys.mapM f') := by
  induction h with
  | nil => exact .ok .nil
  | cons hhead _ ih =>
    rw [List.mapM_cons, List.mapM_cons]
    exact hhead.bind fun b b' hb => ih.bind fun bs bs' hbs => .ok (.cons hb hbs)

end Agree

end Except

import Mathlib

/-!
# Transition systems

A system of parties is a step function: it takes a state and an action, and is `none` where the action is not enabled. A run
is a list of actions, so that every order of the parties' steps is one of them. `Along` says that each action of a run was
taken in a state that allows it; it is how a statement is told which runs it is about. The rules are the induction on a run,
for an invariant and for a rank that bounds how many steps of one party are left.
-/

namespace Transition

variable {S A : Type}

/-- The state a run ends in, when every action of it was enabled. -/
def run (step : S → A → Option S) : S → List A → Option S
  | s, [] => some s
  | s, a :: as => (step s a).bind fun s' => run step s' as

/-- `C` holds in front of every action of a run. -/
def Along (step : S → A → Option S) (C : S → A → Prop) : S → List A → Prop
  | _, [] => True
  | s, a :: as => C s a ∧ ∀ s' ∈ step s a, Along step C s' as

instance Along.decidable (step : S → A → Option S) (C : S → A → Prop) [∀ s a, Decidable (C s a)] :
    (s : S) → (as : List A) → Decidable (Along step C s as)
  | _, [] => isTrue trivial
  | s, a :: as =>
    match h : step s a with
    | none => decidable_of_iff (C s a) ⟨fun hC => ⟨hC, by simp [h]⟩, And.left⟩
    | some s' =>
      have := Along.decidable step C s' as
      decidable_of_iff (C s a ∧ Along step C s' as) (by simp [Along, h])

variable {step : S → A → Option S} {C : S → A → Prop} {I : S → Prop} {s s' : S} {as bs : List A}

@[simp] theorem run_nil : run step s [] = some s := rfl

theorem run_cons {a : A} : run step s (a :: as) = some s' ↔ ∃ m, step s a = some m ∧ run step m as = some s' := by
  rw [run, Option.bind_eq_some_iff]

/-- A run can be cut in two. -/
theorem run_append : run step s (as ++ bs) = some s' ↔ ∃ m, run step s as = some m ∧ run step m bs = some s' := by
  induction as generalizing s with
  | nil => simp
  | cons a as ih =>
    simp only [List.cons_append, run_cons, ih]
    constructor
    · rintro ⟨m, hm, n, hn, h⟩
      exact ⟨n, ⟨m, hm, hn⟩, h⟩
    · rintro ⟨n, ⟨m, hm, hn⟩, h⟩
      exact ⟨m, hm, n, hn, h⟩

/-- The rule of one action. -/
theorem Along.cons {a : A} (hC : C s a) (h : step s a = some s') (has : Along step C s' as) : Along step C s (a :: as) :=
  ⟨hC, fun _ hm => Option.some_inj.mp (h.symm.trans hm) ▸ has⟩

/-- What a run satisfies in front of its actions, a shorter one does. -/
theorem Along.of_append (h : Along step C s (as ++ bs)) : Along step C s as := by
  induction as generalizing s with
  | nil => trivial
  | cons a as ih => exact ⟨h.1, fun s' hs' => ih (h.2 s' hs')⟩

/-- What a run satisfies in front of its actions, the rest of it does from where its first part ended. -/
theorem Along.behind (h : Along step C s (as ++ bs)) (hrun : run step s as = some s') : Along step C s' bs := by
  induction as generalizing s with
  | nil =>
    rw [run_nil, Option.some_inj] at hrun
    exact hrun ▸ h
  | cons a as ih =>
    obtain ⟨m, hm, hrun⟩ := run_cons.mp hrun
    exact ih (h.2 m hm) hrun

/-- A condition on the actions alone. -/
theorem Along.of_forall {P : A → Prop} (h : ∀ a ∈ as, P a) : Along step (fun _ a => P a) s as := by
  induction as generalizing s with
  | nil => trivial
  | cons a as ih => exact ⟨h a (List.mem_cons_self ..), fun _ _ => ih fun b hb => h b (List.mem_cons_of_mem _ hb)⟩

/-- Two conditions hold along a run at once. -/
theorem Along.and {C' : S → A → Prop} (h : Along step C s as) (h' : Along step C' s as) :
    Along step (fun s a => C s a ∧ C' s a) s as := by
  induction as generalizing s with
  | nil => trivial
  | cons a as ih => exact ⟨⟨h.1, h'.1⟩, fun m hm => ih (h.2 m hm) (h'.2 m hm)⟩

/-- The rule of invariants: what every allowed step keeps, every run keeps. -/
theorem run_invariant (hstep : ∀ s a s', I s → C s a → step s a = some s' → I s') (hs : I s) (hC : Along step C s as)
    (hrun : run step s as = some s') : I s' := by
  induction as generalizing s with
  | nil =>
    rw [run_nil, Option.some_inj] at hrun
    exact hrun ▸ hs
  | cons a as ih =>
    obtain ⟨m, hm, hrun⟩ := run_cons.mp hrun
    exact ih (hstep s a m hs hC.1 hm) (hC.2 m hm) hrun

/-- An invariant of every step, whatever the run. -/
theorem run_always (hstep : ∀ s a s', I s → step s a = some s' → I s') (hs : I s) (hrun : run step s as = some s') :
    I s' := by
  induction as generalizing s with
  | nil =>
    rw [run_nil, Option.some_inj] at hrun
    exact hrun ▸ hs
  | cons a as ih =>
    obtain ⟨m, hm, hrun⟩ := run_cons.mp hrun
    exact ih (hstep s a m hs hm) hrun

/-- The rule of progress: when every step of a party takes it one rank down or to its goal, it is at its goal or has taken no
more steps than it has ranks. -/
theorem run_rank {goal : S → Prop} {rank : S → Nat} {own : A → Bool}
    (hstep : ∀ s a s', I s → C s a → step s a = some s' → I s')
    (hgoal : ∀ s a s', I s → C s a → goal s → step s a = some s' → goal s')
    (hrank : ∀ s a s', I s → C s a → step s a = some s' → goal s' ∨ rank s' + (if own a then 1 else 0) ≤ rank s)
    (hs : I s) (hC : Along step C s as) (hrun : run step s as = some s') :
    goal s' ∨ rank s' + as.countP own ≤ rank s := by
  induction as generalizing s with
  | nil =>
    rw [run_nil, Option.some_inj] at hrun
    subst hrun
    exact .inr (by simp)
  | cons a as ih =>
    obtain ⟨m, hm, hrun⟩ := run_cons.mp hrun
    have hI : I m := hstep s a m hs hC.1 hm
    rcases hrank s a m hs hC.1 hm with hg | hr
    · -- The goal is reached, and no step of the rest of the run leaves it.
      have hkept : I s' ∧ goal s' := run_invariant (I := fun s => I s ∧ goal s)
        (fun s a s' h hc he => ⟨hstep s a s' h.1 hc he, hgoal s a s' h.1 hc h.2 he⟩) ⟨hI, hg⟩ (hC.2 m hm) hrun
      exact .inl hkept.2
    · rcases ih hI (hC.2 m hm) hrun with hg | hle
      · exact .inl hg
      · refine .inr ?_
        rw [List.countP_cons]
        omega

end Transition

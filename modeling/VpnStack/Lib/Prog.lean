import Mathlib

/-!
# Programs that can be stopped

A program is a tree of calls to an interface: it is `done` with a result, or it makes a `call` and goes on with the
answer. What a call does to the world is a `Machine`: it is given a choice (what the outside decided at that call) and
returns the answer and the next world. A run is a program, a list of choices and a world; when the choices run out before
the program is done, the process was killed there, so every prefix of a list of choices is a run that was cut short.

`wp` is the weakest precondition of a program for a postcondition `Q` and a crash condition `D`: `D` must hold in front of
every call, because the process may be killed there. A `Discipline` says which choices and which stops a statement is
about. `wp_run` is soundness: what `wp` promises, every run within the discipline keeps.
-/

namespace Interaction

/-- A program over the operations `O`, whose operation `o` is answered by an `R o`. -/
inductive Prog (O : Type) (R : O → Type) (α : Type) : Type where
  | done (a : α)
  | call (o : O) (k : R o → Prog O R α)

namespace Prog

variable {O : Type} {R : O → Type} {α β γ : Type}

/-- Go on with `f` where the program is done. -/
def bind : Prog O R α → (α → Prog O R β) → Prog O R β
  | .done a, f => f a
  | .call o k, f => .call o (fun r => (k r).bind f)

@[simp] theorem call_bind (o : O) (k : R o → Prog O R α) (f : α → Prog O R β) :
    (Prog.call o k).bind f = .call o (fun r => (k r).bind f) := rfl

/-- Every call of the program is one of `S`. -/
def Uses (S : O → Prop) : Prog O R α → Prop
  | .done _ => True
  | .call o k => S o ∧ ∀ r, (k r).Uses S

/-- Two programs in a row make the calls of both. -/
theorem Uses.bind {S : O → Prop} {p : Prog O R α} {f : α → Prog O R β} (hp : p.Uses S) (hf : ∀ a, (f a).Uses S) :
    (p.bind f).Uses S := by
  induction p with
  | done a => exact hf a
  | call o k ih => exact ⟨hp.1, fun r => ih r (hp.2 r)⟩

/-- The calls of a program are calls. -/
theorem uses_true (p : Prog O R α) : p.Uses fun _ => True := by
  induction p with
  | done a => trivial
  | call o k ih => exact ⟨trivial, ih⟩

/-- What is said of the calls may be weakened. -/
theorem Uses.mono {S T : O → Prop} {p : Prog O R α} (hp : p.Uses S) (h : ∀ o, S o → T o) : p.Uses T := by
  induction p with
  | done a => trivial
  | call o k ih => exact ⟨h o hp.1, fun r => ih r (hp.2 r)⟩

end Prog

/-- What the operations do: the answer and the next world, for each choice of the outside. -/
abbrev Machine (O : Type) (R : O → Type) (σ C : Type) := (o : O) → C → σ → R o × σ

/-- Which choices, and which stops in front of a call, a statement is about. -/
structure Discipline (O σ C : Type) where
  choice : O → C → σ → Prop
  stop : O → σ → Prop

/-- Every choice and every stop. -/
def Discipline.any (O σ C : Type) : Discipline O σ C := ⟨fun _ _ _ => True, fun _ _ => True⟩

section Run

variable {O : Type} {R : O → Type} {σ C α β : Type} (m : Machine O R σ C) (d : Discipline O σ C)

/-- Run a program: the result, or `none` when it was killed, and the world it left. -/
def run : Prog O R α → List C → σ → Option α × σ
  | .done a, _, w => (some a, w)
  | .call _ _, [], w => (none, w)
  | .call o k, c :: cs, w => run (k (m o c w).1) cs (m o c w).2

/-- The calls a run makes, each with the choice it met, in order. -/
def trace : Prog O R α → List C → σ → List (O × C)
  | .done _, _, _ => []
  | .call _ _, [], _ => []
  | .call o k, c :: cs, w => (o, c) :: trace (k (m o c w).1) cs (m o c w).2

/-- The run stays within the discipline: every choice it meets is one of them, and so is the place it was killed at. -/
def Within : Prog O R α → List C → σ → Prop
  | .done _, _, _ => True
  | .call o _, [], w => d.stop o w
  | .call o k, c :: cs, w => d.choice o c w ∧ Within (k (m o c w).1) cs (m o c w).2

instance Within.decidable [∀ o c w, Decidable (d.choice o c w)] [∀ o w, Decidable (d.stop o w)] :
    (p : Prog O R α) → (cs : List C) → (w : σ) → Decidable (Within m d p cs w)
  | .done _, _, _ => isTrue trivial
  | .call o _, [], w => inferInstanceAs (Decidable (d.stop o w))
  | .call o k, c :: cs, w =>
    let _ := Within.decidable (k (m o c w).1) cs (m o c w).2
    inferInstanceAs (Decidable (d.choice o c w ∧ Within m d (k (m o c w).1) cs (m o c w).2))

/-- The weakest precondition for the postcondition `Q` and the crash condition `D`. -/
def wp : Prog O R α → (α → σ → Prop) → (σ → Prop) → σ → Prop
  | .done a, Q, _, w => Q a w
  | .call o k, Q, D, w =>
    (d.stop o w → D w) ∧ ∀ c, d.choice o c w → wp (k (m o c w).1) Q D (m o c w).2

/-- What a run ended with satisfies `Q`, or `D` when it was killed. -/
def Ends (Q : α → σ → Prop) (D : σ → Prop) : Option α × σ → Prop
  | (some a, w) => Q a w
  | (none, w) => D w

variable {m d}

/-- Choices that are allowed anywhere. -/
theorem within_of_choices {p : Prog O R α} {cs : List C} {w : σ} (hc : ∀ c ∈ cs, ∀ o w, d.choice o c w)
    (hs : ∀ o w, d.stop o w) : Within m d p cs w := by
  induction p generalizing cs w with
  | done a => trivial
  | call o k ih =>
    cases cs with
    | nil => exact hs o w
    | cons c cs => exact ⟨hc c (List.mem_cons_self ..) o w, ih _ fun c' hc' => hc c' (List.mem_cons_of_mem _ hc')⟩

/-- Every run is within every choice and every stop. -/
theorem within_any (p : Prog O R α) (cs : List C) (w : σ) : Within m (.any O σ C) p cs w :=
  within_of_choices (fun _ _ _ _ => trivial) fun _ _ => trivial

/-- A run within a narrower discipline is within the wider one. -/
theorem Within.mono {d' : Discipline O σ C} (hc : ∀ o c w, d'.choice o c w → d.choice o c w)
    (hs : ∀ o w, d'.stop o w → d.stop o w) {p : Prog O R α} {cs : List C} {w : σ} (h : Within m d' p cs w) :
    Within m d p cs w := by
  induction p generalizing cs w with
  | done a => trivial
  | call o k ih =>
    cases cs with
    | nil => exact hs o w h
    | cons c cs => exact ⟨hc o c w h.1, ih _ h.2⟩

/-- Soundness: a run within the discipline ends as `wp` says. -/
theorem wp_run {p : Prog O R α} {Q : α → σ → Prop} {D : σ → Prop} {w : σ} (h : wp m d p Q D w) :
    ∀ cs, Within m d p cs w → Ends Q D (run m p cs w) := by
  induction p generalizing w with
  | done a => intro cs _; exact h
  | call o k ih =>
    intro cs hw
    cases cs with
    | nil => exact h.1 hw
    | cons c cs => exact ih _ (h.2 c hw.1) cs hw.2

/-- The converse: what holds of every run within the discipline is what `wp` says. -/
theorem wp_of_runs {p : Prog O R α} {Q : α → σ → Prop} {D : σ → Prop} {w : σ}
    (h : ∀ cs, Within m d p cs w → Ends Q D (run m p cs w)) : wp m d p Q D w := by
  induction p generalizing w with
  | done a => exact h [] trivial
  | call o k ih => exact ⟨fun hs => h [] hs, fun c hc => ih _ (fun cs hw => h (c :: cs) ⟨hc, hw⟩)⟩

/-- What is said of the end may be weakened. -/
theorem wp_mono {p : Prog O R α} {Q Q' : α → σ → Prop} {D D' : σ → Prop} {w : σ} (h : wp m d p Q D w)
    (hQ : ∀ a w, Q a w → Q' a w) (hD : ∀ w, D w → D' w) : wp m d p Q' D' w := by
  induction p generalizing w with
  | done a => exact hQ a w h
  | call o k ih => exact ⟨fun hs => hD w (h.1 hs), fun c hc => ih _ (h.2 c hc)⟩

/-- Two things may be said of it at once. -/
theorem wp_and {p : Prog O R α} {Q Q' : α → σ → Prop} {D D' : σ → Prop} {w : σ} (h : wp m d p Q D w)
    (h' : wp m d p Q' D' w) : wp m d p (fun a w => Q a w ∧ Q' a w) (fun w => D w ∧ D' w) w := by
  induction p generalizing w with
  | done a => exact ⟨h, h'⟩
  | call o k ih => exact ⟨fun hs => ⟨h.1 hs, h'.1 hs⟩, fun c hc => ih _ (h.2 c hc) (h'.2 c hc)⟩

/-- A narrower discipline asks for less. -/
theorem wp_narrow {d' : Discipline O σ C} {p : Prog O R α} {Q : α → σ → Prop} {D : σ → Prop} {w : σ}
    (h : wp m d p Q D w) (hc : ∀ o c w, d'.choice o c w → d.choice o c w) (hs : ∀ o w, d'.stop o w → d.stop o w) :
    wp m d' p Q D w := by
  induction p generalizing w with
  | done a => exact h
  | call o k ih => exact ⟨fun h' => h.1 (hs o w h'), fun c h' => ih _ (h.2 c (hc o c w h'))⟩

/-- Two programs in a row end as the second does from where the first ended. -/
theorem wp_bind {p : Prog O R α} {f : α → Prog O R β} {Q : β → σ → Prop} {D : σ → Prop} {w : σ} :
    wp m d (p.bind f) Q D w ↔ wp m d p (fun a w => wp m d (f a) Q D w) D w := by
  induction p generalizing w with
  | done a => rfl
  | call o k ih => simp only [Prog.call_bind, wp, ih]

/-- The frame rule: a program whose calls all keep `I` keeps it to its end, and wherever it is killed. -/
theorem wp_of_uses {S : O → Prop} {I : σ → Prop} {p : Prog O R α} (hp : p.Uses S)
    (hI : ∀ o, S o → ∀ c w, d.choice o c w → I w → I (m o c w).2) {w : σ} (hw : I w) : wp m d p (fun _ => I) I w := by
  induction p generalizing w with
  | done a => exact hw
  | call o k ih => exact ⟨fun _ => hw, fun c hc => ih _ (hp.2 _) (hI o hp.1 c w hc hw)⟩

/-- A machine that also keeps the calls it has answered, each with the choice it met. -/
def logged (m : Machine O R σ C) : Machine O R (σ × List (O × C)) C :=
  fun o c w => ((m o c w.1).1, ((m o c w.1).2, w.2 ++ [(o, c)]))

/-- A logged run is the run, with its trace behind what was logged before. -/
theorem run_logged (p : Prog O R α) (cs : List C) (w : σ) (l : List (O × C)) :
    run (logged m) p cs (w, l) = ((run m p cs w).1, (run m p cs w).2, l ++ trace m p cs w) := by
  induction p generalizing cs w l with
  | done a => simp [run, trace]
  | call o k ih =>
    cases cs with
    | nil => simp [run, trace]
    | cons c cs =>
      rw [run, trace, run]
      exact (ih _ cs _ _).trans (by rw [List.append_assoc]; rfl)

/-- What `wp` promises of a machine it promises of the logged one. -/
theorem wp_logged {p : Prog O R α} {Q : α → σ → Prop} {D : σ → Prop} {w : σ} (h : wp m (.any O σ C) p Q D w)
    (l : List (O × C)) : wp (logged m) (.any O _ C) p (fun a q => Q a q.1) (fun q => D q.1) (w, l) := by
  induction p generalizing w l with
  | done a => exact h
  | call o k ih => exact ⟨fun _ => h.1 trivial, fun c _ => ih _ (h.2 c trivial) _⟩

/-- The calls a run makes, each with the choice and the world it met, in order. -/
def record (m : Machine O R σ C) : Prog O R α → List C → σ → List (O × C × σ)
  | .done _, _, _ => []
  | .call _ _, [], _ => []
  | .call o k, c :: cs, w => (o, c, w) :: record m (k (m o c w).1) cs (m o c w).2

/-- A machine that also keeps the calls it has answered, each with the choice and the world it met. -/
def recorded (m : Machine O R σ C) : Machine O R (σ × List (O × C × σ)) C :=
  fun o c w => ((m o c w.1).1, ((m o c w.1).2, w.2 ++ [(o, c, w.1)]))

/-- A recorded run is the run, with its record behind what was there before. -/
theorem run_recorded (p : Prog O R α) (cs : List C) (w : σ) (l : List (O × C × σ)) :
    run (recorded m) p cs (w, l) = ((run m p cs w).1, (run m p cs w).2, l ++ record m p cs w) := by
  induction p generalizing cs w l with
  | done a => simp [run, record]
  | call o k ih =>
    cases cs with
    | nil => simp [run, record]
    | cons c cs =>
      rw [run, record, run]
      exact (ih _ cs _ _).trans (by rw [List.append_assoc]; rfl)

/-- What holds for each index holds for all of them. -/
theorem wp_forall {ι : Type} [Nonempty ι] {p : Prog O R α} {Q : ι → α → σ → Prop} {D : ι → σ → Prop} {w : σ}
    (h : ∀ i, wp m d p (Q i) (D i) w) : wp m d p (fun a w => ∀ i, Q i a w) (fun w => ∀ i, D i w) w := by
  induction p generalizing w with
  | done a => exact h
  | call o k ih => exact ⟨fun hs i => (h i).1 hs, fun c hc => ih _ fun i => (h i).2 c hc⟩

/-- Killed after `n` calls, a run has made the first `n` of its calls. -/
theorem trace_take (p : Prog O R α) (cs : List C) (n : Nat) (w : σ) :
    trace m p (cs.take n) w = (trace m p cs w).take n := by
  induction p generalizing cs n w with
  | done a => simp [trace]
  | call o k ih =>
    cases cs with
    | nil => simp [trace]
    | cons c cs =>
      cases n with
      | zero => simp [trace]
      | succ n => rw [List.take_succ_cons, trace, ih, trace, List.take_succ_cons]

end Run

end Interaction

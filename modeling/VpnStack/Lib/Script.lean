import VpnStack.Lib.Prog

/-!
# Scripts: programs with exceptions

A `Script` is a program whose calls may answer with an error, which is raised where the call was made; `tryFinally` and
`tryExcept` are the two ways a script goes on after one. `ends` is the specification of a script: what holds of its value
when it returns, what holds when it raises, and what holds wherever it may be killed. Each construct has one rule, and a
loop has its invariant rule.

Any call may also be interrupted from outside, before it has had its effect or after: `withFaults` makes such a machine of
one whose calls always return.
-/

namespace Interaction

/-- A program whose calls may raise, and which may raise itself. -/
def Script (ε : Type) (O : Type) (A : O → Type) (α : Type) : Type :=
  Prog O (fun o => Except ε (A o)) (Except ε α)

/-- The machines of scripts. -/
abbrev ScriptMachine (ε O : Type) (A : O → Type) (σ C : Type) := Machine O (fun o => Except ε (A o)) σ C

namespace Script

variable {ε O : Type} {A : O → Type} {α β : Type}

/-- One call; its error, if it answers with one, is raised here. -/
def op (o : O) : Script ε O A (A o) := Prog.call o Prog.done

def raise (e : ε) : Script ε O A α := Prog.done (.error e)

/-- A pure function that may raise. -/
def lift (r : Except ε α) : Script ε O A α := Prog.done r

protected def bind (p : Script ε O A α) (f : α → Script ε O A β) : Script ε O A β :=
  Prog.bind p fun
    | .ok a => f a
    | .error e => Prog.done (.error e)

instance : Monad (Script ε O A) where
  pure a := Prog.done (.ok a)
  bind := Script.bind

/-- `try: p finally: f`, with what both returned. An error of `f` replaces what `p` ended with. -/
def tryFinally (p : Script ε O A α) (f : Script ε O A β) : Script ε O A (α × β) :=
  Prog.bind p fun r => Prog.bind f fun
    | .ok b => Prog.done (r.map (·, b))
    | .error e => Prog.done (.error e)

/-- `try: p except ...: f`, for the errors `f` has a handler for. -/
def tryExcept (p : Script ε O A α) (f : ε → Option (Script ε O A α)) : Script ε O A α :=
  Prog.bind p fun
    | .ok a => Prog.done (.ok a)
    | .error e => (f e).getD (Prog.done (.error e))

/-- What the script ended with, as a value. -/
def attempt (p : Script ε O A α) : Script ε O A (Except ε α) := Prog.bind p fun r => Prog.done (.ok r)

/-- Every call of the script is one of `S`. -/
def Uses (S : O → Prop) (p : Script ε O A α) : Prop := Prog.Uses (R := fun o => Except ε (A o)) S p

section Uses

variable {S : O → Prop}

theorem uses_true (p : Script ε O A α) : Uses (fun _ => True) p := Prog.uses_true p

theorem uses_pure (a : α) : Uses S (pure a : Script ε O A α) := trivial

theorem uses_raise (e : ε) : Uses S (raise e : Script ε O A α) := trivial

theorem uses_lift (r : Except ε α) : Uses S (lift r : Script ε O A α) := trivial

theorem uses_op {o : O} (h : S o) : Uses S (op o : Script ε O A (A o)) := ⟨h, fun _ => trivial⟩

/-- Two scripts in a row make the calls of both. -/
theorem uses_bind {p : Script ε O A α} {f : α → Script ε O A β} (hp : Uses S p) (hf : ∀ a, Uses S (f a)) :
    Uses S (p >>= f) := by
  refine Prog.Uses.bind hp fun r => ?_
  cases r with
  | ok a => exact hf a
  | error e => trivial

/-- A script with its `finally` makes the calls of both. -/
theorem uses_tryFinally {p : Script ε O A α} {f : Script ε O A β} (hp : Uses S p) (hf : Uses S f) :
    Uses S (tryFinally p f) := by
  refine Prog.Uses.bind hp fun r => Prog.Uses.bind hf fun r' => ?_
  cases r' with
  | ok b => trivial
  | error e => trivial

/-- A script with its handlers makes the calls of each. -/
theorem uses_tryExcept {p : Script ε O A α} {f : ε → Option (Script ε O A α)} (hp : Uses S p)
    (hf : ∀ e q, f e = some q → Uses S q) : Uses S (tryExcept p f) := by
  refine Prog.Uses.bind hp fun r => ?_
  cases r with
  | ok a => trivial
  | error e =>
    change Prog.Uses S ((f e).getD (Prog.done (.error e)))
    cases h : f e with
    | none => trivial
    | some q => exact hf e q h

/-- A loop makes the calls of its turns. -/
theorem uses_forM {f : β → Script ε O A Unit} {l : List β} (hf : ∀ x ∈ l, Uses S (f x)) : Uses S (l.forM f) := by
  induction l with
  | nil => trivial
  | cons x l ih =>
    exact uses_bind (hf x (List.mem_cons_self ..)) fun _ => ih fun y hy => hf y (List.mem_cons_of_mem _ hy)

/-- A loop with an accumulator makes the calls of its turns. -/
theorem uses_foldlM {f : β → α → Script ε O A β} {l : List α} {b : β} (hf : ∀ b, ∀ x ∈ l, Uses S (f b x)) :
    Uses S (l.foldlM f b) := by
  induction l generalizing b with
  | nil => trivial
  | cons x l ih =>
    exact uses_bind (hf b x (List.mem_cons_self ..)) fun b => ih fun b y hy => hf b y (List.mem_cons_of_mem _ hy)

/-- A choice of two scripts makes the calls of one. -/
theorem uses_ite {c : Prop} [Decidable c] {p q : Script ε O A α} (hp : c → Uses S p) (hq : ¬ c → Uses S q) :
    Uses S (if c then p else q) := by
  by_cases h : c
  · rw [if_pos h]; exact hp h
  · rw [if_neg h]; exact hq h

end Uses

end Script

/-! ## Specifications -/

section Spec

variable {ε O : Type} {A : O → Type} {σ C α β γ : Type}

/-- A postcondition for a program that may raise: `Q` for its value, `E` for its error. -/
def Post (Q : α → σ → Prop) (E : ε → σ → Prop) : Except ε α → σ → Prop
  | .ok a, w => Q a w
  | .error e, w => E e w

/-- The specification of a script: `Q` for its value, `E` when it raised, `D` where it may be killed. -/
def ends (m : ScriptMachine ε O A σ C) (d : Discipline O σ C) (p : Script ε O A α) (Q : α → σ → Prop) (E : ε → σ → Prop)
    (D : σ → Prop) (w : σ) : Prop :=
  wp (R := fun o => Except ε (A o)) m d p (Post Q E) D w

variable {m : ScriptMachine ε O A σ C} {d : Discipline O σ C} {Q : α → σ → Prop} {E : ε → σ → Prop} {D : σ → Prop} {w : σ}

/-- Run a script: its value or its error, or `none` when it was killed, and the world it left. -/
def Script.run (m : ScriptMachine ε O A σ C) (p : Script ε O A α) (cs : List C) (w : σ) : Option (Except ε α) × σ :=
  Interaction.run (R := fun o => Except ε (A o)) m p cs w

/-- The run stays within the discipline. -/
def Script.Within (m : ScriptMachine ε O A σ C) (d : Discipline O σ C) (p : Script ε O A α) (cs : List C) (w : σ) : Prop :=
  Interaction.Within (R := fun o => Except ε (A o)) m d p cs w

instance [∀ o c w, Decidable (d.choice o c w)] [∀ o w, Decidable (d.stop o w)] (p : Script ε O A α) (cs : List C) (w : σ) :
    Decidable (p.Within m d cs w) :=
  Interaction.Within.decidable (R := fun o => Except ε (A o)) m d p cs w

/-- The calls of a run, each with the choice it met. -/
def Script.trace (m : ScriptMachine ε O A σ C) (p : Script ε O A α) (cs : List C) (w : σ) : List (O × C) :=
  Interaction.trace (R := fun o => Except ε (A o)) m p cs w

/-- The calls of a run, each with the choice and the world it met. -/
def Script.record (m : ScriptMachine ε O A σ C) (p : Script ε O A α) (cs : List C) (w : σ) : List (O × C × σ) :=
  Interaction.record (R := fun o => Except ε (A o)) m p cs w

/-- Killed after `n` calls, a script has made the first `n` of its calls. -/
theorem Script.trace_take (p : Script ε O A α) (cs : List C) (n : Nat) (w : σ) :
    p.trace m (cs.take n) w = (p.trace m cs w).take n :=
  Interaction.trace_take (R := fun o => Except ε (A o)) p cs n w

/-- Soundness: a run within the discipline ends as its specification says. -/
theorem ends_run {p : Script ε O A α} (h : ends m d p Q E D w) {cs : List C} (hcs : p.Within m d cs w) :
    Ends (Post Q E) D (p.run m cs w) := wp_run h cs hcs

/-- The run lemma of a script that may meet any choice and be killed anywhere. -/
theorem ends_run_any {p : Script ε O A α} (h : ends m (.any O σ C) p Q E D w) (cs : List C) :
    Ends (Post Q E) D (p.run m cs w) := wp_run h cs (within_any (R := fun o => Except ε (A o)) p cs w)

@[simp] theorem ends_pure (a : α) : ends m d (pure a : Script ε O A α) Q E D w ↔ Q a w := Iff.rfl

@[simp] theorem ends_raise (e : ε) : ends m d (Script.raise e : Script ε O A α) Q E D w ↔ E e w := Iff.rfl

theorem ends_lift (r : Except ε α) : ends m d (Script.lift r : Script ε O A α) Q E D w ↔ Post Q E r w := Iff.rfl

/-- A call may be stopped in front of, or it is made with any choice the discipline allows. -/
theorem ends_op (o : O) {Q : A o → σ → Prop} : ends m d (Script.op o : Script ε O A (A o)) Q E D w ↔
    (d.stop o w → D w) ∧ ∀ c, d.choice o c w → Post Q E (m o c w).1 (m o c w).2 := Iff.rfl

/-- What is said of the end may be weakened. -/
theorem ends_mono {p : Script ε O A α} {Q' : α → σ → Prop} {E' : ε → σ → Prop} {D' : σ → Prop} (h : ends m d p Q E D w)
    (hQ : ∀ a w, Q a w → Q' a w) (hE : ∀ e w, E e w → E' e w) (hD : ∀ w, D w → D' w) : ends m d p Q' E' D' w := by
  refine wp_mono h (fun r w => ?_) hD
  cases r with
  | ok a => exact hQ a w
  | error e => exact hE e w

/-- Two things may be said of the end at once. -/
theorem ends_and {p : Script ε O A α} {Q' : α → σ → Prop} {E' : ε → σ → Prop} {D' : σ → Prop} (h : ends m d p Q E D w)
    (h' : ends m d p Q' E' D' w) :
    ends m d p (fun a w => Q a w ∧ Q' a w) (fun e w => E e w ∧ E' e w) (fun w => D w ∧ D' w) w := by
  refine wp_mono (wp_and h h') (fun r w => ?_) (fun _ h => h)
  cases r with
  | ok a => exact fun h => h
  | error e => exact fun h => h

/-- Two scripts in a row end as the second does from where the first returned. -/
theorem ends_bind {p : Script ε O A β} {f : β → Script ε O A α} :
    ends m d (p >>= f) Q E D w ↔ ends m d p (fun a w => ends m d (f a) Q E D w) E D w := by
  refine wp_bind.trans ⟨fun h => wp_mono h (fun r w => ?_) (fun _ h => h), fun h => wp_mono h (fun r w => ?_) (fun _ h => h)⟩
  all_goals
    cases r with
    | ok a => exact fun h => h
    | error e => exact fun h => h

/-- The rule of sequence: prove the first part for a condition of its own, and go on from there. -/
theorem ends_seq {p : Script ε O A β} {f : β → Script ε O A α} {M : β → σ → Prop} (hp : ends m d p M E D w)
    (hf : ∀ a w, M a w → ends m d (f a) Q E D w) : ends m d (p >>= f) Q E D w :=
  ends_bind.mpr (ends_mono hp hf (fun _ _ h => h) (fun _ h => h))

theorem ends_map {p : Script ε O A β} {f : β → α} :
    ends m d (f <$> p) Q E D w ↔ ends m d p (fun a => Q (f a)) E D w := ends_bind

/-- A narrower discipline asks for less. -/
theorem ends_narrow {d' : Discipline O σ C} {p : Script ε O A α} (h : ends m d p Q E D w)
    (hc : ∀ o c w, d'.choice o c w → d.choice o c w) (hs : ∀ o w, d'.stop o w → d.stop o w) : ends m d' p Q E D w :=
  wp_narrow h hc hs

/-- The rule of `try ... finally`: the clean-up runs from wherever the body returned or raised. -/
theorem ends_tryFinally {p : Script ε O A α} {f : Script ε O A β} {Q : α × β → σ → Prop} :
    ends m d (Script.tryFinally p f) Q E D w ↔
      ends m d p (fun a w => ends m d f (fun b w => Q (a, b) w) E D w)
        (fun e w => ends m d f (fun _ w => E e w) E D w) D w := by
  refine wp_bind.trans ⟨fun h => wp_mono h (fun r w h => ?_) (fun _ h => h),
    fun h => wp_mono h (fun r w h => wp_bind.mpr ?_) (fun _ h => h)⟩
  · cases r with
    | ok a =>
      refine wp_mono (wp_bind.mp h) (fun r' w h => ?_) (fun _ h => h)
      cases r' with
      | ok b => exact h
      | error e => exact h
    | error e =>
      refine wp_mono (wp_bind.mp h) (fun r' w h => ?_) (fun _ h => h)
      cases r' with
      | ok b => exact h
      | error e => exact h
  · cases r with
    | ok a =>
      refine wp_mono h (fun r' w h => ?_) (fun _ h => h)
      cases r' with
      | ok b => exact h
      | error e => exact h
    | error e =>
      refine wp_mono h (fun r' w h => ?_) (fun _ h => h)
      cases r' with
      | ok b => exact h
      | error e => exact h

/-- The rule of `try ... except`: a handled error goes on in its handler. -/
theorem ends_tryExcept {p : Script ε O A α} {f : ε → Option (Script ε O A α)} :
    ends m d (Script.tryExcept p f) Q E D w ↔
      ends m d p Q (fun e w => match f e with
        | some q => ends m d q Q E D w
        | none => E e w) D w := by
  refine wp_bind.trans ⟨fun h => wp_mono h (fun r w h => ?_) (fun _ h => h), fun h => wp_mono h (fun r w h => ?_) (fun _ h => h)⟩
  all_goals
    cases r with
    | ok a => exact h
    | error e =>
      simp only [Post] at h ⊢
      cases hf : f e with
      | some q =>
        rw [hf] at h
        exact h
      | none =>
        rw [hf] at h
        exact h

/-- The rule of `attempt`: it goes on with whatever the script ended with. -/
theorem ends_attempt {p : Script ε O A α} {Q : Except ε α → σ → Prop} :
    ends m d (Script.attempt p) Q E D w ↔ ends m d p (fun a => Q (.ok a)) (fun e => Q (.error e)) D w := by
  refine wp_bind.trans ⟨fun h => wp_mono h (fun r w => ?_) (fun _ h => h), fun h => wp_mono h (fun r w => ?_) (fun _ h => h)⟩
  all_goals
    cases r with
    | ok a => exact fun h => h
    | error e => exact fun h => h

/-- The rule of a loop over a list: `I` holds of what is left of the list in front of each turn. -/
theorem ends_forM {f : β → Script ε O A Unit} {I : List β → σ → Prop} {l : List β}
    (hf : ∀ x rest, (∃ done, l = done ++ x :: rest) → ∀ w, I (x :: rest) w → ends m d (f x) (fun _ => I rest) E D w)
    (hl : I l w) : ends m d (l.forM f) (fun _ => I []) E D w := by
  induction l generalizing w with
  | nil => exact hl
  | cons x l ih =>
    refine ends_seq (hf x l ⟨[], rfl⟩ w hl) fun _ w hw => ih (fun y rest ⟨done, h⟩ => hf y rest ⟨x :: done, ?_⟩) hw
    rw [h, List.cons_append]

/-- The rule of a loop that carries a value: `I` holds of what is left of the list and of the value in front of each
turn. -/
theorem ends_foldlM {f : γ → β → Script ε O A γ} {I : List β → γ → σ → Prop} {l : List β} {a : γ}
    (hf : ∀ x rest a w, I (x :: rest) a w → ends m d (f a x) (I rest) E D w) (hl : I l a w) :
    ends m d (l.foldlM f a) (I []) E D w := by
  induction l generalizing a w with
  | nil => exact hl
  | cons x l ih => exact ends_seq (hf x l a w hl) fun b w hw => ih hw

/-- The frame rule: a script whose calls all keep `I` keeps it, however it ends. -/
theorem ends_of_uses {S : O → Prop} {I : σ → Prop} {p : Script ε O A α} (hp : p.Uses S)
    (hI : ∀ o, S o → ∀ c w, d.choice o c w → I w → I (m o c w).2) (hw : I w) :
    ends m d p (fun _ => I) (fun _ => I) I w := by
  refine wp_mono (wp_of_uses hp hI hw) (fun r w h => ?_) (fun _ h => h)
  cases r with
  | ok a => exact h
  | error e => exact h

/-- A choice of two scripts ends as the one chosen does. -/
theorem ends_ite {c : Prop} [Decidable c] {p q : Script ε O A α} (hp : c → ends m d p Q E D w)
    (hq : ¬ c → ends m d q Q E D w) : ends m d (if c then p else q) Q E D w := by
  by_cases h : c
  · rw [if_pos h]; exact hp h
  · rw [if_neg h]; exact hq h

/-- What is specified of a machine holds of the logged one. -/
theorem ends_logged_of {p : Script ε O A α} (h : ends m (.any O σ C) p Q E D w) (l : List (O × C)) :
    ends (logged m) (.any O _ C) p (fun a q => Q a q.1) (fun e q => E e q.1) (fun q => D q.1) (w, l) := by
  refine wp_mono (wp_logged h l) (fun r q h => ?_) fun _ h => h
  cases r with
  | ok a => exact h
  | error e => exact h

/-- What is specified for each index holds for all of them. -/
theorem ends_forall {ι : Type} [Nonempty ι] {p : Script ε O A α} {Q : ι → α → σ → Prop} {E : ι → ε → σ → Prop}
    {D : ι → σ → Prop} (h : ∀ i, ends m d p (Q i) (E i) (D i) w) :
    ends m d p (fun a w => ∀ i, Q i a w) (fun e w => ∀ i, E i e w) (fun w => ∀ i, D i w) w := by
  refine wp_mono (wp_forall h) (fun r w h => ?_) fun _ h => h
  cases r with
  | ok a => exact h
  | error e => exact h

/-- The script keeps `I`, whatever it ends with and wherever it may be killed. -/
def Preserves (m : ScriptMachine ε O A σ C) (d : Discipline O σ C) (I : σ → Prop) (p : Script ε O A α) : Prop :=
  ∀ w, I w → ends m d p (fun _ => I) (fun _ => I) I w

namespace Preserves

variable {I : σ → Prop}

theorem pure (a : α) : Preserves m d I (Pure.pure a : Script ε O A α) := fun _ hw => hw

theorem raise (e : ε) : Preserves m d I (Script.raise e : Script ε O A α) := fun _ hw => hw

theorem bind {p : Script ε O A α} {f : α → Script ε O A β} (hp : Preserves m d I p) (hf : ∀ a, Preserves m d I (f a)) :
    Preserves m d I (p >>= f) := fun w hw => ends_seq (hp w hw) fun a w hw => hf a w hw

theorem ite {c : Prop} [Decidable c] {p q : Script ε O A α} (hp : Preserves m d I p) (hq : Preserves m d I q) :
    Preserves m d I (if c then p else q) := fun w hw => ends_ite (fun _ => hp w hw) (fun _ => hq w hw)

/-- A script with its `finally` preserves what both do. -/
theorem tryFinally {p : Script ε O A α} {f : Script ε O A β} (hp : Preserves m d I p) (hf : Preserves m d I f) :
    Preserves m d I (Script.tryFinally p f) := fun w hw =>
  ends_tryFinally.mpr (ends_mono (hp w hw) (fun _ w h => hf w h) (fun _ w h => hf w h) fun _ h => h)

/-- The frame rule. -/
theorem of_uses {S : O → Prop} {p : Script ε O A α} (hp : p.Uses S)
    (hI : ∀ o, S o → ∀ c w, d.choice o c w → I w → I (m o c w).2) : Preserves m d I p :=
  fun _ hw => ends_of_uses hp hI hw

end Preserves

end Spec

/-! ## Interruptions -/

/-- An interruption of a call: none, or an error raised there, before its effect or after. -/
inductive Fault (ε : Type) where
  | none
  | before (e : ε)
  | after (e : ε)
  deriving DecidableEq, Repr

/-- The call was stopped in front of its effect. -/
def Fault.isBefore {ε : Type} : Fault ε → Bool
  | .before _ => true
  | _ => false

/-- The call was stopped behind its effect. -/
def Fault.isAfter {ε : Type} : Fault ε → Bool
  | .after _ => true
  | _ => false

section Faults

variable {ε O : Type} {A : O → Type} {σ C : Type}

/-- The machine whose calls do what `exec` says, unless they are interrupted. -/
def withFaults (exec : (o : O) → C → σ → A o × σ) (fault : C → Fault ε) : ScriptMachine ε O A σ C :=
  fun o c w => match fault c with
    | .none => (.ok (exec o c w).1, (exec o c w).2)
    | .before e => (.error e, w)
    | .after e => (.error e, (exec o c w).2)

variable {exec : (o : O) → C → σ → A o × σ} {fault : C → Fault ε} {d : Discipline O σ C} {E : ε → σ → Prop} {D : σ → Prop}
  {w : σ}

/-- The rule of one call that may be interrupted. -/
theorem ends_exec {o : O} {Q : A o → σ → Prop} (hstop : d.stop o w → D w)
    (hok : ∀ c, d.choice o c w → fault c = .none → Q (exec o c w).1 (exec o c w).2)
    (hbefore : ∀ c e, d.choice o c w → fault c = .before e → E e w)
    (hafter : ∀ c e, d.choice o c w → fault c = .after e → E e (exec o c w).2) :
    ends (withFaults exec fault) d (Script.op o : Script ε O A (A o)) Q E D w := by
  refine (ends_op o).mpr ⟨hstop, fun c hc => ?_⟩
  cases hf : fault c with
  | none =>
    rw [withFaults, hf]
    exact hok c hc hf
  | before e =>
    rw [withFaults, hf]
    exact hbefore c e hc hf
  | after e =>
    rw [withFaults, hf]
    exact hafter c e hc hf

/-- What every call keeps when it has its effect, it keeps when it is interrupted. -/
theorem withFaults_keeps {I : σ → Prop} {o : O} (h : ∀ c w, I w → I (exec o c w).2) (c : C) (w : σ) (hw : I w) :
    I (withFaults exec fault o c w).2 := by
  cases hf : fault c with
  | none => rw [withFaults, hf]; exact h c w hw
  | before e => rw [withFaults, hf]; exact hw
  | after e => rw [withFaults, hf]; exact h c w hw

/-- What a call that may be interrupted leaves: what it does, or nothing when it was stopped in front of it. -/
theorem withFaults_snd (o : O) (c : C) (w : σ) :
    (withFaults exec fault o c w).2 = if (fault c).isBefore then w else (exec o c w).2 := by
  unfold withFaults
  cases fault c <;> rfl

/-- The rule of one call of a logged machine. -/
theorem ends_logged {o : O} {l : List (O × C)} {Q : A o → σ × List (O × C) → Prop} {E : ε → σ × List (O × C) → Prop}
    {D : σ × List (O × C) → Prop} (hstop : D (w, l))
    (hok : ∀ c, fault c = .none → Q (exec o c w).1 ((exec o c w).2, l ++ [(o, c)]))
    (herror : ∀ c e, fault c ≠ .none → E e ((withFaults exec fault o c w).2, l ++ [(o, c)])) :
    ends (logged (withFaults exec fault)) (.any O _ C) (Script.op o : Script ε O A (A o)) Q E D (w, l) := by
  refine (ends_op o).mpr ⟨fun _ => hstop, fun c _ => ?_⟩
  have herror := herror c
  cases hf : fault c with
  | none =>
    rw [logged, withFaults, hf]
    exact hok c hf
  | before e =>
    have h := herror e (by rw [hf]; exact nofun)
    rw [withFaults, hf] at h
    rw [logged, withFaults, hf]
    exact h
  | after e =>
    have h := herror e (by rw [hf]; exact nofun)
    rw [withFaults, hf] at h
    rw [logged, withFaults, hf]
    exact h

/-- The rule of one call of a recorded machine. -/
theorem ends_recorded {o : O} {l : List (O × C × σ)} {Q : A o → σ × List (O × C × σ) → Prop}
    {E : ε → σ × List (O × C × σ) → Prop} {D : σ × List (O × C × σ) → Prop} (hstop : D (w, l))
    (hok : ∀ c, fault c = .none → Q (exec o c w).1 ((exec o c w).2, l ++ [(o, c, w)]))
    (herror : ∀ c e, fault c ≠ .none → E e ((withFaults exec fault o c w).2, l ++ [(o, c, w)])) :
    ends (recorded (withFaults exec fault)) (.any O _ C) (Script.op o : Script ε O A (A o)) Q E D (w, l) := by
  refine (ends_op o).mpr ⟨fun _ => hstop, fun c _ => ?_⟩
  cases hf : fault c with
  | none =>
    rw [recorded, withFaults, hf]
    exact hok c hf
  | before e =>
    have h := herror c e (by rw [hf]; exact nofun)
    rw [withFaults, hf] at h
    rw [recorded, withFaults, hf]
    exact h
  | after e =>
    have h := herror c e (by rw [hf]; exact nofun)
    rw [withFaults, hf] at h
    rw [recorded, withFaults, hf]
    exact h

end Faults

end Interaction

import VpnStack.Lib.Transition

/-!
# A value that is changed before it is saved

An operation changes the value in memory at once, issues a save of what it made of it, and puts back what it found when the save
turns out to have failed. Several may be under way: the saves reach the store in the order they were issued, and their answers
come back in any. What was found may be out of date by the time it is put back. The value in memory and the stored one stay
one, and hold exactly the operations whose saves succeeded, in the runs in which a failure comes back only when the operations
that were started after it have failed before.
-/

namespace Optimistic

variable {ω α : Type}

/-- A save: the operation, what it found, and what it made of it. -/
structure Save (ω α : Type) where
  op : ω
  previous : α
  next : α
  deriving DecidableEq, Repr

/-- A save that has reached the store, whether it succeeded there, and whether its answer is back. -/
structure Sent (ω α : Type) where
  save : Save ω α
  ok : Bool
  answered : Bool
  deriving DecidableEq, Repr

/-- A failure that is back. -/
def Sent.restored (c : Sent ω α) : Bool := !c.ok && c.answered

structure State (ω α : Type) where
  memory : α
  queue : List (Save ω α)
  sent : List (Sent ω α)
  deriving DecidableEq, Repr

inductive Action (ω : Type) where
  /-- An operation is called. -/
  | start (op : ω)
  /-- The oldest save that is under way reaches the store, which takes it or does not. -/
  | write (ok : Bool)
  /-- The answer to a save that has reached the store comes back. -/
  | answer (i : Nat)
  deriving DecidableEq, Repr

/-- Nothing is under way. -/
def init (a : α) : State ω α := ⟨a, [], []⟩

section

variable (apply : ω → α → α)

def step (s : State ω α) : Action ω → Option (State ω α)
  | .start op => some { s with memory := apply op s.memory, queue := s.queue ++ [⟨op, s.memory, apply op s.memory⟩] }
  | .write ok =>
    match s.queue with
    | [] => none
    | save :: queue => some { s with queue := queue, sent := s.sent ++ [⟨save, ok, false⟩] }
  | .answer i =>
    match s.sent.drop i with
    | [] => none
    | c :: after =>
      if c.answered then none
      else
        some { s with memory := if c.ok then s.memory else c.save.previous,
                      sent := s.sent.take i ++ { c with answered := true } :: after }

/-- No save is in flight. -/
def State.Quiet (s : State ω α) : Prop := s.queue = [] ∧ ∀ c ∈ s.sent, c.answered = true

/-- The operations whose saves succeeded, in the order they were called. -/
def State.succeeded (s : State ω α) : List ω := (s.sent.filter (·.ok)).map (·.save.op)

/-- The value that was stored last. -/
def State.lastStored (s : State ω α) (a : α) : α := ((s.sent.filter (·.ok)).getLast?.map (·.save.next)).getD a

/-- A failure comes back only when whatever was called after it has failed and come back. -/
def Orderly (s : State ω α) : Action ω → Prop
  | .answer i =>
    match s.sent.drop i with
    | [] => True
    | c :: after => c.ok = true ∨ s.queue = [] ∧ ∀ d ∈ after, d.restored = true
  | _ => True

instance [DecidableEq ω] [DecidableEq α] (s : State ω α) (a : Action ω) : Decidable (Orderly s a) := by
  unfold Orderly
  split
  · split <;> infer_instance
  · infer_instance

/-! ## The invariant -/

/-- Each save found what the one before it made. -/
def Chain : α → List (Save ω α) → α → Prop
  | a, [], b => b = a
  | a, c :: rest, b => c.previous = a ∧ c.next = apply c.op a ∧ Chain c.next rest b

/-- The saves that were not taken back. -/
def State.live (s : State ω α) : List (Save ω α) := (s.sent.filter fun c => !c.restored).map (·.save) ++ s.queue

/-- What is in memory is what the saves that were not taken back have made, one of the other. -/
def Inv (a : α) (s : State ω α) : Prop := Chain apply a s.live s.memory

variable {apply} {a b : α} {s s' : State ω α}

/-- Saves that follow each other do so in two goes. -/
theorem chain_append {cs ds : List (Save ω α)} : Chain apply a (cs ++ ds) b ↔ ∃ m, Chain apply a cs m ∧ Chain apply m ds b := by
  induction cs generalizing a with
  | nil => simp [Chain]
  | cons c cs ih =>
    simp only [List.cons_append, Chain, ih]
    constructor
    · rintro ⟨hp, hn, m, hm, h⟩
      exact ⟨m, ⟨hp, hn, hm⟩, h⟩
    · rintro ⟨m, ⟨hp, hn, hm⟩, h⟩
      exact ⟨hp, hn, m, hm, h⟩

/-- The end of a chain is what the operations make of its beginning. -/
theorem Chain.foldl {cs : List (Save ω α)} (h : Chain apply a cs b) : b = (cs.map (·.op)).foldl (fun x op => apply op x) a := by
  induction cs generalizing a with
  | nil => exact h
  | cons c cs ih =>
    obtain ⟨-, hn, hrest⟩ := h
    rw [List.map_cons, List.foldl_cons, ← hn]
    exact ih hrest

/-- It is what the last save made. -/
theorem Chain.getLast {cs : List (Save ω α)} (h : Chain apply a cs b) : b = (cs.getLast?.map (·.next)).getD a := by
  cases cs using List.reverseRecOn with
  | nil => exact h
  | append_singleton cs c =>
    obtain ⟨m, -, -, -, hb⟩ := chain_append.mp h
    rw [List.getLast?_concat]
    exact hb

/-- Every orderly step keeps the invariant. -/
theorem Inv.step {act : Action ω} (h : Inv apply a s) (hC : Orderly s act) (hstep : Optimistic.step apply s act = some s') :
    Inv apply a s' := by
  cases act with
  | start op =>
    obtain rfl := Option.some.inj hstep
    have hlive : State.live { s with memory := apply op s.memory, queue := s.queue ++ [⟨op, s.memory, apply op s.memory⟩] } =
        s.live ++ [⟨op, s.memory, apply op s.memory⟩] := by
      rw [State.live, State.live, List.append_assoc]
    rw [Inv, hlive, chain_append]
    exact ⟨s.memory, h, rfl, rfl, rfl⟩
  | write ok =>
    rw [Optimistic.step] at hstep
    split at hstep
    · nomatch hstep
    · rename_i save queue hqueue
      obtain rfl := Option.some.inj hstep
      have hlive : State.live { s with queue := queue, sent := s.sent ++ [⟨save, ok, false⟩] } = s.live := by
        simp [State.live, hqueue, Sent.restored]
      rw [Inv, hlive]
      exact h
  | answer i =>
    rw [Optimistic.step] at hstep
    rw [Orderly] at hC
    split at hstep
    · nomatch hstep
    · rename_i c after hdrop
      rw [hdrop] at hC
      have hsent : s.sent = s.sent.take i ++ c :: after := by rw [← hdrop, List.take_append_drop]
      split at hstep
      · nomatch hstep
      · rename_i hanswered
        obtain rfl := Option.some.inj hstep
        obtain ⟨memory, queue, sent⟩ := s
        dsimp only at hsent hC ⊢
        generalize sent.take i = before at hsent
        subst hsent
        have hkept : c.restored = false := by simp [Sent.restored, hanswered]
        cases hok : c.ok with
        | true =>
          have hlive : State.live ⟨memory, queue, before ++ ⟨c.save, true, true⟩ :: after⟩ =
              State.live ⟨memory, queue, before ++ c :: after⟩ := by
            simp [State.live, Sent.restored, hok]
          rw [Inv, if_pos rfl, hlive]
          exact h
        | false =>
          -- Whatever was called after it is gone already, so it is the last of the chain.
          obtain ⟨rfl, hafter⟩ := hC.resolve_left (by simp [hok])
          have hnone : after.filter (fun c => !c.restored) = [] := by
            rw [List.filter_eq_nil_iff]
            intro d hd
            simp [hafter d hd]
          have hlive : State.live ⟨memory, [], before ++ c :: after⟩ =
              (before.filter fun c => !c.restored).map (·.save) ++ [c.save] := by
            simp [State.live, hkept, hnone]
          have hrest : State.live ⟨c.save.previous, [], before ++ ⟨c.save, false, true⟩ :: after⟩ =
              (before.filter fun c => !c.restored).map (·.save) := by
            have htaken : (⟨c.save, false, true⟩ : Sent ω α).restored = true := rfl
            simp [State.live, hnone, htaken]
          rw [Inv, hlive, chain_append] at h
          obtain ⟨m, hm, hprevious, -⟩ := h
          rw [Inv, if_neg (by simp), hrest, hprevious]
          exact hm

theorem Inv.init (a : α) : Inv apply a (Optimistic.init (ω := ω) a) := rfl

/-- When nothing is in flight, what is in memory was stored last, and it is what the operations whose saves succeeded make of
the first value. -/
theorem Inv.quiet (h : Inv apply a s) (hquiet : s.Quiet) :
    s.memory = s.lastStored a ∧ s.memory = s.succeeded.foldl (fun x op => apply op x) a := by
  obtain ⟨hqueue, hanswered⟩ := hquiet
  have hfilter : s.sent.filter (fun c => !c.restored) = s.sent.filter (·.ok) := by
    refine List.filter_congr fun c hc => ?_
    simp [Sent.restored, hanswered c hc]
  have hlive : s.live = (s.sent.filter (·.ok)).map (·.save) := by rw [State.live, hqueue, hfilter, List.append_nil]
  rw [Inv, hlive] at h
  refine ⟨?_, ?_⟩
  · rw [State.lastStored, h.getLast, List.getLast?_map, Option.map_map]
    rfl
  · rw [State.succeeded, h.foldl, List.map_map]
    rfl

end

end Optimistic

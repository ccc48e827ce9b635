import VpnStack.Lib.Transition

/-!
# The dead-man's timer

A detached process that records its pid, sleeps and switches the firewall off, unless it is disarmed first. There are two
programs that arm it and two that disarm it, of the app and of `provision-host.sh`. They know of the timer by one pid file,
and of each other not at all; every step of each of them may fall between any two steps of the others.
-/

namespace VpnStack

open Transition

namespace Deadman

/-! ## The timers -/

/-- Where a timer is. -/
inductive Stage where
  | absent
  /-- `setsid sh -c ...` is running and has not recorded its pid. -/
  | spawned
  /-- `echo $$ > "$1"` is done. -/
  | sleeping
  /-- `ufw --force disable` is done. -/
  | fired
  /-- `rm -f "$1"` is done and the process is over, or it was killed. -/
  | gone
  deriving DecidableEq, Repr

/-- A timer: its process, whether a signal is on its way to it, and whether it ever switched the firewall off. -/
structure Timer where
  stage : Stage := .absent
  signalled : Bool := false
  disabled : Bool := false
  deriving DecidableEq, Repr

/-- `kill -0`. -/
def Timer.alive (t : Timer) : Bool :=
  match t.stage with
  | .spawned | .sleeping | .fired => true
  | .absent | .gone => false

/-- `kill -TERM` and `kill -KILL`: a process that is there gets the signal, and goes in its own time. -/
def Timer.signal (t : Timer) : Timer := if t.alive then { t with signalled := true } else t

/-- A signal does not change how far a timer has come. -/
@[simp] theorem Timer.stage_signal (t : Timer) : t.signal.stage = t.stage := by
  unfold Timer.signal
  split <;> rfl

/-- A signal does not change whether a timer switched the firewall off. -/
@[simp] theorem Timer.disabled_signal (t : Timer) : t.signal.disabled = t.disabled := by
  unfold Timer.signal
  split <;> rfl

@[simp] theorem Timer.alive_signal (t : Timer) : t.signal.alive = t.alive := by
  rw [Timer.alive, Timer.stage_signal, Timer.alive]

/-! ## The programs -/

/-- The four programs: `_armDeadman` and `_disarmDeadman` of `commands.dart`, `deadman_arm` and `deadman_disarm` of
`provision-host.sh`. -/
inductive Kind where
  | armApp
  | armHost
  | disarmApp
  | disarmHost
  deriving DecidableEq, Repr

/-- It arms a timer. -/
def Kind.arms : Kind → Bool
  | .armApp | .armHost => true
  | .disarmApp | .disarmHost => false

/-- How often a kill looks whether the timer is gone: after TERM, and after KILL. The app's loop is followed by one more
look; `deadman_kill` returns from its loop. -/
def Kind.polls : Kind → Nat × Nat
  | .disarmApp => (26, 11)
  | _ => (25, 10)

/-- Where a program is. -/
inductive Phase (π : Type) where
  | idle
  /-- `[ -s "$pidfile" ]` held. -/
  | tested
  /-- It has read a pid. -/
  | found (pid : π)
  /-- It has signalled the timer and looks for it `left` times more. -/
  | reaping (pid : π) (killed : Bool) (left : Nat)
  /-- In front of `rm -f "$pidfile"`. -/
  | clearing (pid : π)
  /-- In front of `setsid sh -c ... &`. -/
  | ready
  /-- It waits for the pid file of the timer it started. -/
  | waiting (pid : π) (left : Nat)
  /-- In front of `[ -s "$pidfile" ] || ... exit 1`. -/
  | checking (pid : π)
  /-- Exit 0, with the pid in the file. -/
  | armed (reported : π)
  /-- Exit 0. -/
  | disarmed (pid : π)
  /-- Exit 1. -/
  | refused
  deriving DecidableEq, Repr

/-- It has not started, or is over. -/
def Phase.settled {π : Type} : Phase π → Bool
  | .idle | .armed _ | .disarmed _ | .refused => true
  | _ => false

/-- The pid file, the timers by their pid, and the programs. -/
structure Host (ι π : Type) where
  file : Option π := none
  timers : π → Timer := fun _ => {}
  programs : ι → Phase π := fun _ => .idle

/-- A step of a program or of a timer. -/
inductive Action (ι π : Type) where
  /-- The next step of a program. `pid` is what the kernel gives the process it may start. -/
  | program (i : ι) (pid : π)
  | write (pid : π)
  | disable (pid : π)
  | remove (pid : π)
  /-- The signal reaches the timer. -/
  | die (pid : π)
  deriving DecidableEq, Repr

variable {ι π : Type}

section Timers

variable [DecidableEq π] (h : Host ι π) (pid : π) (t : Timer)

def Host.setTimer : Host ι π := { h with timers := Function.update h.timers pid t }

@[simp] theorem Host.file_setTimer : (h.setTimer pid t).file = h.file := rfl

@[simp] theorem Host.programs_setTimer : (h.setTimer pid t).programs = h.programs := rfl

@[simp] theorem Host.timers_setTimer_self : (h.setTimer pid t).timers pid = t := Function.update_self ..

@[simp] theorem Host.timers_setTimer_of_ne {q : π} (hq : q ≠ pid) : (h.setTimer pid t).timers q = h.timers q :=
  Function.update_of_ne hq ..

end Timers

section Programs

variable [DecidableEq ι] (h : Host ι π) (i : ι) (p : Phase π)

def Host.setProgram : Host ι π := { h with programs := Function.update h.programs i p }

@[simp] theorem Host.file_setProgram : (h.setProgram i p).file = h.file := rfl

@[simp] theorem Host.timers_setProgram : (h.setProgram i p).timers = h.timers := rfl

@[simp] theorem Host.programs_setProgram_self : (h.setProgram i p).programs i = p := Function.update_self ..

@[simp] theorem Host.programs_setProgram_of_ne {j : ι} (hj : j ≠ i) : (h.setProgram i p).programs j = h.programs j :=
  Function.update_of_ne hj ..

end Programs

section Step

variable [DecidableEq ι] [DecidableEq π]

/-- The next step of a program of a kind. -/
def programStep (kind : Kind) (h : Host ι π) (i : ι) (pid : π) : Option (Host ι π) :=
  match h.programs i with
  | .idle =>
    if h.file.isSome then some (h.setProgram i .tested)
    else some (h.setProgram i (if kind.arms then .ready else .refused))
  | .tested =>
    -- A file that is gone by now is a redirection that fails.
    match h.file with
    | none => some (h.setProgram i .refused)
    | some old => some (h.setProgram i (.found old))
  | .found old =>
    match kind with
    | .armApp => some (h.setProgram i (if (h.timers old).alive then .refused else .clearing old))
    | .armHost =>
      if (h.timers old).alive then
        some ((h.setTimer old (h.timers old).signal).setProgram i (.reaping old false kind.polls.1))
      else some (h.setProgram i (.clearing old))
    | .disarmApp | .disarmHost =>
      some ((h.setTimer old (h.timers old).signal).setProgram i (.reaping old false kind.polls.1))
  | .reaping old killed left =>
    if (h.timers old).alive = false then some (h.setProgram i (.clearing old))
    else if left > 1 then some (h.setProgram i (.reaping old killed (left - 1)))
    else if killed then some (h.setProgram i .refused)
    else some ((h.setTimer old (h.timers old).signal).setProgram i (.reaping old true kind.polls.2))
  | .clearing old => some ({ h with file := none }.setProgram i (if kind.arms then .ready else .disarmed old))
  | .ready =>
    -- Pids are not used again.
    if (h.timers pid).stage = .absent then some ((h.setTimer pid { stage := .spawned }).setProgram i (.waiting pid 10))
    else none
  | .waiting p left =>
    if h.file.isNone ∧ left > 1 then some (h.setProgram i (.waiting p (left - 1)))
    else some (h.setProgram i (.checking p))
  | .checking _ =>
    match h.file with
    | none => some (h.setProgram i .refused)
    | some reported => some (h.setProgram i (.armed reported))
  | .armed _ | .disarmed _ | .refused => none

/-- What a program or a timer does next. -/
def step (kinds : ι → Kind) (h : Host ι π) : Action ι π → Option (Host ι π)
  | .program i pid => programStep (kinds i) h i pid
  | .write pid =>
    if (h.timers pid).stage = .spawned then
      some ({ h with file := some pid }.setTimer pid { h.timers pid with stage := .sleeping })
    else none
  | .disable pid =>
    if (h.timers pid).stage = .sleeping then
      some (h.setTimer pid { h.timers pid with stage := .fired, disabled := true })
    else none
  | .remove pid =>
    if (h.timers pid).stage = .fired then
      some ({ h with file := none }.setTimer pid { h.timers pid with stage := .gone })
    else none
  | .die pid =>
    if (h.timers pid).alive ∧ (h.timers pid).signalled then
      some (h.setTimer pid { h.timers pid with stage := .gone })
    else none

end Step

end Deadman

end VpnStack

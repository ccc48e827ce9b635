import Mathlib

/-!
# A file that is locked

What flock(2) promises about one file. A process has descriptors; each belongs to an open file description, which is made by
an open and shared by those a fork copied it to. The lock belongs to a description: another description of the same file
conflicts with it, even in the same process or in a child, and it goes with the last descriptor of its description.
-/

namespace Flock

/-- A lock file: who has a descriptor of which description, and which description has the lock. -/
structure File (P D : Type) where
  fds : List (P × D)
  lock : Option D
  /-- A lock does not outlive the descriptors of its description. -/
  held : ∀ d, lock = some d → ∃ p, (p, d) ∈ fds

namespace File

variable {P D : Type}

/-- Nobody has opened the file. -/
def fresh : File P D := ⟨[], none, fun _ h => nomatch h⟩

/-- Whether a lock on this description would be granted. -/
def Free (f : File P D) (d : D) : Prop := f.lock = none ∨ f.lock = some d

instance [DecidableEq D] (f : File P D) (d : D) : Decidable (f.Free d) := inferInstanceAs (Decidable (_ ∨ _))

/-- `open`: the process gets a descriptor of a description. -/
def opened (f : File P D) (p : P) (d : D) : File P D :=
  ⟨(p, d) :: f.fds, f.lock, fun _ h => (f.held _ h).imp fun _ h => List.mem_cons_of_mem _ h⟩

/-- `fork`: the child has what its parent has open. -/
def fork [DecidableEq P] (f : File P D) (p q : P) : File P D :=
  ⟨(f.fds.filter fun x => x.1 = p).map (fun x => (q, x.2)) ++ f.fds, f.lock,
    fun d h => (f.held d h).imp fun _ h => List.mem_append_right _ h⟩

/-- The file with these descriptors left: a description that has none of them has lost its lock. -/
def leaving [DecidableEq D] (f : File P D) (keep : P × D → Bool) : File P D :=
  ⟨f.fds.filter keep, f.lock.filter fun d => (f.fds.filter keep).any (·.2 = d), fun d h => by
    obtain ⟨-, h⟩ := Option.filter_eq_some_iff.mp h
    obtain ⟨⟨p, e⟩, he, hd⟩ := List.any_eq_true.mp h
    exact ⟨p, of_decide_eq_true hd ▸ he⟩⟩

section

variable [DecidableEq P] [DecidableEq D]

/-- `flock(fd, LOCK_EX | LOCK_NB)`: the file with the lock taken, or a refusal. -/
def flock (f : File P D) (p : P) (d : D) : Option (File P D) :=
  if h : (p, d) ∈ f.fds ∧ f.Free d then
    some ⟨f.fds, some d, fun _ he => ⟨p, Option.some_inj.mp he ▸ h.1⟩⟩
  else none

/-- The end of a process closes what it has open. -/
def exit (f : File P D) (p : P) : File P D := f.leaving fun x => x.1 ≠ p

end

variable {f f' : File P D} {p q : P} {d e : D} {x : P × D} {keep : P × D → Bool}

@[simp] theorem lock_fresh : (fresh : File P D).lock = none := rfl

@[simp] theorem fds_fresh : (fresh : File P D).fds = [] := rfl

@[simp] theorem lock_opened : (f.opened p d).lock = f.lock := rfl

@[simp] theorem mem_opened : x ∈ (f.opened p d).fds ↔ x = (p, d) ∨ x ∈ f.fds := List.mem_cons

@[simp] theorem lock_fork [DecidableEq P] : (f.fork p q).lock = f.lock := rfl

/-- A child has the descriptors of its parent. -/
@[simp] theorem mem_fork [DecidableEq P] : (x ∈ (f.fork p q).fds) ↔ (x.1 = q ∧ (p, x.2) ∈ f.fds) ∨ x ∈ f.fds := by
  obtain ⟨r, d⟩ := x
  simp only [fork, List.mem_append, List.mem_map, List.mem_filter, decide_eq_true_eq, Prod.mk.injEq]
  refine or_congr_left ⟨?_, ?_⟩
  · rintro ⟨⟨p', d'⟩, ⟨hm, rfl⟩, rfl, rfl⟩
    exact ⟨rfl, hm⟩
  · rintro ⟨rfl, hm⟩
    exact ⟨(p, d), ⟨hm, rfl⟩, rfl, rfl⟩

@[simp] theorem mem_leaving [DecidableEq D] : x ∈ (f.leaving keep).fds ↔ x ∈ f.fds ∧ keep x = true := List.mem_filter

/-- What is left of the lock. -/
theorem lock_leaving [DecidableEq D] : (f.leaving keep).lock = some d ↔ f.lock = some d ∧ ∃ p, (p, d) ∈ f.fds ∧ keep (p, d) = true := by
  rw [leaving, Option.filter_eq_some_iff, List.any_eq_true]
  refine and_congr_right fun _ => ⟨?_, ?_⟩
  · rintro ⟨⟨p, e⟩, hm, he⟩
    obtain rfl : e = d := of_decide_eq_true he
    exact ⟨p, List.mem_filter.mp hm⟩
  · rintro ⟨p, hm⟩
    exact ⟨(p, d), List.mem_filter.mpr hm, decide_eq_true rfl⟩

variable [DecidableEq P] [DecidableEq D]

@[simp] theorem mem_exit : x ∈ (f.exit p).fds ↔ x ∈ f.fds ∧ x.1 ≠ p := by
  rw [exit, mem_leaving, decide_eq_true_eq]

/-- Somebody else's descriptor keeps the lock of a process that ends. -/
theorem lock_exit_of_mem (h : f.lock = some e) (hm : (q, e) ∈ f.fds) (hq : q ≠ p) : (f.exit p).lock = some e :=
  lock_leaving.mpr ⟨h, q, hm, decide_eq_true hq⟩

/-- A refused lock conflicts with another description. -/
theorem flock_eq_none (hm : (p, d) ∈ f.fds) : f.flock p d = none ↔ ∃ e, f.lock = some e ∧ e ≠ d := by
  rw [flock]
  cases hl : f.lock with
  | none => simp [hm, Free, hl]
  | some e => simp [hm, Free, hl]

/-- A granted lock. -/
theorem flock_eq_some (h : f.flock p d = some f') :
    (p, d) ∈ f.fds ∧ f.Free d ∧ f'.fds = f.fds ∧ f'.lock = some d := by
  rw [flock] at h
  split at h
  · rename_i hc
    rw [Option.some_inj] at h
    subst h
    exact ⟨hc.1, hc.2, rfl, rfl⟩
  · nomatch h

end File

end Flock

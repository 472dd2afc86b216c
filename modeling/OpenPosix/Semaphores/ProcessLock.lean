import Mathlib.Data.Int.Order.Basic
import OpenPosix.Interleaving.Semaphore
import OpenPosix.Interleaving.System

/-!
# The processes of `sem_lock.c`

`functional/semaphores/sem_lock.c`. A chain of processes, each forked by the one before, wants to
print one after the other. The semaphore that should keep them apart is in memory from `malloc`,
which `fork` copies: although it is initialised as shared between processes, every process waits for
a semaphore of its own.

The processes are numbered along the chain, and each has its own memory. A step is one call of
`fork` with the test of the loop around it, one semaphore operation, or the printing of one line.
The text of the lines and `sleep` are left out, and the model starts when `sem_init` has succeeded.
`exclusive_iff` says that two processes can be in the section together as soon as there are two.
-/

namespace OpenPosix.Semaphores.ProcessLock

open Interleaving

/-- The number of processes, from the argument of the program if it has exactly one. -/
def processes (arg : Option ℤ) : ℕ :=
  match arg with
  | some num => if num ≤ 0 then 5 else num.toNat
  | none => 5

inductive Point
  | forks
  | wait
  | print (line : ℕ)
  | post
  | returned
  deriving DecidableEq, Repr

/-- A process: its point, the counter of the loop that forks, and the value of the semaphore in its
memory. -/
structure Process where
  point : Point
  i : ℕ
  semLock : ℕ
  deriving DecidableEq, Repr

/-- The processes of the chain, the oldest first. -/
abbrev State := List Process

/-- `fork` in process `k`: the child gets a copy of the memory of its parent, and goes on in the
loop of which the parent gets out. -/
def forkChild (s : State) (k : ℕ) (p : Process) : State :=
  s.set k { p with point := .wait } ++ [{ p with i := p.i + 1 }]

/-- One step of a process; `fork` gives the counters at which `fork` succeeds. -/
def main (num : ℕ) (fork : ℕ → Bool) (s : State) (k : ℕ) : Option State :=
  match s[k]? with
  | none => none
  | some p =>
    match p.point with
    | .forks =>
      if p.i < num then
        -- A failed `fork` also gets its caller out of the loop.
        some (if fork p.i then forkChild s k p else s.set k { p with point := .wait })
      else
        some (s.set k { p with point := .wait })
    | .wait => (semWait p.semLock).map fun value ↦
        s.set k { p with point := .print 1, semLock := value }
    | .print line =>
      some (s.set k { p with point := if line < 10 then .print (line + 1) else .post })
    | .post => some (s.set k { p with point := .returned, semLock := semPost p.semLock })
    | .returned => none

/-- The first process, when the semaphore is initialised. -/
def start : State := [⟨.forks, 1, 1⟩]

def program (num : ℕ) (fork : ℕ → Bool) : System State ℕ where
  Initial := fun s ↦ s = start
  next := main num fork

/-- The process is between its return from `sem_wait` and its `sem_post`. -/
def Point.inSection : Point → Bool
  | .print _ | .post => true
  | _ => false

def InSection (s : State) (k : ℕ) : Prop := ∃ p, s[k]? = some p ∧ p.point.inSection = true

def Exclusive (s : State) : Prop := ∀ j k, InSection s j → InSection s k → j = k

variable {num : ℕ} {fork : ℕ → Bool} {s s' : State}

/-! ### A single process -/

/-- There is one process, and it has not forked yet if it is in the loop. -/
def Single (s : State) : Prop := ∃ p : Process, s = [p] ∧ (p.point = .forks → p.i = 1)

/-- Assumes: the chain ends with its first process. There is never a second one. -/
theorem single_of_reachable (hend : num ≤ 1 ∨ fork 1 = false)
    (h : (program num fork).Reachable s) : Single s := by
  refine h.invariant (fun s hs ↦ ⟨_, hs, fun _ ↦ rfl⟩) fun s k s' _ hinv hnext ↦ ?_
  obtain ⟨p, rfl, hi⟩ := hinv
  cases k with
  | succ k => simp [program, main] at hnext
  | zero =>
    simp only [program, main, List.getElem?_cons_zero] at hnext
    cases hpoint : p.point with
    | forks =>
      simp only [hpoint, hi hpoint] at hnext
      split_ifs at hnext with hlt hfork
      · exact absurd (hend.resolve_left (by omega)) (by simp [hfork])
      · exact ⟨_, (Option.some.inj hnext).symm, by simp⟩
      · exact ⟨_, (Option.some.inj hnext).symm, by simp⟩
    | wait =>
      simp only [hpoint, Option.map_eq_some_iff] at hnext
      obtain ⟨value, -, rfl⟩ := hnext
      exact ⟨_, rfl, by simp⟩
    | print line =>
      simp only [hpoint] at hnext
      refine ⟨_, (Option.some.inj hnext).symm, fun hforks ↦ ?_⟩
      split_ifs at hforks
    | post =>
      simp only [hpoint] at hnext
      exact ⟨_, (Option.some.inj hnext).symm, by simp⟩
    | returned => simp [hpoint] at hnext

theorem Single.exclusive (h : Single s) : Exclusive s := by
  obtain ⟨p, rfl, -⟩ := h
  have hzero : ∀ k, InSection [p] k → k = 0 := by
    rintro k ⟨q, hq, -⟩
    obtain ⟨hlt, -⟩ := List.getElem?_eq_some_iff.mp hq
    exact Nat.lt_one_iff.mp hlt
  intro j k hj hk
  rw [hzero j hj, hzero k hk]

/-! ### Two processes -/

/-- Assumes: at least two processes are wanted, and the first `fork` succeeds. The first process and
its child can be in the section together. -/
theorem exists_both (hnum : 1 < num) (hfork : fork 1 = true) :
    ∃ s, (program num fork).Reachable s ∧ InSection s 0 ∧ InSection s 1 := by
  have hfirst : (program num fork).next start 0 = some [⟨.wait, 1, 1⟩, ⟨.forks, 2, 1⟩] := by
    simp [program, main, start, hnum, hfork, forkChild]
  -- The child leaves its loop, whether or not it is to fork and succeeds.
  obtain ⟨rest, hchild⟩ : ∃ rest, (program num fork).next [⟨.wait, 1, 1⟩, ⟨.forks, 2, 1⟩] 1 =
      some (⟨.wait, 1, 1⟩ :: ⟨.wait, 2, 1⟩ :: rest) := by
    by_cases hlt : 2 < num
    · cases hagain : fork 2 with
      | true => exact ⟨[⟨.forks, 3, 1⟩], by simp [program, main, hlt, hagain, forkChild]⟩
      | false => exact ⟨[], by simp [program, main, hlt, hagain]⟩
    · exact ⟨[], by simp [program, main, hlt]⟩
  have hwait : (program num fork).runSchedule (⟨.wait, 1, 1⟩ :: ⟨.wait, 2, 1⟩ :: rest) [0, 1] =
      some (⟨.print 1, 1, 0⟩ :: ⟨.print 1, 2, 0⟩ :: rest) := by
    simp [System.runSchedule, program, main, semWait]
  have hreach := ((System.reachable_of_initial (P := program num fork) rfl).step hfirst).step hchild
  exact ⟨_, hreach.runSchedule hwait, ⟨_, rfl, rfl⟩, _, rfl, rfl⟩

/-- In every interleaving at most one process is between its return from `sem_wait` and its
`sem_post`, exactly when there is only one process: no more is wanted, or the first `fork` fails. -/
theorem exclusive_iff (num : ℕ) (fork : ℕ → Bool) :
    (∀ s, (program num fork).Reachable s → Exclusive s) ↔ num ≤ 1 ∨ fork 1 = false := by
  constructor
  · intro hall
    by_contra hnot
    obtain ⟨hnum, hfork⟩ := not_or.mp hnot
    obtain ⟨s, hreach, hfirst, hchild⟩ : ∃ s, (program num fork).Reachable s ∧ InSection s 0 ∧
        InSection s 1 := exists_both (by omega) (by simpa using hfork)
    exact absurd (hall s hreach 0 1 hfirst hchild) (by simp)
  · exact fun hend s hreach ↦ (single_of_reachable hend hreach).exclusive

/-- With the default number of processes, two of them are in the section together. -/
theorem both_in_section :
    ∃ s, (program (processes none) fun _ ↦ true).Reachable s ∧ InSection s 0 ∧ InSection s 1 :=
  exists_both (by decide) rfl

end OpenPosix.Semaphores.ProcessLock

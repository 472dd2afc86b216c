import Mathlib.Data.Fintype.Basic
import OpenPosix.Interleaving.Semaphore
import OpenPosix.Interleaving.System
import OpenPosix.Verdicts.ChildVerdicts

/-!
# Processes that create the same objects

`shm_open/23-1.c`. `NPROCESS` children all try to create `NLOOP` shared memory objects with
`O_CREAT | O_EXCL`, and each of them counts the objects it has created in `*create_cnt`, under a
semaphore. When all children have ended, `main` removes the objects and compares the counter with
`NLOOP`.

The steps are those between which another process can run. The counter is read and written in two of
them. A name is written to the buffer `name`, of which every process has its own; a name that does
not fit the buffer ends the modelled run in `overflow`. `shm_open` creates the object if there is
none of that name and fails with `EEXIST` otherwise. Every `fork` succeeds, and so do the calls of
`main` before the first one, which are left out with the calls that only take time.
-/

namespace OpenPosix.SharedMemory.Create

open Interleaving Verdicts

def nameSize : ℕ := 20

/-- `SHM_NAME`, with the number in the place of `%d`. -/
def shmName (i : ℕ) : List Char := "/posixtest_23-1_".toList ++ Nat.toDigits 10 i

/-- `sprintf` into `name`. There is no result if the text and its final null do not fit. -/
def sprintf (i : ℕ) : Option (List Char) :=
  if (shmName i).length + 1 ≤ nameSize then some (shmName i) else none

inductive ChildPoint
  | unborn
  | sleep
  | test (i : ℕ)
  | shmOpen (i : ℕ) (name : List Char)
  | wait (i : ℕ)
  | load (i : ℕ)
  | store (i value : ℕ)
  | post (i : ℕ)
  | nanosleep (i : ℕ)
  | exited
  | reaped
  | overflow
  deriving DecidableEq, Repr

/-- The points of `main`, from the first `fork` on: the children left to create, the loop over
`wait`, the loop that removes the objects, and the comparison. -/
inductive MainPoint (n : ℕ)
  | fork (children : List (Fin n))
  | wait
  | unlink (i : ℕ)
  | compare
  | returned (code : ℕ)
  | overflow
  deriving DecidableEq, Repr

/-- A step of `main` or of a child, and the return of a call of `wait` for a child. -/
inductive Move (n : ℕ)
  | main
  | child (k : Fin n)
  | reap (k : Fin n)
  deriving DecidableEq, Repr

/-- The names of the objects that exist, the semaphore, the counter, and where everybody is. -/
structure State (n : ℕ) where
  main : MainPoint n
  child : Fin n → ChildPoint
  objects : List (List Char)
  sem : ℕ
  createCnt : ℕ

variable {n : ℕ}

def State.put (s : State n) (k : Fin n) (point : ChildPoint) : State n :=
  { s with child := Function.update s.child k point }

def childFunc (nloop : ℕ) (s : State n) (k : Fin n) : Option (State n) :=
  match s.child k with
  | .unborn | .exited | .reaped | .overflow => none
  | .sleep => some (s.put k (.test 0))
  | .test i =>
    if i < nloop then
      match sprintf i with
      | some name => some (s.put k (.shmOpen i name))
      | none => some (s.put k .overflow)
    else
      some (s.put k .exited)
  | .shmOpen i name =>
    if name ∈ s.objects then some (s.put k (.nanosleep i))
    else some { s.put k (.wait i) with objects := name :: s.objects }
  | .wait i => (semWait s.sem).map fun value ↦ { s.put k (.load i) with sem := value }
  | .load i => some (s.put k (.store i s.createCnt))
  | .store i value => some { s.put k (.post i) with createCnt := value + 1 }
  | .post i => some { s.put k (.nanosleep i) with sem := semPost s.sem }
  | .nanosleep i => some (s.put k (.test (i + 1)))

/-- The next step of `main`. A call of `wait` that finds no child returns -1. -/
def main (nloop : ℕ) (s : State n) : Option (State n) :=
  match s.main with
  | .fork [] => some { s with main := .wait }
  | .fork (k :: rest) => some { s.put k .sleep with main := .fork rest }
  | .wait => if ∀ k, s.child k = .reaped then some { s with main := .unlink 0 } else none
  | .unlink i =>
    if i < nloop then
      match sprintf i with
      | some name =>
        some { s with main := .unlink (i + 1), objects := s.objects.filter (· ≠ name) }
      | none => some { s with main := .overflow }
    else
      some { s with main := .compare }
  | .compare =>
    some { s with main := .returned (if s.createCnt ≠ nloop then ptsFail else ptsPass) }
  | .returned _ | .overflow => none

/-- A call of `wait` returns for a child that has ended. -/
def reap (s : State n) (k : Fin n) : Option (State n) :=
  if s.main = .wait ∧ s.child k = .exited then some (s.put k .reaped) else none

def next (nloop : ℕ) (s : State n) : Move n → Option (State n)
  | .main => main nloop s
  | .child k => childFunc nloop s k
  | .reap k => reap s k

/-- The state before the first `fork`, with the objects that exist then. -/
def start (n : ℕ) (objects : List (List Char)) : State n where
  main := .fork (List.finRange n)
  child := fun _ ↦ .unborn
  objects := objects
  sem := 1
  createCnt := 0

/-- The program for `n` processes and `nloop` objects, none of which exists before. -/
def program (n nloop : ℕ) : System (State n) (Move n) where
  Initial := fun s ↦ ∃ objects, (∀ i < nloop, shmName i ∉ objects) ∧ s = start n objects
  next := next nloop

end OpenPosix.SharedMemory.Create

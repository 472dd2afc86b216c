import OpenPosix.Interleaving.Monitor
import OpenPosix.Interleaving.System

/-!
# Waiting for all threads, mutex by mutex

`stress/threads/pthread_mutex_lock/s-c1.c`. `main` locks five mutexes, creates as many threads as it
can, and releases the mutexes one after the other; each thread locks and unlocks them in order.
After it has released a mutex, `main` waits for a condition variable until all threads have been
through that mutex, successfully or not: a thread counts itself under `m`, and signals the condition
variable if its count was the last one.

A step is one call or one access to the shared data. `n` is the number of threads that can be
created, and `succeeds k i` says whether the `i`th lock of thread `k` succeeds; a lock that fails
returns at once. `main` is the only thread that waits for the condition variable, and it may wake up
spuriously. All other calls succeed. What `main` does after its last phase is left out.
-/

namespace OpenPosix.Mutexes.Phases

open Interleaving

/-- The number of mutexes `mtx`. -/
def phases : ℕ := 5

/-- The points of `threaded`, with the number `i` of the mutex, whether the lock of that mutex has
succeeded, and the value of `bool`. -/
inductive ThreadPoint
  | unborn
  | lock (i : ℕ)
  | lockM (i : ℕ) (success : Bool)
  | incr (i : ℕ) (success : Bool)
  | test (i : ℕ) (success : Bool)
  | unlockM (i : ℕ) (success bool : Bool)
  | unlock (i : ℕ) (bool : Bool)
  | signal (i : ℕ)
  | exited
  deriving DecidableEq, Repr

/-- The points of `main`, with the threads that are left to create and the number of the mutex.
`woken` has been unblocked and needs `m` to return from the wait. -/
inductive MainPoint (n : ℕ)
  | create (rest : List (Fin n))
  | incrTOT (rest : List (Fin n))
  | lockM
  | unlock (i : ℕ)
  | wait (i : ℕ)
  | blocked (i : ℕ)
  | woken (i : ℕ)
  | test (i : ℕ)
  | unlockM
  | ended
  deriving DecidableEq, Repr

inductive Thread (n : ℕ)
  | main
  | thread (k : Fin n)
  deriving DecidableEq, Repr

/-- A step of a thread, or a wake-up without a signal. -/
inductive Move (n : ℕ)
  | thread (t : Thread n)
  | spurious
  deriving DecidableEq, Repr

structure State (n : ℕ) where
  main : MainPoint n
  thread : Fin n → ThreadPoint
  m : Option (Thread n)
  mtx : ℕ → Option (Thread n)
  nbthOK : ℕ → ℕ
  nbthNOK : ℕ → ℕ
  nbthTOT : ℕ

variable {n : ℕ}

/-- The threads that have been through a mutex. -/
def State.count (s : State n) (i : ℕ) : ℕ := s.nbthOK i + s.nbthNOK i

def State.goto (s : State n) (k : Fin n) (point : ThreadPoint) : State n :=
  { s with thread := Function.update s.thread k point }

def State.setMtx (s : State n) (i : ℕ) (owner : Option (Thread n)) : State n :=
  { s with mtx := Function.update s.mtx i owner }

/-- `nbthOK[i]++` or `nbthNOK[i]++`. -/
def State.incr (s : State n) (i : ℕ) (success : Bool) : State n :=
  if success then { s with nbthOK := Function.update s.nbthOK i (s.nbthOK i + 1) }
  else { s with nbthNOK := Function.update s.nbthNOK i (s.nbthNOK i + 1) }

/-- `main` is unblocked, if it is blocked on the condition variable. -/
def MainPoint.wake : MainPoint n → MainPoint n
  | .blocked i => .woken i
  | point => point

/-- The end of the loop body of `threaded`. -/
def endOfPhase (i : ℕ) : ThreadPoint :=
  if i + 1 < phases then .lock (i + 1) else .exited

/-- `if (bool)`. -/
def afterUnlock (i : ℕ) (bool : Bool) : ThreadPoint :=
  if bool then .signal i else endOfPhase i

def threaded (succeeds : Fin n → ℕ → Bool) (s : State n) (k : Fin n) : Option (State n) :=
  match s.thread k with
  | .unborn => none
  | .lock i =>
    if succeeds k i then
      (mutexLock (s.mtx i) (.thread k)).map fun owner ↦ (s.setMtx i owner).goto k (.lockM i true)
    else
      some (s.goto k (.lockM i false))
  | .lockM i success =>
    (mutexLock s.m (.thread k)).map fun owner ↦ { s.goto k (.incr i success) with m := owner }
  | .incr i success => some ((s.incr i success).goto k (.test i success))
  | .test i success => some (s.goto k (.unlockM i success (decide (s.nbthTOT ≤ s.count i))))
  | .unlockM i success bool =>
    some { s.goto k (if success then .unlock i bool else afterUnlock i bool) with m := none }
  | .unlock i bool => some ((s.setMtx i none).goto k (afterUnlock i bool))
  | .signal i => some { s.goto k (endOfPhase i) with main := s.main.wake }
  | .exited => none

def main (s : State n) : Option (State n) :=
  match s.main with
  | .create (k :: rest) => some { s.goto k (.lock 0) with main := .incrTOT rest }
  | .create [] => some { s with main := .lockM }
  | .incrTOT rest => some { s with nbthTOT := s.nbthTOT + 1, main := .create rest }
  | .lockM => (mutexLock s.m .main).map fun owner ↦ { s with main := .unlock 0, m := owner }
  | .unlock i => some { s.setMtx i none with main := .wait i }
  | .wait i => some { s with main := .blocked i, m := none }
  | .blocked _ => none
  | .woken i => (mutexLock s.m .main).map fun owner ↦ { s with main := .test i, m := owner }
  | .test i => some { s with
      main := if s.count i < s.nbthTOT then .wait i
        else if i + 1 < phases then .unlock (i + 1) else .unlockM }
  | .unlockM => some { s with main := .ended, m := none }
  | .ended => none

def next (succeeds : Fin n → ℕ → Bool) (s : State n) : Move n → Option (State n)
  | .thread .main => main s
  | .thread (.thread k) => threaded succeeds s k
  | .spurious => if s.main.wake = s.main then none else some { s with main := s.main.wake }

/-- `main` has locked the mutexes, and is about to create the threads. -/
def start (n : ℕ) : State n where
  main := .create (List.finRange n)
  thread := fun _ ↦ .unborn
  m := none
  mtx := fun _ ↦ some .main
  nbthOK := fun _ ↦ 0
  nbthNOK := fun _ ↦ 0
  nbthTOT := 0

def program (succeeds : Fin n → ℕ → Bool) : System (State n) (Move n) where
  Initial := fun s ↦ s = start n
  next := next succeeds

/-- The steps of the threads other than `main`. -/
def Move.ofThread : Move n → Bool
  | .thread (.thread _) => true
  | _ => false

/-- While `main` is blocked, a thread will still signal the condition variable. -/
def WillSignal (succeeds : Fin n → ℕ → Bool) (s : State n) : Prop :=
  ∃ s', ((program succeeds).restrict Move.ofThread).Leads s s' ∧ ∃ k i, s'.thread k = .signal i

/-- `main` is blocked on the condition variable for ever: all threads have been through the mutex,
and none of them will signal. -/
def Stuck (succeeds : Fin n → ℕ → Bool) (s : State n) : Prop :=
  ∃ i, s.main = .blocked i ∧ s.nbthTOT ≤ s.count i ∧ ¬ WillSignal succeeds s

end OpenPosix.Mutexes.Phases

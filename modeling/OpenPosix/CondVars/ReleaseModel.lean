import OpenPosix.Interleaving.Monitor
import OpenPosix.Interleaving.System

/-!
# Releasing the waiters of the scalability test

`stress/threads/pthread_cond_timedwait/s-c.c`, without `USE_CANCEL`. In each round `do_threads_test`
creates threads that wait for a condition variable, polls `tnum` until all of them have counted
themselves, and measures a timed wait on the same condition variable. Then it sets `predicate`,
broadcasts, and joins the threads. If a thread cannot be created, it sets `predicate`, broadcasts
and joins those that were, and returns. In both cases it does so without the mutex. A waiter calls
`pthread_cond_wait` before it tests `predicate` for the first time.

A step is one call or one access to the shared data. Whether a creation succeeds is free, and so is
whether the clock shows that the timed wait has returned too early, which ends the process. Spurious
wake-ups are moves of their own, and `program` says whether there are any; the timed wait expires at
any time. The rounds are those of all scenarios together: the attributes of the mutex and of the
condition variable, the measures and calls that fail are left out.
-/

namespace OpenPosix.CondVars.Release

open Interleaving

/-- The points of `waiter`. A waiter that is `woken` needs the mutex to return from its wait. -/
inductive WaiterPoint
  | unborn
  | lock
  | incr
  | wait
  | blocked
  | woken
  | test
  | unlock
  | returned
  deriving DecidableEq, Repr

/-- The points of `do_threads_test`, with those of `do_measure` from `measureLock` to
`measureUnlock`. The threads that were created are listed with the last one first. `ok` is false on
the path for a creation that failed, and `expired` says that the timed wait returns `ETIMEDOUT`. -/
inductive MainPoint (n : ℕ)
  | setup
  | create (created rest : List (Fin n))
  | lock
  | poll
  | unlock (again : Bool)
  | measureLock
  | timedwait
  | timing
  | woken (expired : Bool)
  | testRc (expired : Bool)
  | checkTime
  | measureUnlock
  | setPredicate (joins : List (Fin n)) (ok : Bool)
  | broadcast (joins : List (Fin n)) (ok : Bool)
  | join (joins : List (Fin n)) (ok : Bool)
  | ended (ok : Bool)
  | exited
  deriving DecidableEq, Repr

/-- `main`, which runs `do_threads_test`, or a waiter. -/
inductive Thread (n : ℕ)
  | main
  | waiter (i : Fin n)
  deriving DecidableEq, Repr

/-- What happens next: a step of `main`, with the outcome of a creation or of the test of the time,
a step of a waiter, the expiry of the timed wait, or a spurious wake-up. -/
inductive Move (n : ℕ)
  | main (ok : Bool)
  | waiter (i : Fin n)
  | expire
  | spurious (thread : Thread n)
  deriving DecidableEq, Repr

/-- The shared data, the number of the round, and where every thread is. -/
structure State (n : ℕ) where
  round : ℕ
  main : MainPoint n
  waiter : Fin n → WaiterPoint
  mtx : Option (Thread n)
  predicate : Bool
  tnum : ℕ

variable {n : ℕ}

def WaiterPoint.wake : WaiterPoint → WaiterPoint
  | .blocked => .woken
  | point => point

def State.goto (s : State n) (i : Fin n) (point : WaiterPoint) : State n :=
  { s with waiter := Function.update s.waiter i point }

def waiter (s : State n) (i : Fin n) : Option (State n) :=
  match s.waiter i with
  | .unborn => none
  | .lock => (mutexLock s.mtx (.waiter i)).map fun mtx ↦ { s.goto i .incr with mtx := mtx }
  | .incr => some { s.goto i .wait with tnum := s.tnum + 1 }
  | .wait => some { s.goto i .blocked with mtx := none }
  | .blocked => none
  | .woken => (mutexLock s.mtx (.waiter i)).map fun mtx ↦ { s.goto i .test with mtx := mtx }
  | .test => some (s.goto i (if s.predicate then .unlock else .wait))
  | .unlock => some { s.goto i .returned with mtx := none }
  | .returned => none

def doThreadsTest (rounds : ℕ) (s : State n) (ok : Bool) : Option (State n) :=
  match s.main with
  | .setup =>
    if s.round < rounds then
      some { s with main := .create [] (List.finRange n), waiter := fun _ ↦ .unborn, mtx := none,
                    predicate := false, tnum := 0 }
    else
      some { s with main := .ended true }
  | .create created (i :: rest) =>
    if ok then
      some { s.goto i .lock with main := .create (i :: created) rest }
    else
      some { s with main := .setPredicate created false }
  | .create _ [] => some { s with main := .lock }
  | .lock => (mutexLock s.mtx .main).map fun mtx ↦ { s with main := .poll, mtx := mtx }
  | .poll => some { s with main := .unlock (s.tnum < n) }
  | .unlock again => some { s with main := if again then .lock else .measureLock, mtx := none }
  | .measureLock => (mutexLock s.mtx .main).map fun mtx ↦ { s with main := .timedwait, mtx := mtx }
  | .timedwait => some { s with main := .timing, mtx := none }
  | .timing => none
  | .woken expired =>
    (mutexLock s.mtx .main).map fun mtx ↦ { s with main := .testRc expired, mtx := mtx }
  | .testRc expired => some { s with main := if expired then .checkTime else .timedwait }
  | .checkTime => some { s with main := if ok then .measureUnlock else .exited }
  | .measureUnlock => some { s with main := .setPredicate (List.finRange n) true, mtx := none }
  | .setPredicate joins ok => some { s with main := .broadcast joins ok, predicate := true }
  | .broadcast joins ok =>
    some { s with main := .join joins ok, waiter := wakeUp WaiterPoint.wake Finset.univ s.waiter }
  | .join (i :: rest) ok =>
    if s.waiter i = .returned then some { s with main := .join rest ok } else none
  | .join [] true => some { s with main := .setup, round := s.round + 1 }
  | .join [] false => some { s with main := .ended false }
  | .ended _ => none
  | .exited => none

def expire (s : State n) : Option (State n) :=
  if s.main = .timing then some { s with main := .woken true } else none

/-- A wake-up without a signal. -/
def spurious (s : State n) : Thread n → Option (State n)
  | .main => if s.main = .timing then some { s with main := .woken false } else none
  | .waiter i => if s.waiter i = .blocked then some (s.goto i .woken) else none

def start (n : ℕ) : State n := ⟨0, .setup, fun _ ↦ .unborn, none, false, 0⟩

/-- `do_threads_test` with `n` threads, with or without spurious wake-ups. -/
def program (n rounds : ℕ) (wakes : Bool) : System (State n) (Move n) where
  Initial := fun s ↦ s = start n
  next := fun s move ↦
    if s.main = .exited then none
    else
      match move with
      | .main ok => doThreadsTest rounds s ok
      | .waiter i => waiter s i
      | .expire => expire s
      | .spurious thread => if wakes then spurious s thread else none

end OpenPosix.CondVars.Release

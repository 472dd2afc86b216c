import OpenPosix.Interleaving.Monitor
import OpenPosix.Interleaving.System

/-!
# Cancelling a waiter while the condition variable is signalled

`stress/threads/pthread_cond_timedwait/stress2.c`, and `pthread_cond_wait/stress2.c` with the same
protocol. In each round `cellmanager` creates workers that wait for a condition variable, and polls
a counter until all of them have been through the mutex. It then sets `boolean`, without the mutex,
creates a thread that signals the condition variable once, meets it at a barrier, and cancels one of
the workers. A worker that returns from the wait and finds `boolean` set broadcasts the condition.
The value of `boolean` says whether the signaler holds the mutex when it signals.

A step is one call or one access to the shared data of one cell. Which worker is cancelled and the
value of `boolean` are read off the clock, and they are free here. `pthread_cond_signal` unblocks a
set of waiters that has at least one if there is one. A worker with a pending cancellation acts on
it when it enters the wait, while it is blocked, or when it has been unblocked and needs the mutex
to return; a worker that the signal has unblocked and that acts on the cancellation leaves the
signal to a worker that is blocked, if there is one. Spurious wake-ups are moves of their own. The
waits do not expire, and all calls succeed; the counters of the cell that are only printed are left
out.
-/

namespace OpenPosix.CondVars.Cancel

open Interleaving

/-- The values of `boolean`: 0, 1 and −1. -/
inductive Flag
  | zero
  | plain
  | locking
  deriving DecidableEq, Repr

/-- The points of `worker`. A worker that is `woken` has been unblocked, and `signaled` says that it
was by `pthread_cond_signal`; one that is `canceling` has acted on its cancellation and needs the
mutex for its cleanup handler. -/
inductive WorkerPoint
  | unborn
  | lock
  | incr
  | wait
  | blocked
  | woken (signaled : Bool)
  | test
  | broadcast
  | unlock
  | returned
  | canceling
  | cleanup
  | canceled
  deriving DecidableEq, Repr

inductive SignalerPoint
  | unborn
  | start
  | lock
  | barrier
  | waiting
  | signal
  | finish
  | unlock
  | returned
  deriving DecidableEq, Repr

inductive ManagerPoint (n : ℕ)
  | loop
  | reset
  | create (rest : List (Fin n))
  | choose
  | lock
  | read
  | unlock (i : ℕ)
  | setBoolean
  | createSignaler
  | barrier
  | waiting
  | cancel
  | joinSignaler
  | join (rest : List (Fin n))
  | returned
  deriving DecidableEq, Repr

inductive Thread (n : ℕ)
  | manager
  | signaler
  | worker (i : Fin n)
  deriving DecidableEq, Repr

/-- A step of a thread: the choice of `cellmanager` and the signal have moves of their own, since
their outcomes are free. A worker acts on its cancellation, wakes up spuriously, or the handler
clears `do_it`. -/
inductive Move (n : ℕ)
  | thread (t : Thread n)
  | choose (randval : Fin n) (locking : Bool)
  | signal (set : Finset (Fin n))
  | act (set : Finset (Fin n))
  | spurious (i : Fin n)
  | stop
  deriving DecidableEq

/-- The data of the cell, what `cellmanager` has chosen, whether the chosen worker has a pending
cancellation, and where every thread is. A thread that was joined is `unborn` again. -/
structure State (n : ℕ) where
  manager : ManagerPoint n
  signaler : SignalerPoint
  worker : Fin n → WorkerPoint
  mtx : Option (Thread n)
  boolean : Flag
  count : ℕ
  randval : Option (Fin n)
  locking : Bool
  pending : Bool
  doIt : Bool

variable {n : ℕ}

def WorkerPoint.isBlocked : WorkerPoint → Bool
  | .blocked => true
  | _ => false

/-- A blocked worker is unblocked, and needs the mutex to return from the wait. -/
def WorkerPoint.wake (signaled : Bool) : WorkerPoint → WorkerPoint
  | .blocked => .woken signaled
  | point => point

/-- `pthread_join` returns for this worker. -/
def WorkerPoint.ended : WorkerPoint → Bool
  | .returned | .canceled => true
  | _ => false

def State.goto (s : State n) (i : Fin n) (point : WorkerPoint) : State n :=
  { s with worker := Function.update s.worker i point }

def State.wake (s : State n) (signaled : Bool) (set : Finset (Fin n)) : State n :=
  { s with worker := wakeUp (WorkerPoint.wake signaled) set s.worker }

def State.isPending (s : State n) (i : Fin n) : Prop := s.pending = true ∧ s.randval = some i

instance (s : State n) (i : Fin n) : Decidable (s.isPending i) :=
  inferInstanceAs (Decidable (_ ∧ _))

def worker (s : State n) (i : Fin n) : Option (State n) :=
  match s.worker i with
  | .unborn => none
  | .lock =>
    (mutexLock s.mtx (.worker i)).map fun owner ↦ { s.goto i .incr with mtx := owner }
  | .incr => some { s.goto i .wait with count := s.count + 1 }
  | .wait =>
    if s.isPending i then some (s.goto i .cleanup) else some { s.goto i .blocked with mtx := none }
  | .blocked => none
  | .woken _ =>
    (mutexLock s.mtx (.worker i)).map fun owner ↦ { s.goto i .test with mtx := owner }
  | .test => some (s.goto i (if s.boolean = .zero then .wait else .broadcast))
  | .broadcast => some ((s.wake false Finset.univ).goto i .unlock)
  | .unlock => some { s.goto i .returned with mtx := none }
  | .returned => none
  | .canceling =>
    (mutexLock s.mtx (.worker i)).map fun owner ↦ { s.goto i .cleanup with mtx := owner }
  | .cleanup => some { s.goto i .canceled with mtx := none }
  | .canceled => none

/-- The worker with the pending cancellation acts on it. If the signal has unblocked it, the set
gets the signal in its place. -/
def act (s : State n) (set : Finset (Fin n)) : Option (State n) :=
  match s.randval with
  | none => none
  | some i =>
    if s.pending then
      match s.worker i with
      | .blocked | .woken false => if set = ∅ then some (s.goto i .canceling) else none
      | .woken true =>
        if Signals WorkerPoint.isBlocked s.worker set then
          some ((s.wake true set).goto i .canceling)
        else
          none
      | _ => none
    else
      none

/-- The number of threads that wait at the barrier. -/
def State.waiting (s : State n) : ℕ :=
  (if s.manager = .waiting then 1 else 0) + (if s.signaler = .waiting then 1 else 0)

/-- The threads that wait at the barrier return from it. -/
def State.release (s : State n) : State n :=
  { s with
    manager := if s.manager = .waiting then .cancel else s.manager
    signaler := if s.signaler = .waiting then .signal else s.signaler }

/-- The next step of the signaler, other than the signal. -/
def signaler (s : State n) : Option (State n) :=
  match s.signaler with
  | .unborn => none
  | .start => some { s with signaler := if s.boolean = .locking then .lock else .barrier }
  | .lock =>
    (mutexLock s.mtx .signaler).map fun owner ↦ { s with signaler := .barrier, mtx := owner }
  | .barrier =>
    if Completes 2 s.waiting then some { s.release with signaler := .signal }
    else some { s with signaler := .waiting }
  | .waiting => none
  | .signal => none
  | .finish => some { s with signaler := if s.boolean = .locking then .unlock else .returned }
  | .unlock => some { s with signaler := .returned, mtx := none }
  | .returned => none

/-- `pthread_cond_signal`, which unblocks the workers of the set. -/
def signal (s : State n) (set : Finset (Fin n)) : Option (State n) :=
  if s.signaler = .signal ∧ Signals WorkerPoint.isBlocked s.worker set then
    some { s.wake true set with signaler := .finish }
  else
    none

/-- The next step of `cellmanager`, other than the choice. -/
def cellmanager (s : State n) : Option (State n) :=
  match s.manager with
  | .loop => some { s with manager := if s.doIt then .reset else .returned }
  | .reset => some { s with
      boolean := .zero, count := 0, pending := false, manager := .create (List.finRange n) }
  | .create (i :: rest) => some { s.goto i .lock with manager := .create rest }
  | .create [] => some { s with manager := .choose }
  | .choose => none
  | .lock => (mutexLock s.mtx .manager).map fun owner ↦ { s with manager := .read, mtx := owner }
  | .read => some { s with manager := .unlock s.count }
  | .unlock i => some { s with manager := if i < n then .lock else .setBoolean, mtx := none }
  | .setBoolean => some { s with
      boolean := if s.locking then .locking else .plain, manager := .createSignaler }
  | .createSignaler => some { s with signaler := .start, manager := .barrier }
  | .barrier =>
    if Completes 2 s.waiting then some { s.release with manager := .cancel }
    else some { s with manager := .waiting }
  | .waiting => none
  | .cancel => some { s with pending := true, manager := .joinSignaler }
  | .joinSignaler =>
    if s.signaler = .returned then
      some { s with signaler := .unborn, manager := .join (List.finRange n) }
    else
      none
  | .join (i :: rest) =>
    if (s.worker i).ended then some { s.goto i .unborn with manager := .join rest } else none
  | .join [] => some { s with manager := .loop }
  | .returned => none

/-- The choice of `cellmanager`, from the time of the clock. -/
def choose (s : State n) (randval : Fin n) (locking : Bool) : Option (State n) :=
  if s.manager = .choose then
    some { s with randval := some randval, locking := locking, manager := .lock }
  else
    none

/-- A wake-up without a signal. -/
def spurious (s : State n) (i : Fin n) : Option (State n) :=
  if s.worker i = .blocked then some (s.wake false {i}) else none

def next (s : State n) : Move n → Option (State n)
  | .thread .manager => cellmanager s
  | .thread .signaler => signaler s
  | .thread (.worker i) => worker s i
  | .choose randval locking => choose s randval locking
  | .signal set => signal s set
  | .act set => act s set
  | .spurious i => spurious s i
  | .stop => some { s with doIt := false }

def start (n : ℕ) : State n where
  manager := .loop
  signaler := .unborn
  worker := fun _ ↦ .unborn
  mtx := none
  boolean := .zero
  count := 0
  randval := none
  locking := false
  pending := false
  doIt := true

/-- One cell with `n` workers in each round. -/
def program (n : ℕ) : System (State n) (Move n) where
  Initial := fun s ↦ s = start n
  next := next

end OpenPosix.CondVars.Cancel

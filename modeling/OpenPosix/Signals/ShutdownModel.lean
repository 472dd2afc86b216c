import Mathlib.Data.Finset.Insert
import Mathlib.Data.Fintype.Defs
import OpenPosix.Interleaving.Semaphore
import OpenPosix.Interleaving.System

/-!
# A worker and its two signal senders

`pthread_mutex_lock/3-1.c` with `WITH_SYNCHRO` defined. `threaded` installs two handlers and then
locks and unlocks mutexes as long as `do_it` is set. Two threads `sendsig` send it `SIGUSR1` and
`SIGUSR2`. A sender waits for its semaphore before it sends its signal, and the handler posts that
semaphore, so that one unit goes round. At the end `main` clears `do_it`, joins the senders and
posts `semsync`, which the worker waits for before it returns.

A step is one call or one access to the shared data. A handler is entered on top of whatever the
worker is doing, also on top of the other handler; its own signal is blocked until it returns. While
a handler runs, the worker stands still. `sem_wait` returns `EINTR` when a handler was entered while
the worker was in it, and the worker calls it again. A signal without a handler terminates the
process, and a signal that is sent while it is pending is merged with the pending one. No call
fails. The mutexes belong to the worker alone and are free whenever it locks one; they and the
counters, which are only printed, have no state here.

`HandlerModel` has the same program up to the moment when the signals can be received, for any
number of threads; here the handlers and the worker are made of steps.
-/

namespace OpenPosix.Signals.Shutdown

open Interleaving

/-- `SIGUSR1` and `SIGUSR2`. A signal also names its sender, its handler and its semaphore. -/
inductive Sig
  | usr1
  | usr2
  deriving DecidableEq, Repr

instance : Fintype Sig := ⟨{.usr1, .usr2}, fun sig ↦ by cases sig <;> decide⟩

/-- The points of `threaded`. `interrupted` is the return of `sem_wait` with `EINTR`. -/
inductive WorkerPoint
  | unborn
  | sigaction (sig : Sig)
  | attrInit (i : ℕ)
  | setType (i : ℕ)
  | mutexInit (i : ℕ)
  | test
  | lock (i : ℕ)
  | unlock (i : ℕ)
  | lockCount
  | count
  | unlockCount
  | attrDestroy (i : ℕ)
  | mutexDestroy (i : ℕ)
  | semWait
  | interrupted
  | returned
  deriving DecidableEq, Repr

inductive HandlerPoint
  | idle
  | entered
  | posted
  deriving DecidableEq, Repr

inductive SenderPoint
  | unborn
  | test
  | wait
  | count
  | kill
  | returned
  deriving DecidableEq, Repr

/-- The points of `main`, from the creation of the worker on. -/
inductive MainPoint
  | createWork
  | createSig (sig : Sig)
  | sleep
  | stop
  | joinSig (sig : Sig)
  | post
  | joinWork
  deriving DecidableEq, Repr

/-- Whether the process runs, was terminated by a signal, or has ended with `PASSED`. -/
inductive Status
  | running
  | terminated (sig : Sig)
  | passed
  deriving DecidableEq, Repr

/-- A step of `main`, of the worker or of the handler on top of it, or of a sender, and the entry of
a handler, which may make `sem_wait` fail. -/
inductive Move
  | main
  | worker
  | handler
  | sender (sig : Sig)
  | deliver (sig : Sig) (eintr : Bool)
  deriving DecidableEq, Repr

/-- The shared data, the signals, and where everybody is. `stack` lists the handlers that have been
entered and have not returned, the last one first. -/
structure State where
  status : Status
  main : MainPoint
  worker : WorkerPoint
  handler : Sig → HandlerPoint
  stack : List Sig
  sender : Sig → SenderPoint
  installed : Sig → Bool
  pending : Sig → Bool
  sem : Sig → ℕ
  semsync : ℕ
  doIt : Bool

def main (s : State) : Option State :=
  match s.main with
  | .createWork => some { s with main := .createSig .usr1, worker := .sigaction .usr1 }
  | .createSig sig =>
    some { s with
      main := match sig with
        | .usr1 => .createSig .usr2
        | .usr2 => .sleep
      sender := Function.update s.sender sig .test }
  | .sleep => some { s with main := .stop }
  | .stop => some { s with main := .joinSig .usr1, doIt := false }
  | .joinSig sig =>
    if s.sender sig = .returned then
      some { s with
        main := match sig with
          | .usr1 => .joinSig .usr2
          | .usr2 => .post }
    else
      none
  | .post => some { s with main := .joinWork, semsync := semPost s.semsync }
  | .joinWork => if s.worker = .returned then some { s with status := .passed } else none

/-- A loop of the worker over an array: the next index, or what follows the loop. -/
def loop (size : ℕ) (point : ℕ → WorkerPoint) (after : WorkerPoint) (i : ℕ) : WorkerPoint :=
  if i + 1 < size then point (i + 1) else after

def threaded (s : State) : Option State :=
  match s.worker with
  | .unborn => none
  | .sigaction sig =>
    some { s with
      worker := match sig with
        | .usr1 => .sigaction .usr2
        | .usr2 => .attrInit 0
      installed := Function.update s.installed sig true }
  | .attrInit i => some { s with worker := loop 4 .attrInit (.setType 0) i }
  | .setType i => some { s with worker := loop 4 .setType (.mutexInit 0) i }
  | .mutexInit i => some { s with worker := loop 5 .mutexInit .test i }
  | .test => some { s with worker := if s.doIt then .lock 0 else .attrDestroy 0 }
  | .lock i => some { s with worker := .unlock i }
  | .unlock i => some { s with worker := loop 5 .lock .lockCount i }
  | .lockCount => some { s with worker := .count }
  | .count => some { s with worker := .unlockCount }
  | .unlockCount => some { s with worker := .test }
  | .attrDestroy i => some { s with worker := loop 4 .attrDestroy (.mutexDestroy 0) i }
  | .mutexDestroy i => some { s with worker := loop 5 .mutexDestroy .semWait i }
  | .semWait =>
    (Interleaving.semWait s.semsync).map fun value ↦
      { s with worker := .returned, semsync := value }
  | .interrupted => some { s with worker := .semWait }
  | .returned => none

/-- The next step of a handler: it posts its semaphore, and then returns. -/
def sighdl (s : State) (sig : Sig) (rest : List Sig) : Option State :=
  match s.handler sig with
  | .idle => none
  | .entered =>
    some { s with
      handler := Function.update s.handler sig .posted
      sem := Function.update s.sem sig (semPost (s.sem sig)) }
  | .posted => some { s with handler := Function.update s.handler sig .idle, stack := rest }

def sendsig (s : State) (sig : Sig) : Option State :=
  match s.sender sig with
  | .unborn => none
  | .test =>
    some { s with sender := Function.update s.sender sig (if s.doIt then .wait else .returned) }
  | .wait =>
    (Interleaving.semWait (s.sem sig)).map fun value ↦
      { s with
        sender := Function.update s.sender sig .count
        sem := Function.update s.sem sig value }
  | .count => some { s with sender := Function.update s.sender sig .kill }
  | .kill =>
    some { s with
      sender := Function.update s.sender sig .test
      pending := Function.update s.pending sig true }
  | .returned => none

/-- A pending signal is delivered to the worker: its handler is entered, or the process ends. -/
def deliver (s : State) (sig : Sig) (eintr : Bool) : Option State :=
  if s.pending sig ∧ s.handler sig = .idle ∧ s.worker ≠ .unborn ∧ s.worker ≠ .returned ∧
      (eintr → s.worker = .semWait ∧ s.stack = []) then
    if s.installed sig then
      some { s with
        worker := if eintr then .interrupted else s.worker
        pending := Function.update s.pending sig false
        handler := Function.update s.handler sig .entered
        stack := sig :: s.stack }
    else
      some { s with status := .terminated sig }
  else
    none

def next (s : State) (move : Move) : Option State :=
  if s.status = .running then
    match move with
    | .main => main s
    | .worker => if s.stack = [] then threaded s else none
    | .handler =>
      match s.stack with
      | [] => none
      | sig :: rest => sighdl s sig rest
    | .sender sig => sendsig s sig
    | .deliver sig eintr => deliver s sig eintr
  else
    none

/-- The start of `main`, after the semaphores are initialised. -/
def start : State where
  status := .running
  main := .createWork
  worker := .unborn
  handler := fun _ ↦ .idle
  stack := []
  sender := fun _ ↦ .unborn
  installed := fun _ ↦ false
  pending := fun _ ↦ false
  sem := fun _ ↦ 1
  semsync := 0
  doIt := true

def program : System State Move where
  Initial := fun s ↦ s = start
  next := next

/-! ### What is observed -/

/-- The step sends a signal. -/
def sends : State × Move → Bool
  | (s, .sender sig) => s.sender sig = .kill
  | _ => false

/-- No signal is sent before both handlers are installed. -/
def HandlersFirst (trace : List (State × Move)) : Prop :=
  ∀ step ∈ trace, sends step = true → ∀ sig, step.1.installed sig = true

/-- The handler has been entered and has not posted its semaphore. -/
def HandlerPoint.unposted : HandlerPoint → Bool
  | .entered => true
  | _ => false

/-- The sender is between its return from `sem_wait` and its `pthread_kill`. -/
def SenderPoint.carries : SenderPoint → Bool
  | .count | .kill => true
  | _ => false

/-- The value of the semaphore of a signal, and whether the signal is pending, its handler is going
to post the semaphore, or its sender has taken the unit. -/
def State.tokens (s : State) (sig : Sig) : ℕ :=
  s.sem sig + (s.pending sig).toNat + (s.handler sig).unposted.toNat +
    (s.sender sig).carries.toNat

/-- The senders and the worker have returned. -/
def State.Finished (s : State) : Prop := (∀ sig, s.sender sig = .returned) ∧ s.worker = .returned

end OpenPosix.Signals.Shutdown

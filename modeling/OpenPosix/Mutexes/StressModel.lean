import OpenPosix.Interleaving.Monitor
import OpenPosix.Interleaving.Semaphore
import OpenPosix.Interleaving.System

/-!
# Locking under a stream of signals

`stress/threads/pthread_mutex_lock/stress.c`. The process has a number of cells. In each cell nine
workers lock and unlock one mutex, each with its own call, and check with `control` that nobody else
owns it; a tenth thread, `sigthr`, sends `SIGUSR2` to the workers in turn. It waits for a semaphore
before each signal, and the handler of the signal posts it. `SIGUSR1` stops the process: its handler
clears `do_it`, the workers then wait for `sigthr` to say that it sends no more signals, and `main`
joins all threads.

A step is one call or one access to the shared data. The handler of `SIGUSR2` runs on top of the
code of a worker, which goes on when the handler returns, and a signal that is sent meanwhile stays
pending. There is one `SIGUSR1`, and any thread may take it; the handlers are installed without
`SA_RESTART`, and a thread that takes it while it is blocked in `sem_wait` returns from that call
with `EINTR`. No call fails for another reason, except that `pthread_kill` fails for a thread that
does not exist or has returned, and that a locked mutex cannot be destroyed.

`*loc++` in `control` moves the pointer and not the value, so that `*loc` is then the byte behind
the variable of the caller. It has any value at each call, and nobody else writes to it. The traces
and the counters that are only printed are left out.
-/

namespace OpenPosix.Mutexes.Stress

open Interleaving

/-- The points of the handler `sighdl`: it does not run, it has to post the semaphore, or it has
posted it. -/
inductive HandlerPoint
  | idle
  | entered
  | posted
  deriving DecidableEq, Repr

/-- The points of a worker: its start up to `acquire`, the calls of the mutex with `control` between
them, the test of `do_it`, and the loop of `waitsigend`. -/
inductive WorkerPoint
  | unborn
  | setspecific
  | lockT
  | incrT
  | unlockT
  | acquire
  | check
  | write
  | recheck
  | reset
  | unlock
  | test
  | spin
  | returned
  | failed
  deriving DecidableEq, Repr

/-- A worker: its point, the byte that `control` works with, whether `SIGUSR2` is pending on it, and
its handler. -/
structure Worker where
  point : WorkerPoint
  loc : BitVec 8
  pending : Bool
  handler : HandlerPoint
  deriving DecidableEq

/-- The points of `sigthr`, with its variable `i`. It is `blocked` once it has called `sem_wait` and
has found the semaphore at zero. -/
inductive SigPoint
  | unborn
  | lockT
  | readT
  | unlockT (i : ℕ)
  | test (i : ℕ)
  | wait (i : ℕ)
  | blocked (i : ℕ)
  | kill (i : ℕ)
  | setOk
  | returned
  | unresolved
  deriving DecidableEq, Repr

inductive CellThread
  | sigthr
  | worker (j : Fin 9)
  deriving DecidableEq, Repr

/-- `cell_t`, and where its threads are. -/
structure Cell where
  sigthr : SigPoint
  worker : Fin 9 → Worker
  mtx : Option (Fin 9)
  ctrl : BitVec 8
  sigok : Bool
  semsig : ℕ
  tcnt : ℕ
  tmtx : Option CellThread

/-- The function that a worker locks the mutex with. -/
inductive LockCall
  | lock
  | timedlock
  | trylock
  deriving DecidableEq, Repr

def WorkerPoint.keySet : WorkerPoint → Bool
  | .unborn | .setspecific => false
  | _ => true

def WorkerPoint.alive : WorkerPoint → Bool
  | .unborn | .returned => false
  | _ => true

def SigPoint.alive : SigPoint → Bool
  | .unborn | .returned => false
  | _ => true

def Cell.put (c : Cell) (j : Fin 9) (w : Worker) : Cell :=
  { c with worker := Function.update c.worker j w }

def Cell.goto (c : Cell) (j : Fin 9) (point : WorkerPoint) : Cell :=
  c.put j { c.worker j with point := point }

/-- The worker that `threads[i % 9 + 1]` stands for. -/
def target (i : ℕ) : Fin 9 := ⟨i % 9, Nat.mod_lt i (by decide)⟩

def sigthr (doIt : Bool) (c : Cell) : Option Cell :=
  match c.sigthr with
  | .unborn => none
  | .lockT => (mutexLock c.tmtx .sigthr).map fun owner ↦ { c with sigthr := .readT, tmtx := owner }
  | .readT => some { c with sigthr := .unlockT c.tcnt }
  | .unlockT i => some { c with sigthr := if i < 9 then .lockT else .test i, tmtx := none }
  | .test i => some { c with sigthr := if doIt then .wait i else .setOk }
  | .wait i =>
    match semWait c.semsig with
    | some rest => some { c with sigthr := .kill i, semsig := rest }
    | none => some { c with sigthr := .blocked i }
  | .blocked i => (semWait c.semsig).map fun rest ↦ { c with sigthr := .kill i, semsig := rest }
  | .kill i =>
    if (c.worker (target i)).point.alive then
      some { c.put (target i) { c.worker (target i) with pending := true } with
        sigthr := .test (i % 9 + 1) }
    else
      some { c with sigthr := .unresolved }
  | .setOk => some { c with sigthr := .returned, sigok := true }
  | .returned => none
  | .unresolved => none

/-- `control` avoids two values for its next call. -/
def avoid (loc : BitVec 8) : BitVec 8 :=
  let loc := if loc = 120#8 then -120#8 else loc
  if loc = -1#8 then 1#8 else loc

/-- The next step of a worker that locks the mutex with the given call, other than the assignment of
`control`. A call with a time limit that expires, and one that finds the mutex locked, are made
again. -/
def workerthr (call : LockCall) (doIt : Bool) (c : Cell) (j : Fin 9) : Option Cell :=
  match (c.worker j).point with
  | .unborn => none
  | .setspecific => some (c.goto j .lockT)
  | .lockT =>
    (mutexLock c.tmtx (.worker j)).map fun owner ↦ { c.goto j .incrT with tmtx := owner }
  | .incrT => some { c.goto j .unlockT with tcnt := c.tcnt + 1 }
  | .unlockT => some { c.goto j .acquire with tmtx := none }
  | .acquire =>
    match call with
    | .lock => (mutexLock c.mtx j).map fun owner ↦ { c.goto j .check with mtx := owner }
    | .timedlock | .trylock =>
      match mutexLock c.mtx j with
      | some owner => some { c.goto j .check with mtx := owner }
      | none => some c
  | .check => some (c.goto j (if c.ctrl = 0#8 then .write else .failed))
  | .write => none
  | .recheck => some (c.goto j (if c.ctrl = (c.worker j).loc then .reset else .failed))
  | .reset =>
    some { c.put j { c.worker j with point := .unlock, loc := avoid (c.worker j).loc } with
      ctrl := 0#8 }
  | .unlock => some { c.goto j .test with mtx := none }
  | .test => some (c.goto j (if doIt then .acquire else .spin))
  | .spin => some (if c.sigok then c.goto j .returned else c)
  | .returned => none
  | .failed => none

def lockthr : Bool → Cell → Fin 9 → Option Cell := workerthr .lock

def timedlockthr : Bool → Cell → Fin 9 → Option Cell := workerthr .timedlock

def trylockthr : Bool → Cell → Fin 9 → Option Cell := workerthr .trylock

/-- The next step of a worker, which runs the function that `cell_init` has created it with: the
first five run `lockthr`, the next two `timedlockthr` and the last two `trylockthr`. -/
def worker (doIt : Bool) (c : Cell) (j : Fin 9) : Option Cell :=
  if j.val < 5 then lockthr doIt c j
  else if j.val < 7 then timedlockthr doIt c j
  else trylockthr doIt c j

/-- The assignment of `control`, with the byte that `*loc` stands for. -/
def control (c : Cell) (j : Fin 9) (loc : BitVec 8) : Option Cell :=
  if (c.worker j).point = .write then
    some { c.put j { c.worker j with point := .recheck, loc := loc } with ctrl := loc }
  else
    none

/-- A worker takes the pending `SIGUSR2`, unless its handler runs. -/
def deliver (c : Cell) (j : Fin 9) : Option Cell :=
  if (c.worker j).pending ∧ (c.worker j).handler = .idle ∧ (c.worker j).point.alive then
    some (c.put j { c.worker j with pending := false, handler := .entered })
  else
    none

/-- The handler finds the cell in the key of the thread, posts the semaphore and returns. -/
def sighdl (c : Cell) (j : Fin 9) : Option Cell :=
  match (c.worker j).handler with
  | .idle => none
  | .entered =>
    if (c.worker j).point.keySet then
      some { c.put j { c.worker j with handler := .posted } with semsig := semPost c.semsig }
    else
      none
  | .posted => some (c.put j { c.worker j with handler := .idle })

inductive CellMove
  | sigthr
  | worker (j : Fin 9)
  | control (j : Fin 9) (loc : BitVec 8)
  | deliver (j : Fin 9)
  | sighdl (j : Fin 9)
  deriving DecidableEq

/-- A step in a cell. The code of a worker stands still while its handler runs. -/
def cellNext (doIt : Bool) (c : Cell) : CellMove → Option Cell
  | .sigthr => sigthr doIt c
  | .worker j => if (c.worker j).handler = .idle then worker doIt c j else none
  | .control j loc => if (c.worker j).handler = .idle then control c j loc else none
  | .deliver j => deliver c j
  | .sighdl j => sighdl c j

/-- A thread of the cell has left the process with an error. -/
def Cell.exited (c : Cell) : Prop :=
  c.sigthr = .unresolved ∨ ∃ j, (c.worker j).point = .failed

instance (c : Cell) : Decidable c.exited := inferInstanceAs (Decidable (_ ∨ _))

/-- The points of `main`: `cell_init` for the cells in turn, the loop that waits for the signal, and
`cell_fini` for the cells in turn. -/
inductive MainPoint (k : ℕ)
  | init (rest : List (Fin k))
  | create (c : Fin k) (js : List (Fin 9)) (rest : List (Fin k))
  | post (c : Fin k) (rest : List (Fin k))
  | yield
  | fini (rest : List (Fin k))
  | join (c : Fin k) (js : List (Fin 9)) (rest : List (Fin k))
  | destroy (c : Fin k) (rest : List (Fin k))
  | ended
  | failed
  deriving DecidableEq, Repr

/-- The state of the process: `main`, the cells and `do_it`. -/
structure State (k : ℕ) where
  main : MainPoint k
  cell : Fin k → Cell
  doIt : Bool

/-- The thread that takes `SIGUSR1`. -/
inductive Taker (k : ℕ)
  | main
  | sigthr (c : Fin k)
  | worker (c : Fin k) (j : Fin 9)
  deriving DecidableEq, Repr

/-- A step of `main`, a step in a cell, or the handler of `SIGUSR1`. -/
inductive Move (k : ℕ)
  | main
  | cell (c : Fin k) (move : CellMove)
  | sigusr1 (taker : Taker k)
  deriving DecidableEq

variable {k : ℕ}

def State.put (s : State k) (c : Fin k) (cell : Cell) : State k :=
  { s with cell := Function.update s.cell c cell }

def Worker.unborn : Worker := ⟨.unborn, 0#8, false, .idle⟩

/-- A cell without threads, with the values that `cell_init` gives to the variables. -/
def Cell.blank : Cell where
  sigthr := .unborn
  worker := fun _ ↦ .unborn
  mtx := none
  ctrl := 0#8
  sigok := false
  semsig := 0
  tcnt := 0
  tmtx := none

def main (s : State k) : Option (State k) :=
  match s.main with
  | .init (c :: rest) =>
    some { s.put c { Cell.blank with sigthr := .lockT } with
      main := .create c (List.finRange 9) rest }
  | .init [] => some { s with main := .yield }
  | .create c (j :: js) rest =>
    some { s.put c ((s.cell c).goto j .setspecific) with main := .create c js rest }
  | .create c [] rest => some { s with main := .post c rest }
  | .post c rest =>
    some { s.put c { s.cell c with semsig := semPost (s.cell c).semsig } with main := .init rest }
  | .yield => some { s with main := if s.doIt then .yield else .fini (List.finRange k) }
  | .fini (c :: rest) =>
    if (s.cell c).sigthr = .returned then
      some { s with main := .join c (List.finRange 9) rest }
    else
      none
  | .fini [] => some { s with main := .ended }
  | .join c (j :: js) rest =>
    if ((s.cell c).worker j).point = .returned then
      some { s with main := .join c js rest }
    else
      none
  | .join c [] rest => some { s with main := .destroy c rest }
  | .destroy c rest => some { s with main := if (s.cell c).mtx = none then .fini rest else .failed }
  | .ended => none
  | .failed => none

/-- `sem_wait` is interrupted: the thread is blocked, and the semaphore is at zero. A post releases
the thread that is blocked, so that a signal which comes after it no longer interrupts the call. -/
def Cell.interrupts (c : Cell) : Bool :=
  match c.sigthr with
  | .blocked _ => decide (c.semsig = 0)
  | _ => false

/-- A thread takes `SIGUSR1` and runs `globalsig`. -/
def globalsig (s : State k) : Taker k → Option (State k)
  | .main => some { s with doIt := false }
  | .sigthr c =>
    if (s.cell c).sigthr.alive then
      if (s.cell c).interrupts then
        some { s.put c { s.cell c with sigthr := .unresolved } with doIt := false }
      else
        some { s with doIt := false }
    else
      none
  | .worker c j =>
    if ((s.cell c).worker j).point.alive then some { s with doIt := false } else none

/-- Some thread has left the process with `UNRESOLVED` or `FAILED`. -/
def State.exited (s : State k) : Prop := s.main = .failed ∨ ∃ c, (s.cell c).exited

instance (s : State k) : Decidable s.exited := inferInstanceAs (Decidable (_ ∨ _))

/-- A step of the process, as long as no thread has left it. -/
def next (s : State k) (move : Move k) : Option (State k) :=
  if s.exited then none else
    match move with
    | .main => main s
    | .cell c move => (cellNext s.doIt (s.cell c) move).map (s.put c)
    | .sigusr1 taker => if s.doIt then globalsig s taker else none

/-- The call of `cell_init` for the first cell. -/
def start (k : ℕ) : State k where
  main := .init (List.finRange k)
  cell := fun _ ↦ .blank
  doIt := true

def program (k : ℕ) : System (State k) (Move k) where
  Initial := fun s ↦ s = start k
  next := next

/-- Unless it is another thread than `main` that takes `SIGUSR1`. -/
def Move.byMain : Move k → Bool
  | .sigusr1 .main => true
  | .sigusr1 _ => false
  | _ => true

end OpenPosix.Mutexes.Stress

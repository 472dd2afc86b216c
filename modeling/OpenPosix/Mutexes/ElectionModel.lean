import OpenPosix.Interleaving.Monitor
import OpenPosix.Interleaving.System

/-!
# The election of a child by `pthread_mutex_trylock`

`stress/threads/pthread_mutex_trylock/stress.c`. In every round `main` holds a mutex while it
creates the children, and then unlocks it and tries to lock it again until it finds it busy: a child
has got the mutex by `pthread_mutex_trylock`. That child and `main` meet at a barrier for two
threads. The child then clears `go_on`, which ends the loops of the other children, and unlocks the
mutex. When all children are joined the next round starts, with the next mutex of an array.

A step is one call or one access to `go_on` or `do_it`. The mutexes and the barrier are correct, and
all other calls succeed: `pthread_mutex_trylock` fails exactly if the mutex is held. The thread that
is released at the barrier is moved by the step of the one that completes it. The handler of the
signals that end the test, which clears `do_it`, is a move of its own. The `timer` thread, which
ends the test after two minutes without a round, and the attributes of the mutexes are left out.
-/

namespace OpenPosix.Mutexes.Election

open Interleaving

/-- The points of `threaded`. The loop reads `go_on` at `test`, if the mutex was busy, and the
condition after the loop reads it at `check`, which knows whether the mutex was acquired. -/
inductive ChildPoint
  | unborn
  | trylock
  | test
  | check (acquired : Bool)
  | barrier
  | waiting
  | clear
  | unlock
  | returned
  deriving DecidableEq, Repr

inductive MainPoint (n : ℕ)
  | loop
  | lock
  | setGoOn
  | create (rest : List (Fin n))
  | unlock
  | trylock
  | barrier
  | waiting
  | join (rest : List (Fin n))
  | next
  | ended
  deriving DecidableEq, Repr

/-- `main`, or one of the `NCHILDREN` children. -/
inductive Thread (n : ℕ)
  | main
  | child (k : Fin n)
  deriving DecidableEq, Repr

/-- A step of a thread, or the handler `sighdl`. -/
inductive Move (n : ℕ)
  | thread (t : Thread n)
  | stop
  deriving DecidableEq, Repr

/-- The shared data, the index of the mutex of the round, and where every thread is. A child that
was joined is `unborn` again. -/
structure State (n : ℕ) where
  i : ℕ
  main : MainPoint n
  child : Fin n → ChildPoint
  mtx : ℕ → Option (Thread n)
  goOn : Bool
  doIt : Bool

variable {n : ℕ}

def State.goto (s : State n) (k : Fin n) (point : ChildPoint) : State n :=
  { s with child := Function.update s.child k point }

def State.mainGoto (s : State n) (point : MainPoint n) : State n := { s with main := point }

/-- The mutex of the round gets another owner, or none. -/
def State.setMtx (s : State n) (owner : Option (Thread n)) : State n :=
  { s with mtx := Function.update s.mtx s.i owner }

/-- One for a child that waits at the barrier. -/
def ChildPoint.waits : ChildPoint → ℕ
  | .waiting => 1
  | _ => 0

def State.waiting (s : State n) : ℕ :=
  (if s.main = .waiting then 1 else 0) + total ChildPoint.waits s.child

/-- A child that waits at the barrier returns from it. -/
def ChildPoint.release : ChildPoint → ChildPoint
  | .waiting => .clear
  | point => point

/-- The joins, when `main` has passed the barrier. -/
def afterBarrier : MainPoint n := .join (List.finRange n)

/-- The threads that wait at the barrier return from it. -/
def State.release (s : State n) : State n :=
  { s with
    main := if s.main = .waiting then afterBarrier else s.main
    child := fun k ↦ (s.child k).release }

def threaded (s : State n) (k : Fin n) : Option (State n) :=
  match s.child k with
  | .unborn => none
  | .trylock =>
    if s.mtx s.i = none then some ((s.setMtx (some (.child k))).goto k (.check true))
    else some (s.goto k .test)
  | .test => some (s.goto k (if s.goOn then .trylock else .check false))
  | .check acquired =>
    if s.goOn && acquired then some (s.goto k .barrier)
    else some (s.goto k (if acquired then .unlock else .returned))
  | .barrier =>
    if Completes 2 s.waiting then some (s.release.goto k .clear) else some (s.goto k .waiting)
  | .waiting => none
  | .clear => some ({ s with goOn := false }.goto k .unlock)
  | .unlock => some ((s.setMtx none).goto k .returned)
  | .returned => none

/-- The next step of `main`; `nscenar` is the number of scenarios, each with a mutex, to which two
more mutexes are added. -/
def main (nscenar : ℕ) (s : State n) : Option (State n) :=
  match s.main with
  | .loop => some (s.mainGoto (if s.doIt then .lock else .ended))
  | .lock => (mutexLock (s.mtx s.i) .main).map fun owner ↦ (s.setMtx owner).mainGoto .setGoOn
  | .setGoOn => some { s with goOn := true, main := .create (List.finRange n) }
  | .create (k :: rest) => some ((s.goto k .trylock).mainGoto (.create rest))
  | .create [] => some (s.mainGoto .unlock)
  | .unlock => some ((s.setMtx none).mainGoto .trylock)
  | .trylock =>
    if s.mtx s.i = none then some ((s.setMtx (some .main)).mainGoto .unlock)
    else some (s.mainGoto .barrier)
  | .barrier =>
    if Completes 2 s.waiting then some (s.release.mainGoto afterBarrier)
    else some (s.mainGoto .waiting)
  | .waiting => none
  | .join (k :: rest) =>
    if s.child k = .returned then some ((s.goto k .unborn).mainGoto (.join rest)) else none
  | .join [] => some (s.mainGoto .next)
  | .next => some { s with i := (s.i + 1) % (nscenar + 2), main := .loop }
  | .ended => none

def next (nscenar : ℕ) (s : State n) : Move n → Option (State n)
  | .thread .main => main nscenar s
  | .thread (.child k) => threaded s k
  | .stop => some { s with doIt := false }

def start (n : ℕ) : State n where
  i := 0
  main := .loop
  child := fun _ ↦ .unborn
  mtx := fun _ ↦ none
  goOn := false
  doIt := true

def program (n nscenar : ℕ) : System (State n) (Move n) where
  Initial := fun s ↦ s = start n
  next := next nscenar

/-! ### What a run does at the barrier -/

/-- A child that has called `pthread_barrier_wait` or is about to. -/
def ChildPoint.atBarrier : ChildPoint → Bool
  | .barrier | .waiting => true
  | _ => false

/-- The thread is about to call `pthread_barrier_wait`. -/
def State.arrives (s : State n) : Thread n → Bool
  | .main => decide (s.main = .barrier)
  | .child k => decide (s.child k = .barrier)

def completion : State n × Move n → Bool
  | (s, .thread t) => s.arrives t && decide (Completes 2 s.waiting)
  | (_, .stop) => false

/-- The children that pass the barrier with a step that completes it: those that wait, and the child
that takes the step. -/
def State.childrenPassing (s : State n) : Thread n → ℕ
  | .main => total ChildPoint.waits s.child
  | .child _ => total ChildPoint.waits s.child + 1

/-- Whether `main` passes the barrier with a step that completes it. -/
def State.mainPasses (s : State n) : Thread n → Bool
  | .main => true
  | .child _ => decide (s.main = .waiting)

def roundEnd : State n × Move n → Bool
  | (s, .thread .main) => decide (s.main = .next)
  | _ => false

end OpenPosix.Mutexes.Election

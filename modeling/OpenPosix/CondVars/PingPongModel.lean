import OpenPosix.Interleaving.Monitor
import OpenPosix.Interleaving.System

/-!
# Two threads that wake each other

`stress/threads/pthread_cond_timedwait/stress1.c`, and `pthread_cond_wait/stress1.c`, which has the
same protocol. There is a number of cells, each with a mutex and a condition variable. `threaded_A`
of a cell locks the mutex, starts `threaded_B` as a thread or as a process, and as long as the
boolean is 0 waits for the condition variable and then signals it. `threaded_B` broadcasts it and
then waits. When it has seen the boolean set it broadcasts once more. The boolean is shared by all
cells and set by the handler of `SIGUSR1`, which takes no mutex and wakes nobody.

A step is one call or one access to the boolean. Before it waits, a thread reads the clock to
compute its timeout in the one program and sets the alarm in the other (`arm`); no timeout expires
and no alarm goes off. A wake-up without a signal is a move of its own, as is the run of the
handler. The data of the cells is in a file of zeros that is mapped, or else in a local variable of
`main` that is not initialised, so the boolean may be 1 at the start. The attributes of the
scenarios, calls that fail, and what `main` destroys at the end are left out.
-/

namespace OpenPosix.CondVars.PingPong

open Interleaving

inductive Side
  | A
  | B
  deriving DecidableEq, Repr

/-- The points of `threaded_A`. A `woken` thread needs the mutex to return from the wait. -/
inductive PointA
  | unborn
  | lock
  | create
  | test
  | arm
  | wait
  | blocked
  | woken
  | signal
  | unlock
  | join
  | returned
  deriving DecidableEq, Repr

/-- The points of `threaded_B`. The last broadcast is the one behind its loop. -/
inductive PointB
  | unborn
  | lock
  | test
  | broadcast
  | arm
  | wait
  | blocked
  | woken
  | lastBroadcast
  | unlock
  | exited
  deriving DecidableEq, Repr

/-- `struct childdata` without the constants, and where the two threads of the cell are. -/
structure Cell where
  a : PointA
  b : PointB
  mtx : Option Side
  deriving DecidableEq, Repr

/-- The cells, the boolean, and what `main` has left to create and to join. -/
structure State (n : ℕ) where
  main : Launcher (Fin n)
  cell : Fin n → Cell
  boolean : Bool

/-- A step of `main` or of a thread, a wake-up without a signal, or the handler. -/
inductive Move (n : ℕ)
  | main
  | thread (i : Fin n) (side : Side)
  | spurious (i : Fin n) (side : Side)
  | sighdl
  deriving DecidableEq, Repr

/-! ### One cell -/

def PointA.wake : PointA → PointA
  | .blocked => .woken
  | point => point

def PointB.wake : PointB → PointB
  | .blocked => .woken
  | point => point

/-- `pthread_cond_broadcast`, and `pthread_cond_signal` as well: only two threads use the condition
variable and the caller is not blocked, so that at most one thread is. -/
def Cell.condWake (c : Cell) : Cell := { c with a := c.a.wake, b := c.b.wake }

def threadedA (boolean : Bool) (c : Cell) : Option Cell :=
  match c.a with
  | .unborn => none
  | .lock => (mutexLock c.mtx .A).map fun mtx ↦ { c with a := .create, mtx := mtx }
  | .create => some { c with a := .test, b := .lock }
  | .test => some { c with a := if boolean then .unlock else .arm }
  | .arm => some { c with a := .wait }
  | .wait => some { c with a := .blocked, mtx := none }
  | .blocked => none
  | .woken => (mutexLock c.mtx .A).map fun mtx ↦ { c with a := .signal, mtx := mtx }
  | .signal => some { c.condWake with a := .test }
  | .unlock => some { c with a := .join, mtx := none }
  | .join => if c.b = .exited then some { c with a := .returned } else none
  | .returned => none

def threadedB (boolean : Bool) (c : Cell) : Option Cell :=
  match c.b with
  | .unborn => none
  | .lock => (mutexLock c.mtx .B).map fun mtx ↦ { c with b := .test, mtx := mtx }
  | .test => some { c with b := if boolean then .lastBroadcast else .broadcast }
  | .broadcast => some { c.condWake with b := .arm }
  | .arm => some { c with b := .wait }
  | .wait => some { c with b := .blocked, mtx := none }
  | .blocked => none
  | .woken => (mutexLock c.mtx .B).map fun mtx ↦ { c with b := .test, mtx := mtx }
  | .lastBroadcast => some { c.condWake with b := .unlock }
  | .unlock => some { c with b := .exited, mtx := none }
  | .exited => none

def threaded (boolean : Bool) : Side → Cell → Option Cell
  | .A => threadedA boolean
  | .B => threadedB boolean

/-- A blocked thread is woken without a signal. -/
def Cell.spurious (c : Cell) : Side → Option Cell
  | .A => if c.a = .blocked then some { c with a := .woken } else none
  | .B => if c.b = .blocked then some { c with b := .woken } else none

/-! ### The program -/

variable {n : ℕ}

def main (s : State n) : Option (State n) :=
  match s.main.creates with
  | i :: rest =>
    some { s with
      main := ⟨rest, s.main.joins⟩
      cell := Function.update s.cell i { s.cell i with a := .lock } }
  | [] =>
    match s.main.joins with
    | i :: rest => if (s.cell i).a = .returned then some { s with main := ⟨[], rest⟩ } else none
    | [] => none

def State.onCell (s : State n) (i : Fin n) (f : Cell → Option Cell) : Option (State n) :=
  (f (s.cell i)).map fun c ↦ { s with cell := Function.update s.cell i c }

/-- `wakes` says whether threads are woken without a signal. -/
def next (wakes : Bool) (s : State n) : Move n → Option (State n)
  | .main => main s
  | .thread i side => s.onCell i (threaded s.boolean side)
  | .spurious i side => if wakes then s.onCell i fun c ↦ c.spurious side else none
  | .sighdl => some { s with boolean := true }

def start (n : ℕ) (boolean : Bool) : State n where
  main := ⟨List.finRange n, List.finRange n⟩
  cell := fun _ ↦ ⟨.unborn, .unborn, none⟩
  boolean := boolean

def program (n : ℕ) (wakes : Bool) : System (State n) (Move n) where
  Initial := fun s ↦ ∃ boolean, s = start n boolean
  next := next wakes

/-- `main` has joined all threads. -/
def State.Over (s : State n) : Prop := s.main = ⟨[], []⟩

end OpenPosix.CondVars.PingPong

import OpenPosix.Interleaving.Monitor
import OpenPosix.Interleaving.System

/-!
# Destroying a condition variable after a broadcast

`pthread_cond_destroy/2-1.c` of the conformance tests. In each scenario the children wait twice for
the condition variable `td->cnd`, with the mutex, the counter and the predicate of the pass. In the
first pass `main` waits until all of them are counted, sets the predicate, broadcasts, and destroys
the condition variable at once, while the children are still on their way out of the wait. It
overwrites the variable, waits until the counter is back at zero, and initialises the variable again
for the second pass. The second mutex is held by `main` from the start of the scenario until then,
so that no child can get ahead of it. In the second pass the variable is again destroyed right after
the broadcast, and then the children are joined.

The two passes of `child` have the same code, up to the mutex, the counter and the predicate they
use; the first one counts down again at its end. A step is one call or one access to the shared
data, and a spurious wake-up is a move of its own. Whether the condition variable is initialised is
a flag that no step tests: the calls on it are undefined when it is not. All children are created
and no timed wait expires, so that every wait returns zero; the `timer` thread, the attributes of
the scenarios and the exit codes of the children are left out.
-/

namespace OpenPosix.CondVars.Destroy

open Interleaving

inductive Pass
  | one
  | two
  deriving DecidableEq, Repr

inductive ChildPoint
  | unborn
  | lock (p : Pass)
  | incr (p : Pass)
  | wait (p : Pass)
  | blocked (p : Pass)
  | woken (p : Pass)
  | test (p : Pass)
  | decr
  | unlock (p : Pass)
  | returned
  deriving DecidableEq, Repr

/-- The points of `main`: in each pass the loop that waits for the counter, the broadcast and the
call of `pthread_cond_destroy`; between the passes the loop that waits until the children have left
their first wait, and `pthread_cond_init`; at the end the joins and the last destruction. -/
inductive MainPoint (n : ℕ)
  | setup
  | create (rest : List (Fin n))
  | lock (p : Pass)
  | poll (p : Pass)
  | setPredicate (p : Pass)
  | broadcast (p : Pass)
  | unlock (p : Pass)
  | destroy (p : Pass)
  | drainLock
  | drain
  | drainUnlock
  | init
  | join (rest : List (Fin n))
  | cleanup
  | exited
  deriving DecidableEq, Repr

/-- `main`, or one of the `NTHREADS` children. -/
inductive Thread (n : ℕ)
  | main
  | child (i : Fin n)
  deriving DecidableEq, Repr

/-- A step of a thread, or a spurious wake-up. -/
inductive Move (n : ℕ)
  | thread (t : Thread n)
  | spurious (i : Fin n)
  deriving DecidableEq, Repr

/-- The shared data, and where every thread is; `cnd` says whether the condition variable is
initialised. -/
structure State (n : ℕ) where
  scenar : ℕ
  main : MainPoint n
  child : Fin n → ChildPoint
  mtx : Pass → Option (Thread n)
  count : Pass → ℕ
  predicate : Pass → Bool
  cnd : Bool

variable {n : ℕ}

def ChildPoint.isBlocked : ChildPoint → Bool
  | .blocked _ => true
  | _ => false

/-- A blocked child is unblocked, and needs its mutex to return from the wait. -/
def ChildPoint.wake : ChildPoint → ChildPoint
  | .blocked p => .woken p
  | point => point

def State.goto (s : State n) (i : Fin n) (point : ChildPoint) : State n :=
  { s with child := Function.update s.child i point }

/-- The mutex of a pass gets another owner, or none. -/
def State.setMtx (s : State n) (p : Pass) (owner : Option (Thread n)) : State n :=
  { s with mtx := Function.update s.mtx p owner }

def State.setCount (s : State n) (p : Pass) (count : ℕ) : State n :=
  { s with count := Function.update s.count p count }

/-- What a child does when it has left the loop of a pass. -/
def Pass.afterLoop : Pass → ChildPoint
  | .one => .decr
  | .two => .unlock .two

/-- What a child does when it has released the mutex of a pass. -/
def Pass.afterUnlock : Pass → ChildPoint
  | .one => .lock .two
  | .two => .returned

def child (s : State n) (i : Fin n) : Option (State n) :=
  match s.child i with
  | .unborn => none
  | .lock p =>
    (mutexLock (s.mtx p) (.child i)).map fun owner ↦ (s.setMtx p owner).goto i (.incr p)
  | .incr p => some ((s.setCount p (s.count p + 1)).goto i (.wait p))
  | .wait p => some ((s.setMtx p none).goto i (.blocked p))
  | .blocked _ => none
  | .woken p =>
    (mutexLock (s.mtx p) (.child i)).map fun owner ↦ (s.setMtx p owner).goto i (.test p)
  | .test p => some (s.goto i (if s.predicate p then p.afterLoop else .wait p))
  | .decr => some ((s.setCount .one (s.count .one - 1)).goto i (.unlock .one))
  | .unlock p => some ((s.setMtx p none).goto i p.afterUnlock)
  | .returned => none

/-- What `main` does when it has destroyed the condition variable. -/
def afterDestroy : Pass → MainPoint n
  | .one => .drainLock
  | .two => .join (List.finRange n).reverse

def main (scenarios : ℕ) (s : State n) : Option (State n) :=
  match s.main with
  | .setup =>
    if s.scenar < scenarios then
      -- `mtx2` is locked right after its initialisation.
      some ⟨s.scenar, .create (List.finRange n), fun _ ↦ .unborn,
        Function.update (fun _ ↦ none) .two (some .main), fun _ ↦ 0, fun _ ↦ false, true⟩
    else
      some { s with main := .exited }
  | .create (i :: rest) => some ({ s with main := .create rest }.goto i (.lock .one))
  | .create [] => some { s with main := .lock .one }
  | .lock p =>
    (mutexLock (s.mtx p) .main).map fun owner ↦ { s.setMtx p owner with main := .poll p }
  | .poll p =>
    if s.count p < n then
      some { s.setMtx p none with main := .lock p }
    else
      some { s with main := .setPredicate p }
  | .setPredicate p =>
    some { s with predicate := Function.update s.predicate p true, main := .broadcast p }
  | .broadcast p =>
    some { s with child := wakeUp ChildPoint.wake Finset.univ s.child, main := .unlock p }
  | .unlock p => some { s.setMtx p none with main := .destroy p }
  | .destroy p => some { s with cnd := false, main := afterDestroy p }
  | .drainLock =>
    (mutexLock (s.mtx .one) .main).map fun owner ↦ { s.setMtx .one owner with main := .drain }
  | .drain =>
    if 0 < s.count .one then
      some { s.setMtx .one none with main := .drainLock }
    else
      some { s with main := .drainUnlock }
  | .drainUnlock => some { s.setMtx .one none with main := .init }
  | .init => some { s with cnd := true, main := .poll .two }
  | .join (i :: rest) => if s.child i = .returned then some { s with main := .join rest } else none
  | .join [] => some { s with main := .cleanup }
  | .cleanup => some { s with cnd := false, main := .setup, scenar := s.scenar + 1 }
  | .exited => none

/-- A wake-up without a broadcast. -/
def spurious (s : State n) (i : Fin n) : Option (State n) :=
  if (s.child i).isBlocked then some (s.goto i (s.child i).wake) else none

def start (n : ℕ) : State n :=
  ⟨0, .setup, fun _ ↦ .unborn, fun _ ↦ none, fun _ ↦ 0, fun _ ↦ false, false⟩

def program (n scenarios : ℕ) : System (State n) (Move n) where
  Initial := fun s ↦ s = start n
  next := fun s move ↦
    match move with
    | .thread .main => main scenarios s
    | .thread (.child i) => child s i
    | .spurious i => spurious s i

end OpenPosix.CondVars.Destroy

import OpenPosix.Interleaving.Monitor
import OpenPosix.Interleaving.System
import OpenPosix.Verdicts.ChildVerdicts

/-!
# The wake-up tests

`pthread_cond_signal/1-2.c`, `pthread_cond_broadcast/1-2.c` and `pthread_cond_broadcast/2-3.c` of
the conformance tests. For every scenario of a list, `main` creates children that wait for a
condition variable, half of them with a timeout, until `td->predicate` is set. When all of them
wait, `main` sets the predicate and wakes them: the broadcast tests wake all of them, and in the
signal test `main` signals once and every child signals again when it has left its loop. Then `main`
joins the children and goes on to the next scenario. It initialises `td->count`, the mutex and the
condition variable for every scenario, but not `td->predicate`.

A step is one call or one access to the shared data. The choices of the environment are moves of
their own: a spurious wake-up, and the expiry of a timed wait, which makes the wait return
`ETIMEDOUT` once it has the mutex again (`Config` says in which scenarios there can be such moves).
A move that signals carries the set of threads it wakes. `FAILED` in a child ends the process if the
children are threads; a child that is a process ends alone, with the mutex locked. The attributes of
the scenarios, the `timer` thread, printing and calls that fail are left out; the test of
`pthread_cond_broadcast/2-3.c` that a child owns the mutex is there, whatever the mutex type.
-/

namespace OpenPosix.CondVars.Wakeup

open Interleaving Verdicts

inductive Test
  | condSignal12
  | condBroadcast12
  | condBroadcast23
  deriving DecidableEq, Repr

/-- Their join loops. -/
def Test.program : Test → ChildVerdicts.Program
  | .condSignal12 => .condSignal12
  | .condBroadcast12 => .condBroadcast12
  | .condBroadcast23 => .condBroadcast23

/-- The points of `child`. `timed` is the variable of that name, and `expired` says that the wait
returns `ETIMEDOUT`. -/
inductive ChildPoint
  | unborn
  | lock
  | incr
  | wait (timed : Bool)
  | blocked (timed : Bool)
  | woken (timed expired : Bool)
  | test (timed expired : Bool)
  | failed
  | signal
  | own
  | unlock
  | returned (status : ℕ)
  deriving DecidableEq, Repr

/-- What a child does when it has left its loop. -/
def Test.afterLoop : Test → ChildPoint
  | .condSignal12 => .signal
  | .condBroadcast12 => .unlock
  | .condBroadcast23 => .own

/-- The points of `main`: the start of a scenario, the creation of the children that are left, the
loop that waits for `td->count`, the wake-up, and the joins that are left with the value of `ret`.
-/
inductive MainPoint (n : ℕ)
  | setup
  | create (rest : List (Fin n))
  | lock
  | poll
  | setPredicate
  | wake
  | release
  | join (rest : List (Fin n)) (ret : ℕ)
  | exited (code : ℕ)
  deriving DecidableEq, Repr

/-- A program and its environment: the number of scenarios, and for each of them the number of its
children and whether they are processes; the value of `td->predicate` at the start; and whether
there can be spurious wake-ups and timeouts in a scenario. No scenario has more than `n` children.
-/
structure Config (n : ℕ) where
  test : Test
  scenarios : ℕ
  children : ℕ → ℕ
  fork : ℕ → Bool
  predicate : Bool
  spurious : ℕ → Bool
  expires : ℕ → Bool
  children_pos : ∀ scenar, 0 < children scenar
  children_le : ∀ scenar, children scenar ≤ n

inductive Thread (n : ℕ)
  | main
  | child (i : Fin n)
  deriving DecidableEq, Repr

/-- What happens next: a step of `main` or of a child, which wakes a set of threads if it signals, a
spurious wake-up, or the expiry of a timed wait. -/
inductive Move (n : ℕ)
  | main (set : Finset (Fin n))
  | child (i : Fin n) (set : Finset (Fin n))
  | spurious (i : Fin n)
  | expire (i : Fin n)
  deriving DecidableEq

structure State (n : ℕ) where
  scenar : ℕ
  main : MainPoint n
  child : Fin n → ChildPoint
  mtx : Option (Thread n)
  count : ℕ
  predicate : Bool

variable {n : ℕ}

/-- The children of a scenario, in the order of their creation. -/
def Config.kids (c : Config n) (scenar : ℕ) : List (Fin n) :=
  (List.finRange n).take (c.children scenar)

def ChildPoint.isBlocked : ChildPoint → Bool
  | .blocked _ => true
  | _ => false

/-- A blocked child is unblocked, and needs the mutex to return from its wait. -/
def ChildPoint.wake : ChildPoint → ChildPoint
  | .blocked timed => .woken timed false
  | point => point

def State.goto (s : State n) (i : Fin n) (point : ChildPoint) : State n :=
  { s with child := Function.update s.child i point }

/-- `pthread_cond_signal`, which wakes a set of children. -/
def signal (s : State n) (set : Finset (Fin n)) : Option (State n) :=
  if Signals ChildPoint.isBlocked s.child set then
    some { s with child := wakeUp ChildPoint.wake set s.child }
  else none

def broadcast (s : State n) : State n :=
  { s with child := wakeUp ChildPoint.wake Finset.univ s.child }

def child (c : Config n) (s : State n) (i : Fin n) (set : Finset (Fin n)) : Option (State n) :=
  match s.child i with
  | .unborn => none
  | .lock => (mutexLock s.mtx (.child i)).map fun mtx ↦ { s with mtx := mtx }.goto i .incr
  | .incr =>
    some ({ s with count := s.count + 1 }.goto i (.wait (decide ((s.count + 1) % 2 = 1))))
  | .wait timed => some ({ s with mtx := none }.goto i (.blocked timed))
  | .blocked _ => none
  | .woken timed expired =>
    (mutexLock s.mtx (.child i)).map fun mtx ↦ { s with mtx := mtx }.goto i (.test timed expired)
  | .test timed expired =>
    if expired = false ∧ s.predicate = false then
      some (s.goto i (.wait timed))
    else
      some (s.goto i (if expired then .failed else c.test.afterLoop))
  | .failed =>
    if c.fork s.scenar then
      some (s.goto i (.returned ptsFail))
    else
      some { s with main := .exited ptsFail }
  | .signal => (signal s set).map fun s' ↦ s'.goto i .unlock
  | .own => some (s.goto i (if s.mtx = some (.child i) then .unlock else .failed))
  | .unlock => some ({ s with mtx := none }.goto i (.returned ptsPass))
  | .returned _ => none

def Config.joined (c : Config n) (scenar status : ℕ) : ChildVerdicts.Joined :=
  if c.fork scenar then .process (some (.exited status)) else .thread 0

def main (c : Config n) (s : State n) (set : Finset (Fin n)) : Option (State n) :=
  match s.main with
  | .setup =>
    if s.scenar < c.scenarios then
      some { s with main := .create (c.kids s.scenar), child := fun _ ↦ .unborn, mtx := none,
                    count := 0 }
    else
      some { s with main := .exited ptsPass }
  | .create (i :: rest) => some ({ s with main := .create rest }.goto i .lock)
  | .create [] => some { s with main := .lock }
  | .lock => (mutexLock s.mtx .main).map fun mtx ↦ { s with mtx := mtx, main := .poll }
  | .poll =>
    if s.count < c.children s.scenar then
      some { s with mtx := none, main := .lock }
    else
      some { s with main := .setPredicate }
  | .setPredicate => some { s with predicate := true, main := .wake }
  | .wake =>
    match c.test with
    | .condSignal12 => (signal s set).map fun s' ↦ { s' with main := .release }
    | _ => some { broadcast s with main := .release }
  | .release =>
    some { s with mtx := none, main := .join (c.test.program.joinOrder (c.kids s.scenar)) 0 }
  | .join (i :: rest) ret =>
    match s.child i with
    | .returned status =>
      match ChildVerdicts.join c.test.program ret (c.joined s.scenar status) with
      | .ok ret => some { s with main := .join rest ret }
      | .error code => some { s with main := .exited code }
    | _ => none
  | .join [] ret =>
    match ChildVerdicts.afterJoin ret with
    | .goesOn => some { s with main := .setup, scenar := s.scenar + 1 }
    | .exits code => some { s with main := .exited code }
  | .exited _ => none

def spurious (c : Config n) (s : State n) (i : Fin n) : Option (State n) :=
  if c.spurious s.scenar ∧ (s.child i).isBlocked then
    some (s.goto i (s.child i).wake)
  else none

def expire (c : Config n) (s : State n) (i : Fin n) : Option (State n) :=
  if c.expires s.scenar ∧ s.child i = .blocked true then
    some (s.goto i (.woken true true))
  else none

def MainPoint.isExited : MainPoint n → Bool
  | .exited _ => true
  | _ => false

/-- The start of `main`, with whatever `td->predicate` is at that time. -/
def start (c : Config n) : State n := ⟨0, .setup, fun _ ↦ .unborn, none, 0, c.predicate⟩

def program (c : Config n) : System (State n) (Move n) where
  Initial := fun s ↦ s = start c
  next := fun s move ↦
    if s.main.isExited then none
    else
      match move with
      | .main set => main c s set
      | .child i set => child c s i set
      | .spurious i => spurious c s i
      | .expire i => expire c s i

/-! ### Leaving the loop -/

/-- A move that takes a child out of its loop. -/
def LeavesLoop (s : State n) : Move n → Prop
  | .child i _ => ∃ timed expired, s.child i = .test timed expired ∧
      (expired = true ∨ s.predicate = true)
  | _ => False

/-- `main` has set the predicate and has signalled or broadcast in the current scenario. -/
def MainPoint.hasWoken : MainPoint n → Bool
  | .release | .join _ _ => true
  | _ => false

end OpenPosix.CondVars.Wakeup

import OpenPosix.Interleaving.Semaphore
import OpenPosix.Interleaving.System
import OpenPosix.Threads.Scenarii

/-!
# The scalability test of `pthread_create`

`stress/threads/pthread_create/s-c1.c`. For each scenario `main` locks `m_synchro`, creates one
thread to see whether the scenario works, and then as many more as it can. Every created thread
posts the semaphore of the scenario and waits for `m_synchro`. When no more threads can be created
`main` unlocks `m_synchro`, joins the threads if they are not detached, and waits until all of them
have counted themselves in `ctl`.

A step is one operation on the mutex or a semaphore, one access to `ctl`, or one call of
`pthread_create` or `pthread_join`. The outcome of the first `pthread_create` of each scenario is
given (`Config.first`), and it is one that the field `result` lets through; the outcomes of the
later ones are free. A mutex has an owner and is not recursive, so a thread that locks a mutex it
owns waits for itself. The clock, the list of measures and its evaluation touch neither the mutex
nor `ctl` and are left out, as are the runs that end with `FAILED` or `UNRESOLVED`.
-/

namespace OpenPosix.Threads.Create

open Interleaving

/-- What a run depends on: the scenarios, whether the system has the stack options, `my_max`,
whether `PTHREAD_THREADS_MAX` is positive, and whether the first `pthread_create` of each scenario
succeeds. The outcome of each scenario that is not skipped is one that its field `result` lets
through. -/
structure Config where
  scenarios : List Scenario
  stackOptions : Bool
  myMax : ℕ
  threadsMax : Bool
  first : ℕ → Bool
  admitted : ∀ (sc : ℕ) (scenario : Scenario), scenarios[sc]? = some scenario →
    scenario.bottom stackOptions = false → scenario.result.admits (first sc) = true

inductive MainPoint
  | loop
  | lockStart
  | reset
  | createFirst
  | createNext
  | waitSem
  | unlock
  | join (i : ℕ)
  | lockCheck
  | readCtl
  | unlockCheck
  | next
  | done
  deriving DecidableEq, Repr

/-- The points of `threaded`. The update of `ctl` is a read and a write of the value read plus one.
-/
inductive ChildPoint
  | post
  | lock
  | readCtl
  | writeCtl (value : ℕ)
  | unlock
  | ret
  | exited
  deriving DecidableEq, Repr

/-- The threads that can own `m_synchro`. A created thread is named by the number of threads that
were created before it. -/
inductive Owner
  | main
  | child (n : ℕ)
  deriving DecidableEq, Repr

/-- The shared variables, the local variables of `main`, and the points of all threads. -/
structure State where
  point : MainPoint
  sc : ℕ
  nthreads : ℕ
  child : ℕ
  th : ℕ → ℕ
  tmp : ℕ
  ctl : ℕ
  mSynchro : Option Owner
  sem : ℕ → ℕ
  children : List ChildPoint

/-- The steps of the program. The creation of a further thread has one step for either outcome. -/
inductive Thread
  | main
  | createNext (created : Bool)
  | threaded (n : ℕ)
  deriving DecidableEq, Repr

def State.goto (s : State) (point : MainPoint) : State := { s with point := point }

/-- `pthread_mutex_lock` on `m_synchro`: it waits while the mutex has an owner, whoever that is. -/
def lockSynchro (owner : Owner) (s : State) : Option State :=
  if s.mSynchro = none then some { s with mSynchro := some owner } else none

/-- The thread that the `i`-th `pthread_join` waits for: those of the array `th`, and then `child`.
-/
def State.joined (s : State) (i : ℕ) : ℕ := if i < s.nthreads then s.th i else s.child

/-- One step of `main` other than the creation of a further thread. -/
def main (c : Config) (s : State) : Option State :=
  match s.point with
  | .loop =>
    match c.scenarios[s.sc]? with
    | none => some (s.goto .done)
    | some scenario => some (s.goto (if scenario.bottom c.stackOptions then .next else .lockStart))
  | .lockStart => (lockSynchro .main s).map fun s ↦ s.goto .reset
  | .reset => some { s with ctl := 0, nthreads := 0, point := .createFirst }
  | .createFirst =>
    if c.first s.sc then
      some { s with
        child := s.children.length, children := s.children ++ [.post], point := .createNext }
    else
      some (s.goto .next)
  | .createNext => none
  | .waitSem => (semWait (s.sem s.sc)).map fun value ↦
      { s with sem := Function.update s.sem s.sc value, point := .createNext }
  | .unlock =>
    match c.scenarios[s.sc]? with
    | none => none
    | some scenario => some { s with
        mSynchro := none, point := if scenario.detached then .lockCheck else .join 0 }
  | .join i =>
    if s.children[s.joined i]? = some .exited then
      some (s.goto (if i < s.nthreads then .join (i + 1) else .lockCheck))
    else
      none
  | .lockCheck => (lockSynchro .main s).map fun s ↦ s.goto .readCtl
  | .readCtl => some { s with tmp := s.ctl, point := .unlockCheck }
  | .unlockCheck => some { s with
      mSynchro := none, point := if s.tmp = s.nthreads + 1 then .next else .lockCheck }
  | .next => some { s with sc := s.sc + 1, point := .loop }
  | .done => none

/-- The creation of a further thread. `main` stops creating on `EAGAIN` and `ENOMEM`, and when it
has created more than `my_max` threads. In that case, with a positive `PTHREAD_THREADS_MAX`, the
program ends with `FAILED`, as it does on any other error. -/
def createNext (c : Config) (created : Bool) (s : State) : Option State :=
  if s.point = .createNext then
    if created then
      if s.nthreads + 1 > c.myMax && c.threadsMax then
        none
      else
        some { s with
          th := Function.update s.th s.nthreads s.children.length
          children := s.children ++ [.post]
          nthreads := s.nthreads + 1
          point := if s.nthreads + 1 > c.myMax then .unlock else .waitSem }
    else
      some (s.goto .unlock)
  else
    none

def threaded (n : ℕ) (s : State) : Option State :=
  match s.children[n]? with
  | none | some .exited => none
  | some .post => some { s with
      sem := Function.update s.sem s.sc (semPost (s.sem s.sc))
      children := s.children.set n .lock }
  | some .lock => (lockSynchro (.child n) s).map fun s ↦
      { s with children := s.children.set n .readCtl }
  | some .readCtl => some { s with children := s.children.set n (.writeCtl s.ctl) }
  | some (.writeCtl value) => some { s with
      ctl := value + 1, children := s.children.set n .unlock }
  | some .unlock => some { s with mSynchro := none, children := s.children.set n .ret }
  | some .ret => some { s with children := s.children.set n .exited }

def next (c : Config) (s : State) : Thread → Option State
  | .main => main c s
  | .createNext created => createNext c created s
  | .threaded n => threaded n s

def start : State where
  point := .loop
  sc := 0
  nthreads := 0
  child := 0
  th := fun _ ↦ 0
  tmp := 0
  ctl := 0
  mSynchro := none
  sem := fun _ ↦ 0
  children := []

def program (c : Config) : System State Thread where
  Initial := fun s ↦ s = start
  next := next c

end OpenPosix.Threads.Create

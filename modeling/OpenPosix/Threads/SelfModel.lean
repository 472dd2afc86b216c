import OpenPosix.Interleaving.Monitor
import OpenPosix.Interleaving.Semaphore
import OpenPosix.Interleaving.System
import OpenPosix.Threads.Scenarii

/-!
# The rounds of the `pthread_self` stress test

`stress/threads/pthread_self/stress.c`. In each round `main` clears `c_boolean`, creates a thread
for every scenario, and waits for the semaphores of those that it could create. The threads store
their ID, post their semaphore, and wait for a condition variable until `c_boolean` is set. `main`
compares the IDs with those that `pthread_create` returned, sets `c_boolean`, broadcasts, and joins
the threads that are not detached. The detached ones it leaves alone, and the next round uses the
same `c_boolean`.

A step is one call or one access to the shared data. The threads of all rounds are in one list, and
the ID of a thread is its place in the list. The outcome of `pthread_create` is one that the
scenario lets through; with any other the program ends with the verdict `UNRESOLVED`. Spurious
wake-ups and the signal that makes `main` stop are moves of their own. The counter `iterations`,
which is only printed, is left out.
-/

namespace OpenPosix.Threads.Self

open Interleaving

/-- The points of `threaded`. A thread that is `woken` needs the mutex to return from its wait. -/
inductive ChildPoint
  | lock
  | store
  | post
  | test
  | wait
  | blocked
  | woken
  | unlock
  | exited
  deriving DecidableEq, Repr

/-- A created thread: its scenario, and where it is. -/
structure Child (n : ℕ) where
  me : Fin n
  point : ChildPoint
  deriving DecidableEq, Repr

/-- The points of `main`, with the scenarios that are left in its loops. -/
inductive MainPoint (n : ℕ)
  | loop
  | reset
  | create (rest : List (Fin n))
  | waitSem (rest : List (Fin n))
  | lock
  | check
  | setBoolean
  | unlock
  | broadcast
  | join (rest : List (Fin n))
  | failed
  | ended
  deriving DecidableEq, Repr

/-- The threads that can hold `m_synchro`. -/
inductive Owner
  | main
  | child (k : ℕ)
  deriving DecidableEq, Repr

/-- What happens next: a step of `main`, the outcome of a creation, a step of a created thread, a
spurious wake-up, or the signal. -/
inductive Move
  | main
  | create (created : Bool)
  | threaded (k : ℕ)
  | spurious (k : ℕ)
  | stop
  deriving DecidableEq, Repr

/-- The shared data, `creation` with `status`, and where every thread is. -/
structure State (n : ℕ) where
  main : MainPoint n
  children : List (Child n)
  creation : Fin n → Option ℕ
  running : Fin n → Option ℕ
  sem : Fin n → ℕ
  mSynchro : Option Owner
  cBoolean : Bool
  doIt : Bool

variable {n : ℕ}

/-- The thread is unblocked if it is blocked on the condition variable. -/
def Child.wake (child : Child n) : Child n :=
  if child.point = .blocked then { child with point := .woken } else child

def State.goto (s : State n) (k : ℕ) (child : Child n) (point : ChildPoint) : State n :=
  { s with children := s.children.set k { child with point := point } }

def threaded (s : State n) (k : ℕ) : Option (State n) :=
  match s.children[k]? with
  | none => none
  | some child =>
    match child.point with
    | .lock => (mutexLock s.mSynchro (.child k)).map fun owner ↦
        { s.goto k child .store with mSynchro := owner }
    | .store => some { s.goto k child .post with
        running := Function.update s.running child.me (some k) }
    | .post => some { s.goto k child .test with
        sem := Function.update s.sem child.me (semPost (s.sem child.me)) }
    | .test => some (s.goto k child (if s.cBoolean then .unlock else .wait))
    | .wait => some { s.goto k child .blocked with mSynchro := none }
    | .blocked => none
    | .woken => (mutexLock s.mSynchro (.child k)).map fun owner ↦
        { s.goto k child .test with mSynchro := owner }
    | .unlock => some { s.goto k child .exited with mSynchro := none }
    | .exited => none

/-- The IDs of the running threads are those that `pthread_create` returned, and no two of them are
equal. -/
def State.IdsAgree (s : State n) : Prop :=
  (∀ sc, s.creation sc ≠ none → s.running sc = s.creation sc) ∧
    ∀ sc i, sc < i → s.creation sc ≠ none → s.creation sc ≠ s.creation i

instance (s : State n) : Decidable s.IdsAgree := inferInstanceAs (Decidable (_ ∧ _))

/-- One step of `main` other than the creation of a thread. -/
def main (scenarios : Fin n → Scenario) (s : State n) : Option (State n) :=
  match s.main with
  | .loop => some { s with main := if s.doIt then .reset else .ended }
  | .reset => some { s with main := .create (List.finRange n), cBoolean := false }
  | .create (_ :: _) => none
  | .create [] => some { s with main := .waitSem (List.finRange n) }
  | .waitSem (sc :: rest) =>
    match s.creation sc with
    | none => some { s with main := .waitSem rest }
    | some _ => (semWait (s.sem sc)).map fun value ↦
        { s with main := .waitSem rest, sem := Function.update s.sem sc value }
  | .waitSem [] => some { s with main := .lock }
  | .lock => (mutexLock s.mSynchro .main).map fun owner ↦
      { s with main := .check, mSynchro := owner }
  | .check => some { s with main := if s.IdsAgree then .setBoolean else .failed }
  | .setBoolean => some { s with main := .unlock, cBoolean := true }
  | .unlock => some { s with main := .broadcast, mSynchro := none }
  | .broadcast => some { s with
      main := .join (List.finRange n), children := s.children.map Child.wake }
  | .join (sc :: rest) =>
    match s.creation sc with
    | none => some { s with main := .join rest }
    | some k =>
      if (scenarios sc).detached ∨ s.children[k]?.map Child.point = some .exited then
        some { s with main := .join rest }
      else
        none
  | .join [] => some { s with main := .loop }
  | .failed => none
  | .ended => none

def create (scenarios : Fin n → Scenario) (s : State n) (created : Bool) : Option (State n) :=
  match s.main with
  | .create (sc :: rest) =>
    if (scenarios sc).result.admits created then
      if created then
        some { s with
          main := .create rest
          creation := Function.update s.creation sc (some s.children.length)
          children := s.children ++ [⟨sc, .lock⟩] }
      else
        some { s with main := .create rest, creation := Function.update s.creation sc none }
    else
      none
  | _ => none

/-- A wake-up without a signal. -/
def spurious (s : State n) (k : ℕ) : Option (State n) :=
  match s.children[k]? with
  | none => none
  | some child => if child.point = .blocked then some (s.goto k child .woken) else none

def next (scenarios : Fin n → Scenario) (s : State n) : Move → Option (State n)
  | .main => main scenarios s
  | .create created => create scenarios s created
  | .threaded k => threaded s k
  | .spurious k => spurious s k
  | .stop => some { s with doIt := false }

def start (n : ℕ) : State n where
  main := .loop
  children := []
  creation := fun _ ↦ none
  running := fun _ ↦ none
  sem := fun _ ↦ 0
  mSynchro := none
  cBoolean := false
  doIt := true

def program (scenarios : Fin n → Scenario) : System (State n) Move where
  Initial := fun s ↦ s = start n
  next := fun s move ↦
    if s.main = .failed ∨ s.main = .ended then none else next scenarios s move

/-- The thread is inside its loop around the wait. -/
def ChildPoint.inLoop : ChildPoint → Bool
  | .test | .wait | .blocked | .woken => true
  | _ => false

end OpenPosix.Threads.Self

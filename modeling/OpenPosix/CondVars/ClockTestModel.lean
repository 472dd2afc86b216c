import OpenPosix.Interleaving.Monitor
import OpenPosix.Interleaving.System
import OpenPosix.Words.FlagWord

/-!
# Two waiters and a clock that is set forward

`do_cs_test` of `conformance/interfaces/pthread_cond_init/1-2.c`. Two threads wait for a condition
variable each, one initialized without attributes and one with default attributes, with a timeout
three days ahead. The parent makes sure that they wait, sets the clock a week forward, looks whether
the waits have expired, signals and looks again, ends the waits that have not expired, and compares
how the two threads have returned. They should do so alike, as both condition variables use the
clock that was set.

A step is one call or one access to the data of a thread, all of which are made under the mutex of
that thread. Once the clock has been set, a blocked thread may be unblocked by the expiry of its
timeout; at any time it may be unblocked spuriously, and a signal always unblocks it. All calls
succeed. Setting the clock back before the comparison is left out: it touches none of the data.
-/

namespace OpenPosix.CondVars.ClockTest

open Interleaving Words

/-- The Null attribute and the Default attribute condition variable. -/
inductive Side
  | N
  | D
  deriving DecidableEq, Repr

/-- What `pthread_cond_timedwait` returns. -/
inductive Rc
  | zero
  | etimedout
  deriving DecidableEq, Repr

/-! ### The flags of `ctrl` -/

def flagTimedout : ℕ := 15

def flagAwaken : ℕ := 14

def flagCondwake : ℕ := 13

def flagInwait : ℕ := 12

/-- The number of bits of `MASK_COUNTER`. -/
def counterBits : ℕ := 12

/-- `datatest_t`, without the pointers. -/
structure DataTest where
  ctrl : BitVec 16
  rc : Rc
  deriving DecidableEq, Repr

def DataTest.setFlag (data : DataTest) (bit : ℕ) : DataTest :=
  { data with ctrl := data.ctrl ||| flag bit }

/-! ### Threads -/

/-- The points of `test_timeout`. A `woken` thread needs the mutex to return from the wait. -/
inductive WaiterPoint
  | unborn
  | lock
  | mark
  | wait
  | blocked
  | woken (rc : Rc)
  | store (rc : Rc)
  | count
  | test
  | awaken
  | timeout
  | unlock
  | exited
  deriving DecidableEq, Repr

/-- The points of `do_cs_test`, from the creation of the threads on. `again` says whether it has
signalled the conditions once. -/
inductive ParentPoint
  | create (side : Side)
  | lock (side : Side)
  | look (side : Side)
  | unlock (side : Side)
  | setClock
  | release (again : Bool) (side : Side)
  | relock (again : Bool) (side : Side)
  | check
  | signal (side : Side)
  | process (side : Side)
  | join (side : Side)
  | unlockJoined (side : Side)
  | setWake (side : Side)
  | wake (side : Side)
  | unlockWaker (side : Side)
  | joinWoken (side : Side)
  | compare
  | ended (result : ℕ)
  | unresolved
  deriving DecidableEq, Repr

inductive Thread
  | parent
  | waiter (side : Side)
  deriving DecidableEq, Repr

/-- A step of a thread, the expiry of a timeout, or a spurious wake-up. -/
inductive Move
  | thread (t : Thread)
  | expire (side : Side)
  | spurious (side : Side)
  deriving DecidableEq, Repr

structure State where
  parent : ParentPoint
  waiter : Side → WaiterPoint
  data : Side → DataTest
  mtx : Side → Option Thread
  clockSet : Bool

def State.goto (s : State) (side : Side) (point : WaiterPoint) : State :=
  { s with waiter := Function.update s.waiter side point }

def State.store (s : State) (side : Side) (data : DataTest) : State :=
  { s with data := Function.update s.data side data }

def State.setMtx (s : State) (side : Side) (owner : Option Thread) : State :=
  { s with mtx := Function.update s.mtx side owner }

def State.setParent (s : State) (point : ParentPoint) : State := { s with parent := point }

def WaiterPoint.unblock (rc : Rc) : WaiterPoint → WaiterPoint
  | .blocked => .woken rc
  | point => point

def State.condSignal (s : State) (side : Side) : State :=
  s.goto side ((s.waiter side).unblock .zero)

def testTimeout (s : State) (side : Side) : Option State :=
  match s.waiter side with
  | .unborn => none
  | .lock =>
    (mutexLock (s.mtx side) (.waiter side)).map fun owner ↦ (s.setMtx side owner).goto side .mark
  | .mark => some ((s.store side ((s.data side).setFlag flagInwait)).goto side .wait)
  | .wait => some ((s.setMtx side none).goto side .blocked)
  | .blocked => none
  | .woken rc =>
    (mutexLock (s.mtx side) (.waiter side)).map fun owner ↦
      (s.setMtx side owner).goto side (.store rc)
  | .store rc => some ((s.store side { s.data side with rc := rc }).goto side .count)
  | .count =>
    some ((s.store side { s.data side with ctrl := countUp counterBits (s.data side).ctrl }).goto
      side .test)
  | .test =>
    some (s.goto side
      (if (s.data side).rc = .zero ∧ isSet (s.data side).ctrl flagCondwake = false then .wait
        else .awaken))
  | .awaken =>
    some ((if (s.data side).rc = .zero then s.store side ((s.data side).setFlag flagAwaken)
      else s).goto side .timeout)
  | .timeout =>
    some ((if (s.data side).rc = .etimedout then s.store side ((s.data side).setFlag flagTimedout)
      else s).goto side .unlock)
  | .unlock => some ((s.setMtx side none).goto side .exited)
  | .exited => none

/-- The comparison of the two threads, with the value of `result` before it. -/
def compare (result : ℕ) (dtN dtD : DataTest) : ParentPoint :=
  if dtN.ctrl = dtD.ctrl ∧ dtN.rc = dtD.rc then .ended 0
  else if dtN.ctrl &&& flag flagTimedout ≠ dtD.ctrl &&& flag flagTimedout then .ended (result + 1)
  else if dtN.rc ≠ dtD.rc then .unresolved
  else if dtN.ctrl &&& flag flagAwaken = dtD.ctrl &&& flag flagAwaken then .ended 0
  else .ended result

/-- The Null attribute condition variable is processed before the other one. -/
def processed : Side → ParentPoint
  | .N => .process .D
  | .D => .compare

def doCsTest (s : State) : Option State :=
  match s.parent with
  | .create .D => some ((s.goto .D .lock).setParent (.create .N))
  | .create .N => some ((s.goto .N .lock).setParent (.lock .N))
  | .lock side =>
    (mutexLock (s.mtx side) .parent).map fun owner ↦ (s.setMtx side owner).setParent (.look side)
  | .look side =>
    some (s.setParent (if isSet (s.data side).ctrl flagInwait then
      match side with
      | .N => .lock .D
      | .D => .setClock
    else .unlock side))
  | .unlock side => some ((s.setMtx side none).setParent (.lock side))
  | .setClock => some { s with clockSet := true, parent := .release false .D }
  | .release again .D => some ((s.setMtx .D none).setParent (.release again .N))
  | .release again .N => some ((s.setMtx .N none).setParent (.relock again .N))
  | .relock again .N =>
    (mutexLock (s.mtx .N) .parent).map fun owner ↦ (s.setMtx .N owner).setParent (.relock again .D)
  | .relock again .D =>
    (mutexLock (s.mtx .D) .parent).map fun owner ↦
      (s.setMtx .D owner).setParent (if again then .process .N else .check)
  | .check => some (s.setParent (if (s.data .D).rc = .zero then .signal .N else .process .N))
  | .signal .N => some ((s.condSignal .N).setParent (.signal .D))
  | .signal .D => some ((s.condSignal .D).setParent (.release true .D))
  | .process side =>
    some (s.setParent (if isSet (s.data side).ctrl flagTimedout then .join side else .setWake side))
  | .join side =>
    if s.waiter side = .exited then some (s.setParent (.unlockJoined side)) else none
  | .unlockJoined side => some ((s.setMtx side none).setParent (processed side))
  | .setWake side =>
    some ((s.store side ((s.data side).setFlag flagCondwake)).setParent (.wake side))
  | .wake side => some ((s.condSignal side).setParent (.unlockWaker side))
  | .unlockWaker side => some ((s.setMtx side none).setParent (.joinWoken side))
  | .joinWoken side =>
    if s.waiter side = .exited then some (s.setParent (processed side)) else none
  | .compare => some (s.setParent (compare 0 (s.data .N) (s.data .D)))
  | .ended _ => none
  | .unresolved => none

/-- A blocked thread is unblocked by the expiry of its timeout, or spuriously. -/
def unblocked (s : State) (side : Side) (rc : Rc) : Option State :=
  if s.waiter side = .blocked then some (s.goto side (.woken rc)) else none

def next (s : State) : Move → Option State
  | .thread .parent => doCsTest s
  | .thread (.waiter side) => testTimeout s side
  | .expire side => if s.clockSet then unblocked s side .etimedout else none
  | .spurious side => unblocked s side .zero

def start : State where
  parent := .create .D
  waiter := fun _ ↦ .unborn
  data := fun _ ↦ ⟨0#16, .zero⟩
  mtx := fun _ ↦ none
  clockSet := false

def program : System State Move where
  Initial := fun s ↦ s = start
  next := next

/-! ### How the waits have ended -/

/-- A step that unblocks the thread of one side, and whether by the expiry of its timeout. -/
def unblocks (side : Side) : State × Move → Option Bool
  | (_, .expire other) => if other = side then some true else none
  | (_, .spurious other) => if other = side then some false else none
  | (s, .thread .parent) =>
    if (s.parent = .signal side ∨ s.parent = .wake side) ∧ s.waiter side = .blocked then some false
    else none
  | (_, .thread (.waiter _)) => none

/-- The thread was unblocked the last time by the expiry of its timeout. -/
def expiredLast (side : Side) (trace : List (State × Move)) : Bool :=
  (trace.filterMap (unblocks side)).getLast? == some true

/-- The steps of the threads, without expiries and spurious wake-ups. -/
def Move.ofThread : Move → Bool
  | .thread _ => true
  | .expire _ | .spurious _ => false

end OpenPosix.CondVars.ClockTest

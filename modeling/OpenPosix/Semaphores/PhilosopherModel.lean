import OpenPosix.Interleaving.Semaphore
import OpenPosix.Interleaving.System
import OpenPosix.Interleaving.ThreadPool

/-!
# The dining philosophers of `sem_philosopher.c`

`functional/semaphores/sem_philosopher.c`. The philosophers share the array `state`, protected by
the semaphore `lock`, and each has a private semaphore `ph[i]` on which it waits until it may eat. A
philosopher announces its hunger and calls `test` on itself; when it stops eating it calls `test` on
both neighbours. `test` grants the right to eat by setting the entry of `state` to `eating` and
posting the private semaphore.

A step of a thread is one semaphore operation or one access to an entry of `state`, so the three
reads of the condition of `test`, its assignment and its post are five steps, and another thread may
run between any two of them. What a thread does only to its own variables (`think`, `eat`, `sleep`,
the round counter) is part of a neighbouring step. `PH_NUM` is the size `n` of the arrays and
`LOOP_NUM` a parameter; the model starts when `main` has initialised the semaphores and the array.
-/

namespace OpenPosix.Semaphores.Philosopher

open Interleaving

inductive Activity
  | thinking
  | hungry
  | eating
  deriving DecidableEq, Repr

/-- `preID` of `test`, and `prePH` of `philosopher`: the index of the left neighbour. -/
def preID (phNum ID : ℤ) : ℤ :=
  if ID - 1 < 0 then phNum + (ID - 1) else (ID - 1).tmod phNum

/-- `postID` of `test`, and `postPH` of `philosopher`: the index of the right neighbour. -/
def postID (phNum ID : ℤ) : ℤ :=
  if ID + 1 ≥ phNum then ID + 1 - phNum else (ID + 1).tmod phNum

variable {n : ℕ}

theorem preID_bounds (i : Fin n) : 0 ≤ preID n i ∧ preID n i < n := by
  unfold preID
  split_ifs with h
  · omega
  · rw [Int.tmod_eq_emod_of_nonneg (by omega), Int.emod_eq_of_lt (by omega) (by omega)]
    omega

theorem postID_bounds (i : Fin n) : 0 ≤ postID n i ∧ postID n i < n := by
  unfold postID
  split_ifs with h
  · omega
  · rw [Int.tmod_eq_emod_of_nonneg (by omega), Int.emod_eq_of_lt (by omega) (by omega)]
    omega

/-- The left neighbour as an index of the arrays. -/
def pre (i : Fin n) : Fin n := ⟨(preID n i).toNat, by have := preID_bounds i; omega⟩

/-- The right neighbour as an index of the arrays. -/
def post (i : Fin n) : Fin n := ⟨(postID n i).toNat, by have := postID_bounds i; omega⟩

/-- The points of `test`: the three reads of its condition, its assignment and its post. -/
inductive TestPoint
  | readSelf
  | readPre
  | readPost
  | setEating
  | postPh
  deriving DecidableEq, Repr

/-- The three calls of `test` in `philosopher`: on itself, and on either neighbour. -/
inductive TestSite
  | own
  | left
  | right
  deriving DecidableEq, Repr

inductive Point
  | unborn
  | loop
  | waitLock
  | setHungry
  | test (site : TestSite) (point : TestPoint)
  | postLock
  | waitPh
  | eat
  | waitLockAgain
  | setThinking
  | postLockAgain
  | exited
  deriving DecidableEq, Repr

/-- The argument of a call of `test` made by philosopher `i`. -/
def TestSite.target (i : Fin n) : TestSite → Fin n
  | .own => i
  | .left => pre i
  | .right => post i

/-- The point of `philosopher` that a call of `test` returns to. -/
def TestSite.next : TestSite → Point
  | .own => .postLock
  | .left => .test .right .readSelf
  | .right => .postLockAgain

/-- The shared variables, and for every philosopher its point and its round counter. -/
structure State (n : ℕ) where
  ph : Fin n → ℕ
  lock : ℕ
  state : Fin n → Activity
  point : Fin n → Point
  round : Fin n → ℕ
  main : Launcher (Fin n)

def State.goto (s : State n) (i : Fin n) (point : Point) : State n :=
  { s with point := Function.update s.point i point }

/-- One point of `test ID`: the state after it, and the next point unless `test` returns. -/
def test (s : State n) (ID : Fin n) : TestPoint → State n × Option TestPoint
  | .readSelf => (s, if s.state ID = .hungry then some .readPre else none)
  | .readPre => (s, if s.state (pre ID) ≠ .eating then some .readPost else none)
  | .readPost => (s, if s.state (post ID) ≠ .eating then some .setEating else none)
  | .setEating => ({ s with state := Function.update s.state ID .eating }, some .postPh)
  | .postPh => ({ s with ph := Function.update s.ph ID (semPost (s.ph ID)) }, none)

def philosopher (loopNum : ℕ) (s : State n) (i : Fin n) : Option (State n) :=
  match s.point i with
  | .unborn => none
  | .loop => some (s.goto i (if s.round i < loopNum then .waitLock else .exited))
  | .waitLock => (semWait s.lock).map fun value ↦ { s with lock := value }.goto i .setHungry
  | .setHungry =>
    some ({ s with state := Function.update s.state i .hungry }.goto i (.test .own .readSelf))
  | .test site point =>
    let (s', point') := test s (site.target i) point
    some (s'.goto i (match point' with
      | some point' => .test site point'
      | none => site.next))
  | .postLock => some ({ s with lock := semPost s.lock }.goto i .waitPh)
  | .waitPh =>
    (semWait (s.ph i)).map fun value ↦ { s with ph := Function.update s.ph i value }.goto i .eat
  | .eat => some (s.goto i .waitLockAgain)
  | .waitLockAgain =>
    (semWait s.lock).map fun value ↦ { s with lock := value }.goto i .setThinking
  | .setThinking =>
    some ({ s with state := Function.update s.state i .thinking }.goto i (.test .left .readSelf))
  | .postLockAgain =>
    some ({ s with
      lock := semPost s.lock
      round := Function.update s.round i (s.round i + 1) }.goto i .loop)
  | .exited => none

/-- One step of `main`: the next `pthread_create`, and after the last one the next `pthread_join`.
-/
def main (s : State n) : Option (State n) :=
  s.main.next (fun rest i ↦ { s with main := rest }.goto i .loop) (fun i ↦ s.point i = .exited)
    fun rest ↦ { s with main := rest }

inductive Thread (n : ℕ)
  | main
  | philosopher (i : Fin n)

def start (n : ℕ) : State n where
  ph := fun _ ↦ 0
  lock := 1
  state := fun _ ↦ .thinking
  point := fun _ ↦ .unborn
  round := fun _ ↦ 0
  main := ⟨List.finRange n, List.finRange n⟩

def program (n loopNum : ℕ) : System (State n) (Thread n) where
  Initial := fun s ↦ s = start n
  next := fun s thread ↦
    match thread with
    | .main => main s
    | .philosopher i => philosopher loopNum s i

/-- Philosopher `i` is between its return from `sem_wait(&ph[i])` and `state[i] = thinking`. -/
def Point.inSection : Point → Bool
  | .eat | .waitLockAgain | .setThinking => true
  | _ => false

/-- The thread holds `lock`: it has taken it and not posted it. -/
def Point.holds : Point → ℕ
  | .setHungry | .test _ _ | .postLock | .setThinking | .postLockAgain => 1
  | _ => 0

end OpenPosix.Semaphores.Philosopher

import Mathlib.Data.Finset.Insert
import Mathlib.Data.Fintype.Defs
import Mathlib.Data.Int.Basic
import OpenPosix.Interleaving.Semaphore
import OpenPosix.Interleaving.System

/-!
# Condition variables in shared memory

`pthread_cond_init/1-3.c`. Three threads of a child process wait for condition variables in shared
memory, each with its own mutex: one was initialised without attributes, one with default
attributes, and one as process-shared. The parent signals and broadcasts the three of them a hundred
times, with a signal to the child each time to have its threads scheduled, and then compares how
often they woke up. When a call of the parent fails, `LOC_URSLVD` sets `bool`, posts the semaphore
that the main thread of the child waits for, kills the child if the post fails, and makes
`parent_process` return; `do_tps_test` then waits for the child. The main thread of the child
signals the three conditions once and joins the threads.

A step is one call or one access to the shared memory. Any call of `parent_process` may fail, with
any error code; the argument of `LOC_URSLVD` is evaluated after its `sem_post` has assigned `ret`.
In the child only `pthread_cond_wait` may fail, and a signal that `mainsighdl` sends to a thread
that has returned is lost. What a wake-up by the parent does at a condition variable that is not
process-shared is free: nothing, or it wakes the thread, or the condition counts the thread as woken
and the thread sleeps on. No signal finds such a thread any more, and it looks at its condition
again when a signal handler has interrupted it. A mutex that is locked cannot be destroyed. Spurious
wake-ups are moves of their own. The counters do not overflow, and the traces are left out.
-/

namespace OpenPosix.CondVars.Shared

open Interleaving

/-- The three condition variables, in the order in which the program goes through them: `cndN`,
`cndD` and `cndP`. -/
inductive Cond
  | null
  | dflt
  | pshared
  deriving DecidableEq, Repr

instance : Fintype Cond := ⟨{.null, .dflt, .pshared}, fun w ↦ by cases w <;> decide⟩

def Cond.next : Cond → Option Cond
  | .null => some .dflt
  | .dflt => some .pshared
  | .pshared => none

/-- The points of `child_process_th`. A thread that is `usedUp` sleeps, and the condition does not
count it as a waiter. After the wait, `ok` says that it returned 0. -/
inductive ThreadPoint
  | unborn
  | start
  | lock
  | post
  | count
  | wait
  | blocked
  | usedUp
  | woken
  | incr (ok : Bool)
  | test (ok : Bool)
  | zero
  | unlock
  | returned
  deriving DecidableEq, Repr

inductive MainPoint
  | create (w : Cond)
  | waitB
  | signal (w : Cond)
  | join (w : Cond)
  | exited
  | killed
  deriving DecidableEq, Repr

/-- What `main` makes of the test. -/
inductive Verdict
  | passed
  | failed
  | unresolved
  deriving DecidableEq, Repr

/-- The points of `parent_process` and of `do_tps_test` after it. The mutexes are locked twice and
unlocked twice; `wake` is a signal or a broadcast of a round of the loop, and `tmp` is what the call
for `cndN` returned. At `waitpid`, `urslvd` says that `parent_process` was left by `LOC_URSLVD`. -/
inductive ParentPoint
  | ready (n : ℕ)
  | lock (again : Bool) (w : Cond)
  | check
  | unlock (last : Bool) (w : Cond)
  | wake (i : ℕ) (broadcast : Bool) (w : Cond) (tmp : ℕ)
  | kill (i : ℕ) (broadcast : Bool)
  | handled (i : ℕ) (broadcast : Bool) (n : ℕ)
  | compare
  | stop
  | post
  | waitpid (urslvd : Bool) (rc2 : ℤ)
  | ended (verdict : Verdict)
  deriving DecidableEq, Repr

/-- Who holds a mutex: the parent, or the thread of the child that uses it. -/
inductive Owner
  | parent
  | child
  deriving DecidableEq, Repr

/-- `globaldata_t`, the signals that are pending in the child, the rest of `mainsighdl` if it runs,
and where everybody is. -/
structure State where
  parent : ParentPoint
  main : MainPoint
  thread : Cond → ThreadPoint
  mtx : Cond → Option Owner
  cntr : Cond → ℕ
  bool : Bool
  semA : ℕ
  semB : ℕ
  result : ℕ
  usr1 : Bool
  usr2 : Cond → Bool
  handling : List Cond

/-- What a wake-up does to a thread that waits in another process. -/
inductive Reach
  | nothing
  | usesUp
  | wakes
  deriving DecidableEq, Repr

/-- What the system does with a call of the parent: the error code, or 0; whether `sem_post` in
`LOC_URSLVD` succeeds; and what a wake-up does in the other process. -/
structure Choice where
  error : ℕ
  posts : Bool
  reach : Reach
  deriving DecidableEq, Repr

/-- A step of the parent; of the main thread of the child; of a thread, whose `pthread_cond_wait`
may fail; a handler is entered or makes a step; a wake-up without a signal. -/
inductive Move
  | parent (choice : Choice)
  | main
  | thread (w : Cond) (fails : Bool)
  | sigusr1
  | mainsighdl
  | childsighdl (w : Cond)
  | spurious (w : Cond)
  deriving DecidableEq, Repr

def State.goto (s : State) (w : Cond) (point : ThreadPoint) : State :=
  { s with thread := Function.update s.thread w point }

def State.setMtx (s : State) (w : Cond) (owner : Option Owner) : State :=
  { s with mtx := Function.update s.mtx w owner }

/-- Where a wake-up leaves a thread that waits. A woken thread needs its mutex to return. -/
def Reach.point : Reach → ThreadPoint
  | .nothing => .blocked
  | .usesUp => .usedUp
  | .wakes => .woken

def ThreadPoint.wake (reach : Reach) : ThreadPoint → ThreadPoint
  | .blocked => reach.point
  | point => point

def State.wake (s : State) (w : Cond) (reach : Reach) : State := s.goto w ((s.thread w).wake reach)

/-- A handler makes a thread that is used up look at its condition. -/
def ThreadPoint.interrupt : ThreadPoint → ThreadPoint
  | .usedUp => .woken
  | point => point

/-- `LOC_URSLVD`, with its argument as a function of `ret`. -/
def locUrslvd (s : State) (choice : Choice) (x : ℤ → ℤ) : State :=
  if choice.posts then
    { s with bool := true, semB := semPost s.semB, parent := .waitpid true (x 0) }
  else
    { s with bool := true, main := .killed, parent := .waitpid true (x (-1)) }

def failedResult (s : State) : ℕ :=
  if s.cntr .null = 0 then s.cntr .dflt else s.cntr .null

def comparedResult (s : State) : ℕ :=
  if s.cntr .null ≠ s.cntr .pshared ∧ s.cntr .dflt = s.cntr .pshared then s.cntr .null
  else if s.cntr .null = s.cntr .pshared ∧ s.cntr .dflt ≠ s.cntr .pshared then s.cntr .dflt
  else 0

/-- The point after the third signal handler of a half round. -/
def afterHandled (i : ℕ) (broadcast : Bool) : ParentPoint :=
  if broadcast then
    if i + 1 < 100 then .wake (i + 1) false .null 0 else .lock true .null
  else
    .wake i true .null 0

/-- `waitpid` and the rest of `do_tps_test`. -/
def verdict (s : State) (rc2 : ℤ) : Option Verdict :=
  match s.main with
  | .killed => some .unresolved
  | .exited =>
    if rc2 ≠ 0 then some .unresolved
    else if ∃ w, s.mtx w ≠ none then some .unresolved
    else if s.result = 0 then some .passed
    else some .failed
  | _ => none

def parentProcess (s : State) (choice : Choice) : Option State :=
  match s.parent with
  | .ready n =>
    if choice.error ≠ 0 then some (locUrslvd s choice fun _ ↦ choice.error)
    else (semWait s.semA).map fun rest ↦
      { s with semA := rest, parent := if n < 2 then .ready (n + 1) else .lock false .null }
  | .lock again w =>
    if choice.error ≠ 0 then some (locUrslvd s choice id)
    else if s.mtx w = none then
      some { s.setMtx w (some .parent) with
        parent := match w.next with
          | some w' => .lock again w'
          | none => if again then .compare else .check }
    else none
  | .check =>
    if s.cntr .pshared = 0 then some (locUrslvd s choice fun _ ↦ 0)
    else if s.cntr .null = 0 ∨ s.cntr .dflt = 0 then
      some { s with result := failedResult s, parent := .stop }
    else some { s with parent := .unlock false .null }
  | .unlock last w =>
    if choice.error ≠ 0 then some (locUrslvd s choice id)
    else some { s.setMtx w none with
      parent := match w.next with
        | some w' => .unlock last w'
        | none => if last then .post else .wake 0 false .null 0 }
  | .wake i broadcast .null _ =>
    some { if choice.error = 0 then s.wake .null choice.reach else s with
      parent := .wake i broadcast .dflt choice.error }
  | .wake i broadcast .dflt tmp =>
    let s := if choice.error = 0 then s.wake .dflt choice.reach else s
    if choice.error ≠ tmp then some (locUrslvd s choice fun ret ↦ max ret tmp)
    else some { s with parent := .wake i broadcast .pshared tmp }
  | .wake i broadcast .pshared _ =>
    if choice.error ≠ 0 then some (locUrslvd s choice id)
    else some { s.wake .pshared .wakes with parent := .kill i broadcast }
  | .kill i broadcast =>
    if choice.error ≠ 0 then some (locUrslvd s choice fun _ ↦ choice.error)
    else some { s with usr1 := true, parent := .handled i broadcast 0 }
  | .handled i broadcast n =>
    if choice.error ≠ 0 then some (locUrslvd s choice fun _ ↦ choice.error)
    else (semWait s.semA).map fun rest ↦
      { s with
        semA := rest
        parent := if n < 2 then .handled i broadcast (n + 1) else afterHandled i broadcast }
  | .compare =>
    if s.cntr .pshared = 0 then some (locUrslvd s choice fun _ ↦ 0)
    else if s.cntr .null = 0 ∨ s.cntr .dflt = 0 then
      some { s with result := failedResult s, parent := .stop }
    else if s.cntr .null % 2 = 0 ∨ s.cntr .dflt % 2 = 0 then
      some (locUrslvd s choice fun _ ↦
        if s.cntr .null % 2 = 1 then s.cntr .dflt else s.cntr .null)
    else some { s with result := comparedResult s, parent := .stop }
  | .stop => some { s with bool := true, parent := .unlock true .null }
  | .post =>
    if choice.error ≠ 0 then some (locUrslvd s choice fun _ ↦ choice.error)
    else some { s with semB := semPost s.semB, parent := .waitpid false 0 }
  | .waitpid _ rc2 => (verdict s rc2).map fun v ↦ { s with parent := .ended v }
  | .ended _ => none

def childProcess (s : State) : Option State :=
  match s.main with
  | .create w =>
    some { s.goto w .start with
      main := match w.next with
        | some w' => .create w'
        | none => .waitB }
  | .waitB => (semWait s.semB).map fun rest ↦ { s with semB := rest, main := .signal .null }
  | .signal w =>
    some { s.wake w .wakes with
      main := match w.next with
        | some w' => .signal w'
        | none => .join .null }
  | .join w =>
    if s.thread w = .returned then
      some { s with
        main := match w.next with
          | some w' => .join w'
          | none => .exited }
    else none
  | .exited => none
  | .killed => none

def childProcessTh (s : State) (w : Cond) (fails : Bool) : Option State :=
  match s.thread w with
  | .unborn => none
  | .start => some (s.goto w .lock)
  | .lock =>
    if s.mtx w = none then some ((s.goto w .post).setMtx w (some .child)) else none
  | .post => some { s.goto w .count with semA := semPost s.semA }
  | .count => some { s.goto w .wait with cntr := Function.update s.cntr w (s.cntr w + 1) }
  | .wait =>
    some (if fails then s.goto w (.incr false) else (s.goto w .blocked).setMtx w none)
  | .blocked => none
  | .woken =>
    if s.mtx w = none then some ((s.goto w (.incr true)).setMtx w (some .child)) else none
  | .incr ok => some { s.goto w (.test ok) with cntr := Function.update s.cntr w (s.cntr w + 1) }
  | .test ok =>
    some (s.goto w (if ok then if s.bool then .unlock else .count else .zero))
  | .zero => some { s.goto w .unlock with cntr := Function.update s.cntr w 0 }
  | .unlock => some ((s.goto w .returned).setMtx w none)
  | .returned | .usedUp => none

def MainPoint.gone : MainPoint → Bool
  | .exited | .killed => true
  | _ => false

/-- `mainsighdl` sends `SIGUSR2` to the next thread. -/
def mainsighdl (s : State) : Option State :=
  match s.handling with
  | [] => none
  | w :: rest => some { s with
      usr2 := if s.thread w = .returned then s.usr2 else Function.update s.usr2 w true
      handling := rest }

/-- A step in the child. The main thread stands still while its handler runs. -/
def childNext (s : State) : Move → Option State
  | .parent _ => none
  | .main => if s.handling = [] then childProcess s else none
  | .thread w fails => childProcessTh s w fails
  | .sigusr1 =>
    if s.usr1 ∧ s.handling = [] then
      some { s with usr1 := false, handling := [.null, .dflt, .pshared] }
    else none
  | .mainsighdl => mainsighdl s
  | .childsighdl w =>
    if s.usr2 w ∧ s.thread w ≠ .returned then
      some { s.goto w (s.thread w).interrupt with
        usr2 := Function.update s.usr2 w false
        semA := semPost s.semA }
    else none
  | .spurious w =>
    if s.thread w = .blocked ∨ s.thread w = .usedUp then some (s.goto w .woken) else none

def next (s : State) : Move → Option State
  | .parent choice => parentProcess s choice
  | move => if s.main.gone then none else childNext s move

def start : State where
  parent := .ready 0
  main := .create .null
  thread := fun _ ↦ .unborn
  mtx := fun _ ↦ none
  cntr := fun _ ↦ 0
  bool := false
  semA := 0
  semB := 0
  result := 0
  usr1 := false
  usr2 := fun _ ↦ false
  handling := []

def program : System State Move where
  Initial := fun s ↦ s = start
  next := next

/-- The moves that a run cannot do without: no wait fails or ends without a signal. -/
def Move.ordinary : Move → Bool
  | .thread _ fails => !fails
  | .spurious _ => false
  | _ => true

end OpenPosix.CondVars.Shared

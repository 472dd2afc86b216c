import OpenPosix.Interleaving.Monitor
import OpenPosix.Interleaving.System

/-!
# The scalability test of `pthread_mutex_lock`

`stress/threads/pthread_mutex_lock/s-c2.c`. `main` creates children until `malloc` or
`pthread_create` fails. Each child has an element of a chained list, with its number, a mutex, and
the result of the locks of that mutex. `main` holds `m` while it creates a child and fills in the
element; then it releases `m` and takes it back until `counter` says that the child has started. A
child counts itself, initialises and locks its mutex, creates a grandchild that will try to lock the
same mutex, and waits for a condition variable until `do_it` is cleared. At the end `main` clears
`do_it`, broadcasts, joins the children in the order of the list, and counts those with an error.

A step is one call or one access to the shared data. The calls that are checked return what the
move says (`ret`, with 0 for success): `malloc`, the creations, the locks of the test mutexes, and
the calls whose failure ends the process with the verdict `UNRESOLVED`. The locks of `m` and the
calls for the condition variable succeed. Spurious wake-ups are moves of their own.

The contents of a block that `malloc` returns are arbitrary. `main` sets `id` and `error` of a new
element, and the `next` of the element before it; the `next` of the new element stays as it was in
the block, so it is part of the move, and `program` is for given possible contents. A walk that
reaches an address where there is no element, or no longer one, has no defined outcome
(`undefined`).

The numbers are not bounded. The attributes of the test mutexes are left out: no thread locks such a
mutex twice, so its type does not matter.
-/

namespace OpenPosix.Mutexes.Scale

open Interleaving

/-- The points of `threaded`. A child that is `woken` needs `m` to return from its wait. -/
inductive ChildPoint
  | lock
  | count
  | init
  | lockMtx
  | unlockFailed
  | create
  | test
  | wait
  | blocked
  | woken
  | unlock
  | unlockMtx
  | join
  | destroy
  | returned
  deriving DecidableEq, Repr

inductive SubPoint
  | unborn
  | lock
  | unlock
  | returned
  deriving DecidableEq, Repr

/-- The two threads that lock a test mutex. -/
inductive Level
  | child
  | grandchild
  deriving DecidableEq, Repr

/-- The value of a pointer to an element: `NULL`, the element that was created as number `i`
(counted from 0), or an address where there never was one. -/
inductive Link
  | null
  | element (i : ℕ)
  | wild
  deriving DecidableEq, Repr

/-- An element of the list with its two threads: `id` and `error`, if they are set, the link, and
whether the memory was given back; who holds `mtx`; `ret_create`; and where the threads are. -/
structure Element where
  id : Option ℕ
  error : Option ℕ
  next : Link
  freed : Bool
  mtx : Option Level
  retCreate : ℕ
  child : ChildPoint
  sub : SubPoint
  deriving DecidableEq, Repr

/-- The points of `main`. From `create` on, the block that `malloc` returned is the variable `tmp`.
-/
inductive MainPoint
  | lock
  | malloc
  | create (next : Link)
  | link
  | setId
  | setError
  | unlock
  | relock
  | test
  | stop
  | broadcast
  | unlockEnd
  | walk
  | join (tmp : ℕ)
  | count (tmp : ℕ)
  | free (tmp : ℕ)
  | ended
  | unresolved
  | undefined
  deriving DecidableEq, Repr

/-- The threads that can hold `m`. -/
inductive Owner
  | main
  | child (i : ℕ)
  deriving DecidableEq, Repr

/-- What happens next: `malloc` returns, `main` or another thread makes a step, or a child wakes up
for no reason. -/
inductive Move
  | malloc (block : Option Link)
  | main (ret : ℕ)
  | threaded (i : ℕ) (ret : ℕ)
  | sub (i : ℕ) (ret : ℕ)
  | spurious (i : ℕ)
  deriving DecidableEq, Repr

/-- The shared data and the variables of `main`, with the elements in the order of their creation;
`cur` is an element, or the sentinel if it is `none`. -/
structure State where
  main : MainPoint
  elements : List Element
  sentinelNext : Link
  cur : Option ℕ
  counter : ℕ
  doIt : Bool
  m : Option Owner
  errors : ℕ
  deriving DecidableEq, Repr

/-- A thread of the element moves, or `main` writes to the element. -/
def State.put (s : State) (i : ℕ) (element : Element) : State :=
  { s with elements := s.elements.set i element }

/-- The outcome of a call whose failure ends the process. -/
def checked (ret : ℕ) (s s' : State) : Option State :=
  some (if ret = 0 then s' else { s with main := .unresolved })

def threaded (s : State) (i ret : ℕ) : Option State :=
  match s.elements[i]? with
  | none => none
  | some td =>
    match td.child with
    | .lock => (mutexLock s.m (.child i)).map fun m ↦
        { s.put i { td with child := .count } with m := m }
    | .count => some { s.put i { td with child := .init } with counter := s.counter + 1 }
    | .init => checked ret s (s.put i { td with child := .lockMtx, mtx := none })
    | .lockMtx =>
      if ret = 0 then
        (mutexLock td.mtx .child).map fun mtx ↦
          s.put i { td with child := .create, error := some 0, mtx := mtx }
      else
        some (s.put i { td with child := .unlockFailed, error := some ret })
    | .unlockFailed => checked ret s { s.put i { td with child := .returned } with m := none }
    | .create =>
      some (s.put i { td with
        child := .test, retCreate := ret, sub := if ret = 0 then .lock else .unborn })
    | .test => some (s.put i { td with child := if s.doIt then .wait else .unlock })
    | .wait => some { s.put i { td with child := .blocked } with m := none }
    | .blocked => none
    | .woken => (mutexLock s.m (.child i)).map fun m ↦
        { s.put i { td with child := .test } with m := m }
    | .unlock => checked ret s { s.put i { td with child := .unlockMtx } with m := none }
    | .unlockMtx => checked ret s (s.put i { td with
        child := if td.retCreate = 0 then .join else .destroy, mtx := none })
    | .join =>
      if td.sub = .returned then checked ret s (s.put i { td with child := .destroy }) else none
    | .destroy => checked ret s (s.put i { td with child := .returned })
    | .returned => none

def sub (s : State) (i ret : ℕ) : Option State :=
  match s.elements[i]? with
  | none => none
  | some td =>
    match td.sub with
    | .lock =>
      if ret = 0 then
        (mutexLock td.mtx .grandchild).map fun mtx ↦
          s.put i { td with sub := .unlock, error := some 0, mtx := mtx }
      else
        some (s.put i { td with sub := .returned, error := some ret })
    | .unlock => checked ret s (s.put i { td with sub := .returned, error := some 0, mtx := none })
    | .unborn | .returned => none

/-- The child is unblocked if it is blocked on the condition variable. -/
def Element.wake (element : Element) : Element :=
  if element.child = .blocked then { element with child := .woken } else element

/-- A wake-up without a signal. -/
def spurious (s : State) (i : ℕ) : Option State :=
  match s.elements[i]? with
  | none => none
  | some td => if td.child = .blocked then some (s.put i td.wake) else none

def State.curId (s : State) : Option ℕ :=
  match s.cur with
  | none => some 0
  | some i => (s.elements[i]?).bind Element.id

def State.setCurNext (s : State) (link : Link) : State :=
  match s.cur with
  | none => { s with sentinelNext := link }
  | some i => { s with elements := s.elements.modify i fun cur ↦ { cur with next := link } }

/-- The place of the element that was created last. -/
def State.last (s : State) : ℕ := s.elements.length - 1

def newElement (next : Link) : Element where
  id := none
  error := none
  next := next
  freed := false
  mtx := none
  retCreate := 0
  child := .lock
  sub := .unborn

def malloc (s : State) (block : Option Link) : Option State :=
  match s.main with
  | .malloc => some { s with main := block.elim .stop .create }
  | _ => none

/-- One step of `main` other than `malloc`. -/
def main (s : State) (ret : ℕ) : Option State :=
  match s.main with
  | .lock => (mutexLock s.m .main).map fun m ↦ { s with main := .malloc, m := m }
  | .malloc => none
  | .create next =>
    if ret = 0 then
      some { s with main := .link, elements := s.elements ++ [newElement next] }
    else
      some { s with main := .stop }
  | .link => some { s.setCurNext (.element s.last) with main := .setId }
  | .setId => some { s with
      main := .setError
      elements := s.elements.modify s.last fun tmp ↦ { tmp with id := s.curId.map (· + 1) } }
  | .setError => some { s with
      main := .unlock
      elements := s.elements.modify s.last fun tmp ↦ { tmp with error := some 0 }
      cur := some s.last }
  | .unlock => checked ret s { s with main := .relock, m := none }
  | .relock => (mutexLock s.m .main).map fun m ↦ { s with main := .test, m := m }
  | .test => some { s with main := if s.curId = some s.counter then .malloc else .unlock }
  | .stop => some { s with main := .broadcast, doIt := false }
  | .broadcast => some { s with main := .unlockEnd, elements := s.elements.map Element.wake }
  | .unlockEnd => checked ret s { s with main := .walk, m := none, cur := none }
  | .walk =>
    match s.sentinelNext with
    | .null => some { s with main := .ended }
    | .wild => some { s with main := .undefined }
    | .element i =>
      match s.elements[i]? with
      | none => some { s with main := .undefined }
      | some tmp =>
        if tmp.freed then
          some { s with main := .undefined }
        else
          some { s with main := .join i, sentinelNext := tmp.next }
  | .join i =>
    if (s.elements[i]?).map Element.child = some .returned then
      checked ret s { s with main := .count i }
    else
      none
  | .count i => some { s with
      main := .free i
      errors := s.errors + if (s.elements[i]?).bind Element.error = some 0 then 0 else 1 }
  | .free i => some { s with
      main := .walk
      elements := s.elements.modify i fun tmp ↦ { tmp with freed := true } }
  | .ended | .unresolved | .undefined => none

def MainPoint.over : MainPoint → Bool
  | .ended | .unresolved | .undefined => true
  | _ => false

def next (s : State) (move : Move) : Option State :=
  if s.main.over then
    none
  else
    match move with
    | .malloc block => malloc s block
    | .main ret => main s ret
    | .threaded i ret => threaded s i ret
    | .sub i ret => sub s i ret
    | .spurious i => spurious s i

/-- The start of `main`, up to the lock of `m`. -/
def start : State where
  main := .lock
  elements := []
  sentinelNext := .null
  cur := none
  counter := 0
  doIt := true
  m := none
  errors := 0

/-- The moves when the blocks that `malloc` returns have one of the given values at `next`. -/
def Move.admitted (blocks : Link → Bool) : Move → Bool
  | .malloc (some link) => blocks link
  | _ => true

def program (blocks : Link → Bool) : System State Move where
  Initial := fun s ↦ s = start
  next := fun s move ↦ if move.admitted blocks then next s move else none

/-! ### What is observed -/

def ChildPoint.started : ChildPoint → Bool
  | .lock | .count => false
  | _ => true

/-- Both threads of the element have ended, or the grandchild was never created. -/
def Element.Done (element : Element) : Prop :=
  element.child = .returned ∧ (element.sub = .unborn ∨ element.sub = .returned)

/-- `main` has cleared `do_it` and broadcast. -/
def MainPoint.released : MainPoint → Bool
  | .unlockEnd | .walk | .join _ | .count _ | .free _ | .ended | .undefined => true
  | _ => false

/-- The step in which the lock of the test mutex of element `i` fails. -/
def lockFails (i : ℕ) : State × Move → Bool
  | (s, .threaded j ret) => j = i ∧ (s.elements[i]?).map Element.child = some .lockMtx ∧ ret ≠ 0
  | (s, .sub j ret) => j = i ∧ (s.elements[i]?).map Element.sub = some .lock ∧ ret ≠ 0
  | _ => false

/-- The number of children whose lock, or whose grandchild's lock, has failed in a run. -/
def failures (trace : List (State × Move)) (size : ℕ) : ℕ :=
  (List.range size).countP fun i ↦ trace.any (lockFails i)

end OpenPosix.Mutexes.Scale

import OpenPosix.Interleaving.RingBuffer
import OpenPosix.Interleaving.Semaphore
import OpenPosix.Interleaving.System
import OpenPosix.Interleaving.ThreadPool

/-!
# The producers and consumers of `multi_con_pro.c`

`stress/semaphores/multi_con_pro.c`. `num` producers and `num` consumers share a circular array of
`BUF_SIZE` cells with the indices `in` and `out`. The semaphore `full` counts the free cells,
`empty` the cells with an item in them, and `lock` protects the array and the indices. Every
producer puts `Max_Num - 1` numbers and then the end marker `-1`; every consumer takes items until
it has taken an end marker.

A step of a thread is one semaphore operation or one access to a shared variable: the index that a
statement uses is read in one step and used in the next one, so an update of `in` or `out` is a read
and a write that another thread may come between. The two copies of the body of `producer`, in the
loop and after it, are told apart by a flag. Printing is left out, and the model starts when `main`
has initialised the semaphores and the indices; the contents of the allocated array are arbitrary,
and the items are unbounded numbers.
-/

namespace OpenPosix.Semaphores.BoundedBuffer

open Interleaving

inductive PutPoint
  | waitFull
  | getValue
  | waitLock
  | readIn
  | store
  | readInAgain
  | advance
  | postLock
  | postEmpty
  deriving DecidableEq, Repr

/-- The points of `producer`: the test of the loop, and the body in the loop and after it. -/
inductive ProducerPoint
  | unborn
  | loop
  | put (last : Bool) (point : PutPoint)
  | exited
  deriving DecidableEq, Repr

inductive ConsumerPoint
  | unborn
  | waitEmpty
  | waitLock
  | readOut
  | load
  | readOutAgain
  | advance
  | postLock
  | postFull
  | getValue
  | test
  | exited
  deriving DecidableEq, Repr

/-- The local variables of a producer; `slot` is the value of `in` that a statement has read. -/
structure Producer (bufSize : ℕ) where
  point : ProducerPoint
  i : ℕ
  data : ℤ
  fullValue : ℕ
  slot : Fin bufSize

/-- The local variables of a consumer; `slot` is the value of `out` that a statement has read. -/
structure Consumer (bufSize : ℕ) where
  point : ConsumerPoint
  data : ℤ
  fullValue : ℕ
  slot : Fin bufSize

inductive Thread (num : ℕ)
  | main
  | producer (ID : Fin num)
  | consumer (ID : Fin num)
  deriving DecidableEq

/-- The shared variables, and the local variables of every thread. -/
structure State (bufSize num : ℕ) where
  full : ℕ
  empty : ℕ
  lock : ℕ
  buffer : Fin bufSize → ℤ
  inPos : Fin bufSize
  outPos : Fin bufSize
  pro : Fin num → Producer bufSize
  con : Fin num → Consumer bufSize
  main : Launcher (Thread num)

variable {bufSize num : ℕ}

/-- Producer `ID` continues with new local variables. -/
def State.setPro (s : State bufSize num) (ID : Fin num) (p : Producer bufSize) :
    State bufSize num :=
  { s with pro := Function.update s.pro ID p }

def State.setCon (s : State bufSize num) (ID : Fin num) (c : Consumer bufSize) :
    State bufSize num :=
  { s with con := Function.update s.con ID c }

/-- The item that a producer puts: a number in the loop, the end marker after it. -/
def item (ID : Fin num) (i : ℕ) (last : Bool) : ℤ := if last then -1 else 100 * (ID.val : ℤ) + i

section Steps

variable [NeZero bufSize]

def put (s : State bufSize num) (ID : Fin num) (p : Producer bufSize) (last : Bool) :
    PutPoint → Option (State bufSize num)
  | .waitFull => (semWait s.full).map fun value ↦
      { s with full := value }.setPro ID { p with point := .put last .getValue }
  | .getValue => some (s.setPro ID { p with point := .put last .waitLock, fullValue := s.full })
  | .waitLock => (semWait s.lock).map fun value ↦
      { s with lock := value }.setPro ID
        { p with point := .put last .readIn, data := item ID p.i last }
  | .readIn => some (s.setPro ID { p with point := .put last .store, slot := s.inPos })
  | .store => some ({ s with buffer := Function.update s.buffer p.slot p.data }.setPro ID
      { p with point := .put last .readInAgain })
  | .readInAgain => some (s.setPro ID { p with point := .put last .advance, slot := s.inPos })
  | .advance => some ({ s with inPos := nextSlot p.slot }.setPro ID
      { p with point := .put last .postLock })
  | .postLock => some ({ s with lock := semPost s.lock }.setPro ID
      { p with point := .put last .postEmpty })
  | .postEmpty => some ({ s with empty := semPost s.empty }.setPro ID
      (if last then { p with point := .exited } else { p with point := .loop, i := p.i + 1 }))

def producer (maxNum : ℕ) (s : State bufSize num) (ID : Fin num) : Option (State bufSize num) :=
  let p := s.pro ID
  match p.point with
  | .unborn => none
  | .loop => some (s.setPro ID
      { p with point := .put (decide ¬ p.i < maxNum - 1) .waitFull })
  | .put last point => put s ID p last point
  | .exited => none

def consumer (s : State bufSize num) (ID : Fin num) : Option (State bufSize num) :=
  let c := s.con ID
  match c.point with
  | .unborn => none
  | .waitEmpty => (semWait s.empty).map fun value ↦
      { s with empty := value }.setCon ID { c with point := .waitLock }
  | .waitLock => (semWait s.lock).map fun value ↦
      { s with lock := value }.setCon ID { c with point := .readOut }
  | .readOut => some (s.setCon ID { c with point := .load, slot := s.outPos })
  | .load => some (s.setCon ID { c with point := .readOutAgain, data := s.buffer c.slot })
  | .readOutAgain => some (s.setCon ID { c with point := .advance, slot := s.outPos })
  | .advance => some ({ s with outPos := nextSlot c.slot }.setCon ID { c with point := .postLock })
  | .postLock => some ({ s with lock := semPost s.lock }.setCon ID { c with point := .postFull })
  | .postFull => some ({ s with full := semPost s.full }.setCon ID { c with point := .getValue })
  | .getValue => some (s.setCon ID { c with point := .test, fullValue := s.full })
  | .test => some (s.setCon ID
      { c with point := if c.data ≠ -1 then .waitEmpty else .exited })
  | .exited => none

def exited (s : State bufSize num) : Thread num → Bool
  | .main => false
  | .producer ID => decide ((s.pro ID).point = .exited)
  | .consumer ID => decide ((s.con ID).point = .exited)

def create (s : State bufSize num) : Thread num → State bufSize num
  | .main => s
  | .producer ID => s.setPro ID { s.pro ID with point := .loop, i := 0 }
  | .consumer ID => s.setCon ID { s.con ID with point := .waitEmpty }

/-- One step of `main`: the next `pthread_create`, and after the last one the next `pthread_join`.
-/
def main (s : State bufSize num) : Option (State bufSize num) :=
  s.main.next (fun rest ↦ create { s with main := rest }) (exited s) fun rest ↦
    { s with main := rest }

/-- The threads in the order in which `main` creates them, and joins them. -/
def threads (num : ℕ) : List (Thread num) :=
  (List.finRange num).map .consumer ++ (List.finRange num).map .producer

/-- A state in which `main` starts to create the threads. -/
structure Starts (s : State bufSize num) : Prop where
  full : s.full = bufSize
  empty : s.empty = 0
  lock : s.lock = 1
  inPos : s.inPos = slotOf bufSize 0
  outPos : s.outPos = slotOf bufSize 0
  pro : ∀ ID, (s.pro ID).point = .unborn
  con : ∀ ID, (s.con ID).point = .unborn
  main : s.main = ⟨threads num, threads num⟩

/-- The program of `num` producers of `maxNum` items each and `num` consumers. -/
def program (bufSize maxNum num : ℕ) [NeZero bufSize] :
    System (State bufSize num) (Thread num) where
  Initial := Starts
  next := fun s thread ↦
    match thread with
    | .main => main s
    | .producer ID => producer maxNum s ID
    | .consumer ID => consumer s ID

end Steps

/-! ### What a run puts and takes -/

/-- The cell and the item of a step that stores an item. -/
def stored (step : State bufSize num × Thread num) : Option (Fin bufSize × ℤ) :=
  match step.2 with
  | .producer ID =>
    match (step.1.pro ID).point with
    | .put _ .store => some ((step.1.pro ID).slot, (step.1.pro ID).data)
    | _ => none
  | _ => none

/-- The cell and the item of a step that loads an item. -/
def loaded (step : State bufSize num × Thread num) : Option (Fin bufSize × ℤ) :=
  match step.2 with
  | .consumer ID =>
    match (step.1.con ID).point with
    | .load => some ((step.1.con ID).slot, step.1.buffer (step.1.con ID).slot)
    | _ => none
  | _ => none

/-- The items put by all producers, in the order of their writes. -/
def puts (trace : List (State bufSize num × Thread num)) : List ℤ :=
  (trace.filterMap stored).map Prod.snd

/-- The items taken by all consumers, in the order of their reads. -/
def takes (trace : List (State bufSize num × Thread num)) : List ℤ :=
  (trace.filterMap loaded).map Prod.snd

/-- The items taken by consumer `ID`, in the order of its reads. -/
def takesOf (ID : Fin num) (trace : List (State bufSize num × Thread num)) : List ℤ :=
  takes (trace.filter fun step ↦ step.2 = .consumer ID)

/-- The producer is between its return from `sem_wait(full)` and its `sem_post(empty)`. -/
def Producer.between (p : Producer bufSize) : ℕ :=
  match p.point with
  | .put _ .waitFull => 0
  | .put _ _ => 1
  | _ => 0

/-- The consumer is between its return from `sem_wait(empty)` and its `sem_post(full)`. -/
def Consumer.between (c : Consumer bufSize) : ℕ :=
  match c.point with
  | .waitLock | .readOut | .load | .readOutAgain | .advance | .postLock | .postFull => 1
  | _ => 0

end OpenPosix.Semaphores.BoundedBuffer

import OpenPosix.Interleaving.Semaphore
import OpenPosix.Interleaving.System
import OpenPosix.Interleaving.ThreadPool

/-!
# The readers and writers of `sem_readerwriter.c`

`functional/semaphores/sem_readerwriter.c`. Readers and writers share a board, the variable `data`.
The semaphore `w_lock` belongs to one writer or to all the readers: the first reader takes it and
the last one posts it, which may be another thread. `reader_count` is protected by `r_lock`, which a
reader also holds while it waits for `w_lock`.

A step of a thread is one semaphore operation or one access to a shared variable. `reader_count++`
and `reader_count--` are a read into a register and a write, and the tests of `reader_count` read it
again. Printing and `sleep` have no effect on the shared variables and are left out, and the model
starts when `main` has initialised the semaphores.
-/

namespace OpenPosix.Semaphores.ReaderWriter

open Interleaving

inductive ReaderPoint
  | unborn
  | waitR
  | incRead
  | incWrite
  | testFirst
  | waitW
  | postR
  | readBoard
  | waitRAgain
  | decRead
  | decWrite
  | testLast
  | postW
  | postRAgain
  | exited
  deriving DecidableEq, Repr

/-- A reader: its point, and the value of `reader_count` that an update has read. -/
structure Reader where
  point : ReaderPoint
  register : ℤ
  deriving DecidableEq, Repr

inductive WriterPoint
  | unborn
  | waitW
  | writeBoard
  | postW
  | exited
  deriving DecidableEq, Repr

inductive Thread (readNum writeNum : ℕ)
  | main
  | reader (ID : Fin readNum)
  | writer (ID : Fin writeNum)
  deriving DecidableEq

/-- The shared variables, and the local variables of every thread. -/
structure State (readNum writeNum : ℕ) where
  rLock : ℕ
  wLock : ℕ
  readerCount : ℤ
  data : ℤ
  rea : Fin readNum → Reader
  wri : Fin writeNum → WriterPoint
  main : Launcher (Thread readNum writeNum)

variable {readNum writeNum : ℕ}

/-- Reader `ID` continues with new local variables. -/
def State.setRea (s : State readNum writeNum) (ID : Fin readNum) (r : Reader) :
    State readNum writeNum :=
  { s with rea := Function.update s.rea ID r }

def State.setWri (s : State readNum writeNum) (ID : Fin writeNum) (point : WriterPoint) :
    State readNum writeNum :=
  { s with wri := Function.update s.wri ID point }

def reader (s : State readNum writeNum) (ID : Fin readNum) : Option (State readNum writeNum) :=
  let r := s.rea ID
  match r.point with
  | .unborn => none
  | .waitR => (semWait s.rLock).map fun value ↦
      { s with rLock := value }.setRea ID { r with point := .incRead }
  | .incRead => some (s.setRea ID { point := .incWrite, register := s.readerCount })
  | .incWrite => some ({ s with readerCount := r.register + 1 }.setRea ID
      { r with point := .testFirst })
  | .testFirst => some (s.setRea ID
      { r with point := if s.readerCount = 1 then .waitW else .postR })
  | .waitW => (semWait s.wLock).map fun value ↦
      { s with wLock := value }.setRea ID { r with point := .postR }
  | .postR => some ({ s with rLock := semPost s.rLock }.setRea ID { r with point := .readBoard })
  | .readBoard => some (s.setRea ID { r with point := .waitRAgain })
  | .waitRAgain => (semWait s.rLock).map fun value ↦
      { s with rLock := value }.setRea ID { r with point := .decRead }
  | .decRead => some (s.setRea ID { point := .decWrite, register := s.readerCount })
  | .decWrite => some ({ s with readerCount := r.register - 1 }.setRea ID
      { r with point := .testLast })
  | .testLast => some (s.setRea ID
      { r with point := if s.readerCount = 0 then .postW else .postRAgain })
  | .postW => some ({ s with wLock := semPost s.wLock }.setRea ID { r with point := .postRAgain })
  | .postRAgain => some ({ s with rLock := semPost s.rLock }.setRea ID { r with point := .exited })
  | .exited => none

/-- `write_fun`: the value that a writer leaves on the board. -/
def writeFun (ID : Fin writeNum) : ℤ := 100 * (ID.val : ℤ) + ID.val

def writer (s : State readNum writeNum) (ID : Fin writeNum) : Option (State readNum writeNum) :=
  match s.wri ID with
  | .unborn => none
  | .waitW => (semWait s.wLock).map fun value ↦ { s with wLock := value }.setWri ID .writeBoard
  | .writeBoard => some ({ s with data := writeFun ID }.setWri ID .postW)
  | .postW => some ({ s with wLock := semPost s.wLock }.setWri ID .exited)
  | .exited => none

def exited (s : State readNum writeNum) : Thread readNum writeNum → Bool
  | .main => false
  | .reader ID => decide ((s.rea ID).point = .exited)
  | .writer ID => decide (s.wri ID = .exited)

def create (s : State readNum writeNum) : Thread readNum writeNum → State readNum writeNum
  | .main => s
  | .reader ID => s.setRea ID { s.rea ID with point := .waitR }
  | .writer ID => s.setWri ID .waitW

/-- One step of `main`: the next `pthread_create`, and after the last one the next `pthread_join`.
-/
def main (s : State readNum writeNum) : Option (State readNum writeNum) :=
  s.main.next (fun rest ↦ create { s with main := rest }) (exited s) fun rest ↦
    { s with main := rest }

def readers (readNum writeNum : ℕ) : List (Thread readNum writeNum) :=
  (List.finRange readNum).map .reader

def writers (readNum writeNum : ℕ) : List (Thread readNum writeNum) :=
  (List.finRange writeNum).map .writer

/-- The state in which `main` starts to create the threads: the writers first. It joins the readers
first. -/
def start (readNum writeNum : ℕ) : State readNum writeNum where
  rLock := 1
  wLock := 1
  readerCount := 0
  data := 0
  rea := fun _ ↦ ⟨.unborn, 0⟩
  wri := fun _ ↦ .unborn
  main := ⟨writers readNum writeNum ++ readers readNum writeNum,
    readers readNum writeNum ++ writers readNum writeNum⟩

def program (readNum writeNum : ℕ) :
    System (State readNum writeNum) (Thread readNum writeNum) where
  Initial := fun s ↦ s = start readNum writeNum
  next := fun s thread ↦
    match thread with
    | .main => main s
    | .reader ID => reader s ID
    | .writer ID => writer s ID

/-! ### The parts of the code -/

/-- The reader is between its `reader_count++` and its `reader_count--`. -/
def Reader.counted (r : Reader) : ℕ :=
  match r.point with
  | .testFirst | .waitW | .postR | .readBoard | .waitRAgain | .decRead | .decWrite => 1
  | _ => 0

/-- The reader is in its read section: between its first `sem_post(&r_lock)` and its
`reader_count--`. -/
def Reader.inSection (r : Reader) : Bool :=
  match r.point with
  | .readBoard | .waitRAgain | .decRead | .decWrite => true
  | _ => false

/-- The writer is between `sem_wait(&w_lock)` and `sem_post(&w_lock)`. -/
def WriterPoint.inSection : WriterPoint → ℕ
  | .writeBoard | .postW => 1
  | _ => 0

end OpenPosix.Semaphores.ReaderWriter

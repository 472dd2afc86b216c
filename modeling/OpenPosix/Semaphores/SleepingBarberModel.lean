import OpenPosix.Interleaving.Semaphore
import OpenPosix.Interleaving.System
import OpenPosix.Interleaving.ThreadPool

/-!
# The sleeping barber of `sem_sleepingbarber.c`

`functional/semaphores/sem_sleepingbarber.c`. A customer that finds a free chair adds itself to
`waiting`, posts `customer` and waits for `barber`; one that finds none leaves. The barber waits for
`customer`, subtracts one from `waiting` and posts `barber`, for `LOOP_NUM` rounds. `waiting` is
protected by `lock`, and every line of output by `print`, most of them while `lock` is held.

A step of a thread is one semaphore operation or one access to a shared variable: `waiting = waiting
+ 1` and `waiting--` are a read into a register and a write. `my_printf` is its wait and its post of
`print`. The delay of one customer has no effect on the shared variables and is left out, and the
model starts when `main` has initialised the semaphores.
-/

namespace OpenPosix.Semaphores.SleepingBarber

open Interleaving

inductive PrintPoint
  | wait
  | post
  deriving DecidableEq, Repr

/-- The lines that the barber prints: that it will sleep, and that it cuts hair. -/
inductive BarberLine
  | sleep
  | cut
  deriving DecidableEq, Repr

inductive BarberPoint
  | unborn
  | loop
  | waitLock
  | testWaiting
  | print (line : BarberLine) (point : PrintPoint)
  | postLock
  | waitCustomer
  | waitLockAgain
  | testGuard
  | decRead
  | decWrite
  | postLockAgain
  | postBarber
  | exited
  deriving DecidableEq, Repr

/-- The lines that a customer prints: on entering, on sitting down, on leaving with nice hair, and
on leaving because there is no chair. -/
inductive CustomerLine
  | enter
  | sit
  | hair
  | noChair
  deriving DecidableEq, Repr

inductive CustomerPoint
  | unborn
  | print (line : CustomerLine) (point : PrintPoint)
  | waitLock
  | testChairs
  | incRead
  | incWrite
  | postCustomer
  | postLock
  | waitBarber
  | postLockNoChair
  | exited
  deriving DecidableEq, Repr

/-- The barber: its point, its round, and the value of `waiting` that an update has read. -/
structure Barber where
  point : BarberPoint
  i : ℕ
  register : ℤ
  deriving DecidableEq, Repr

/-- A customer: its point, and the value of `waiting` that an update has read. -/
structure Customer where
  point : CustomerPoint
  register : ℤ
  deriving DecidableEq, Repr

inductive Thread (cusNum : ℕ)
  | main
  | barbers
  | customers (ID : Fin cusNum)
  deriving DecidableEq

/-- The shared variables, and the local variables of every thread. -/
structure State (cusNum : ℕ) where
  customer : ℕ
  barber : ℕ
  lock : ℕ
  print : ℕ
  waiting : ℤ
  bar : Barber
  cus : Fin cusNum → Customer
  main : Launcher (Thread cusNum)

variable {cusNum : ℕ}

/-- The barber continues with new local variables. -/
def State.setBar (s : State cusNum) (b : Barber) : State cusNum := { s with bar := b }

/-- Customer `ID` continues with new local variables. -/
def State.setCus (s : State cusNum) (ID : Fin cusNum) (c : Customer) : State cusNum :=
  { s with cus := Function.update s.cus ID c }

def BarberLine.next : BarberLine → BarberPoint
  | .sleep => .postLock
  | .cut => .postLockAgain

def CustomerLine.next : CustomerLine → CustomerPoint
  | .enter => .waitLock
  | .sit => .postLock
  | .hair => .exited
  | .noChair => .postLockNoChair

def barbers (loopNum : ℕ) (s : State cusNum) : Option (State cusNum) :=
  let b := s.bar
  match b.point with
  | .unborn => none
  | .loop => some (s.setBar { b with point := if b.i < loopNum then .waitLock else .exited })
  | .waitLock => (semWait s.lock).map fun value ↦
      { s with lock := value }.setBar { b with point := .testWaiting }
  | .testWaiting => some (s.setBar
      { b with point := if s.waiting = 0 then .print .sleep .wait else .postLock })
  | .print line .wait => (semWait s.print).map fun value ↦
      { s with print := value }.setBar { b with point := .print line .post }
  | .print line .post => some ({ s with print := semPost s.print }.setBar
      { b with point := line.next })
  | .postLock => some ({ s with lock := semPost s.lock }.setBar { b with point := .waitCustomer })
  | .waitCustomer => (semWait s.customer).map fun value ↦
      { s with customer := value }.setBar { b with point := .waitLockAgain }
  | .waitLockAgain => (semWait s.lock).map fun value ↦
      { s with lock := value }.setBar { b with point := .testGuard }
  | .testGuard => some (s.setBar
      { b with point := if 1 ≤ s.waiting then .decRead else .print .cut .wait })
  | .decRead => some (s.setBar { b with point := .decWrite, register := s.waiting })
  | .decWrite => some ({ s with waiting := b.register - 1 }.setBar
      { b with point := .print .cut .wait })
  | .postLockAgain => some ({ s with lock := semPost s.lock }.setBar
      { b with point := .postBarber })
  | .postBarber => some ({ s with barber := semPost s.barber }.setBar
      { b with point := .loop, i := b.i + 1 })
  | .exited => none

def customers (chairNum : ℕ) (s : State cusNum) (ID : Fin cusNum) : Option (State cusNum) :=
  let c := s.cus ID
  match c.point with
  | .unborn => none
  | .print line .wait => (semWait s.print).map fun value ↦
      { s with print := value }.setCus ID { c with point := .print line .post }
  | .print line .post => some ({ s with print := semPost s.print }.setCus ID
      { c with point := line.next })
  | .waitLock => (semWait s.lock).map fun value ↦
      { s with lock := value }.setCus ID { c with point := .testChairs }
  | .testChairs => some (s.setCus ID
      { c with point := if s.waiting < chairNum then .incRead else .print .noChair .wait })
  | .incRead => some (s.setCus ID { point := .incWrite, register := s.waiting })
  | .incWrite => some ({ s with waiting := c.register + 1 }.setCus ID
      { c with point := .postCustomer })
  | .postCustomer => some ({ s with customer := semPost s.customer }.setCus ID
      { c with point := .print .sit .wait })
  | .postLock => some ({ s with lock := semPost s.lock }.setCus ID { c with point := .waitBarber })
  | .waitBarber => (semWait s.barber).map fun value ↦
      { s with barber := value }.setCus ID { c with point := .print .hair .wait }
  | .postLockNoChair => some ({ s with lock := semPost s.lock }.setCus ID
      { c with point := .exited })
  | .exited => none

def exited (s : State cusNum) : Thread cusNum → Bool
  | .main => false
  | .barbers => decide (s.bar.point = .exited)
  | .customers ID => decide ((s.cus ID).point = .exited)

def create (s : State cusNum) : Thread cusNum → State cusNum
  | .main => s
  | .barbers => s.setBar { s.bar with point := .loop, i := 0 }
  | .customers ID => s.setCus ID { s.cus ID with point := .print .enter .wait }

/-- One step of `main`: the next `pthread_create`, and after the last one the next `pthread_join`.
-/
def main (s : State cusNum) : Option (State cusNum) :=
  s.main.next (fun rest ↦ create { s with main := rest }) (exited s) fun rest ↦
    { s with main := rest }

/-- The state in which `main` starts to create the threads: the customers, then the barber. It joins
the customers only. -/
def start (cusNum : ℕ) : State cusNum where
  customer := 0
  barber := 0
  lock := 1
  print := 1
  waiting := 0
  bar := ⟨.unborn, 0, 0⟩
  cus := fun _ ↦ ⟨.unborn, 0⟩
  main := ⟨(List.finRange cusNum).map .customers ++ [.barbers],
    (List.finRange cusNum).map .customers⟩

/-- The program of `cusNum` customers, `chairNum` chairs and `loopNum` rounds of the barber. -/
def program (chairNum cusNum loopNum : ℕ) : System (State cusNum) (Thread cusNum) where
  Initial := fun s ↦ s = start cusNum
  next := fun s thread ↦
    match thread with
    | .main => main s
    | .barbers => barbers loopNum s
    | .customers ID => customers chairNum s ID

/-! ### What is observed -/

/-- The barber is between its return from `sem_wait(&customer)` and its `waiting--`. -/
def Barber.called (b : Barber) : ℕ :=
  match b.point with
  | .waitLockAgain | .testGuard | .decRead | .decWrite => 1
  | _ => 0

/-- The step is the barber's `sem_post(&barber)`. -/
def isHaircut (step : State cusNum × Thread cusNum) : Bool :=
  decide (step.2 = .barbers ∧ step.1.bar.point = .postBarber)

/-- The step is the return of a customer from `sem_wait(&barber)`. -/
def isPass (step : State cusNum × Thread cusNum) : Bool :=
  match step.2 with
  | .customers ID => decide ((step.1.cus ID).point = .waitBarber)
  | _ => false

def haircuts (trace : List (State cusNum × Thread cusNum)) : ℕ := trace.countP isHaircut

/-- The number of customers that have passed `sem_wait(&barber)` in a run. -/
def passes (trace : List (State cusNum × Thread cusNum)) : ℕ := trace.countP isPass

end OpenPosix.Semaphores.SleepingBarber

import OpenPosix.Interleaving.Semaphore
import OpenPosix.Interleaving.System

/-!
# The signal-bombing harness

A family of conformance tests calls one function in a loop while two threads keep on sending
`SIGUSR1` and `SIGUSR2` to the process, to see that the function never returns `EINTR`. Among them
are `pthread_sigmask/18-1.c`, `pthread_detach/4-3.c` and `pthread_cond_wait/4-1.c`. This module is
the part they share, with `WITH_SYNCHRO` defined: `sendsig`, the handlers and `main`. A sender waits
for its semaphore, sends its signal, and tests `do_it`; the handler of the signal posts the
semaphore. `main` blocks both signals before it creates a thread, so every thread starts with them
blocked, and only the threads under test unblock them.

The threads under test are a parameter (`Receivers`). A signal that was sent is pending on the
process until a live thread that does not block it takes it. It then runs the handler, on top of
what it was doing: a thread has a stack of handlers, and its own code goes on when the stack is
empty. Handlers are installed with an empty `sa_mask`, so the other signal may interrupt a handler,
and the same one may not. The counters of operations and signals are only printed, and are left out,
as are the runs in which a system call fails and the program ends with the verdict `UNRESOLVED`.
-/

namespace OpenPosix.Signals

open Interleaving

inductive UserSig
  | usr1
  | usr2
  deriving DecidableEq, Repr

inductive SenderPoint
  | unborn
  | mask
  | loop
  | wait
  | kill
  | exited
  deriving DecidableEq, Repr

/-- The threads under test: their variables (`World`), the threads among them that `main` creates,
and their steps, which read `do_it`. Every step belongs to one thread, its `owner`. -/
structure Receivers where
  World : Type
  Id : Type
  [decId : DecidableEq Id]
  Act : Type
  init : World
  /-- The threads that `main` creates before the senders and joins after them. -/
  threads : List Id
  create : World → Id → World
  owner : Act → Id
  step : Bool → World → Act → Option World
  /-- The thread is alive and does not block the signal. -/
  takes : World → Id → UserSig → Bool
  exited : World → Id → Bool
  /-- A thread that unblocks the signals is alive, or can still be created. -/
  served : Bool → World → Bool

instance (R : Receivers) : DecidableEq R.Id := R.decId

/-- What `main` does next: create the receivers that are left and then the first sender, create the
second sender, clear `do_it`, join the senders, join the receivers that are left. -/
inductive MainPoint (Id : Type)
  | creating (left : List Id)
  | createSig2
  | stop
  | joinSig1
  | joinSig2
  | joining (left : List Id)

/-- The shared variables, the pending signals, and where every thread is. -/
structure State (R : Receivers) where
  doIt : Bool
  sem : UserSig → ℕ
  pending : UserSig → Bool
  sender : UserSig → SenderPoint
  /-- The handlers that a thread is in, the innermost one first. -/
  handlers : R.Id → List UserSig
  world : R.World
  main : MainPoint R.Id

/-- The steps of the program: those of `main` and of the senders, the delivery of a pending signal
to a thread, the innermost handler of a thread, and the steps of the receivers. -/
inductive Thread (R : Receivers)
  | main
  | sendsig (sig : UserSig)
  | deliver (id : R.Id) (sig : UserSig)
  | sighdl (id : R.Id)
  | receiver (act : R.Act)

variable {R : Receivers}

def State.goto (s : State R) (sig : UserSig) (point : SenderPoint) : State R :=
  { s with sender := Function.update s.sender sig point }

/-- One step of the sender of a signal. A signal that is sent while it is pending is lost. -/
def sendsig (s : State R) (sig : UserSig) : Option (State R) :=
  match s.sender sig with
  | .unborn => none
  | .mask => some (s.goto sig .loop)
  | .loop => some (s.goto sig (if s.doIt then .wait else .exited))
  | .wait => (semWait (s.sem sig)).map fun value ↦
      { s with sem := Function.update s.sem sig value }.goto sig .kill
  | .kill => some ({ s with pending := Function.update s.pending sig true }.goto sig .loop)
  | .exited => none

/-- A thread takes a pending signal and enters its handler. -/
def deliver (s : State R) (id : R.Id) (sig : UserSig) : Option (State R) :=
  if s.pending sig && R.takes s.world id sig && !(s.handlers id).contains sig then
    some { s with
      pending := Function.update s.pending sig false
      handlers := Function.update s.handlers id (sig :: s.handlers id) }
  else
    none

/-- `sighdl1` and `sighdl2`: the innermost handler of a thread posts its semaphore and returns. -/
def sighdl (s : State R) (id : R.Id) : Option (State R) :=
  match s.handlers id with
  | [] => none
  | sig :: rest => some { s with
      sem := Function.update s.sem sig (semPost (s.sem sig))
      handlers := Function.update s.handlers id rest }

/-- A receiver goes on with its own code, which it does outside of any handler. -/
def receiver (s : State R) (act : R.Act) : Option (State R) :=
  if s.handlers (R.owner act) = [] then
    (R.step s.doIt s.world act).map fun world ↦ { s with world := world }
  else
    none

/-- One step of `main`. A join waits until the thread has exited. -/
def main (s : State R) : Option (State R) :=
  match s.main with
  | .creating (id :: left) =>
    some { s with world := R.create s.world id, main := .creating left }
  | .creating [] => some { s.goto .usr1 .mask with main := .createSig2 }
  | .createSig2 => some { s.goto .usr2 .mask with main := .stop }
  | .stop => some { s with doIt := false, main := .joinSig1 }
  | .joinSig1 => if s.sender .usr1 = .exited then some { s with main := .joinSig2 } else none
  | .joinSig2 =>
    if s.sender .usr2 = .exited then some { s with main := .joining R.threads } else none
  | .joining (id :: left) =>
    if R.exited s.world id then some { s with main := .joining left } else none
  | .joining [] => none

def next (s : State R) : Thread R → Option (State R)
  | .main => main s
  | .sendsig sig => sendsig s sig
  | .deliver id sig => deliver s id sig
  | .sighdl id => sighdl s id
  | .receiver act => receiver s act

/-- The state in which `main` creates its first thread: both semaphores have value one. -/
def start (R : Receivers) : State R where
  doIt := true
  sem := fun _ ↦ 1
  pending := fun _ ↦ false
  sender := fun _ ↦ .unborn
  handlers := fun _ ↦ []
  world := R.init
  main := .creating R.threads

def program (R : Receivers) : System (State R) (Thread R) where
  Initial := fun s ↦ s = start R
  next := next

/-- A thread that does not block the signals is alive, or can still be created. -/
def State.served (s : State R) : Bool := R.served s.doIt s.world

end OpenPosix.Signals

import OpenPosix.Interleaving.Semaphore
import OpenPosix.Interleaving.System

/-!
# Senders and the threads that install the handlers

In `stress/threads/pthread_kill/stress.c` and `pthread_mutex_lock/3-1.c` some threads keep on
sending a signal to another thread, which installs the handler for the signal when it starts. In the
stress test two flooders send `SIGABRT` and `SIGBUS` to `flood_receiver` as fast as they can, and
`sync_send` sends `SIGILL` to `sync_rec` and waits up to five seconds for its handler to set a flag.
In the conformance test two senders wait for a semaphore each, which is 1 at the start and which the
handlers post, and send `SIGUSR1` and `SIGUSR2` to `threaded`. `main` creates a receiver before its
senders, and does not wait for the receiver.

A `Plan` is such a program: the threads, and what `main` does with them. A step is one call or one
access to the shared data. A signal that was sent is pending until it is delivered to its thread,
which runs the handler, or ends the process if there is none: the default action of all five signals
is to terminate it. A second signal that is sent before the first one is delivered is merged with
it. The request of the user to stop is a move of its own. What the receivers do between their
`sigaction` calls and their end, and the counters, which are only printed, are left out, as are
calls that fail.
-/

namespace OpenPosix.Signals.Handlers

open Interleaving

inductive Sig
  | abrt
  | bus
  | ill
  | usr1
  | usr2
  deriving DecidableEq, Repr

/-- What a sender does between two signals: nothing, wait for the flag `sync`, or wait for its
semaphore. -/
inductive Pace
  | flood
  | flag
  | semaphore
  deriving DecidableEq, Repr

/-- What a thread does: it installs handlers and stays until it is released, or it sends a signal as
long as `do_it` is set. -/
inductive Role
  | receiver (installs : List Sig)
  | sender (sig : Sig) (pace : Pace)
  deriving DecidableEq, Repr

/-- What `main` does: create a thread, clear `do_it`, join a thread, and let a receiver end. -/
inductive Action
  | create (k : ℕ)
  | stop
  | join (k : ℕ)
  | release (k : ℕ)
  deriving DecidableEq, Repr

/-- A program: its threads, the rest of `main`, the thread that each signal is sent to, and whether
the user can stop it. -/
structure Plan where
  roles : List Role
  script : List Action
  target : Sig → ℕ
  userStops : Bool

/-! ### The two programs -/

def floodReceiver : Role := .receiver [.abrt, .bus]

def flooder1 : Role := .sender .abrt .flood

def flooder2 : Role := .sender .bus .flood

def syncRec : Role := .receiver [.ill]

def syncSend : Role := .sender .ill .flag

/-- `pthread_kill/stress.c`. -/
def killStress : Plan where
  roles := [floodReceiver, flooder1, flooder2, syncRec, syncSend]
  script := [.create 0, .create 1, .create 2, .create 3, .create 4, .join 1, .join 2, .release 0,
    .join 0, .join 4, .release 3, .join 3]
  target := fun sig ↦ if sig = .ill then 3 else 0
  userStops := true

def threaded : Role := .receiver [.usr1, .usr2]

def sendsig (sig : Sig) : Role := .sender sig .semaphore

/-- `pthread_mutex_lock/3-1.c`. -/
def mutexLock31 : Plan where
  roles := [threaded, sendsig .usr1, sendsig .usr2]
  script := [.create 0, .create 1, .create 2, .stop, .join 1, .join 2, .release 0, .join 0]
  target := fun _ ↦ 0
  userStops := false

/-! ### Their steps -/

inductive Point
  | unborn
  | install (rest : List Sig)
  | run
  | test
  | wait
  | disarm
  | kill
  | sleep (ret : ℕ)
  | check
  | returned
  deriving DecidableEq, Repr

/-- Whether the process runs, was terminated by a signal, or has ended with `FAILED` or `PASSED`. -/
inductive Status
  | running
  | terminated (sig : Sig)
  | failed
  | passed
  deriving DecidableEq, Repr

/-- What happens next: a step of `main` or of a thread, the delivery of a signal, or the request of
the user to stop. -/
inductive Move
  | main
  | thread (k : ℕ)
  | deliver (sig : Sig)
  | stop
  deriving DecidableEq, Repr

/-- The shared data, the handlers and the pending signals, and where every thread is. -/
structure State where
  status : Status
  main : List Action
  point : ℕ → Point
  installed : Sig → Bool
  pending : Sig → Bool
  doIt : Bool
  sync : Bool
  sem : Sig → ℕ
  released : ℕ → Bool

variable (plan : Plan)

def State.goto (s : State) (k : ℕ) (point : Point) : State :=
  { s with point := Function.update s.point k point }

def Role.start : Role → Point
  | .receiver installs => .install installs
  | .sender _ _ => .test

def main (s : State) : Option State :=
  match s.main with
  | [] => some { s with status := .passed }
  | .create k :: rest =>
    (plan.roles[k]?).map fun role ↦ { s.goto k role.start with main := rest }
  | .stop :: rest => some { s with main := rest, doIt := false }
  | .join k :: rest => if s.point k = .returned then some { s with main := rest } else none
  | .release k :: rest =>
    some { s with main := rest, released := Function.update s.released k true }

def receiver (s : State) (k : ℕ) : Option State :=
  match s.point k with
  | .install (sig :: rest) =>
    some { s.goto k (.install rest) with installed := Function.update s.installed sig true }
  | .install [] => some (s.goto k .run)
  | .run => if s.released k then some (s.goto k .returned) else none
  | _ => none

def sender (sig : Sig) (pace : Pace) (s : State) (k : ℕ) : Option State :=
  match s.point k with
  | .test =>
    if s.doIt then
      match pace with
      | .flood => some (s.goto k .kill)
      | .flag => some (s.goto k .disarm)
      | .semaphore => some (s.goto k .wait)
    else
      some (s.goto k .returned)
  | .wait => (semWait (s.sem sig)).map fun value ↦
      { s.goto k .kill with sem := Function.update s.sem sig value }
  | .disarm => some { s.goto k .kill with sync := false }
  | .kill =>
    some { s.goto k (if pace = .flag then .sleep 0 else .test) with
      pending := Function.update s.pending sig true }
  | .sleep ret =>
    some (s.goto k (if ret < 5 ∧ s.sync = false then .sleep (ret + 1) else .check))
  | .check => if s.sync then some (s.goto k .test) else some { s with status := .failed }
  | _ => none

def thread (s : State) (k : ℕ) : Option State :=
  match plan.roles[k]? with
  | none => none
  | some (.receiver _) => receiver s k
  | some (.sender sig pace) => sender sig pace s k

/-- The handlers: `floodsighdl`, `syncsighdl`, `sighdl1` and `sighdl2`. -/
def handler (s : State) : Sig → State
  | .abrt | .bus => s
  | .ill => { s with sync := true }
  | .usr1 => { s with sem := Function.update s.sem .usr1 (semPost (s.sem .usr1)) }
  | .usr2 => { s with sem := Function.update s.sem .usr2 (semPost (s.sem .usr2)) }

/-- A pending signal is delivered to its thread, which is alive. -/
def deliver (s : State) (sig : Sig) : Option State :=
  if s.pending sig ∧ s.point (plan.target sig) ≠ .unborn ∧
      s.point (plan.target sig) ≠ .returned then
    if s.installed sig then
      some (handler { s with pending := Function.update s.pending sig false } sig)
    else
      some { s with status := .terminated sig }
  else
    none

def next (s : State) (move : Move) : Option State :=
  if s.status = .running then
    match move with
    | .main => main plan s
    | .thread k => thread plan s k
    | .deliver sig => deliver plan s sig
    | .stop => if plan.userStops then some { s with doIt := false } else none
  else
    none

/-- The start of `main`, after its own handlers are installed and the semaphores initialised. -/
def start : State where
  status := .running
  main := plan.script
  point := fun _ ↦ .unborn
  installed := fun _ ↦ false
  pending := fun _ ↦ false
  doIt := true
  sync := false
  sem := fun _ ↦ 1
  released := fun _ ↦ false

def program : System State Move where
  Initial := fun s ↦ s = start plan
  next := next plan

def tests : List Plan := [killStress, mutexLock31]

end OpenPosix.Signals.Handlers

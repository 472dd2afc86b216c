import Mathlib.Data.Nat.Find
import OpenPosix.Interleaving.System
import OpenPosix.Verdicts.ChildVerdicts

/-!
# The interrupted `mq_timedsend`

`conformance/interfaces/mq_timedsend/12-1.c`. A thread fills a message queue with one message more
than it holds, so that its last `mq_timedsend` should block, and `main` sends it a signal, which
should interrupt the call with `EINTR`. The two threads hand over through the variable `sem`: the
thread sets it when it is ready for the signal and resets it if none of its calls has blocked.

A step is one call or one access to a shared variable. The results of the calls are given (`Calls`):
every combination of them is a program. A call of `mq_timedsend` that fails with `EINTR` was
interrupted by a run of the handler, whoever sent the signal; a signal that `main` has sent may also
be handled at any other moment while the thread is alive. The clock, `sleep` and printing are left
out, and so is what the queue holds, since the results of the calls are given.
-/

namespace OpenPosix.MessageQueues.TimedSend

open Interleaving Verdicts

/-- `MAXMSG`, the capacity of the queue. -/
def maxmsg : ℕ := 10

/-- The result of a call of `mq_timedsend`. -/
inductive Sent
  | success
  | eintr
  | error
  deriving DecidableEq, Repr

/-- The results of the calls: whether each succeeds, and for `mq_timedsend` what it returns. -/
structure Calls where
  pthreadCreate : Bool
  mqOpen : Bool
  mqTimedsend : ℕ → Sent
  mqUnlink : Bool
  pthreadKill : ℕ → Bool
  pthreadJoin : Bool

inductive Turn
  | inThread
  | inMain
  deriving DecidableEq, Repr

inductive ThreadPoint
  | unborn
  | sigaction
  | mqOpen
  | setInMain
  | send (i : ℕ)
  | unlink
  | setEintr
  | setInThread
  | exited
  deriving DecidableEq, Repr

inductive MainPoint
  | create
  | wait
  | loop
  | kill
  | join
  | check
  | returned (code : ℕ)
  deriving DecidableEq, Repr

/-- The shared variables, the counter of `main`, the pending signal, and the points. -/
structure State where
  sem : Turn
  inHandler : Bool
  errnoEintr : Bool
  i : ℕ
  pending : Bool
  thread : ThreadPoint
  main : MainPoint

inductive Thread
  | main
  | thread
  | handler
  deriving DecidableEq, Repr

def ThreadPoint.alive : ThreadPoint → Bool
  | .unborn | .exited => false
  | _ => true

def aThreadFunc (c : Calls) (s : State) : Option State :=
  match s.thread with
  | .unborn | .exited => none
  | .sigaction => some { s with thread := .mqOpen }
  | .mqOpen => some { s with thread := if c.mqOpen then .setInMain else .exited }
  | .setInMain => some { s with sem := .inMain, thread := .send 0 }
  | .send i =>
    if i < maxmsg + 1 then
      match c.mqTimedsend i with
      | .success => some { s with thread := .send (i + 1) }
      | .eintr => some { s with inHandler := true, pending := false, thread := .unlink }
      | .error => some { s with thread := .exited }
    else
      some { s with thread := .setInThread }
  | .unlink => some { s with thread := if c.mqUnlink then .setEintr else .exited }
  | .setEintr => some { s with errnoEintr := true, thread := .exited }
  | .setInThread => some { s with sem := .inThread, thread := .exited }

/-- A run of `justreturn_handler` in the thread. -/
def justreturnHandler (s : State) : Option State :=
  if s.thread.alive && s.pending then
    some { s with inHandler := true, pending := false }
  else
    none

/-- The code that `main` returns after its last call. -/
def verdict (s : State) : ℕ :=
  if s.errnoEintr then ptsPass
  else if s.sem = .inThread then ptsFail
  else if s.inHandler then ptsUnresolved
  else ptsPass

/-- One step of `main`. A round of its first loop that finds `sem` unset changes nothing. -/
def main (c : Calls) (s : State) : Option State :=
  match s.main with
  | .create =>
    if c.pthreadCreate then some { s with thread := .sigaction, main := .wait }
    else some { s with main := .returned ptsUnresolved }
  | .wait => some (if s.sem = .inThread then s else { s with main := .loop })
  | .loop => some { s with main := if s.i ≠ 10 ∧ s.sem = .inMain then .kill else .join }
  | .kill =>
    if c.pthreadKill s.i then
      some { s with pending := s.pending || s.thread.alive, i := s.i + 1, main := .loop }
    else
      some { s with main := .returned ptsUnresolved }
  | .join =>
    if s.thread = .exited then
      some { s with main := if c.pthreadJoin then .check else .returned ptsUnresolved }
    else
      none
  | .check => some { s with main := .returned (verdict s) }
  | .returned _ => none

/-- `main` has returned, and the process with it. -/
def State.ended (s : State) : Bool :=
  match s.main with
  | .returned _ => true
  | _ => false

def next (c : Calls) (s : State) : Thread → Option State
  | .main => main c s
  | .thread => if s.ended then none else aThreadFunc c s
  | .handler => if s.ended then none else justreturnHandler s

/-- The state in which `main` calls `pthread_create`. -/
def start : State where
  sem := .inThread
  inHandler := false
  errnoEintr := false
  i := 0
  pending := false
  thread := .unborn
  main := .create

/-- The program, for given results of its calls. -/
def program (c : Calls) : System State Thread where
  Initial := fun s ↦ s = start
  next := next c

/-! ### What the results of the calls decide -/

/-- The first call of `mq_timedsend` that does not succeed has this result. -/
def Calls.FirstFailure (c : Calls) (result : Sent) : Prop :=
  ∃ i < maxmsg + 1, (∀ j < i, c.mqTimedsend j = .success) ∧ c.mqTimedsend i = result

def Calls.NeverBlocks (c : Calls) : Prop := ∀ i < maxmsg + 1, c.mqTimedsend i = .success

theorem Calls.cases (c : Calls) :
    c.FirstFailure .eintr ∨ c.FirstFailure .error ∨ c.NeverBlocks := by
  by_cases hall : c.NeverBlocks
  · exact .inr (.inr hall)
  · have hsome : ∃ i, i < maxmsg + 1 ∧ c.mqTimedsend i ≠ .success := by
      simpa [Calls.NeverBlocks] using hall
    classical
    -- The least index of a call that does not succeed.
    obtain ⟨hlt, hfails⟩ := Nat.find_spec hsome
    have hbefore : ∀ j < Nat.find hsome, c.mqTimedsend j = .success := by
      intro j hj
      by_contra hne
      exact Nat.find_min hsome hj ⟨hj.trans hlt, hne⟩
    cases hresult : c.mqTimedsend (Nat.find hsome) with
    | success => exact absurd hresult hfails
    | eintr => exact .inl ⟨_, hlt, hbefore, hresult⟩
    | error => exact .inr (.inl ⟨_, hlt, hbefore, hresult⟩)

theorem Calls.FirstFailure.unique {c : Calls} {first second : Sent} (h : c.FirstFailure first)
    (h' : c.FirstFailure second) (hfirst : first ≠ .success) (hsecond : second ≠ .success) :
    first = second := by
  obtain ⟨i, -, hbefore, rfl⟩ := h
  obtain ⟨j, -, hbefore', rfl⟩ := h'
  rcases Nat.lt_trichotomy i j with hlt | rfl | hgt
  · exact absurd (hbefore' i hlt) hfirst
  · rfl
  · exact absurd (hbefore j hgt) hsecond

theorem Calls.FirstFailure.not_neverBlocks {c : Calls} {result : Sent} (h : c.FirstFailure result)
    (hresult : result ≠ .success) : ¬ c.NeverBlocks := by
  obtain ⟨i, hlt, -, rfl⟩ := h
  exact fun hall ↦ hresult (hall i hlt)

end OpenPosix.MessageQueues.TimedSend

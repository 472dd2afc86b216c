import Mathlib.Data.List.FinRange
import OpenPosix.Interleaving.System
import OpenPosix.Verdicts.ChildVerdicts

/-!
# Senders and receivers on message queues that do not block

`stress/mqueues/multi_send_rev_2.c` and `functional/mqueues/send_rev_2.c`. Pairs of a sender and a
receiver transfer `MAX_MSG` messages each through queues of that capacity, all pairs through one
queue in the first program and each of the two pairs through its own in the second. The queues are
opened with `O_NONBLOCK`: a call on a full or an empty queue fails at once, the thread exits with
status 1, and `main` does not look at the status when it joins the thread.

The two programs differ in their queues and in the order in which `main` starts and joins the
threads (`Layout`), and they share everything else. A step is one call with the test of the loop
before it. The texts of the messages are given by their index in `s_msg_ptr`; the buffers
`r_msg_ptr`, which are only printed, and the parsing of the argument are left out. The queues are
empty at the start: `mq_open` has no `O_EXCL`, so nobody else may have used their names.
-/

namespace OpenPosix.MessageQueues.SendReceive

open Interleaving Verdicts

/-- A message: the index of its text in `s_msg_ptr`, and its priority. -/
structure Message where
  text : ℕ
  prio : ℕ
  deriving DecidableEq, Repr

/-- A queue keeps its messages by priority, the oldest first among those of one priority. -/
def insertMessage (m : Message) : List Message → List Message
  | [] => [m]
  | first :: rest =>
    if m.prio ≤ first.prio then first :: insertMessage m rest else m :: first :: rest

/-- `mq_send` on a queue that holds at most `maxmsg` messages; `none` for `EAGAIN`. -/
def mqSend (maxmsg : ℕ) (m : Message) (mq : List Message) : Option (List Message) :=
  if mq.length < maxmsg then some (insertMessage m mq) else none

/-- `mq_receive`: the message and what is left in the queue; `none` for `EAGAIN`. -/
def mqReceive : List Message → Option (Message × List Message)
  | [] => none
  | first :: rest => some (first, rest)

inductive Role
  | send
  | receive
  deriving DecidableEq, Repr

structure Worker (pairs : ℕ) where
  role : Role
  pair : Fin pairs
  deriving DecidableEq, Repr

/-- The message that a sender sends in the round `i` of its loop. -/
def message (i : ℕ) : Message := ⟨i, i⟩

/-- The call in the round `i` of the loop of a thread: the message transferred, and the queue
afterwards. -/
def call (maxMsg : ℕ) (role : Role) (i : ℕ) (mq : List Message) :
    Option (Message × List Message) :=
  match role with
  | .send => (mqSend maxMsg (message i) mq).map fun mq' ↦ (message i, mq')
  | .receive => mqReceive mq

/-- The points of `send` and of `receive`: a round of the loop, and the end with the status given to
`pthread_exit`. -/
inductive Point
  | unborn
  | loop (i : ℕ)
  | exited (status : ℕ)
  deriving DecidableEq, Repr

/-- Which queue each pair uses, and the order in which `main` starts and joins the threads. -/
structure Layout where
  pairs : ℕ
  queues : ℕ
  queueOf : Fin pairs → Fin queues
  workers : List (Worker pairs)
  nodup : workers.Nodup
  complete : ∀ w, w ∈ workers

/-- `multi_send_rev_2.c` with `num` pairs: one queue, the threads of a pair one after the other. -/
def multiSendRev2 (num : ℕ) : Layout where
  pairs := num
  queues := 1
  queueOf := fun _ ↦ Fin.last 0
  workers := (List.finRange num).flatMap fun i ↦ [⟨.send, i⟩, ⟨.receive, i⟩]
  nodup := by
    refine List.nodup_flatMap.mpr ⟨fun i _ ↦ by simp, (List.nodup_finRange num).imp ?_⟩
    intro i j hne
    simp [Function.onFun, hne.symm]
  complete := by
    rintro ⟨role, pair⟩
    cases role <;> simp

/-- `send_rev_2.c`: two queues, the senders before the receivers. -/
def sendRev2 : Layout where
  pairs := 2
  queues := 2
  queueOf := id
  workers := [.send, .receive].flatMap fun role ↦ (List.finRange 2).map fun i ↦ ⟨role, i⟩
  nodup := by decide
  complete := by
    rintro ⟨role, pair⟩
    cases role <;> simp

inductive Test
  | multiSendRev2 (num : ℕ)
  | sendRev2

def Test.layout : Test → Layout
  | .multiSendRev2 num => SendReceive.multiSendRev2 num
  | .sendRev2 => SendReceive.sendRev2

/-- The points of `main`: the calls of `mq_open`, the calls of `pthread_create` and `pthread_join`,
and the end. -/
inductive MainPoint (pairs : ℕ)
  | opens (k : ℕ)
  | launch (launcher : Launcher (Worker pairs))
  | returned (code : ℕ)

inductive Thread (pairs : ℕ)
  | main
  | worker (w : Worker pairs)
  deriving DecidableEq, Repr

structure State (layout : Layout) where
  mq : Fin layout.queues → List Message
  workers : Worker layout.pairs → Point
  main : MainPoint layout.pairs

variable {layout : Layout}

def State.queue (s : State layout) (w : Worker layout.pairs) : List Message :=
  s.mq (layout.queueOf w.pair)

def State.goto (s : State layout) (w : Worker layout.pairs) (point : Point) : State layout :=
  { s with workers := Function.update s.workers w point }

def worker (maxMsg : ℕ) (s : State layout) (w : Worker layout.pairs) : Option (State layout) :=
  match s.workers w with
  | .loop i =>
    if i < maxMsg then
      match call maxMsg w.role i (s.queue w) with
      | some (_, mq) =>
        some ({ s with mq := Function.update s.mq (layout.queueOf w.pair) mq }.goto w
          (.loop (i + 1)))
      | none => some (s.goto w (.exited 1))
    else
      some (s.goto w (.exited 0))
  | _ => none

/-- A thread has called `pthread_exit`. -/
def Point.hasExited : Point → Bool
  | .exited _ => true
  | _ => false

/-- The next step of `main`; `mqOpen` says which calls of `mq_open` succeed. -/
def main (mqOpen : ℕ → Bool) (s : State layout) : Option (State layout) :=
  match s.main with
  | .opens k =>
    if k < layout.queues then
      some { s with main := if mqOpen k then .opens (k + 1) else .returned ptsUnresolved }
    else
      some { s with main := .launch ⟨layout.workers, layout.workers⟩ }
  | .launch ⟨w :: creates, joins⟩ =>
    some ({ s with main := .launch ⟨creates, joins⟩ }.goto w (.loop 0))
  | .launch ⟨[], w :: joins⟩ =>
    -- The status of the thread is dropped.
    if (s.workers w).hasExited then some { s with main := .launch ⟨[], joins⟩ } else none
  | .launch ⟨[], []⟩ => some { s with main := .returned ptsPass }
  | .returned _ => none

def start (layout : Layout) : State layout := ⟨fun _ ↦ [], fun _ ↦ .unborn, .opens 0⟩

def program (layout : Layout) (maxMsg : ℕ) (mqOpen : ℕ → Bool) :
    System (State layout) (Thread layout.pairs) where
  Initial := fun s ↦ s = start layout
  next := fun s thread ↦
    match thread with
    | .main => main mqOpen s
    | .worker w => worker maxMsg s w

end OpenPosix.MessageQueues.SendReceive

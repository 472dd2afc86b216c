import OpenPosix.Signals.CondWait
import OpenPosix.Signals.Detach
import OpenPosix.Signals.HarnessResults
import OpenPosix.Signals.Sigmask

/-!
# Whether the senders of the signal-bombing tests can end

The receivers leave on the same cleared `do_it` as the senders, and nothing keeps the last of them
until the pending signals are taken. In each test a sender can so be left waiting for a signal that
is pending for ever (`sender_stuck`), and the join of `main` with it. This happens exactly in the
runs with a step after which no thread that unblocks the signals is alive or can be created, taken
while a sender waits for a pending signal (`no_sender_stuck_iff`).

A signal may stay pending for any time. The runs of `sender_stuck` do not need it to be pending over
a call of `pthread_sigmask` that leaves it unblocked, before whose return it would be delivered: it
is sent when the receivers make no such call any more.
-/

namespace OpenPosix.Signals

open Interleaving

/-- The tests: `pthread_sigmask/18-1.c`, `pthread_detach/4-3.c` with an array of scenarios, and
`pthread_cond_wait/4-1.c`. -/
inductive Test
  | sigmask
  | detach (table : Detach.Table)
  | condWait

def Test.receivers : Test → Receivers
  | .sigmask => Sigmask.receivers
  | .detach table => Detach.receivers table
  | .condWait => CondWait.receivers

def Test.lawful : (test : Test) → Lawful test.receivers
  | .sigmask => Sigmask.lawful
  | .detach table => Detach.lawful table
  | .condWait => CondWait.lawful

/-! ### Runs in which a sender gets stuck -/

/-- The sender of `SIGUSR1` sends once, finds `do_it` set, and waits for its semaphore. -/
def sendsAndWaits (R : Receivers) : List (Thread R) := List.replicate 5 (.sendsig .usr1)

/-- The signal is sent when `test` has unblocked it and is about to test `do_it`. `main` clears
`do_it`, and `test` returns before the signal is delivered to it. -/
def sigmaskLoses : List (Thread Sigmask.receivers) :=
  [.main, .receiver (), .main] ++ sendsAndWaits _ ++ [.main, .main, .receiver (), .receiver ()]

/-- `main` clears `do_it` between the creation of two threads: the first one has returned, and
`test` is about to test `do_it`. -/
def detachLoses : List (Thread (Detach.receivers Detach.table)) :=
  [.main] ++ List.replicate 2 (.receiver Detach.Act.test) ++
    [.receiver (Detach.Act.create true)] ++ List.replicate 4 (.receiver (Detach.Act.child 0)) ++
    List.replicate 2 (.receiver Detach.Act.test) ++ [.main] ++ sendsAndWaits _ ++ [.main, .main]

/-- `worker` signals the condition, and the signal is sent when `waiter` has come back from its
wait. `main` clears `do_it`, and `waiter` leaves its loop and returns. -/
def condWaitLoses : List (Thread CondWait.receivers) :=
  [.main, .main, .main] ++ List.replicate 3 (.receiver CondWait.Act.waiter) ++
    List.replicate 3 (.receiver CondWait.Act.worker) ++ [.receiver CondWait.Act.waiter] ++
    sendsAndWaits _ ++ [.main, .main] ++ List.replicate 4 (.receiver CondWait.Act.waiter)

/-- In some reachable state the sender of `SIGUSR1` is blocked with no thread that can ever run the
handler that posts its semaphore, and the senders cannot end. -/
def SenderCanGetStuck (R : Receivers) : Prop :=
  ∃ s, (program R).Reachable s ∧ Stuck s .usr1 ∧ ¬ SendersCanEnd s

/-- Assumes: a schedule that ends with a lost signal. Its sender is stuck, and does not end. -/
theorem senderCanGetStuck_of_run {R : Receivers} (L : Lawful R) {schedule : List (Thread R)}
    (hlost : ((program R).runSchedule (start R) schedule).any (fun s ↦ Lost s .usr1) = true) :
    SenderCanGetStuck R := by
  obtain ⟨s, hreach, hlost⟩ := System.exists_reachable schedule rfl hlost
  have hstuck := (stuck_iff L hreach).mpr hlost
  exact ⟨s, hreach, hstuck, fun hend ↦ (sendersCanEnd_iff L hreach).mp hend .usr1 hstuck⟩

/-- In each of the tests a sender can be left in `sem_wait` with no thread that can ever run the
handler that posts its semaphore, and then `main` does not get past its joins. -/
theorem sender_stuck : SenderCanGetStuck Test.sigmask.receivers ∧
    SenderCanGetStuck (Test.detach Detach.table).receivers ∧
    SenderCanGetStuck Test.condWait.receivers := by
  refine ⟨?_, ?_, ?_⟩
  · have hlost : ((program Sigmask.receivers).runSchedule (start _) sigmaskLoses).any
        (fun s ↦ Lost s .usr1) = true := by decide +kernel
    exact senderCanGetStuck_of_run Sigmask.lawful hlost
  · have hlost : ((program (Detach.receivers Detach.table)).runSchedule (start _) detachLoses).any
        (fun s ↦ Lost s .usr1) = true := by decide +kernel
    exact senderCanGetStuck_of_run (Detach.lawful Detach.table) hlost
  · have hlost : ((program CondWait.receivers).runSchedule (start _) condWaitLoses).any
        (fun s ↦ Lost s .usr1) = true := by decide +kernel
    exact senderCanGetStuck_of_run CondWait.lawful hlost

/-! ### The condition -/

/-- Assumes: a run of one of the tests. In all states of the run neither sender is blocked in
`sem_wait` with no thread that can ever run the handler that posts its semaphore, and both senders
can still end, exactly when no step of the run takes away the last thread that serves the signals
while a sender waits for one that is pending. -/
theorem no_sender_stuck_iff (test : Test)
    (trace : List (State test.receivers × Thread test.receivers)) (s : State test.receivers)
    (h : (program test.receivers).Exec trace s) :
    (∀ state, System.Visits trace s state →
      (∀ sig, ¬ Stuck state sig) ∧ SendersCanEnd state) ↔
    ∀ step ∈ trace, LeavesServed step.1 step.2 := by
  rw [forall_leavesServed_iff test.lawful h]
  refine forall_congr' fun state ↦ forall_congr' fun hvisits ↦ ?_
  have hreach := h.reachable_of_visits hvisits
  rw [sendersCanEnd_iff test.lawful hreach, and_self]
  exact forall_congr' fun sig ↦ not_congr (stuck_iff test.lawful hreach)

/-- The sender of `SIGUSR1` sends and waits, `test` takes the signal, and only then `main` clears
`do_it` and `test` returns. -/
def sigmaskServes : List (Thread Test.sigmask.receivers) :=
  [.main, .main] ++ sendsAndWaits Sigmask.receivers ++
    [.receiver (), .deliver () .usr1, .sighdl (), .main, .main, .receiver (), .receiver ()]

/-- `test` has returned, the sender that waits has its semaphore posted, and both senders can end.
-/
theorem no_sender_stuck_serves :
    ∃ s, (program Test.sigmask.receivers).runSchedule (start _) sigmaskServes = some s ∧
      s.served = false ∧ s.sender .usr1 = .wait ∧ SendersCanEnd s := by
  obtain ⟨s, hrun, hserved, hwait⟩ : ∃ s, (program Test.sigmask.receivers).runSchedule (start _)
      sigmaskServes = some s ∧ s.served = false ∧ s.sender .usr1 = .wait :=
    System.exists_of_replay (by decide +kernel)
  have hexec := (System.Exec.start (P := program Test.sigmask.receivers) rfl).runSchedule hrun
  have hsteps : ∀ step ∈ (program Test.sigmask.receivers).traceOf (start _) sigmaskServes,
      LeavesServed step.1 step.2 := by decide +kernel
  have hall := (no_sender_stuck_iff .sigmask _ s hexec).mpr hsteps
  exact ⟨s, hrun, hserved, hwait, (hall s (.inl rfl)).2⟩

/-- A signal is sent only when it is not pending and no thread has the post of its handler to make,
so that none is lost, and no two threads have it to make. -/
theorem no_signal_lost (test : Test) {s : State test.receivers}
    (h : (program test.receivers).Reachable s) (sig : UserSig) :
    (s.sender sig = .kill → s.pending sig = false ∧ ∀ id, sig ∉ s.handlers id) ∧
      ∀ id other, sig ∈ s.handlers id → sig ∈ s.handlers other → id = other := by
  obtain ⟨place, htoken⟩ := (inv_of_reachable test.lawful h).token sig
  have hplace : ∀ id, sig ∈ s.handlers id ↔ place = .handler id := by
    intro id
    rw [← List.count_pos_iff, htoken.handler id]
    split <;> simp [*]
  refine ⟨fun hkill ↦ ?_, fun id other hid hother ↦ ?_⟩
  · obtain rfl := htoken.kill.mp hkill
    simpa [hplace] using htoken.pending
  · simpa [(hplace id).mp hid] using (hplace other).mp hother

theorem no_signal_lost_sigmask : ∃ s, (program Test.sigmask.receivers).Reachable s ∧
    s.sender .usr1 = .kill ∧ s.pending .usr1 = false := by
  obtain ⟨s, hreach, hkill⟩ : ∃ s, (program Test.sigmask.receivers).Reachable s ∧
      s.sender .usr1 = .kill :=
    System.exists_reachable (sigmaskServes.take 5) rfl (by decide +kernel)
  exact ⟨s, hreach, hkill, ((no_signal_lost .sigmask hreach .usr1).1 hkill).1⟩

end OpenPosix.Signals

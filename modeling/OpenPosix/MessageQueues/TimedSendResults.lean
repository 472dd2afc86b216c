import OpenPosix.MessageQueues.TimedSendInvariant

/-!
# When the interrupted `mq_timedsend` is reported

The thread exits without setting `sem` when `mq_open` fails, and it resets `sem` when none of its
calls has blocked; if `main` is still in its first loop it then waits for ever (`exists_spins`). If
a call fails with another error than `EINTR` before a handler has run, the last test of `main` has
the wrong sense and the test passes (`exists_wrongPass`). `interrupted_iff` says for which results
of the calls `main` can always return, and passes only if the thread has seen `EINTR`.
-/

namespace OpenPosix.MessageQueues.TimedSend

open Interleaving Verdicts

variable {c : Calls} {s s' : State}

/-! ### `main` can return -/

def CanReturn (c : Calls) (s : State) : Prop :=
  ∃ s', (program c).Leads s s' ∧ s'.ended = true

def ThreadPoint.rank : ThreadPoint → ℕ
  | .unborn => 18
  | .sigaction => 17
  | .mqOpen => 16
  | .setInMain => 15
  | .send i => 14 - i
  | .unlink => 2
  | .setEintr | .setInThread => 1
  | .exited => 0

/-- How far `main` is from its return, for the value of `i`. -/
@[simp] def MainPoint.rank (i : ℕ) : MainPoint → ℕ
  | .create => 27
  | .wait => 26
  | .loop => 2 * (10 - i) + 5
  | .kill => 2 * (10 - i) + 4
  | .join => 2
  | .check => 1
  | .returned _ => 0

def State.rank (s : State) : ℕ := s.thread.rank + s.main.rank s.i

/-- A thread that is alive has a step. -/
theorem exists_aThreadFunc (halive : s.thread.alive = true) : ∃ s', aThreadFunc c s = some s' := by
  unfold aThreadFunc
  cases hpoint : s.thread with
  | unborn | exited => simp [hpoint] at halive
  | send i =>
    simp only
    split
    · split <;> exact ⟨_, rfl⟩
    · exact ⟨_, rfl⟩
  | sigaction | mqOpen | setInMain | unlink | setEintr | setInThread => exact ⟨_, rfl⟩

/-- The steps of the thread take it closer to its exit. -/
theorem ThreadStep.rank_lt (hstep : ThreadStep c s s') (h : ThreadOk c s) : s'.rank < s.rank := by
  unfold State.rank
  cases hstep with
  | sigaction hpoint | opens hpoint | openFails hpoint | setInMain hpoint | unlink hpoint
  | unlinkFails hpoint | setEintr hpoint | setInThread hpoint =>
    simp [hpoint, ThreadPoint.rank]
  | send hpoint hlt | interrupted hpoint hlt | sendFails hpoint hlt =>
    simp only [hpoint, ThreadPoint.rank, maxmsg] at hlt ⊢
    omega
  | @sentAll i hpoint hlt =>
    unfold ThreadOk at h
    rw [hpoint] at h
    have hle : i ≤ maxmsg + 1 := h.2.2.2.1
    simp only [hpoint, ThreadPoint.rank, maxmsg] at hle ⊢
    omega

/-- The steps of `main` take it closer to its return, but for a round of its first loop. -/
theorem MainStep.rank_lt (hstep : MainStep c s s') (h : MainOk c s)
    (hsem : s.main = .wait → s.sem = .inMain) : s'.rank < s.rank := by
  unfold MainOk at h
  unfold State.rank
  cases hstep with
  | create hpoint =>
    rw [hpoint] at h
    simp [hpoint, h.1, ThreadPoint.rank]
  | spin hpoint hturn => exact absurd (hturn.symm.trans (hsem hpoint)) (by simp)
  | goOn hpoint | toJoin hpoint | killFails hpoint =>
    simp only [hpoint, MainPoint.rank]
    omega
  | toKill hpoint => simp [hpoint]
  | kill hpoint =>
    rw [hpoint] at h
    simp only [hpoint, MainPoint.rank]
    omega
  | createFails hpoint | joinFails hpoint | join hpoint | check hpoint =>
    simp [hpoint]

theorem ThreadPoint.eq_exited {point : ThreadPoint} (hgone : point.alive = false)
    (hborn : point ≠ .unborn) : point = .exited := by
  cases point with
  | unborn => exact absurd rfl hborn
  | exited => rfl
  | _ => simp at hgone

/-- Assumes: `main` has not returned, and the thread has exited or does not exist yet. `main` has a
step. -/
theorem exists_main (h : MainOk c s) (hended : s.ended = false) (hgone : s.thread.alive = false) :
    ∃ s', main c s = some s' := by
  unfold MainOk at h
  unfold main
  cases hpoint : s.main with
  | join =>
    rw [hpoint] at h
    simp only [ThreadPoint.eq_exited hgone h.1, if_true]
    exact ⟨_, rfl⟩
  | create | kill =>
    simp only
    split <;> exact ⟨_, rfl⟩
  | wait | loop | check => exact ⟨_, rfl⟩
  | returned code => simp [State.ended, hpoint] at hended

/-- Assumes: the queue is opened and some call of `mq_timedsend` fails. When the thread has exited,
`sem` is set. -/
theorem ThreadOk.sem_eq (h : ThreadOk c s) (hexited : s.thread = .exited) (hopen : c.mqOpen = true)
    (hblocks : ¬ c.NeverBlocks) : s.sem = .inMain := by
  unfold ThreadOk at h
  rw [hexited] at h
  rcases h with ⟨hclosed, -⟩ | ⟨-, hsem, -⟩ | ⟨-, hsem, -⟩ | ⟨-, -, -, hnever⟩
  · exact absurd (hclosed.symm.trans hopen) (by simp)
  · exact hsem
  · exact hsem
  · exact absurd hnever hblocks

/-- Assumes: the queue is opened and some call of `mq_timedsend` fails. Until `main` has returned, a
step of the thread or, once it has exited, of `main` makes the rank smaller. -/
theorem exists_step_rank_lt (hopen : c.mqOpen = true) (hblocks : ¬ c.NeverBlocks)
    (h : (program c).Reachable s) (hended : ¬ s.ended = true) :
    ∃ who s', (program c).next s who = some s' ∧ (program c).Reachable s' ∧ s'.rank < s.rank := by
  have hinv := inv_of_reachable h
  have hrunning : s.ended = false := by simpa using hended
  by_cases halive : s.thread.alive = true
  · obtain ⟨s', hnext⟩ : ∃ s', aThreadFunc c s = some s' := exists_aThreadFunc halive
    have hprogram : (program c).next s .thread = some s' := by
      simp [program, next, hrunning, hnext]
    exact ⟨.thread, s', hprogram, h.step hprogram,
      (threadStep_of_aThreadFunc hnext).rank_lt hinv.thread⟩
  · have hgone : s.thread.alive = false := by simpa using halive
    obtain ⟨s', hnext⟩ := exists_main hinv.main hrunning hgone
    have hsem : s.main = .wait → s.sem = .inMain := by
      intro hwait
      have hmain := hinv.main
      unfold MainOk at hmain
      rw [hwait] at hmain
      exact hinv.thread.sem_eq (ThreadPoint.eq_exited hgone hmain.1) hopen hblocks
    have hprogram : (program c).next s .main = some s' := hnext
    exact ⟨.main, s', hprogram, h.step hprogram, (mainStep_of_main hnext).rank_lt hinv.main hsem⟩

/-- Assumes: the queue is opened and some call of `mq_timedsend` fails. In every reachable state
`main` can still return. -/
theorem canReturn_of_reachable (hopen : c.mqOpen = true) (hblocks : ¬ c.NeverBlocks)
    (h : (program c).Reachable s) : CanReturn c s := by
  obtain ⟨s', hleads, -, hended⟩ := System.exists_leads_of_measure State.rank
    (fun s hreach hended ↦ exists_step_rank_lt hopen hblocks hreach hended) h
  exact ⟨s', hleads, hended⟩

/-! ### Runs that go wrong -/

/-- `main` is in its first loop, `sem` is not set, and the thread that sets it has exited. -/
structure Spins (s : State) : Prop where
  wait : s.main = .wait
  exited : s.thread = .exited
  sem : s.sem = .inThread

/-- A `main` that spins never returns. -/
theorem Spins.not_canReturn (h : Spins s) : ¬ CanReturn c s := by
  rintro ⟨s', hleads, hended⟩
  have hspins : Spins s' := by
    clear hended
    induction hleads with
    | refl => exact h
    | tail _ hnext ih =>
      obtain ⟨who, hnext⟩ := hnext
      obtain ⟨hwait, hexited, hsem⟩ := ih
      cases who with
      | main =>
        have hsame := hnext
        simp only [program, next, main, hwait, hsem, if_true, Option.some.injEq] at hsame
        exact hsame ▸ ⟨hwait, hexited, hsem⟩
      | thread => simp [program, next, aThreadFunc, hexited] at hnext
      | handler => simp [program, next, justreturnHandler, hexited] at hnext
  simp [State.ended, hspins.wait] at hended

/-- The state in which the thread has sent `count` messages and `main` is in its first loop. -/
def sending (count : ℕ) : State where
  sem := .inMain
  inHandler := false
  errnoEintr := false
  i := 0
  pending := false
  thread := .send count
  main := .wait

/-- Assumes: the thread is created, opens the queue, and sends `count` messages. -/
theorem reachable_sending (hcreate : c.pthreadCreate = true) (hopen : c.mqOpen = true) :
    ∀ {count : ℕ}, count ≤ maxmsg + 1 → (∀ j < count, c.mqTimedsend j = .success) →
      (program c).Reachable (sending count) := by
  intro count
  induction count with
  | zero =>
    intro _ _
    have hrun : (program c).runSchedule start [.main, .thread, .thread, .thread] =
        some (sending 0) := by
      simp [System.runSchedule, program, next, main, aThreadFunc, start, State.ended, hcreate,
        hopen, sending]
    exact (System.reachable_of_initial rfl).runSchedule hrun
  | succ count ih =>
    intro hle hbefore
    have hreach := ih (Nat.le_of_succ_le hle) fun j hj ↦ hbefore j (Nat.lt_succ_of_lt hj)
    have hnext : (program c).next (sending count) .thread = some (sending (count + 1)) := by
      simp [program, next, aThreadFunc, State.ended, sending, Nat.lt_of_succ_le hle,
        hbefore count (Nat.lt_succ_self count)]
    exact hreach.step hnext

/-- Assumes: the thread is created. If it cannot open the queue, or if none of its calls blocks,
`main` may spin. -/
theorem exists_spins (hcreate : c.pthreadCreate = true)
    (h : c.mqOpen = false ∨ c.NeverBlocks) : ∃ s, (program c).Reachable s ∧ Spins s := by
  cases hopen : c.mqOpen with
  | false =>
    have hrun : ∃ s, (program c).runSchedule start [.main, .thread, .thread] = some s ∧
        Spins s := by
      refine ⟨{ start with thread := .exited, main := .wait }, ?_, rfl, rfl, rfl⟩
      simp [System.runSchedule, program, next, main, aThreadFunc, start, State.ended, hcreate,
        hopen]
    obtain ⟨s, hrun, hspins⟩ := hrun
    exact ⟨s, (System.reachable_of_initial rfl).runSchedule hrun, hspins⟩
  | true =>
    have hnever := h.resolve_left (by simp [hopen])
    have hreach := reachable_sending hcreate hopen (Nat.le_refl _) hnever
    have hrun : (program c).runSchedule (sending (maxmsg + 1)) [.thread, .thread] =
        some { start with thread := .exited, main := .wait } := by
      simp [System.runSchedule, program, next, aThreadFunc, sending, start, State.ended]
    exact ⟨_, hreach.runSchedule hrun, rfl, rfl, rfl⟩

/-- The state in which the thread has exited with `sem` set before any signal was sent, and `main`
has sent `count` signals. -/
def killing (count : ℕ) : State where
  sem := .inMain
  inHandler := false
  errnoEintr := false
  i := count
  pending := false
  thread := .exited
  main := .loop

/-- Assumes: the thread is created and opens the queue, a call fails with another error than
`EINTR`, and the signals can be sent. -/
theorem reachable_killing (hcreate : c.pthreadCreate = true) (hopen : c.mqOpen = true)
    (hfirst : c.FirstFailure .error) :
    ∀ {count : ℕ}, count ≤ 10 → c.Kills count → (program c).Reachable (killing count) := by
  intro count
  induction count with
  | zero =>
    intro _ _
    obtain ⟨k, hlt, hbefore, hfails⟩ := hfirst
    have hreach := reachable_sending hcreate hopen (Nat.le_of_lt hlt) hbefore
    have hrun : (program c).runSchedule (sending k) [.thread, .main] = some (killing 0) := by
      simp [System.runSchedule, program, next, main, aThreadFunc, sending, State.ended, hlt,
        hfails, killing]
    exact hreach.runSchedule hrun
  | succ count ih =>
    intro hle hkills
    have hreach := ih (Nat.le_of_succ_le hle) fun j hj ↦ hkills j (Nat.lt_succ_of_lt hj)
    have hne : count ≠ 10 := Nat.ne_of_lt hle
    have hrun : (program c).runSchedule (killing count) [.main, .main] =
        some (killing (count + 1)) := by
      simp [System.runSchedule, program, next, main, killing, hne,
        hkills count (Nat.lt_succ_self count)]
    exact hreach.runSchedule hrun

/-- Assumes: all calls succeed, but for one of `mq_timedsend` that fails with another error than
`EINTR`. The test may pass without `EINTR`. -/
theorem exists_wrongPass (hcreate : c.pthreadCreate = true) (hopen : c.mqOpen = true)
    (hfirst : c.FirstFailure .error) (hkills : c.Kills 10) (hjoin : c.pthreadJoin = true) :
    ∃ s, (program c).Reachable s ∧ s.main = .returned ptsPass ∧ s.errnoEintr = false := by
  have hreach := reachable_killing hcreate hopen hfirst (Nat.le_refl 10) hkills
  have hrun : (program c).runSchedule (killing 10) [.main, .main, .main] =
      some { killing 10 with main := .returned ptsPass } := by
    simp [System.runSchedule, program, next, main, killing, hjoin, verdict]
  exact ⟨_, hreach.runSchedule hrun, rfl, rfl⟩

/-! ### The results of the calls -/

/-- The results for which the test works: the thread is not created; or it opens the queue, and its
first call of `mq_timedsend` that fails does so with `EINTR`, or with another error and then a
signal cannot be sent or the thread not be joined. -/
def Calls.Interrupts (c : Calls) : Prop :=
  c.pthreadCreate = false ∨ (c.mqOpen = true ∧
    (c.FirstFailure .eintr ∨
      (c.FirstFailure .error ∧ ¬ (c.Kills 10 ∧ c.pthreadJoin = true))))

/-- `main` has returned because the thread was not created. -/
def notCreated : State := { start with main := .returned ptsUnresolved }

/-- The states of a run in which the thread is not created. -/
def Uncreated (s : State) : Prop := s = start ∨ s = notCreated

/-- Assumes: the thread is not created. `main` returns at once, and not with `PTS_PASS`. -/
theorem returns_of_createFails (hcreate : c.pthreadCreate = false)
    (h : (program c).Reachable s) : CanReturn c s ∧ s.main ≠ .returned ptsPass := by
  have hnext : (program c).next start .main = some notCreated := by
    simp [program, next, main, start, hcreate, notCreated]
  have hcases : Uncreated s := by
    refine h.invariant (fun _ hs ↦ .inl hs) fun s who s' _ hinv hstep ↦ ?_
    rcases hinv with rfl | rfl
    · cases who with
      | main => exact .inr (Option.some.inj (hstep.symm.trans hnext))
      | thread => simp [program, next, aThreadFunc, start] at hstep
      | handler => simp [program, next, justreturnHandler, start] at hstep
    · cases who <;> simp [program, next, main, State.ended, notCreated] at hstep
  rcases hcases with rfl | rfl
  · exact ⟨⟨_, System.leads_of_next hnext, rfl⟩, by simp [start]⟩
  · exact ⟨⟨_, .refl _, rfl⟩, by simp [notCreated]⟩

/-- For given results of the calls: in every reachable state of every interleaving `main` can still
return, and if it has returned `PTS_PASS` then the thread has seen `EINTR`, exactly for the results
for which the test works. -/
theorem interrupted_iff (c : Calls) :
    (∀ s, (program c).Reachable s →
      CanReturn c s ∧ (s.main = .returned ptsPass → s.errnoEintr = true)) ↔ c.Interrupts := by
  constructor
  · intro hall
    by_contra hnot
    obtain ⟨hcreate, hrest⟩ := not_or.mp hnot
    have hcreate : c.pthreadCreate = true := by simpa using hcreate
    by_cases hspins : c.mqOpen = false ∨ c.NeverBlocks
    · obtain ⟨s, hreach, hs⟩ := exists_spins hcreate hspins
      exact hs.not_canReturn (hall s hreach).1
    · -- The queue is opened and a call fails: it is the verdict that goes wrong.
      obtain ⟨hopen, hblocks⟩ := not_or.mp hspins
      have hopen : c.mqOpen = true := by simpa using hopen
      have hfirst : c.FirstFailure .error := by
        rcases c.cases with heintr | herror | hnever
        · exact absurd ⟨hopen, .inl heintr⟩ hrest
        · exact herror
        · exact absurd hnever hblocks
      have hcalls : c.Kills 10 ∧ c.pthreadJoin = true :=
        by_contra fun hfails ↦ hrest ⟨hopen, .inr ⟨hfirst, hfails⟩⟩
      obtain ⟨s, hreach, hpass, herrno⟩ :=
        exists_wrongPass hcreate hopen hfirst hcalls.1 hcalls.2
      exact absurd ((hall s hreach).2 hpass) (by simp [herrno])
  · rintro (hcreate | ⟨hopen, hfails⟩) s hreach
    · obtain ⟨hreturn, hne⟩ := returns_of_createFails hcreate hreach
      exact ⟨hreturn, fun hpass ↦ absurd hpass hne⟩
    · have hblocks : ¬ c.NeverBlocks := by
        rcases hfails with heintr | ⟨herror, -⟩
        · exact heintr.not_neverBlocks (by simp)
        · exact herror.not_neverBlocks (by simp)
      refine ⟨canReturn_of_reachable hopen hblocks hreach, fun hpass ↦ ?_⟩
      have hmain := (inv_of_reachable hreach).main
      unfold MainOk at hmain
      rw [hpass] at hmain
      rcases hmain rfl with herrno | ⟨herror, hkills, hjoin⟩
      · exact herrno
      · rcases hfails with heintr | ⟨-, hnot⟩
        · exact absurd (heintr.unique herror (by simp) (by simp)) (by simp)
        · exact absurd ⟨hkills, hjoin⟩ hnot

/-- `mq_open` fails, and every other call succeeds. -/
def openFails : Calls := ⟨true, false, fun _ ↦ .success, true, fun _ ↦ true, true⟩

/-- The queue is full after ten messages, and the eleventh call fails with another error than
`EINTR`, such as `ETIMEDOUT`. -/
def timesOut : Calls :=
  ⟨true, true, fun i ↦ if i < 10 then .success else .error, true, fun _ ↦ true, true⟩

/-- If `mq_open` fails, `main` may spin for ever. If a call of `mq_timedsend` times out, the test
may pass without `EINTR`. -/
theorem spins_or_passes :
    (∃ s, (program openFails).Reachable s ∧ ¬ CanReturn openFails s) ∧
      ∃ s, (program timesOut).Reachable s ∧ s.main = .returned ptsPass ∧
        s.errnoEintr = false := by
  constructor
  · obtain ⟨s, hreach, hspins⟩ := exists_spins (c := openFails) rfl (.inl rfl)
    exact ⟨s, hreach, hspins.not_canReturn⟩
  · have hfirst : timesOut.FirstFailure .error :=
      ⟨10, by decide, fun j hj ↦ if_pos hj, rfl⟩
    exact exists_wrongPass rfl rfl hfirst (fun _ _ ↦ rfl) rfl

end OpenPosix.MessageQueues.TimedSend

import OpenPosix.CondVars.ClockTestInvariant

/-!
# When the two waiters are found to differ

The test should not fail when both condition variables use the clock that is set. It does when one
wait ends by its timeout and the other one by a signal: the parent looks only at the waiter with
default attributes before it signals both, and a waiter that the signal has unblocked returns zero
although its timeout has expired. `csTest_spec`: the test ends, and its result is zero exactly if
the two threads were unblocked alike the last time, both by the expiry or both otherwise.
-/

namespace OpenPosix.CondVars.ClockTest

open Interleaving Words Function

variable {s s' : State} {side : Side} {trace : List (State × Move)}

/-! ### What the waits have returned -/

variable {move : Move} {other : Side}

/-- What the last wait of a thread has returned, or is about to. -/
@[simp] def State.returned (s : State) (side : Side) : Option Rc :=
  match s.waiter side with
  | .woken rc | .store rc => some rc
  | .count | .test | .awaken | .timeout | .unlock | .exited => some (s.data side).rc
  | .unborn | .lock | .mark | .wait | .blocked => none

/-- What a step does to the outcome of the wait of one side: it leaves it, or starts another wait,
or unblocks the thread. -/
def Keeps (side : Side) (s : State) (move : Move) (s' : State) : Prop :=
  match unblocks side (s, move) with
  | none => ∀ rc, s'.returned side = some rc → s.returned side = some rc
  | some expired => s'.returned side = some (if expired then .etimedout else .zero)

theorem keeps_of_same (hmove : unblocks side (s, move) = none)
    (hwaiter : s'.waiter side = s.waiter side) (hrc : (s'.data side).rc = (s.data side).rc) :
    Keeps side s move s' := by
  simp only [Keeps, hmove]
  intro rc hrc'
  rw [State.returned, hwaiter, hrc] at hrc'
  exact hrc'

/-- A thread goes on without unblocking anybody. -/
theorem keeps_testTimeout (hstep : testTimeout s other = some s') :
    Keeps side s (.thread (.waiter other)) s' := by
  by_cases heq : side = other
  · subst heq
    intro rc hrc
    unfold testTimeout at hstep
    cases hpoint : s.waiter side <;> simp only [hpoint, reduceCtorEq] at hstep
    case lock =>
      obtain ⟨-, rfl⟩ := map_mutexLock_eq_some_iff.mp hstep
      simp at hrc
    case woken rc' =>
      obtain ⟨-, rfl⟩ := map_mutexLock_eq_some_iff.mp hstep
      simpa [hpoint] using hrc
    case mark | wait =>
      cases hstep
      simp at hrc
    case store rc' | count | unlock =>
      cases hstep
      simpa [hpoint] using hrc
    case test =>
      cases hstep
      split_ifs at hrc
      · simp at hrc
      · simpa [hpoint] using hrc
    case awaken | timeout =>
      cases hstep
      split_ifs at hrc
      all_goals
        simpa [DataTest.setFlag, hpoint] using hrc
  · have hwaiter : s'.waiter side = s.waiter side ∧ s'.data side = s.data side := by
      unfold testTimeout at hstep
      cases hpoint : s.waiter other <;>
        simp only [hpoint, Option.map_eq_some_iff, Option.some.injEq, reduceCtorEq] at hstep
      case lock | woken =>
        obtain ⟨owner, -, rfl⟩ := hstep
        simp [update_of_ne heq]
      case awaken | timeout =>
        subst hstep
        split_ifs <;> simp [update_of_ne heq]
      all_goals
        subst hstep
        simp [update_of_ne heq]
    exact keeps_of_same rfl hwaiter.1 (by rw [hwaiter.2])

/-- The parent signals the condition of one side. -/
theorem keeps_condSignal {point : ParentPoint}
    (hparent : s.parent = .signal other ∨ s.parent = .wake other) :
    Keeps side s (.thread .parent) ((s.condSignal other).setParent point) := by
  have hsame :
      side ≠ other → ((s.condSignal other).setParent point).waiter side = s.waiter side := by
    intro hne
    simp [update_of_ne hne]
  by_cases heq : side = other
  · subst heq
    by_cases hblocked : s.waiter side = .blocked
    · have hmove : unblocks side (s, .thread .parent) = some false := by
        simp [unblocks, hparent, hblocked]
      simp [Keeps, hmove, hblocked, WaiterPoint.unblock]
    · refine keeps_of_same (by simp [unblocks, hblocked]) ?_ rfl
      cases hpoint : s.waiter side <;>
        simp_all [WaiterPoint.unblock]
  · refine keeps_of_same ?_ (hsame heq) rfl
    rcases hparent with hparent | hparent <;> simp [unblocks, hparent, Ne.symm heq]

theorem keeps_doCsTest (hstep : doCsTest s = some s') : Keeps side s (.thread .parent) s' := by
  unfold doCsTest at hstep
  cases hparent : s.parent <;> simp only [hparent, reduceCtorEq] at hstep
  case create other =>
    cases other with
    | D | N =>
      cases hstep
      simp only [Keeps, unblocks, hparent, reduceCtorEq, false_or, false_and, if_false]
      intro rc hrc
      cases side <;> simp_all
  case signal other =>
    cases other <;> cases hstep <;> exact keeps_condSignal (.inl hparent)
  case wake other =>
    cases hstep
    exact keeps_condSignal (.inr hparent)
  case setWake other =>
    cases hstep
    refine keeps_of_same (by simp [unblocks, hparent]) rfl ?_
    by_cases heq : side = other
    · subst heq
      simp [DataTest.setFlag]
    · simp [update_of_ne heq]
  case lock other =>
    obtain ⟨-, rfl⟩ := map_mutexLock_eq_some_iff.mp hstep
    exact keeps_of_same (by simp [unblocks, hparent]) rfl rfl
  case relock again other =>
    cases other with
    | N | D =>
      obtain ⟨-, rfl⟩ := map_mutexLock_eq_some_iff.mp hstep
      exact keeps_of_same (by simp [unblocks, hparent]) rfl rfl
  case release again other =>
    cases other <;> cases hstep <;> exact keeps_of_same (by simp [unblocks, hparent]) rfl rfl
  case join other | joinWoken other =>
    split_ifs at hstep
    cases hstep
    exact keeps_of_same (by simp [unblocks, hparent]) rfl rfl
  all_goals
    cases hstep
    exact keeps_of_same (by simp [unblocks, hparent]) rfl rfl

/-- A thread is unblocked by the expiry of its timeout, or spuriously. -/
theorem keeps_unblocked {rc : Rc} (hmove : unblocks side (s, move) =
      if other = side then some (decide (rc = .etimedout)) else none)
    (hstep : unblocked s other rc = some s') : Keeps side s move s' := by
  obtain ⟨-, ⟨⟩⟩ := Option.ite_none_right_eq_some.mp hstep
  by_cases heq : other = side
  · subst heq
    simp only [Keeps, hmove]
    cases rc <;> simp
  · rw [if_neg heq] at hmove
    exact keeps_of_same hmove (by simp [update_of_ne (Ne.symm heq)]) rfl

theorem keeps_next (hstep : next s move = some s') : Keeps side s move s' := by
  cases move with
  | thread thread =>
    cases thread with
    | parent => exact keeps_doCsTest hstep
    | waiter other => exact keeps_testTimeout hstep
  | expire other =>
    simp only [next, Option.ite_none_right_eq_some] at hstep
    exact keeps_unblocked (by simp [unblocks]) hstep.2
  | spurious other => exact keeps_unblocked (by simp [unblocks]) hstep

theorem expiredLast_append (move : Move) : expiredLast side (trace ++ [(s, move)]) =
      (unblocks side (s, move)).getD (expiredLast side trace) := by
  simp only [expiredLast, List.filterMap_append, List.filterMap_cons, List.filterMap_nil]
  cases hmove : unblocks side (s, move) with
  | none => simp
  | some expired => cases expired <;> simp

/-- What a wait returns says how it has ended. -/
theorem expiredLast_of_returned (h : program.Exec trace s) {rc : Rc}
    (hrc : s.returned side = some rc) : expiredLast side trace = decide (rc = .etimedout) := by
  induction h generalizing rc with
  | start hinitial =>
    obtain rfl := hinitial
    simp [start] at hrc
  | @step trace state state' move _ hnext ih =>
    have hkeeps : Keeps side state move state' := keeps_next hnext
    rw [expiredLast_append]
    cases hmove : unblocks side (state, move) with
    | none =>
      simp only [Keeps, hmove] at hkeeps
      exact ih (hkeeps rc hrc)
    | some expired =>
      simp only [Keeps, hmove, hrc, Option.some.injEq] at hkeeps
      rw [hkeeps]
      cases expired <;> rfl

/-! ### The test can be brought to its end -/

/-- A bound on the steps of a thread that nobody unblocks. -/
def WaiterPoint.weight : WaiterPoint → ℕ
  | .lock => 14
  | .mark => 13
  | .woken _ => 12
  | .store _ => 11
  | .count => 10
  | .test => 9
  | .wait => 8
  | .blocked => 7
  | .awaken => 6
  | .timeout => 5
  | .unlock => 4
  | .unborn | .exited => 0

/-- A bound on the steps of the parent, if it looks at a thread only when that has started waiting.
-/
def ParentPoint.rank : ParentPoint → ℕ
  | .create .D => 96
  | .create .N => 80
  | .look .N => 61
  | .unlock .N => 63
  | .lock .N => 62
  | .look .D => 57
  | .unlock .D => 59
  | .lock .D => 58
  | .setClock => 56
  | .release false .D => 55
  | .release false .N => 54
  | .relock false .N => 53
  | .relock false .D => 52
  | .check => 51
  | .signal .N => 50
  | .signal .D => 40
  | .release true .D => 31
  | .release true .N => 30
  | .relock true .N => 29
  | .relock true .D => 28
  | .process .N => 27
  | .setWake .N => 26
  | .wake .N => 25
  | .join .N | .unlockWaker .N => 16
  | .unlockJoined .N | .joinWoken .N => 15
  | .process .D => 14
  | .setWake .D => 13
  | .wake .D => 12
  | .join .D | .unlockWaker .D => 3
  | .unlockJoined .D | .joinWoken .D => 2
  | .compare => 1
  | .ended _ | .unresolved => 0

@[simp] def ParentPoint.again (started : Side → Bool) : ParentPoint → ℕ
  | .look side => if started side then 0 else 3
  | _ => 0

def State.rank (s : State) : ℕ :=
  s.parent.rank + s.parent.again fun side ↦ (s.waiter side).started

def State.remaining (s : State) : ℕ :=
  s.rank + ((s.waiter .N).weight + (s.waiter .D).weight)

theorem again_antitone (point : ParentPoint) {started started' : Side → Bool}
    (h : ∀ side, started side = true → started' side = true) :
    point.again started' ≤ point.again started := by
  cases point with
  | look side =>
    cases hstarted : started side with
    | true => simp [h side hstarted]
    | false =>
      simp only [ParentPoint.again, hstarted, Bool.false_eq_true, if_false]
      split_ifs <;> omega
  | _ => exact le_rfl

/-- Some thread has a step that brings the end of the test nearer. -/
def Advances (s : State) : Prop :=
  ∃ thread s', next s (.thread thread) = some s' ∧ s'.remaining < s.remaining

theorem advances_waiter (point : WaiterPoint) (s' : State) (hstep : testTimeout s side = some s')
    (hparent : s'.parent = s.parent) (hwaiter : s'.waiter = update s.waiter side point)
    (hstarted : (s.waiter side).started = true → point.started = true)
    (hweight : point.weight < (s.waiter side).weight) : Advances s := by
  refine ⟨.waiter side, s', hstep, ?_⟩
  have hrank : s'.rank ≤ s.rank := by
    rw [State.rank, State.rank, hparent]
    refine Nat.add_le_add_left (again_antitone s.parent fun other hother ↦ ?_) _
    rw [hwaiter]
    by_cases heq : other = side
    · subst heq
      rw [update_self]
      exact hstarted hother
    · rw [update_of_ne heq]
      exact hother
  have hsum : (s'.waiter .N).weight + (s'.waiter .D).weight <
      (s.waiter .N).weight + (s.waiter .D).weight := by
    rw [hwaiter]
    cases side <;> simpa [update_apply] using hweight
  simp only [State.remaining]
  omega

/-- A thread that needs its mutex gets it when that is free. -/
theorem advances_lock (hfree : s.mtx side = none)
    (hpoint : s.waiter side = .lock ∨ ∃ rc, s.waiter side = .woken rc) : Advances s := by
  rcases hpoint with hpoint | ⟨rc, hpoint⟩
  · refine advances_waiter .mark ((s.setMtx side (some (.waiter side))).goto side .mark) ?_ rfl rfl
      ?_ ?_
    · simp [testTimeout, hpoint, hfree, mutexLock]
    · simp [hpoint]
    · simp [hpoint, WaiterPoint.weight]
  · refine advances_waiter (.store rc) ((s.setMtx side (some (.waiter side))).goto side (.store rc))
      ?_ rfl rfl (fun _ ↦ rfl) ?_
    · simp [testTimeout, hpoint, hfree, mutexLock]
    · simp [hpoint, WaiterPoint.weight]

theorem exists_testTimeout (hholds : (s.waiter side).holds = true) :
    ∃ s' point, testTimeout s side = some s' ∧ s'.parent = s.parent ∧
      s'.waiter = update s.waiter side point ∧ point.started = true ∧
        point.weight < (s.waiter side).weight := by
  unfold testTimeout
  cases hpoint : s.waiter side with
  | mark => exact ⟨_, .wait, rfl, rfl, rfl, rfl, by decide⟩
  | wait => exact ⟨_, .blocked, rfl, rfl, rfl, rfl, by decide⟩
  | store rc => exact ⟨_, .count, rfl, rfl, rfl, rfl, by simp [WaiterPoint.weight]⟩
  | count => exact ⟨_, .test, rfl, rfl, rfl, rfl, by decide⟩
  | test =>
    refine ⟨_, _, rfl, rfl, rfl, ?_, ?_⟩
    all_goals split_ifs <;> decide
  | awaken =>
    refine ⟨_, .timeout, rfl, ?_, ?_, rfl, by decide⟩
    all_goals split_ifs <;> rfl
  | timeout =>
    refine ⟨_, .unlock, rfl, ?_, ?_, rfl, by decide⟩
    all_goals split_ifs <;> rfl
  | unlock => exact ⟨_, .exited, rfl, rfl, rfl, rfl, by decide⟩
  | _ => simp [hpoint, WaiterPoint.holds] at hholds

theorem advances_holder (hholds : (s.waiter side).holds = true) : Advances s := by
  obtain ⟨s', point, hstep, hparent, hwaiter, hstarted, hweight⟩ := exists_testTimeout hholds
  exact advances_waiter point s' hstep hparent hwaiter (fun _ ↦ hstarted) hweight

/-- The thread of a side goes on if it has the mutex of that side, and nobody else does unless the
parent does. -/
theorem Inv.advances_or_free (h : Inv s) (side : Side) (hparent : s.parent.holds side = false) :
    Advances s ∨ s.mtx side = none := by
  by_cases hfree : s.mtx side = none
  · exact .inr hfree
  · obtain ⟨thread, hthread⟩ := Option.ne_none_iff_exists'.mp hfree
    have hholds := ((h.side side).owned thread).mp hthread
    cases thread with
    | parent =>
      have hholds' : s.parent.holds side = true := hholds
      simp [hparent] at hholds'
    | waiter other =>
      obtain ⟨rfl, hwaiter⟩ := hholds
      exact .inl (advances_holder hwaiter)

/-- A signal adds less to the steps of a thread than the parent has had to do for it. -/
theorem WaiterPoint.weight_unblock_le (point : WaiterPoint) :
    (point.unblock .zero).weight ≤ point.weight + 5 := by
  cases point <;> simp [unblock, weight]

theorem ParentPoint.rank_of_finished {point : ParentPoint} (h : point.unfinished = false)
    (started : Side → Bool) : point.rank + point.again started = 0 := by
  cases point <;> simp_all [rank]

theorem remaining_lt_of_rank (hwaiter : s'.waiter = s.waiter) (hrank : s'.rank < s.rank) :
    s'.remaining < s.remaining := by
  rw [State.remaining, State.remaining, hwaiter]
  omega

/-- A step of the parent brings the end of the test nearer, unless it is going to look at a thread
that has not started waiting. -/
theorem Inv.remaining_lt (h : Inv s) (hstep : ClockTest.doCsTest s = some s')
    (hseen : ∀ side, s.parent = .lock side → (s.waiter side).started = true) :
    s'.remaining < s.remaining := by
  unfold ClockTest.doCsTest at hstep
  cases hparent : s.parent <;> simp only [hparent, reduceCtorEq] at hstep
  case create side =>
    have hunborn : s.waiter side = .unborn := by
      refine (h.side side).unborn.mpr ?_
      rw [hparent]
      cases side <;> rfl
    cases side with
    | D | N =>
      cases hstep
      simp [State.remaining, State.rank, hparent, hunborn, ParentPoint.rank, WaiterPoint.weight]
      omega
  case lock side =>
    obtain ⟨-, rfl⟩ := map_mutexLock_eq_some_iff.mp hstep
    refine remaining_lt_of_rank rfl ?_
    simp only [State.rank, State.setMtx, State.setParent, hparent, ParentPoint.again,
      hseen side hparent, if_true]
    cases side <;> decide
  case look side =>
    have hinwait := (h.side side).inwait
    cases hstep
    refine remaining_lt_of_rank rfl ?_
    cases hstarted : (s.waiter side).started <;> cases side <;>
      simp only [State.rank, State.setParent, hparent, ParentPoint.again, hinwait, hstarted,
        if_true, Bool.false_eq_true, if_false] <;> decide
  case release again side =>
    cases side <;> cases hstep <;> cases again <;>
      simp [State.remaining, State.rank, hparent, ParentPoint.rank]
  case relock again side =>
    cases side with
    | N | D =>
      obtain ⟨-, rfl⟩ := map_mutexLock_eq_some_iff.mp hstep
      cases again <;> simp [State.remaining, State.rank, hparent, ParentPoint.rank]
  case signal side =>
    have hless := (s.waiter side).weight_unblock_le
    cases side <;> cases hstep <;> simp [State.remaining, State.rank, hparent, ParentPoint.rank] <;>
      omega
  case wake side =>
    have hless := (s.waiter side).weight_unblock_le
    cases hstep
    cases side <;> simp [State.remaining, State.rank, hparent, ParentPoint.rank] <;> omega
  case join side | joinWoken side =>
    split_ifs at hstep
    cases hstep
    cases side <;> simp [State.remaining, State.rank, hparent, processed, ParentPoint.rank]
  case compare =>
    have hlast : (ClockTest.compare 0 (s.data .N) (s.data .D)).unfinished = false := by
      unfold ClockTest.compare
      split_ifs <;> rfl
    cases hstep
    refine remaining_lt_of_rank rfl ?_
    simp only [State.rank, State.setParent, ParentPoint.rank_of_finished hlast, hparent]
    simp [ParentPoint.rank]
  case setClock =>
    cases hstep
    simp [State.remaining, State.rank, hparent, ParentPoint.rank]
  case check =>
    cases hstep
    split_ifs <;> simp [State.remaining, State.rank, hparent, ParentPoint.rank]
  case process side =>
    cases hstep
    cases side <;> split_ifs <;> simp [State.remaining, State.rank, hparent, ParentPoint.rank]
  case unlock side | unlockJoined side | setWake side | unlockWaker side =>
    cases hstep
    cases side <;> simp [State.remaining, State.rank, hparent, processed, ParentPoint.rank]

/-- A thread that has not started waiting can get to its wait, when its mutex is free. -/
theorem Inv.advances_unseen (h : Inv s) (hparent : s.parent = .lock side)
    (hfree : s.mtx side = none) (hstarted : (s.waiter side).started = false) : Advances s := by
  have hok := h.side side
  refine advances_lock hfree (.inl ?_)
  have hborn : s.waiter side ≠ .unborn := by
    intro hunborn
    have habsent := hok.unborn.mp hunborn
    rw [hparent] at habsent
    cases side <;> simp [ParentPoint.absent] at habsent
  have hout := hok.owned.not_holds hfree (.waiter side)
  cases hpoint : s.waiter side <;> simp_all [Holds, WaiterPoint.holds]

/-- The parent joins a thread with `FLAG_TIMEDOUT`, which has returned. -/
theorem Inv.exited_of_join (h : Inv s) (hparent : s.parent = .join side) :
    s.waiter side = .exited := by
  have hok := h.side side
  rw [hparent] at hok
  have hflagged := (hok.timedout.mp (hok.joins (by cases side <;> rfl))).1
  rcases hok.blocked_cases (by cases side <;> rfl) (by cases side <;> rfl) with
    hpoint | ⟨rc, hpoint⟩ | hpoint
  · simp [hpoint] at hflagged
  · simp [hpoint] at hflagged
  · exact hpoint

/-- The parent waits for a thread that it has signalled. -/
theorem Inv.advances_joinWoken (h : Inv s) (hparent : s.parent = .joinWoken side)
    (hlive : s.waiter side ≠ .exited) : Advances s := by
  have hok := h.side side
  have hleaves : (s.waiter side).leaves = true := by
    refine (hok.leaves ?_).2
    rw [hparent]
    cases side <;> rfl
  rcases h.advances_or_free side (by rw [hparent]; cases side <;> rfl) with hadvances | hfree
  · exact hadvances
  · have hout := hok.owned.not_holds hfree (.waiter side)
    cases hpoint : s.waiter side with
    | woken rc => exact advances_lock hfree (.inr ⟨rc, hpoint⟩)
    | exited => exact absurd hpoint hlive
    | store | count | test | awaken | timeout | unlock =>
      simp [Holds, hpoint, WaiterPoint.holds] at hout
    | _ => simp [hpoint] at hleaves

theorem Inv.advances (h : Inv s) (hended : ∀ result, s.parent ≠ .ended result) : Advances s := by
  cases hstep : ClockTest.doCsTest s with
  | some s' =>
    by_cases hseen : ∀ side, s.parent = .lock side → (s.waiter side).started = true
    · exact ⟨.parent, s', hstep, h.remaining_lt hstep hseen⟩
    · obtain ⟨side, hnot⟩ := not_forall.mp hseen
      obtain ⟨hparent, hstarted⟩ := Classical.not_imp.mp hnot
      simp only [ClockTest.doCsTest, hparent] at hstep
      exact h.advances_unseen hparent (map_mutexLock_eq_some_iff.mp hstep).1
        (by simpa using hstarted)
  | none =>
    -- The parent waits for a mutex or for a thread.
    cases hparent : s.parent with
    | ended result => exact absurd hparent (hended result)
    | unresolved => exact absurd hparent h.resolved
    | lock side =>
      refine (h.advances_or_free side (by rw [hparent]; cases side <;> rfl)).resolve_right ?_
      intro hfree
      simp [ClockTest.doCsTest, hparent, hfree, mutexLock] at hstep
    | relock again side =>
      refine (h.advances_or_free side (by rw [hparent]; cases side <;> rfl)).resolve_right ?_
      intro hfree
      cases side <;> simp [ClockTest.doCsTest, hparent, hfree, mutexLock] at hstep
    | join side => simp [ClockTest.doCsTest, hparent, h.exited_of_join hparent] at hstep
    | joinWoken side =>
      simp only [ClockTest.doCsTest, hparent, ite_eq_right_iff, reduceCtorEq, imp_false] at hstep
      exact h.advances_joinWoken hparent hstep
    | create side | release again side | signal side =>
      cases side <;> simp [ClockTest.doCsTest, hparent] at hstep
    | _ => simp [ClockTest.doCsTest, hparent] at hstep

/-- From every state the test can be brought to its end, without expiries and spurious wake-ups. -/
theorem Inv.exists_ended (h : Inv s) :
    ∃ s' result, (program.restrict Move.ofThread).Leads s s' ∧ s'.parent = .ended result := by
  have hstep : ∀ state : State, Inv state → ¬ (∃ result, state.parent = .ended result) →
      ∃ move state', (program.restrict Move.ofThread).next state move = some state' ∧ Inv state' ∧
        state'.remaining < state.remaining := by
    intro state hinv hended
    obtain ⟨thread, state', hnext, hless⟩ :=
      hinv.advances fun result hresult ↦ hended ⟨result, hresult⟩
    exact ⟨.thread thread, state', System.restrict_next_eq_some_iff.mpr ⟨rfl, hnext⟩,
      hinv.next hnext, hless⟩
  obtain ⟨s', hleads, -, result, hended⟩ :=
    System.exists_leads_of_measure State.remaining hstep h
  exact ⟨s', result, hleads, hended⟩

/-- For every interleaving, and however the threads are unblocked after the clock has been set: the
test can be brought to its end, does not end unresolved, and its result is zero exactly if both
threads or none of them were unblocked the last time by the expiry of their timeout. -/
theorem csTest_spec (h : program.Exec trace s) :
    (∃ s' result, (program.restrict Move.ofThread).Leads s s' ∧ s'.parent = .ended result) ∧
      s.parent ≠ .unresolved ∧
        ∀ result, s.parent = .ended result →
          (result = 0 ↔ expiredLast .N trace = expiredLast .D trace) := by
  have hinv := inv_of_reachable ⟨trace, h⟩
  refine ⟨hinv.exists_ended, hinv.resolved, fun result hended ↦ ?_⟩
  have hlast : ∀ side, expiredLast side trace = decide ((s.data side).rc = .etimedout) := by
    intro side
    refine expiredLast_of_returned h ?_
    have hexited := (hinv.side side).joined (by rw [hended]; rfl)
    simp [hexited]
  rw [hinv.verdict result hended, hlast, hlast]
  cases hN : (s.data .N).rc <;> cases hD : (s.data .D).rc <;> simp

/-- Both threads wait, and the parent has set the clock and returned the mutexes. -/
def untilClockSet : List Move :=
  List.flatten [.replicate 2 (.thread .parent), .replicate 3 (.thread (.waiter .D)),
    .replicate 3 (.thread (.waiter .N)), .replicate 7 (.thread .parent)]

theorem csTest_spec_expired :
    ∃ (trace : List (State × Move)) (s : State), program.Exec trace s ∧ s.parent = .ended 0 ∧
      expiredLast .N trace = expiredLast .D trace := by
  obtain ⟨s, hrun, hended⟩ : ∃ s, program.runSchedule start (List.flatten [untilClockSet,
      [.expire .N, .expire .D], .replicate 7 (.thread (.waiter .N)),
      .replicate 7 (.thread (.waiter .D)), .replicate 10 (.thread .parent)]) = some s ∧
        s.parent = .ended 0 := System.exists_of_replay (by decide +kernel)
  have hexec := (System.Exec.start (P := program) rfl).runSchedule hrun
  obtain ⟨-, -, hresult⟩ := csTest_spec hexec
  exact ⟨_, s, hexec, hended, (hresult 0 hended).mp rfl⟩

/-- The wait of one thread expires. The parent finds that the other one has not returned, signals
it, and has the mutex again before that thread does. -/
theorem differ_after_signal :
    ∃ (trace : List (State × Move)) (s : State), program.Exec trace s ∧ s.parent = .ended 1 := by
  obtain ⟨s, hrun, hended⟩ : ∃ s, program.runSchedule start (List.flatten [untilClockSet,
      [.expire .N], .replicate 7 (.thread (.waiter .N)), .replicate 16 (.thread .parent),
      .replicate 7 (.thread (.waiter .D)), .replicate 2 (.thread .parent)]) = some s ∧
        s.parent = .ended 1 := System.exists_of_replay (by decide +kernel)
  exact ⟨_, s, (System.Exec.start (P := program) rfl).runSchedule hrun, hended⟩

end OpenPosix.CondVars.ClockTest

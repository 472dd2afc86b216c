import OpenPosix.CondVars.SharedResults

/-!
# The counters of the waits

A thread of the child counts up before and after every wait, both times with its mutex, and sets
its counter to zero when a wait has failed. So its counter is odd whenever it has given the mutex
away inside a wait, however often it was woken, and the parent, which looks at a counter only with
the mutex, finds an odd number or zero as long as it has not set `bool` (`CounterOk`). An even
counter cannot be found by `parent_process`.

The parent sets `bool` with all three mutexes in its hands, and it has got them only after every
thread has posted `semA` once (`StageOk`). At that moment every thread is inside its wait or has
returned, and the signals of the main thread of the child reach it; a thread that the parent has
used up has got the signal of that round (`Kept`). `counter_parity` is the result.
-/

namespace OpenPosix.CondVars.Shared

open Interleaving Function

variable {s s' : State} {w : Cond} {choice : Choice} {bool : Bool} {cntr : ℕ}

/-! ### The counter of a thread -/

variable {point : ThreadPoint}

/-- What the counter of a thread can be at the points of the thread. -/
def CounterOk (bool : Bool) (cntr : ℕ) : ThreadPoint → Prop
  | .unborn | .start | .lock | .post => cntr = 0
  | .count | .test _ => cntr % 2 = 0
  | .wait | .blocked | .usedUp | .woken | .incr _ => cntr % 2 = 1
  | .zero => True
  | .unlock | .returned => cntr = 0 ∨ bool = true

theorem CounterOk.stirs {point' : ThreadPoint} (h : CounterOk bool cntr point)
    (hstirs : point.Stirs point') : CounterOk bool cntr point' :=
  (hstirs.eq (CounterOk bool cntr) rfl rfl).mpr h

theorem CounterOk.setBool (h : CounterOk bool cntr point) : CounterOk true cntr point := by
  cases point with
  | unlock | returned => exact .inr rfl
  | _ => exact h

/-- Without its mutex a thread leaves an odd counter or zero. -/
theorem CounterOk.zero_or_odd (h : CounterOk false cntr point) (hholds : point.holds = false) :
    cntr = 0 ∨ cntr % 2 = 1 := by
  cases point with
  | unborn | start | lock => exact .inl h
  | blocked | usedUp | woken => exact .inr h
  | returned => exact .inl (h.resolve_right Bool.false_ne_true)
  | _ => cases hholds

/-! ### The units of the first semaphore -/

def ThreadPoint.posted : ThreadPoint → ℕ
  | .unborn | .start | .lock | .post => 0
  | _ => 1

theorem ThreadPoint.posted_le_one (point : ThreadPoint) : point.posted ≤ 1 := by
  cases point <;> simp [ThreadPoint.posted]

/-- A step of a thread keeps its counter in order, and it posts `semA` when it says so. -/
theorem childProcessTh_spec {fails : Bool} (h : CounterOk s.bool (s.cntr w) (s.thread w))
    (hnext : childProcessTh s w fails = some s') :
    ∃ point, s'.thread = update s.thread w point ∧
      CounterOk s.bool (s'.cntr w) point ∧ (∀ i, i ≠ w → s'.cntr i = s.cntr i) ∧
      (s.thread w).posted ≤ point.posted ∧
      s'.semA + (s.thread w).posted = s.semA + point.posted := by
  unfold childProcessTh at hnext
  split at hnext
  case h_1 | h_7 | h_13 | h_14 => cases hnext
  case h_3 hpoint | h_8 hpoint =>
    split_ifs at hnext
    cases hnext
    rw [hpoint] at h ⊢
    exact ⟨_, rfl, h, fun _ _ ↦ rfl, le_rfl, rfl⟩
  case h_4 hpoint =>
    cases hnext
    rw [hpoint] at h ⊢
    refine ⟨_, rfl, ?_, fun _ _ ↦ rfl, Nat.zero_le 1, rfl⟩
    have hzero : s.cntr w = 0 := h
    change s.cntr w % 2 = 0
    rw [hzero]
  case h_5 hpoint | h_9 ok hpoint =>
    cases hnext
    rw [hpoint] at h ⊢
    refine ⟨_, rfl, ?_, fun i hne ↦ update_of_ne hne _ _, le_rfl, rfl⟩
    simp only [CounterOk, update_self] at h ⊢
    omega
  case h_6 hpoint =>
    cases hnext
    rw [hpoint] at h ⊢
    cases fails
    all_goals exact ⟨_, rfl, h, fun _ _ ↦ rfl, le_rfl, rfl⟩
  case h_10 ok hpoint =>
    cases hnext
    rw [hpoint] at h ⊢
    refine ⟨_, rfl, ?_, fun _ _ ↦ rfl, ?_, ?_⟩
    · cases ok with
      | false => trivial
      | true =>
        cases hbool : s.bool with
        | false => exact h
        | true => exact .inr rfl
    all_goals
      cases ok with
      | false => rfl
      | true => cases s.bool <;> rfl
  case h_11 hpoint =>
    cases hnext
    rw [hpoint]
    refine ⟨_, rfl, ?_, fun i hne ↦ update_of_ne hne _ _, le_rfl, rfl⟩
    exact .inl (update_self w 0 s.cntr)
  all_goals
    rename_i hpoint
    cases hnext
    rw [hpoint] at h ⊢
    exact ⟨_, rfl, h, fun _ _ ↦ rfl, le_rfl, rfl⟩

/-! ### Steps in the child -/

variable {move : Move}

/-- No signal is on its way to the threads of the child. -/
structure Quiet (s : State) : Prop where
  usr1 : s.usr1 = false
  usr2 : ∀ w, s.usr2 w = false
  handling : s.handling = []

/-- What a step in the child does to the counters and to the first semaphore. -/
structure ChildStep (s s' : State) : Prop where
  counters : ∀ i, CounterOk s.bool (s'.cntr i) (s'.thread i)
  posted : ∀ i, (s.thread i).posted ≤ (s'.thread i).posted
  quiet : Quiet s → Quiet s' ∧ s'.semA + total ThreadPoint.posted s.thread =
    s.semA + total ThreadPoint.posted s'.thread

/-- One thread goes to another point, and everything else stays as it is. -/
theorem ChildStep.goto (hcounters : ∀ i, CounterOk s.bool (s.cntr i) (s.thread i))
    (hthread : s'.thread = update s.thread w point)
    (hpoint : CounterOk s.bool (s.cntr w) point) (hposted : point.posted = (s.thread w).posted)
    (hcntr : s'.cntr = s.cntr) (hquiet : Quiet s → Quiet s' ∧ s'.semA = s.semA) :
    ChildStep s s' where
  counters := by
    rw [hthread, hcntr]
    exact (forall_update_iff s.thread fun i point ↦ CounterOk s.bool (s.cntr i) point).mpr
      ⟨hpoint, fun i _ ↦ hcounters i⟩
  posted := by
    rw [hthread]
    exact (forall_update_iff s.thread fun i point ↦
      (s.thread i).posted ≤ point.posted).mpr ⟨hposted.ge, fun _ _ ↦ le_rfl⟩
  quiet hbefore := by
    obtain ⟨hafter, hsemA⟩ := hquiet hbefore
    exact ⟨hafter, by rw [hthread, hsemA, total_update_of_eq hposted]⟩

/-- A thread is moved by others. -/
theorem ChildStep.stirs (hcounters : ∀ i, CounterOk s.bool (s.cntr i) (s.thread i))
    (hstirs : (s.thread w).Stirs point) (hthread : s'.thread = update s.thread w point)
    (hcntr : s'.cntr = s.cntr) (hquiet : Quiet s → Quiet s' ∧ s'.semA = s.semA) : ChildStep s s' :=
  .goto hcounters hthread ((hcounters w).stirs hstirs) (hstirs.eq ThreadPoint.posted rfl rfl) hcntr
    hquiet

/-- The threads stay where they are. -/
theorem ChildStep.still (hcounters : ∀ i, CounterOk s.bool (s.cntr i) (s.thread i))
    (hthread : s'.thread = s.thread) (hcntr : s'.cntr = s.cntr)
    (hquiet : Quiet s → Quiet s' ∧ s'.semA = s.semA) : ChildStep s s' :=
  .stirs (w := .null) hcounters (.inl rfl) (hthread.trans (update_eq_self _ _).symm) hcntr hquiet

theorem ChildStep.thread (hcounters : ∀ i, CounterOk s.bool (s.cntr i) (s.thread i))
    {fails : Bool} (hnext : childProcessTh s w fails = some s') : ChildStep s s' := by
  obtain ⟨point, hthread, hpoint, hcntr, hposted, hsemA⟩ := childProcessTh_spec (hcounters w) hnext
  obtain ⟨_, hstep⟩ := threadStep hnext
  obtain ⟨husr1, husr2, hhandling⟩ := hstep.signals
  refine ⟨fun i ↦ ?_, fun i ↦ ?_, fun hquiet ↦ ⟨?_, ?_⟩⟩
  · rw [hthread]
    by_cases heq : i = w
    · subst heq
      rwa [update_self]
    · rw [update_of_ne heq, hcntr i heq]
      exact hcounters i
  · rw [hthread]
    by_cases heq : i = w
    · subst heq
      rwa [update_self]
    · rw [update_of_ne heq]
  · exact ⟨husr1.trans hquiet.usr1, fun i ↦ by rw [husr2, hquiet.usr2 i],
      hhandling.trans hquiet.handling⟩
  · have htotal := total_update ThreadPoint.posted s.thread w point
    rw [hthread]
    omega

theorem Inv.childStep_main (h : Inv s) (hcounters : ∀ i, CounterOk s.bool (s.cntr i) (s.thread i))
    (hnext : Shared.childProcess s = some s') : ChildStep s s' := by
  have hquiet {t : State} (husr1 : t.usr1 = s.usr1) (husr2 : t.usr2 = s.usr2)
      (hhandling : t.handling = s.handling) (hsemA : t.semA = s.semA) :
      Quiet s → Quiet t ∧ t.semA = s.semA := by
    intro hbefore
    exact ⟨⟨husr1.trans hbefore.usr1, by rw [husr2]; exact hbefore.usr2,
      hhandling.trans hbefore.handling⟩, hsemA⟩
  unfold Shared.childProcess at hnext
  split at hnext
  case h_1 w hmain =>
    cases hnext
    have hunborn : s.thread w = .unborn :=
      (h.unborn (by simp [hmain]) w).mpr (by rw [hmain]; exact le_rfl)
    have hzero := hcounters w
    rw [hunborn] at hzero
    exact .goto hcounters rfl hzero (by rw [hunborn]; rfl) rfl (hquiet rfl rfl rfl rfl)
  case h_2 hmain =>
    obtain ⟨rest, -, rfl⟩ := Option.map_eq_some_iff.mp hnext
    exact .still hcounters rfl rfl (hquiet rfl rfl rfl rfl)
  case h_3 w hmain =>
    cases hnext
    exact .stirs hcounters ((s.thread w).stirs_wake .wakes) rfl rfl (hquiet rfl rfl rfl rfl)
  case h_4 w hmain =>
    split_ifs at hnext
    cases hnext
    exact .still hcounters rfl rfl (hquiet rfl rfl rfl rfl)
  case h_5 | h_6 => cases hnext

theorem Inv.childStep (h : Inv s) (hcounters : ∀ i, CounterOk s.bool (s.cntr i) (s.thread i))
    (hnext : Shared.childNext s move = some s') : ChildStep s s' := by
  cases move with
  | parent choice => cases hnext
  | main => exact h.childStep_main hcounters (Option.ite_none_right_eq_some.mp hnext).2
  | thread w fails => exact .thread hcounters hnext
  | sigusr1 =>
    obtain ⟨⟨husr1, -⟩, ⟨⟩⟩ := Option.ite_none_right_eq_some.mp hnext
    refine .still hcounters rfl rfl fun hquiet ↦ ?_
    rw [hquiet.usr1] at husr1
    cases husr1
  | mainsighdl =>
    simp only [Shared.childNext, mainsighdl] at hnext
    split at hnext
    · cases hnext
    case h_2 w rest hhandling =>
      cases hnext
      refine .still hcounters rfl rfl fun hquiet ↦ ?_
      rw [hquiet.handling] at hhandling
      cases hhandling
  | childsighdl w =>
    obtain ⟨⟨husr2, -⟩, ⟨⟩⟩ := Option.ite_none_right_eq_some.mp hnext
    refine .stirs hcounters (s.thread w).stirs_interrupt rfl rfl fun hquiet ↦ ?_
    rw [hquiet.usr2 w] at husr2
    cases husr2
  | spurious w =>
    obtain ⟨hsleeps, ⟨⟩⟩ := Option.ite_none_right_eq_some.mp hnext
    refine .stirs hcounters (.inr ⟨?_, rfl⟩) rfl rfl
      fun hquiet ↦ ⟨⟨hquiet.usr1, hquiet.usr2, hquiet.handling⟩, rfl⟩
    obtain heq | heq := hsleeps <;> rw [heq] <;> rfl

/-! ### Steps of the parent -/

/-- How far the parent is: it waits for the threads to be ready, it tests the condition variables,
it has set `bool`, or it has left `parent_process`. -/
inductive Stage
  | ready (n : ℕ)
  | testing
  | stopping
  | left
  deriving DecidableEq, Repr

def ParentPoint.stage : ParentPoint → Stage
  | .ready n => .ready n
  | .unlock true _ | .post => .stopping
  | .waitpid _ _ | .ended _ => .left
  | _ => .testing

inductive StageStep (s s' : State) : Prop
  | leaves (hstage : s'.parent.stage = .left)
  | ready (n : ℕ) (hparent : s.parent.stage = .ready n) (hsemA : s.semA = s'.semA + 1)
    (hstage : s'.parent.stage = if n < 2 then .ready (n + 1) else .testing)
    (hbool : s'.bool = s.bool) (hthread : s'.thread = s.thread) (hquiet : Quiet s → Quiet s')
  | tests (hbefore : s.parent.stage = .testing) (hstage : s'.parent.stage = .testing)
    (hbool : s'.bool = s.bool)
  | stops (hparent : s.parent = .stop) (hstage : s'.parent.stage = .stopping)
    (hbool : s'.bool = true) (hthread : s'.thread = s.thread)
  | releases (hbefore : s.parent.stage = .stopping) (hstage : s'.parent.stage = .stopping)
    (hbool : s'.bool = s.bool) (hthread : s'.thread = s.thread)

/-- A step of the parent touches no counter, and it wakes threads at most. -/
structure ParentStep (s s' : State) : Prop where
  cntr : s'.cntr = s.cntr
  thread : ∀ w, (s.thread w).Stirs (s'.thread w)
  bool : s'.bool = s.bool ∨ s'.bool = true
  stage : StageStep s s'

theorem State.WokenFrom.spec {t : State} (h : t.WokenFrom s) :
    t.cntr = s.cntr ∧ t.bool = s.bool ∧ ∀ w, (s.thread w).Stirs (t.thread w) := by
  obtain rfl | ⟨w, reach, rfl⟩ := h
  · exact ⟨rfl, rfl, fun _ ↦ .inl rfl⟩
  · exact ⟨rfl, rfl, (forall_update_iff s.thread fun i point ↦ (s.thread i).Stirs point).mpr
      ⟨(s.thread w).stirs_wake reach, fun _ _ ↦ .inl rfl⟩⟩

theorem ParentPoint.stage_of_inRound {point : ParentPoint} (h : point.inRound = true) :
    point.stage = .testing := by
  cases point <;> first | rfl | cases h

theorem parentStep (hnext : parentProcess s choice = some s') : ParentStep s s' := by
  cases parentMove hnext with
  | urslvd t x ht =>
    obtain ⟨hcntr, -, hthread⟩ := ht.spec
    unfold locUrslvd
    split <;> exact ⟨hcntr, hthread, .inr rfl, .leaves rfl⟩
  | ready n rest hparent hsemA =>
    refine ⟨rfl, fun _ ↦ .inl rfl, .inl rfl, .ready n (by rw [hparent]; rfl) hsemA ?_ rfl rfl
      fun hquiet ↦ ⟨hquiet.usr1, hquiet.usr2, hquiet.handling⟩⟩
    split_ifs <;> rfl
  | lock again w hparent =>
    refine ⟨rfl, fun _ ↦ .inl rfl, .inl rfl, .tests (by rw [hparent]; rfl) ?_ rfl⟩
    cases w <;> cases again <;> rfl
  | unlock last w hparent =>
    refine ⟨rfl, fun _ ↦ .inl rfl, .inl rfl, ?_⟩
    cases last with
    | false => exact .tests (by rw [hparent]; rfl) (by cases w <;> rfl) rfl
    | true => exact .releases (by rw [hparent]; rfl) (by cases w <;> rfl) rfl rfl
  | round t point _ _ ht hbefore hafter =>
    obtain ⟨hcntr, hbool, hthread⟩ := ht.spec
    refine ⟨hcntr, hthread, .inl hbool, .tests (ParentPoint.stage_of_inRound hbefore) ?_ hbool⟩
    obtain hafter | rfl := hafter
    · exact ParentPoint.stage_of_inRound hafter
    · rfl
  | result _ hparent =>
    refine ⟨rfl, fun _ ↦ .inl rfl, .inl rfl, .tests ?_ rfl rfl⟩
    obtain hparent | hparent := hparent <;> rw [hparent] <;> rfl
  | passes hparent =>
    exact ⟨rfl, fun _ ↦ .inl rfl, .inl rfl, .tests (by rw [hparent]; rfl) rfl rfl⟩
  | stop hparent => exact ⟨rfl, fun _ ↦ .inl rfl, .inr rfl, .stops hparent rfl rfl rfl⟩
  | post | ended => exact ⟨rfl, fun _ ↦ .inl rfl, .inl rfl, .leaves rfl⟩

/-! ### The threads at the stages of the parent -/

/-- Every unit of the first semaphore was posted by a thread until the parent tests the condition
variables; then every thread has posted it, and is past its wait when `bool` is set. -/
def StageOk (s : State) : Stage → Prop
  | .ready n => s.bool = false ∧ n ≤ 2 ∧ s.semA + n = total ThreadPoint.posted s.thread ∧ Quiet s
  | .testing => s.bool = false ∧ ∀ w, (s.thread w).posted = 1
  | .stopping => s.bool = true ∧ ∀ w, s.thread w = .returned ∨ (s.thread w).pastWait = true
  | .left => True

structure Counted (s : State) : Prop where
  inv : Inv s
  counters : ∀ w, CounterOk s.bool (s.cntr w) (s.thread w)
  stage : StageOk s s.parent.stage

theorem counted_start : Counted start where
  inv := inv_start
  counters _ := rfl
  stage := ⟨rfl, Nat.zero_le 2, (total_eq_zero fun _ ↦ rfl).symm, rfl, fun _ ↦ rfl, rfl⟩

/-- A thread that has posted the semaphore and does not hold its mutex is inside its wait, or has
returned. -/
theorem ThreadPoint.pastWait_of_posted (hposted : point.posted = 1) (hholds : point.holds = false) :
    point = .returned ∨ point.pastWait = true := by
  cases point with
  | returned => exact .inl rfl
  | blocked | usedUp | woken => exact .inr rfl
  | unborn | start | lock => cases hposted
  | _ => cases hholds

/-- A mutex that the parent holds is not held by the thread. -/
theorem Inv.not_holds (h : Inv s) (hmtx : s.mtx w = some .parent) : (s.thread w).holds = false := by
  cases hholds : (s.thread w).holds with
  | false => rfl
  | true =>
    rw [(h.owned w).mpr hholds] at hmtx
    cases hmtx

theorem posted_eq_one (h : 3 ≤ total ThreadPoint.posted s.thread) (w : Cond) :
    (s.thread w).posted = 1 :=
  eq_one_of_total_eq_card (fun w ↦ (s.thread w).posted_le_one)
    (le_antisymm (total_le_card fun w ↦ (s.thread w).posted_le_one) h) w

theorem Counted.parent (h : Counted s) (hnext : parentProcess s choice = some s') :
    Counted s' := by
  have hinv := h.inv.parentProcess hnext
  obtain ⟨hcntr, hthread, hbool, hstep⟩ := parentStep hnext
  refine ⟨hinv, fun w ↦ ?_, ?_⟩
  · have hpoint := (h.counters w).stirs (hthread w)
    rw [hcntr]
    obtain heq | heq := hbool
    · rwa [heq]
    · rw [heq]
      exact hpoint.setBool
  have hstage := h.stage
  cases hstep with
  | leaves hleft =>
    rw [hleft]
    trivial
  | ready n hparent hsemA hafter hbool hthread hquiet =>
    rw [hparent] at hstage
    obtain ⟨hfalse, hle, htotal, hbefore⟩ := hstage
    rw [hafter]
    split_ifs with hlt
    · refine ⟨hbool.trans hfalse, by omega, ?_, hquiet hbefore⟩
      rw [hthread]
      omega
    · refine ⟨hbool.trans hfalse, ?_⟩
      rw [hthread]
      exact posted_eq_one (by omega)
  | tests hbefore hafter hbool =>
    rw [hbefore] at hstage
    rw [hafter]
    refine ⟨hbool.trans hstage.1, fun w ↦ ?_⟩
    rw [(hthread w).eq ThreadPoint.posted rfl rfl]
    exact hstage.2 w
  | stops hparent hafter hbool hthread =>
    rw [hparent] at hstage
    rw [hafter]
    refine ⟨hbool, fun w ↦ ?_⟩
    rw [hthread]
    have hheld := h.inv.held w (by rw [hparent]; trivial)
    exact ThreadPoint.pastWait_of_posted (hstage.2 w) (h.inv.not_holds hheld)
  | releases hbefore hafter hbool hthread =>
    rw [hbefore] at hstage
    rw [hafter]
    refine ⟨hbool.trans hstage.1, ?_⟩
    rw [hthread]
    exact hstage.2

theorem Counted.child (h : Counted s) (hgone : s.main.gone = false)
    (hnext : childNext s move = some s') : Counted s' := by
  have hframe := h.inv.frame (MainPoint.ne_killed_of_not_gone hgone) hnext
  obtain ⟨hcounters, hposted, hquiet⟩ := h.inv.childStep h.counters hnext
  refine ⟨h.inv.childNext hnext, by rw [hframe.bool]; exact hcounters, ?_⟩
  have hstage := h.stage
  rw [hframe.parent]
  generalize s.parent.stage = stage at hstage ⊢
  cases stage with
  | left => trivial
  | ready n =>
    obtain ⟨hfalse, hle, htotal, hbefore⟩ := hstage
    obtain ⟨hafter, hunits⟩ := hquiet hbefore
    exact ⟨hframe.bool.trans hfalse, hle, by omega, hafter⟩
  | testing =>
    refine ⟨hframe.bool.trans hstage.1, fun w ↦ ?_⟩
    have hle := hposted w
    rw [hstage.2 w] at hle
    exact le_antisymm (s'.thread w).posted_le_one hle
  | stopping =>
    exact ⟨hframe.bool.trans hstage.1, fun w ↦
      (h.inv.pastWait_childNext hstage.1 (hstage.2 w) hnext).1⟩

theorem counted_of_reachable (h : program.Reachable s) : Counted s := by
  refine h.invariant ?_ fun state move state' _ hcounted hnext ↦ ?_
  · rintro state rfl
    exact counted_start
  · obtain ⟨choice, hnext⟩ | ⟨hgone, hnext⟩ := next_cases hnext
    · exact hcounted.parent hnext
    · exact hcounted.child hgone hnext

/-! ### The normal end -/

/-- The parent has posted the second semaphore on its normal path. -/
theorem Counted.leaving_of_post (h : Counted s) (hkept : Kept s) (hparent : s.parent = .post)
    (herror : choice.error = 0) (hnext : parentProcess s choice = some s') : Leaving s' := by
  have hinv := h.inv.parentProcess hnext
  obtain ⟨-, hearly⟩ := h.inv.early (by rw [hparent]; rfl)
  have hstage := h.stage
  rw [hparent] at hstage
  simp only [parentProcess, hparent, herror] at hnext
  cases hnext
  refine ⟨⟨hinv, rfl, ?_⟩, hstage.1, fun _ ↦ Nat.succ_pos _, fun w ↦ ?_, fun w _ ↦ ?_⟩
  · intro (hkilled : s.main = .killed)
    rw [hkilled] at hearly
    cases hearly
  · refine (hstage.2 w).imp_right fun hpast ↦ ⟨fun hheld ↦ ?_, hpast, fun hused ↦ ?_⟩
    · have hholds := hkept.mtx w hheld
      rw [hparent] at hholds
      exact hholds
    · exact (hkept.used w hused).resolve_left (by rw [hparent]; exact Bool.false_ne_true)
  · dsimp only
    cases hmain : s.main <;> simp [hmain, MainPoint.early] at hearly ⊢

theorem Leaving.exists_returned (h : Leaving s) :
    ∃ t, calm.Leads s t ∧ ∀ w, t.thread w = .returned := by
  obtain ⟨t, hleads, ⟨hleaving, -⟩, hgone⟩ := h.exists_gone
  refine ⟨t, hleads, fun w ↦ hleaving.inv.joined w ?_⟩
  cases hmain : t.main with
  | exited => trivial
  | killed => exact absurd hmain hleaving.alive
  | _ => rw [hmain] at hgone; cases hgone

/-- In every run: a counter that the parent finds with the mutex is zero or odd as long as `bool` is
not set, so that `parent_process` never takes its exit for an even counter; and when it has posted
`semB` on its normal path, the threads of the child can always return. -/
theorem counter_parity (hreach : program.Reachable s) :
    (∀ w, s.bool = false → s.mtx w = some .parent → s.cntr w = 0 ∨ s.cntr w % 2 = 1) ∧
      (s.parent = .compare → s.cntr .null ≠ 0 → s.cntr .dflt ≠ 0 →
        s.cntr .null % 2 = 1 ∧ s.cntr .dflt % 2 = 1) ∧
      (∀ choice s', s.parent = .post → choice.error = 0 →
        program.next s (.parent choice) = some s' → ∀ t, program.Leads s' t →
          ∃ u, calm.Leads t u ∧ ∀ w, u.thread w = .returned) := by
  have hcounted := counted_of_reachable hreach
  have hparity (w : Cond) (hbool : s.bool = false) (hmtx : s.mtx w = some .parent) :
      s.cntr w = 0 ∨ s.cntr w % 2 = 1 := by
    have hcounter := hcounted.counters w
    rw [hbool] at hcounter
    exact hcounter.zero_or_odd (hcounted.inv.not_holds hmtx)
  refine ⟨hparity, fun hparent hnull hdflt ↦ ?_, fun choice s' hparent herror hnext t hleads ↦ ?_⟩
  · have hstage := hcounted.stage
    rw [hparent] at hstage
    have hheld (w : Cond) : s.mtx w = some .parent :=
      hcounted.inv.held w (by rw [hparent]; trivial)
    exact ⟨(hparity .null hstage.1 (hheld .null)).resolve_left hnull,
      (hparity .dflt hstage.1 (hheld .dflt)).resolve_left hdflt⟩
  · have hkept := kept_of_reachable hreach (by rw [hparent]; rfl)
    have hleaving := hcounted.leaving_of_post hkept hparent herror hnext
    exact (hleads.keeps (fun _ _ _ ↦ Leaving.next) hleaving).exists_returned

/-- The wait of the first thread fails, the parent finds its counter zero and goes to the end. -/
def firstWaitFails : List Move :=
  List.flatten [.replicate 3 .main, .replicate 9 (.thread .null true),
    .replicate 5 (.thread .dflt false), .replicate 5 (.thread .pshared false),
    .replicate 11 succeeds]

/-- With the three mutexes, the parent finds the counters 0, 1 and 1; it then comes to its post, and
the threads can return. -/
theorem counter_parity_firstWaitFails :
    (∃ s, program.Reachable s ∧ s.parent = .check ∧ s.cntr .null = 0 ∧ s.cntr .dflt % 2 = 1) ∧
      ∃ s s', program.Reachable s ∧ s.parent = .post ∧ program.next s succeeds = some s' ∧
        ∃ u, calm.Leads s' u ∧ ∀ w, u.thread w = .returned := by
  constructor
  · obtain ⟨s, hreach, hparent, hnull, hdflt, hbool, hmtx⟩ : ∃ s, program.Reachable s ∧
        s.parent = .check ∧ s.cntr .null = 0 ∧ s.cntr .dflt ≠ 0 ∧ s.bool = false ∧
          s.mtx .dflt = some .parent :=
      System.exists_reachable (firstWaitFails.take 28) rfl (by decide +kernel)
    exact ⟨s, hreach, hparent, hnull,
      ((counter_parity hreach).1 .dflt hbool hmtx).resolve_left hdflt⟩
  · obtain ⟨s, hreach, hparent⟩ : ∃ s, program.Reachable s ∧ s.parent = .post :=
      System.exists_reachable firstWaitFails rfl (by decide +kernel)
    have hnext : program.next s succeeds =
        some { s with semB := semPost s.semB, parent := .waitpid false 0 } := by
      change parentProcess s _ = _
      simp [parentProcess, hparent]
    exact ⟨s, _, hreach, hparent, hnext,
      (counter_parity hreach).2.2 _ _ hparent rfl hnext _ (.refl _)⟩

end OpenPosix.CondVars.Shared

import OpenPosix.CondVars.ClockTestModel

/-!
# What the parent knows about each waiter

The two sides do not interact but through the parent, so the invariant is one statement per side,
`SideOk`, about what the parent knows of that side (`View`), the point of its thread and its data. A
step of the parent changes the view of one side, in one of a few ways, and leaves the other. A flag
that the parent finds under the mutex says where the thread is: `FLAG_INWAIT` that it has entered
the wait, `FLAG_TIMEDOUT` that it has returned and that its wait expired. A thread that the parent
has signalled with `FLAG_CONDWAKE` set does not wait again.
-/

namespace OpenPosix.CondVars.ClockTest

open Interleaving Words Function

variable {s s' : State} {side : Side}

attribute [simp] State.setParent State.goto State.condSignal State.store State.setMtx

/-! ### Classes of points -/

def WaiterPoint.holds : WaiterPoint → Bool
  | .mark | .wait | .store _ | .count | .test | .awaken | .timeout | .unlock => true
  | _ => false

/-- The thread has set `FLAG_INWAIT`. -/
@[simp] def WaiterPoint.started : WaiterPoint → Bool
  | .unborn | .lock | .mark => false
  | _ => true

@[simp] def WaiterPoint.flagged : WaiterPoint → Bool
  | .unlock | .exited => true
  | _ => false

/-- The thread does not wait again, if `FLAG_CONDWAKE` is set. -/
@[simp] def WaiterPoint.leaves : WaiterPoint → Bool
  | .woken _ | .store _ | .count | .test | .awaken | .timeout | .unlock | .exited => true
  | _ => false

def ParentPoint.absent : ParentPoint → Side → Bool
  | .create .D, _ => true
  | .create .N, .N => true
  | _, _ => false

/-- The parent has seen that the thread of this side waits. -/
def ParentPoint.past : ParentPoint → Side → Bool
  | .create _, _ | .lock .N, _ | .look .N, _ | .unlock .N, _ => false
  | .lock .D, side | .look .D, side | .unlock .D, side => decide (side = .N)
  | _, _ => true

def ParentPoint.holds : ParentPoint → Side → Bool
  | .create _, _ | .lock .N, _ => false
  | .look .N, side | .unlock .N, side | .lock .D, side => decide (side = .N)
  | .look .D, _ | .unlock .D, _ | .setClock, _ | .release _ .D, _ => true
  | .release _ .N, side | .relock _ .D, side => decide (side = .N)
  | .relock _ .N, _ => false
  | .check, _ | .signal _, _ => true
  | .process .N, _ | .join .N, _ | .unlockJoined .N, _ | .setWake .N, _ | .wake .N, _
  | .unlockWaker .N, _ => true
  | .joinWoken .N, side | .process .D, side | .join .D, side | .unlockJoined .D, side
  | .setWake .D, side | .wake .D, side | .unlockWaker .D, side => decide (side = .D)
  | .joinWoken .D, _ | .compare, _ | .ended _, _ | .unresolved, _ => false

/-- The parent has set `FLAG_CONDWAKE` for this side, and waits for its thread. -/
def ParentPoint.wakes : ParentPoint → Side → Bool
  | .wake other, side | .unlockWaker other, side | .joinWoken other, side => decide (other = side)
  | _, _ => false

/-- The parent has signalled the condition after that. -/
def ParentPoint.signaled : ParentPoint → Side → Bool
  | .unlockWaker other, side | .joinWoken other, side => decide (other = side)
  | _, _ => false

/-- The parent has found `FLAG_TIMEDOUT`. -/
def ParentPoint.joins : ParentPoint → Side → Bool
  | .join other, side => decide (other = side)
  | _, _ => false

def ParentPoint.joined : ParentPoint → Side → Bool
  | .unlockJoined .N, side | .process .D, side | .join .D, side | .setWake .D, side | .wake .D, side
  | .unlockWaker .D, side | .joinWoken .D, side => decide (side = .N)
  | .unlockJoined .D, _ | .compare, _ | .ended _, _ | .unresolved, _ => true
  | _, _ => false

/-- What the parent knows about one side. -/
structure View where
  absent : Bool
  past : Bool
  holds : Bool
  wakes : Bool
  signaled : Bool
  joins : Bool
  joined : Bool
  deriving DecidableEq, Repr

@[simp] def ParentPoint.view (parent : ParentPoint) (side : Side) : View where
  absent := parent.absent side
  past := parent.past side
  holds := parent.holds side
  wakes := parent.wakes side
  signaled := parent.signaled side
  joins := parent.joins side
  joined := parent.joined side

/-! ### The invariant of one side -/

def Holds (view : View) (side : Side) (waiter : WaiterPoint) : Thread → Prop
  | .parent => view.holds = true
  | .waiter other => other = side ∧ waiter.holds = true

/-- What holds between the view of the parent, the thread of a side, its data and its mutex. -/
structure SideOk (view : View) (side : Side) (waiter : WaiterPoint) (data : DataTest)
    (mtx : Option Thread) : Prop where
  owned : Owned mtx (Holds view side waiter)
  unborn : waiter = .unborn ↔ view.absent = true
  inwait : isSet data.ctrl flagInwait = waiter.started
  past : view.past = true → waiter.started = true
  timedout : isSet data.ctrl flagTimedout = true ↔ waiter.flagged = true ∧ data.rc = .etimedout
  condwake : view.wakes = true → isSet data.ctrl flagCondwake = true
  leaves : view.signaled = true → view.wakes = true ∧ waiter.leaves = true
  joins : view.joins = true → isSet data.ctrl flagTimedout = true
  joined : view.joined = true → waiter = .exited

structure Inv (s : State) : Prop where
  side : ∀ side, SideOk (s.parent.view side) side (s.waiter side) (s.data side) (s.mtx side)
  verdict : ∀ result, s.parent = .ended result →
    (result = 0 ↔ (s.data .N).rc = (s.data .D).rc)
  resolved : s.parent ≠ .unresolved

theorem inv_start : Inv start where
  side := fun side ↦ {
    owned := fun thread ↦ by
      cases thread <;>
        simp [start, Holds, ParentPoint.holds, WaiterPoint.holds]
    unborn := by simp [start, ParentPoint.absent]
    inwait := by simp [start, isSet_zero]
    past := by simp [start, ParentPoint.past]
    timedout := by simp [start, isSet_zero]
    condwake := by simp [start, ParentPoint.wakes]
    leaves := by simp [start, ParentPoint.signaled]
    joins := by simp [start, ParentPoint.joins]
    joined := by simp [start, ParentPoint.joined] }
  verdict := by simp [start]
  resolved := by simp [start]

/-! ### Steps of the waiters -/

section Waiter

variable {view : View} {point point' : WaiterPoint} {data data' : DataTest}
  {mtx mtx' : Option Thread}

theorem holds_goto (point point' : WaiterPoint) : Holds view side point' =
      update (Holds view side point) (.waiter side) (point'.holds = true) := by
  refine eq_update_iff.mpr ⟨by simp [Holds], fun thread hne ↦ ?_⟩
  cases thread with
  | parent => rfl
  | waiter other =>
    have hother : other ≠ side := fun hside ↦ hne (hside ▸ rfl)
    simp [Holds, hother]

theorem owned_goto (h : Owned mtx (Holds view side point))
    (hpass : Passes (.waiter side) mtx point.holds point'.holds mtx') :
    Owned mtx' (Holds view side point') := by
  rw [holds_goto point point']
  exact h.pass (by simp [Holds]) hpass

/-- A thread that has entered the wait goes on, and sets no flag but `FLAG_AWAKEN`. -/
theorem SideOk.goto (h : SideOk view side point data mtx)
    (hpass : Passes (.waiter side) mtx point.holds point'.holds mtx')
    (hborn : point ≠ .unborn ∧ point' ≠ .unborn) (hstarted : point'.started = point.started)
    (hexited : point ≠ .exited)
    (hinwait : isSet data'.ctrl flagInwait = isSet data.ctrl flagInwait)
    (htimedout : isSet data'.ctrl flagTimedout = true ↔
      point'.flagged = true ∧ data'.rc = .etimedout)
    (hset : isSet data.ctrl flagTimedout = true → isSet data'.ctrl flagTimedout = true)
    (hcondwake : isSet data'.ctrl flagCondwake = isSet data.ctrl flagCondwake)
    (hleaves : point.leaves = true → (view.wakes = true → isSet data.ctrl flagCondwake = true) →
      view.wakes = true → point'.leaves = true) :
    SideOk view side point' data' mtx' where
  owned := owned_goto h.owned hpass
  unborn := iff_of_false hborn.2 fun habsent ↦ hborn.1 (h.unborn.mpr habsent)
  inwait := by rw [hinwait, hstarted, h.inwait]
  past := fun hpast ↦ hstarted.trans (h.past hpast)
  timedout := htimedout
  condwake := fun hwakes ↦ hcondwake.trans (h.condwake hwakes)
  leaves := fun hsignaled ↦ by
    obtain ⟨hwakes, hbefore⟩ := h.leaves hsignaled
    exact ⟨hwakes, hleaves hbefore h.condwake hwakes⟩
  joins := fun hjoins ↦ hset (h.joins hjoins)
  joined := fun hjoined ↦ absurd (h.joined hjoined) hexited

theorem isSet_setFlag (data : DataTest) {bit bit' : ℕ} (hbit : bit < 16) (hbit' : bit' < 16) :
    isSet (data.setFlag bit).ctrl bit' = (isSet data.ctrl bit' || decide (bit = bit')) :=
  isSet_or_flag data.ctrl hbit hbit'

/-- The thread sets `FLAG_INWAIT`. -/
theorem SideOk.mark (h : SideOk view side .mark data mtx) :
    SideOk view side .wait (data.setFlag flagInwait) mtx where
  owned := owned_goto h.owned (.keep rfl)
  unborn := iff_of_false (by simp) fun habsent ↦ by simpa using h.unborn.mpr habsent
  inwait := by
    rw [isSet_setFlag _ (by decide) (by decide)]
    simp
  past := fun _ ↦ rfl
  timedout := by
    rw [isSet_setFlag _ (by decide) (by decide)]
    have htimedout := h.timedout
    simp_all [flagInwait, flagTimedout]
  condwake := fun hwakes ↦ by
    rw [isSet_setFlag _ (by decide) (by decide), h.condwake hwakes]
    rfl
  leaves := fun hsignaled ↦ by simpa using (h.leaves hsignaled).2
  joins := fun hjoins ↦ by
    rw [isSet_setFlag _ (by decide) (by decide), h.joins hjoins]
    rfl
  joined := fun hjoined ↦ by simpa using h.joined hjoined

/-- `FLAG_TIMEDOUT` is not set before the thread has returned from its last wait. -/
theorem SideOk.not_timedout (h : SideOk view side point data mtx)
    (hflagged : point.flagged = false) : isSet data.ctrl flagTimedout = false := by
  rw [← Bool.not_eq_true, h.timedout, hflagged]
  simp

/-- A step of the thread that leaves its data alone, or changes `rc` or the counter, and before it
has set its last flag. -/
theorem SideOk.goOn (h : SideOk view side point data mtx)
    (hpass : Passes (.waiter side) mtx point.holds point'.holds mtx')
    (hborn : point ≠ .unborn ∧ point' ≠ .unborn) (hstarted : point'.started = point.started)
    (hflagged : point.flagged = false ∧ point'.flagged = false)
    (hflags : ∀ bit, counterBits ≤ bit → bit < 16 →
      bit ≠ flagAwaken → isSet data'.ctrl bit = isSet data.ctrl bit)
    (hleaves : point.leaves = true → (view.wakes = true → isSet data.ctrl flagCondwake = true) →
      view.wakes = true → point'.leaves = true) :
    SideOk view side point' data' mtx' := by
  have htimedout := hflags flagTimedout (by decide) (by decide) (by decide)
  refine h.goto hpass hborn hstarted ?_ (hflags _ (by decide) (by decide) (by decide)) ?_ ?_
    (hflags _ (by decide) (by decide) (by decide)) hleaves
  · rintro rfl
    simp at hflagged
  · rw [htimedout, h.not_timedout hflagged.1, hflagged.2]
    simp
  · rw [htimedout]
    exact id

/-- The thread is unblocked, if it is blocked. -/
theorem SideOk.unblock (h : SideOk view side point data mtx) (rc : Rc) :
    SideOk view side (point.unblock rc) data mtx := by
  cases point with
  | blocked =>
    exact h.goOn (.keep rfl) (by simp [WaiterPoint.unblock]) rfl ⟨rfl, rfl⟩ (fun _ _ _ _ ↦ rfl)
      (by simp)
  | _ => exact h

end Waiter

/-- Assumes: a step of the thread of one side, which has not exited. -/
theorem Inv.waiterStep (h : Inv s) {point : WaiterPoint} {data : DataTest} {mtx : Option Thread}
    (hparent : s'.parent = s.parent) (hwaiter : s'.waiter = update s.waiter side point)
    (hdata : s'.data = update s.data side data)
    (hmtx : s'.mtx = update s.mtx side mtx) (hexited : s.waiter side ≠ .exited)
    (hside : SideOk (s.parent.view side) side point data mtx) : Inv s' where
  side := fun other ↦ by
    rw [hparent, hwaiter, hdata, hmtx]
    by_cases heq : other = side
    · subst heq
      simpa only [update_self] using hside
    · simpa only [update_of_ne heq] using h.side other
  verdict := fun result hended ↦ by
    -- The parent has joined the threads when it has ended.
    rw [hparent] at hended
    exact absurd ((h.side side).joined (by rw [hended]; rfl)) hexited
  resolved := by
    rw [hparent]
    exact h.resolved

theorem Inv.testTimeout (h : Inv s) (hstep : testTimeout s side = some s') : Inv s' := by
  have hside := h.side side
  have hexited : s.waiter side ≠ .exited := by
    intro hpoint
    simp [ClockTest.testTimeout, hpoint] at hstep
  have hdata : s.data = update s.data side (s.data side) := by simp
  have hmtx : s.mtx = update s.mtx side (s.mtx side) := by simp
  unfold ClockTest.testTimeout at hstep
  cases hpoint : s.waiter side <;> simp only [hpoint, reduceCtorEq] at hstep hside
  case lock =>
    obtain ⟨hfree, rfl⟩ := map_mutexLock_eq_some_iff.mp hstep
    exact h.waiterStep rfl rfl hdata rfl hexited (hside.goOn (.take hfree rfl) (by simp) rfl
      ⟨rfl, rfl⟩ (fun _ _ _ _ ↦ rfl) (by simp))
  case mark =>
    cases hstep
    exact h.waiterStep rfl rfl rfl hmtx hexited hside.mark
  case wait =>
    cases hstep
    exact h.waiterStep rfl rfl hdata rfl hexited (hside.goOn (.drop rfl rfl) (by simp) rfl
      ⟨rfl, rfl⟩ (fun _ _ _ _ ↦ rfl) (by simp))
  case woken rc =>
    obtain ⟨hfree, rfl⟩ := map_mutexLock_eq_some_iff.mp hstep
    exact h.waiterStep rfl rfl hdata rfl hexited (hside.goOn (.take hfree rfl) (by simp) rfl
      ⟨rfl, rfl⟩ (fun _ _ _ _ ↦ rfl) fun _ _ _ ↦ rfl)
  case store rc =>
    cases hstep
    exact h.waiterStep rfl rfl rfl hmtx hexited (hside.goOn (.keep rfl) (by simp) rfl ⟨rfl, rfl⟩
      (fun _ _ _ _ ↦ rfl) fun _ _ _ ↦ rfl)
  case count =>
    cases hstep
    exact h.waiterStep rfl rfl rfl hmtx hexited (hside.goOn (.keep rfl) (by simp) rfl ⟨rfl, rfl⟩
      (fun _ hlow hhigh _ ↦ isSet_countUp _ hlow hhigh) fun _ _ _ ↦ rfl)
  case test =>
    cases hstep
    split_ifs with hagain
    · refine h.waiterStep rfl rfl hdata hmtx hexited (hside.goOn (.keep rfl) (by simp) rfl
        ⟨rfl, rfl⟩ (fun _ _ _ _ ↦ rfl) fun _ hcondwake hwakes ↦ ?_)
      simp [hagain.2] at hcondwake
      simp [hcondwake] at hwakes
    · exact h.waiterStep rfl rfl hdata hmtx hexited (hside.goOn (.keep rfl) (by simp) rfl
        ⟨rfl, rfl⟩ (fun _ _ _ _ ↦ rfl) fun _ _ _ ↦ rfl)
  case awaken =>
    cases hstep
    split_ifs
    · refine h.waiterStep rfl rfl rfl hmtx hexited (hside.goOn (.keep rfl) (by simp) rfl
        ⟨rfl, rfl⟩ (fun bit _ hbit hne ↦ ?_) fun _ _ _ ↦ rfl)
      rw [isSet_setFlag _ (by decide) hbit]
      simp [Ne.symm hne]
    · exact h.waiterStep rfl rfl hdata hmtx hexited (hside.goOn (.keep rfl) (by simp) rfl
        ⟨rfl, rfl⟩ (fun _ _ _ _ ↦ rfl) fun _ _ _ ↦ rfl)
  case timeout =>
    cases hstep
    have hnot := hside.not_timedout rfl
    split_ifs with hrc
    · refine h.waiterStep rfl rfl rfl hmtx hexited (hside.goto (.keep rfl) (by simp) rfl (by simp)
        ?_ ?_ (by simp [hnot]) ?_ fun _ _ _ ↦ rfl)
      · rw [isSet_setFlag _ (by decide) (by decide)]
        simp [flagInwait, flagTimedout]
      · rw [isSet_setFlag _ (by decide) (by decide)]
        simpa [DataTest.setFlag] using hrc
      · rw [isSet_setFlag _ (by decide) (by decide)]
        simp [flagCondwake, flagTimedout]
    · exact h.waiterStep rfl rfl hdata hmtx hexited (hside.goto (.keep rfl) (by simp) rfl (by simp)
        rfl (by simp [hnot, hrc]) id rfl fun _ _ _ ↦ rfl)
  case unlock =>
    cases hstep
    exact h.waiterStep rfl rfl hdata rfl hexited (hside.goto (.drop rfl rfl) (by simp) rfl
      (by simp) rfl hside.timedout id rfl fun _ _ _ ↦ rfl)

/-! ### Steps of the parent -/

section Parent

variable {view : View} {point : WaiterPoint} {data : DataTest} {mtx : Option Thread}

theorem holds_parent (holds : Bool) : Holds { view with holds := holds } side point =
      update (Holds view side point) .parent (holds = true) := by
  ext1 thread
  cases thread <;> simp [Holds]

/-- The parent takes or returns the mutex. -/
theorem SideOk.pass (h : SideOk view side point data mtx) (holds : Bool) {mtx' : Option Thread}
    (hpass : Passes .parent mtx view.holds holds mtx') :
    SideOk { view with holds := holds } side point data mtx' where
  __ := h
  owned := by
    rw [holds_parent]
    exact h.owned.pass Iff.rfl hpass

theorem SideOk.create (h : SideOk view side point data mtx) (habsent : view.absent = true) :
    SideOk { view with absent := false } side .lock data mtx := by
  obtain rfl := h.unborn.mpr habsent
  refine ⟨owned_goto h.owned (.keep rfl), by simp, h.inwait, h.past, ?_, h.condwake, h.leaves,
    h.joins, ?_⟩
  · rw [h.not_timedout rfl]
    simp
  · intro hjoined
    simpa using h.joined hjoined

/-- The parent finds `FLAG_INWAIT`. -/
theorem SideOk.see (h : SideOk view side point data mtx)
    (hset : isSet data.ctrl flagInwait = true) :
    SideOk { view with past := true } side point data mtx :=
  ⟨h.owned, h.unborn, h.inwait, fun _ ↦ h.inwait.symm.trans hset, h.timedout, h.condwake, h.leaves,
    h.joins, h.joined⟩

/-- The parent finds `FLAG_TIMEDOUT`. -/
theorem SideOk.findTimedout (h : SideOk view side point data mtx)
    (hset : isSet data.ctrl flagTimedout = true) :
    SideOk { view with joins := true } side point data mtx :=
  ⟨h.owned, h.unborn, h.inwait, h.past, h.timedout, h.condwake, h.leaves, fun _ ↦ hset, h.joined⟩

theorem SideOk.join (h : SideOk view side point data mtx) (hexited : point = .exited) :
    SideOk { view with wakes := false, signaled := false, joins := false, joined := true } side
      point data mtx :=
  ⟨h.owned, h.unborn, h.inwait, h.past, h.timedout, by simp, by simp, by simp, fun _ ↦ hexited⟩

/-- The parent sets `FLAG_CONDWAKE`. -/
theorem SideOk.setWake (h : SideOk view side point data mtx) :
    SideOk { view with wakes := true } side point (data.setFlag flagCondwake) mtx := by
  have hinwait :
      isSet (data.setFlag flagCondwake).ctrl flagInwait = isSet data.ctrl flagInwait := by
    rw [isSet_setFlag _ (by decide) (by decide)]
    simp [flagCondwake, flagInwait]
  have htimedout : isSet (data.setFlag flagCondwake).ctrl flagTimedout =
      isSet data.ctrl flagTimedout := by
    rw [isSet_setFlag _ (by decide) (by decide)]
    simp [flagCondwake, flagTimedout]
  refine ⟨h.owned, h.unborn, hinwait.trans h.inwait, h.past, ?_, fun _ ↦ ?_,
    fun hsignaled ↦ ⟨rfl, (h.leaves hsignaled).2⟩, ?_, h.joined⟩
  · rw [htimedout]
    exact h.timedout
  · rw [isSet_setFlag _ (by decide) (by decide)]
    simp
  · rw [htimedout]
    exact h.joins

/-- While the parent holds the mutex of a thread that has entered the wait, the thread is in the
wait, or has returned. -/
theorem SideOk.blocked_cases (h : SideOk view side point data mtx) (hholds : view.holds = true)
    (hpast : view.past = true) :
    point = .blocked ∨ (∃ rc, point = .woken rc) ∨ point = .exited := by
  have hparent : Holds view side point .parent := hholds
  have hout : point.holds = false := by
    rw [← Bool.not_eq_true]
    intro hwaiter
    have hwaiter' : Holds view side point (.waiter side) := ⟨rfl, hwaiter⟩
    exact absurd (h.owned.unique hparent hwaiter') (by simp)
  have hstarted := h.past hpast
  cases point <;> simp_all [WaiterPoint.holds]

/-- The parent signals the condition with `FLAG_CONDWAKE` set. -/
theorem SideOk.signal (h : SideOk view side point data mtx) (hholds : view.holds = true)
    (hpast : view.past = true) (hwakes : view.wakes = true) :
    SideOk { view with signaled := true } side (point.unblock .zero) data mtx := by
  have hok := h.unblock .zero
  refine ⟨hok.owned, hok.unborn, hok.inwait, hok.past, hok.timedout, hok.condwake,
    fun _ ↦ ⟨hwakes, ?_⟩, hok.joins, hok.joined⟩
  rcases h.blocked_cases hholds hpast with rfl | ⟨rc, rfl⟩ | rfl <;> rfl

end Parent

def Side.other : Side → Side
  | .N => .D
  | .D => .N

theorem Side.eq_other {side other : Side} (hne : other ≠ side) : other = side.other := by
  cases side <;> cases other <;> simp_all [Side.other]

@[simp] def ParentPoint.unfinished : ParentPoint → Bool
  | .ended _ | .unresolved => false
  | _ => true

/-- The parent goes on from one point to another, and its view of one side becomes `view`. -/
def ParentPoint.Turns (old point : ParentPoint) (side : Side) (view : View) : Prop :=
  point.unfinished = true ∧ point.view side = view ∧ point.view side.other = old.view side.other

section Turns

variable {old point : ParentPoint} {view : View} {mtx : Option Thread}

/-- Assumes: a step of the parent, not its last one, by which its view of one side changes. -/
theorem Inv.parentStep (h : Inv s) (hparent : s.parent = old) (side : Side) {waiter : WaiterPoint}
    {data : DataTest} (hside : SideOk view side waiter data mtx)
    (hturns : old.Turns s'.parent side view) (hwaiter : s'.waiter = update s.waiter side waiter)
    (hdata : s'.data = update s.data side data) (hmtx : s'.mtx = update s.mtx side mtx) :
    Inv s' where
  side := fun other ↦ by
    rw [hwaiter, hdata, hmtx]
    by_cases heq : other = side
    · subst heq
      rw [hturns.2.1]
      simpa only [update_self] using hside
    · rw [Side.eq_other heq, hturns.2.2, ← hparent, ← Side.eq_other heq]
      simpa only [update_of_ne heq] using h.side other
  verdict := fun result hended ↦ by
    have hunfinished := hturns.1
    simp [hended] at hunfinished
  resolved := by
    intro hresolved
    have hunfinished := hturns.1
    simp [hresolved] at hunfinished

/-- The parent takes or returns the mutex of one side. -/
theorem Inv.setMtx (h : Inv s) (hparent : s.parent = old) (side : Side)
    (hside : SideOk view side (s.waiter side) (s.data side) mtx)
    (hturns : old.Turns point side view) : Inv ((s.setMtx side mtx).setParent point) :=
  h.parentStep hparent side hside hturns (by simp) (by simp) rfl

/-- The parent goes on without a call that changes anything. -/
theorem Inv.setParent (h : Inv s) (hparent : s.parent = old) (side : Side)
    (hside : SideOk view side (s.waiter side) (s.data side) (s.mtx side))
    (hturns : old.Turns point side view) : Inv (s.setParent point) :=
  h.parentStep hparent side hside hturns (by simp) (by simp) (by simp)

/-- The parent signals the condition of one side. -/
theorem Inv.condSignal (h : Inv s) (hparent : s.parent = old) (side : Side)
    (hside : SideOk view side ((s.waiter side).unblock .zero) (s.data side) (s.mtx side))
    (hturns : old.Turns point side view) : Inv ((s.condSignal side).setParent point) :=
  h.parentStep hparent side hside hturns rfl (by simp) (by simp)

end Turns

/-- The comparison finds a difference exactly if the two waits have returned different values, and
does not get to `UNRESOLVED`. -/
theorem compare_spec {dtN dtD : DataTest}
    (hN : isSet dtN.ctrl flagTimedout = true ↔ dtN.rc = .etimedout)
    (hD : isSet dtD.ctrl flagTimedout = true ↔ dtD.rc = .etimedout) :
    ∃ result, compare 0 dtN dtD = .ended result ∧ (result = 0 ↔ dtN.rc = dtD.rc) := by
  unfold compare
  simp only [ne_eq, and_flag_eq_iff dtN.ctrl dtD.ctrl (show flagTimedout < 16 by decide)]
  by_cases hrc : dtN.rc = dtD.rc
  · have hflag : isSet dtN.ctrl flagTimedout = isSet dtD.ctrl flagTimedout := by
      rw [Bool.eq_iff_iff, hN, hD, hrc]
    refine ⟨0, ?_, by simp [hrc]⟩
    simp [hrc, hflag]
  · have hflag : isSet dtN.ctrl flagTimedout ≠ isSet dtD.ctrl flagTimedout := by
      intro heq
      cases hrcN : dtN.rc <;> cases hrcD : dtD.rc <;> simp_all
    refine ⟨1, ?_, by simp [hrc]⟩
    simp [hrc, hflag]

/-- The threads have been joined, and the parent compares them. -/
theorem Inv.compare (h : Inv s) (hparent : s.parent = .compare) :
    Inv (s.setParent (compare 0 (s.data .N) (s.data .D))) := by
  have hside := h.side
  simp only [hparent] at hside
  have htimedout : ∀ side, isSet (s.data side).ctrl flagTimedout = true ↔
      (s.data side).rc = .etimedout := by
    intro side
    rw [(hside side).timedout, (hside side).joined rfl]
    simp
  obtain ⟨result, hcompare, hresult⟩ := compare_spec (htimedout .N) (htimedout .D)
  rw [hcompare]
  refine ⟨hside, fun result' hended ↦ ?_, by simp⟩
  obtain rfl : result = result' := by simpa using hended
  exact hresult

theorem Inv.doCsTest (h : Inv s) (hstep : doCsTest s = some s') : Inv s' := by
  have hside := h.side
  unfold ClockTest.doCsTest at hstep
  cases hparent : s.parent <;> simp only [hparent, reduceCtorEq] at hstep hside
  case create side =>
    cases side with
    | D | N =>
      cases hstep
      exact h.parentStep hparent _ ((hside _).create rfl) ⟨rfl, rfl, rfl⟩ rfl (by simp) (by simp)
  case lock side =>
    obtain ⟨hfree, rfl⟩ := map_mutexLock_eq_some_iff.mp hstep
    exact h.setMtx hparent side ((hside side).pass true (.take hfree rfl))
      (by cases side <;> exact ⟨rfl, rfl, rfl⟩)
  case look side =>
    cases hstep
    split_ifs with hinwait
    · cases side with
      | N | D => exact h.setParent hparent _ ((hside _).see hinwait) ⟨rfl, rfl, rfl⟩
    · exact h.setParent hparent side (hside side) (by cases side <;> exact ⟨rfl, rfl, rfl⟩)
  case unlock side | unlockWaker side | unlockJoined side =>
    cases hstep
    exact h.setMtx hparent side ((hside side).pass false (.drop (by cases side <;> rfl) rfl))
      (by cases side <;> exact ⟨rfl, rfl, rfl⟩)
  case setClock =>
    cases hstep
    exact ⟨hside, by simp, by simp⟩
  case release again side =>
    cases side with
    | D | N =>
      cases hstep
      exact h.setMtx hparent _ ((hside _).pass false (.drop rfl rfl)) ⟨rfl, rfl, rfl⟩
  case relock again side =>
    cases side with
    | N =>
      obtain ⟨hfree, rfl⟩ := map_mutexLock_eq_some_iff.mp hstep
      exact h.setMtx hparent .N ((hside .N).pass true (.take hfree rfl)) ⟨rfl, rfl, rfl⟩
    | D =>
      obtain ⟨hfree, rfl⟩ := map_mutexLock_eq_some_iff.mp hstep
      exact h.setMtx hparent .D ((hside .D).pass true (.take hfree rfl))
        (by cases again <;> exact ⟨rfl, rfl, rfl⟩)
  case check =>
    cases hstep
    split_ifs
    all_goals exact h.setParent hparent .N (hside .N) ⟨rfl, rfl, rfl⟩
  case signal side =>
    cases side with
    | N | D =>
      cases hstep
      exact h.condSignal hparent _ ((hside _).unblock .zero) ⟨rfl, rfl, rfl⟩
  case process side =>
    cases hstep
    split_ifs with htimedout
    · exact h.setParent hparent side ((hside side).findTimedout htimedout)
        (by cases side <;> exact ⟨rfl, rfl, rfl⟩)
    · exact h.setParent hparent side (hside side) (by cases side <;> exact ⟨rfl, rfl, rfl⟩)
  case join side | joinWoken side =>
    split_ifs at hstep with hexited
    cases hstep
    exact h.setParent hparent side ((hside side).join hexited)
      (by cases side <;> exact ⟨rfl, rfl, rfl⟩)
  case setWake side =>
    cases hstep
    exact h.parentStep hparent side (hside side).setWake (by cases side <;> exact ⟨rfl, rfl, rfl⟩)
      (by simp) rfl (by simp)
  case wake side =>
    cases hstep
    have hsignal := (hside side).signal (by cases side <;> rfl) (by cases side <;> rfl)
      (by cases side <;> rfl)
    exact h.condSignal hparent side hsignal (by cases side <;> exact ⟨rfl, rfl, rfl⟩)
  case compare =>
    cases hstep
    exact h.compare hparent

theorem Inv.unblocked (h : Inv s) {rc : Rc} (hstep : unblocked s side rc = some s') : Inv s' := by
  obtain ⟨hblocked, ⟨⟩⟩ := Option.ite_none_right_eq_some.mp hstep
  have hside := (h.side side).unblock rc
  rw [hblocked] at hside
  exact h.waiterStep rfl rfl (by simp) (by simp) (by simp [hblocked]) hside

theorem Inv.next (h : Inv s) {move : Move} (hstep : next s move = some s') : Inv s' := by
  cases move with
  | thread thread =>
    cases thread with
    | parent => exact h.doCsTest hstep
    | waiter side => exact h.testTimeout hstep
  | expire side =>
    simp only [ClockTest.next, Option.ite_none_right_eq_some] at hstep
    exact h.unblocked hstep.2
  | spurious side => exact h.unblocked hstep

theorem inv_of_reachable (h : program.Reachable s) : Inv s :=
  h.invariant (fun _ hs ↦ hs ▸ inv_start) fun _ _ _ _ hinv hnext ↦ hinv.next hnext

end OpenPosix.CondVars.ClockTest

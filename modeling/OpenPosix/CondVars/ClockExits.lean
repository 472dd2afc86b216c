import OpenPosix.CondVars.ClockDecay
import OpenPosix.CondVars.ClockTestModel

/-!
# The exits of the clock test

`do_cs_test` of `conformance/interfaces/pthread_cond_init/1-2.c`, with calls that fail. The parent
sets the default clock a week forward and sets it back once both threads are joined. A call that
fails, of the parent or of one of the threads, ends the process with `UNRESOLVED` at once, whatever
the clock shows.

`ClockTestModel` has the same code with calls that succeed. Here a call may fail at any point, the
wait of a thread may return any error, and the readings and settings of the clock are steps. What
the clock is set to is kept (`forward`, `back`); what it shows in between is not: a reading gives
any time. The steps before the creation of the threads, where the clock is not moved, are left out.

`clock_left_iff` is the result: the clock is left moved exactly if a call fails between the two
settings.
-/

namespace OpenPosix.CondVars.ClockExits

open Clock ClockDecay Interleaving Words
open ClockTest (Side Thread flagTimedout flagAwaken flagCondwake flagInwait counterBits)

def etimedout : ℕ := 110

def week : ℤ := 604800

/-- `datatest_t`, without the pointers. -/
structure DataTest where
  ctrl : BitVec 16
  rc : ℕ
  deriving DecidableEq, Repr

def DataTest.setFlag (data : DataTest) (bit : ℕ) : DataTest :=
  { data with ctrl := data.ctrl ||| flag bit }

inductive WaiterPoint
  | unborn
  | lock
  | mark
  | wait
  | blocked
  | woken (rc : ℕ)
  | store (rc : ℕ)
  | count
  | test
  | awaken
  | timeout
  | unlock
  | exited
  deriving DecidableEq, Repr

/-- The points of `do_cs_test`, from the creation of the threads on. `again` says whether it has
signalled the conditions once; `destroy` counts the objects that are left to destroy. -/
inductive ParentPoint
  | create (side : Side)
  | lock (side : Side)
  | look (side : Side)
  | unlock (side : Side)
  | readClock
  | setForward
  | release (again : Bool) (side : Side)
  | relock (again : Bool) (side : Side)
  | check
  | signal (side : Side)
  | process (side : Side)
  | join (side : Side)
  | unlockJoined (side : Side)
  | setWake (side : Side)
  | wake (side : Side)
  | unlockWaker (side : Side)
  | joinWoken (side : Side)
  | readBack
  | setBack
  | compare
  | destroy (left result : ℕ)
  deriving DecidableEq, Repr

/-- How the process ends, or the function returns: a call of the parent or of a thread has failed,
the threads have got different error codes, or the result. -/
inductive Exit
  | parent (point : ParentPoint)
  | waiter (side : Side)
  | differentCodes
  | returned (result : ℕ)
  deriving DecidableEq, Repr

/-- A step of the parent, with what the clock shows; a step of a thread; the return of a wait with
0 or by the expiry of its timeout; a call that fails, where a wait gives its error. -/
inductive Move
  | parent (reading : Timespec)
  | waiter (side : Side)
  | spurious (side : Side)
  | expire (side : Side)
  | failParent
  | failWaiter (side : Side)
  | failWait (side : Side) (rc : ℕ)
  deriving DecidableEq, Repr

structure State where
  parent : ParentPoint
  waiter : Side → WaiterPoint
  data : Side → DataTest
  mtx : Side → Option Thread
  ts : Timespec
  forward : Option Timespec
  back : Option Timespec
  exit : Option Exit

/-- What the clock is set back to, from the reading before: where there is a monotonic clock it is
that clock that is read, and the decay is applied to it. -/
def target (decay : Option Decay) (reading : Timespec) : Timespec :=
  match decay with
  | none => ⟨reading.tvSec - week, reading.tvNsec⟩
  | some decay => restore decay reading

def State.goto (s : State) (side : Side) (point : WaiterPoint) : State :=
  { s with waiter := Function.update s.waiter side point }

def State.store (s : State) (side : Side) (data : DataTest) : State :=
  { s with data := Function.update s.data side data }

def State.setMtx (s : State) (side : Side) (owner : Option Thread) : State :=
  { s with mtx := Function.update s.mtx side owner }

def State.setParent (s : State) (point : ParentPoint) : State := { s with parent := point }

def WaiterPoint.unblock (rc : ℕ) : WaiterPoint → WaiterPoint
  | .blocked => .woken rc
  | point => point

def State.condSignal (s : State) (side : Side) : State :=
  s.goto side ((s.waiter side).unblock 0)

def testTimeout (s : State) (side : Side) : Option State :=
  match s.waiter side with
  | .unborn => none
  | .lock =>
    (mutexLock (s.mtx side) (.waiter side)).map fun owner ↦ (s.setMtx side owner).goto side .mark
  | .mark => some ((s.store side ((s.data side).setFlag flagInwait)).goto side .wait)
  | .wait => some ((s.setMtx side none).goto side .blocked)
  | .blocked => none
  | .woken rc =>
    (mutexLock (s.mtx side) (.waiter side)).map fun owner ↦
      (s.setMtx side owner).goto side (.store rc)
  | .store rc => some ((s.store side { s.data side with rc := rc }).goto side .count)
  | .count =>
    some ((s.store side { s.data side with ctrl := countUp counterBits (s.data side).ctrl }).goto
      side .test)
  | .test =>
    some (s.goto side
      (if (s.data side).rc = 0 ∧ isSet (s.data side).ctrl flagCondwake = false then .wait
        else .awaken))
  | .awaken =>
    some ((if (s.data side).rc = 0 then s.store side ((s.data side).setFlag flagAwaken)
      else s).goto side .timeout)
  | .timeout =>
    some ((if (s.data side).rc = etimedout then s.store side ((s.data side).setFlag flagTimedout)
      else s).goto side .unlock)
  | .unlock => some ((s.setMtx side none).goto side .exited)
  | .exited => none

/-- The comparison of the two threads: `result`, or no result if their error codes differ. -/
def compare (dtN dtD : DataTest) : Option ℕ :=
  if dtN.ctrl = dtD.ctrl ∧ dtN.rc = dtD.rc then some 0
  else if dtN.ctrl &&& flag flagTimedout ≠ dtD.ctrl &&& flag flagTimedout then some 1
  else if dtN.rc ≠ dtD.rc then none
  -- the last test of the source only writes a line: the result is 0 already
  else some 0

/-- The Null attribute condition variable is processed before the other one. -/
def processed : Side → ParentPoint
  | .N => .process .D
  | .D => .readBack

def doCsTest (decay : Option Decay) (reading : Timespec) (s : State) : Option State :=
  match s.parent with
  | .create .D => some ((s.goto .D .lock).setParent (.create .N))
  | .create .N => some ((s.goto .N .lock).setParent (.lock .N))
  | .lock side =>
    (mutexLock (s.mtx side) .parent).map fun owner ↦ (s.setMtx side owner).setParent (.look side)
  | .look side =>
    some (s.setParent (if isSet (s.data side).ctrl flagInwait then
      match side with
      | .N => .lock .D
      | .D => .readClock
    else .unlock side))
  | .unlock side => some ((s.setMtx side none).setParent (.lock side))
  | .readClock =>
    some { s with parent := .setForward, ts := ⟨reading.tvSec + week, reading.tvNsec⟩ }
  | .setForward => some { s with parent := .release false .D, forward := some s.ts }
  | .release again .D => some ((s.setMtx .D none).setParent (.release again .N))
  | .release again .N => some ((s.setMtx .N none).setParent (.relock again .N))
  | .relock again .N =>
    (mutexLock (s.mtx .N) .parent).map fun owner ↦ (s.setMtx .N owner).setParent (.relock again .D)
  | .relock again .D =>
    (mutexLock (s.mtx .D) .parent).map fun owner ↦
      (s.setMtx .D owner).setParent (if again then .process .N else .check)
  | .check => some (s.setParent (if (s.data .D).rc = 0 then .signal .N else .process .N))
  | .signal .N => some ((s.condSignal .N).setParent (.signal .D))
  | .signal .D => some ((s.condSignal .D).setParent (.release true .D))
  | .process side =>
    some (s.setParent (if isSet (s.data side).ctrl flagTimedout then .join side else .setWake side))
  | .join side =>
    if s.waiter side = .exited then some (s.setParent (.unlockJoined side)) else none
  | .unlockJoined side => some ((s.setMtx side none).setParent (processed side))
  | .setWake side =>
    some ((s.store side ((s.data side).setFlag flagCondwake)).setParent (.wake side))
  | .wake side => some ((s.condSignal side).setParent (.unlockWaker side))
  | .unlockWaker side => some ((s.setMtx side none).setParent (.joinWoken side))
  | .joinWoken side =>
    if s.waiter side = .exited then some (s.setParent (processed side)) else none
  | .readBack => some { s with parent := .setBack, ts := target decay reading }
  | .setBack => some { s with parent := .compare, back := some s.ts }
  | .compare =>
    match compare (s.data .N) (s.data .D) with
    | some result => some (s.setParent (.destroy 5 result))
    | none => some { s with exit := some .differentCodes }
  | .destroy 0 result => some { s with exit := some (.returned result) }
  | .destroy (left + 1) result => some (s.setParent (.destroy left result))

/-- The next step of the parent at this point is a call whose result is looked at. -/
def ParentPoint.calls : ParentPoint → Bool
  | .look _ | .check | .process _ | .setWake _ | .compare | .destroy 0 _ => false
  | _ => true

/-- The next step of the thread at this point is a call whose error ends the process. -/
def WaiterPoint.calls : WaiterPoint → Bool
  | .lock | .unlock => true
  | _ => false

def next (decay : Option Decay) (s : State) (move : Move) : Option State :=
  if s.exit = none then
    match move with
    | .parent reading => doCsTest decay reading s
    | .waiter side => testTimeout s side
    | .spurious side =>
      if s.waiter side = .blocked then some (s.goto side (.woken 0)) else none
    | .expire side =>
      if s.waiter side = .blocked ∧ s.forward.isSome then some (s.goto side (.woken etimedout))
      else none
    | .failParent =>
      if s.parent.calls then some { s with exit := some (.parent s.parent) } else none
    | .failWaiter side =>
      if (s.waiter side).calls then some { s with exit := some (.waiter side) } else none
    | .failWait side rc =>
      if s.waiter side = .wait then some (s.goto side (.store rc)) else none
  else
    none

/-- The state before the first thread is created, with the first reading of the clock. -/
def start (ts : Timespec) : State where
  parent := .create .D
  waiter := fun _ ↦ .unborn
  data := fun _ ↦ ⟨0#16, 0⟩
  mtx := fun _ ↦ none
  ts := ts
  forward := none
  back := none
  exit := none

/-- The program, with the decay that was saved, where there is a monotonic clock. -/
def program (decay : Option Decay) : System State Move where
  Initial := fun s ↦ ∃ ts, s = start ts
  next := next decay

/-- A call has failed that the parent makes between the two settings of the clock, or one of a
thread. -/
def Exit.between : Exit → Bool
  | .parent (.release _ _) | .parent (.relock _ _) | .parent (.signal _) | .parent (.join _)
  | .parent (.unlockJoined _) | .parent (.wake _) | .parent (.unlockWaker _)
  | .parent (.joinWoken _) | .parent .readBack | .parent .setBack | .waiter _ => true
  | _ => false

/-! ### The invariant -/

def ParentPoint.moved : ParentPoint → Bool
  | .create _ | .lock _ | .look _ | .unlock _ | .readClock | .setForward => false
  | _ => true

def ParentPoint.restored : ParentPoint → Bool
  | .compare | .destroy _ _ => true
  | _ => false

def ParentPoint.joined : ParentPoint → Side → Bool
  | .process .D, .N | .join .D, .N | .setWake .D, .N | .wake .D, .N | .unlockWaker .D, .N
  | .joinWoken .D, .N | .unlockJoined .D, _ | .unlockJoined .N, .N => true
  | .readBack, _ | .setBack, _ | .compare, _ | .destroy _ _, _ => true
  | _, _ => false

theorem ParentPoint.joined_of_restored {point : ParentPoint} (h : point.restored = true)
    (side : Side) : point.joined side = true := by
  cases point with
  | compare | destroy => rfl
  | _ => exact absurd h Bool.false_ne_true

variable {decay : Option Decay} {s s' : State} {side : Side} {move : Move} {exit : Exit}

/-- What the flags of the state are, by the point of the parent. -/
structure Inv (decay : Option Decay) (s : State) : Prop where
  forward : s.forward.isSome = s.parent.moved
  back : s.back.isSome = s.parent.restored
  joined : ∀ side, s.parent.joined side = true → s.waiter side = .exited
  ready : s.parent = .setBack → ∃ reading, s.ts = target decay reading
  target : ∀ time, s.back = some time → ∃ reading, time = target decay reading

structure Ended (s : State) : Prop where
  parent : ∀ point, s.exit = some (.parent point) → s.parent = point ∧ point.calls = true
  waiter : ∀ side, s.exit = some (.waiter side) → s.waiter side ≠ .exited
  codes : s.exit = some .differentCodes → s.parent.restored = true
  returned : ∀ result, s.exit = some (.returned result) → s.parent.restored = true

theorem inv_start (ts : Timespec) : Inv decay (start ts) where
  forward := rfl
  back := rfl
  joined _ hjoined := absurd hjoined Bool.false_ne_true
  ready hparent := by cases hparent
  target _ hback := by cases hback

theorem ended_of_none (h : s.exit = none) : Ended s := by
  constructor <;> simp [h]

/-- The parent goes from one point to another without setting the clock or joining a thread. -/
def Alike (old new : ParentPoint) : Prop :=
  (new.moved = old.moved ∧ new.restored = old.restored) ∧
    (new.joined .N = true → old.joined .N = true) ∧
    (new.joined .D = true → old.joined .D = true) ∧ new ≠ .setBack

instance (old new : ParentPoint) : Decidable (Alike old new) := inferInstanceAs (Decidable (_ ∧ _))

theorem Inv.goto {old new : ParentPoint} {waiter : Side → WaiterPoint} {data : Side → DataTest}
    {mtx : Side → Option Thread} (h : Inv decay s) (hparent : s.parent = old)
    (halike : Alike old new) (hwaiter : ∀ side, new.joined side = true →
      s.waiter side = .exited → waiter side = .exited) :
    Inv decay { s with parent := new, waiter := waiter, data := data, mtx := mtx } := by
  subst hparent
  obtain ⟨⟨hmoved, hrestored⟩, hjoinedN, hjoinedD, hready⟩ := halike
  refine ⟨h.forward.trans hmoved.symm, h.back.trans hrestored.symm, fun side hjoined ↦ ?_,
    fun hparent ↦ absurd hparent hready, h.target⟩
  refine hwaiter side hjoined (h.joined side ?_)
  cases side with
  | N => exact hjoinedN hjoined
  | D => exact hjoinedD hjoined

theorem Inv.join {old new : ParentPoint} (h : Inv decay s) (hparent : s.parent = old)
    (hmoved : new.moved = old.moved) (hrestored : new.restored = old.restored)
    (hready : new ≠ .setBack) (hexited : s.waiter side = .exited)
    (hothers : ∀ other, new.joined other = true → old.joined other = true ∨ other = side) :
    Inv decay (s.setParent new) := by
  subst hparent
  refine ⟨h.forward.trans hmoved.symm, h.back.trans hrestored.symm, fun other hjoined ↦ ?_,
    fun hparent ↦ absurd hparent hready, h.target⟩
  obtain hbefore | rfl := hothers other hjoined
  · exact h.joined other hbefore
  · exact hexited

theorem exited_condSignal (other : Side) (h : s.waiter side = .exited) :
    (s.condSignal other).waiter side = .exited := by
  by_cases heq : side = other
  · simp [State.condSignal, State.goto, ← heq, h, WaiterPoint.unblock]
  · simp [State.condSignal, State.goto, heq, h]

theorem Inv.readClock (h : Inv decay s) (hparent : s.parent = .readClock) (ts : Timespec) :
    Inv decay { s with parent := .setForward, ts := ts } := by
  have hforward := h.forward
  have hback := h.back
  rw [hparent] at hforward hback
  exact ⟨hforward, hback, fun _ hjoined ↦ absurd hjoined Bool.false_ne_true, by simp, h.target⟩

theorem Inv.setForward (h : Inv decay s) (hparent : s.parent = .setForward) (time : Timespec) :
    Inv decay { s with parent := .release false .D, forward := some time } := by
  have hback := h.back
  rw [hparent] at hback
  exact ⟨rfl, hback, fun _ hjoined ↦ absurd hjoined Bool.false_ne_true, by simp, h.target⟩

theorem Inv.readBack (h : Inv decay s) (hparent : s.parent = .readBack) (reading : Timespec) :
    Inv decay { s with parent := .setBack, ts := ClockExits.target decay reading } := by
  obtain ⟨hforward, hback, hjoined, -, htarget⟩ := h
  rw [hparent] at hforward hback hjoined
  exact ⟨hforward, hback, fun side _ ↦ hjoined side rfl, fun _ ↦ ⟨reading, rfl⟩, htarget⟩

theorem Inv.setBack (h : Inv decay s) (hparent : s.parent = .setBack) :
    Inv decay { s with parent := .compare, back := some s.ts } := by
  have hready := h.ready hparent
  obtain ⟨hforward, -, hjoined, -, -⟩ := h
  rw [hparent] at hforward hjoined
  refine ⟨hforward, rfl, fun side _ ↦ hjoined side rfl, by simp, fun time htime ↦ ?_⟩
  obtain rfl := Option.some.inj htime
  exact hready

theorem Inv.ends (h : Inv decay s) (exit : Exit) : Inv decay { s with exit := some exit } :=
  ⟨h.forward, h.back, h.joined, h.ready, h.target⟩

theorem joined_processed {other : Side} (h : (processed side).joined other = true) :
    (ParentPoint.joinWoken side).joined other = true ∨ other = side := by
  revert h
  cases side <;> cases other <;> decide

theorem Inv.doCsTest {reading : Timespec} (h : Inv decay s)
    (hnext : doCsTest decay reading s = some s') : Inv decay s' := by
  unfold ClockExits.doCsTest at hnext
  split at hnext
  case h_1 hparent | h_2 hparent =>
    cases hnext
    exact h.goto hparent (by decide) fun _ hjoined ↦ absurd hjoined Bool.false_ne_true
  case h_3 side hparent =>
    obtain ⟨owner, -, rfl⟩ := Option.map_eq_some_iff.mp hnext
    exact h.goto hparent (by cases side <;> decide) fun _ _ ↦ id
  case h_4 side hparent =>
    cases hnext
    refine h.goto hparent ?_ fun _ _ ↦ id
    cases side <;> cases isSet (s.data _).ctrl flagInwait <;> decide
  case h_5 side hparent | h_18 side hparent | h_17 side hparent | h_20 side hparent =>
    cases hnext
    exact h.goto hparent (by cases side <;> decide) fun _ _ ↦ id
  case h_8 again hparent | h_9 again hparent =>
    cases hnext
    exact h.goto hparent (by cases again <;> decide) fun _ _ ↦ id
  case h_10 again hparent | h_11 again hparent =>
    obtain ⟨owner, -, rfl⟩ := Option.map_eq_some_iff.mp hnext
    exact h.goto hparent (by cases again <;> decide) fun _ _ ↦ id
  case h_12 hparent =>
    cases hnext
    exact h.goto hparent (by split <;> decide) fun _ _ ↦ id
  case h_13 hparent | h_14 hparent =>
    cases hnext
    exact h.goto hparent (by decide) fun _ _ ↦ exited_condSignal _
  case h_15 side hparent =>
    cases hnext
    exact h.goto hparent (by cases side <;> split <;> decide) fun _ _ ↦ id
  case h_19 side hparent =>
    cases hnext
    exact h.goto hparent (by cases side <;> decide) fun _ _ ↦ exited_condSignal _
  case h_16 side hparent =>
    obtain ⟨hexited, ⟨⟩⟩ := Option.ite_none_right_eq_some.mp hnext
    refine h.join hparent (by cases side <;> rfl) (by cases side <;> rfl) (by simp) hexited ?_
    intro other hjoined
    revert hjoined
    cases side <;> cases other <;> decide
  case h_21 side hparent =>
    obtain ⟨hexited, ⟨⟩⟩ := Option.ite_none_right_eq_some.mp hnext
    exact h.join hparent (by cases side <;> rfl) (by cases side <;> rfl)
      (by cases side <;> simp [processed]) hexited fun _ ↦ joined_processed
  case h_24 hparent =>
    split at hnext
    all_goals cases hnext
    · exact h.goto hparent ⟨⟨rfl, rfl⟩, id, id, by simp⟩ fun _ _ ↦ id
    · exact h.ends _
  case h_26 left result hparent =>
    cases hnext
    exact h.goto hparent ⟨⟨rfl, rfl⟩, id, id, by simp⟩ fun _ _ ↦ id
  -- the clock, and the end
  all_goals cases hnext
  · exact h.readClock ‹_› _
  · exact h.setForward ‹_› _
  · exact h.readBack ‹_› reading
  · exact h.setBack ‹_›
  · exact h.ends _

/-- A thread that has not exited goes on. -/
theorem Inv.waiter {point : WaiterPoint} {data : Side → DataTest} {mtx : Side → Option Thread}
    (h : Inv decay s) (hlive : s.waiter side ≠ .exited) :
    Inv decay { s with
      waiter := Function.update s.waiter side point, data := data, mtx := mtx } := by
  refine ⟨h.forward, h.back, fun other hjoined ↦ ?_, h.ready, h.target⟩
  have hexited := h.joined other hjoined
  have hne : other ≠ side := by
    rintro rfl
    exact hlive hexited
  simpa [hne] using hexited

theorem Inv.testTimeout (h : Inv decay s) (hnext : testTimeout s side = some s') :
    Inv decay s' := by
  have hlive : s.waiter side ≠ .exited := by
    intro hexited
    simp [ClockExits.testTimeout, hexited] at hnext
  unfold ClockExits.testTimeout at hnext
  split at hnext
  case h_1 | h_5 | h_13 => cases hnext
  case h_2 | h_6 =>
    obtain ⟨owner, -, rfl⟩ := Option.map_eq_some_iff.mp hnext
    exact h.waiter hlive
  case h_10 | h_11 =>
    cases hnext
    split
    all_goals exact h.waiter hlive
  all_goals
    cases hnext
    exact h.waiter hlive

theorem Inv.next (h : Inv decay s) (hnext : next decay s move = some s') : Inv decay s' := by
  obtain ⟨-, hnext⟩ := Option.ite_none_right_eq_some.mp hnext
  cases move with
  | parent reading => exact h.doCsTest hnext
  | waiter side => exact h.testTimeout hnext
  | spurious side =>
    obtain ⟨hblocked, ⟨⟩⟩ := Option.ite_none_right_eq_some.mp hnext
    exact h.waiter (by simp [hblocked])
  | expire side =>
    obtain ⟨⟨hblocked, -⟩, ⟨⟩⟩ := Option.ite_none_right_eq_some.mp hnext
    exact h.waiter (by simp [hblocked])
  | failWait side rc =>
    obtain ⟨hwait, ⟨⟩⟩ := Option.ite_none_right_eq_some.mp hnext
    exact h.waiter (by simp [hwait])
  | failParent | failWaiter =>
    obtain ⟨-, ⟨⟩⟩ := Option.ite_none_right_eq_some.mp hnext
    exact h.ends _

theorem inv_of_reachable (h : (program decay).Reachable s) : Inv decay s := by
  refine h.invariant (fun s hinit ↦ ?_) fun s move s' _ hinv hnext ↦ hinv.next hnext
  obtain ⟨ts, rfl⟩ := hinit
  exact inv_start ts

/-! ### How the process ends -/

/-- A step of the parent that succeeds does not end the process before the clock is set back. -/
theorem ended_doCsTest {reading : Timespec} (hexit : s.exit = none)
    (hnext : doCsTest decay reading s = some s') : Ended s' := by
  unfold doCsTest at hnext
  split at hnext
  case h_3 | h_10 | h_11 =>
    obtain ⟨owner, -, rfl⟩ := Option.map_eq_some_iff.mp hnext
    exact ended_of_none hexit
  case h_16 | h_21 =>
    split_ifs at hnext
    cases hnext
    exact ended_of_none hexit
  case h_24 hparent =>
    split at hnext
    all_goals cases hnext
    · exact ended_of_none hexit
    · exact ⟨by simp, by simp, fun _ ↦ by rw [hparent]; rfl, by simp⟩
  case h_25 hparent =>
    cases hnext
    exact ⟨by simp, by simp, by simp, fun _ _ ↦ by rw [hparent]; rfl⟩
  all_goals
    cases hnext
    exact ended_of_none hexit

theorem exit_testTimeout (hnext : testTimeout s side = some s') : s'.exit = s.exit := by
  unfold testTimeout at hnext
  split at hnext
  case h_1 | h_5 | h_13 => cases hnext
  case h_2 | h_6 =>
    obtain ⟨owner, -, rfl⟩ := Option.map_eq_some_iff.mp hnext
    rfl
  case h_10 | h_11 =>
    cases hnext
    split <;> rfl
  all_goals
    cases hnext
    rfl

theorem ended_next (hnext : next decay s move = some s') : Ended s' := by
  obtain ⟨hexit, hnext⟩ := Option.ite_none_right_eq_some.mp hnext
  cases move with
  | parent reading => exact ended_doCsTest hexit hnext
  | waiter side => exact ended_of_none ((exit_testTimeout hnext).trans hexit)
  | spurious side | expire side | failWait side rc =>
    obtain ⟨-, ⟨⟩⟩ := Option.ite_none_right_eq_some.mp hnext
    exact ended_of_none hexit
  | failParent =>
    split_ifs at hnext with hcalls
    cases hnext
    refine ⟨fun point hpoint ↦ ?_, by simp, by simp, by simp⟩
    obtain rfl : s.parent = point := by simpa using hpoint
    exact ⟨rfl, hcalls⟩
  | failWaiter side =>
    obtain ⟨hcalls, ⟨⟩⟩ := Option.ite_none_right_eq_some.mp hnext
    refine ⟨by simp, fun other hother ↦ ?_, by simp, by simp⟩
    obtain rfl : side = other := by simpa using hother
    intro hexited
    rw [show s.waiter side = .exited from hexited] at hcalls
    cases hcalls

theorem ended_of_reachable (h : (program decay).Reachable s) : Ended s := by
  refine h.invariant (fun s hinit ↦ ?_) fun s move s' _ _ hnext ↦ ?_
  · obtain ⟨ts, rfl⟩ := hinit
    exact ended_of_none rfl
  · exact ended_next hnext

/-! ### The result -/

/-- A clock that was set forward has been set back, unless a call has failed in between. -/
theorem restored_iff (h : (program decay).Reachable s) (hexit : s.exit = some exit)
    (hforward : s.forward.isSome = true) : s.parent.restored = true ↔ exit.between = false := by
  have hinv := inv_of_reachable h
  have hended := ended_of_reachable h
  cases exit with
  | parent point =>
    obtain ⟨hparent, hcalls⟩ := hended.parent point hexit
    rw [hinv.forward, hparent] at hforward
    rw [hparent]
    cases point with
    | create | lock | look | unlock | readClock | setForward => cases hforward
    | check | process | setWake | compare => cases hcalls
    | destroy => exact iff_of_true rfl rfl
    | _ => exact iff_of_false Bool.noConfusion Bool.noConfusion
  | waiter side =>
    refine iff_of_false (fun hrestored ↦ hended.waiter side hexit ?_) Bool.noConfusion
    exact hinv.joined side (ParentPoint.joined_of_restored hrestored side)
  | differentCodes => exact iff_of_true (hended.codes hexit) rfl
  | returned result => exact iff_of_true (hended.returned result hexit) rfl

/-- Assumes: the process has ended, or the function has returned. If the clock was set forward, it
has been set back, to the time that the decay or the week gives, exactly when the end is not due to
a call that fails between the two settings. -/
theorem clock_left_iff (h : (program decay).Reachable s) (hexit : s.exit = some exit) :
    (s.forward.isSome = true → ∃ reading, s.back = some (target decay reading)) ↔
      (s.forward.isSome = true → exit.between = false) := by
  have hinv := inv_of_reachable h
  refine forall_congr' fun hforward ↦ ?_
  rw [← restored_iff h hexit hforward, ← hinv.back]
  constructor
  · rintro ⟨reading, hback⟩
    rw [hback]
    rfl
  · intro hsome
    obtain ⟨time, htime⟩ := Option.isSome_iff_exists.mp hsome
    obtain ⟨reading, rfl⟩ := hinv.target time htime
    exact ⟨reading, htime⟩

/-- Both threads wait, and the parent sets the clock forward. The clock shows 0 at every reading. -/
def setsForward : List Move :=
  List.flatten [.replicate 2 (.parent ⟨0, 0⟩), .replicate 3 (.waiter .N), .replicate 3 (.waiter .D),
    .replicate 6 (.parent ⟨0, 0⟩)]

/-- Both waits expire, and the parent comes to its end. -/
def returns : List Move :=
  List.flatten [setsForward, .replicate 2 (.parent ⟨0, 0⟩), [.expire .N],
    .replicate 7 (.waiter .N), [.expire .D], .replicate 7 (.waiter .D),
    .replicate 18 (.parent ⟨0, 0⟩)]

theorem clock_left_returns : ∃ s, (program none).Reachable s ∧ s.exit = some (.returned 0) ∧
    s.forward = some ⟨week, 0⟩ ∧ ∃ reading, s.back = some (target none reading) := by
  obtain ⟨s, hreach, hexit, hforward⟩ : ∃ s, (program none).Reachable s ∧
      s.exit = some (.returned 0) ∧ s.forward = some ⟨week, 0⟩ :=
    System.exists_reachable returns ⟨⟨0, 0⟩, rfl⟩ (by decide +kernel)
  exact ⟨s, hreach, hexit, hforward,
    (clock_left_iff hreach hexit).mpr (fun _ ↦ rfl) (by rw [hforward]; rfl)⟩

/-- The first `pthread_mutex_unlock` after the clock has been set forward fails. -/
theorem unlock_leaves_clock : ∃ s, (program none).Reachable s ∧
    s.exit = some (.parent (.release false .D)) ∧ s.forward = some ⟨week, 0⟩ ∧ s.back = none ∧
      ∀ move, (program none).next s move = none := by
  obtain ⟨s, hreach, hexit, hforward, hback⟩ : ∃ s, (program none).Reachable s ∧
      s.exit = some (.parent (.release false .D)) ∧ s.forward = some ⟨week, 0⟩ ∧ s.back = none :=
    System.exists_reachable (setsForward ++ [.failParent]) ⟨⟨0, 0⟩, rfl⟩ (by decide +kernel)
  exact ⟨s, hreach, hexit, hforward, hback, fun move ↦ by simp [program, next, hexit]⟩

end OpenPosix.CondVars.ClockExits

import OpenPosix.CondVars.SharedInvariant
import OpenPosix.Interleaving.ThreadPool

/-!
# Leaving the parent process early

What becomes of the child when `parent_process` is left by `LOC_URSLVD`. The child can still end if
every thread has returned, or is in its wait or behind it with a mutex that the parent does not
hold: it is then unblocked by the signal of the main thread, finds `bool` set and returns
(`Leaving`). A thread whose mutex the parent holds never returns, one that comes to its wait after
the signal never wakes up, and neither does one that a wake-up of the parent has used up, unless a
signal is on its way to it. As the argument of the macro is evaluated after `sem_post` has assigned
`ret`, some of the exits make `parent_process` return 0, and the test then passes
(`exit_safe_iff`).
-/

namespace OpenPosix.CondVars.Shared

open Interleaving Function

variable {s s' : State} {w : Cond} {choice : Choice} {rc2 : ℤ}

attribute [simp] State.setMtx

/-! ### Steps in the child -/

variable {move : Move}

/-- A signal is on its way to the thread. -/
def State.Alerted (s : State) (w : Cond) : Prop :=
  s.usr1 = true ∨ w ∈ s.handling ∨ s.usr2 w = true

/-- What a step in the child leaves alone. A thread is used up by the parent only, and it does not
miss a signal. -/
structure Frame (s s' : State) : Prop where
  parent : s'.parent = s.parent
  result : s'.result = s.result
  bool : s'.bool = s.bool
  held : ∀ w, s'.mtx w = some .parent ↔ s.mtx w = some .parent
  alive : s'.main ≠ .killed
  used : ∀ w, s'.thread w = .usedUp → s.thread w = .usedUp ∧ (s'.Alerted w ↔ s.Alerted w)

theorem Frame.refl (halive : s.main ≠ .killed) : Frame s s :=
  ⟨rfl, rfl, rfl, fun _ ↦ .rfl, halive, fun _ hw ↦ ⟨hw, .rfl⟩⟩

theorem Frame.trans {t : State} (h : Frame s s') (h' : Frame s' t) : Frame s t where
  parent := h'.parent.trans h.parent
  result := h'.result.trans h.result
  bool := h'.bool.trans h.bool
  held := fun w ↦ (h'.held w).trans (h.held w)
  alive := h'.alive
  used := by
    intro w hw
    obtain ⟨hw', halerted'⟩ := h'.used w hw
    obtain ⟨hw, halerted⟩ := h.used w hw'
    exact ⟨hw, halerted'.trans halerted⟩

/-- A mutex goes from the child to nobody or back. -/
theorem held_setMtx {owner : Option Owner} (hbefore : s.mtx w ≠ some .parent)
    (howner : owner ≠ some .parent) (i : Cond) :
    update s.mtx w owner i = some .parent ↔ s.mtx i = some .parent := by
  by_cases heq : i = w
  · subst heq
    simpa using iff_of_false howner hbefore
  · rw [update_of_ne heq]

/-- A thread goes to another point, and no signal does anything. -/
theorem used_goto {point : ThreadPoint} (hpoint : point = .usedUp → s.thread w = .usedUp)
    (hthread : s'.thread = update s.thread w point) (hsame : ∀ i, s'.Alerted i ↔ s.Alerted i)
    (i : Cond) (hi : s'.thread i = .usedUp) :
    s.thread i = .usedUp ∧ (s'.Alerted i ↔ s.Alerted i) := by
  refine ⟨?_, hsame i⟩
  rw [hthread] at hi
  by_cases heq : i = w
  · subst heq
    rw [update_self] at hi
    exact hpoint hi
  · rwa [update_of_ne heq] at hi

theorem Inv.frame_thread (h : Inv s) {point : ThreadPoint} (halive : s.main ≠ .killed)
    (hstep : ThreadStep s s' w point) : Frame s s' := by
  refine ⟨hstep.parent, hstep.result, hstep.bool, ?_, hstep.main ▸ halive,
    used_goto (absurd · hstep.awake) hstep.thread fun _ ↦ ?_⟩
  · obtain ⟨owner, hmtx, hpasses⟩ := hstep.mtx
    rw [hmtx]
    cases hpasses with
    | keep => rw [update_eq_self]; exact fun _ ↦ .rfl
    | take hfree => exact held_setMtx (by simp [hfree]) (by simp)
    | drop hholds => exact held_setMtx (by simp [(h.owned w).mpr hholds]) (by simp)
  · rw [State.Alerted, hstep.signals.1, hstep.signals.2.1, hstep.signals.2.2]
    rfl

theorem frame_main (hnext : childProcess s = some s') : Frame s s' := by
  unfold childProcess at hnext
  split at hnext
  case h_1 w _ =>
    cases hnext
    exact ⟨rfl, rfl, rfl, fun _ ↦ .rfl, by cases w <;> simp,
      used_goto (by simp) rfl fun _ ↦ .rfl⟩
  case h_2 =>
    obtain ⟨rest, -, rfl⟩ := Option.map_eq_some_iff.mp hnext
    exact ⟨rfl, rfl, rfl, fun _ ↦ .rfl, by simp, fun _ hw ↦ ⟨hw, .rfl⟩⟩
  case h_3 w _ =>
    cases hnext
    refine ⟨rfl, rfl, rfl, fun _ ↦ .rfl, by cases w <;> simp, used_goto ?_ rfl fun _ ↦ .rfl⟩
    cases s.thread w <;> simp
  case h_4 w _ =>
    split_ifs at hnext
    cases hnext
    exact ⟨rfl, rfl, rfl, fun _ ↦ .rfl, by cases w <;> simp, fun _ hw ↦ ⟨hw, .rfl⟩⟩
  case h_5 | h_6 => simp at hnext

theorem Inv.frame (h : Inv s) (halive : s.main ≠ .killed)
    (hnext : Shared.childNext s move = some s') : Frame s s' := by
  cases move with
  | parent choice => simp [Shared.childNext] at hnext
  | main => exact frame_main (Option.ite_none_right_eq_some.mp hnext).2
  | thread w fails =>
    obtain ⟨point, hstep⟩ := Shared.threadStep hnext
    exact h.frame_thread halive hstep
  | sigusr1 =>
    obtain ⟨⟨husr1, -⟩, ⟨⟩⟩ := Option.ite_none_right_eq_some.mp hnext
    refine ⟨rfl, rfl, rfl, fun _ ↦ .rfl, halive, fun w hw ↦ ⟨hw, ?_⟩⟩
    exact iff_of_true (.inr (.inl (by cases w <;> simp))) (.inl husr1)
  | mainsighdl =>
    simp only [Shared.childNext, mainsighdl] at hnext
    split at hnext
    · simp at hnext
    case h_2 w rest hhandling =>
      cases hnext
      refine ⟨rfl, rfl, rfl, fun _ ↦ .rfl, halive, fun i (hi : s.thread i = .usedUp) ↦ ⟨hi, ?_⟩⟩
      by_cases heq : i = w
      · subst heq
        simp [State.Alerted, hhandling, hi]
      · by_cases hreturned : s.thread w = .returned <;>
          simp [State.Alerted, hhandling, hreturned, heq]
  | childsighdl w =>
    obtain ⟨-, ⟨⟩⟩ := Option.ite_none_right_eq_some.mp hnext
    refine ⟨rfl, rfl, rfl, fun _ ↦ .rfl, halive, fun i hi ↦ ?_⟩
    by_cases heq : i = w
    · subst heq
      cases hpoint : s.thread i <;> simp [hpoint, ThreadPoint.interrupt] at hi
    · simp only [State.goto, update_of_ne heq] at hi
      simp [State.Alerted, heq, hi]
  | spurious w =>
    obtain ⟨-, ⟨⟩⟩ := Option.ite_none_right_eq_some.mp hnext
    exact ⟨rfl, rfl, rfl, fun _ ↦ .rfl, halive, used_goto (by simp) rfl fun _ ↦ .rfl⟩

/-- What a step in the child can be for a thread: the step of another one, its own step, its
creation, the signal of the main thread, a handler that finds it used up, or a spurious wake-up. -/
inductive ThreadMove (s s' : State) (move : Move) (i : Cond) : Prop
  | stays (hpoint : s'.thread i = s.thread i)
  | runs (fails : Bool) (hmove : move = .thread i fails)
  | starts (hmain : s.main = .create i) (hpoint : s'.thread i = .start)
  | signaled (hmain : s.main = .signal i) (hpoint : s'.thread i = (s.thread i).wake .wakes)
  | wakes (hbefore : (s.thread i).inWait = true) (hpoint : s'.thread i = .woken)
    (hcause : s.thread i = .usedUp ∧ s.Alerted i ∨ move = .spurious i)

theorem threadMove (hnext : childNext s move = some s') (i : Cond) : ThreadMove s s' move i := by
  cases move with
  | parent choice => simp [childNext] at hnext
  | thread w fails =>
    by_cases heq : i = w
    · exact .runs fails (heq ▸ rfl)
    · obtain ⟨point, hstep⟩ := threadStep hnext
      exact .stays (by rw [hstep.thread, update_of_ne heq])
  | main =>
    obtain ⟨-, hnext⟩ := Option.ite_none_right_eq_some.mp hnext
    unfold childProcess at hnext
    split at hnext
    case h_1 w hmain =>
      cases hnext
      by_cases heq : i = w
      · subst heq
        exact .starts hmain (by simp)
      · exact .stays (by simp [update_of_ne heq])
    case h_2 =>
      obtain ⟨rest, -, rfl⟩ := Option.map_eq_some_iff.mp hnext
      exact .stays rfl
    case h_3 w hmain =>
      cases hnext
      by_cases heq : i = w
      · subst heq
        exact .signaled hmain (by simp)
      · exact .stays (by simp [update_of_ne heq])
    case h_4 =>
      split_ifs at hnext
      exact Option.some.inj hnext ▸ .stays rfl
    case h_5 | h_6 => simp at hnext
  | mainsighdl =>
    simp only [childNext, mainsighdl] at hnext
    split at hnext
    · simp at hnext
    · exact Option.some.inj hnext ▸ .stays rfl
  | sigusr1 =>
    obtain ⟨-, ⟨⟩⟩ := Option.ite_none_right_eq_some.mp hnext
    exact .stays rfl
  | childsighdl w =>
    obtain ⟨⟨husr2, -⟩, ⟨⟩⟩ := Option.ite_none_right_eq_some.mp hnext
    by_cases heq : i = w
    · subst heq
      by_cases hused : s.thread i = .usedUp
      · exact .wakes (by rw [hused]; rfl) (by simp [hused, ThreadPoint.interrupt])
          (.inl ⟨hused, .inr (.inr husr2)⟩)
      · refine .stays ?_
        cases hpoint : s.thread i <;> simp_all [ThreadPoint.interrupt]
    · exact .stays (by simp [update_of_ne heq])
  | spurious w =>
    obtain ⟨hsleeps, ⟨⟩⟩ := Option.ite_none_right_eq_some.mp hnext
    by_cases heq : i = w
    · subst heq
      refine .wakes ?_ (by simp) (.inr rfl)
      obtain heq | heq := hsleeps <;> rw [heq] <;> rfl
    · exact .stays (by simp [update_of_ne heq])

theorem ThreadMove.stirs {i : Cond} (h : ThreadMove s s' move i) :
    (s.thread i).Stirs (s'.thread i) ∨ (∃ fails, move = .thread i fails) ∨
      s.main = .create i ∧ s'.thread i = .start := by
  cases h with
  | stays hpoint => exact .inl (.inl hpoint)
  | runs fails hmove => exact .inr (.inl ⟨fails, hmove⟩)
  | starts hmain hpoint => exact .inr (.inr ⟨hmain, hpoint⟩)
  | signaled _ hpoint => exact .inl (hpoint ▸ (s.thread i).stirs_wake .wakes)
  | wakes hbefore hpoint => exact .inl (.inr ⟨hbefore, by rw [hpoint]; rfl⟩)

theorem main_of_childNext (hnext : childNext s move = some s') :
    s'.main = s.main ∧ s'.semB = s.semB ∨ move = .main := by
  cases move with
  | parent choice => simp [childNext] at hnext
  | main => exact .inr rfl
  | thread w fails =>
    obtain ⟨point, hstep⟩ := threadStep hnext
    exact .inl ⟨hstep.main, hstep.semB⟩
  | mainsighdl =>
    simp only [childNext, mainsighdl] at hnext
    split at hnext
    · simp at hnext
    · exact Option.some.inj hnext ▸ .inl ⟨rfl, rfl⟩
  | sigusr1 | childsighdl w | spurious w =>
    obtain ⟨-, hnext⟩ := Option.ite_none_right_eq_some.mp hnext
    exact Option.some.inj hnext ▸ .inl ⟨rfl, rfl⟩

/-- A step is one of the parent or one in a child that is not gone. -/
theorem next_cases (hnext : next s move = some s') : (∃ choice, parentProcess s choice = some s') ∨
      s.main.gone = false ∧ childNext s move = some s' := by
  cases move with
  | parent choice => exact .inl ⟨choice, hnext⟩
  | _ =>
    obtain ⟨hgone, hnext⟩ := Option.ite_none_left_eq_some.mp hnext
    exact .inr ⟨Bool.not_eq_true _ ▸ hgone, hnext⟩

theorem MainPoint.ne_killed_of_not_gone {point : MainPoint} (h : point.gone = false) :
    point ≠ .killed := by
  rintro rfl
  simp [MainPoint.gone] at h

/-! ### What the parent leaves behind -/

def ParentPoint.stops : ParentPoint → Bool
  | .stop | .unlock true _ | .post => true
  | _ => false

/-- What the point of the parent says: it holds no other mutexes, it has no result before it stops,
and a thread that it has used up gets a signal once it has sent its own. -/
structure Kept (s : State) : Prop where
  mtx : ∀ w, s.mtx w = some .parent → s.parent.holds w
  result : s.parent.stops = false → s.result = 0
  used : ∀ w, s.thread w = .usedUp → s.parent.wakes = true ∨ s.Alerted w

theorem ParentPoint.not_holds_of_inRound {point : ParentPoint} (h : point.inRound = true)
    (w : Cond) : ¬ point.holds w := by
  cases point <;> first | exact id | cases h

/-- A step of the parent that wakes nobody, where it has no wake-up to send. -/
theorem Kept.goes (h : Kept s) (hwakes : s.parent.wakes = false)
    (hmtx : ∀ w, s'.mtx w = some .parent → s'.parent.holds w)
    (hresult : s'.parent.stops = false → s'.result = s.result ∧ s.parent.stops = false)
    (hthread : s'.thread = s.thread) (halerted : ∀ w, s'.Alerted w ↔ s.Alerted w) : Kept s' := by
  refine ⟨hmtx, fun hstops ↦ ?_, fun w hw ↦ .inr ?_⟩
  · obtain ⟨hsame, hstops⟩ := hresult hstops
    exact hsame.trans (h.result hstops)
  · rw [hthread] at hw
    rw [halerted]
    exact (h.used w hw).resolve_left (by simp [hwakes])

theorem Kept.parent (h : Kept s) (hnext : parentProcess s choice = some s')
    (hactive : s'.parent.active = true) : Kept s' := by
  cases parentMove hnext with
  | urslvd =>
    unfold locUrslvd at hactive
    split at hactive <;> cases hactive
  | ready n rest hparent =>
    refine h.goes (by rw [hparent]; rfl) (fun w hw ↦ ?_) (fun _ ↦ ⟨rfl, by rw [hparent]; rfl⟩) rfl
      fun _ ↦ .rfl
    have hheld := h.mtx w hw
    simp [hparent] at hheld
  | lock again w hparent hfree =>
    refine h.goes (by rw [hparent]; rfl) (fun i hi ↦ ?_) (fun _ ↦ ⟨rfl, by rw [hparent]; rfl⟩) rfl
      fun _ ↦ .rfl
    have hbefore : i = w ∨ i.index < w.index := by
      by_cases heq : i = w
      · exact .inl heq
      · have hheld := h.mtx i (by simpa [update_of_ne heq] using hi)
        rw [hparent] at hheld
        exact .inr hheld
    revert hbefore
    cases w <;> cases i <;> cases again <;> simp
  | unlock last w hparent =>
    refine h.goes (by rw [hparent]; rfl) (fun i hi ↦ ?_) (fun hstops ↦ ⟨rfl, ?_⟩) rfl fun _ ↦ .rfl
    · have hne : i ≠ w := by
        rintro rfl
        simp at hi
      have hheld := h.mtx i (by simpa [update_of_ne hne] using hi)
      rw [hparent] at hheld
      revert hne hheld
      cases w <;> cases i <;> cases last <;> simp
    · rw [hparent]
      cases last
      · rfl
      · cases w <;> cases hstops
  | round t point semA usr1 ht hbefore hafter hsignal =>
    have hmtx : t.mtx = s.mtx ∧ t.result = s.result := by
      obtain rfl | ⟨w, reach, rfl⟩ := ht <;> exact ⟨rfl, rfl⟩
    refine ⟨fun w hw ↦ ?_, fun _ ↦ hmtx.2.trans (h.result ?_), fun w hw ↦ ?_⟩
    · rw [hmtx.1] at hw
      exact absurd (h.mtx w hw) (ParentPoint.not_holds_of_inRound hbefore w)
    · cases hpoint : s.parent <;> simp [hpoint, ParentPoint.inRound] at hbefore <;> rfl
    · obtain hwakes | rfl | ⟨hwakes, rfl, rfl⟩ := hsignal
      · exact .inl hwakes
      · exact .inr (.inl rfl)
      · exact .inr ((h.used w hw).resolve_left (by simp [hwakes]))
  | result _ hparent =>
    have hbefore : s.parent.wakes = false := by
      obtain hparent | hparent := hparent <;> rw [hparent] <;> rfl
    exact h.goes hbefore (fun _ _ ↦ trivial) (fun hstops ↦ by cases hstops) rfl fun _ ↦ .rfl
  | passes hparent =>
    exact h.goes (by rw [hparent]; rfl) (fun w _ ↦ Nat.zero_le w.index)
      (fun _ ↦ ⟨rfl, by rw [hparent]; rfl⟩) rfl fun _ ↦ .rfl
  | stop hparent =>
    exact h.goes (by rw [hparent]; rfl) (fun w _ ↦ Nat.zero_le w.index)
      (fun hstops ↦ by cases hstops) rfl fun _ ↦ .rfl
  | post | ended => cases hactive

theorem active_of_parentProcess (hnext : parentProcess s choice = some s')
    (hactive : s'.parent.active = true) : s.parent.active = true := by
  cases hparent : s.parent with
  | waitpid urslvd rc2 =>
    simp only [parentProcess, hparent] at hnext
    obtain ⟨v, -, rfl⟩ := Option.map_eq_some_iff.mp hnext
    cases hactive
  | ended v => simp [parentProcess, hparent] at hnext
  | _ => rfl

theorem kept_of_reachable (h : program.Reachable s) : s.parent.active = true → Kept s := by
  obtain ⟨trace, hrun⟩ := h
  induction hrun with
  | start hinitial =>
    obtain rfl := hinitial
    exact fun _ ↦ ⟨by simp [start], fun _ ↦ rfl, by simp [start]⟩
  | step hbefore hnext ih =>
    intro hactive
    obtain ⟨choice, hnext⟩ | ⟨hgone, hnext⟩ := next_cases hnext
    · exact (ih (active_of_parentProcess hnext hactive)).parent hnext hactive
    have hframe :=
      (inv_of_reachable ⟨_, hbefore⟩).frame (MainPoint.ne_killed_of_not_gone hgone) hnext
    rw [hframe.parent] at hactive
    obtain ⟨hmtx, hresult, hused⟩ := ih hactive
    refine ⟨fun w hw ↦ ?_, ?_, fun w hw ↦ ?_⟩
    · rw [hframe.parent]
      exact hmtx w ((hframe.held w).mp hw)
    · rwa [hframe.parent, hframe.result]
    · obtain ⟨hw, halerted⟩ := hframe.used w hw
      rw [hframe.parent, halerted]
      exact hused w hw

/-! ### A child that is served -/

/-- The parent has left, and has not killed the child. -/
structure Apart (s : State) : Prop where
  inv : Inv s
  left : s.parent.active = false
  alive : s.main ≠ .killed

theorem Apart.frame (h : Apart s) (hnext : childNext s move = some s') : Frame s s' :=
  h.inv.frame h.alive hnext

theorem Apart.childNext (h : Apart s) (hnext : childNext s move = some s') : Apart s' :=
  ⟨h.inv.childNext hnext, (congrArg ParentPoint.active (h.frame hnext).parent).trans h.left,
    (h.frame hnext).alive⟩

@[simp] def ThreadPoint.pastWait : ThreadPoint → Bool
  | .blocked | .usedUp | .woken | .incr _ | .test _ | .zero | .unlock => true
  | _ => false

/-- The thread has returned; or it is past its call of `pthread_cond_wait`, can get its mutex, and
gets a signal if it is used up. -/
def State.Served (s : State) (w : Cond) : Prop :=
  s.thread w = .returned ∨ s.mtx w ≠ some .parent ∧ (s.thread w).pastWait = true ∧
    (s.thread w = .usedUp → s.Alerted w)

/-- The main thread of the child has signaled the condition. -/
@[simp] def MainPoint.signaled : MainPoint → Cond → Prop
  | .signal w', w => w.index < w'.index
  | .join _, _ | .exited, _ => True
  | _, _ => False

/-- The child after the exit of the parent, when all its threads are served. -/
structure Leaving (s : State) : Prop extends Apart s where
  bool : s.bool = true
  semB : s.main.early = true → 0 < s.semB
  served : ∀ w, s.Served w
  blocked : ∀ w, s.thread w = .blocked → ¬ s.main.signaled w

@[simp] def ThreadPoint.weight : ThreadPoint → ℕ
  | .unborn => 12
  | .start => 11
  | .lock => 10
  | .post => 9
  | .count => 8
  | .wait => 7
  | .blocked | .usedUp => 6
  | .woken => 5
  | .incr _ => 4
  | .test _ => 3
  | .zero => 2
  | .unlock => 1
  | .returned => 0

def MainPoint.weight : MainPoint → ℕ
  | .create w => 10 - w.index
  | .waitB => 7
  | .signal w => 6 - w.index
  | .join w => 3 - w.index
  | .exited | .killed => 0

/-- What is left to do with the signals: each `SIGUSR1` makes three `SIGUSR2`. -/
def State.signals (s : State) : ℕ :=
  (if s.usr1 then 7 else 0) + 2 * s.handling.length + total Bool.toNat s.usr2

def State.weight (s : State) : ℕ := s.main.weight + total ThreadPoint.weight s.thread + s.signals

/-- A thread that is past its wait finds `bool` set. -/
theorem childProcessTh_settles {fails : Bool} (hbool : s.bool = true)
    (hpast : (s.thread w).pastWait = true) (hnext : childProcessTh s w fails = some s') :
    ∃ point : ThreadPoint, s'.thread = update s.thread w point ∧
      (point = .returned ∨ point.pastWait = true) ∧ point ≠ .blocked ∧ s'.main = s.main ∧
      s'.signals = s.signals ∧ point.weight < (s.thread w).weight := by
  unfold childProcessTh at hnext
  split at hnext
  case h_1 | h_7 | h_13 | h_14 => simp at hnext
  case h_2 | h_3 | h_4 | h_5 | h_6 =>
    rename_i hpoint
    simp [hpoint] at hpast
  case h_8 hpoint =>
    split_ifs at hnext
    cases hnext
    exact ⟨_, rfl, by simp, by simp, rfl, rfl, by simp [hpoint]⟩
  case h_10 ok hpoint =>
    cases hnext
    refine ⟨_, rfl, ?_, ?_, rfl, rfl, ?_⟩
    all_goals cases ok <;> simp [hbool, hpoint]
  all_goals
    rename_i hpoint
    cases hnext
    exact ⟨_, rfl, by simp, by simp, rfl, rfl, by simp [hpoint]⟩

/-- A thread that is created has not come to its wait. -/
theorem Inv.not_pastWait (h : Inv s) (hmain : s.main = .create w) :
    ¬ (s.thread w = .returned ∨ (s.thread w).pastWait = true) := by
  rw [(h.unborn (by simp [hmain]) w).mpr (by rw [hmain]; exact le_rfl)]
  simp

/-- A thread that is past its wait stays so when `bool` is set, and does not wait again. -/
theorem Inv.pastWait_childNext (h : Inv s) (hbool : s.bool = true)
    (hpast : s.thread w = .returned ∨ (s.thread w).pastWait = true)
    (hnext : Shared.childNext s move = some s') :
    (s'.thread w = .returned ∨ (s'.thread w).pastWait = true) ∧
      (s.thread w = .returned → s'.thread w = .returned) := by
  obtain hstirs | ⟨fails, rfl⟩ | ⟨hmain, -⟩ := (threadMove hnext w).stirs
  · have hreturned := (hstirs.eq (· = ThreadPoint.returned) (by simp) (by simp)).to_iff
    rw [hreturned, hstirs.eq ThreadPoint.pastWait rfl rfl]
    exact ⟨hpast, id⟩
  · obtain hreturned | hpast := hpast
    · simp [Shared.childNext, Shared.childProcessTh, hreturned] at hnext
    · obtain ⟨point, hthread, hpoint, -⟩ := childProcessTh_settles hbool hpast hnext
      rw [hthread, update_self]
      exact ⟨hpoint, fun hreturned ↦ by simp [hreturned] at hpast⟩
  · exact absurd hpast (h.not_pastWait hmain)

theorem State.Served.pastWait (h : s.Served w) :
    s.thread w = .returned ∨ (s.thread w).pastWait = true :=
  h.imp_right fun hserved ↦ hserved.2.1

theorem Leaving.served_childNext (h : Leaving s) (hnext : childNext s move = some s') (w : Cond) :
    s'.Served w := by
  obtain ⟨hpast, hreturned⟩ := h.inv.pastWait_childNext h.bool (h.served w).pastWait hnext
  obtain hbefore | ⟨hmtx, -, hused⟩ := h.served w
  · exact .inl (hreturned hbefore)
  · refine hpast.imp_right fun hpast ↦
      ⟨by rwa [ne_eq, (h.frame hnext).held w], hpast, fun hw ↦ ?_⟩
    obtain ⟨hw, halerted⟩ := (h.frame hnext).used w hw
    exact halerted.mpr (hused hw)

theorem ThreadPoint.wake_ne_blocked (point : ThreadPoint) : point.wake .wakes ≠ .blocked := by
  cases point <;> simp

/-- No thread comes to its wait. -/
theorem Leaving.blocked_of_childNext (h : Leaving s) (hnext : childNext s move = some s')
    (hblocked : s'.thread w = .blocked) : s.thread w = .blocked := by
  cases threadMove hnext w with
  | stays hpoint => rwa [← hpoint]
  | runs fails hmove =>
    subst hmove
    obtain hreturned | hpast := (h.served w).pastWait
    · simp [childNext, childProcessTh, hreturned] at hnext
    · obtain ⟨point, hthread, -, hpoint, -⟩ := childProcessTh_settles h.bool hpast hnext
      rw [hthread, update_self] at hblocked
      exact absurd hblocked hpoint
  | starts hmain => exact absurd (h.served w).pastWait (h.inv.not_pastWait hmain)
  | signaled _ hpoint => exact absurd (hpoint ▸ hblocked) (s.thread w).wake_ne_blocked
  | wakes _ hpoint => simp [hpoint] at hblocked

theorem Leaving.main (h : Leaving s) (hnext : childNext s .main = some s') :
    (s'.main.early = true → 0 < s'.semB) ∧
      ∀ w, s'.thread w = .blocked → ¬ s'.main.signaled w := by
  have hbefore {w : Cond} (hw : s'.thread w = .blocked) : ¬ s.main.signaled w :=
    h.blocked w (h.blocked_of_childNext hnext hw)
  obtain ⟨-, hnext⟩ := Option.ite_none_right_eq_some.mp hnext
  unfold childProcess at hnext
  split at hnext
  case h_1 w hmain => exact absurd (h.served w).pastWait (h.inv.not_pastWait hmain)
  case h_2 hmain =>
    obtain ⟨rest, -, rfl⟩ := Option.map_eq_some_iff.mp hnext
    exact ⟨by simp [MainPoint.early], by simp⟩
  case h_3 w hmain =>
    cases hnext
    refine ⟨by cases w <;> simp [MainPoint.early], fun i hi hsignaled ↦ ?_⟩
    have hne : i ≠ w := by
      rintro rfl
      exact (s.thread i).wake_ne_blocked ((update_self i _ s.thread).symm.trans hi)
    refine hbefore hi ?_
    rw [hmain]
    cases w <;> cases i <;> simp at hne hsignaled ⊢
  case h_4 w hmain =>
    split_ifs at hnext
    cases hnext
    refine ⟨by cases w <;> simp [MainPoint.early], fun i hi ↦ ?_⟩
    exact absurd (show s.main.signaled i by rw [hmain]; trivial) (hbefore hi)
  case h_5 | h_6 => simp at hnext

theorem Leaving.childNext (h : Leaving s) (hnext : childNext s move = some s') : Leaving s' := by
  obtain ⟨hsemB, hblocked⟩ : (s'.main.early = true → 0 < s'.semB) ∧
      ∀ w, s'.thread w = .blocked → ¬ s'.main.signaled w := by
    obtain ⟨hmain, hsemB⟩ | rfl := main_of_childNext hnext
    · rw [hmain, hsemB]
      exact ⟨h.semB, fun w hw ↦ h.blocked w (h.blocked_of_childNext hnext hw)⟩
    · exact h.main hnext
  exact ⟨h.toApart.childNext hnext, (h.frame hnext).bool.trans h.bool, hsemB,
    h.served_childNext hnext, hblocked⟩

/-- Without spurious wake-ups and failing waits. -/
abbrev calm : System State Move := program.restrict Move.ordinary

/-- Some step in the child leaves less to do. -/
def State.Advances (s : State) : Prop :=
  ∃ move s', childNext s move = some s' ∧ move.ordinary = true ∧ s'.weight < s.weight

/-- The mutex of a thread that does not hold it is free if the parent does not have it. -/
theorem Inv.mtx_eq_none (h : Inv s) (hparent : s.mtx w ≠ some .parent)
    (hholds : (s.thread w).holds = false) : s.mtx w = none := by
  cases hmtx : s.mtx w with
  | none => rfl
  | some owner =>
    cases owner with
    | parent => exact absurd hmtx hparent
    | child =>
      rw [(h.owned w).mp hmtx] at hholds
      simp at hholds

theorem Leaving.advances_thread (h : Leaving s) (hreturned : s.thread w ≠ .returned)
    (hblocked : s.thread w ≠ .blocked) (hused : s.thread w ≠ .usedUp) : s.Advances := by
  obtain ⟨hparent, hpast, -⟩ := (h.served w).resolve_left hreturned
  obtain ⟨s', hnext⟩ : ∃ s', childProcessTh s w false = some s' := by
    cases hpoint : s.thread w with
    | woken =>
      have hfree := h.inv.mtx_eq_none hparent (by rw [hpoint]; rfl)
      exact ⟨_, by simp only [childProcessTh, hpoint, if_pos hfree]; rfl⟩
    | incr ok | test ok | zero | unlock => exact ⟨_, by simp only [childProcessTh, hpoint]; rfl⟩
    | _ => simp_all
  obtain ⟨point, hthread, -, -, hmain, hsignals, hlt⟩ := childProcessTh_settles h.bool hpast hnext
  refine ⟨.thread w false, s', hnext, rfl, ?_⟩
  have htotal := total_update ThreadPoint.weight s.thread w point
  unfold State.weight
  rw [hthread, hmain, hsignals]
  omega

/-- The handler of the main thread can end. -/
theorem exists_mainsighdl (hhandling : s.handling ≠ []) :
    ∃ s', childNext s .mainsighdl = some s' ∧ s'.main = s.main ∧ s'.semB = s.semB ∧
      s'.weight < s.weight := by
  obtain ⟨w, rest, hcons⟩ := List.exists_cons_of_ne_nil hhandling
  refine ⟨_, by simp only [childNext, mainsighdl, hcons]; rfl, ?_, ?_, ?_⟩
  · rfl
  · rfl
  have htotal := total_update Bool.toNat s.usr2 w true
  simp only [State.weight, State.signals, hcons, List.length_cons]
  split_ifs <;> simp only [Bool.toNat_true] at htotal <;> omega

/-- A signal that is on its way to a thread that is used up can make it look again. -/
theorem exists_alerted (hhandling : s.handling = []) (hused : s.thread w = .usedUp)
    (halerted : s.Alerted w) : s.Advances := by
  by_cases husr1 : s.usr1 = true
  · refine ⟨.sigusr1, _, by simp only [childNext, husr1, hhandling, true_and, if_true]; rfl, rfl,
      ?_⟩
    simp [State.weight, State.signals, husr1, hhandling]
  have husr2 : s.usr2 w = true := by simpa [State.Alerted, husr1, hhandling] using halerted
  have hthread := total_update ThreadPoint.weight s.thread w .woken
  have hsignals := total_update Bool.toNat s.usr2 w false
  refine ⟨.childsighdl w, _, by simp only [childNext, husr2, hused]; rfl, rfl, ?_⟩
  rw [hused] at hthread
  rw [husr2] at hsignals
  simp only [State.weight, State.signals, State.goto, ThreadPoint.interrupt, ThreadPoint.weight,
    Bool.toNat_true, Bool.toNat_false, husr1] at hthread hsignals ⊢
  omega

theorem ThreadPoint.weight_wake_le (point : ThreadPoint) :
    (point.wake .wakes).weight ≤ point.weight := by
  cases point <;> simp

theorem exists_waitB (hmain : s.main = .waitB) (hsemB : 0 < s.semB) :
    ∃ s', childProcess s = some s' ∧ s'.main = .signal .null ∧ s'.weight < s.weight := by
  obtain ⟨rest, hrest⟩ : ∃ rest, semWait s.semB = some rest :=
    Option.isSome_iff_exists.mp (isSome_semWait_iff.mpr hsemB)
  refine ⟨_, by simp only [childProcess, hmain, hrest, Option.map_some]; rfl, rfl, ?_⟩
  simp [State.weight, State.signals, hmain, MainPoint.weight]

theorem exists_signal (hmain : s.main = .signal w) :
    ∃ s', childProcess s = some s' ∧ ((∃ i, s'.main = .signal i) ∨ s'.main = .join .null) ∧
      s'.weight < s.weight := by
  refine ⟨_, by simp only [childProcess, hmain]; rfl, ?_, ?_⟩
  · cases w <;> simp
  · have htotal := total_update ThreadPoint.weight s.thread w ((s.thread w).wake .wakes)
    have hle := (s.thread w).weight_wake_le
    simp only [State.weight, State.signals, State.wake, State.goto, hmain]
    cases w <;> simp only [Cond.next, MainPoint.weight, Cond.index] <;> omega

theorem childNext_main (hhandling : s.handling = []) (hnext : childProcess s = some s') :
    childNext s .main = some s' := by
  simp only [childNext, if_pos hhandling, hnext]

theorem Leaving.advances (h : Leaving s) (hgone : s.main.gone = false) : s.Advances := by
  by_cases hhandling : s.handling = []
  swap
  · obtain ⟨s', hnext, -, -, hlt⟩ := exists_mainsighdl hhandling
    exact ⟨.mainsighdl, s', hnext, rfl, hlt⟩
  cases hmain : s.main with
  | create w => exact absurd (h.served w).pastWait (h.inv.not_pastWait hmain)
  | waitB =>
    obtain ⟨s', hnext, -, hlt⟩ := exists_waitB hmain (h.semB (by rw [hmain]; rfl))
    exact ⟨.main, s', childNext_main hhandling hnext, rfl, hlt⟩
  | signal w =>
    obtain ⟨s', hnext, -, hlt⟩ := exists_signal hmain
    exact ⟨.main, s', childNext_main hhandling hnext, rfl, hlt⟩
  | join w =>
    have hblocked : s.thread w ≠ .blocked := fun hw ↦ h.blocked w hw (by rw [hmain]; trivial)
    by_cases hused : s.thread w = .usedUp
    · exact exists_alerted hhandling hused (((h.served w).resolve_left (by simp [hused])).2.2 hused)
    by_cases hreturned : s.thread w = .returned
    swap
    · exact h.advances_thread hreturned hblocked hused
    refine ⟨.main, _, childNext_main hhandling
      (by simp only [childProcess, hmain, if_pos hreturned]; rfl), rfl, ?_⟩
    simp only [State.weight, State.signals, hmain]
    cases w <;> simp [MainPoint.weight]
  | exited | killed => simp [hmain, MainPoint.gone] at hgone

theorem next_of_childNext (hgone : s.main.gone = false) (hnext : childNext s move = some s') :
    next s move = some s' := by
  cases move with
  | parent choice => simp [childNext] at hnext
  | _ => exact (if_neg (by simp [hgone])).trans hnext

/-- The child can end when all its threads are served. -/
theorem Leaving.exists_gone (h : Leaving s) :
    ∃ s', calm.Leads s s' ∧ (Leaving s' ∧ Frame s s') ∧ s'.main.gone = true := by
  refine System.exists_leads_of_measure State.weight ?_ ⟨h, Frame.refl h.alive⟩
  rintro state ⟨hleaving, hframe⟩ hgone
  rw [Bool.not_eq_true] at hgone
  obtain ⟨move, state', hnext, hmove, hlt⟩ := hleaving.advances hgone
  exact ⟨move, state', System.restrict_next_eq_some_iff.mpr ⟨hmove, next_of_childNext hgone hnext⟩,
    ⟨hleaving.childNext hnext, hframe.trans (hleaving.frame hnext)⟩, hlt⟩

/-! ### The rest of `do_tps_test` -/

def CanEnd (s : State) : Prop := ∃ s', calm.Leads s s' ∧ s'.main.gone = true

/-- After the exit the child can always come to its end, and the test is not reported as passed. -/
def SafeExit (s : State) : Prop :=
  ∀ s', program.Leads s s' → CanEnd s' ∧ s'.parent ≠ .ended .passed

/-- The parent is behind `parent_process`: it waits for the child, and then has its verdict. -/
theorem parent_of_left (hleft : s.parent.active = false)
    (hnext : parentProcess s choice = some s') :
    ∃ urslvd rc2 v, s.parent = .waitpid urslvd rc2 ∧ verdict s rc2 = some v ∧
      s' = { s with parent := .ended v } := by
  cases hparent : s.parent with
  | waitpid urslvd rc2 =>
    simp only [parentProcess, hparent] at hnext
    obtain ⟨v, hv, rfl⟩ := Option.map_eq_some_iff.mp hnext
    exact ⟨urslvd, rc2, v, rfl, hv, rfl⟩
  | ended v => simp [parentProcess, hparent] at hnext
  | _ => simp [hparent] at hleft

theorem Leaving.next (h : Leaving s) (hnext : next s move = some s') : Leaving s' := by
  obtain ⟨choice, hnext⟩ | ⟨-, hnext⟩ := next_cases hnext
  · have hinv := h.inv.parentProcess hnext
    obtain ⟨urslvd, rc2, v, -, -, rfl⟩ := parent_of_left h.left hnext
    exact ⟨⟨hinv, rfl, h.alive⟩, h.bool, h.semB, h.served, h.blocked⟩
  · exact h.childNext hnext

/-- A child that has been killed makes the test unresolved. -/
theorem safeExit_of_killed (hkilled : s.main = .killed) (hparent : s.parent = .waitpid true rc2) :
    SafeExit s := by
  have hstep : ∀ state move state', (state.main = .killed ∧
      (state.parent = .waitpid true rc2 ∨ state.parent = .ended .unresolved)) →
      program.next state move = some state' → state'.main = .killed ∧
        (state'.parent = .waitpid true rc2 ∨ state'.parent = .ended .unresolved) := by
    rintro state move state' ⟨hkilled, hparent⟩ hnext
    obtain ⟨choice, hnext⟩ | ⟨hgone, -⟩ := next_cases hnext
    · have hleft : state.parent.active = false := by
        obtain hparent | hparent := hparent <;> rw [hparent] <;> rfl
      obtain ⟨urslvd, rc2, v, -, hv, rfl⟩ := parent_of_left hleft hnext
      obtain rfl : Verdict.unresolved = v := by simpa [verdict, hkilled] using hv
      exact ⟨hkilled, .inr rfl⟩
    · exact absurd hkilled (MainPoint.ne_killed_of_not_gone hgone)
  intro s' hleads
  obtain ⟨hkilled, hparent⟩ := hleads.keeps hstep ⟨hkilled, .inl hparent⟩
  refine ⟨⟨s', .refl s', by rw [hkilled]; rfl⟩, ?_⟩
  obtain hparent | hparent := hparent <;> simp [hparent]

/-- What keeps the test from being reported as passed: the value that `parent_process` returned, a
mutex that cannot be destroyed, or the result. -/
def State.NotPassed (s : State) (rc2 : ℤ) : Prop :=
  rc2 ≠ 0 ∨ (∃ w, s.mtx w = some .parent) ∨ s.result ≠ 0

theorem verdict_ne_passed (h : s.NotPassed rc2) {v : Verdict} (hv : verdict s rc2 = some v) :
    v ≠ .passed := by
  rintro rfl
  unfold verdict at hv
  split at hv
  · simp at hv
  · split_ifs at hv with hrc2 hmtx hresult
    · simp at hv
    · simp at hv
    · obtain hne | ⟨w, hw⟩ | hne := h
      · exact hrc2 hne
      · exact hmtx ⟨w, by simp [hw]⟩
      · exact hne hresult
    · simp at hv
  · simp at hv

/-- The child can come to its end, and the test is not reported as passed. -/
structure Safe (s : State) : Prop extends Leaving s where
  passed : s.parent ≠ .ended .passed
  waits : ∀ urslvd rc2, s.parent = .waitpid urslvd rc2 → s.NotPassed rc2

theorem Safe.next (h : Safe s) (hnext : next s move = some s') : Safe s' := by
  have hleaving := h.toLeaving.next hnext
  obtain ⟨choice, hnext⟩ | ⟨-, hnext⟩ := next_cases hnext
  · obtain ⟨urslvd, rc2, v, hparent, hv, rfl⟩ := parent_of_left h.left hnext
    refine ⟨hleaving, ?_, by simp⟩
    simpa using verdict_ne_passed (h.waits urslvd rc2 hparent) hv
  · have hframe := h.frame hnext
    refine ⟨hleaving, hframe.parent ▸ h.passed, ?_⟩
    intro urslvd rc2 hparent
    have hbefore := h.waits urslvd rc2 (hframe.parent ▸ hparent)
    unfold State.NotPassed at hbefore ⊢
    simpa only [hframe.held, hframe.result] using hbefore

theorem safeExit_of_served (h : Leaving s) (hparent : s.parent = .waitpid true rc2)
    (hnot : s.NotPassed rc2) : SafeExit s := by
  intro s' hleads
  have hsafe : Safe s := by
    refine ⟨h, by simp [hparent], fun urslvd rc2' heq ↦ ?_⟩
    rw [hparent] at heq
    obtain ⟨-, rfl⟩ : true = urslvd ∧ rc2 = rc2' := by simpa using heq
    exact hnot
  obtain ⟨hleaving, hpassed, -⟩ := hleads.keeps (fun _ _ _ ↦ Safe.next) hsafe
  obtain ⟨last, hlast, -, hgone⟩ := hleaving.exists_gone
  exact ⟨⟨last, hlast, hgone⟩, hpassed⟩

/-- If nothing speaks against it, the test is reported as passed. -/
theorem Leaving.exists_passed (h : Leaving s) (hparent : s.parent = .waitpid true rc2)
    (hpasses : ¬ s.NotPassed rc2) :
    ∃ s', program.Leads s s' ∧ s'.parent = .ended .passed := by
  obtain ⟨last, hleads, ⟨hleaving, hframe⟩, hgone⟩ := h.exists_gone
  simp only [State.NotPassed, not_or, not_not, not_exists] at hpasses
  obtain ⟨rfl, hheld, hresult⟩ := hpasses
  have hmain : last.main = .exited := by
    have halive' := hframe.alive
    cases hmain : last.main <;> simp_all [MainPoint.gone]
  have hfree : ∀ w, last.mtx w = none := by
    intro w
    have hreturned : last.thread w = .returned := hleaving.inv.joined w (by rw [hmain]; trivial)
    refine hleaving.inv.mtx_eq_none ?_ (by rw [hreturned]; rfl)
    rw [ne_eq, hframe.held w]
    exact hheld w
  have hv : verdict last 0 = some .passed := by
    simp [verdict, hmain, hfree, hframe.result, hresult]
  have hnext : program.next last (.parent ⟨0, true, .nothing⟩) =
      some { last with parent := .ended .passed } := by
    change parentProcess last _ = _
    simp only [parentProcess, hframe.parent, hparent, hv, Option.map_some]
  exact ⟨_, (System.leads_of_restrict hleads).trans (System.leads_of_next hnext), rfl⟩

/-! ### A thread that is left behind -/

/-- What keeps a thread from returning is there for ever: the child does not end. -/
theorem Apart.not_canEnd {Q : State → Prop} (h : Apart s) (hkeeps : Q s)
    (hreturned : ∀ s, Q s → s.thread w ≠ .returned)
    (hstep : ∀ s move s', Apart s → Q s → move.ordinary = true →
      Shared.childNext s move = some s' → Q s') : ¬ CanEnd s := by
  have hstays {s : State} (h : Apart s) (hkeeps : Q s) : s.main.gone = false := by
    cases hmain : s.main with
    | exited => exact absurd (h.inv.joined w (by rw [hmain]; trivial)) (hreturned s hkeeps)
    | killed => exact absurd hmain h.alive
    | _ => rfl
  have hkept : ∀ state move state', (Apart state ∧ Q state) → calm.next state move = some state' →
      Apart state' ∧ Q state' := by
    rintro state move state' ⟨h, hkeeps⟩ hnext
    obtain ⟨hmove, hnext⟩ := System.restrict_next_eq_some_iff.mp hnext
    obtain ⟨choice, hnext⟩ | ⟨-, hnext⟩ := next_cases hnext
    · obtain ⟨urslvd, rc2, v, -, hv, -⟩ := parent_of_left h.left hnext
      have hgone := hstays h hkeeps
      cases hmain : state.main <;> simp_all [verdict, MainPoint.gone]
    · exact ⟨h.childNext hnext, hstep state move state' h hkeeps hmove hnext⟩
  rintro ⟨last, hleads, hgone⟩
  obtain ⟨hlast, hkeeps⟩ := hleads.keeps hkept ⟨h, hkeeps⟩
  rw [hstays hlast hkeeps] at hgone
  simp at hgone

/-- The thread needs a mutex that the parent keeps. -/
theorem Apart.not_canEnd_of_held (h : Apart s) (hmtx : s.mtx w = some .parent)
    (hreturned : s.thread w ≠ .returned) : ¬ CanEnd s := by
  refine h.not_canEnd (Q := fun s ↦ s.mtx w = some .parent ∧ s.thread w ≠ .returned)
    ⟨hmtx, hreturned⟩ (fun _ h ↦ h.2) ?_
  rintro s move s' h ⟨hmtx, hreturned⟩ - hnext
  refine ⟨((h.frame hnext).held w).mpr hmtx, ?_⟩
  obtain hstirs | ⟨fails, rfl⟩ | ⟨-, hstart⟩ := (threadMove hnext w).stirs
  · exact (hstirs.eq (· ≠ ThreadPoint.returned) (by simp) (by simp)).mpr hreturned
  · obtain ⟨point, hstep⟩ := threadStep hnext
    rw [hstep.thread, update_self]
    intro hpoint
    have hchild := (h.inv.owned w).mpr (hstep.returns hpoint)
    simp [hmtx] at hchild
  · simp [hstart]

/-- The thread is used up, and no signal is on its way to it. -/
theorem Apart.not_canEnd_of_used (h : Apart s) (hused : s.thread w = .usedUp)
    (hquiet : ¬ s.Alerted w) : ¬ CanEnd s := by
  refine h.not_canEnd (Q := fun s ↦ s.thread w = .usedUp ∧ ¬ s.Alerted w) (w := w)
    ⟨hused, hquiet⟩ (fun s h ↦ by simp [h.1]) ?_
  rintro s move s' h ⟨hused, hquiet⟩ hmove hnext
  have hafter : s'.thread w = .usedUp := by
    cases threadMove hnext w with
    | stays hpoint => rw [hpoint, hused]
    | runs fails hmove =>
      subst hmove
      simp [Shared.childNext, childProcessTh, hused] at hnext
    | starts hmain => exact absurd (.inr (by rw [hused]; rfl)) (h.inv.not_pastWait hmain)
    | signaled _ hpoint => rw [hpoint, hused]; rfl
    | wakes _ _ hcause =>
      obtain ⟨-, halerted⟩ | rfl := hcause
      · exact absurd halerted hquiet
      · simp [Move.ordinary] at hmove
  exact ⟨hafter, mt ((h.frame hnext).used w hafter).2.mp hquiet⟩

/-- The thread waits, and nobody will signal its condition. -/
structure Lost (w : Cond) (s : State) : Prop extends Apart s where
  main : ∃ i, s.main = .join i
  blocked : s.thread w = .blocked

theorem Lost.not_canEnd (h : Lost w s) : ¬ CanEnd s := by
  refine h.toApart.not_canEnd (Q := fun s ↦ (∃ i, s.main = .join i) ∧ s.thread w = .blocked)
    (w := w) ⟨h.main, h.blocked⟩ (fun s h ↦ by simp [h.2]) ?_
  rintro s move s' h ⟨⟨i, hmain⟩, hblocked⟩ hmove hnext
  have hafter : s'.thread w = .blocked := by
    cases threadMove hnext w with
    | stays hpoint => rw [hpoint, hblocked]
    | runs fails hmove =>
      subst hmove
      simp [childNext, childProcessTh, hblocked] at hnext
    | starts hcreate => simp [hmain] at hcreate
    | signaled hsignal => simp [hmain] at hsignal
    | wakes _ _ hcause =>
      obtain ⟨hused, -⟩ | rfl := hcause
      · simp [hblocked] at hused
      · simp [Move.ordinary] at hmove
  refine ⟨?_, hafter⟩
  obtain ⟨hsame, -⟩ | rfl := main_of_childNext hnext
  · exact ⟨i, hsame.trans hmain⟩
  have hafter' := h.inv.childNext hnext
  obtain ⟨-, hnext⟩ := Option.ite_none_right_eq_some.mp hnext
  simp only [childProcess, hmain] at hnext
  split_ifs at hnext
  cases hnext
  cases i with
  | null => exact ⟨.dflt, rfl⟩
  | dflt => exact ⟨.pshared, rfl⟩
  | pshared =>
    have hreturned := hafter'.joined w trivial
    rw [hafter] at hreturned
    simp at hreturned

structure Behind (w : Cond) (s : State) : Prop extends Apart s where
  mtx : s.mtx w ≠ some .parent
  before : (s.thread w).pastWait = false ∧ s.thread w ≠ .returned
  main : s.main.early = true ∧ 0 < s.semB ∨ (∃ i, s.main = .signal i) ∨ s.main = .join .null

/-- The main thread of the child goes on without the thread. -/
theorem Behind.next (h : Behind w s) (hmove : ∀ fails, move ≠ .thread w fails)
    (hnext : childNext s move = some s')
    (hmain : s'.main.early = true ∧ 0 < s'.semB ∨ (∃ i, s'.main = .signal i) ∨
      s'.main = .join .null) : Behind w s' := by
  refine ⟨h.toApart.childNext hnext, by rw [ne_eq, (h.frame hnext).held w]; exact h.mtx, ?_, hmain⟩
  obtain hstirs | ⟨fails, hmove'⟩ | ⟨-, hstart⟩ := (threadMove hnext w).stirs
  · exact (hstirs.eq (fun point ↦ point.pastWait = false ∧ point ≠ .returned) (by simp)
      (by simp)).mpr h.before
  · exact absurd hmove' (hmove fails)
  · simp [hstart]

theorem exists_create (h : Inv s) (hmain : s.main = .create w) :
    ∃ s', childProcess s = some s' ∧ s'.main.early = true ∧ s'.semB = s.semB ∧
      s'.weight < s.weight := by
  have hunborn : s.thread w = .unborn :=
    (h.unborn (by simp [hmain]) w).mpr (by rw [hmain]; exact le_rfl)
  refine ⟨_, by simp only [childProcess, hmain]; rfl, ?_, ?_, ?_⟩
  · cases w <;> rfl
  · rfl
  · have htotal := total_update ThreadPoint.weight s.thread w .start
    rw [hunborn] at htotal
    simp only [State.weight, State.signals, State.goto, hmain]
    simp only [ThreadPoint.weight] at htotal
    cases w <;> simp only [Cond.next, MainPoint.weight, Cond.index] <;> omega

/-- The main thread can signal all conditions before the thread comes to its wait. -/
theorem Behind.exists_signaled (h : Behind w s) :
    ∃ s', program.Leads s s' ∧ Behind w s' ∧ s'.main = .join .null := by
  refine System.exists_leads_of_measure State.weight (fun state hbehind hjoin ↦ ?_) h
  have hgone : state.main.gone = false := by
    obtain ⟨hearly, -⟩ | ⟨i, hmain⟩ | hmain := hbehind.main
    · cases hmain : state.main <;> simp_all [MainPoint.early, MainPoint.gone]
    · rw [hmain]
      rfl
    · exact absurd hmain hjoin
  by_cases hhandling : state.handling = []
  swap
  · obtain ⟨state', hnext, hmain, hsemB, hlt⟩ := exists_mainsighdl hhandling
    exact ⟨.mainsighdl, state', next_of_childNext hgone hnext,
      hbehind.next (by simp) hnext (by rw [hmain, hsemB]; exact hbehind.main), hlt⟩
  obtain ⟨state', hnext, hmain, hlt⟩ : ∃ state', childProcess state = some state' ∧
      (state'.main.early = true ∧ 0 < state'.semB ∨ (∃ i, state'.main = .signal i) ∨
        state'.main = .join .null) ∧ state'.weight < state.weight := by
    cases hmain : state.main with
    | create i =>
      obtain ⟨state', hnext, hearly, hsemB, hlt⟩ := exists_create hbehind.inv hmain
      have hpos : 0 < state.semB := by simpa [hmain, MainPoint.early] using hbehind.main
      exact ⟨state', hnext, .inl ⟨hearly, hsemB ▸ hpos⟩, hlt⟩
    | waitB =>
      have hpos : 0 < state.semB := by simpa [hmain, MainPoint.early] using hbehind.main
      obtain ⟨state', hnext, hsignal, hlt⟩ := exists_waitB hmain hpos
      exact ⟨state', hnext, .inr (.inl ⟨.null, hsignal⟩), hlt⟩
    | signal i =>
      obtain ⟨state', hnext, hafter, hlt⟩ := exists_signal hmain
      exact ⟨state', hnext, .inr hafter, hlt⟩
    | join i =>
      obtain rfl : i = .null := by simpa [hmain, MainPoint.early] using hbehind.main
      exact absurd hmain hjoin
    | exited | killed => simp [hmain, MainPoint.gone] at hgone
  have hstep := childNext_main hhandling hnext
  exact ⟨.main, state', next_of_childNext hgone hstep, hbehind.next (by simp) hstep hmain, hlt⟩

/-- The main thread has signaled, and the thread is on its way to its wait. -/
structure Late (w : Cond) (s : State) : Prop extends Apart s where
  main : s.main = .join .null
  mtx : s.mtx w ≠ some .parent
  before : (s.thread w).pastWait = false ∧ s.thread w ≠ .returned ∨ s.thread w = .blocked

theorem Late.exists_step (h : Late w s) (hblocked : s.thread w ≠ .blocked) :
    ∃ s', childProcessTh s w false = some s' ∧ s'.main = s.main ∧
      ((s'.thread w).pastWait = false ∧ s'.thread w ≠ .returned ∨ s'.thread w = .blocked) ∧
        (s'.thread w).weight < (s.thread w).weight := by
  obtain ⟨hbefore, hreturned⟩ := h.before.resolve_right hblocked
  cases hpoint : s.thread w with
  | unborn =>
    have habsent := (h.inv.unborn (by simp [h.main]) w).mp hpoint
    simp [h.main] at habsent
  | returned => exact absurd hpoint hreturned
  | lock =>
    have hfree := h.inv.mtx_eq_none h.mtx (by rw [hpoint]; rfl)
    refine ⟨_, by simp only [childProcessTh, hpoint, if_pos hfree]; rfl, ?_⟩
    simp
  | start | post | count | wait =>
    refine ⟨_, by simp only [childProcessTh, hpoint]; rfl, ?_⟩
    simp
  | blocked | usedUp | woken | incr | test | zero | unlock => simp [hpoint] at hbefore

/-- The thread comes to its wait too late. -/
theorem Late.exists_lost (h : Late w s) : ∃ s', program.Leads s s' ∧ Lost w s' := by
  obtain ⟨last, hleads, hlate, hblocked⟩ : ∃ s', program.Leads s s' ∧ Late w s' ∧
      s'.thread w = .blocked := by
    refine System.exists_leads_of_measure (fun state ↦ (state.thread w).weight)
      (fun state hlate hblocked ↦ ?_) h
    obtain ⟨state', hnext, hmain, hbefore, hlt⟩ := hlate.exists_step hblocked
    have hgone : state.main.gone = false := by
      rw [hlate.main]
      rfl
    have hstep : childNext state (.thread w false) = some state' := hnext
    exact ⟨.thread w false, state', next_of_childNext hgone hstep,
      ⟨hlate.toApart.childNext hstep, hmain.trans hlate.main,
        by rw [ne_eq, (hlate.frame hstep).held w]; exact hlate.mtx, hbefore⟩, hlt⟩
  exact ⟨last, hleads, hlate.toApart, ⟨.null, hlate.main⟩, hblocked⟩

theorem Behind.exists_lost (h : Behind w s) : ∃ s', program.Leads s s' ∧ Lost w s' := by
  obtain ⟨middle, hleads, hbehind, hmain⟩ := h.exists_signaled
  have hlate : Late w middle := ⟨hbehind.toApart, hmain, hbehind.mtx, .inl hbehind.before⟩
  obtain ⟨last, hleads', hlost⟩ := hlate.exists_lost
  exact ⟨last, hleads.trans hleads', hlost⟩

/-! ### The exits -/

theorem ParentPoint.of_passes {point : ParentPoint} (h : point.passes = true) :
    (∀ w, ¬ point.holds w) ∧ point.stops = false := by
  cases point with
  | lock _ w => cases w <;> first | exact ⟨fun w ↦ Nat.not_lt_zero w.index, rfl⟩ | cases h
  | wake => exact ⟨fun _ ↦ id, rfl⟩
  | _ => cases h

/-- The state after `LOC_URSLVD`: the child has been killed, or its main thread can pass its
semaphore, and the test can be reported as passed after the exits that `passes` names. -/
theorem exit_spec (h : program.Reachable s) (hnext : parentProcess s choice = some s')
    (hexit : s'.parent = .waitpid true rc2) :
    s'.bool = true ∧ (choice.posts = false ∧ s'.main = .killed ∨ choice.posts = true ∧
      0 < s'.semB ∧ s'.main.early = true ∧ (s'.NotPassed rc2 ↔ s.parent.passes = false)) := by
  have hinv := inv_of_reachable h
  cases parentMove hnext with
  | urslvd t x ht hactive hx =>
    have hkept := kept_of_reachable h hactive
    obtain ⟨hmain, hmtx, hresult⟩ : t.main = s.main ∧ t.mtx = s.mtx ∧ t.result = s.result := by
      obtain rfl | ⟨w, reach, rfl⟩ := ht <;> exact ⟨rfl, rfl, rfl⟩
    unfold locUrslvd at hexit ⊢
    by_cases hposts : choice.posts = true
    swap
    · rw [if_neg hposts]
      exact ⟨rfl, .inl ⟨Bool.not_eq_true _ ▸ hposts, rfl⟩⟩
    rw [if_pos hposts] at hexit ⊢
    obtain rfl : x 0 = rc2 := by simpa using hexit
    refine ⟨rfl, .inr ⟨hposts, Nat.succ_pos _, hmain ▸ (hinv.early hactive).2, ?_⟩⟩
    change (x 0 ≠ 0 ∨ (∃ w, t.mtx w = some .parent) ∨ t.result ≠ 0) ↔ _
    rw [hmtx, hresult]
    unfold ParentPoint.Returns at hx
    cases hpasses : s.parent.passes with
    | false =>
      rw [hpasses] at hx
      exact iff_of_true (hx.imp_right fun hholds ↦ .inl (hholds.imp hinv.held)) rfl
    | true =>
      rw [hpasses] at hx
      obtain ⟨hholds, hstops⟩ := ParentPoint.of_passes hpasses
      refine iff_of_false ?_ Bool.noConfusion
      rintro (hne | ⟨w, hw⟩ | hne)
      · exact hne hx
      · exact hholds w (hkept.mtx w hw)
      · exact hne (hkept.result hstops)
  | ready =>
    split at hexit <;> cases hexit
  | lock again w => cases w <;> cases again <;> cases hexit
  | unlock last w => cases w <;> cases last <;> cases hexit
  | round t point _ _ _ _ hafter =>
    obtain rfl : point = .waitpid true rc2 := hexit
    obtain hafter | hafter := hafter <;> cases hafter
  | result | passes | stop | post | ended => cases hexit

/-- An exit of `parent_process` by `LOC_URSLVD` is safe if and only if its `sem_post` fails, or all
threads of the child are served and the exit is none of those that make `parent_process` return 0
with no mutex locked. -/
theorem exit_safe_iff (h : program.Reachable s)
    (hnext : program.next s (.parent choice) = some s')
    (hexit : s'.parent = .waitpid true rc2) :
    SafeExit s' ↔ choice.posts = false ∨ (∀ w, s'.Served w) ∧ s.parent.passes = false := by
  obtain ⟨hbool, ⟨hposts, hkilled⟩ | ⟨hposts, hsemB, hearly, hpasses⟩⟩ := exit_spec h hnext hexit
  · exact iff_of_true (safeExit_of_killed hkilled hexit) (.inl hposts)
  rw [hposts, or_iff_right Bool.noConfusion, ← hpasses]
  have hkilled : s'.main ≠ .killed := by
    intro hkilled
    simp [hkilled, MainPoint.early] at hearly
  have hsignaled : ∀ w, ¬ s'.main.signaled w := by
    intro w hw
    cases hpoint : s'.main <;> simp_all [MainPoint.early]
  have hapart : Apart s' := ⟨inv_of_reachable (h.step hnext), by rw [hexit]; rfl, hkilled⟩
  have hleaving (hserved : ∀ w, s'.Served w) : Leaving s' :=
    ⟨hapart, hbool, fun _ ↦ hsemB, hserved, fun w _ ↦ hsignaled w⟩
  constructor
  · intro hsafe
    have hcanEnd := (hsafe s' (.refl s')).1
    have hserved : ∀ w, s'.Served w := by
      intro w
      refine or_iff_not_imp_left.mpr fun hreturned ↦ ?_
      have hheld : s'.mtx w ≠ some .parent := fun hheld ↦
        hapart.not_canEnd_of_held hheld hreturned hcanEnd
      refine ⟨hheld, ?_, fun hused ↦ ?_⟩
      · by_contra hpast
        rw [Bool.not_eq_true] at hpast
        have hbehind : Behind w s' :=
          ⟨hapart, hheld, ⟨hpast, hreturned⟩, .inl ⟨hearly, hsemB⟩⟩
        obtain ⟨last, hleads, hlost⟩ := hbehind.exists_lost
        exact hlost.not_canEnd (hsafe last hleads).1
      · by_contra hquiet
        exact hapart.not_canEnd_of_used hused hquiet hcanEnd
    refine ⟨hserved, ?_⟩
    by_contra hnot
    obtain ⟨last, hleads, hpassed⟩ := (hleaving hserved).exists_passed hexit hnot
    exact (hsafe last hleads).2 hpassed
  · rintro ⟨hserved, hnot⟩
    exact safeExit_of_served (hleaving hserved) hexit hnot

/-- A call of the parent that succeeds, and one that fails with an error code. A wake-up for
another process uses its thread up. -/
def succeeds : Move := .parent ⟨0, true, .usesUp⟩

def fails (error : ℕ) : Choice := ⟨error, true, .usesUp⟩

/-- The three threads have come to their waits, the parent has passed the first semaphore, and it
has made a number of calls after that. -/
def afterCalls (n : ℕ) : List Move :=
  List.flatten [.replicate 3 .main, .replicate 5 (.thread .null false),
    .replicate 5 (.thread .dflt false), .replicate 5 (.thread .pshared false),
    .replicate 3 succeeds, .replicate n succeeds]

/-- The child ends after the parent has left, and the parent waits for it. -/
def childEnds : List Move :=
  List.flatten [.replicate 4 .main, .replicate 4 (.thread .null false),
    .replicate 4 (.thread .dflt false), .replicate 4 (.thread .pshared false),
    .replicate 3 .main, [succeeds]]

instance (s : State) (w : Cond) : Decidable (s.Alerted w) := inferInstanceAs (Decidable (_ ∨ _))

instance (s : State) (w : Cond) : Decidable (s.Served w) := inferInstanceAs (Decidable (_ ∨ _))

/-- The exit that a call of the parent takes at the end of a schedule. -/
theorem exists_exit (schedule : List Move) (choice : Choice) {Goal : State → State → Prop}
    [∀ s, DecidablePred (Goal s)] (h : (program.runSchedule start schedule).any (fun s ↦
      (program.next s (.parent choice)).any (fun s' ↦ Goal s s')) = true) :
    ∃ s s', program.Reachable s ∧ program.next s (.parent choice) = some s' ∧ Goal s s' := by
  obtain ⟨s, hrun, hs⟩ := (Option.any_eq_true _ _).mp h
  obtain ⟨s', hnext, hgoal⟩ := (Option.any_eq_true _ _).mp hs
  exact ⟨s, s', (System.reachable_of_initial (P := program) rfl).runSchedule hrun, hnext,
    of_decide_eq_true hgoal⟩

/-- The parent has used up two threads in its first round and sent its signal, and `sem_wait`
fails. -/
theorem exit_safe_handled : ∃ s s', program.Reachable s ∧
    program.next s (.parent (fails 4)) = some s' ∧ s'.parent = .waitpid true 4 ∧
      s'.thread .null = .usedUp ∧ s'.thread .dflt = .usedUp ∧ SafeExit s' := by
  obtain ⟨s, s', hreach, hnext, hexit, hnull, hdflt, hserved, hpasses⟩ : ∃ s s',
      program.Reachable s ∧ program.next s (.parent (fails 4)) = some s' ∧
        s'.parent = .waitpid true 4 ∧ s'.thread .null = .usedUp ∧ s'.thread .dflt = .usedUp ∧
          (∀ w, s'.Served w) ∧ s.parent.passes = false :=
    exists_exit (afterCalls 11) (fails 4) (by decide +kernel)
  exact ⟨s, s', hreach, hnext, hexit, hnull, hdflt,
    (exit_safe_iff hreach hnext hexit).mpr (.inr ⟨hserved, hpasses⟩)⟩

/-- The parent cannot lock the second mutex, and leaves with the first one: the thread that waits
with it never returns. It has used up two threads and cannot send its signal: they never return. It
cannot lock the first mutex: the test passes. -/
theorem exits_not_safe :
    (∃ s s', program.Reachable s ∧ program.next s (.parent (fails 11)) = some s' ∧
      s'.parent = .waitpid true 0 ∧ ¬ CanEnd s') ∧
    (∃ s s', program.Reachable s ∧ program.next s (.parent (fails 3)) = some s' ∧
      s'.parent = .waitpid true 3 ∧ ¬ CanEnd s') ∧
    ∃ s s' last, program.Reachable s ∧ program.next s (.parent (fails 22)) = some s' ∧
      s'.parent = .waitpid true 0 ∧ program.Leads s' last ∧ last.parent = .ended .passed := by
  refine ⟨?_, ?_, ?_⟩
  · obtain ⟨s, s', hreach, hnext, hexit, halive, hmtx, hthread⟩ : ∃ s s', program.Reachable s ∧
        program.next s (.parent (fails 11)) = some s' ∧ s'.parent = .waitpid true 0 ∧
          s'.main ≠ .killed ∧ s'.mtx .null = some .parent ∧ s'.thread .null ≠ .returned :=
      exists_exit (afterCalls 1) (fails 11) (by decide +kernel)
    exact ⟨s, s', hreach, hnext, hexit, Apart.not_canEnd_of_held
      ⟨inv_of_reachable (hreach.step hnext), by rw [hexit]; rfl, halive⟩ hmtx hthread⟩
  · obtain ⟨s, s', hreach, hnext, hexit, halive, hused, hquiet⟩ : ∃ s s', program.Reachable s ∧
        program.next s (.parent (fails 3)) = some s' ∧ s'.parent = .waitpid true 3 ∧
          s'.main ≠ .killed ∧ s'.thread .null = .usedUp ∧ ¬ s'.Alerted .null :=
      exists_exit (afterCalls 10) (fails 3) (by decide +kernel)
    exact ⟨s, s', hreach, hnext, hexit, Apart.not_canEnd_of_used
      ⟨inv_of_reachable (hreach.step hnext), by rw [hexit]; rfl, halive⟩ hused hquiet⟩
  · obtain ⟨s, s', hreach, hnext, hexit, hpasses⟩ : ∃ s s', program.Reachable s ∧
        program.next s (.parent (fails 22)) = some s' ∧ s'.parent = .waitpid true 0 ∧
          (program.runSchedule s' childEnds).any (fun s ↦ s.parent = .ended .passed) = true :=
      exists_exit (afterCalls 0) (fails 22) (by decide +kernel)
    obtain ⟨last, hrun, hpassed⟩ := System.exists_of_replay hpasses
    exact ⟨s, s', last, hreach, hnext, hexit, System.leads_of_runSchedule hrun, hpassed⟩

end OpenPosix.CondVars.Shared

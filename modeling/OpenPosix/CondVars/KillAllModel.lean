import Mathlib.Data.Int.Basic
import OpenPosix.Interleaving.System

/-!
# The clean-up of the children of `pthread_cond_broadcast/2-3.c`

The main process forks `NCHILDREN` children, waits until they have counted themselves, starts a
timeout thread, wakes the children and joins them from the last one to the first. A call that fails
ends the process by `UNRESOLVED_KILLALL`, and the timeout thread ends it by `FAILED_KILLALL`: both
send `SIGKILL` to the children below `children.nb`, which is the counter of the creation loop and
of the join loop, and read it again before each signal.

How the children wait is in `WakeupModel`. Here a child counts itself once and ends at any time;
each call of the main process may fail, and the timeout may be over at any time.

The invariant says which children are there, by the counter and the point of `main`: those below
the counter, and one more while `main` waits for it or after a failing `fork`.
-/

namespace OpenPosix.CondVars.KillAll

open Interleaving Function

/-- What has become of a child. `counted` has incremented `td->count`; `ended` has not been waited
for yet. -/
inductive ChildPoint
  | unborn
  | started
  | counted
  | ended
  | reaped
  deriving DecidableEq, Repr

/-- The child was created and has not been reaped. -/
def ChildPoint.live : ChildPoint → Bool
  | .started | .counted | .ended => true
  | .unborn | .reaped => false

/-- The calls whose failure is answered by `UNRESOLVED_KILLALL`. -/
inductive Call
  | fork
  | lock
  | unlock
  | createTimer
  | broadcast
  | waitpid
  deriving DecidableEq, Repr

/-- The points of the macros, with `_nch`: the test of the loop, the call of `kill`, and the exit
after the loop. -/
inductive MacroPoint
  | test (nch : ℕ)
  | kill (nch : ℕ)
  | leave (nch : ℕ)
  deriving DecidableEq, Repr

/-- The children that the loop of the macro has gone through. -/
def MacroPoint.nch : MacroPoint → ℕ
  | .test nch | .kill nch | .leave nch => nch

/-- The points of `main` in one scenario, in the order of the source. `waited` is between the
return of `waitpid` and the decrement of `children.nb`. -/
inductive MainPoint
  | fork
  | lock
  | count
  | unlock
  | createTimer
  | broadcast
  | unlockLast
  | join
  | test
  | waitpid
  | waited
  | cancel
  | joinTimer
  | done
  | killAll (call : Call) (point : MacroPoint)
  deriving DecidableEq, Repr

/-- The points of `timer`. A cancelled thread keeps what it has sent. -/
inductive TimerPoint
  | absent
  | sleeping
  | killAll (point : MacroPoint)
  | cancelled (nch : ℕ)
  deriving DecidableEq, Repr

/-- Which macro has ended the process. -/
inductive Exit
  | unresolved (call : Call)
  | failed
  deriving DecidableEq, Repr

/-- `kills` has the signals that were sent: the index of the child, and what had become of the
child then. The identifier of a reaped child is no process, or another one. -/
structure State where
  main : MainPoint
  timer : TimerPoint
  nb : ℤ
  count : ℕ
  child : ℕ → ChildPoint
  kills : List (ℕ × ChildPoint)
  exit : Option Exit

/-- A step of `main`, a failure of its call, a step of `timer`, its cancellation; a child counts
itself, or ends. -/
inductive Move
  | main
  | fail
  | timer
  | cancelled
  | count (k : ℕ)
  | ends (k : ℕ)
  deriving DecidableEq, Repr

def State.setMain (s : State) (point : MainPoint) : State := { s with main := point }

def State.setTimer (s : State) (point : TimerPoint) : State := { s with timer := point }

def State.setChild (s : State) (k : ℕ) (point : ChildPoint) : State :=
  { s with child := Function.update s.child k point }

/-- The next step of `UNRESOLVED_KILLALL` and of `FAILED_KILLALL`, in the thread that `goto`
moves. -/
def killAll (exit : Exit) (goto : State → MacroPoint → State) (s : State) : MacroPoint → State
  | .test nch => goto s (if nch < s.nb then .kill nch else .leave nch)
  | .kill nch => goto { s with kills := (nch, s.child nch) :: s.kills } (.test (nch + 1))
  | .leave _ => { s with exit := some exit }

/-- The next step of `main`, with `NCHILDREN` children. -/
def main (nchildren : ℕ) (s : State) : Option State :=
  match s.main with
  | .fork =>
    some (if s.nb < nchildren then { s.setChild s.nb.toNat .started with nb := s.nb + 1 }
      else s.setMain .lock)
  | .lock => some (s.setMain .count)
  | .count => some (s.setMain (if s.count < nchildren then .unlock else .createTimer))
  | .unlock => some (s.setMain .lock)
  | .createTimer => some ((s.setTimer .sleeping).setMain .broadcast)
  | .broadcast => some (s.setMain .unlockLast)
  | .unlockLast => some (s.setMain .join)
  | .join => some { s with main := .test, nb := s.nb - 1 }
  | .test => some (s.setMain (if 0 ≤ s.nb then .waitpid else .cancel))
  | .waitpid =>
    if s.child s.nb.toNat = .ended then some ((s.setChild s.nb.toNat .reaped).setMain .waited)
    else none
  | .waited => some { s with main := .test, nb := s.nb - 1 }
  | .cancel => some (s.setMain .joinTimer)
  | .joinTimer =>
    match s.timer with
    | .cancelled _ => some (s.setMain .done)
    | _ => none
  | .done => none
  | .killAll call point =>
    some (killAll (.unresolved call) (fun s point ↦ s.setMain (.killAll call point)) s point)

/-- The call of `main` fails. A failing `fork` goes back by one child first. -/
def fail (nchildren : ℕ) (s : State) : Option State :=
  match s.main with
  | .fork =>
    if s.nb < nchildren then some { s with main := .killAll .fork (.test 0), nb := s.nb - 1 }
    else none
  | .lock => some (s.setMain (.killAll .lock (.test 0)))
  | .unlock | .unlockLast => some (s.setMain (.killAll .unlock (.test 0)))
  | .createTimer => some (s.setMain (.killAll .createTimer (.test 0)))
  | .broadcast => some (s.setMain (.killAll .broadcast (.test 0)))
  | .waitpid => some (s.setMain (.killAll .waitpid (.test 0)))
  | _ => none

def timer (s : State) : Option State :=
  match s.timer with
  | .absent => none
  | .sleeping => some (s.setTimer (.killAll (.test 0)))
  | .killAll point => some (killAll .failed (fun s point ↦ s.setTimer (.killAll point)) s point)
  | .cancelled _ => none

/-- The thread acts on the cancellation: in its sleep, or in the output before the exit. -/
def cancelled (s : State) : Option State :=
  if s.main = .joinTimer then
    match s.timer with
    | .sleeping => some (s.setTimer (.cancelled 0))
    | .killAll (.leave nch) => some (s.setTimer (.cancelled nch))
    | _ => none
  else
    none

def next (nchildren : ℕ) (s : State) (move : Move) : Option State :=
  if s.exit = none then
    match move with
    | .main => main nchildren s
    | .fail => fail nchildren s
    | .timer => timer s
    | .cancelled => cancelled s
    | .count k =>
      if s.child k = .started then some { s.setChild k .counted with count := s.count + 1 }
      else none
    | .ends k =>
      if s.child k = .started ∨ s.child k = .counted then some (s.setChild k .ended) else none
  else
    none

/-- The state before the first child is created. -/
def start : State where
  main := .fork
  timer := .absent
  nb := 0
  count := 0
  child := fun _ ↦ .unborn
  kills := []
  exit := none

def program (nchildren : ℕ) : System State Move where
  Initial := fun s ↦ s = start
  next := next nchildren

/-- `SIGKILL` was sent to every child that was created and is not reaped, and to no other
process. -/
def State.CleansUp (s : State) : Prop :=
  (∀ i, (s.child i).live = true → ∃ point, (i, point) ∈ s.kills) ∧
    ∀ kill ∈ s.kills, kill.2.live = true

/-! ### What the counter says about the children -/

variable {point : ChildPoint}

/-- The children that are there and that `children.nb` does not count: one while `main` waits for
it, and one after a failing `fork`. -/
def MainPoint.uncounted : MainPoint → ℤ
  | .test | .waitpid | .cancel | .joinTimer | .done => 1
  | .killAll .fork _ | .killAll .waitpid _ => 1
  | _ => 0

/-- The children that the macro has gone through in `main`. -/
def MainPoint.sent : MainPoint → ℕ
  | .killAll _ point => point.nch
  | _ => 0

/-- The children that the macro has gone through in `timer`. -/
def TimerPoint.sent : TimerPoint → ℕ
  | .absent | .sleeping => 0
  | .killAll point => point.nch
  | .cancelled nch => nch

/-- No child has been waited for. -/
def MainPoint.early : MainPoint → Bool
  | .test | .waitpid | .waited | .cancel | .joinTimer | .done | .killAll .waitpid _ => false
  | _ => true

/-- The timeout thread has not been created. -/
def MainPoint.alone : MainPoint → Bool
  | .fork | .lock | .count | .unlock | .createTimer | .killAll .fork _ => true
  | _ => false

/-- What is known of the counter where `main` is. Nobody else writes it. -/
def MainPoint.Fits (nb : ℤ) : MainPoint → Prop
  | .fork | .waitpid => 0 ≤ nb
  | .killAll _ (.test nch) => nch = 0 ∨ nch ≤ nb
  | .killAll _ (.kill nch) => nch < nb
  | .killAll _ (.leave nch) => (nch = 0 ∨ nch ≤ nb) ∧ nb ≤ nch
  | _ => True

/-- What is known of the counter and of the children where `timer` is: the child that it has found
below the counter was created, though it may be reaped by now. -/
def TimerPoint.Fits (nb : ℤ) (child : ℕ → ChildPoint) : TimerPoint → Prop
  | .killAll (.kill nch) => child nch ≠ .unborn
  | .killAll (.leave nch) => nb ≤ nch
  | _ => True

variable {nchildren : ℕ} {s s' : State} {move : Move} {i k : ℕ} {nb : ℤ}

structure Inv (s : State) : Prop where
  main : s.main.Fits s.nb
  timer : s.timer.Fits s.nb s.child
  live : ∀ i : ℕ, (s.child i).live = true ↔ i < s.nb + s.main.uncounted
  sent : ∀ i, (∃ point, (i, point) ∈ s.kills) ↔ i < s.timer.sent ∨ i < s.main.sent
  born : ∀ kill ∈ s.kills, kill.2 ≠ .unborn
  early : s.main.early = true →
    (∀ i, s.child i ≠ .reaped) ∧ ∀ kill ∈ s.kills, kill.2 ≠ .reaped
  alone : s.main.alone = true → s.timer = .absent

theorem inv_start : Inv start where
  main := Int.le_refl 0
  timer := trivial
  live i := by
    have hneg : ¬ ((i : ℤ) < 0 + 0) := by omega
    exact ⟨fun h ↦ absurd h Bool.false_ne_true, fun h ↦ absurd h hneg⟩
  sent i := by simp [start, TimerPoint.sent, MainPoint.sent]
  born _ hkill := absurd hkill List.not_mem_nil
  early _ := ⟨fun _ ↦ ChildPoint.noConfusion, fun _ hkill ↦ absurd hkill List.not_mem_nil⟩
  alone _ := rfl

theorem ChildPoint.ne_unborn_of_live (h : point.live = true) : point ≠ .unborn := by
  rintro rfl
  exact absurd h Bool.false_ne_true

theorem ChildPoint.ne_reaped_of_live (h : point.live = true) : point ≠ .reaped := by
  rintro rfl
  exact absurd h Bool.false_ne_true

theorem ChildPoint.live_iff : point.live = true ↔ point ≠ .unborn ∧ point ≠ .reaped := by
  cases point <;> decide

/-- The counter falls and children stay born: what `timer` knows stays true. -/
theorem TimerPoint.Fits.mono {point : TimerPoint} {nb' : ℤ} {child child' : ℕ → ChildPoint}
    (h : point.Fits nb child) (hnb : nb' ≤ nb)
    (hchild : ∀ i, child i ≠ .unborn → child' i ≠ .unborn) : point.Fits nb' child' := by
  cases point with
  | absent | sleeping | cancelled => trivial
  | killAll point =>
    cases point with
    | test => trivial
    | kill nch => exact hchild nch h
    | leave nch => exact Int.le_trans hnb h

/-- A child below the counter is there. -/
theorem Inv.live_of_lt (h : Inv s) (hi : (i : ℤ) < s.nb) : (s.child i).live = true := by
  rw [h.live]
  have : 0 ≤ s.main.uncounted := by
    unfold MainPoint.uncounted
    split <;> decide
  omega

/-! ### The steps -/

/-- `main` goes on, and the counter counts as many children as before. -/
theorem Inv.setMain {old point : MainPoint} (h : Inv s) (hmain : s.main = old)
    (hfits : point.Fits s.nb) (huncounted : point.uncounted = old.uncounted)
    (hsent : point.sent = old.sent) (hearly : point.early = true → old.early = true)
    (halone : point.alone = true → old.alone = true) : Inv (s.setMain point) := by
  subst hmain
  refine ⟨hfits, h.timer, fun i ↦ ?_, fun i ↦ ?_, h.born, fun hpoint ↦ h.early (hearly hpoint),
    fun hpoint ↦ h.alone (halone hpoint)⟩
  · change _ ↔ (i : ℤ) < s.nb + point.uncounted
    rw [huncounted, ← h.live i]
    rfl
  · change _ ↔ i < s.timer.sent ∨ i < point.sent
    rw [hsent, ← h.sent i]
    rfl

/-- The counter is decremented where it has counted every child. -/
theorem Inv.decrement {old point : MainPoint} (h : Inv s) (hmain : s.main = old)
    (hfits : point.Fits (s.nb - 1)) (hcounted : old.uncounted = 0)
    (huncounted : point.uncounted = 1) (hsent : point.sent = old.sent)
    (hearly : point.early = true → old.early = true)
    (halone : point.alone = true → old.alone = true) :
    Inv { s with main := point, nb := s.nb - 1 } := by
  subst hmain
  have htimer := h.timer.mono (Int.sub_le_self s.nb Int.one_nonneg) fun _ hborn ↦ hborn
  refine ⟨hfits, htimer, fun i ↦ ?_, fun i ↦ ?_, h.born, fun hpoint ↦ h.early (hearly hpoint),
    fun hpoint ↦ h.alone (halone hpoint)⟩
  · change _ ↔ (i : ℤ) < s.nb - 1 + point.uncounted
    rw [huncounted, Int.sub_add_cancel, ← Int.add_zero s.nb, ← hcounted, ← h.live i]
  · change _ ↔ i < s.timer.sent ∨ i < point.sent
    rw [hsent, ← h.sent i]

/-- A child that is there counts itself, or ends. -/
theorem Inv.setChild (h : Inv s) (hold : (s.child k).live = true) (hnew : point.live = true) :
    Inv (s.setChild k point) := by
  refine ⟨h.main, h.timer.mono (Int.le_refl s.nb) ?_, ?_, h.sent, h.born,
    fun hearly ↦ ⟨?_, (h.early hearly).2⟩, h.alone⟩
  · exact (forall_update_iff s.child fun i p ↦ s.child i ≠ .unborn → p ≠ .unborn).mpr
      ⟨fun _ ↦ ChildPoint.ne_unborn_of_live hnew, fun _ _ ↦ id⟩
  · exact (forall_update_iff s.child fun i p ↦
      p.live = true ↔ (i : ℤ) < s.nb + s.main.uncounted).mpr
        ⟨hnew.trans hold.symm ▸ h.live k, fun i _ ↦ h.live i⟩
  · exact (forall_update_iff s.child fun _ p ↦ p ≠ .reaped).mpr
      ⟨ChildPoint.ne_reaped_of_live hnew, fun i _ ↦ (h.early hearly).1 i⟩

/-- A child is forked: it is the one at the counter. -/
theorem Inv.fork (h : Inv s) (hmain : s.main = .fork) :
    Inv { s.setChild s.nb.toNat .started with nb := s.nb + 1 } := by
  have hnb : 0 ≤ s.nb := by
    have := h.main
    rwa [hmain] at this
  have hlive := h.live
  rw [hmain] at hlive
  have hearly := h.early (by rw [hmain]; rfl)
  have habsent := h.alone (by rw [hmain]; rfl)
  refine ⟨?_, ?_, fun i ↦ ?_, h.sent, h.born, fun _ ↦ ⟨?_, hearly.2⟩, h.alone⟩
  · change s.main.Fits (s.nb + 1)
    rw [hmain]
    change 0 ≤ s.nb + 1
    omega
  · change s.timer.Fits _ _
    rw [habsent]
    trivial
  · change (update s.child s.nb.toNat .started i).live = true ↔
      (i : ℤ) < s.nb + 1 + s.main.uncounted
    rw [hmain]
    rcases eq_or_ne i s.nb.toNat with rfl | hne
    · rw [update_self]
      refine ⟨fun _ ↦ ?_, fun _ ↦ rfl⟩
      change (s.nb.toNat : ℤ) < s.nb + 1 + 0
      omega
    · rw [update_of_ne hne, hlive i]
      change (i : ℤ) < s.nb + 0 ↔ (i : ℤ) < s.nb + 1 + 0
      omega
  · exact (forall_update_iff s.child fun _ p ↦ p ≠ .reaped).mpr
      ⟨ChildPoint.noConfusion, fun i _ ↦ hearly.1 i⟩

/-- A child is reaped: it is the one that the counter does not count. -/
theorem Inv.reap (h : Inv s) (hmain : s.main = .waitpid) :
    Inv ((s.setChild s.nb.toNat .reaped).setMain .waited) := by
  have hlive := h.live
  have hsent := h.sent
  rw [hmain] at hlive hsent
  refine ⟨trivial, h.timer.mono (Int.le_refl s.nb) ?_, fun i ↦ ?_, hsent, h.born,
    fun hearly ↦ absurd hearly Bool.false_ne_true, fun hfork ↦ absurd hfork Bool.false_ne_true⟩
  · exact (forall_update_iff s.child fun i p ↦ s.child i ≠ .unborn → p ≠ .unborn).mpr
      ⟨fun _ ↦ ChildPoint.noConfusion, fun _ _ ↦ id⟩
  · change (update s.child s.nb.toNat .reaped i).live = true ↔ (i : ℤ) < s.nb + 0
    rcases eq_or_ne i s.nb.toNat with rfl | hne
    · rw [update_self]
      refine ⟨fun hreaped ↦ absurd hreaped Bool.false_ne_true, fun hlt ↦ ?_⟩
      omega
    · rw [update_of_ne hne, hlive i]
      change (i : ℤ) < s.nb + 1 ↔ _
      omega

theorem exists_mem_cons_iff {kills : List (ℕ × ChildPoint)} :
    (∃ p, (i, p) ∈ (k, point) :: kills) ↔ i = k ∨ ∃ p, (i, p) ∈ kills := by
  simp only [List.mem_cons, Prod.mk.injEq, exists_or, exists_and_left, exists_eq, and_true]

/-- A signal goes to a child that was created, from a thread that goes on to the next child. -/
theorem Inv.send {main : MainPoint} {timer : TimerPoint} (h : Inv s)
    (hborn : s.child k ≠ .unborn) (hmain : main.Fits s.nb) (htimer : timer.Fits s.nb s.child)
    (huncounted : main.uncounted = s.main.uncounted) (hearly : main.early = s.main.early)
    (hsent : ∀ i, i < timer.sent ∨ i < main.sent ↔ i = k ∨ i < s.timer.sent ∨ i < s.main.sent)
    (halone : main.alone = true → timer = .absent) :
    Inv { s with main := main, timer := timer, kills := (k, s.child k) :: s.kills } where
  main := hmain
  timer := htimer
  live i := by
    rw [huncounted]
    exact h.live i
  sent i := by
    rw [exists_mem_cons_iff, h.sent, hsent]
  born := List.forall_mem_cons.mpr ⟨hborn, h.born⟩
  early hmain := by
    have hreaped := h.early (hearly ▸ hmain)
    exact ⟨hreaped.1, List.forall_mem_cons.mpr ⟨hreaped.1 k, hreaped.2⟩⟩
  alone := halone

theorem Inv.killAllMain {call : Call} {point : MacroPoint} (h : Inv s)
    (hmain : s.main = .killAll call point) :
    Inv (killAll (.unresolved call) (fun s point ↦ s.setMain (.killAll call point)) s point) := by
  have hfits := h.main
  rw [hmain] at hfits
  cases point with
  | test nch =>
    refine h.setMain hmain ?_ (by cases call <;> rfl) ?_ (by cases call <;> exact id)
      (by cases call <;> exact id)
    · split
      case isTrue hlt => exact hlt
      case isFalse hge => exact ⟨hfits, Int.not_lt.mp hge⟩
    · change MacroPoint.nch (ite _ _ _) = nch
      split <;> rfl
  | kill nch =>
    refine h.send (ChildPoint.ne_unborn_of_live (h.live_of_lt hfits)) ?_ h.timer ?_ ?_
      (fun i ↦ ?_) fun halone ↦ h.alone ?_
    · refine Or.inr ?_
      have : (nch : ℤ) < s.nb := hfits
      omega
    · rw [hmain]
      cases call <;> rfl
    · rw [hmain]
      cases call <;> rfl
    · rw [hmain]
      change i < s.timer.sent ∨ i < nch + 1 ↔ i = nch ∨ i < s.timer.sent ∨ i < nch
      omega
    · rw [hmain]
      cases call with
      | fork => rfl
      | _ => exact absurd halone Bool.false_ne_true
  | leave => exact ⟨h.main, h.timer, h.live, h.sent, h.born, h.early, h.alone⟩

/-- `timer` goes on without a signal. -/
theorem Inv.setTimer {point : TimerPoint} (h : Inv s) (hfits : point.Fits s.nb s.child)
    (hsent : point.sent = s.timer.sent) (halone : s.main.alone = true → point = .absent) :
    Inv (s.setTimer point) := by
  refine ⟨h.main, hfits, h.live, fun i ↦ ?_, h.born, h.early, halone⟩
  change _ ↔ i < point.sent ∨ i < s.main.sent
  rw [hsent]
  exact h.sent i

/-- Where there is a timeout thread, `main` has created it. -/
theorem Inv.not_alone (h : Inv s) (htimer : s.timer ≠ .absent) (point : TimerPoint) :
    s.main.alone = true → point = .absent :=
  fun halone ↦ absurd (h.alone halone) htimer

theorem Inv.killAllTimer {point : MacroPoint} (h : Inv s) (htimer : s.timer = .killAll point) :
    Inv (killAll .failed (fun s point ↦ s.setTimer (.killAll point)) s point) := by
  have halone := h.not_alone (by rw [htimer]; exact TimerPoint.noConfusion)
  have hfits := h.timer
  rw [htimer] at hfits
  cases point with
  | test nch =>
    refine h.setTimer ?_ ?_ (halone _)
    · split
      case isTrue hlt => exact ChildPoint.ne_unborn_of_live (h.live_of_lt hlt)
      case isFalse hge => exact Int.not_lt.mp hge
    · rw [htimer]
      split <;> rfl
  | kill nch =>
    refine h.send hfits h.main trivial rfl rfl (fun i ↦ ?_) (halone _)
    rw [htimer]
    change i < nch + 1 ∨ i < s.main.sent ↔ i = nch ∨ i < nch ∨ i < s.main.sent
    omega
  | leave => exact ⟨h.main, h.timer, h.live, h.sent, h.born, h.early, h.alone⟩

theorem Inv.next_timer (h : Inv s) (hnext : KillAll.timer s = some s') : Inv s' := by
  unfold KillAll.timer at hnext
  split at hnext
  case h_1 | h_4 => cases hnext
  case h_2 htimer =>
    cases hnext
    exact h.setTimer trivial (by rw [htimer]; rfl)
      (h.not_alone (by rw [htimer]; exact TimerPoint.noConfusion) _)
  case h_3 point htimer =>
    cases hnext
    exact h.killAllTimer htimer

theorem Inv.next_cancelled (h : Inv s) (hnext : cancelled s = some s') : Inv s' := by
  obtain ⟨hmain, hnext⟩ := Option.ite_none_right_eq_some.mp hnext
  have halone (point : TimerPoint) : s.main.alone = true → point = .absent := by
    rw [hmain]
    exact fun halone ↦ absurd halone Bool.false_ne_true
  split at hnext
  case h_1 htimer | h_2 nch htimer =>
    cases hnext
    exact h.setTimer trivial (by rw [htimer]; rfl) (halone _)
  case h_3 => cases hnext

theorem Inv.next_main (h : Inv s) (hnext : KillAll.main nchildren s = some s') : Inv s' := by
  unfold KillAll.main at hnext
  split at hnext
  case h_1 hmain =>
    cases hnext
    split
    case isTrue => exact h.fork hmain
    case isFalse => exact h.setMain hmain trivial rfl rfl id id
  case h_2 hmain | h_4 hmain | h_6 hmain | h_7 hmain | h_12 hmain =>
    cases hnext
    exact h.setMain hmain trivial rfl rfl id id
  case h_3 hmain =>
    cases hnext
    split <;> exact h.setMain hmain trivial rfl rfl id id
  case h_5 hmain =>
    cases hnext
    have habsent := h.alone (by rw [hmain]; rfl)
    -- the timeout thread is created: `timer` starts to sleep
    refine ⟨trivial, trivial, fun i ↦ ?_, fun i ↦ ?_, h.born, fun _ ↦ ?_,
      fun halone ↦ absurd halone Bool.false_ne_true⟩
    · have hlive := h.live i
      rwa [hmain] at hlive
    · have hsent := h.sent i
      rwa [hmain, habsent] at hsent
    · exact h.early (by rw [hmain]; rfl)
  case h_8 hmain | h_11 hmain =>
    cases hnext
    exact h.decrement hmain trivial rfl rfl rfl (fun hearly ↦ absurd hearly Bool.false_ne_true)
      fun halone ↦ absurd halone Bool.false_ne_true
  case h_9 hmain =>
    cases hnext
    split
    case isTrue hnb => exact h.setMain hmain hnb rfl rfl id id
    case isFalse => exact h.setMain hmain trivial rfl rfl id id
  case h_10 hmain =>
    split_ifs at hnext
    cases hnext
    exact h.reap hmain
  case h_13 hmain =>
    split at hnext
    case h_1 =>
      cases hnext
      exact h.setMain hmain trivial rfl rfl id id
    case h_2 => cases hnext
  case h_14 => cases hnext
  case h_15 call point hmain =>
    cases hnext
    exact h.killAllMain hmain

theorem Inv.next_fail (h : Inv s) (hnext : fail nchildren s = some s') : Inv s' := by
  unfold fail at hnext
  split at hnext
  case h_1 hmain =>
    split_ifs at hnext
    cases hnext
    exact h.decrement hmain (Or.inl rfl) rfl rfl rfl id id
  case h_2 hmain | h_3 hmain | h_4 hmain | h_5 hmain | h_6 hmain | h_7 hmain =>
    cases hnext
    exact h.setMain hmain (Or.inl rfl) rfl rfl id fun halone ↦ absurd halone Bool.false_ne_true
  case h_8 => cases hnext

theorem Inv.next (h : Inv s) (hnext : KillAll.next nchildren s move = some s') : Inv s' := by
  unfold KillAll.next at hnext
  split_ifs at hnext
  cases move with
  | main => exact h.next_main hnext
  | fail => exact h.next_fail hnext
  | timer => exact h.next_timer hnext
  | cancelled => exact h.next_cancelled hnext
  | count k =>
    obtain ⟨hchild, ⟨⟩⟩ := Option.ite_none_right_eq_some.mp hnext
    have hset := h.setChild (by rw [hchild]; rfl : (s.child k).live = true)
      (rfl : ChildPoint.counted.live = true)
    exact ⟨hset.main, hset.timer, hset.live, hset.sent, hset.born, hset.early, hset.alone⟩
  | ends k =>
    obtain ⟨hchild, ⟨⟩⟩ := Option.ite_none_right_eq_some.mp hnext
    refine h.setChild ?_ rfl
    rcases hchild with hchild | hchild <;> rw [hchild] <;> rfl

theorem inv_of_reachable (hs : (program nchildren).Reachable s) : Inv s :=
  hs.invariant (fun _ hs ↦ hs ▸ inv_start) fun _ _ _ _ hinv hnext ↦ hinv.next hnext

end OpenPosix.CondVars.KillAll

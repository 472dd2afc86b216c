import OpenPosix.CondVars.CancelModel

/-!
# Who will broadcast

A round has two stages: `boolean` is not set (`gather`), or it is (`run`). A worker that has found
`boolean` not set and has not entered its wait when `boolean` is set holds the mutex all the time,
so there is at most one, and the others are still in the wait (`Inv.window`). The signal can be lost
on that worker only. From the signal on, as long as a worker is blocked or about to be, some worker
will come to its broadcast (`Inv.caller`): one that is not to be cancelled and has been unblocked,
or one that the signal has unblocked. With three workers there is one that is neither the worker
about to wait nor the one to be cancelled, which is what `Inv.caller_of_signal` rests on.
-/

namespace OpenPosix.CondVars.Cancel

open Interleaving Function

variable {n : ℕ} {s s' : State n} {i : Fin n}

attribute [simp] WorkerPoint.wake State.goto

/-! ### Classes of points -/

inductive Stage
  | outside
  | gather
  | run
  deriving DecidableEq, Repr

def ManagerPoint.stage : ManagerPoint n → Stage
  | .loop | .reset | .returned => .outside
  | .create _ | .choose | .lock | .read | .unlock _ | .setBoolean => .gather
  | .createSignaler | .barrier | .waiting | .cancel | .joinSignaler | .join _ => .run

def ManagerPoint.holds : ManagerPoint n → Bool
  | .read | .unlock _ => true
  | _ => false

@[simp] def ManagerPoint.absent : ManagerPoint n → Fin n → Prop
  | .create rest, i => i ∈ rest
  | .join rest, i => i ∉ rest
  | point, _ => point.stage = .outside

/-- The workers that are left to create or to join. -/
def ManagerPoint.rest : ManagerPoint n → List (Fin n)
  | .create rest | .join rest => rest
  | _ => []

/-- Where the signaler can be. -/
@[simp] def ManagerPoint.meets : ManagerPoint n → SignalerPoint → Bool
  | .barrier, .start | .barrier, .lock | .barrier, .barrier | .barrier, .waiting => true
  | .waiting, .start | .waiting, .lock | .waiting, .barrier => true
  | .cancel, .signal | .cancel, .finish | .cancel, .unlock | .cancel, .returned => true
  | .joinSignaler, .signal | .joinSignaler, .finish | .joinSignaler, .unlock
  | .joinSignaler, .returned => true
  | .barrier, _ | .waiting, _ | .cancel, _ | .joinSignaler, _ => false
  | _, signaler => signaler = .unborn

/-- The signaler holds the mutex, given the value of `boolean`. -/
def SignalerPoint.holds (boolean : Flag) : SignalerPoint → Bool
  | .barrier | .waiting | .signal | .finish => boolean = .locking
  | .unlock => true
  | _ => false

def WorkerPoint.holds : WorkerPoint → Bool
  | .incr | .wait | .test | .broadcast | .unlock | .cleanup => true
  | _ => false

/-- One for a worker that has counted itself, while `boolean` is not set. -/
@[simp] def WorkerPoint.counted : WorkerPoint → ℕ
  | .wait | .blocked | .woken _ | .test => 1
  | _ => 0

@[simp] def WorkerPoint.acted : WorkerPoint → Bool
  | .canceling | .cleanup | .canceled => true
  | _ => false

@[simp] def WorkerPoint.fits : Stage → WorkerPoint → Bool
  | .outside, .unborn => true
  | .gather, .unborn | .gather, .lock | .gather, .incr | .gather, .wait | .gather, .blocked
  | .gather, .woken _ | .gather, .test => true
  | .run, .lock | .run, .incr => false
  | .run, _ => true
  | _, _ => false

/-- The worker is in the wait, or has acted on its cancellation there. -/
def WorkerPoint.inWait : WorkerPoint → Bool
  | .blocked | .woken _ | .canceling => true
  | _ => false

/-- The worker is blocked, or about to be. -/
def WorkerPoint.atRisk : WorkerPoint → Bool
  | .wait | .blocked => true
  | _ => false

/-- The worker comes to its broadcast, and does not take the signal away when it is cancelled. -/
def Calls (s : State n) (i : Fin n) : Prop :=
  match s.worker i with
  | .woken signaled => signaled = true ∨ s.randval ≠ some i
  | .test | .broadcast => True
  | _ => False

@[simp] def State.sent (s : State n) : Bool :=
  match s.manager, s.signaler with
  | .join _, _ => true
  | _, .finish | _, .unlock | _, .returned => true
  | _, _ => false

/-- Who holds the mutex, as the points say. -/
def Holds (s : State n) : Thread n → Prop
  | .manager => s.manager.holds = true
  | .signaler => s.signaler.holds s.boolean = true
  | .worker i => (s.worker i).holds = true

structure Inv (s : State n) : Prop where
  owned : Owned s.mtx (Holds s)
  unset : s.manager.stage = .gather → s.boolean = .zero ∧ s.pending = false
  set : s.manager.stage = .run → s.boolean ≠ .zero
  meets : s.manager.meets s.signaler = true
  locking : s.signaler = .lock ∨ s.signaler = .unlock → s.boolean = .locking
  fits : ∀ i, (s.worker i).fits s.manager.stage = true
  unborn : ∀ i, s.worker i = .unborn ↔ s.manager.absent i
  nodup : s.manager.rest.Nodup
  count : s.manager.stage = .gather → s.count = total WorkerPoint.counted s.worker
  seen : ∀ i, s.manager = .unlock i → i = s.count
  ready : s.manager = .setBoolean → ∀ i, (s.worker i).counted = 1
  acted : ∀ i, (s.worker i).acted = true → s.randval = some i
  window : s.manager.stage = .run → ∀ i, s.worker i = .wait →
    ∀ j, j ≠ i → (s.worker j).inWait = true
  caller : s.manager.stage = .run → s.sent = true → (∃ i, (s.worker i).atRisk = true) →
    ∃ j, Calls s j

/-- Between two rounds there is no worker and no signaler. -/
theorem inv_of_empty (hworker : ∀ i, s.worker i = .unborn) (hsignaler : s.signaler = .unborn)
    (howned : Owned s.mtx (Holds s))
    (hmanager : s.manager = .loop ∨ s.manager = .create (List.finRange n) ∧
      s.boolean = .zero ∧ s.pending = false ∧ s.count = 0) : Inv s := by
  obtain hmanager | ⟨hmanager, hboolean, hpending, hcount⟩ := hmanager
  all_goals
    constructor <;> simp_all [ManagerPoint.stage, ManagerPoint.rest, total, List.nodup_finRange]

theorem inv_start : Inv (start n) := by
  refine inv_of_empty (fun _ ↦ rfl) rfl (fun thread ↦ ?_) (.inl rfl)
  cases thread <;> simp [start, Holds, ManagerPoint.holds, SignalerPoint.holds, WorkerPoint.holds]

/-! ### The mutex -/

theorem holds_goto (point : WorkerPoint) :
    Holds (s.goto i point) = update (Holds s) (.worker i) (point.holds = true) := by
  refine eq_update_iff.mpr ⟨by simp [Holds], fun thread hne ↦ ?_⟩
  cases thread with
  | manager | signaler => rfl
  | worker j =>
    have hj : j ≠ i := fun hji ↦ hne (hji ▸ rfl)
    simp [Holds, update_of_ne hj]

theorem owned_goto (h : Owned s.mtx (Holds s)) {point : WorkerPoint} {mtx : Option (Thread n)}
    (hpass : Passes (.worker i) s.mtx (s.worker i).holds point.holds mtx) :
    Owned mtx (Holds (s.goto i point)) := by
  rw [holds_goto]
  exact h.pass Iff.rfl hpass

theorem Inv.unique (h : Inv s) {j k : Fin n} (hj : (s.worker j).holds = true)
    (hk : (s.worker k).holds = true) : j = k := by
  have hj' : Holds s (.worker j) := hj
  exact Thread.worker.inj (h.owned.unique hj' hk)

/-- A worker that holds the mutex keeps `cellmanager` and the signaler out. -/
theorem Inv.others_of_worker (h : Inv s) (hi : (s.worker i).holds = true) :
    s.manager.holds = false ∧ s.signaler.holds s.boolean = false := by
  have hholds : Holds s (.worker i) := hi
  constructor
  · rw [← Bool.not_eq_true]
    exact fun hm ↦ absurd (h.owned.unique (show Holds s .manager from hm) hholds) (by simp)
  · rw [← Bool.not_eq_true]
    exact fun hm ↦ absurd (h.owned.unique (show Holds s .signaler from hm) hholds) (by simp)

/-! ### Wake-ups -/

section Wake

variable (signaled : Bool) (point : WorkerPoint)

theorem holds_wake : (point.wake signaled).holds = point.holds := by
  cases point <;> rfl

theorem counted_wake : (point.wake signaled).counted = point.counted := by
  cases point <;> rfl

theorem acted_wake : (point.wake signaled).acted = point.acted := by
  cases point <;> rfl

theorem inWait_wake : (point.wake signaled).inWait = point.inWait := by
  cases point <;> rfl

theorem fits_wake (stage : Stage) : (point.wake signaled).fits stage = point.fits stage := by
  cases point <;> cases stage <;> rfl

theorem wake_eq_unborn : (point.wake signaled = .unborn) = (point = .unborn) := by
  cases point <;> simp

theorem wake_eq_wait : (point.wake signaled = .wait) = (point = .wait) := by
  cases point <;> simp

theorem atRisk_of_wake (h : (point.wake signaled).atRisk = true) : point.atRisk = true := by
  cases point <;> simp_all [WorkerPoint.atRisk]

end Wake

theorem wake_of_not_blocked {signaled : Bool} {set : Finset (Fin n)}
    (h : s.worker i ≠ .blocked) : (s.wake signaled set).worker i = s.worker i := by
  rcases wakeUp_eq_or (WorkerPoint.wake signaled) set s.worker i with heq | heq
  · exact heq
  · refine heq.trans ?_
    cases hpoint : s.worker i <;> simp_all

theorem atRisk_before_wake {signaled : Bool} {set : Finset (Fin n)}
    (h : ((s.wake signaled set).worker i).atRisk = true) : (s.worker i).atRisk = true := by
  rcases wakeUp_eq_or (WorkerPoint.wake signaled) set s.worker i with heq | heq
  · simpa only [State.wake, heq] using h
  · refine atRisk_of_wake signaled _ ?_
    simpa only [State.wake, heq] using h

theorem Calls.wake {signaled : Bool} {set : Finset (Fin n)} (h : Calls s i) :
    Calls (s.wake signaled set) i := by
  have hblocked : s.worker i ≠ .blocked := by
    intro hpoint
    simp [Calls, hpoint] at h
  unfold Calls
  rw [wake_of_not_blocked hblocked]
  exact h

/-- Unblocking workers keeps the invariant. -/
theorem Inv.wake (h : Inv s) (signaled : Bool) (set : Finset (Fin n)) :
    Inv (s.wake signaled set) where
  owned := h.owned.congr fun thread ↦ by
    cases thread with
    | manager | signaler => rfl
    | worker i => simp only [Holds, State.wake, apply_wakeUp (holds_wake signaled)]
  unset := h.unset
  set := h.set
  meets := h.meets
  locking := h.locking
  fits := fun i ↦ by
    simp only [State.wake, apply_wakeUp fun point ↦ fits_wake signaled point s.manager.stage]
    exact h.fits i
  unborn := fun i ↦ by
    simp only [State.wake,
      apply_wakeUp (f := fun point ↦ point = .unborn) fun point ↦ wake_eq_unborn signaled point]
    exact h.unborn i
  nodup := h.nodup
  count := fun hgather ↦ by
    have htotal : total WorkerPoint.counted (s.wake signaled set).worker =
        total WorkerPoint.counted s.worker :=
      Finset.sum_congr rfl fun i _ ↦ apply_wakeUp (counted_wake signaled) set s.worker i
    rw [htotal]
    exact h.count hgather
  seen := h.seen
  ready := fun hmanager i ↦ by
    simp only [State.wake, apply_wakeUp (counted_wake signaled)]
    exact h.ready hmanager i
  acted := fun i ↦ by
    simp only [State.wake, apply_wakeUp (acted_wake signaled)]
    exact h.acted i
  window := fun hrun i hwait j hne ↦ by
    simp only [State.wake, apply_wakeUp (inWait_wake signaled),
      apply_wakeUp (f := fun point ↦ point = .wait) fun point ↦ wake_eq_wait signaled point]
      at hwait ⊢
    exact h.window hrun i hwait j hne
  caller := fun hrun hsent hrisk ↦ by
    obtain ⟨i, hi⟩ := hrisk
    obtain ⟨j, hj⟩ := h.caller hrun hsent ⟨i, atRisk_before_wake hi⟩
    exact ⟨j, hj.wake⟩

/-! ### Steps of the workers -/

variable {old point : WorkerPoint}

/-- Assumes: a worker goes to another point that fits, and the mutex and the counter follow. -/
theorem Inv.move (h : Inv s) (hold : s.worker i = old) {mtx : Option (Thread n)} (count : ℕ)
    (hborn : old ≠ .unborn ∧ point ≠ .unborn)
    (hpass : Passes (.worker i) s.mtx old.holds point.holds mtx)
    (hfits : point.fits s.manager.stage = true)
    (hcount : s.manager.stage = .gather →
      count + old.counted = s.count + point.counted ∧ old.counted ≤ point.counted)
    (hseen : count = s.count ∨ old.holds = true)
    (hacted : point.acted = true → s.randval = some i)
    (hwindow : s.manager.stage = .run → point ≠ .wait ∧
      (point.inWait = true ∨ old.holds = true ∨ point.holds = true))
    (hcaller : s.manager.stage = .run → s.sent = true →
      (∃ j, ((s.goto i point).worker j).atRisk = true) → ∃ j, Calls (s.goto i point) j) :
    Inv { s.goto i point with mtx := mtx, count := count } where
  owned := owned_goto h.owned (hold ▸ hpass)
  unset := h.unset
  set := h.set
  meets := h.meets
  locking := h.locking
  fits := (forall_update_iff s.worker fun _ point ↦ point.fits _ = true).mpr
    ⟨hfits, fun j _ ↦ h.fits j⟩
  unborn := by
    refine (forall_update_iff s.worker fun j point ↦ point = .unborn ↔ _).mpr
      ⟨iff_of_false hborn.2 fun habsent ↦ ?_, fun j _ ↦ h.unborn j⟩
    exact hborn.1 (hold.symm.trans ((h.unborn i).mpr habsent))
  nodup := h.nodup
  count := fun hgather ↦ by
    have hmove := total_update WorkerPoint.counted s.worker i point
    have hbefore := h.count hgather
    have hafter := (hcount hgather).1
    rw [hold] at hmove
    simp only [State.goto]
    omega
  seen := fun k hmanager ↦ by
    have hbefore := h.seen k hmanager
    rcases hseen with heq | hheld
    · exact hbefore.trans heq.symm
    · have hmanager' : s.manager.holds = true := by
        rw [show s.manager = .unlock k from hmanager]
        rfl
      simp [(h.others_of_worker (hold ▸ hheld)).1] at hmanager'
  ready := fun hmanager ↦ by
    refine (forall_update_iff s.worker fun _ point ↦ point.counted = 1).mpr
      ⟨?_, fun j _ ↦ h.ready hmanager j⟩
    have hbefore := hold ▸ h.ready hmanager i
    have hle := (hcount (by rw [show s.manager = .setBoolean from hmanager]; rfl)).2
    cases point <;> simp_all
  acted := (forall_update_iff s.worker fun j point ↦ point.acted = true → _ = some j).mpr
    ⟨hacted, fun j _ ↦ h.acted j⟩
  window := fun hrun k hwait j hne ↦ by
    obtain ⟨hnot, hinWait⟩ := hwindow hrun
    have hki : k ≠ i := by
      intro heq
      simp only [State.goto, heq, update_self] at hwait
      exact hnot hwait
    simp only [State.goto, update_of_ne hki] at hwait ⊢
    by_cases heq : j = i
    · rw [heq, update_self]
      have hholds : (s.worker k).holds = true := by rw [hwait]; rfl
      rcases hinWait with hinWait | hheld | hafter
      · exact hinWait
      · exact absurd (h.unique hholds (hold ▸ hheld)) hki
      · -- Both would hold the mutex after the step.
        have hk : Holds (s.goto i point) (.worker k) := by
          rw [holds_goto, update_of_ne (by simpa using hki)]
          exact hholds
        have hi : Holds (s.goto i point) (.worker i) := by
          rw [holds_goto, update_self]
          exact hafter
        exact absurd ((owned_goto h.owned (hold ▸ hpass)).unique hk hi) (by simpa using hki)
    · rw [update_of_ne heq]
      exact h.window hrun k hwait j hne
  caller := hcaller

theorem calls_goto_of_ne {j : Fin n} (hne : j ≠ i) : Calls (s.goto i point) j ↔ Calls s j := by
  unfold Calls
  simp only [State.goto, update_of_ne hne]

/-- A step after which the worker is not newly at risk, and still comes to its broadcast if it did
before. -/
theorem Inv.caller_goto (h : Inv s) (hrisk : point.atRisk = true → (s.worker i).atRisk = true)
    (hcalls : Calls s i → Calls (s.goto i point) i) (hrun : s.manager.stage = .run)
    (hsent : s.sent = true) (hafter : ∃ j, ((s.goto i point).worker j).atRisk = true) :
    ∃ j, Calls (s.goto i point) j := by
  obtain ⟨j, hj⟩ := hafter
  have hbefore : ∃ j, (s.worker j).atRisk = true := by
    refine ⟨j, ?_⟩
    by_cases heq : j = i
    · subst heq
      simp only [State.goto, update_self] at hj
      exact hrisk hj
    · simpa only [State.goto, update_of_ne heq] using hj
  obtain ⟨k, hk⟩ := h.caller hrun hsent hbefore
  refine ⟨k, ?_⟩
  by_cases heq : k = i
  · subst heq
    exact hcalls hk
  · exact (calls_goto_of_ne heq).mpr hk

/-- The worker has been unblocked, or is about to broadcast. -/
@[simp] def WorkerPoint.calling : WorkerPoint → Bool
  | .woken _ | .test | .broadcast => true
  | _ => false

/-- What a worker that takes or returns the mutex does not change: it fits where it did, is not
newly at risk or cancelled, and comes to its broadcast if it did before. -/
def WorkerPoint.Onward (old point : WorkerPoint) : Prop :=
  (old ≠ .unborn ∧ point ≠ .unborn ∧ point ≠ .wait) ∧
    (old.fits .gather = true → point.fits .gather = true ∧ point.counted = old.counted) ∧
    (old.fits .run = true → point.fits .run = true) ∧ (point.acted = true → old.acted = true) ∧
    (point.atRisk = true → old.atRisk = true) ∧ (old.calling = true → point = .test)

instance (old point : WorkerPoint) : Decidable (old.Onward point) :=
  inferInstanceAs (Decidable (_ ∧ _))

theorem WorkerPoint.Onward.fits (h : old.Onward point) {stage : Stage}
    (hfits : old.fits stage = true) : point.fits stage = true := by
  cases stage with
  | outside => cases old <;> simp_all [WorkerPoint.Onward]
  | gather => exact (h.2.1 hfits).1
  | run => exact h.2.2.1 hfits

/-- A worker takes or returns the mutex. -/
theorem Inv.onward (h : Inv s) (hold : s.worker i = old) (honward : old.Onward point)
    {mtx : Option (Thread n)} (hpass : Passes (.worker i) s.mtx old.holds point.holds mtx)
    (hholds : old.holds = true ∨ point.holds = true) : Inv { s.goto i point with mtx := mtx } := by
  have hfits := hold ▸ h.fits i
  obtain ⟨⟨hborn, hpoint, hwait⟩, hgather, -, hacted, hrisk, hcalls⟩ := id honward
  refine h.move hold s.count ⟨hborn, hpoint⟩ hpass (honward.fits hfits) (fun hstage ↦ ?_)
    (.inl rfl) (fun hafter ↦ h.acted i (hold ▸ hacted hafter)) (fun _ ↦ ⟨hwait, .inr hholds⟩)
    (h.caller_goto (hold ▸ hrisk) fun hbefore ↦ ?_)
  · have hcounted := (hgather (hstage ▸ hfits)).2
    omega
  · have hcalling : old.calling = true := by
      simp only [Calls, hold] at hbefore
      cases old <;> simp_all
    simp [Calls, hcalls hcalling]

/-- A step of a worker to its wait, while `boolean` is not set. -/
theorem Inv.toWait (h : Inv s) (hgather : s.manager.stage = .gather) (hold : s.worker i = old)
    (hheld : old.holds = true) (count : ℕ)
    (hcount : count + old.counted = s.count + 1 ∧ old.counted ≤ 1) :
    Inv { s.goto i .wait with count := count } := by
  have hborn : old ≠ .unborn := by
    rintro rfl
    simp [WorkerPoint.holds] at hheld
  have hrun : s.manager.stage ≠ .run := by simp [hgather]
  exact h.move hold count ⟨hborn, by simp⟩ (.keep (by rw [hheld]; rfl)) (by rw [hgather]; rfl)
    (fun _ ↦ hcount) (.inr hheld) (by simp) (fun hstage ↦ absurd hstage hrun)
    fun hstage ↦ absurd hstage hrun

/-- A step of a worker that keeps or does not hold the mutex, while `boolean` is set. -/
theorem Inv.runs (h : Inv s) (hrun : s.manager.stage = .run) (hold : s.worker i = old)
    (hborn : old ≠ .unborn) (hfits : point.fits .run = true) (hwait : point ≠ .wait)
    (hholds : point.holds = old.holds) (hacted : point.acted = true → s.randval = some i)
    (hwindow : point.inWait = true ∨ point.holds = true)
    (hcaller : s.manager.stage = .run → s.sent = true →
      (∃ j, ((s.goto i point).worker j).atRisk = true) → ∃ j, Calls (s.goto i point) j) :
    Inv (s.goto i point) := by
  have hgather : s.manager.stage ≠ .gather := by simp [hrun]
  have hpoint : point ≠ .unborn := by
    rintro rfl
    simp [WorkerPoint.inWait, WorkerPoint.holds] at hwindow
  exact h.move hold s.count ⟨hborn, hpoint⟩ (.keep hholds) (hrun ▸ hfits)
    (fun hstage ↦ absurd hstage hgather) (.inl rfl) hacted
    (fun _ ↦ ⟨hwait, hwindow.imp_right .inr⟩) hcaller

/-- A worker broadcasts. Nobody is blocked then, and nobody else holds the mutex. -/
theorem Inv.broadcast (h : Inv s) (hpoint : s.worker i = .broadcast) :
    Inv ((s.wake false Finset.univ).goto i .unlock) := by
  have hwake : (s.wake false Finset.univ).worker i = .broadcast := by
    rw [wake_of_not_blocked (by simp [hpoint]), hpoint]
  have hholds : (s.worker i).holds = true := by rw [hpoint]; rfl
  have hrun : s.manager.stage = .run := by
    have hfits := h.fits i
    cases hstage : s.manager.stage <;> simp_all
  refine (h.wake false Finset.univ).runs hrun hwake (by simp) rfl (by simp) rfl (by simp) (.inr rfl)
    ?_
  rintro - - ⟨j, hj⟩
  exfalso
  by_cases heq : j = i
  · subst heq
    simp [WorkerPoint.atRisk] at hj
  · simp only [State.goto, update_of_ne heq, State.wake, wakeUp, Finset.mem_univ, if_true] at hj
    have hwait : s.worker j = .wait := by
      cases hj' : s.worker j <;> simp_all [WorkerPoint.atRisk]
    exact heq (h.unique (by rw [hwait]; rfl) hholds)

theorem Inv.worker (h : Inv s) (hstep : worker s i = some s') : Inv s' := by
  have hfits := h.fits i
  unfold Cancel.worker at hstep
  cases hpoint : s.worker i <;> simp only [hpoint, reduceCtorEq] at hstep
  case lock =>
    obtain ⟨hfree, rfl⟩ := map_mutexLock_eq_some_iff.mp hstep
    exact h.onward hpoint (by decide) (.take hfree rfl) (.inr rfl)
  case incr =>
    cases hstep
    have hgather : s.manager.stage = .gather := by
      cases hstage : s.manager.stage <;> simp_all
    exact h.toWait hgather hpoint rfl (s.count + 1) ⟨rfl, by simp⟩
  case wait =>
    split_ifs at hstep with hpending
    · -- Entering the wait is a cancellation point, and the mutex is held there.
      cases hstep
      have hgather : s.manager.stage ≠ .gather := fun hgather ↦ by
        simp [State.isPending, (h.unset hgather).2] at hpending
      have hrun : s.manager.stage = .run := by
        cases hstage : s.manager.stage <;> simp_all
      exact h.runs hrun hpoint (by simp) rfl (by simp) rfl (fun _ ↦ hpending.2) (.inr rfl)
        (h.caller_goto (by simp [WorkerPoint.atRisk]) (by simp [Calls, hpoint]))
    · cases hstep
      exact h.onward hpoint (by decide) (.drop rfl rfl) (.inl rfl)
  case woken signaled =>
    obtain ⟨hfree, rfl⟩ := map_mutexLock_eq_some_iff.mp hstep
    exact h.onward hpoint (by cases signaled <;> decide) (.take hfree rfl) (.inr rfl)
  case test =>
    cases hstep
    split_ifs with hzero
    · have hgather : s.manager.stage = .gather := by
        have hset := h.set
        cases hstage : s.manager.stage <;> simp_all
      exact h.toWait hgather hpoint rfl s.count ⟨rfl, by simp⟩
    · have hrun : s.manager.stage = .run := by
        have hunset := h.unset
        cases hstage : s.manager.stage <;> simp_all
      exact h.runs hrun hpoint (by simp) rfl (by simp) rfl (by simp) (.inr rfl)
        (h.caller_goto (by simp [WorkerPoint.atRisk]) (by simp [Calls]))
  case broadcast =>
    cases hstep
    exact h.broadcast hpoint
  case unlock | cleanup =>
    cases hstep
    exact h.onward hpoint (by decide) (.drop rfl rfl) (.inl rfl)
  case canceling =>
    obtain ⟨hfree, rfl⟩ := map_mutexLock_eq_some_iff.mp hstep
    exact h.onward hpoint (by decide) (.take hfree rfl) (.inr rfl)

/-! ### The signal and the cancellation -/

/-- While nobody is blocked and one worker is about to wait, a third worker has been unblocked. -/
theorem Inv.exists_woken (h : Inv s) (hn : 3 ≤ n) (hrun : s.manager.stage = .run)
    (hnone : ∀ j, s.worker j ≠ .blocked) (hwait : s.worker i = .wait) :
    ∃ j signaled, s.worker j = .woken signaled ∧ s.randval ≠ some j := by
  have hcard :
      ({i, s.randval.getD i} : Finset (Fin n)).card < (Finset.univ : Finset (Fin n)).card := by
    have htwo := Finset.card_le_two (a := i) (b := s.randval.getD i)
    rw [Finset.card_univ, Fintype.card_fin]
    omega
  obtain ⟨j, -, hj⟩ := Finset.exists_mem_notMem_of_card_lt_card hcard
  simp only [Finset.mem_insert, Finset.mem_singleton, not_or] at hj
  have hrandval : s.randval ≠ some j := by
    intro heq
    rw [heq] at hj
    exact hj.2 rfl
  have hinWait := h.window hrun i hwait j hj.1
  cases hpoint : s.worker j with
  | woken signaled => exact ⟨j, signaled, hpoint, hrandval⟩
  | blocked => exact absurd hpoint (hnone j)
  | canceling => exact absurd (h.acted j (by rw [hpoint]; rfl)) hrandval
  | _ => simp [hpoint, WorkerPoint.inWait] at hinWait

/-- Whoever gets the signal comes to a broadcast; if nobody does, the third worker does. -/
theorem Inv.caller_of_signal (h : Inv s) (hn : 3 ≤ n) {set : Finset (Fin n)}
    (hset : Signals WorkerPoint.isBlocked s.worker set) (hrun : s.manager.stage = .run)
    (hrisk : ∃ j, (s.worker j).atRisk = true) :
    ∃ k, Calls (s.wake true set) k ∧ (s.worker k = .blocked ∨ s.randval ≠ some k) := by
  by_cases hsome : ∃ j, (s.worker j).isBlocked = true
  · obtain ⟨k, hk⟩ := hset.2 hsome
    have hblocked : s.worker k = .blocked := by
      have hk' := hset.1 k hk
      cases hpoint : s.worker k <;> simp_all [WorkerPoint.isBlocked]
    refine ⟨k, ?_, .inl hblocked⟩
    simp [Calls, State.wake, wakeUp, hk, hblocked]
  · have hnone : ∀ j, s.worker j ≠ .blocked := by
      intro j hj
      exact hsome ⟨j, by rw [hj]; rfl⟩
    obtain ⟨j, hj⟩ := hrisk
    have hwait : s.worker j = .wait := by
      cases hpoint : s.worker j <;> simp_all [WorkerPoint.atRisk]
    obtain ⟨k, signaled, hk, hrandval⟩ := h.exists_woken hn hrun hnone hwait
    refine ⟨k, Calls.wake ?_, .inr hrandval⟩
    simp [Calls, hk, hrandval]

/-- The worker acts on its cancellation in the wait. -/
theorem Inv.cancel (h : Inv s) (hpending : s.pending = true) (hrandval : s.randval = some i)
    (hinWait : (s.worker i).inWait = true)
    (hcaller : s.manager.stage = .run → s.sent = true →
      (∃ j, ((s.goto i .canceling).worker j).atRisk = true) → ∃ j, Calls (s.goto i .canceling) j) :
    Inv (s.goto i .canceling) := by
  have hfits := h.fits i
  have hunset := h.unset
  have hrun : s.manager.stage = .run := by
    cases hstage : s.manager.stage <;> cases hpoint : s.worker i <;>
      simp_all [WorkerPoint.inWait]
  have hpoint : s.worker i ≠ .unborn ∧ (s.worker i).holds = false := by
    cases hpoint : s.worker i <;> simp_all [WorkerPoint.inWait, WorkerPoint.holds]
  exact h.runs hrun rfl hpoint.1 rfl (by simp) hpoint.2.symm (fun _ ↦ hrandval) (.inl rfl) hcaller

theorem Inv.act (h : Inv s) (hn : 3 ≤ n) {set : Finset (Fin n)} (hstep : act s set = some s') :
    Inv s' := by
  unfold Cancel.act at hstep
  cases hrandval : s.randval with
  | none => simp [hrandval] at hstep
  | some i =>
    simp only [hrandval, Option.ite_none_right_eq_some] at hstep
    obtain ⟨hpending, hstep⟩ := hstep
    cases hpoint : s.worker i with
    | blocked =>
      simp only [hpoint, Option.ite_none_right_eq_some, Option.some.injEq] at hstep
      obtain ⟨-, rfl⟩ := hstep
      exact h.cancel hpending hrandval (by rw [hpoint]; rfl)
        (h.caller_goto (by simp [WorkerPoint.atRisk]) (by simp [Calls, hpoint]))
    | woken signaled =>
      cases signaled with
      | false =>
        simp only [hpoint, Option.ite_none_right_eq_some, Option.some.injEq] at hstep
        obtain ⟨-, rfl⟩ := hstep
        exact h.cancel hpending hrandval (by rw [hpoint]; rfl)
          (h.caller_goto (by simp [WorkerPoint.atRisk]) (by simp [Calls, hpoint, hrandval]))
      | true =>
        simp only [hpoint, Option.ite_none_right_eq_some, Option.some.injEq] at hstep
        obtain ⟨hset, rfl⟩ := hstep
        have hwake : (s.wake true set).worker i = .woken true := by
          rw [wake_of_not_blocked (by simp [hpoint]), hpoint]
        refine (h.wake true set).cancel hpending hrandval (by rw [hwake]; rfl) ?_
        rintro hrun - ⟨j, hj⟩
        -- The worker that is cancelled is not at risk, and it is not the one that will call.
        have hji : j ≠ i := by
          intro heq
          simp [heq, WorkerPoint.atRisk] at hj
        simp only [State.goto, update_of_ne hji] at hj
        obtain ⟨k, hk, hother⟩ := h.caller_of_signal hn hset hrun ⟨j, atRisk_before_wake hj⟩
        have hki : k ≠ i := by
          rintro rfl
          rcases hother with hblocked | hne
          · simp [hpoint] at hblocked
          · exact hne hrandval
        exact ⟨k, (calls_goto_of_ne hki).mpr hk⟩
    | _ => simp [hpoint] at hstep

theorem Inv.spurious (h : Inv s) (hstep : spurious s i = some s') : Inv s' := by
  obtain ⟨-, ⟨⟩⟩ := Option.ite_none_right_eq_some.mp hstep
  exact h.wake false {i}

end OpenPosix.CondVars.Cancel

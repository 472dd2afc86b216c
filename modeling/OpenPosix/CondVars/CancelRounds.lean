import OpenPosix.CondVars.CancelInvariant

/-!
# The rounds of `cellmanager`

The steps of `cellmanager` and of the signaler keep the invariant: a round starts with every worker
unborn, `boolean` is set when all workers have counted themselves, both threads leave the barrier
together, and a round ends with every worker joined. Together with the steps of the workers this
gives the invariant on every run.
-/

namespace OpenPosix.CondVars.Cancel

open Interleaving Function

variable {n : ℕ} {s s' : State n} {i : Fin n}

attribute [simp] WorkerPoint.holds State.waiting WorkerPoint.ended

/-! ### The signaler -/

/-- Assumes: `cellmanager` and the signaler go on in the same stage, and no worker does. -/
theorem Inv.goOn (h : Inv s) (manager : ManagerPoint n) (signaler : SignalerPoint)
    (mtx : Option (Thread n)) (pending : Bool) (hstage : manager.stage = s.manager.stage)
    (howned : Owned mtx (Holds { s with manager := manager, signaler := signaler }))
    (hpending : s.manager.stage = .gather → pending = s.pending)
    (hmeets : manager.meets signaler = true)
    (hlocking : signaler = .lock ∨ signaler = .unlock → s.boolean = .locking)
    (habsent : ∀ i, manager.absent i ↔ s.manager.absent i) (hnodup : manager.rest.Nodup)
    (hseen : ∀ i, manager = .unlock i → i = s.count)
    (hready : manager = .setBoolean → ∀ i, (s.worker i).counted = 1)
    (hcaller : s.manager.stage = .run →
      State.sent { s with manager := manager, signaler := signaler } = true →
      (∃ j, (s.worker j).atRisk = true) → ∃ j, Calls s j) :
    Inv { s with manager := manager, signaler := signaler, mtx := mtx, pending := pending } where
  owned := howned
  unset := fun hgather ↦ by
    have hgather' := hstage.symm.trans hgather
    exact ⟨(h.unset hgather').1, (hpending hgather').trans (h.unset hgather').2⟩
  set := fun hrun ↦ h.set (hstage.symm.trans hrun)
  meets := hmeets
  locking := hlocking
  fits := fun i ↦ by
    simp only [hstage]
    exact h.fits i
  unborn := fun i ↦ (h.unborn i).trans (habsent i).symm
  nodup := hnodup
  count := fun hgather ↦ h.count (hstage.symm.trans hgather)
  seen := hseen
  ready := hready
  acted := h.acted
  window := fun hrun ↦ h.window (hstage.symm.trans hrun)
  caller := fun hrun ↦ hcaller (hstage.symm.trans hrun)

/-- Neither `cellmanager` nor the signaler takes or returns the mutex. -/
theorem Inv.owned_congr (h : Inv s) {manager : ManagerPoint n} {signaler : SignalerPoint}
    {boolean : Flag} (hmanager : manager.holds = s.manager.holds)
    (hsignaler : signaler.holds boolean = s.signaler.holds s.boolean) :
    Owned s.mtx (Holds { s with
      manager := manager, signaler := signaler, boolean := boolean }) := by
  refine h.owned.congr fun thread ↦ ?_
  cases thread with
  | worker i => rfl
  | manager => simp [Holds, hmanager]
  | signaler => simp [Holds, hsignaler]

/-- Both return from the barrier, and neither holds the mutex more or less than before. -/
theorem Inv.meet (h : Inv s) (hpoints : (s.manager = .waiting ∧ s.signaler = .barrier) ∨
      (s.manager = .barrier ∧ s.signaler = .waiting)) :
    Inv { s with manager := .cancel, signaler := .signal } := by
  obtain ⟨hm, hg⟩ | ⟨hm, hg⟩ := hpoints
  all_goals
    exact h.goOn .cancel .signal s.mtx s.pending (by rw [hm]; rfl)
      (h.owned_congr (by rw [hm]; rfl) (by rw [hg]; rfl)) (fun _ ↦ rfl) rfl (by simp)
      (by simp [hm, ManagerPoint.stage]) List.nodup_nil (by simp) (by simp) (by simp)

/-- The signaler before the barrier, and after the signal. -/
inductive SignalerPoint.Alike : SignalerPoint → SignalerPoint → Prop
  | start_lock : Alike .start .lock
  | start_barrier : Alike .start .barrier
  | lock_barrier : Alike .lock .barrier
  | finish_unlock : Alike .finish .unlock
  | finish_returned : Alike .finish .returned
  | unlock_returned : Alike .unlock .returned

theorem owned_signaler (h : Owned s.mtx (Holds s)) {point : SignalerPoint} {mtx : Option (Thread n)}
    (hpass : Passes .signaler s.mtx (s.signaler.holds s.boolean) (point.holds s.boolean) mtx) :
    Owned mtx (Holds { s with signaler := point }) := by
  have hholds : Holds { s with signaler := point } =
      update (Holds s) .signaler (point.holds s.boolean = true) := by
    ext1 thread
    cases thread <;> simp [Holds]
  rw [hholds]
  exact h.pass Iff.rfl hpass

theorem Inv.signalerGoto (h : Inv s) {point : SignalerPoint} {mtx : Option (Thread n)}
    (hpass : Passes .signaler s.mtx (s.signaler.holds s.boolean) (point.holds s.boolean) mtx)
    (hmeets : s.manager.meets point = true)
    (hlocking : point = .lock ∨ point = .unlock → s.boolean = .locking)
    (hsent : State.sent { s with signaler := point } = s.sent) :
    Inv { s with signaler := point, mtx := mtx } :=
  h.goOn s.manager point mtx s.pending rfl (owned_signaler h.owned hpass) (fun _ ↦ rfl) hmeets
    hlocking (fun _ ↦ Iff.rfl) h.nodup h.seen h.ready
    fun hrun hafter ↦ h.caller hrun (hsent.symm.trans hafter)

/-- A step of the signaler on one side of the barrier and of the signal. -/
theorem Inv.signalerStep (h : Inv s) {old point : SignalerPoint} (hold : s.signaler = old)
    (halike : old.Alike point) {mtx : Option (Thread n)}
    (hpass : Passes .signaler s.mtx (old.holds s.boolean) (point.holds s.boolean) mtx)
    (hlocking : point = .lock ∨ point = .unlock → s.boolean = .locking) :
    Inv { s with signaler := point, mtx := mtx } := by
  have hmeets := hold ▸ h.meets
  refine h.signalerGoto (hold ▸ hpass) ?_ hlocking ?_
  · cases halike <;> cases hm : s.manager <;> simp_all
  · cases halike <;> cases hm : s.manager <;> simp_all

theorem Inv.signaler (h : Inv s) (hstep : signaler s = some s') : Inv s' := by
  unfold Cancel.signaler at hstep
  cases hpoint : s.signaler <;> simp only [hpoint, reduceCtorEq] at hstep
  case start =>
    cases hstep
    split_ifs with hlocking
    · exact h.signalerStep hpoint .start_lock (.keep rfl) fun _ ↦ hlocking
    · exact h.signalerStep hpoint .start_barrier (.keep (by simp [SignalerPoint.holds, hlocking]))
        (by simp)
  case lock =>
    obtain ⟨hfree, rfl⟩ := map_mutexLock_eq_some_iff.mp hstep
    have hlocking := h.locking (.inl hpoint)
    exact h.signalerStep hpoint .lock_barrier
      (.take hfree (by simp [SignalerPoint.holds, hlocking])) (by simp)
  case barrier =>
    have hmeets := h.meets
    split_ifs at hstep with hcompletes
    · have hm : s.manager = .waiting := by
        by_contra hne
        simp [Completes, hpoint, hne] at hcompletes
      cases hstep
      simpa only [State.release, hm, if_true] using h.meet (.inl ⟨hm, hpoint⟩)
    · cases hstep
      have hm : s.manager = .barrier := by
        cases hm : s.manager <;> simp_all [Completes]
      exact h.signalerGoto (.keep (by rw [hpoint]; rfl)) (by rw [hm]; rfl) (by simp)
        (by simp [hm, hpoint])
  case finish =>
    cases hstep
    split_ifs with hlocking
    · exact h.signalerStep hpoint .finish_unlock (.keep (by simp [SignalerPoint.holds, hlocking]))
        fun _ ↦ hlocking
    · exact h.signalerStep hpoint .finish_returned (.keep (by simp [SignalerPoint.holds, hlocking]))
        (by simp)
  case unlock =>
    cases hstep
    exact h.signalerStep hpoint .unlock_returned (.drop rfl rfl) (by simp)

theorem Inv.signal (h : Inv s) (hn : 3 ≤ n) {set : Finset (Fin n)}
    (hstep : signal s set = some s') : Inv s' := by
  obtain ⟨⟨hpoint, hset⟩, ⟨⟩⟩ := Option.ite_none_right_eq_some.mp hstep
  have hwake := h.wake true set
  refine hwake.goOn s.manager .finish s.mtx s.pending rfl (owned_signaler hwake.owned (.keep ?_))
    (fun _ ↦ rfl) ?_ (by simp) (fun _ ↦ Iff.rfl) h.nodup h.seen hwake.ready ?_
  · have hpoint' : (s.wake true set).signaler = .signal := hpoint
    simp [hpoint', SignalerPoint.holds]
  · have hmeets := h.meets
    cases hm : s.manager <;> simp_all
  · rintro hrun - ⟨j, hj⟩
    obtain ⟨k, hk, -⟩ := h.caller_of_signal hn hset hrun ⟨j, atRisk_before_wake hj⟩
    exact ⟨k, hk⟩

/-! ### `cellmanager` -/

theorem owned_manager (h : Owned s.mtx (Holds s)) {point : ManagerPoint n}
    {mtx : Option (Thread n)} (hpass : Passes .manager s.mtx s.manager.holds point.holds mtx) :
    Owned mtx (Holds { s with manager := point }) := by
  have hholds : Holds { s with manager := point } =
      update (Holds s) .manager (point.holds = true) := by
    ext1 thread
    cases thread <;> simp [Holds]
  rw [hholds]
  exact h.pass Iff.rfl hpass

/-- A step of `cellmanager` alone, in the same stage. -/
theorem Inv.managerGoto (h : Inv s) {point : ManagerPoint n} {mtx : Option (Thread n)}
    (hstage : point.stage = s.manager.stage)
    (hpass : Passes .manager s.mtx s.manager.holds point.holds mtx)
    (hmeets : point.meets s.signaler = true) (habsent : ∀ i, point.absent i ↔ s.manager.absent i)
    (hnodup : point.rest.Nodup) (hseen : ∀ i, point = .unlock i → i = s.count)
    (hready : point = .setBoolean → ∀ i, (s.worker i).counted = 1)
    (hsent : s.manager.stage = .run → State.sent { s with manager := point } = true →
      s.sent = true) :
    Inv { s with manager := point, mtx := mtx } :=
  h.goOn point s.signaler mtx s.pending hstage (owned_manager h.owned hpass) (fun _ ↦ rfl) hmeets
    h.locking habsent hnodup hseen hready fun hrun hafter ↦ h.caller hrun (hsent hrun hafter)

/-- The counter has reached the number of workers, so each of them has counted itself. -/
theorem Inv.all_counted (h : Inv s) (hgather : s.manager.stage = .gather) (hn : n ≤ s.count)
    (i : Fin n) : (s.worker i).counted = 1 := by
  have hle : ∀ j : Fin n, (s.worker j).counted ≤ 1 := fun j ↦ by
    cases s.worker j <;> simp
  refine eq_one_of_total_eq_card hle (le_antisymm (total_le_card hle) ?_) i
  rw [Fintype.card_fin, ← h.count hgather]
  exact hn

/-- The points at which `boolean` is not set, and all workers exist or none. -/
def ManagerPoint.idle : ManagerPoint n → Bool
  | .loop | .reset | .create [] | .choose | .lock | .read | .unlock _ | .setBoolean
  | .returned => true
  | _ => false

theorem ManagerPoint.of_idle {point : ManagerPoint n} (h : point.idle = true) :
    point.stage ≠ .run ∧ point.rest = [] ∧ (∀ i, point.absent i ↔ point.stage = .outside) ∧
      ∀ signaler, point.meets signaler = true ↔ signaler = .unborn := by
  cases point with
  | create rest =>
    cases rest <;> simp_all [ManagerPoint.idle, ManagerPoint.stage, ManagerPoint.rest]
  | _ => simp_all [ManagerPoint.idle, ManagerPoint.stage, ManagerPoint.rest]

theorem Inv.signaler_unborn (h : Inv s) (hidle : s.manager.idle = true) : s.signaler = .unborn :=
  ((ManagerPoint.of_idle hidle).2.2.2 _).mp h.meets

theorem Inv.reset (h : Inv s) (hpoint : s.manager = .reset) : Inv { s with
      boolean := .zero, count := 0, pending := false, manager := .create (List.finRange n) } := by
  have hsignaler := h.signaler_unborn (by rw [hpoint]; rfl)
  refine inv_of_empty (fun i ↦ ?_) hsignaler
    (h.owned_congr (by rw [hpoint]; rfl) (by rw [hsignaler]; rfl)) (.inr ⟨rfl, rfl, rfl, rfl⟩)
  exact (h.unborn i).mpr (by simp [hpoint, ManagerPoint.stage])

/-- `boolean` is set: the workers that do not hold the mutex are in the wait. -/
theorem Inv.setBoolean (h : Inv s) (hpoint : s.manager = .setBoolean) {boolean : Flag}
    (hboolean : boolean ≠ .zero) :
    Inv { s with boolean := boolean, manager := .createSignaler } := by
  have hsignaler := h.signaler_unborn (by rw [hpoint]; rfl)
  have hcounted := h.ready hpoint
  exact {
    owned := h.owned_congr (by rw [hpoint]; rfl) (by rw [hsignaler]; rfl)
    unset := by simp [ManagerPoint.stage]
    set := fun _ ↦ hboolean
    meets := by simp [hsignaler]
    locking := by simp [hsignaler]
    fits := fun i ↦ by
      have hi := hcounted i
      cases hpoint : s.worker i <;>
        simp_all [ManagerPoint.stage]
    unborn := fun i ↦ by
      rw [h.unborn i, hpoint]
      simp [ManagerPoint.stage]
    nodup := List.nodup_nil
    count := by simp [ManagerPoint.stage]
    seen := by simp
    ready := by simp
    acted := h.acted
    window := fun _ i hwait j hne ↦ by
      have hj := hcounted j
      have hholds : (s.worker i).holds = true := by
        rw [show s.worker i = .wait from hwait]
        rfl
      cases hpoint : s.worker j with
      | blocked | woken => rfl
      | wait | test => exact absurd (h.unique (by rw [hpoint]; rfl) hholds) hne
      | _ => simp [hpoint] at hj
    caller := by simp [hsignaler] }

/-- A worker is created, or one that has ended is joined. -/
theorem Inv.launch (h : Inv s) {manager : ManagerPoint n} {point : WorkerPoint}
    (hstage : manager.stage = s.manager.stage)
    (hmanager : manager.holds = s.manager.holds) (hholds : point.holds = (s.worker i).holds)
    (hmeets : manager.meets s.signaler = true) (hfits : point.fits s.manager.stage = true)
    (habsent : ∀ j, j ≠ i → (manager.absent j ↔ s.manager.absent j))
    (hunborn : point = .unborn ↔ manager.absent i) (hnodup : manager.rest.Nodup)
    (hcount : s.manager.stage = .gather → point.counted = (s.worker i).counted)
    (hrest : ∀ k, manager ≠ .unlock k) (hready : manager ≠ .setBoolean)
    (hacted : point.acted = false)
    (hwindow : s.manager.stage = .run → point ≠ .wait ∧ (s.worker i).inWait = false)
    (hsent : State.sent { s with manager := manager } = true → s.sent = true)
    (hcaller : s.manager.stage = .run → point.atRisk = false ∧ ¬ Calls s i) :
    Inv { s.goto i point with manager := manager } where
  owned := by
    have hgoto := owned_goto h.owned (.keep hholds)
    exact owned_manager (s := s.goto i point) hgoto (.keep hmanager)
  unset := fun hgather ↦ h.unset (hstage.symm.trans hgather)
  set := fun hrun ↦ h.set (hstage.symm.trans hrun)
  meets := hmeets
  locking := h.locking
  fits := by
    rw [hstage]
    exact (forall_update_iff s.worker fun _ point ↦ point.fits _ = true).mpr
      ⟨hfits, fun j _ ↦ h.fits j⟩
  unborn := (forall_update_iff s.worker fun j point ↦ point = .unborn ↔ _).mpr
    ⟨hunborn, fun j hj ↦ (h.unborn j).trans (habsent j hj).symm⟩
  nodup := hnodup
  count := fun hgather ↦ by
    have hgather' := hstage.symm.trans hgather
    have hmove := total_update WorkerPoint.counted s.worker i point
    have hbefore := h.count hgather'
    have hsame := hcount hgather'
    simp only [State.goto]
    omega
  seen := fun k hk ↦ absurd hk (hrest k)
  ready := fun hk ↦ absurd hk hready
  acted := (forall_update_iff s.worker fun j point ↦ point.acted = true → _ = some j).mpr
    ⟨fun hafter ↦ absurd (hacted.symm.trans hafter) (by simp), fun j _ ↦ h.acted j⟩
  window := fun hrun k hwait j hne ↦ by
    obtain ⟨hnot, hout⟩ := hwindow (hstage.symm.trans hrun)
    have hki : k ≠ i := by
      intro heq
      simp only [State.goto, heq, update_self] at hwait
      exact hnot hwait
    simp only [State.goto, update_of_ne hki] at hwait ⊢
    have hbefore := h.window (hstage.symm.trans hrun) k hwait
    have hji : j ≠ i := by
      rintro rfl
      simp [hbefore j hne] at hout
    rw [update_of_ne hji]
    exact hbefore j hne
  caller := fun hrun hafter hrisk ↦ by
    have hrun' := hstage.symm.trans hrun
    obtain ⟨hsafe, hnot⟩ := hcaller hrun'
    exact h.caller_goto (by simp [hsafe]) (fun hcalls ↦ absurd hcalls hnot) hrun' (hsent hafter)
      hrisk

theorem Inv.create (h : Inv s) {rest : List (Fin n)} (hpoint : s.manager = .create (i :: rest)) :
    Inv { s.goto i .lock with manager := .create rest } := by
  have hnodup := h.nodup
  rw [hpoint] at hnodup
  obtain ⟨hout, hrest⟩ := List.nodup_cons.mp hnodup
  have hunborn : s.worker i = .unborn := by
    rw [h.unborn i, hpoint]
    exact List.mem_cons_self
  have hmeets := h.meets
  rw [hpoint] at hmeets
  have hgather : s.manager.stage = .gather := by rw [hpoint]; rfl
  refine h.launch (by rw [hgather]; rfl) (by rw [hpoint]; rfl) (by rw [hunborn]; rfl) hmeets
    (by rw [hgather]; rfl) (fun j hne ↦ ?_) (by simp [hout]) hrest
    (by simp [hunborn]) (by simp) (by simp) rfl (by simp [hgather]) ?_
    (by simp [hgather])
  · simp [hpoint, hne]
  · cases hsignaler : s.signaler <;> simp [hpoint, hsignaler]

theorem Inv.join (h : Inv s) {rest : List (Fin n)} (hpoint : s.manager = .join (i :: rest))
    (hended : (s.worker i).ended = true) :
    Inv { s.goto i .unborn with manager := .join rest } := by
  have hnodup := h.nodup
  rw [hpoint] at hnodup
  obtain ⟨hout, hrest⟩ := List.nodup_cons.mp hnodup
  have hmeets := h.meets
  rw [hpoint] at hmeets
  have hrun : s.manager.stage = .run := by rw [hpoint]; rfl
  refine h.launch (by rw [hrun]; rfl) (by rw [hpoint]; rfl) ?_ hmeets (by rw [hrun]; rfl)
    (fun j hne ↦ ?_) (by simp [hout]) hrest (by simp [hrun]) (by simp)
    (by simp) rfl (fun _ ↦ ⟨by simp, ?_⟩) (by simp [hpoint]) (fun _ ↦ ⟨rfl, ?_⟩)
  · cases hworker : s.worker i <;> simp_all
  · simp [hpoint, hne]
  · cases hworker : s.worker i <;> simp_all [WorkerPoint.inWait]
  · cases hworker : s.worker i <;> simp_all [Calls]

/-- A round ends, with every worker joined. -/
theorem Inv.over (h : Inv s) (hpoint : s.manager = .join []) : Inv { s with manager := .loop } := by
  have hsignaler : s.signaler = .unborn := by simpa [hpoint] using h.meets
  refine inv_of_empty (fun i ↦ ?_) hsignaler (owned_manager h.owned (.keep (by rw [hpoint]; rfl)))
    (.inl rfl)
  exact (h.unborn i).mpr (by simp [hpoint])

/-- A step of `cellmanager` alone in the same stage, while `boolean` is not set. -/
theorem Inv.managerIdle (h : Inv s) {old : ManagerPoint n} (hold : s.manager = old)
    (point : ManagerPoint n) (hidle : old.idle = true ∧ point.idle = true)
    (hstage : point.stage = old.stage) {mtx : Option (Thread n)}
    (hpass : Passes .manager s.mtx old.holds point.holds mtx)
    (hseen : ∀ i, point = .unlock i → i = s.count)
    (hready : point = .setBoolean → ∀ i, (s.worker i).counted = 1) :
    Inv { s with manager := point, mtx := mtx } := by
  subst hold
  obtain ⟨hrun, -, hbefore, -⟩ := ManagerPoint.of_idle hidle.1
  obtain ⟨-, hrest, hafter, hmeets⟩ := ManagerPoint.of_idle hidle.2
  refine h.managerGoto hstage hpass ((hmeets _).mpr (h.signaler_unborn hidle.1)) (fun i ↦ ?_)
    (hrest ▸ List.nodup_nil) hseen hready fun hstage ↦ absurd hstage hrun
  rw [hafter, hbefore, hstage]

/-- `cellmanager` returns the mutex, and goes on if it has read that all workers have counted
themselves. -/
theorem Inv.managerUnlock (h : Inv s) {k : ℕ} (hpoint : s.manager = .unlock k) :
    Inv { s with manager := if k < n then .lock else .setBoolean, mtx := none } := by
  have hseen := h.seen k hpoint
  split_ifs with hless
  · exact h.managerIdle hpoint .lock ⟨rfl, rfl⟩ rfl (.drop rfl rfl) (by simp) (by simp)
  · exact h.managerIdle hpoint .setBoolean ⟨rfl, rfl⟩ rfl (.drop rfl rfl) (by simp)
      fun _ ↦ h.all_counted (by rw [hpoint]; rfl) (by omega)

theorem Inv.createSignaler (h : Inv s) (hpoint : s.manager = .createSignaler) :
    Inv { s with signaler := .start, manager := .barrier } := by
  have hsignaler : s.signaler = .unborn := by simpa [hpoint] using h.meets
  exact h.goOn .barrier .start s.mtx s.pending (by rw [hpoint]; rfl)
    (h.owned_congr (by rw [hpoint]; rfl) (by rw [hsignaler]; rfl)) (fun _ ↦ rfl) rfl (by simp)
    (by simp [hpoint, ManagerPoint.stage]) List.nodup_nil (by simp) (by simp) (by simp)

theorem Inv.managerBarrier (h : Inv s) (hpoint : s.manager = .barrier)
    (hstep : (if Completes 2 s.waiting then some { s.release with manager := .cancel }
      else some { s with manager := .waiting }) = some s') : Inv s' := by
  have hmeets := h.meets
  split_ifs at hstep with hcompletes
  · have hsignaler : s.signaler = .waiting := by
      by_contra hne
      simp [Completes, hpoint, hne] at hcompletes
    cases hstep
    simpa only [State.release, hsignaler, if_true] using h.meet (.inr ⟨hpoint, hsignaler⟩)
  · cases hstep
    refine h.managerGoto (by rw [hpoint]; rfl) (.keep (by rw [hpoint]; rfl)) ?_
      (by simp [hpoint, ManagerPoint.stage]) List.nodup_nil (by simp) (by simp) ?_
    · cases hsignaler : s.signaler <;> simp_all [Completes]
    · cases hsignaler : s.signaler <;> simp [hpoint, hsignaler]

theorem Inv.managerCancel (h : Inv s) (hpoint : s.manager = .cancel) :
    Inv { s with pending := true, manager := .joinSignaler } := by
  have hmeets := h.meets
  have hmeets' : ManagerPoint.meets (n := n) .joinSignaler s.signaler = true := by
    cases hsignaler : s.signaler <;> simp_all
  have hrun : s.manager.stage = .run := by rw [hpoint]; rfl
  refine h.goOn .joinSignaler s.signaler s.mtx true (by rw [hpoint]; rfl)
    (owned_manager h.owned (.keep (by rw [hpoint]; rfl))) (by simp [hrun]) hmeets' h.locking
    (by simp [hpoint, ManagerPoint.stage]) List.nodup_nil (by simp) (by simp)
    fun _ hafter ↦ h.caller hrun ?_
  cases hsignaler : s.signaler <;> simp_all

theorem Inv.joinSignaler (h : Inv s) (hpoint : s.manager = .joinSignaler)
    (hsignaler : s.signaler = .returned) :
    Inv { s with signaler := .unborn, manager := .join (List.finRange n) } :=
  h.goOn (.join (List.finRange n)) .unborn s.mtx s.pending (by rw [hpoint]; rfl)
    (h.owned_congr (by rw [hpoint]; rfl) (by rw [hsignaler]; rfl)) (fun _ ↦ rfl) rfl (by simp)
    (by simp [hpoint, ManagerPoint.stage]) (List.nodup_finRange n) (by simp) (by simp)
    fun hrun _ ↦ h.caller hrun (by simp [hpoint, hsignaler])

theorem Inv.cellmanager (h : Inv s) (hstep : cellmanager s = some s') : Inv s' := by
  unfold Cancel.cellmanager at hstep
  cases hpoint : s.manager <;> simp only [hpoint, reduceCtorEq] at hstep
  case barrier => exact h.managerBarrier hpoint hstep
  case lock =>
    obtain ⟨hfree, rfl⟩ := map_mutexLock_eq_some_iff.mp hstep
    exact h.managerIdle hpoint .read ⟨rfl, rfl⟩ rfl (.take hfree rfl) (by simp) (by simp)
  case joinSignaler =>
    split_ifs at hstep with hsignaler
    cases hstep
    exact h.joinSignaler hpoint hsignaler
  case join rest =>
    cases rest with
    | nil =>
      cases hstep
      exact h.over hpoint
    | cons i rest =>
      obtain ⟨hended, ⟨⟩⟩ := Option.ite_none_right_eq_some.mp hstep
      exact h.join hpoint hended
  case create rest =>
    cases rest with
    | nil =>
      cases hstep
      exact h.managerIdle hpoint .choose ⟨rfl, rfl⟩ rfl (.keep rfl) (by simp) (by simp)
    | cons i rest =>
      cases hstep
      exact h.create hpoint
  case loop =>
    cases hstep
    split_ifs
    · exact h.managerIdle hpoint .reset ⟨rfl, rfl⟩ rfl (.keep rfl) (by simp) (by simp)
    · exact h.managerIdle hpoint .returned ⟨rfl, rfl⟩ rfl (.keep rfl) (by simp) (by simp)
  case read =>
    cases hstep
    exact h.managerIdle hpoint (.unlock s.count) ⟨rfl, rfl⟩ rfl (.keep rfl) (by simp [eq_comm])
      (by simp)
  case reset =>
    cases hstep
    exact h.reset hpoint
  case unlock k =>
    cases hstep
    exact h.managerUnlock hpoint
  case setBoolean =>
    cases hstep
    refine h.setBoolean hpoint ?_
    split_ifs <;> simp
  case createSignaler =>
    cases hstep
    exact h.createSignaler hpoint
  case cancel =>
    cases hstep
    exact h.managerCancel hpoint

theorem Inv.choose (h : Inv s) {randval : Fin n} {locking : Bool}
    (hstep : choose s randval locking = some s') : Inv s' := by
  obtain ⟨hpoint, ⟨⟩⟩ := Option.ite_none_right_eq_some.mp hstep
  have hmeets := h.meets
  rw [hpoint] at hmeets
  have hgather : s.manager.stage = .gather := by rw [hpoint]; rfl
  exact {
    owned := owned_manager h.owned (.keep (by rw [hpoint]; rfl))
    unset := fun _ ↦ h.unset hgather
    set := by simp [ManagerPoint.stage]
    meets := hmeets
    locking := h.locking
    fits := fun i ↦ by
      have hfits := h.fits i
      rwa [hpoint] at hfits
    unborn := fun i ↦ by
      rw [h.unborn i, hpoint]
      simp [ManagerPoint.stage]
    nodup := List.nodup_nil
    count := fun _ ↦ h.count hgather
    seen := by simp
    ready := by simp
    acted := fun i hacted ↦ by
      have hfits := h.fits i
      cases hworker : s.worker i <;> simp_all
    window := by simp [ManagerPoint.stage]
    caller := by simp [ManagerPoint.stage] }

theorem Inv.next (h : Inv s) (hn : 3 ≤ n) {move : Move n} (hstep : next s move = some s') :
    Inv s' := by
  cases move with
  | thread thread =>
    cases thread with
    | manager => exact h.cellmanager hstep
    | signaler => exact h.signaler hstep
    | worker i => exact h.worker hstep
  | choose randval locking => exact h.choose hstep
  | signal set => exact h.signal hn hstep
  | act set => exact h.act hn hstep
  | spurious i => exact h.spurious hstep
  | stop =>
    cases hstep
    exact ⟨h.owned, h.unset, h.set, h.meets, h.locking, h.fits, h.unborn, h.nodup, h.count, h.seen,
      h.ready, h.acted, h.window, h.caller⟩

theorem inv_of_reachable (hn : 3 ≤ n) (h : (program n).Reachable s) : Inv s :=
  h.invariant (fun _ hs ↦ hs ▸ inv_start) fun _ _ _ _ hinv hnext ↦ hinv.next hn hnext

end OpenPosix.CondVars.Cancel

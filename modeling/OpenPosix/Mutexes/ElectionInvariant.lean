import OpenPosix.Mutexes.ElectionModel

/-!
# The phases of a round

A round has three phases: the children do not exist (`outside`), `main` has not passed the barrier
(`before`), and it has (`after`). `ChildPoint.fits` says where the children can be in each of them:
before the barrier is passed, whoever gets the mutex goes to the barrier and stays there; after it,
only the elected child holds the mutex as long as `go_on` is set, and nobody else gets to the
barrier when it is cleared. `Inv` holds in every run.
-/

namespace OpenPosix.Mutexes.Election

open Interleaving Function

variable {n : ℕ} {nscenar : ℕ} {s s' : State n} {k : Fin n} {owner : Option (Thread n)}

attribute [simp] ChildPoint.waits

/-! ### Classes of points -/

variable {point : ChildPoint}

inductive Phase
  | outside
  | before
  | after
  deriving DecidableEq, Repr

def MainPoint.phase : MainPoint n → Phase
  | .loop | .lock | .setGoOn | .next | .ended => .outside
  | .create _ | .unlock | .trylock | .barrier | .waiting => .before
  | .join _ => .after

theorem MainPoint.phase_of_barrier {main : MainPoint n} (h : main = .barrier ∨ main = .waiting) :
    main.phase = .before := by
  rcases h with rfl | rfl <;> rfl

def MainPoint.holds : MainPoint n → Bool
  | .setGoOn | .create _ | .unlock => true
  | _ => false

@[simp] def MainPoint.absent : MainPoint n → Fin n → Prop
  | .create rest, k => k ∈ rest
  | .join rest, k => k ∉ rest
  | point, _ => point.phase = .outside

/-- The children that are left to create or to join. -/
def MainPoint.rest : MainPoint n → List (Fin n)
  | .create rest | .join rest => rest
  | _ => []

def ChildPoint.holds : ChildPoint → Bool
  | .check true | .barrier | .waiting | .clear | .unlock => true
  | _ => false

/-- Where a child can be, in a phase and with a value of `go_on`. -/
@[simp] def ChildPoint.fits : Phase → Bool → ChildPoint → Bool
  | .outside, _, .unborn => true
  | .before, _, .unborn | .before, _, .trylock | .before, _, .test | .before, _, .check true
  | .before, _, .barrier | .before, _, .waiting => true
  | .after, true, .trylock | .after, true, .test | .after, true, .clear => true
  | .after, false, .unborn | .after, false, .trylock | .after, false, .test
  | .after, false, .check _ | .after, false, .unlock | .after, false, .returned => true
  | _, _, _ => false

/-- A child that is left behind when the barrier is passed. -/
theorem ChildPoint.fits_after {goOn : Bool} (hfits : point.fits .before goOn = true)
    (hholds : point.holds = false) (hborn : point ≠ .unborn) : point.fits .after true = true := by
  cases point with
  | unborn => exact absurd rfl hborn
  | trylock | test => rfl
  | check acquired => cases acquired <;> simp [holds, fits] at hholds hfits
  | barrier | waiting => simp [holds] at hholds
  | clear | unlock | returned => simp [fits] at hfits

/-- A child that is not elected, when `go_on` is cleared. -/
theorem ChildPoint.fits_cleared (hfits : point.fits .after true = true)
    (hholds : point.holds = false) : point.fits .after false = true := by
  cases point with
  | trylock | test => rfl
  | clear => simp [holds] at hholds
  | _ => simp [fits] at hfits

/-- Who holds the mutex of the round, as the points say. -/
def Holds (s : State n) : Thread n → Prop
  | .main => s.main.holds = true
  | .child k => (s.child k).holds = true

structure Inv (s : State n) : Prop where
  owned : Owned (s.mtx s.i) (Holds s)
  free : ∀ j, j ≠ s.i → s.mtx j = none
  goOn : s.main.phase ≠ .after → (s.goOn = true ↔ s.main.phase = .before)
  fits : ∀ k, (s.child k).fits s.main.phase s.goOn = true
  unborn : ∀ k, s.child k = .unborn ↔ s.main.absent k
  nodup : s.main.rest.Nodup
  cleared : s.main.phase = .after → s.goOn = true → ∃ k, s.child k = .clear
  elected : s.main = .barrier ∨ s.main = .waiting → ∃ k, (s.child k).holds = true
  apart : s.main = .waiting → ∀ k, s.child k ≠ .waiting

theorem inv_start : Inv (start n) where
  owned := fun thread ↦ by cases thread <;> simp [start, Holds, MainPoint.holds, ChildPoint.holds]
  free := fun _ _ ↦ rfl
  goOn := fun _ ↦ by simp [start, MainPoint.phase]
  fits := fun _ ↦ rfl
  unborn := fun _ ↦ by simp [start, MainPoint.phase]
  nodup := List.nodup_nil
  cleared := by simp [start]
  elected := by simp [start]
  apart := by simp [start]

/-! ### The mutex -/

theorem holds_goto (point : ChildPoint) :
    Holds (s.goto k point) = update (Holds s) (.child k) (point.holds = true) := by
  refine eq_update_iff.mpr ⟨by simp [Holds, State.goto], fun thread hne ↦ ?_⟩
  cases thread with
  | main => rfl
  | child j =>
    have hj : j ≠ k := fun hjk ↦ hne (hjk ▸ rfl)
    simp [Holds, State.goto, hj]

/-- A child goes to another point, and the mutex follows. -/
theorem owned_goto {old : ChildPoint} (h : Owned (s.mtx s.i) (Holds s)) (hold : s.child k = old)
    (hpass : Passes (.child k) (s.mtx s.i) old.holds point.holds owner) :
    Owned owner (Holds (s.goto k point)) := by
  rw [holds_goto]
  exact h.pass (by rw [← hold]; rfl) hpass

/-- Two children do not hold the mutex together. -/
theorem Inv.unique (h : Inv s) {j k : Fin n} (hj : (s.child j).holds = true)
    (hk : (s.child k).holds = true) : j = k := by
  have hj' : Holds s (.child j) := hj
  exact Thread.child.inj (h.owned.unique hj' hk)

theorem Inv.not_holds_of_ne (h : Inv s) {j : Fin n} (hk : (s.child k).holds = true)
    (hne : j ≠ k) : (s.child j).holds = false := by
  rw [← Bool.not_eq_true]
  exact fun hj ↦ hne (h.unique hj hk)

/-! ### Steps of the children -/

/-- No thread holds a mutex of another round. -/
theorem Inv.update_free (h : Inv s) (owner : Option (Thread n)) (j : ℕ) (hj : j ≠ s.i) :
    update s.mtx s.i owner j = none := by
  rw [update_of_ne hj, h.free j hj]

/-- Assumes: a child goes to another point that fits, and the mutex follows. A child that holds the
mutex keeps it as long as `main` has not passed the barrier. -/
theorem Inv.goto (h : Inv s) {old : ChildPoint} (hold : s.child k = old)
    (hlive : old ≠ .unborn ∧ point ≠ .unborn ∧ old ≠ .clear)
    (hpass : Passes (.child k) (s.mtx s.i) old.holds point.holds owner)
    (hfits : point.fits s.main.phase s.goOn = true)
    (hkeeps : old.holds = true → point.holds = true ∨ s.main.phase = .after)
    (hapart : point = .waiting → s.main ≠ .waiting) : Inv ((s.setMtx owner).goto k point) where
  owned := by
    show Owned (update s.mtx s.i owner s.i) (Holds (s.goto k point))
    rw [update_self]
    exact owned_goto h.owned hold hpass
  free := h.update_free owner
  goOn := h.goOn
  fits := (forall_update_iff s.child fun _ point ↦
    point.fits s.main.phase s.goOn = true).mpr ⟨hfits, fun j _ ↦ h.fits j⟩
  unborn := (forall_update_iff s.child fun j point ↦
    point = .unborn ↔ s.main.absent j).mpr
      ⟨iff_of_false hlive.2.1 fun habsent ↦ hlive.1 (hold.symm.trans ((h.unborn k).mpr habsent)),
        fun j _ ↦ h.unborn j⟩
  nodup := h.nodup
  cleared := by
    intro hafter hgoOn
    obtain ⟨j, hj⟩ := h.cleared hafter hgoOn
    have hne : j ≠ k := fun heq ↦ hlive.2.2 (hold.symm.trans (heq ▸ hj))
    exact ⟨j, (update_of_ne hne _ _).trans hj⟩
  elected := by
    intro hmain
    obtain ⟨j, hj⟩ := h.elected hmain
    refine ⟨j, ?_⟩
    by_cases heq : j = k
    · subst heq
      obtain hholds | hafter := hkeeps (hold ▸ hj)
      · simpa [State.goto] using hholds
      · exact absurd (hafter.symm.trans (MainPoint.phase_of_barrier hmain)) (by decide)
    · simpa [State.goto, State.setMtx, heq] using hj
  apart := fun hmain ↦ (forall_update_iff s.child fun _ point ↦ point ≠ .waiting).mpr
    ⟨fun hwaiting ↦ hapart hwaiting hmain, fun j _ ↦ h.apart hmain j⟩

/-- The mutex stays with the thread that has it. -/
theorem Inv.walk (h : Inv s) {old : ChildPoint} (hold : s.child k = old)
    (hlive : old ≠ .unborn ∧ point ≠ .unborn ∧ old ≠ .clear) (hsame : point.holds = old.holds)
    (hfits : point.fits s.main.phase s.goOn = true)
    (hapart : point = .waiting → s.main ≠ .waiting) : Inv (s.goto k point) := by
  have hgoto := h.goto hold hlive (.keep hsame) hfits (fun hholds ↦ .inl (hsame.trans hholds))
    hapart
  rwa [State.setMtx, update_eq_self] at hgoto

/-- While `go_on` is set after the barrier, the mutex is not free. -/
theorem Inv.goOn_of_free (h : Inv s) (hfree : s.mtx s.i = none) (hafter : s.main.phase = .after) :
    s.goOn = false := by
  rw [← Bool.not_eq_true]
  intro hgoOn
  obtain ⟨j, hj⟩ := h.cleared hafter hgoOn
  have hholds : Holds s (.child j) := by
    rw [Holds, hj]
    rfl
  exact h.owned.not_holds hfree _ hholds

/-- `go_on` is set until `main` has passed the barrier. -/
theorem Inv.goOn_of_before (h : Inv s) (hbefore : s.main.phase = .before) : s.goOn = true :=
  (h.goOn (by simp [hbefore])).mpr hbefore

/-- The elected child clears `go_on`, while no other child is after its `pthread_mutex_trylock`. -/
theorem Inv.clear (h : Inv s) (hchild : s.child k = .clear) :
    Inv ({ s with goOn := false }.goto k .unlock) := by
  have hfits := h.fits k
  have hafter : s.main.phase = .after := by
    cases hphase : s.main.phase <;> simp_all
  have hgoOn : s.goOn = true := by
    cases hgoOn : s.goOn <;> simp_all
  have hholds : (s.child k).holds = true := by rw [hchild]; rfl
  have hnot : ¬ (s.main = .barrier ∨ s.main = .waiting) := fun hmain ↦
    absurd (hafter.symm.trans (MainPoint.phase_of_barrier hmain)) (by decide)
  refine
    { owned := owned_goto (s := { s with goOn := false }) h.owned hchild (.keep rfl)
      free := h.free
      goOn := fun hne ↦ absurd hafter hne
      fits := (forall_update_iff s.child fun _ point ↦
        point.fits s.main.phase false = true).mpr ⟨by rw [hafter]; rfl, fun j hne ↦ ?_⟩
      unborn := (forall_update_iff s.child fun j point ↦
        point = .unborn ↔ s.main.absent j).mpr ⟨iff_of_false (by simp) fun habsent ↦ ?_,
          fun j _ ↦ h.unborn j⟩
      nodup := h.nodup
      cleared := by simp [State.goto]
      elected := fun hmain ↦ absurd hmain hnot
      apart := fun hmain ↦ absurd (.inr hmain) hnot }
  · have hj := h.fits j
    rw [hafter, hgoOn] at hj
    rw [hafter]
    exact ChildPoint.fits_cleared hj (h.not_holds_of_ne hholds hne)
  · simp [(h.unborn k).mpr habsent] at hchild

/-! ### The barrier -/

/-- The child that has the mutex and `main` pass the barrier. -/
@[simp] def State.pass (s : State n) (k : Fin n) : State n :=
  (s.mainGoto afterBarrier).goto k .clear

/-- Assumes: `main` is at the barrier, and so is the child that holds the mutex. -/
theorem Inv.pass (h : Inv s) (hholds : (s.child k).holds = true)
    (hmain : s.main = .barrier ∨ s.main = .waiting) : Inv (s.pass k) := by
  have hbefore := MainPoint.phase_of_barrier hmain
  have hgoOn := h.goOn_of_before hbefore
  have hborn : ∀ j, s.child j ≠ .unborn := by
    intro j hj
    have habsent := (h.unborn j).mp hj
    rcases hmain with hmain | hmain <;> simp [hmain, MainPoint.phase] at habsent
  have hfree : s.main.holds = false := by rcases hmain with hmain | hmain <;> rw [hmain] <;> rfl
  refine
    { owned := ?_
      free := h.free
      goOn := by simp [State.goto, State.mainGoto, afterBarrier, MainPoint.phase]
      fits := (forall_update_iff s.child fun _ point ↦ point.fits .after s.goOn = true).mpr
        ⟨by rw [hgoOn]; rfl, fun j hne ↦ ?_⟩
      unborn := (forall_update_iff s.child fun j point ↦
        point = .unborn ↔ j ∉ List.finRange n).mpr ⟨by simp, fun j _ ↦ by simp [hborn j]⟩
      nodup := List.nodup_finRange n
      cleared := fun _ _ ↦ ⟨k, by simp [State.goto]⟩
      elected := by simp [State.goto, State.mainGoto, afterBarrier]
      apart := by simp [State.goto, State.mainGoto, afterBarrier] }
  · have hmoved : Owned ((s.mainGoto afterBarrier).mtx (s.mainGoto afterBarrier).i)
        (Holds (s.mainGoto afterBarrier)) := by
      refine h.owned.congr fun thread ↦ ?_
      cases thread with
      | main =>
        refine iff_of_false (by simp [Holds, State.mainGoto, afterBarrier, MainPoint.holds]) ?_
        rw [Holds, hfree]
        simp
      | child j => rfl
    exact owned_goto hmoved rfl (.keep hholds.symm)
  · have hj := h.fits j
    rw [hbefore] at hj
    rw [hgoOn]
    exact ChildPoint.fits_after hj (h.not_holds_of_ne hholds hne) (hborn j)

/-- Only the child that holds the mutex can wait at the barrier. -/
theorem Inv.release_child (h : Inv s) (hholds : (s.child k).holds = true) :
    (fun j ↦ (s.child j).release) = update s.child k (s.child k).release := by
  refine eq_update_iff.mpr ⟨rfl, fun j hne ↦ ?_⟩
  have hother := h.not_holds_of_ne hholds hne
  cases hpoint : s.child j <;> simp_all [ChildPoint.holds, ChildPoint.release]

theorem Inv.total_waits (h : Inv s) (hholds : (s.child k).holds = true) :
    total ChildPoint.waits s.child = (s.child k).waits := by
  refine Fintype.sum_eq_single k fun j hne ↦ ?_
  have hother := h.not_holds_of_ne hholds hne
  cases hpoint : s.child j <;> simp_all [ChildPoint.holds]

/-- A child that completes the barrier finds `main` waiting at it. -/
theorem Inv.waiting_of_child (h : Inv s) (hchild : s.child k = .barrier)
    (hcompletes : Completes 2 s.waiting) :
    s.main = .waiting ∧ s.release.goto k .clear = s.pass k := by
  have hholds : (s.child k).holds = true := by rw [hchild]; rfl
  have htotal := h.total_waits hholds
  rw [hchild] at htotal
  have hmain : s.main = .waiting := by
    by_contra hne
    simp [Completes, State.waiting, htotal, hne] at hcompletes
  refine ⟨hmain, ?_⟩
  simp only [State.release, State.pass, State.goto, State.mainGoto, h.release_child hholds, hmain,
    if_true, update_idem]

/-- When `main` completes the barrier, the child that holds the mutex waits at it. -/
theorem Inv.waiting_of_main (h : Inv s) (hmain : s.main = .barrier)
    (hcompletes : Completes 2 s.waiting) :
    ∃ k, s.child k = .waiting ∧ s.release.mainGoto afterBarrier = s.pass k := by
  have htotal : total ChildPoint.waits s.child = 1 := by
    simp only [Completes, State.waiting, hmain, reduceCtorEq, if_false] at hcompletes
    omega
  obtain ⟨k, hk⟩ := exists_pos_of_total_pos (htotal.symm ▸ Nat.one_pos)
  have hchild : s.child k = .waiting := by
    cases hpoint : s.child k <;> simp_all
  have hholds : (s.child k).holds = true := by rw [hchild]; rfl
  refine ⟨k, hchild, ?_⟩
  simp only [State.release, State.pass, State.goto, State.mainGoto, h.release_child hholds, hchild]
  rfl

theorem Inv.threaded (h : Inv s) (hnext : threaded s k = some s') : Inv s' := by
  have hfits := h.fits k
  have hbefore := h.goOn_of_before
  unfold Election.threaded at hnext
  cases hpoint : s.child k <;> simp only [hpoint, reduceCtorEq] at hnext hfits
  case trylock =>
    split_ifs at hnext with hfree
    · cases hnext
      refine h.goto hpoint (by decide) (.take hfree rfl) ?_ (fun _ ↦ .inl rfl) (by simp)
      cases hphase : s.main.phase with
      | outside => simp [hphase] at hfits
      | before => rfl
      | after => rw [h.goOn_of_free hfree hphase]; rfl
    · cases hnext
      refine h.walk hpoint (by decide) rfl ?_ (by simp)
      cases hphase : s.main.phase <;> cases hgoOn : s.goOn <;> simp_all
  case test =>
    cases hnext
    refine h.walk hpoint (by split_ifs <;> decide) (by split_ifs <;> rfl) ?_
      (by split_ifs <;> simp)
    cases hphase : s.main.phase <;> cases hgoOn : s.goOn <;> simp_all
  case check acquired =>
    split at hnext
    case isTrue hgoOn =>
      obtain ⟨hgoOn, rfl⟩ := Bool.and_eq_true_iff.mp hgoOn
      cases hnext
      refine h.walk hpoint (by decide) rfl ?_ (by simp)
      cases hphase : s.main.phase <;> simp_all
    case isFalse =>
      cases hnext
      refine h.walk hpoint (by cases acquired <;> decide) (by cases acquired <;> rfl) ?_
        (by cases acquired <;> simp)
      cases hphase : s.main.phase <;> cases hgoOn : s.goOn <;> cases acquired <;> simp_all
  case barrier =>
    split_ifs at hnext with hcompletes
    · obtain ⟨hmain, hpass⟩ := h.waiting_of_child hpoint hcompletes
      cases hnext
      rw [hpass]
      exact h.pass (by rw [hpoint]; rfl) (.inr hmain)
    · cases hnext
      refine h.walk hpoint (by decide) rfl ?_ fun _ hmain ↦ ?_
      · cases hphase : s.main.phase <;> cases hgoOn : s.goOn <;> simp_all
      · -- With `main` waiting, the arrival of the child would complete the barrier.
        refine hcompletes ?_
        have htotal := h.total_waits (k := k) (by rw [hpoint]; rfl)
        rw [hpoint] at htotal
        simp [Completes, State.waiting, hmain, htotal]
  case clear =>
    cases hnext
    exact h.clear hpoint
  case unlock =>
    cases hnext
    have hafter : s.main.phase = .after := by
      cases hphase : s.main.phase <;> simp_all
    refine h.goto hpoint (by decide) (.drop rfl rfl) ?_ (fun _ ↦ .inr hafter) (by simp)
    cases hgoOn : s.goOn <;> simp_all

/-! ### Steps of `main` -/

variable {old : MainPoint n}

theorem holds_mainGoto (point : MainPoint n) :
    Holds (s.mainGoto point) = update (Holds s) .main (point.holds = true) := by
  ext1 thread
  cases thread <;> simp [Holds, State.mainGoto]

theorem owned_mainGoto {point : MainPoint n} (h : Owned (s.mtx s.i) (Holds s)) (hold : s.main = old)
    (hpass : Passes .main (s.mtx s.i) old.holds point.holds owner) :
    Owned owner (Holds (s.mainGoto point)) := by
  rw [holds_mainGoto]
  exact h.pass (by rw [← hold]; rfl) hpass

/-- Assumes: `main` goes to another point of the same phase, and the mutex follows. -/
theorem Inv.mainGoto (h : Inv s) (hold : s.main = old) (point : MainPoint n)
    (hphase : point.phase = old.phase) (habsent : ∀ k, point.absent k ↔ old.absent k)
    (hnodup : point.rest.Nodup) (hpass : Passes .main (s.mtx s.i) old.holds point.holds owner)
    (helected : point = .barrier ∨ point = .waiting → ∃ k, (s.child k).holds = true)
    (hapart : point = .waiting → ∀ k, s.child k ≠ .waiting) :
    Inv ((s.setMtx owner).mainGoto point) := by
  subst hold
  exact
    { owned := by
        show Owned (update s.mtx s.i owner s.i) (Holds (s.mainGoto point))
        rw [update_self]
        exact owned_mainGoto h.owned rfl hpass
      free := h.update_free owner
      goOn := fun hne ↦ by
        simp only [State.mainGoto, hphase] at hne ⊢
        exact h.goOn hne
      fits := fun k ↦ by
        simp only [State.mainGoto, hphase]
        exact h.fits k
      unborn := fun k ↦ (h.unborn k).trans (habsent k).symm
      nodup := hnodup
      cleared := fun hafter hgoOn ↦ by
        simp only [State.mainGoto, hphase] at hafter
        exact h.cleared hafter hgoOn
      elected := helected
      apart := hapart }

theorem Inv.mainWalk (h : Inv s) (hold : s.main = old) (point : MainPoint n)
    (hphase : point.phase = old.phase) (habsent : ∀ k, point.absent k ↔ old.absent k)
    (hnodup : point.rest.Nodup) (hsame : point.holds = old.holds)
    (helected : point = .barrier ∨ point = .waiting → ∃ k, (s.child k).holds = true)
    (hapart : point = .waiting → ∀ k, s.child k ≠ .waiting) : Inv (s.mainGoto point) := by
  have hgoto := h.mainGoto hold point hphase habsent hnodup (.keep hsame) helected hapart
  rwa [State.setMtx, update_eq_self] at hgoto

/-- `main` sets `go_on`, while there are no children. -/
theorem Inv.setGoOn (h : Inv s) (hmain : s.main = .setGoOn) :
    Inv { s with goOn := true, main := .create (List.finRange n) } := by
  have hunborn : ∀ k, s.child k = .unborn := fun k ↦
    (h.unborn k).mpr (by rw [hmain]; rfl)
  refine
    { owned := owned_mainGoto (s := { s with goOn := true }) h.owned hmain (.keep rfl)
      free := h.free
      goOn := by simp [MainPoint.phase]
      fits := fun k ↦ by
        rw [hunborn k]
        rfl
      unborn := fun k ↦ iff_of_true (hunborn k) (List.mem_finRange k)
      nodup := List.nodup_finRange n
      cleared := by simp [MainPoint.phase]
      elected := by simp
      apart := by simp }

/-- Assumes: `main` moves a child that does not hold the mutex, by its creation or by a join. -/
theorem Inv.launch (h : Inv s) {mainPoint : MainPoint n} (hphase : mainPoint.phase = s.main.phase)
    (hmain : mainPoint.holds = s.main.holds) (hnodup : mainPoint.rest.Nodup)
    (hholds : point.holds = (s.child k).holds) (hfits : point.fits s.main.phase s.goOn = true)
    (hclear : s.child k ≠ .clear) (hk : point = .unborn ↔ mainPoint.absent k)
    (hothers : ∀ j, j ≠ k → (mainPoint.absent j ↔ s.main.absent j))
    (helected : ¬ (mainPoint = .barrier ∨ mainPoint = .waiting)) :
    Inv ((s.goto k point).mainGoto mainPoint) where
  owned := owned_mainGoto (s := s.goto k point) (owned_goto h.owned rfl (.keep hholds)) rfl
    (.keep hmain)
  free := h.free
  goOn := fun hne ↦ by
    simp only [State.mainGoto, hphase] at hne ⊢
    exact h.goOn hne
  fits := (forall_update_iff s.child fun _ point ↦
    point.fits mainPoint.phase s.goOn = true).mpr ⟨hphase ▸ hfits, fun j _ ↦ hphase ▸ h.fits j⟩
  unborn := (forall_update_iff s.child fun j point ↦
    point = .unborn ↔ mainPoint.absent j).mpr
      ⟨hk, fun j hne ↦ (h.unborn j).trans (hothers j hne).symm⟩
  nodup := hnodup
  cleared := fun hafter hgoOn ↦ by
    simp only [State.mainGoto, hphase] at hafter
    obtain ⟨j, hj⟩ := h.cleared hafter hgoOn
    have hne : j ≠ k := fun heq ↦ hclear (heq ▸ hj)
    exact ⟨j, (update_of_ne hne _ _).trans hj⟩
  elected := fun hmain ↦ absurd hmain helected
  apart := fun hmain ↦ absurd (.inr hmain) helected

theorem Inv.create (h : Inv s) {rest : List (Fin n)} (hmain : s.main = .create (k :: rest)) :
    Inv ((s.goto k .trylock).mainGoto (.create rest)) := by
  have hk : s.child k = .unborn := (h.unborn k).mpr (by
    rw [hmain]
    exact List.mem_cons_self)
  have hnodup := h.nodup
  rw [hmain] at hnodup
  obtain ⟨hnotMem, hrest⟩ := List.nodup_cons.mp hnodup
  refine h.launch (by rw [hmain]; rfl) (by rw [hmain]; rfl) hrest (by rw [hk]; rfl)
    (by rw [hmain]; rfl) (by simp [hk]) (iff_of_false (by simp) hnotMem) (fun j hne ↦ ?_) (by simp)
  rw [hmain]
  simp [hne]

/-- `main` joins a child that has returned; `go_on` is then cleared. -/
theorem Inv.join (h : Inv s) {rest : List (Fin n)} (hmain : s.main = .join (k :: rest))
    (hk : s.child k = .returned) : Inv ((s.goto k .unborn).mainGoto (.join rest)) := by
  have hnodup := h.nodup
  rw [hmain] at hnodup
  obtain ⟨hnotMem, hrest⟩ := List.nodup_cons.mp hnodup
  have hfits := h.fits k
  rw [hmain, hk] at hfits
  refine h.launch (by rw [hmain]; rfl) (by rw [hmain]; rfl) hrest (by rw [hk]; rfl) ?_
    (by simp [hk]) (iff_of_true rfl hnotMem) (fun j hne ↦ ?_) (by simp)
  · rw [hmain]
    cases hgoOn : s.goOn with
    | true => simp [hgoOn, MainPoint.phase] at hfits
    | false => rfl
  · rw [hmain]
    simp [hne]

/-- Without children all mutexes are free, unless `main` holds the one of the round. -/
theorem Inv.all_free (h : Inv s) (hmain : s.main.holds = false)
    (hunborn : ∀ k, s.child k = .unborn) (j : ℕ) : s.mtx j = none := by
  by_cases heq : j = s.i
  · subst heq
    by_contra hheld
    obtain ⟨thread, hthread⟩ := Option.ne_none_iff_exists'.mp hheld
    have hholds := (h.owned thread).mp hthread
    cases thread with
    | main => simp [Holds, hmain] at hholds
    | child k => simp [Holds, hunborn k, ChildPoint.holds] at hholds
  · exact h.free j heq

/-- When all children are joined, `go_on` is cleared and the mutexes are free. -/
theorem Inv.joined (h : Inv s) (hmain : s.main = .join []) :
    s.goOn = false ∧ (∀ k, s.child k = .unborn) ∧ ∀ j, s.mtx j = none := by
  have hunborn : ∀ k, s.child k = .unborn := fun k ↦
    (h.unborn k).mpr (by simp [hmain])
  refine ⟨?_, hunborn, h.all_free (by rw [hmain]; rfl) hunborn⟩
  rw [← Bool.not_eq_true]
  intro hgoOn
  obtain ⟨k, hk⟩ := h.cleared (by rw [hmain]; rfl) hgoOn
  simp [hunborn k] at hk

/-- The next round takes another mutex. -/
theorem Inv.nextMutex (h : Inv s) (hmain : s.main = .next) (i : ℕ) :
    Inv { s with i := i, main := .loop } := by
  have hunborn : ∀ k, s.child k = .unborn := fun k ↦ (h.unborn k).mpr (by rw [hmain]; rfl)
  have hfree := h.all_free (by rw [hmain]; rfl) hunborn
  have hgoOn := h.goOn
  have hfits := h.fits
  rw [hmain] at hgoOn hfits
  refine
    { owned := fun thread ↦ ?_
      free := fun j _ ↦ hfree j
      goOn := hgoOn
      fits := hfits
      unborn := fun k ↦ iff_of_true (hunborn k) rfl
      nodup := List.nodup_nil
      cleared := by simp [MainPoint.phase]
      elected := by simp
      apart := by simp }
  rw [show s.mtx i = none from hfree i]
  refine iff_of_false (by simp) fun hholds ↦ ?_
  cases thread with
  | main => simp [Holds, MainPoint.holds] at hholds
  | child k => simp [Holds, hunborn k, ChildPoint.holds] at hholds

theorem Inv.main (h : Inv s) (hnext : main nscenar s = some s') : Inv s' := by
  unfold Election.main at hnext
  cases hmain : s.main <;> simp only [hmain, reduceCtorEq] at hnext
  case loop =>
    cases hnext
    cases s.doIt <;>
      exact h.mainWalk hmain _ rfl (fun _ ↦ Iff.rfl) List.nodup_nil rfl (by simp) (by simp)
  case lock =>
    obtain ⟨hfree, rfl⟩ := map_mutexLock_eq_some_iff.mp hnext
    exact h.mainGoto hmain .setGoOn rfl (fun _ ↦ Iff.rfl) List.nodup_nil (.take hfree rfl)
      (by simp) (by simp)
  case setGoOn =>
    cases hnext
    exact h.setGoOn hmain
  case create rest =>
    cases rest with
    | nil =>
      cases hnext
      exact h.mainWalk hmain .unlock rfl (by simp [MainPoint.phase])
        List.nodup_nil rfl (by simp) (by simp)
    | cons k rest =>
      cases hnext
      exact h.create hmain
  case unlock =>
    cases hnext
    exact h.mainGoto hmain .trylock rfl (fun _ ↦ Iff.rfl) List.nodup_nil (.drop rfl rfl) (by simp)
      (by simp)
  case trylock =>
    split_ifs at hnext with hfree
    · cases hnext
      exact h.mainGoto hmain .unlock rfl (fun _ ↦ Iff.rfl) List.nodup_nil (.take hfree rfl)
        (by simp) (by simp)
    · cases hnext
      refine h.mainWalk hmain .barrier rfl (fun _ ↦ Iff.rfl) List.nodup_nil rfl (fun _ ↦ ?_)
        (by simp)
      -- The mutex is busy, and it is not `main` that holds it.
      obtain ⟨thread, hthread⟩ := Option.ne_none_iff_exists'.mp hfree
      have hholds := (h.owned thread).mp hthread
      cases thread with
      | main => simp [Holds, hmain, MainPoint.holds] at hholds
      | child k => exact ⟨k, hholds⟩
  case barrier =>
    split_ifs at hnext with hcompletes
    · obtain ⟨k, hk, hpass⟩ := h.waiting_of_main hmain hcompletes
      cases hnext
      rw [hpass]
      exact h.pass (by rw [hk]; rfl) (.inl hmain)
    · cases hnext
      refine h.mainWalk hmain .waiting rfl (fun _ ↦ Iff.rfl) List.nodup_nil rfl
        (fun _ ↦ h.elected (.inl hmain)) fun _ k hk ↦ hcompletes ?_
      have htotal := h.total_waits (k := k) (by rw [hk]; rfl)
      rw [hk] at htotal
      simp [Completes, State.waiting, hmain, htotal]
  case join rest =>
    cases rest with
    | nil =>
      cases hnext
      obtain ⟨hgoOn, hunborn, hfree⟩ := h.joined hmain
      exact
        { owned := owned_mainGoto (s := s) h.owned hmain (.keep rfl)
          free := h.free
          goOn := by simp [State.mainGoto, MainPoint.phase, hgoOn]
          fits := fun k ↦ by simp [State.mainGoto, MainPoint.phase, hunborn k]
          unborn := fun k ↦ iff_of_true (hunborn k) rfl
          nodup := List.nodup_nil
          cleared := by simp [State.mainGoto, MainPoint.phase]
          elected := by simp [State.mainGoto]
          apart := by simp [State.mainGoto] }
    | cons k rest =>
      simp only at hnext
      split_ifs at hnext with hk
      cases hnext
      exact h.join hmain hk
  case next =>
    cases hnext
    exact h.nextMutex hmain _

theorem Inv.stop (h : Inv s) : Inv { s with doIt := false } := { h with }

theorem Inv.next (h : Inv s) {move : Move n} (hnext : next nscenar s move = some s') : Inv s' := by
  cases move with
  | stop =>
    cases hnext
    exact h.stop
  | thread t =>
    cases t with
    | main => exact h.main hnext
    | child k => exact h.threaded hnext

theorem inv_of_reachable (h : (program n nscenar).Reachable s) : Inv s :=
  h.invariant (fun _ hs ↦ hs ▸ inv_start) fun _ _ _ _ hinv hnext ↦ hinv.next hnext

end OpenPosix.Mutexes.Election

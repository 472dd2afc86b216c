import OpenPosix.Mutexes.PhasesModel

/-!
# When `main` is signalled

In the phase of a mutex that some thread locks, that thread cannot count itself before `main` has
released the mutex, and `main` holds `m` from there until it waits. So the last count of the phase
comes when `main` is in the wait (`Inv.fresh`), and the thread that counts last has still to signal
as long as `main` is blocked (`Inv.due`). The invariant says this for each mutex apart, since a
mutex that no thread locks gives `main` no such protection.
-/

namespace OpenPosix.Mutexes.Phases

open Interleaving Function

variable {n : ℕ} {succeeds : Fin n → ℕ → Bool} {s s' : State n} {k : Fin n}

attribute [simp] State.goto MainPoint.wake

/-! ### Classes of points -/

def ThreadPoint.holdsM : ThreadPoint → Bool
  | .incr _ _ | .test _ _ | .unlockM _ _ _ => true
  | _ => false

def ThreadPoint.holds (j : ℕ) : ThreadPoint → Bool
  | .lockM i success | .incr i success | .test i success | .unlockM i success _ =>
    success && decide (i = j)
  | .unlock i _ => decide (i = j)
  | _ => false

/-- One for a thread that has counted itself for `mtx[j]`. -/
def ThreadPoint.counted (j : ℕ) : ThreadPoint → ℕ
  | .unborn => 0
  | .lock i | .lockM i _ | .incr i _ => if j < i then 1 else 0
  | .test i _ | .unlockM i _ _ | .unlock i _ | .signal i => if j ≤ i then 1 else 0
  | .exited => 1

/-- The thread has returned from its lock of `mtx[j]`. -/
@[simp] def ThreadPoint.passed (j : ℕ) : ThreadPoint → Bool
  | .unborn => false
  | .lock i => decide (j < i)
  | .lockM i _ | .incr i _ | .test i _ | .unlockM i _ _ | .unlock i _ | .signal i => decide (j ≤ i)
  | .exited => true

/-- The thread has still to signal, given that `mtx[j]` has its last count. -/
def ThreadPoint.due (j : ℕ) : ThreadPoint → Bool
  | .test i _ => decide (i = j)
  | .unlockM _ _ bool | .unlock _ bool => bool
  | .signal _ => true
  | _ => false

/-- The number of the mutex is one of those there are. -/
def ThreadPoint.inRange : ThreadPoint → Prop
  | .lock i | .lockM i _ | .incr i _ | .test i _ | .unlockM i _ _ | .unlock i _ | .signal i =>
    i < phases
  | .unborn | .exited => True

def MainPoint.holdsM : MainPoint n → Bool
  | .unlock _ | .wait _ | .test _ | .unlockM => true
  | _ => false

/-- `main` has not released `mtx[j]`. -/
def MainPoint.keeps (j : ℕ) : MainPoint n → Bool
  | .create _ | .incrTOT _ | .lockM => true
  | .unlock i => decide (i ≤ j)
  | .wait i | .blocked i | .woken i | .test i => decide (i < j)
  | .unlockM | .ended => false

def MainPoint.rest : MainPoint n → List (Fin n)
  | .create rest | .incrTOT rest => rest
  | _ => []

/-- One if `main` has created a thread and has not added it to `nbthTOT`. -/
def MainPoint.uncounted : MainPoint n → ℕ
  | .incrTOT _ => 1
  | _ => 0

def MainPoint.inRange : MainPoint n → Prop
  | .unlock i | .wait i | .blocked i | .woken i | .test i => i < phases
  | _ => True

/-- Who holds a mutex, as the points say. -/
@[simp] def HoldsBy (ofMain : MainPoint n → Bool) (ofThread : ThreadPoint → Bool) (s : State n) :
    Thread n → Prop
  | .main => ofMain s.main = true
  | .thread k => ofThread (s.thread k) = true

/-- Who holds `m`. -/
abbrev HoldsM (s : State n) : Thread n → Prop := HoldsBy MainPoint.holdsM ThreadPoint.holdsM s

/-- Who holds `mtx[j]`. -/
abbrev Holds (s : State n) (j : ℕ) : Thread n → Prop :=
  HoldsBy (MainPoint.keeps j) (ThreadPoint.holds j) s

structure Inv (succeeds : Fin n → ℕ → Bool) (s : State n) : Prop where
  ownedM : Owned s.m (HoldsM s)
  owned : ∀ j < phases, Owned (s.mtx j) (Holds s j)
  unborn : ∀ k, s.thread k = .unborn ↔ k ∈ s.main.rest
  nodup : s.main.rest.Nodup
  created : s.nbthTOT + s.main.rest.length + s.main.uncounted = n
  count : ∀ j < phases, s.count j = total (ThreadPoint.counted j) s.thread
  inRange : s.main.inRange ∧ ∀ k, (s.thread k).inRange
  passed : ∀ k, ∀ j < phases, succeeds k j = true → (s.thread k).passed j = true →
    s.main.keeps j = false
  fresh : ∀ j, s.main = .wait j → (∃ k, succeeds k j = true) → s.count j < n
  due : ∀ j, s.main = .blocked j → (∃ k, succeeds k j = true) → n ≤ s.count j →
    ∃ k, (s.thread k).due j = true

theorem inv_start : Inv succeeds (start n) where
  ownedM := fun thread ↦ by
    cases thread <;> simp [start, MainPoint.holdsM, ThreadPoint.holdsM]
  owned := fun j _ thread ↦ by
    cases thread <;> simp [start, MainPoint.keeps, ThreadPoint.holds]
  unborn := fun k ↦ by simp [start, MainPoint.rest]
  nodup := List.nodup_finRange n
  created := by simp [start, MainPoint.rest, MainPoint.uncounted]
  count := fun j _ ↦ by simp [start, State.count, total, ThreadPoint.counted]
  inRange := ⟨trivial, fun _ ↦ trivial⟩
  passed := by simp [start]
  fresh := by simp [start]
  due := by simp [start]

/-! ### Steps of the threads -/

variable {old point : ThreadPoint} {j i : ℕ} {success : Bool}

section Owned

variable {ofMain : MainPoint n → Bool} {ofThread : ThreadPoint → Bool}
  {mtx mtx' : Option (Thread n)}

theorem owned_thread (h : Owned mtx (HoldsBy ofMain ofThread s)) (hold : s.thread k = old)
    (hthread : s'.thread = update s.thread k point) (hmain : s'.main = s.main)
    (hpass : Passes (.thread k) mtx (ofThread old) (ofThread point) mtx') :
    Owned mtx' (HoldsBy ofMain ofThread s') := by
  have hholds : HoldsBy ofMain ofThread s' =
      update (HoldsBy ofMain ofThread s) (.thread k) (ofThread point = true) := by
    refine eq_update_iff.mpr ⟨by simp [hthread], fun thread hne ↦ ?_⟩
    cases thread with
    | main => simp [hmain]
    | thread i =>
      have hi : i ≠ k := fun hik ↦ hne (hik ▸ rfl)
      simp [hthread, hi]
  rw [hholds]
  exact h.pass (by rw [← hold]; rfl) hpass

theorem owned_main {old point : MainPoint n} (h : Owned mtx (HoldsBy ofMain ofThread s))
    (hold : s.main = old) (hthread : s'.thread = s.thread) (hmain : s'.main = point)
    (hpass : Passes .main mtx (ofMain old) (ofMain point) mtx') :
    Owned mtx' (HoldsBy ofMain ofThread s') := by
  have hholds : HoldsBy ofMain ofThread s' =
      update (HoldsBy ofMain ofThread s) .main (ofMain point = true) := by
    ext1 thread
    cases thread <;> simp [hmain, hthread]
  rw [hholds]
  exact h.pass (by rw [← hold]; rfl) hpass

end Owned

/-- Assumes: a thread goes to another point, and the shared data follow. -/
theorem Inv.move (h : Inv succeeds s) (hold : s.thread k = old) (point : ThreadPoint)
    (hthread : s'.thread = update s.thread k point) (hmain : s'.main = s.main)
    (htotal : s'.nbthTOT = s.nbthTOT) (hborn : old ≠ .unborn ∧ point ≠ .unborn)
    (hpassM : Passes (.thread k) s.m old.holdsM point.holdsM s'.m)
    (hpass : ∀ j < phases,
      Passes (.thread k) (s.mtx j) (old.holds j) (point.holds j) (s'.mtx j))
    (hcount : ∀ j < phases, s'.count j + old.counted j = s.count j + point.counted j)
    (hrange : old.inRange → point.inRange)
    (hpassed : ∀ j < phases, succeeds k j = true → point.passed j = true →
      old.passed j = true ∨ s.main.keeps j = false)
    (hfresh : s'.count = s.count ∨ old.holdsM = true)
    (hdue : ∀ j, s.main = .blocked j → n ≤ s'.count j →
      point.due j = true ∨ (n ≤ s.count j ∧ old.due j = false)) : Inv succeeds s' where
  ownedM := owned_thread h.ownedM hold hthread hmain hpassM
  owned j hj := owned_thread (h.owned j hj) hold hthread hmain (hpass j hj)
  unborn := by
    rw [hthread, hmain]
    refine (forall_update_iff s.thread fun j point ↦ point = .unborn ↔ j ∈ s.main.rest).mpr
      ⟨iff_of_false hborn.2 fun hmem ↦ ?_, fun j _ ↦ h.unborn j⟩
    exact hborn.1 (hold.symm.trans ((h.unborn k).mpr hmem))
  nodup := by
    rw [hmain]
    exact h.nodup
  created := by
    rw [hmain, htotal]
    exact h.created
  count := fun j hj ↦ by
    have hmove := total_update (ThreadPoint.counted j) s.thread k point
    have hbefore := h.count j hj
    have hafter := hcount j hj
    rw [hold] at hmove
    rw [hthread]
    omega
  inRange := by
    rw [hmain, hthread]
    exact ⟨h.inRange.1, (forall_update_iff s.thread fun _ point ↦ point.inRange).mpr
      ⟨hrange (hold ▸ h.inRange.2 k), fun j _ ↦ h.inRange.2 j⟩⟩
  passed := by
    rw [hthread, hmain]
    refine (forall_update_iff s.thread fun k point ↦ ∀ j < phases, succeeds k j = true →
      point.passed j = true → s.main.keeps j = false).mpr
        ⟨fun i hi hsucceeds hafter ↦ ?_, fun j _ ↦ h.passed j⟩
    rcases hpassed i hi hsucceeds hafter with hbefore | hkeeps
    · exact h.passed k i hi hsucceeds (hold ▸ hbefore)
    · exact hkeeps
  fresh := fun j hwait hsome ↦ by
    rw [hmain] at hwait
    rcases hfresh with heq | hheld
    · rw [heq]
      exact h.fresh j hwait hsome
    · -- `main` holds `m` when it is about to wait, so no thread counts itself.
      have hholds : HoldsM s (.thread k) := by rwa [← hold] at hheld
      have hmain' : HoldsM s .main := by simp [hwait, MainPoint.holdsM]
      exact absurd (h.ownedM.unique hholds hmain') (by simp)
  due := fun j hblocked hsome hfull ↦ by
    rw [hmain] at hblocked
    rcases hdue j hblocked hfull with hafter | ⟨hbefore, hnot⟩
    · exact ⟨k, by rw [hthread, update_self]; exact hafter⟩
    · obtain ⟨i, hi⟩ := h.due j hblocked hsome hbefore
      have hik : i ≠ k := by
        rintro rfl
        simp [← hold, hi] at hnot
      exact ⟨i, by rw [hthread, update_of_ne hik]; exact hi⟩

theorem Inv.thread_inRange (h : Inv succeeds s) (hpoint : s.thread k = point) : point.inRange :=
  hpoint ▸ h.inRange.2 k

/-- The end of a phase is where the thread has counted itself up to its mutex. -/
theorem counted_endOfPhase (hj : j < phases) :
    (endOfPhase i).counted j = if j ≤ i then 1 else 0 := by
  unfold endOfPhase
  by_cases hnext : i + 1 < phases
  · rw [if_pos hnext]
    simp only [ThreadPoint.counted, Nat.lt_succ_iff]
  · rw [if_neg hnext, if_pos (by omega)]
    rfl

theorem passed_endOfPhase (hj : j < phases) : (endOfPhase i).passed j = decide (j ≤ i) := by
  unfold endOfPhase
  split_ifs with hnext
  · simp only [ThreadPoint.passed, Nat.lt_succ_iff]
  · have hle : j ≤ i := by omega
    simp [hle]

theorem inRange_endOfPhase (i : ℕ) : (endOfPhase i).inRange := by
  unfold endOfPhase
  split_ifs with hnext
  · exact hnext
  · trivial

theorem endOfPhase_eq (i : ℕ) : (endOfPhase i ≠ .unborn) ∧ (endOfPhase i).holdsM = false ∧
    (∀ j, (endOfPhase i).holds j = false) ∧ ∀ j, (endOfPhase i).due j = false := by
  unfold endOfPhase
  split_ifs <;> simp [ThreadPoint.holdsM, ThreadPoint.holds, ThreadPoint.due]

/-- What is common to the points of a thread that has counted itself for `mtx[i]` and has computed
`bool`. -/
structure HasCounted (i : ℕ) (bool : Bool) (point : ThreadPoint) : Prop where
  born : point ≠ .unborn
  inRange : i < phases → point.inRange
  counted : ∀ j < phases, point.counted j = if j ≤ i then 1 else 0
  passed : ∀ j < phases, point.passed j = decide (j ≤ i)
  due : ∀ j, point.due j = bool

theorem hasCounted_unlockM (i : ℕ) (success bool : Bool) :
    HasCounted i bool (.unlockM i success bool) :=
  ⟨by simp, id, fun _ _ ↦ rfl, fun _ _ ↦ rfl, fun _ ↦ rfl⟩

theorem hasCounted_unlock (i : ℕ) (bool : Bool) : HasCounted i bool (.unlock i bool) :=
  ⟨by simp, id, fun _ _ ↦ rfl, fun _ _ ↦ rfl, fun _ ↦ rfl⟩

theorem hasCounted_signal (i : ℕ) : HasCounted i true (.signal i) :=
  ⟨by simp, id, fun _ _ ↦ rfl, fun _ _ ↦ rfl, fun _ ↦ rfl⟩

theorem hasCounted_endOfPhase (i : ℕ) : HasCounted i false (endOfPhase i) := by
  obtain ⟨hborn, -, -, hdue⟩ := endOfPhase_eq i
  exact ⟨hborn, fun _ ↦ inRange_endOfPhase i, fun _ ↦ counted_endOfPhase, fun _ ↦ passed_endOfPhase,
    hdue⟩

theorem hasCounted_afterUnlock (i : ℕ) (bool : Bool) : HasCounted i bool (afterUnlock i bool) := by
  cases bool with
  | true => exact hasCounted_signal i
  | false => exact hasCounted_endOfPhase i

theorem holdsM_afterUnlock (i : ℕ) (bool : Bool) : (afterUnlock i bool).holdsM = false := by
  cases bool with
  | true => rfl
  | false => exact (endOfPhase_eq i).2.1

theorem holds_afterUnlock (i j : ℕ) (bool : Bool) : (afterUnlock i bool).holds j = false := by
  cases bool with
  | true => rfl
  | false => exact (endOfPhase_eq i).2.2.1 j

/-- The lock of a mutex returns, successfully or not. -/
theorem Inv.lock (h : Inv succeeds s) {owner : Option (Thread n)} (hpoint : s.thread k = .lock i)
    (howner : if success then s.mtx i = none ∧ owner = some (.thread k)
      else owner = s.mtx i ∧ succeeds k i = false) :
    Inv succeeds ((s.setMtx i owner).goto k (.lockM i success)) := by
  refine h.move hpoint (.lockM i success) rfl rfl rfl (by simp) (.keep rfl) (fun j hj ↦ ?_)
    (fun _ _ ↦ rfl) id (fun j hj hsucceeds hafter ↦ ?_) (.inl rfl)
    fun _ _ hfull ↦ .inr ⟨hfull, rfl⟩
  · by_cases heq : j = i
    · subst heq
      simp only [State.goto, State.setMtx, update_self]
      cases success with
      | true =>
        obtain ⟨hfree, rfl⟩ := howner
        exact .take hfree (by simp [ThreadPoint.holds])
      | false =>
        obtain ⟨rfl, -⟩ := howner
        exact .keep rfl
    · simp only [State.goto, State.setMtx, update_of_ne heq]
      exact .keep (by simp [ThreadPoint.holds, Ne.symm heq])
  · simp only [ThreadPoint.passed, decide_eq_true_eq] at hafter ⊢
    rcases hafter.lt_or_eq with hless | rfl
    · exact .inl hless
    · cases success with
      | true =>
        rw [← Bool.not_eq_true]
        exact .inr ((h.owned j hj).not_holds howner.1 .main)
      | false => simp [howner.2] at hsucceeds

theorem Inv.lockM (h : Inv succeeds s) (hpoint : s.thread k = .lockM i success)
    (hfree : s.m = none) : Inv succeeds { s.goto k (.incr i success) with m := some (.thread k) } :=
  h.move hpoint (.incr i success) rfl rfl rfl (by simp) (.take hfree rfl) (fun _ _ ↦ .keep rfl)
    (fun _ _ ↦ rfl) id (fun _ _ _ ↦ .inl) (.inl rfl) fun _ _ hfull ↦ .inr ⟨hfull, rfl⟩

/-- The count of a thread. If it is the last one, the thread has still to signal. -/
theorem Inv.incr (h : Inv succeeds s) (hpoint : s.thread k = .incr i success) :
    Inv succeeds ((s.incr i success).goto k (.test i success)) := by
  have hcount : ∀ j, ((s.incr i success).goto k (.test i success)).count j =
      s.count j + if j = i then 1 else 0 := by
    intro j
    by_cases heq : j = i
    · subst heq
      cases success <;> simp [State.incr, State.count] <;> omega
    · cases success <;> simp [State.incr, State.count, heq]
  have hsame : (s.incr i success).goto k (.test i success) =
      { s.goto k (.test i success) with
        nbthOK := (s.incr i success).nbthOK, nbthNOK := (s.incr i success).nbthNOK } := by
    cases success <;> rfl
  refine h.move hpoint (.test i success) (by rw [hsame]; rfl) (by rw [hsame]; rfl)
    (by rw [hsame]; rfl) (by simp) (by rw [hsame]; exact .keep rfl)
    (fun _ _ ↦ by rw [hsame]; exact .keep rfl) (fun j _ ↦ ?_) id (fun _ _ _ ↦ .inl) (.inr rfl)
    fun j _ hfull ↦ ?_
  · rw [hcount]
    simp only [ThreadPoint.counted]
    split_ifs <;> omega
  · rw [hcount] at hfull
    by_cases heq : j = i
    · exact .inl (by simp [ThreadPoint.due, heq])
    · rw [if_neg heq] at hfull
      exact .inr ⟨hfull, rfl⟩

/-- All threads have been created when `main` is blocked. -/
theorem Inv.nbthTOT_eq (h : Inv succeeds s) (hblocked : s.main = .blocked i) : s.nbthTOT = n := by
  have hcreated := h.created
  rw [hblocked] at hcreated
  simpa [MainPoint.rest, MainPoint.uncounted] using hcreated

theorem Inv.test (h : Inv succeeds s) (hpoint : s.thread k = .test i success) :
    Inv succeeds (s.goto k (.unlockM i success (decide (s.nbthTOT ≤ s.count i)))) := by
  refine h.move hpoint (.unlockM i success _) rfl rfl rfl (by simp) (.keep rfl)
    (fun _ _ ↦ .keep rfl) (fun _ _ ↦ rfl) id (fun _ _ _ ↦ .inl) (.inl rfl) ?_
  intro j hblocked hfull
  have hfull' : n ≤ s.count j := hfull
  by_cases heq : i = j
  · subst heq
    exact .inl (by simp [ThreadPoint.due, h.nbthTOT_eq hblocked, hfull'])
  · exact .inr ⟨hfull', by simp [ThreadPoint.due, heq]⟩

/-- A thread that has counted itself goes on. The last argument is trivial unless it signals. -/
theorem Inv.leave (h : Inv succeeds s) {bool bool' : Bool} (hold : s.thread k = old)
    (hbefore : HasCounted i bool old) (hrange : i < phases) (hafter : HasCounted i bool' point)
    (hthread : s'.thread = update s.thread k point) (hmain : s'.main = s.main)
    (htotal : s'.nbthTOT = s.nbthTOT) (hcount : s'.count = s.count)
    (hpassM : Passes (.thread k) s.m old.holdsM point.holdsM s'.m)
    (hpass : ∀ j < phases,
      Passes (.thread k) (s.mtx j) (old.holds j) (point.holds j) (s'.mtx j))
    (hsignals : bool' = bool ∨ ∀ j, s.main ≠ .blocked j) : Inv succeeds s' := by
  refine h.move hold point hthread hmain htotal ⟨hbefore.born, hafter.born⟩ hpassM hpass
    (fun j hj ↦ ?_) (fun _ ↦ hafter.inRange hrange) (fun j hj _ hpassed ↦ .inl ?_) (.inl hcount)
    (fun j hblocked hfull ↦ ?_)
  · rw [hcount, hbefore.counted j hj, hafter.counted j hj]
  · rw [hafter.passed j hj] at hpassed
    rw [hbefore.passed j hj, hpassed]
  · rw [hcount] at hfull
    rw [hbefore.due j, hafter.due j]
    rcases hsignals with rfl | hnever
    · cases bool' with
      | true => exact .inl rfl
      | false => exact .inr ⟨hfull, rfl⟩
    · exact absurd hblocked (hnever j)

/-- Assumes: `main` goes to another point after it has created the threads, and no thread moves. -/
theorem Inv.mainGoto (h : Inv succeeds s) {point : MainPoint n} (hthread : s'.thread = s.thread)
    (hmain : s'.main = point) (htotal : s'.nbthTOT = s.nbthTOT) (hcount : s'.count = s.count)
    (hrest : point.rest = s.main.rest) (huncounted : point.uncounted = s.main.uncounted)
    (hpassM : Passes .main s.m s.main.holdsM point.holdsM s'.m)
    (hpass : ∀ j < phases,
      Passes .main (s.mtx j) (s.main.keeps j) (point.keeps j) (s'.mtx j)) (hrange : point.inRange)
    (hkeeps : ∀ j < phases, s.main.keeps j = false → point.keeps j = false)
    (hfresh : ∀ j, point = .wait j → (∃ k, succeeds k j = true) → s.count j < n)
    (hdue : ∀ j, point = .blocked j → s.main = .wait j) : Inv succeeds s' where
  ownedM := owned_main h.ownedM rfl hthread hmain hpassM
  owned j hj := owned_main (h.owned j hj) rfl hthread hmain (hpass j hj)
  unborn := fun k ↦ by
    rw [hthread, hmain, hrest]
    exact h.unborn k
  nodup := by
    rw [hmain, hrest]
    exact h.nodup
  created := by
    rw [hmain, htotal, hrest, huncounted]
    exact h.created
  count := fun j hj ↦ by
    rw [hcount, hthread]
    exact h.count j hj
  inRange := by
    rw [hmain, hthread]
    exact ⟨hrange, h.inRange.2⟩
  passed := fun k j hj hsucceeds hpassed ↦ by
    rw [hmain]
    rw [hthread] at hpassed
    exact hkeeps j hj (h.passed k j hj hsucceeds hpassed)
  fresh := fun j hwait ↦ by
    rw [hcount]
    exact hfresh j (hmain.symm.trans hwait)
  due := fun j hblocked hsome hfull ↦ by
    rw [hcount] at hfull
    have hless := h.fresh j (hdue j (hmain.symm.trans hblocked)) hsome
    omega

/-- A step of `main` by which no mutex of the phases changes hands. -/
theorem Inv.mainStep (h : Inv succeeds s) {old : MainPoint n} (hold : s.main = old)
    (point : MainPoint n) {m : Option (Thread n)} (hrest : point.rest = old.rest)
    (huncounted : point.uncounted = old.uncounted)
    (hpassM : Passes .main s.m old.holdsM point.holdsM m) (hrange : old.inRange → point.inRange)
    (hkeeps : ∀ j < phases, point.keeps j = old.keeps j)
    (hfresh : ∀ j, point = .wait j → (∃ k, succeeds k j = true) → s.count j < n)
    (hdue : ∀ j, point = .blocked j → old = .wait j) :
    Inv succeeds { s with main := point, m := m } := by
  subst hold
  exact h.mainGoto rfl rfl rfl rfl hrest huncounted hpassM (fun j hj ↦ .keep (hkeeps j hj))
    (hrange h.inRange.1) (fun j hj hbefore ↦ (hkeeps j hj).trans hbefore) hfresh hdue

theorem Inv.main_inRange (h : Inv succeeds s) {point : MainPoint n} (hmain : s.main = point) :
    point.inRange :=
  hmain ▸ h.inRange.1

theorem wake_ne_blocked (point : MainPoint n) (i : ℕ) : point.wake ≠ .blocked i := by
  cases point <;> simp

theorem Inv.wake (h : Inv succeeds s) : Inv succeeds { s with main := s.main.wake } := by
  have hcases : s.main.wake = s.main ∨ ∃ i, s.main = .blocked i := by
    cases s.main <;> simp
  obtain hsame | ⟨i, hmain⟩ := hcases
  · rwa [hsame]
  · rw [hmain]
    exact h.mainStep hmain (.woken i) rfl rfl (.keep rfl) id (fun _ _ ↦ rfl) (by simp) (by simp)

theorem Inv.threaded (h : Inv succeeds s) (hstep : threaded succeeds s k = some s') :
    Inv succeeds s' := by
  unfold Phases.threaded at hstep
  cases hpoint : s.thread k <;> simp only [hpoint, reduceCtorEq] at hstep
  case lock i =>
    by_cases hsucceeds : succeeds k i = true
    · rw [if_pos hsucceeds, Option.map_eq_some_iff] at hstep
      obtain ⟨owner, hlock, rfl⟩ := hstep
      exact h.lock hpoint (mutexLock_eq_some_iff.mp hlock)
    · rw [if_neg hsucceeds] at hstep
      cases hstep
      have hlock : Inv succeeds ((s.setMtx i (s.mtx i)).goto k (.lockM i false)) :=
        h.lock hpoint ⟨rfl, by simpa using hsucceeds⟩
      simpa only [State.setMtx, update_eq_self] using hlock
  case lockM i success =>
    obtain ⟨hfree, rfl⟩ := map_mutexLock_eq_some_iff.mp hstep
    exact h.lockM hpoint hfree
  case incr i success =>
    cases hstep
    exact h.incr hpoint
  case test i success =>
    cases hstep
    exact h.test hpoint
  case unlockM i success bool =>
    cases hstep
    have hrange : i < phases := h.thread_inRange hpoint
    cases success with
    | true =>
      exact h.leave hpoint (hasCounted_unlockM i true bool) hrange (hasCounted_unlock i bool) rfl
        rfl rfl rfl (.drop rfl rfl) (fun _ _ ↦ .keep (by simp [ThreadPoint.holds])) (.inl rfl)
    | false =>
      exact h.leave hpoint (hasCounted_unlockM i false bool) hrange (hasCounted_afterUnlock i bool)
        rfl rfl rfl rfl (.drop rfl (holdsM_afterUnlock i bool))
        (fun j _ ↦ .keep (holds_afterUnlock i j bool)) (.inl rfl)
  case unlock i bool =>
    cases hstep
    refine h.leave hpoint (hasCounted_unlock i bool) (h.thread_inRange hpoint)
      (hasCounted_afterUnlock i bool) rfl rfl rfl rfl (.keep (holdsM_afterUnlock i bool))
      (fun j _ ↦ ?_) (.inl rfl)
    by_cases heq : j = i
    · subst heq
      simp only [State.goto, State.setMtx, update_self]
      exact .drop (by simp [ThreadPoint.holds]) (holds_afterUnlock j j bool)
    · simp only [State.goto, State.setMtx, update_of_ne heq]
      refine .keep ?_
      rw [holds_afterUnlock]
      simp [ThreadPoint.holds, Ne.symm heq]
  case signal i =>
    cases hstep
    obtain ⟨-, hholdsM, hholds, -⟩ := endOfPhase_eq i
    exact h.wake.leave hpoint (hasCounted_signal i) (h.thread_inRange hpoint)
      (hasCounted_endOfPhase i) rfl rfl rfl rfl (.keep hholdsM) (fun j _ ↦ .keep (hholds j))
      (.inr (wake_ne_blocked s.main))

/-! ### Steps of `main` -/

theorem Inv.create (h : Inv succeeds s) {rest : List (Fin n)}
    (hmain : s.main = .create (k :: rest)) :
    Inv succeeds { s.goto k (.lock 0) with main := .incrTOT rest } := by
  have hnodup := h.nodup
  rw [hmain] at hnodup
  obtain ⟨hout, hrest⟩ := List.nodup_cons.mp hnodup
  have hunborn : s.thread k = .unborn := by
    rw [h.unborn k, hmain]
    exact List.mem_cons_self
  have hcreated := h.created
  rw [hmain] at hcreated
  exact {
    ownedM := owned_main (s := s.goto k (.lock 0))
      (owned_thread h.ownedM hunborn rfl rfl (.keep rfl)) hmain rfl rfl (.keep rfl)
    owned := fun j hj ↦ owned_main (s := s.goto k (.lock 0))
      (owned_thread (h.owned j hj) hunborn rfl rfl (.keep rfl)) hmain rfl rfl (.keep rfl)
    unborn := (forall_update_iff s.thread fun j point ↦ point = .unborn ↔ j ∈ rest).mpr
      ⟨iff_of_false (by simp) hout, fun j hne ↦ by
        rw [h.unborn j, hmain]
        exact List.mem_cons.trans (or_iff_right hne)⟩
    nodup := hrest
    created := by
      simp only [State.goto, MainPoint.rest, MainPoint.uncounted, List.length_cons] at hcreated ⊢
      omega
    count := fun j hj ↦ by
      have hmove := total_update (ThreadPoint.counted j) s.thread k (.lock 0)
      have hbefore := h.count j hj
      rw [hunborn] at hmove
      simp only [State.goto, State.count, ThreadPoint.counted, Nat.not_lt_zero, if_false]
        at hmove hbefore ⊢
      omega
    inRange := ⟨trivial, (forall_update_iff s.thread fun _ point ↦ point.inRange).mpr
      ⟨by simp [ThreadPoint.inRange, phases], fun j _ ↦ h.inRange.2 j⟩⟩
    passed := (forall_update_iff s.thread fun k point ↦ ∀ j < phases, succeeds k j = true →
      point.passed j = true → MainPoint.keeps j (.incrTOT rest) = false).mpr
        ⟨by simp, fun j _ i hi hsucceeds hpassed ↦ by
          have hkeeps := h.passed j i hi hsucceeds hpassed
          simp [hmain, MainPoint.keeps] at hkeeps⟩
    fresh := by simp
    due := by simp }

theorem Inv.incrTOT (h : Inv succeeds s) {rest : List (Fin n)} (hmain : s.main = .incrTOT rest) :
    Inv succeeds { s with nbthTOT := s.nbthTOT + 1, main := .create rest } := by
  have hcreated := h.created
  have hunborn := h.unborn
  have hnodup := h.nodup
  have hpassed := h.passed
  rw [hmain] at hcreated hunborn hnodup hpassed
  exact {
    ownedM := owned_main h.ownedM hmain rfl rfl (.keep rfl)
    owned := fun j hj ↦ owned_main (h.owned j hj) hmain rfl rfl (.keep rfl)
    unborn := hunborn
    nodup := hnodup
    created := by
      simp only [MainPoint.rest, MainPoint.uncounted] at hcreated ⊢
      omega
    count := h.count
    inRange := ⟨trivial, h.inRange.2⟩
    passed := hpassed
    fresh := by simp
    due := by simp }

/-- A thread that has not returned from a lock has not counted itself. -/
theorem counted_eq_zero (h : point.passed j = false) : point.counted j = 0 := by
  cases point <;> simp_all [ThreadPoint.counted] <;> omega

theorem counted_le_one (j : ℕ) (point : ThreadPoint) : point.counted j ≤ 1 := by
  cases point <;> simp only [ThreadPoint.counted]
  case unborn | exited => omega
  all_goals split_ifs <;> omega

/-- Not all threads have counted themselves. -/
theorem Inv.count_lt (h : Inv succeeds s) (hj : j < phases) (hk : (s.thread k).counted j = 0) :
    s.count j < n := by
  rw [h.count j hj]
  have hlt : total (ThreadPoint.counted j) s.thread < ∑ _i : Fin n, 1 :=
    Finset.sum_lt_sum (fun i _ ↦ counted_le_one j (s.thread i)) ⟨k, Finset.mem_univ k, by omega⟩
  simpa using hlt

/-- `main` releases a mutex. A thread that locks it has not done so, and `main` holds `m`. -/
theorem Inv.unlock (h : Inv succeeds s) (hmain : s.main = .unlock i) :
    Inv succeeds { s.setMtx i none with main := .wait i } := by
  have hrange : i < phases := h.main_inRange hmain
  refine h.mainGoto rfl rfl rfl rfl (by rw [hmain]; rfl) (by rw [hmain]; rfl)
    (.keep (by rw [hmain]; rfl)) (fun j hj ↦ ?_) hrange (fun j _ hkeeps ↦ ?_)
    (fun j hwait hsome ↦ ?_) (by simp)
  · by_cases heq : j = i
    · subst heq
      simp only [State.setMtx, update_self, hmain]
      exact .drop (by simp [MainPoint.keeps]) (by simp [MainPoint.keeps])
    · simp only [State.setMtx, update_of_ne heq, hmain]
      refine .keep ?_
      simp only [MainPoint.keeps, decide_eq_decide]
      omega
  · simp only [hmain, MainPoint.keeps, decide_eq_false_iff_not] at hkeeps ⊢
    omega
  · obtain rfl : i = j := by simpa using hwait
    obtain ⟨k, hsucceeds⟩ := hsome
    refine h.count_lt (k := k) hrange (counted_eq_zero ?_)
    rw [← Bool.not_eq_true]
    intro hpassed
    have hkeeps := h.passed k i hrange hsucceeds hpassed
    simp [hmain, MainPoint.keeps] at hkeeps

theorem Inv.main (h : Inv succeeds s) (hstep : main s = some s') : Inv succeeds s' := by
  unfold Phases.main at hstep
  cases hmain : s.main <;> simp only [hmain, reduceCtorEq] at hstep
  case create rest =>
    cases rest with
    | nil =>
      cases hstep
      exact h.mainStep hmain .lockM rfl rfl (.keep rfl) id (fun _ _ ↦ rfl) (by simp) (by simp)
    | cons k rest =>
      cases hstep
      exact h.create hmain
  case incrTOT rest =>
    cases hstep
    exact h.incrTOT hmain
  case lockM =>
    obtain ⟨hfree, rfl⟩ := map_mutexLock_eq_some_iff.mp hstep
    exact h.mainStep hmain (.unlock 0) rfl rfl (.take hfree rfl)
      (by simp [MainPoint.inRange, phases]) (by simp [MainPoint.keeps]) (by simp) (by simp)
  case unlock i =>
    cases hstep
    exact h.unlock hmain
  case wait i =>
    cases hstep
    exact h.mainStep hmain (.blocked i) rfl rfl (.drop rfl rfl) id (fun _ _ ↦ rfl) (by simp)
      (by simp)
  case woken i =>
    obtain ⟨hfree, rfl⟩ := map_mutexLock_eq_some_iff.mp hstep
    exact h.mainStep hmain (.test i) rfl rfl (.take hfree rfl) id (fun _ _ ↦ rfl) (by simp)
      (by simp)
  case test i =>
    cases hstep
    have hcreated := h.created
    split_ifs with hless hnext
    · refine h.mainStep hmain (.wait i) rfl rfl (.keep rfl) id (fun _ _ ↦ rfl)
        (fun j hwait _ ↦ ?_) (by simp)
      obtain rfl : i = j := by simpa using hwait
      omega
    · exact h.mainStep hmain (.unlock (i + 1)) rfl rfl (.keep rfl) (fun _ ↦ hnext)
        (fun _ _ ↦ rfl) (by simp) (by simp)
    · refine h.mainStep hmain .unlockM rfl rfl (.keep rfl) (fun _ ↦ trivial) (fun j hj ↦ ?_)
        (by simp) (by simp)
      rw [MainPoint.keeps, MainPoint.keeps, eq_comm, decide_eq_false_iff_not]
      omega
  case unlockM =>
    cases hstep
    exact h.mainStep hmain .ended rfl rfl (.drop rfl rfl) id (fun _ _ ↦ rfl) (by simp) (by simp)

theorem Inv.next (h : Inv succeeds s) {move : Move n} (hstep : next succeeds s move = some s') :
    Inv succeeds s' := by
  cases move with
  | thread thread =>
    cases thread with
    | main => exact h.main hstep
    | thread k => exact h.threaded hstep
  | spurious =>
    simp only [Phases.next] at hstep
    split_ifs at hstep
    cases hstep
    exact h.wake

theorem inv_of_reachable (h : (program succeeds).Reachable s) : Inv succeeds s :=
  h.invariant (fun _ hs ↦ hs ▸ inv_start) fun _ _ _ _ hinv hnext ↦ hinv.next hnext

end OpenPosix.Mutexes.Phases

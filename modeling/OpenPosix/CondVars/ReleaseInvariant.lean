import OpenPosix.CondVars.ReleaseModel

/-!
# The waiters and their counter

The invariant of `do_threads_test`: who holds the mutex, which waiters exist, that `tnum` is the
number of the waiters that have counted themselves, and that all of them have from the moment on in
which the poll has seen it until they are released. It holds with and without spurious wake-ups.
-/

namespace OpenPosix.CondVars.Release

open Interleaving Function

variable {n rounds : ℕ} {wakes : Bool} {s s' : State n} {i : Fin n}

attribute [simp] State.goto

/-! ### Classes of points -/

@[simp] def WaiterPoint.holds : WaiterPoint → Bool
  | .incr | .wait | .test | .unlock => true
  | _ => false

/-- One for a waiter that has counted itself in `tnum`. -/
@[simp] def WaiterPoint.counted : WaiterPoint → ℕ
  | .unborn | .lock | .incr => 0
  | _ => 1

/-- `do_threads_test` holds the mutex. The process ends with the mutex locked. -/
@[simp] def MainPoint.holds : MainPoint n → Bool
  | .poll | .unlock _ | .timedwait | .testRc _ | .checkTime | .measureUnlock | .exited => true
  | _ => false

/-- `do_threads_test` has seen that all waiters have counted themselves, and has not released them.
-/
@[simp] def MainPoint.gathered : MainPoint n → Bool
  | .unlock again => !again
  | .measureLock | .timedwait | .timing | .woken _ | .testRc _ | .checkTime | .measureUnlock => true
  | .setPredicate _ ok | .broadcast _ ok => ok
  | _ => false

@[simp] def MainPoint.Created : MainPoint n → Fin n → Prop
  | .create created _, i => i ∈ created
  | .setPredicate joins _, i | .broadcast joins _, i | .join joins _, i => i ∈ joins
  | .setup, _ | .ended _, _ | .exited, _ => False
  | _, _ => True

def MainPoint.Absent : MainPoint n → Fin n → Prop
  | .create created _, i => i ∉ created
  | .setPredicate joins _, i | .broadcast joins _, i => i ∉ joins
  | _, _ => False

/-- Who holds the mutex, as the points say. -/
def Holds (s : State n) : Thread n → Prop
  | .main => s.main.holds = true
  | .waiter i => (s.waiter i).holds = true

structure Inv (s : State n) : Prop where
  owned : Owned s.mtx (Holds s)
  count : s.tnum = total WaiterPoint.counted s.waiter
  split : ∀ created rest, s.main = .create created rest →
    created.reverse ++ rest = List.finRange n
  born : ∀ i, s.main.Created i → s.waiter i ≠ .unborn
  unborn : ∀ i, s.main.Absent i → s.waiter i = .unborn
  set : ∀ joins ok, s.main = .broadcast joins ok → s.predicate = true
  ready : s.main.gathered = true → ∀ i, (s.waiter i).counted = 1

theorem inv_start : Inv (start n) where
  owned := fun thread ↦ by cases thread <;> simp [start, Holds]
  count := (total_eq_zero fun _ ↦ rfl).symm
  split := by simp [start]
  born := by simp [start]
  unborn := by simp [start]
  set := by simp [start]
  ready := by simp [start]

/-! ### The mutex -/

theorem holds_goto (point : WaiterPoint) :
    Holds (s.goto i point) = update (Holds s) (.waiter i) (point.holds = true) := by
  refine eq_update_iff.mpr ⟨by simp [Holds], fun thread hne ↦ ?_⟩
  cases thread with
  | main => rfl
  | waiter j =>
    have hj : j ≠ i := fun hji ↦ hne (hji ▸ rfl)
    simp [Holds, update_of_ne hj]

theorem holds_main (point : MainPoint n) :
    Holds { s with main := point } = update (Holds s) .main (point.holds = true) := by
  ext1 thread
  cases thread <;> simp [Holds, update]

/-! ### Steps of a waiter -/

/-- Assumes: a waiter goes to another point, and the mutex and the counter follow. -/
theorem Inv.move (h : Inv s) {point : WaiterPoint} {mtx : Option (Thread n)} (tnum : ℕ)
    (hborn : s.waiter i ≠ .unborn) (hpoint : point ≠ .unborn)
    (hpass : Passes (.waiter i) s.mtx (s.waiter i).holds point.holds mtx)
    (hcount : tnum + (s.waiter i).counted = s.tnum + point.counted)
    (hready : (s.waiter i).counted ≤ point.counted) :
    Inv { s.goto i point with mtx := mtx, tnum := tnum } where
  owned := by
    have howned := h.owned.pass Iff.rfl hpass
    rwa [← holds_goto] at howned
  count := by
    have hmove := total_update WaiterPoint.counted s.waiter i point
    have hbefore := h.count
    simp only [State.goto]
    omega
  split := h.split
  born := fun j hj ↦ by
    by_cases heq : j = i
    · subst heq
      simpa using hpoint
    · simpa [update_of_ne heq] using h.born j hj
  unborn := fun j hj ↦ by
    have hne : j ≠ i := by
      rintro rfl
      exact hborn (h.unborn j hj)
    simpa [update_of_ne hne] using h.unborn j hj
  set := h.set
  ready := fun hgathered j ↦ by
    by_cases heq : j = i
    · subst heq
      have hone := h.ready hgathered j
      have hbound : point.counted ≤ 1 := by cases point <;> simp
      simp only [State.goto, update_self]
      omega
    · simpa [update_of_ne heq] using h.ready hgathered j

theorem Inv.waiter (h : Inv s) (hnext : waiter s i = some s') : Inv s' := by
  unfold Release.waiter at hnext
  cases hpoint : s.waiter i <;> simp only [hpoint, reduceCtorEq] at hnext
  case lock | woken =>
    obtain ⟨hfree, rfl⟩ := map_mutexLock_eq_some_iff.mp hnext
    exact h.move s.tnum (by simp [hpoint]) (by simp) (.take hfree rfl) (by simp [hpoint])
      (by simp [hpoint])
  case incr =>
    cases hnext
    exact h.move _ (by simp [hpoint]) (by simp) (.keep (by simp [hpoint])) (by simp [hpoint])
      (by simp [hpoint])
  case test =>
    cases hnext
    refine h.move s.tnum (by simp [hpoint]) (by split <;> simp) (.keep ?_) ?_ ?_ <;> split <;>
      simp [hpoint]
  case wait | unlock =>
    cases hnext
    exact h.move s.tnum (by simp [hpoint]) (by simp) (.drop (by simp [hpoint]) rfl)
      (by simp [hpoint]) (by simp [hpoint])

/-! ### Steps of `do_threads_test` -/

/-- Nothing is known of these points but which waiters exist. -/
def MainPoint.plain : MainPoint n → Bool
  | .create _ _ | .broadcast _ _ => false
  | _ => true

/-- Assumes: `do_threads_test` goes to another point, and the mutex follows. -/
theorem Inv.goes (h : Inv s) {point : MainPoint n} {mtx : Option (Thread n)} (round : ℕ)
    (hpass : Passes .main s.mtx s.main.holds point.holds mtx)
    (hplain : point.plain = true) (hborn : ∀ i, point.Created i → s.main.Created i)
    (hunborn : ∀ i, point.Absent i → s.main.Absent i)
    (hready : point.gathered = true → ∀ i, (s.waiter i).counted = 1) :
    Inv { s with main := point, mtx := mtx, round := round } where
  owned := by
    have howned := h.owned.pass Iff.rfl hpass
    rwa [← holds_main] at howned
  count := h.count
  split := by
    rintro created rest rfl
    simp [MainPoint.plain] at hplain
  born := fun i hi ↦ h.born i (hborn i hi)
  unborn := fun i hi ↦ h.unborn i (hunborn i hi)
  set := by
    rintro joins ok rfl
    simp [MainPoint.plain] at hplain
  ready := hready

/-- No more is known of the waiters at the point than at the old one. -/
structure MainPoint.Within (point old : MainPoint n) : Prop where
  plain : point.plain = true
  created : ∀ i, point.Created i → old.Created i
  absent : ∀ i, point.Absent i → old.Absent i
  gathered : point.gathered = true → old.gathered = true

theorem Inv.within (h : Inv s) {old point : MainPoint n} {mtx : Option (Thread n)} (round : ℕ)
    (hmain : s.main = old) (hpass : Passes .main s.mtx old.holds point.holds mtx)
    (hwithin : point.Within old) : Inv { s with main := point, mtx := mtx, round := round } := by
  subst hmain
  exact h.goes round hpass hwithin.plain hwithin.created hwithin.absent
    fun hgathered ↦ h.ready (hwithin.gathered hgathered)

theorem Inv.setPredicate (h : Inv s) {joins : List (Fin n)} {ok : Bool}
    (hmain : s.main = .setPredicate joins ok) :
    Inv { s with main := .broadcast joins ok, predicate := true } where
  owned := h.owned.congr fun thread ↦ by cases thread <;> simp [Holds, hmain]
  count := h.count
  split := by simp
  born := fun i hi ↦ h.born i (by rw [hmain]; exact hi)
  unborn := fun i hi ↦ h.unborn i (by rw [hmain]; exact hi)
  set := fun _ _ _ ↦ rfl
  ready := fun hgathered ↦ h.ready (by rw [hmain]; exact hgathered)

theorem inv_setup (round : ℕ) :
    Inv (⟨round, .create [] (List.finRange n), fun _ ↦ .unborn, none, false, 0⟩ : State n) where
  owned := fun thread ↦ by
    cases thread <;> simp [Holds]
  count := (total_eq_zero fun _ ↦ rfl).symm
  split := fun created rest heq ↦ by
    obtain ⟨rfl, rfl⟩ := MainPoint.create.inj heq
    rfl
  born := by simp
  unborn := fun _ _ ↦ rfl
  set := by simp
  ready := by simp

theorem Inv.create (h : Inv s) {created rest : List (Fin n)}
    (hmain : s.main = .create created (i :: rest)) :
    Inv { s.goto i .lock with main := .create (i :: created) rest } := by
  have hsplit := h.split _ _ hmain
  have hnew : i ∉ created := by
    have hnodup := List.nodup_finRange n
    rw [← hsplit, List.nodup_append] at hnodup
    intro hmem
    exact hnodup.2.2 i (List.mem_reverse.mpr hmem) i List.mem_cons_self rfl
  have hunborn : s.waiter i = .unborn := h.unborn i (by rw [hmain]; exact hnew)
  refine ⟨?_, ?_, ?_, ?_, ?_, by simp, by simp⟩
  · have howned : Owned s.mtx (Holds (s.goto i .lock)) := by
      rw [holds_goto]
      exact h.owned.update_same (by simp [Holds, hunborn])
    refine howned.congr fun thread ↦ ?_
    cases thread <;> simp [Holds, hmain]
  · have hmove : total WaiterPoint.counted (update s.waiter i .lock) =
        total WaiterPoint.counted s.waiter := total_update_of_eq (by rw [hunborn]; rfl)
    exact h.count.trans hmove.symm
  · intro created' rest' heq
    obtain ⟨rfl, rfl⟩ := MainPoint.create.inj heq
    simpa using hsplit
  · intro j hj
    by_cases heq : j = i
    · subst heq
      simp
    · have hmem : s.main.Created j := by
        rw [hmain]
        exact (List.mem_cons.mp hj).resolve_left heq
      simpa [update_of_ne heq] using h.born j hmem
  · intro j hj
    obtain ⟨hne, hnot⟩ := not_or.mp (mt List.mem_cons.mpr hj)
    simpa [update_of_ne hne] using h.unborn j (by rw [hmain]; exact hnot)

section Wake

variable (point : WaiterPoint)

theorem holds_wake : point.wake.holds = point.holds := by cases point <;> rfl

theorem counted_wake : point.wake.counted = point.counted := by cases point <;> rfl

theorem wake_eq_unborn : (point.wake = .unborn) = (point = .unborn) := by
  cases point <;> simp [WaiterPoint.wake]

end Wake

theorem Inv.broadcast (h : Inv s) {joins : List (Fin n)} {ok : Bool}
    (hmain : s.main = .broadcast joins ok) : Inv { s with
      main := .join joins ok, waiter := wakeUp WaiterPoint.wake Finset.univ s.waiter } where
  owned := h.owned.congr fun thread ↦ by
    cases thread with
    | main => simp [Holds, hmain]
    | waiter i => simp only [Holds, apply_wakeUp holds_wake]
  count := by
    have htotal : total WaiterPoint.counted (wakeUp WaiterPoint.wake Finset.univ s.waiter) =
        total WaiterPoint.counted s.waiter :=
      Finset.sum_congr rfl fun i _ ↦ apply_wakeUp counted_wake _ s.waiter i
    rw [htotal]
    exact h.count
  split := by simp
  born := fun i hi ↦ by
    have hborn := h.born i (by rw [hmain]; exact hi)
    have hwake := apply_wakeUp (f := fun point ↦ point = .unborn) wake_eq_unborn Finset.univ
      s.waiter i
    exact fun hunborn ↦ hborn (hwake ▸ hunborn)
  unborn := by simp [MainPoint.Absent]
  set := by simp
  ready := by simp

theorem total_counted_eq (htotal : n ≤ total WaiterPoint.counted s.waiter) (i : Fin n) :
    (s.waiter i).counted = 1 := by
  have hone : ∀ i, (s.waiter i).counted ≤ 1 := fun i ↦ by
    cases s.waiter i <;> simp
  have hall : total WaiterPoint.counted s.waiter = Fintype.card (Fin n) :=
    le_antisymm (total_le_card hone) (by simpa using htotal)
  exact eq_one_of_total_eq_card hone hall i

theorem Inv.doThreadsTest (h : Inv s) {ok : Bool} (hnext : doThreadsTest rounds s ok = some s') :
    Inv s' := by
  have hnot : ∀ {P : Prop}, false = true → P := fun hfalse ↦ absurd hfalse Bool.false_ne_true
  unfold Release.doThreadsTest at hnext
  cases hmain : s.main <;> simp only [hmain, reduceCtorEq] at hnext
  case setup =>
    split at hnext <;> cases hnext
    · exact inv_setup s.round
    · exact h.within s.round hmain (.keep rfl) ⟨rfl, fun _ ↦ id, fun _ ↦ id, hnot⟩
  case create created rest =>
    cases rest with
    | nil =>
      cases hnext
      have hall : ∀ i, i ∈ created := fun i ↦ by
        have hsplit := h.split _ _ hmain
        rw [List.append_nil] at hsplit
        rw [← List.mem_reverse, hsplit]
        exact List.mem_finRange i
      exact h.within s.round hmain (.keep rfl) ⟨rfl, fun i _ ↦ hall i, fun _ ↦ False.elim, hnot⟩
    | cons i rest =>
      simp only at hnext
      split at hnext <;> cases hnext
      · exact h.create hmain
      · exact h.within s.round hmain (.keep rfl) ⟨rfl, fun _ ↦ id, fun _ ↦ id, hnot⟩
  case lock =>
    obtain ⟨hfree, rfl⟩ := map_mutexLock_eq_some_iff.mp hnext
    exact h.within s.round hmain (.take hfree rfl) ⟨rfl, fun _ ↦ id, fun _ ↦ id, hnot⟩
  case measureLock | woken =>
    obtain ⟨hfree, rfl⟩ := map_mutexLock_eq_some_iff.mp hnext
    exact h.within s.round hmain (.take hfree rfl) ⟨rfl, fun _ ↦ id, fun _ ↦ id, id⟩
  case poll =>
    cases hnext
    refine h.goes s.round (.keep (by simp [hmain])) rfl (by simp [hmain])
      (by simp [MainPoint.Absent]) fun hgathered ↦ ?_
    refine total_counted_eq ?_
    rw [← h.count]
    simpa using hgathered
  case unlock again =>
    cases hnext
    cases again with
    | true => exact h.within s.round hmain (.drop rfl rfl) ⟨rfl, fun _ ↦ id, fun _ ↦ id, hnot⟩
    | false => exact h.within s.round hmain (.drop rfl rfl) ⟨rfl, fun _ ↦ id, fun _ ↦ id, id⟩
  case timedwait =>
    cases hnext
    exact h.within s.round hmain (.drop rfl rfl) ⟨rfl, fun _ ↦ id, fun _ ↦ id, id⟩
  case measureUnlock =>
    cases hnext
    exact h.within s.round hmain (.drop rfl rfl)
      ⟨rfl, fun _ _ ↦ trivial, fun i hi ↦ absurd (List.mem_finRange i) hi, id⟩
  case testRc expired =>
    cases hnext
    cases expired <;> exact h.within s.round hmain (.keep rfl) ⟨rfl, fun _ ↦ id, fun _ ↦ id, id⟩
  case checkTime =>
    cases hnext
    cases ok with
    | true => exact h.within s.round hmain (.keep rfl) ⟨rfl, fun _ ↦ id, fun _ ↦ id, id⟩
    | false => exact h.within s.round hmain (.keep rfl) ⟨rfl, fun _ ↦ False.elim, fun _ ↦ id, hnot⟩
  case setPredicate joins ok =>
    cases hnext
    exact h.setPredicate hmain
  case broadcast joins ok =>
    cases hnext
    exact h.broadcast hmain
  case join joins ok =>
    rcases joins with - | ⟨i, rest⟩
    · cases ok <;> simp only at hnext <;> cases hnext <;>
        exact h.within _ hmain (.keep rfl) ⟨rfl, fun _ ↦ False.elim, fun _ ↦ id, hnot⟩
    · simp only at hnext
      split_ifs at hnext
      cases hnext
      exact h.within s.round hmain (.keep rfl)
        ⟨rfl, fun j ↦ List.mem_cons_of_mem i, fun _ ↦ id, hnot⟩

/-! ### All steps -/

theorem Inv.next (h : Inv s) {move : Move n}
    (hnext : (program n rounds wakes).next s move = some s') : Inv s' := by
  unfold program at hnext
  simp only at hnext
  split at hnext
  · cases hnext
  · have hmain : ∀ expired, s.main = .timing → Inv { s with main := .woken expired } :=
      fun expired htiming ↦ h.within s.round htiming (.keep rfl) ⟨rfl, fun _ ↦ id, fun _ ↦ id, id⟩
    cases move with
    | main ok => exact h.doThreadsTest hnext
    | waiter i => exact h.waiter hnext
    | expire =>
      obtain ⟨htiming, rfl⟩ := by simpa [expire] using hnext
      exact hmain true htiming
    | spurious thread =>
      cases thread with
      | main =>
        obtain ⟨-, htiming, rfl⟩ := by simpa [spurious] using hnext
        exact hmain false htiming
      | waiter i =>
        obtain ⟨-, hblocked, rfl⟩ := by simpa [spurious] using hnext
        exact h.move s.tnum (by simp [hblocked]) (by simp) (.keep (by simp [hblocked]))
          (by simp [hblocked]) (by simp [hblocked])

theorem inv_of_reachable (h : (program n rounds wakes).Reachable s) : Inv s :=
  h.invariant (fun _ hs ↦ hs ▸ inv_start) fun _ _ _ _ hinv hnext ↦ hinv.next hnext

end OpenPosix.CondVars.Release

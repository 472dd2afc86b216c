import OpenPosix.CondVars.ReleaseInvariant

/-!
# Which waiters a broadcast misses

A waiter that has not entered its wait when `do_threads_test` broadcasts, and will do so without
another look at `predicate`, is `early`: it blocks after the broadcast, nobody wakes it up, and the
joins are stuck. If no waiter is early the joins complete (`neverStuck_iff`). This holds for both
broadcasts; what differs is which waiters can be early.

When a creation has failed, the waiters may be anywhere, and without spurious wake-ups all that are
not blocked are early (`failure_joins_iff`). When the waiters are released in the normal way, all of
them have been blocked once. A waiter is early then if it was woken up by nobody, has found
`predicate` not set, and is about to wait again (`release_joins_iff`); without spurious wake-ups
there is none.
-/

namespace OpenPosix.CondVars.Release

open Interleaving

variable {n rounds : ℕ} {wakes : Bool} {s s' t : State n} {i : Fin n} {joins : List (Fin n)}
  {ok : Bool}

/-! ### Early and leaving waiters -/

/-- The waiter enters its wait before it tests `predicate`. -/
def WaiterPoint.early : WaiterPoint → Bool
  | .lock | .incr | .wait => true
  | _ => false

/-- The waiter does not enter its wait any more once `predicate` is set. -/
@[simp] def WaiterPoint.leaving : WaiterPoint → Bool
  | .unborn | .woken | .test | .unlock | .returned => true
  | _ => false

def WaiterPoint.stepsLeft : WaiterPoint → ℕ
  | .woken => 3
  | .test => 2
  | .unlock => 1
  | _ => 0

/-- The joins are done, and every waiter has ended. -/
def Joined (ok : Bool) (s : State n) : Prop :=
  s.main = .join [] ok ∧ ∀ i, s.waiter i = .unborn ∨ s.waiter i = .returned

/-- Whatever happens from here on, until the joins of this round are done they can be completed
without the help of a spurious wake-up. -/
def NeverStuck (n rounds : ℕ) (wakes : Bool) (s : State n) : Prop :=
  ∀ t joins ok, (program n rounds wakes).Leads s t → t.round = s.round → t.main = .join joins ok →
    ∃ last, (program n rounds false).Leads t last ∧ last.round = s.round ∧ Joined ok last

/-! ### A waiter that is missed -/

variable {point : WaiterPoint} {move : Move n}

/-- The joins are waiting for a waiter that is blocked or early. -/
structure Missed (i : Fin n) (s : State n) : Prop where
  joins : ∃ joins ok, s.main = .join joins ok ∧ i ∈ joins
  point : s.waiter i = .blocked ∨ (s.waiter i).early = true

theorem Missed.goto (h : Missed i s) {j : Fin n}
    (hpoint : j = i → point = .blocked ∨ point.early = true) (mtx : Option (Thread n)) (tnum : ℕ) :
    Missed i { s.goto j point with mtx := mtx, tnum := tnum } := by
  refine ⟨h.joins, ?_⟩
  by_cases heq : i = j
  · subst heq
    simpa using hpoint rfl
  · simpa [Function.update_of_ne heq] using h.point

theorem Missed.waiter (h : Missed i s) {j : Fin n} (hnext : waiter s j = some s') :
    Missed i s' := by
  have hpoint : j = i → s.waiter j = .blocked ∨ (s.waiter j).early = true := by
    rintro rfl
    exact h.point
  unfold Release.waiter at hnext
  cases hj : s.waiter j with
  | unborn | blocked | returned => simp [hj] at hnext
  | lock =>
    rw [hj] at hnext
    obtain ⟨mtx, -, rfl⟩ := Option.map_eq_some_iff.mp hnext
    exact h.goto (fun _ ↦ by simp [WaiterPoint.early]) mtx s.tnum
  | woken =>
    rw [hj] at hnext hpoint
    obtain ⟨mtx, -, rfl⟩ := Option.map_eq_some_iff.mp hnext
    exact h.goto (fun hji ↦ by simpa [WaiterPoint.early] using hpoint hji) mtx s.tnum
  | incr =>
    rw [hj] at hnext
    cases hnext
    exact h.goto (fun _ ↦ by simp [WaiterPoint.early]) s.mtx _
  | wait =>
    rw [hj] at hnext
    cases hnext
    exact h.goto (fun _ ↦ by simp) none s.tnum
  | test =>
    rw [hj] at hnext hpoint
    cases hnext
    exact h.goto (fun hji ↦ by simpa [WaiterPoint.early] using hpoint hji) s.mtx s.tnum
  | unlock =>
    rw [hj] at hnext hpoint
    cases hnext
    exact h.goto (fun hji ↦ by simpa [WaiterPoint.early] using hpoint hji) none s.tnum

/-- Without spurious wake-ups the waiter stays missed. -/
theorem Missed.next (h : Missed i s) (hnext : (program n rounds false).next s move = some s') :
    Missed i s' := by
  obtain ⟨joins, ok, hmain, hmem⟩ := h.joins
  have hexited : s.main ≠ .exited := by simp [hmain]
  simp only [program, if_neg hexited] at hnext
  cases move with
  | main choice =>
    rcases joins with - | ⟨j, rest⟩
    · exact absurd hmem List.not_mem_nil
    · simp only [doThreadsTest, hmain] at hnext
      split at hnext
      · rename_i hreturned
        cases hnext
        have hne : i ≠ j := by
          rintro rfl
          have hpoint := h.point
          simp [hreturned, WaiterPoint.early] at hpoint
        exact ⟨⟨rest, ok, rfl, (List.mem_cons.mp hmem).resolve_left hne⟩, h.point⟩
      · cases hnext
  | waiter j => exact h.waiter hnext
  | expire => simp [expire, hmain] at hnext
  | spurious thread => simp at hnext

theorem Missed.not_neverStuck (h : Missed i s) : ¬ NeverStuck n rounds wakes s := by
  intro hnever
  obtain ⟨joins, ok, hmain, -⟩ := h.joins
  obtain ⟨last, hleads, -, hjoined⟩ := hnever s joins ok (.refl s) rfl hmain
  have hmissed : Missed i last :=
    System.Leads.keeps (fun _ _ _ hmissed hnext ↦ hmissed.next hnext) hleads h
  have hpoint := hmissed.point
  rcases hjoined.2 i with heq | heq <;> simp [heq, WaiterPoint.early] at hpoint

/-! ### Waiters that leave -/

variable {round : ℕ} {choice : Bool}

structure Leaving (round : ℕ) (ok : Bool) (s : State n) : Prop where
  inv : Inv s
  round : s.round = round
  main : ∃ joins, s.main = .join joins ok
  predicate : s.predicate = true
  points : ∀ i, (s.waiter i).leaving = true

theorem Leaving.goto (h : Leaving round ok s) (mtx : Option (Thread n))
    (hinv : Inv { s.goto i point with mtx := mtx }) (hpoint : point.leaving = true) :
    Leaving round ok { s.goto i point with mtx := mtx } := by
  refine ⟨hinv, h.round, h.main, h.predicate, fun j ↦ ?_⟩
  by_cases heq : j = i
  · subst heq
    simpa using hpoint
  · simpa [Function.update_of_ne heq] using h.points j

theorem Leaving.waiter (h : Leaving round ok s) (hnext : waiter s i = some s') :
    Leaving round ok s' ∧ s'.main = s.main ∧
      total WaiterPoint.stepsLeft s'.waiter < total WaiterPoint.stepsLeft s.waiter := by
  have hinv := h.inv.waiter hnext
  have hpoint := h.points i
  have hless : ∀ point : WaiterPoint, point.stepsLeft < (s.waiter i).stepsLeft →
      total WaiterPoint.stepsLeft (s.goto i point).waiter <
        total WaiterPoint.stepsLeft s.waiter := by
    intro point hlt
    have hmove := total_update WaiterPoint.stepsLeft s.waiter i point
    simp only [State.goto]
    omega
  unfold Release.waiter at hnext
  cases hi : s.waiter i with
  | unborn | returned => simp [hi] at hnext
  | lock | incr | wait | blocked => simp [hi] at hpoint
  | woken =>
    rw [hi] at hnext hless
    obtain ⟨mtx, -, rfl⟩ := Option.map_eq_some_iff.mp hnext
    exact ⟨h.goto mtx hinv rfl, rfl, hless .test (by decide)⟩
  | test =>
    rw [hi] at hnext hless
    simp only [h.predicate, if_true] at hnext
    cases hnext
    exact ⟨h.goto s.mtx hinv rfl, rfl, hless .unlock (by decide)⟩
  | unlock =>
    rw [hi] at hnext hless
    cases hnext
    exact ⟨h.goto none hinv rfl, rfl, hless .returned (by decide)⟩

/-- The waiters of a round leave, or the round is over. -/
def LeavingOrOver (round : ℕ) (ok : Bool) (s : State n) : Prop :=
  Leaving round ok s ∨ round < s.round ∨ s.main = .ended false

/-- Every step of the joins keeps the waiters leaving, until the round is over. -/
theorem Leaving.next (h : Leaving round ok s)
    (hnext : (program n rounds wakes).next s move = some s') : LeavingOrOver round ok s' := by
  have hinv := h.inv.next hnext
  obtain ⟨joins, hmain⟩ := h.main
  have hexited : s.main ≠ .exited := by simp [hmain]
  simp only [program, if_neg hexited] at hnext
  cases move with
  | main choice =>
    rcases joins with - | ⟨j, rest⟩
    · cases ok <;> simp only [doThreadsTest, hmain] at hnext <;> cases hnext
      · exact .inr (.inr rfl)
      · exact .inr (.inl (by simp [h.round]))
    · simp only [doThreadsTest, hmain] at hnext
      split at hnext
      · cases hnext
        exact .inl ⟨hinv, h.round, ⟨rest, rfl⟩, h.predicate, h.points⟩
      · cases hnext
  | waiter j => exact .inl (h.waiter hnext).1
  | expire => simp [expire, hmain] at hnext
  | spurious thread =>
    cases thread with
    | main => simp [spurious, hmain] at hnext
    | waiter j =>
      obtain ⟨-, hblocked, -⟩ := by simpa [spurious] using hnext
      have hpoint := h.points j
      simp [hblocked] at hpoint

/-- A waiter changes neither the round nor the point of `do_threads_test`. -/
theorem frame_waiter (hnext : waiter s i = some s') : s'.round = s.round ∧ s'.main = s.main := by
  unfold waiter at hnext
  split at hnext
  case h_2 | h_6 =>
    obtain ⟨mtx, -, rfl⟩ := Option.map_eq_some_iff.mp hnext
    exact ⟨rfl, rfl⟩
  case h_3 | h_4 | h_7 | h_8 =>
    cases hnext
    exact ⟨rfl, rfl⟩
  all_goals cases hnext

theorem round_le_of_doThreadsTest (hnext : doThreadsTest rounds s choice = some s') :
    s.round ≤ s'.round := by
  unfold doThreadsTest at hnext
  split at hnext
  all_goals grind [State.goto, Option.map_eq_some_iff]

theorem round_le_of_next (hnext : (program n rounds wakes).next s move = some s') :
    s.round ≤ s'.round := by
  unfold program at hnext
  simp only at hnext
  split at hnext
  · cases hnext
  · cases move with
    | main choice => exact round_le_of_doThreadsTest hnext
    | waiter i => exact (frame_waiter hnext).1.ge
    | expire =>
      obtain ⟨-, rfl⟩ := by simpa [expire] using hnext
      exact le_rfl
    | spurious thread =>
      cases thread <;> obtain ⟨-, -, rfl⟩ := by simpa [spurious] using hnext
      · exact le_rfl
      · exact le_rfl

theorem ended_of_next (hmain : s.main = .ended false)
    (hnext : (program n rounds wakes).next s move = some s') : s'.main = .ended false := by
  simp only [program, hmain, reduceCtorEq, if_false] at hnext
  cases move with
  | main choice => simp [doThreadsTest, hmain] at hnext
  | waiter i => exact (frame_waiter hnext).2.trans hmain
  | expire => simp [expire, hmain] at hnext
  | spurious thread =>
    cases thread with
    | main => simp [spurious, hmain] at hnext
    | waiter i =>
      obtain ⟨-, -, rfl⟩ := by simpa [spurious] using hnext
      exact hmain

theorem LeavingOrOver.next (h : LeavingOrOver round ok s)
    (hnext : (program n rounds wakes).next s move = some s') : LeavingOrOver round ok s' := by
  rcases h with hleaving | hround | hended
  · exact hleaving.next hnext
  · exact .inr (.inl (hround.trans_le (round_le_of_next hnext)))
  · exact .inr (.inr (ended_of_next hended hnext))

/-- As long as a waiter has a step left, some waiter can make one. -/
theorem Leaving.exists_waiter (h : Leaving round ok s) (hi : 0 < (s.waiter i).stepsLeft) :
    ∃ j s', Release.waiter s j = some s' := by
  obtain ⟨joins, hmain⟩ := h.main
  cases hmtx : s.mtx with
  | none =>
    refine ⟨i, ?_⟩
    cases hpoint : s.waiter i <;> simp_all [WaiterPoint.stepsLeft, Release.waiter, mutexLock]
  | some thread =>
    have hholds := (h.inv.owned thread).mp hmtx
    cases thread with
    | main => simp [Holds, hmain] at hholds
    | waiter j =>
      refine ⟨j, ?_⟩
      cases hpoint : s.waiter j <;>
        simp_all [Holds, Release.waiter]

def MainPoint.joinsLeft : MainPoint n → ℕ
  | .join joins _ => joins.length
  | _ => 0

/-- The number of steps until the joins are done. -/
def State.stepsLeft (s : State n) : ℕ :=
  total WaiterPoint.stepsLeft s.waiter + s.main.joinsLeft

theorem ended_of_stepsLeft (hleaving : point.leaving = true) (hzero : point.stepsLeft = 0) :
    point = .unborn ∨ point = .returned := by
  cases point <;> simp_all [WaiterPoint.stepsLeft]

theorem Leaving.exists_step (h : Leaving round ok s) (hnot : ¬ Joined ok s) :
    ∃ move s', (program n rounds false).next s move = some s' ∧ Leaving round ok s' ∧
      s'.stepsLeft < s.stepsLeft := by
  obtain ⟨joins, hmain⟩ := h.main
  by_cases hsteps : ∃ i, 0 < (s.waiter i).stepsLeft
  · obtain ⟨i, hi⟩ := hsteps
    obtain ⟨j, s', hnext⟩ := h.exists_waiter hi
    obtain ⟨hleaving, hsame, hless⟩ := h.waiter hnext
    refine ⟨.waiter j, s', by simpa [program, hmain] using hnext, hleaving, ?_⟩
    unfold State.stepsLeft
    rw [hsame]
    omega
  · push Not at hsteps
    have hended : ∀ i, s.waiter i = .unborn ∨ s.waiter i = .returned := fun i ↦
      ended_of_stepsLeft (h.points i) (Nat.le_zero.mp (hsteps i))
    rcases joins with - | ⟨j, rest⟩
    · exact absurd ⟨hmain, hended⟩ hnot
    · have hborn := h.inv.born j (by rw [hmain]; exact List.mem_cons_self)
      have hreturned := (hended j).resolve_left hborn
      have hnext : (program n rounds false).next s (.main true) =
          some { s with main := .join rest ok } := by
        simp [program, hmain, doThreadsTest, hreturned]
      refine ⟨.main true, _, hnext,
        ⟨h.inv.next hnext, h.round, ⟨rest, rfl⟩, h.predicate, h.points⟩, ?_⟩
      simp [State.stepsLeft, hmain, MainPoint.joinsLeft]

theorem Leaving.completes (h : Leaving round ok s) :
    ∃ last, (program n rounds false).Leads s last ∧ last.round = round ∧ Joined ok last := by
  have hstep : ∀ s, Leaving round ok s → ¬ Joined ok s → ∃ move s',
      (program n rounds false).next s move = some s' ∧ Leaving round ok s' ∧
        s'.stepsLeft < s.stepsLeft := fun _ hleaving hnot ↦ hleaving.exists_step hnot
  obtain ⟨last, hleads, hleaving, hjoined⟩ :=
    System.exists_leads_of_measure State.stepsLeft hstep h
  exact ⟨last, hleads, hleaving.round, hjoined⟩

/-! ### The broadcasts -/

theorem wake_of_early (h : point.early = true) : point.wake = point := by
  cases point <;> simp_all [WaiterPoint.early, WaiterPoint.wake]

theorem leaving_wake (h : point.early = false) : point.wake.leaving = true := by
  cases point <;> simp_all [WaiterPoint.early, WaiterPoint.wake]

theorem next_broadcast (hmain : s.main = .broadcast joins ok) (choice : Bool) :
    (program n rounds wakes).next s (.main choice) = some { s with
      main := .join joins ok, waiter := wakeUp WaiterPoint.wake Finset.univ s.waiter } := by
  simp [program, hmain, doThreadsTest]

/-- For every run and either broadcast: the joins after it are never stuck exactly if none of the
waiters to join is early. -/
theorem neverStuck_iff (hreach : (program n rounds wakes).Reachable s)
    (hmain : s.main = .broadcast joins ok)
    (hnext : (program n rounds wakes).next s (.main choice) = some s') :
    NeverStuck n rounds wakes s' ↔ ∀ i ∈ joins, (s.waiter i).early = false := by
  have hinv := inv_of_reachable hreach
  have hinv' := hinv.next hnext
  obtain rfl := Option.some.inj ((next_broadcast hmain choice).symm.trans hnext)
  constructor
  · intro hnever i hmem
    by_contra hearly
    rw [Bool.not_eq_false] at hearly
    refine Missed.not_neverStuck (i := i) ⟨⟨joins, ok, rfl, hmem⟩, .inr ?_⟩ hnever
    simpa [wakeUp, wake_of_early hearly] using hearly
  · intro hearly
    have hleaving : Leaving s.round ok { s with
        main := .join joins ok, waiter := wakeUp WaiterPoint.wake Finset.univ s.waiter } := by
      refine ⟨hinv', rfl, ⟨joins, rfl⟩, hinv.set joins ok hmain, fun i ↦ ?_⟩
      simp only [wakeUp, Finset.mem_univ, if_true]
      by_cases hmem : i ∈ joins
      · exact leaving_wake (hearly i hmem)
      · rw [hinv.unborn i (by rw [hmain]; exact hmem)]
        rfl
    intro t joins' ok' hleads hround hjoin
    have hleavingOrOver : LeavingOrOver s.round ok t :=
      System.Leads.keeps (fun _ _ _ h hnext ↦ LeavingOrOver.next h hnext) hleads (.inl hleaving)
    rcases hleavingOrOver with hleaving' | hlater | hended
    · obtain ⟨joins'', hmain'⟩ := hleaving'.main
      obtain ⟨-, rfl⟩ := MainPoint.join.inj (hjoin.symm.trans hmain')
      exact hleaving'.completes
    · exact absurd hround hlater.ne'
    · exact absurd (hjoin.symm.trans hended) (by simp)

/-! ### Without spurious wake-ups -/

/-- The waiters have not been woken up yet. -/
@[simp] def MainPoint.unreleased : MainPoint n → Bool
  | .setup | .join _ _ | .ended _ | .exited => false
  | _ => true

/-- Before the broadcast no waiter has returned from its wait, and all of them are blocked from the
moment on in which they have counted themselves. -/
structure Still (s : State n) : Prop where
  points : s.main.unreleased = true →
    ∀ i, s.waiter i = .unborn ∨ s.waiter i = .blocked ∨ (s.waiter i).early = true
  blocked : s.main.gathered = true → ∀ i, s.waiter i = .blocked

theorem unreleased_of_gathered {point : MainPoint n} (h : point.gathered = true) :
    point.unreleased = true := by
  cases point <;> simp_all

theorem still_of_released (h : ¬ s.main.unreleased = true) : Still s :=
  ⟨fun hs ↦ absurd hs h, fun hs ↦ absurd (unreleased_of_gathered hs) h⟩

/-- `do_threads_test` goes to another point, and nothing changes for the waiters. -/
theorem Still.goes (h : Still s) (hsame : s'.waiter = s.waiter)
    (hunreleased : s'.main.unreleased = true → s.main.unreleased = true)
    (hgathered : s'.main.gathered = true → s.main.gathered = true) : Still s' := by
  refine ⟨fun hs' ↦ ?_, fun hs' ↦ ?_⟩
  · rw [hsame]
    exact h.points (hunreleased hs')
  · rw [hsame]
    exact h.blocked (hgathered hs')

/-- A waiter goes on to its wait. -/
theorem Still.goto (h : Still s) (hgathered : s.main.gathered = false)
    (hpoint : point = .blocked ∨ point.early = true) (mtx : Option (Thread n)) (tnum : ℕ) :
    Still { s.goto i point with mtx := mtx, tnum := tnum } := by
  refine ⟨fun hs j ↦ ?_, fun hs ↦ absurd hs (by simpa using hgathered)⟩
  by_cases heq : j = i
  · subst heq
    simpa using .inr hpoint
  · simpa [Function.update_of_ne heq] using h.points hs j

/-- The poll has found that all waiters have counted themselves. -/
theorem Still.blocked_of_poll (h : Still s) (hinv : Inv s) (hmain : s.main = .poll)
    (hall : n ≤ s.tnum) (i : Fin n) : s.waiter i = .blocked := by
  have hcounted := total_counted_eq (hinv.count ▸ hall) i
  have hheld : Holds s .main := by simp [Holds, hmain]
  have hfree : (s.waiter i).holds = false := by
    rw [← Bool.not_eq_true]
    exact fun hi ↦ absurd (hinv.owned.unique (show Holds s (.waiter i) from hi) hheld) (by simp)
  have hpoint := h.points (by simp [hmain]) i
  cases hi : s.waiter i <;>
    simp_all [WaiterPoint.early]

theorem Still.waiter (h : Still s) (hnext : waiter s i = some s') : Still s' := by
  by_cases hunreleased : s.main.unreleased = true
  · have hpoint := h.points hunreleased i
    have hgathered : s.waiter i ≠ .blocked → s.main.gathered = false := by
      intro hne
      rw [← Bool.not_eq_true]
      exact fun hs ↦ hne (h.blocked hs i)
    unfold Release.waiter at hnext
    cases hi : s.waiter i with
    | unborn | blocked | returned => simp [hi] at hnext
    | woken | test | unlock => simp [hi, WaiterPoint.early] at hpoint
    | lock =>
      rw [hi] at hnext
      obtain ⟨mtx, -, rfl⟩ := Option.map_eq_some_iff.mp hnext
      exact h.goto (hgathered (by simp [hi])) (.inr rfl) mtx s.tnum
    | incr =>
      rw [hi] at hnext
      cases hnext
      exact h.goto (hgathered (by simp [hi])) (.inr rfl) s.mtx _
    | wait =>
      rw [hi] at hnext
      cases hnext
      exact h.goto (hgathered (by simp [hi])) (.inl rfl) none s.tnum
  · obtain ⟨-, hmain⟩ := frame_waiter hnext
    rw [← hmain] at hunreleased
    exact still_of_released hunreleased

theorem Still.doThreadsTest (h : Still s) (hinv : Inv s)
    (hnext : doThreadsTest rounds s choice = some s') : Still s' := by
  unfold Release.doThreadsTest at hnext
  cases hmain : s.main <;> simp only [hmain, reduceCtorEq] at hnext
  case setup =>
    split at hnext <;> cases hnext
    · exact ⟨fun _ _ ↦ .inl rfl, by simp⟩
    · exact still_of_released (by simp)
  case create created rest =>
    rcases rest with - | ⟨i, rest⟩
    · simp only at hnext
      cases hnext
      exact h.goes rfl (by simp [hmain]) (by simp)
    · simp only at hnext
      split at hnext <;> cases hnext
      · have hgoto := h.goto (i := i) (by simp [hmain])
          (.inr (by rfl : WaiterPoint.lock.early = true)) s.mtx s.tnum
        exact hgoto.goes rfl (by simp [hmain]) (by simp)
      · exact h.goes rfl (by simp [hmain]) (by simp)
  case lock | measureLock | woken =>
    obtain ⟨mtx, -, rfl⟩ := Option.map_eq_some_iff.mp hnext
    exact h.goes rfl (by simp [hmain]) (by simp [hmain])
  case poll =>
    cases hnext
    refine ⟨fun _ ↦ h.points (by simp [hmain]), fun hs ↦ ?_⟩
    exact h.blocked_of_poll hinv hmain (by simpa using hs)
  case unlock again =>
    cases hnext
    refine h.goes rfl (by simp [hmain]) ?_
    cases again <;> simp [hmain]
  case timedwait | testRc | checkTime | measureUnlock | setPredicate =>
    cases hnext
    exact h.goes rfl (by simp [hmain]) (by simp [hmain])
  case broadcast joins ok =>
    cases hnext
    exact still_of_released (by simp)
  case join joins ok =>
    rcases joins with - | ⟨i, rest⟩
    · cases ok <;> simp only at hnext <;> obtain rfl := Option.some.inj hnext <;>
        exact still_of_released (by simp)
    · simp only at hnext
      split at hnext
      · cases hnext
        exact still_of_released (by simp)
      · cases hnext

theorem Still.next (h : Still s) (hinv : Inv s)
    (hnext : (program n rounds false).next s move = some s') : Still s' := by
  unfold program at hnext
  simp only at hnext
  split at hnext
  · cases hnext
  · cases move with
    | main choice => exact h.doThreadsTest hinv hnext
    | waiter i => exact h.waiter hnext
    | expire =>
      obtain ⟨htiming, rfl⟩ := by simpa [expire] using hnext
      exact h.goes rfl (by simp [htiming]) (by simp [htiming])
    | spurious thread => simp at hnext

theorem still_of_reachable (h : (program n rounds false).Reachable s) : Still s := by
  refine h.invariant (fun s hs ↦ ?_) fun _ _ _ hreach hstill hnext ↦
    hstill.next (inv_of_reachable hreach) hnext
  rw [show s = start n from hs]
  exact still_of_released (by simp [start])

/-! ### The two paths -/

/-- For every run, with or without spurious wake-ups, in which a creation fails, and every index at
which it does: the joins after the broadcast are never stuck exactly if none of the waiters that
were created is early. Without spurious wake-ups this means that all of them are blocked. -/
theorem failure_joins_iff {created : List (Fin n)}
    (hreach : (program n rounds wakes).Reachable s) (hmain : s.main = .broadcast created false)
    {choice : Bool} (hnext : (program n rounds wakes).next s (.main choice) = some s') :
    (NeverStuck n rounds wakes s' ↔ ∀ i ∈ created, (s.waiter i).early = false) ∧
      (wakes = false →
        (NeverStuck n rounds wakes s' ↔ ∀ i ∈ created, s.waiter i = .blocked)) := by
  have hiff := neverStuck_iff hreach hmain hnext
  refine ⟨hiff, ?_⟩
  rintro rfl
  rw [hiff]
  refine forall₂_congr fun i hmem ↦ ?_
  have hborn := (inv_of_reachable hreach).born i (by rw [hmain]; exact hmem)
  have hpoint := (still_of_reachable hreach).points (by simp [hmain]) i
  constructor
  · intro hearly
    simpa [hborn, hearly] using hpoint
  · intro hblocked
    rw [hblocked]
    rfl

/-- The first waiter is blocked when the second one cannot be created. -/
def blockedFirst (first : Fin 2) : List (Move 2) :=
  List.flatten [.replicate 2 (.main true), .replicate 3 (.waiter first), .replicate 2 (.main false)]

theorem failure_joins_blocked : ∃ s s' : State 2, s.main = .broadcast [0] false ∧
    (program 2 1 false).next s (.main true) = some s' ∧ NeverStuck 2 1 false s' := by
  obtain ⟨s, hreach, hmain, hblocked⟩ : ∃ s, (program 2 1 false).Reachable s ∧
      s.main = .broadcast [0] false ∧ s.waiter 0 = .blocked :=
    System.exists_reachable (blockedFirst 0) rfl (by decide +kernel)
  refine ⟨s, _, hmain, next_broadcast hmain true,
    ((failure_joins_iff hreach hmain (next_broadcast hmain true)).2 rfl).mpr ?_⟩
  simpa using hblocked

/-- The second waiter cannot be created before the first one has run. -/
def failsFirst : List (Move 2) :=
  List.flatten [.replicate 2 (.main true), .replicate 2 (.main false)]

/-- In some run without spurious wake-ups, the joins after a failed creation can be stuck: when the
waiter has entered its wait, no thread has a step any more. -/
def FailureStuck : Prop :=
  ∃ s s' last : State 2, (program 2 1 false).Reachable s ∧
    s.main = .broadcast ((List.finRange 2).take 1) false ∧
    (program 2 1 false).next s (.main true) = some s' ∧ (program 2 1 false).Leads s' last ∧
    (∀ move, (program 2 1 false).next last move = none) ∧ ¬ NeverStuck 2 1 false s'

/-- The joins wait for the only waiter, and that is blocked. -/
theorem next_eq_none {rest : List (Fin n)} (hmain : s.main = .join (i :: rest) ok)
    (hblocked : s.waiter i = .blocked) (hothers : ∀ j, j ≠ i → s.waiter j = .unborn)
    (move : Move n) : (program n rounds false).next s move = none := by
  cases move with
  | main choice => simp [program, hmain, doThreadsTest, hblocked]
  | waiter j =>
    by_cases heq : j = i
    · simp [program, hmain, waiter, heq, hblocked]
    · simp [program, hmain, waiter, hothers j heq]
  | expire => simp [program, hmain, expire]
  | spurious thread => simp [program, hmain]

theorem failure_stuck : FailureStuck := by
  obtain ⟨s, hreach, hmain, hearly, hlast⟩ : ∃ s, (program 2 1 false).Reachable s ∧
      s.main = .broadcast [0] false ∧ (s.waiter 0).early = true ∧
      ((program 2 1 false).runSchedule s (.main true :: .replicate 3 (.waiter 0))).any (fun last ↦
        last.main = .join [0] false ∧ last.waiter 0 = .blocked ∧ last.waiter 1 = .unborn) = true :=
    System.exists_reachable failsFirst rfl (by decide +kernel)
  obtain ⟨last, hrunLast, hmainLast, hblocked, hunborn⟩ := System.exists_of_replay hlast
  obtain ⟨s', hnext, hrest⟩ := Option.bind_eq_some_iff.mp hrunLast
  refine ⟨s, s', last, hreach, hmain, hnext, System.leads_of_runSchedule hrest, ?_, ?_⟩
  · refine next_eq_none hmainLast hblocked fun j hne ↦ ?_
    obtain rfl : j = 1 := by omega
    exact hunborn
  · rw [neverStuck_iff hreach hmain hnext]
    simp [hearly]

/-- For every run, with or without spurious wake-ups, in which all waiters were created and have
counted themselves: the joins after the broadcast are never stuck exactly if no waiter is about to
wait again at that moment. Without spurious wake-ups there is none. -/
theorem release_joins_iff (hreach : (program n rounds wakes).Reachable s)
    (hmain : s.main = .broadcast joins true) {choice : Bool}
    (hnext : (program n rounds wakes).next s (.main choice) = some s') :
    (NeverStuck n rounds wakes s' ↔ ∀ i, s.waiter i ≠ .wait) ∧
      (wakes = false → NeverStuck n rounds wakes s') := by
  have hinv := inv_of_reachable hreach
  have hgathered : s.main.gathered = true := by rw [hmain]; rfl
  have hcounted := hinv.ready hgathered
  have hall : ∀ i, i ∈ joins := by
    intro i
    by_contra hnot
    have hone := hcounted i
    rw [hinv.unborn i (by rw [hmain]; exact hnot)] at hone
    cases hone
  have hiff : NeverStuck n rounds wakes s' ↔ ∀ i, s.waiter i ≠ .wait := by
    rw [neverStuck_iff hreach hmain hnext]
    refine forall_congr' fun i ↦ ?_
    have hone := hcounted i
    cases hi : s.waiter i <;> simp_all [WaiterPoint.early]
  refine ⟨hiff, ?_⟩
  rintro rfl
  refine hiff.mpr fun i hwait ↦ ?_
  have hblocked := (still_of_reachable hreach).blocked hgathered i
  exact absurd (hwait.symm.trans hblocked) (by simp)

/-- The first waiter wakes up while `main` measures, and is blocked again when `main` sets
`predicate`. -/
def releases (first second : Fin 2) : List (Move 2) :=
  List.flatten [.replicate 3 (.main true), .replicate 3 (.waiter first),
    .replicate 3 (.waiter second), .replicate 6 (.main true), [.spurious (.waiter first)],
    .replicate 3 (.waiter first), [.expire], .replicate 5 (.main true)]

/-- The only waiter wakes up and tests `predicate` before that is set. -/
def releasesTooLate (only : Fin 1) : List (Move 1) :=
  List.flatten [.replicate 2 (.main true), .replicate 3 (.waiter only), .replicate 6 (.main true),
    [.expire], .replicate 4 (.main true), [.spurious (.waiter only)], .replicate 2 (.waiter only),
    [.main true]]

theorem release_joins_measured : ∃ s s' : State 2, s.main = .broadcast [0, 1] true ∧
    (program 2 1 true).next s (.main true) = some s' ∧ NeverStuck 2 1 true s' := by
  obtain ⟨s, hreach, hmain, hblocked⟩ : ∃ s, (program 2 1 true).Reachable s ∧
      s.main = .broadcast [0, 1] true ∧ ∀ i, s.waiter i = .blocked :=
    System.exists_reachable (releases 0 1) rfl (by decide +kernel)
  refine ⟨s, _, hmain, next_broadcast hmain true,
    (release_joins_iff hreach hmain (next_broadcast hmain true)).1.mpr fun i ↦ ?_⟩
  rw [hblocked]
  decide

/-- In some run with one spurious wake-up, the joins after the measure can be stuck: when the waiter
has entered its wait again, no thread has a step any more without another one. -/
def ReleaseStuck : Prop :=
  ∃ s s' last : State 1, (program 1 1 true).Reachable s ∧
    s.main = .broadcast (List.finRange 1) true ∧
    (program 1 1 true).next s (.main true) = some s' ∧ (program 1 1 true).Leads s' last ∧
    (∀ move, (program 1 1 false).next last move = none) ∧ ¬ NeverStuck 1 1 true s'

theorem release_stuck : ReleaseStuck := by
  obtain ⟨s, hreach, hmain, hwait, hlast⟩ : ∃ s, (program 1 1 true).Reachable s ∧
      s.main = .broadcast [0] true ∧ s.waiter 0 = .wait ∧
      ((program 1 1 true).runSchedule s [.main true, .waiter 0]).any (fun last ↦
        last.main = .join [0] true ∧ last.waiter 0 = .blocked) = true :=
    System.exists_reachable (releasesTooLate 0) rfl (by decide +kernel)
  obtain ⟨last, hrunLast, hmainLast, hblocked⟩ := System.exists_of_replay hlast
  obtain ⟨s', hnext, hrest⟩ := Option.bind_eq_some_iff.mp hrunLast
  refine ⟨s, s', last, hreach, hmain, hnext, System.leads_of_runSchedule hrest, ?_, ?_⟩
  · exact next_eq_none hmainLast hblocked fun j hne ↦ absurd (Subsingleton.elim j 0) hne
  · rw [neverStuck_iff hreach hmain hnext]
    simp [hwait, WaiterPoint.early]

end OpenPosix.CondVars.Release

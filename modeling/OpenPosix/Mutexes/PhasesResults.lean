import OpenPosix.Mutexes.PhasesInvariant

/-!
# The phases in which the signal can be lost

`main_never_stuck_iff`: `main` is never blocked for ever exactly if for every mutex there is a
thread whose lock succeeds. If there is none, all threads can count themselves before `main` waits,
and the last one signals when nobody waits; `main` does not look at the counters before its first
wait. No threads at all are a case of this.
-/

namespace OpenPosix.Mutexes.Phases

open Interleaving

variable {n : ℕ} {succeeds : Fin n → ℕ → Bool} {s s' : State n} {k : Fin n}

attribute [simp] ThreadPoint.due

/-! ### The last count is followed by a signal -/

variable {i : ℕ}

theorem WillSignal.of_threaded (h : WillSignal succeeds s')
    (hstep : threaded succeeds s k = some s') : WillSignal succeeds s := by
  obtain ⟨last, hleads, hsignal⟩ := h
  have hnext : ((program succeeds).restrict Move.ofThread).next s (.thread (.thread k)) = some s' :=
    System.restrict_next_eq_some_iff.mpr ⟨rfl, hstep⟩
  exact ⟨last, (System.leads_of_next hnext).trans hleads, hsignal⟩

theorem willSignal_of_signal (h : s.thread k = .signal i) : WillSignal succeeds s :=
  ⟨s, .refl s, k, i, h⟩

theorem willSignal_of_unlock (h : s.thread k = .unlock i true) : WillSignal succeeds s := by
  have hnext : WillSignal succeeds ((s.setMtx i none).goto k (afterUnlock i true)) :=
    willSignal_of_signal (k := k) (i := i) (by simp [afterUnlock])
  exact hnext.of_threaded (k := k) (by simp [threaded, h])

theorem willSignal_of_unlockM (success : Bool) (h : s.thread k = .unlockM i success true) :
    WillSignal succeeds s := by
  have hnext : WillSignal succeeds
      { s.goto k (if success then .unlock i true else afterUnlock i true) with m := none } := by
    cases success with
    | true => exact willSignal_of_unlock (k := k) (i := i) (by simp)
    | false => exact willSignal_of_signal (k := k) (i := i) (by simp [afterUnlock])
  exact hnext.of_threaded (k := k) (by simp [threaded, h])

/-- A thread that has to signal can do so, whatever the other threads do. -/
theorem Inv.willSignal (h : Inv succeeds s) (hblocked : s.main = .blocked i)
    (hfull : s.nbthTOT ≤ s.count i) (hsome : ∃ k, succeeds k i = true) : WillSignal succeeds s := by
  have hall : n ≤ s.count i := by
    have htotal := h.nbthTOT_eq hblocked
    omega
  obtain ⟨k, hk⟩ := h.due i hblocked hsome hall
  cases hpoint : s.thread k with
  | test j success =>
    obtain rfl : j = i := by simpa [hpoint] using hk
    have hnext : WillSignal succeeds
        (s.goto k (.unlockM j success (decide (s.nbthTOT ≤ s.count j)))) :=
      willSignal_of_unlockM (k := k) (i := j) success (by simp [hfull])
    exact hnext.of_threaded (k := k) (by simp [Phases.threaded, hpoint])
  | unlockM j success bool =>
    obtain rfl : bool = true := by simpa [hpoint] using hk
    exact willSignal_of_unlockM success hpoint
  | unlock j bool =>
    obtain rfl : bool = true := by simpa [hpoint] using hk
    exact willSignal_of_unlock hpoint
  | signal j => exact willSignal_of_signal hpoint
  | _ => simp [hpoint] at hk

/-! ### Threads that run until they need `main` -/

/-- A thread has gone through all mutexes, or waits for one that `main` has not released. -/
def Settled (succeeds : Fin n → ℕ → Bool) (s : State n) : Prop :=
  ∀ k, s.thread k = .exited ∨
    ∃ j, s.thread k = .lock j ∧ succeeds k j = true ∧ s.main.keeps j = true

@[simp] def ThreadPoint.weight : ThreadPoint → ℕ
  | .unborn => 0
  | .lock i => 8 * (phases - 1 - i) + 8
  | .lockM i _ => 8 * (phases - 1 - i) + 7
  | .incr i _ => 8 * (phases - 1 - i) + 6
  | .test i _ => 8 * (phases - 1 - i) + 5
  | .unlockM i _ _ => 8 * (phases - 1 - i) + 4
  | .unlock i _ => 8 * (phases - 1 - i) + 3
  | .signal i => 8 * (phases - 1 - i) + 2
  | .exited => 0

def State.remaining (s : State n) : ℕ := total ThreadPoint.weight s.thread

theorem weight_endOfPhase_le (i : ℕ) : (endOfPhase i).weight ≤ 8 * (phases - 1 - i) + 1 := by
  unfold endOfPhase
  split_ifs with hnext <;> simp only [ThreadPoint.weight] <;> omega

theorem weight_afterUnlock_le (i : ℕ) (bool : Bool) :
    (afterUnlock i bool).weight ≤ 8 * (phases - 1 - i) + 2 := by
  cases bool with
  | true => exact le_rfl
  | false => exact (weight_endOfPhase_le i).trans (Nat.le_succ _)

theorem remaining_lt_of_goto (k : Fin n) (point : ThreadPoint)
    (hthread : s'.thread = Function.update s.thread k point)
    (hweight : point.weight < (s.thread k).weight) : s'.remaining < s.remaining := by
  have hmove := total_update ThreadPoint.weight s.thread k point
  rw [State.remaining, State.remaining, hthread]
  omega

structure Ready (succeeds : Fin n → ℕ → Bool) (s : State n) (k : Fin n) : Prop where
  born : s.thread k ≠ .unborn
  unfinished : s.thread k ≠ .exited
  free : ∀ i, s.thread k = .lock i → succeeds k i = true → s.mtx i = none
  freeM : ∀ i success, s.thread k = .lockM i success → s.m = none

theorem Ready.advances (h : Ready succeeds s k) :
    ∃ s', threaded succeeds s k = some s' ∧ s'.remaining < s.remaining := by
  unfold threaded
  cases hpoint : s.thread k with
  | unborn => exact absurd hpoint h.born
  | exited => exact absurd hpoint h.unfinished
  | lock i =>
    cases hsucceeds : succeeds k i with
    | true =>
      refine ⟨(s.setMtx i (some (.thread k))).goto k (.lockM i true), ?_,
        remaining_lt_of_goto k (.lockM i true) rfl ?_⟩
      · simp [hsucceeds, h.free i hpoint hsucceeds, mutexLock]
      · simp [hpoint]
    | false =>
      refine ⟨s.goto k (.lockM i false), by simp [hsucceeds],
        remaining_lt_of_goto k (.lockM i false) rfl ?_⟩
      simp [hpoint]
  | lockM i success =>
    refine ⟨{ s.goto k (.incr i success) with m := some (.thread k) }, ?_,
      remaining_lt_of_goto k (.incr i success) rfl ?_⟩
    · simp [h.freeM i success hpoint, mutexLock]
    · simp [hpoint]
  | incr i success =>
    refine ⟨_, rfl, remaining_lt_of_goto k (.test i success) ?_ ?_⟩
    · cases success <;> rfl
    · simp [hpoint]
  | test i success =>
    refine ⟨_, rfl, remaining_lt_of_goto k (.unlockM i success _) rfl ?_⟩
    simp [hpoint]
  | unlockM i success bool =>
    have hless := weight_afterUnlock_le i bool
    cases success with
    | true =>
      refine ⟨_, rfl, remaining_lt_of_goto k (.unlock i bool) rfl ?_⟩
      simp [hpoint]
    | false =>
      refine ⟨_, rfl, remaining_lt_of_goto k (afterUnlock i bool) rfl ?_⟩
      rw [hpoint]
      exact hless.trans_lt (by simp)
  | unlock i bool =>
    refine ⟨_, rfl, remaining_lt_of_goto k (afterUnlock i bool) rfl ?_⟩
    rw [hpoint]
    exact (weight_afterUnlock_le i bool).trans_lt (by simp)
  | signal i =>
    refine ⟨_, rfl, remaining_lt_of_goto k (endOfPhase i) rfl ?_⟩
    rw [hpoint]
    exact (weight_endOfPhase_le i).trans_lt (by simp)

theorem Ready.of_point (h : ∀ i, s.thread k ≠ .lock i)
    (h' : ∀ i success, s.thread k ≠ .lockM i success)
    (hborn : s.thread k ≠ .unborn) (hexited : s.thread k ≠ .exited) : Ready succeeds s k :=
  ⟨hborn, hexited, fun i hi ↦ absurd hi (h i), fun i success hi ↦ absurd hi (h' i success)⟩

/-- The thread that holds `m` is not blocked. -/
theorem ready_of_holdsM (h : (s.thread k).holdsM = true) : Ready succeeds s k := by
  refine Ready.of_point ?_ ?_ ?_ ?_
  all_goals
    intros
    intro hpoint
    simp [hpoint, ThreadPoint.holdsM] at h

/-- The thread that holds a mutex is not blocked, if `m` is free. -/
theorem ready_of_holds {j : ℕ} (h : (s.thread k).holds j = true) (hfree : s.m = none) :
    Ready succeeds s k := by
  refine ⟨?_, ?_, fun i hpoint ↦ ?_, fun _ _ _ ↦ hfree⟩
  · intro hpoint
    simp [hpoint, ThreadPoint.holds] at h
  · intro hpoint
    simp [hpoint, ThreadPoint.holds] at h
  · simp [hpoint, ThreadPoint.holds] at h

/-- As long as the threads are not settled, one of them is not blocked: the one that has `m`, or the
one that has the mutex another thread needs, or that thread itself. -/
theorem Inv.exists_ready (h : Inv succeeds s) (hmain : s.main.holdsM = false)
    (hrest : s.main.rest = []) (hsettled : ¬ Settled succeeds s) : ∃ k, Ready succeeds s k := by
  obtain ⟨k, hk⟩ := not_forall.mp hsettled
  rw [not_or] at hk
  by_cases hfree : s.m = none
  · have hborn : s.thread k ≠ .unborn := by
      intro hunborn
      have hmem := (h.unborn k).mp hunborn
      simp [hrest] at hmem
    by_cases hlock : ∃ i, s.thread k = .lock i ∧ succeeds k i = true ∧ s.mtx i ≠ none
    · obtain ⟨i, hpoint, hsucceeds, hheld⟩ := hlock
      have hrange : i < phases := by
        have hrange := h.inRange.2 k
        rwa [hpoint] at hrange
      obtain ⟨thread, hthread⟩ := Option.ne_none_iff_exists'.mp hheld
      have hholds := ((h.owned i hrange) thread).mp hthread
      cases thread with
      | main => exact absurd ⟨i, hpoint, hsucceeds, hholds⟩ hk.2
      | thread j => exact ⟨j, ready_of_holds hholds hfree⟩
    · refine ⟨k, hborn, hk.1, fun i hpoint hsucceeds ↦ ?_, fun _ _ _ ↦ hfree⟩
      by_contra hheld
      exact hlock ⟨i, hpoint, hsucceeds, hheld⟩
  · obtain ⟨thread, hthread⟩ := Option.ne_none_iff_exists'.mp hfree
    have hholds := (h.ownedM thread).mp hthread
    cases thread with
    | main => simp [hmain] at hholds
    | thread j => exact ⟨j, ready_of_holdsM hholds⟩

theorem threaded_main (hstep : threaded succeeds s k = some s') :
    s'.main = s.main ∨ s'.main = s.main.wake := by
  unfold threaded at hstep
  cases hpoint : s.thread k <;> simp only [hpoint, reduceCtorEq] at hstep
  case lock i =>
    split_ifs at hstep
    · obtain ⟨owner, -, rfl⟩ := Option.map_eq_some_iff.mp hstep
      exact .inl rfl
    · cases hstep
      exact .inl rfl
  case lockM i success =>
    simp only [Option.map_eq_some_iff] at hstep
    obtain ⟨owner, -, rfl⟩ := hstep
    exact .inl rfl
  case incr i success =>
    cases hstep
    cases success <;> exact .inl rfl
  case test i success | unlockM i success bool | unlock i bool =>
    cases hstep
    exact .inl rfl
  case signal i =>
    cases hstep
    exact .inr rfl

theorem wake_wake (point : MainPoint n) : point.wake.wake = point.wake := by
  cases point <;> rfl

/-- The threads run until they are settled, while `main` does at most wake up. -/
theorem Inv.exists_settled (h : Inv succeeds s) (hmain : s.main.holdsM = false)
    (hrest : s.main.rest = []) :
    ∃ s', (program succeeds).Leads s s' ∧ Inv succeeds s' ∧
      (s'.main = s.main ∨ s'.main = s.main.wake) ∧ Settled succeeds s' := by
  have hstep : ∀ state : State n,
      Inv succeeds state ∧ (state.main = s.main ∨ state.main = s.main.wake) →
      ¬ Settled succeeds state → ∃ move state', (program succeeds).next state move = some state' ∧
        (Inv succeeds state' ∧ (state'.main = s.main ∨ state'.main = s.main.wake)) ∧
          state'.remaining < state.remaining := by
    rintro state ⟨hinv, hpoint⟩ hsettled
    have hmain' : state.main.holdsM = false := by
      rcases hpoint with hpoint | hpoint <;> rw [hpoint]
      · exact hmain
      · cases hcases : s.main <;> simp_all [MainPoint.holdsM]
    have hrest' : state.main.rest = [] := by
      rcases hpoint with hpoint | hpoint <;> rw [hpoint]
      · exact hrest
      · cases hcases : s.main <;> simp_all [MainPoint.rest]
    obtain ⟨k, hready⟩ := hinv.exists_ready hmain' hrest' hsettled
    obtain ⟨state', hthreaded, hless⟩ := hready.advances
    refine ⟨.thread (.thread k), state', hthreaded, ⟨hinv.threaded hthreaded, ?_⟩, hless⟩
    rcases threaded_main hthreaded with hsame | hwake
    · rw [hsame]
      exact hpoint
    · rw [hwake]
      rcases hpoint with hpoint | hpoint <;> rw [hpoint]
      · exact .inr rfl
      · exact .inr (wake_wake s.main)
  obtain ⟨s', hleads, ⟨hinv, hpoint⟩, hsettled⟩ :=
    System.exists_leads_of_measure State.remaining hstep ⟨h, .inl rfl⟩
  exact ⟨s', hleads, hinv, hpoint, hsettled⟩

/-! ### Phase after phase -/

/-- Nobody holds `m` when the threads are settled. -/
theorem Inv.m_free (h : Inv succeeds s) (hmain : s.main.holdsM = false)
    (hsettled : Settled succeeds s) : s.m = none := by
  by_contra hheld
  obtain ⟨thread, hthread⟩ := Option.ne_none_iff_exists'.mp hheld
  have hholds := (h.ownedM thread).mp hthread
  cases thread with
  | main => simp [hmain] at hholds
  | thread k =>
    rcases hsettled k with hpoint | ⟨j, hpoint, -⟩ <;>
      simp [hpoint, ThreadPoint.holdsM] at hholds

/-- Threads that wait for a later mutex have counted themselves. -/
theorem Inv.count_eq (h : Inv succeeds s) (hi : i < phases)
    (hlater : ∀ k, s.thread k = .exited ∨ ∃ j, s.thread k = .lock j ∧ i < j) : s.count i = n := by
  have hcounted : ∀ k, (s.thread k).counted i = 1 := by
    intro k
    rcases hlater k with hpoint | ⟨j, hpoint, hless⟩
    · rw [hpoint]
      rfl
    · rw [hpoint]
      exact if_pos hless
  rw [h.count i hi, total, Finset.sum_congr rfl fun k _ ↦ hcounted k]
  simp

theorem leads_main (hstep : main s = some s') : (program succeeds).Leads s s' := by
  have hnext : (program succeeds).next s (.thread .main) = some s' := hstep
  exact System.leads_of_next hnext

theorem exists_lockM (succeeds : Fin n → ℕ → Bool) (rest : List (Fin n)) :
    ∀ s : State n, s.main = .create rest →
      ∃ s', (program succeeds).Leads s s' ∧ s'.main = .lockM := by
  induction rest with
  | nil =>
    intro s hmain
    exact ⟨{ s with main := .lockM }, leads_main (by simp [main, hmain]), rfl⟩
  | cons k rest ih =>
    intro s hmain
    have hcreate : main s = some { s.goto k (.lock 0) with main := .incrTOT rest } := by
      simp [main, hmain]
    obtain ⟨s', hleads, hlast⟩ := ih { s.goto k (.lock 0) with
      nbthTOT := s.nbthTOT + 1, main := .create rest } rfl
    exact ⟨s', (leads_main hcreate).trans ((leads_main rfl).trans hleads), hlast⟩

/-- `main` releases a mutex and waits, before any thread moves. -/
def State.waits (s : State n) (i : ℕ) : State n :=
  { s.setMtx i none with main := .blocked i, m := none }

theorem leads_waits (hmain : s.main = .unlock i) : (program succeeds).Leads s (s.waits i) := by
  have hunlock : main s = some { s.setMtx i none with main := .wait i } := by
    simp [main, hmain]
  exact (leads_main hunlock).trans (leads_main rfl)

/-- As long as each mutex has a thread that locks it, `main` gets to the next one, with the threads
settled. -/
theorem exists_unlock (p : ℕ) (hp : p < phases) (hsome : ∀ i < p, ∃ k, succeeds k i = true) :
    ∃ s, (program succeeds).Reachable s ∧ s.main = .unlock p ∧ Settled succeeds s := by
  induction p with
  | zero =>
    obtain ⟨first, hfirst, hlockM⟩ := exists_lockM succeeds (List.finRange n) (start n) rfl
    have hreach := (System.reachable_of_initial (P := program succeeds) rfl).leads hfirst
    obtain ⟨s, hleads, hinv, hmain, hsettled⟩ :=
      (inv_of_reachable hreach).exists_settled (by rw [hlockM]; rfl) (by rw [hlockM]; rfl)
    have hmain' : s.main = .lockM := by
      rw [hlockM] at hmain
      simpa using hmain
    have hfree := hinv.m_free (by rw [hmain']; rfl) hsettled
    have hstep : main s = some { s with main := .unlock 0, m := some .main } := by
      simp [main, hmain', hfree, mutexLock]
    refine ⟨_, (hreach.leads hleads).leads (leads_main hstep), rfl, fun k ↦ ?_⟩
    rcases hsettled k with hexited | ⟨j, hpoint, hsucceeds, -⟩
    · exact .inl hexited
    · exact .inr ⟨j, hpoint, hsucceeds, by simp [MainPoint.keeps]⟩
  | succ p ih =>
    obtain ⟨first, hreach, hunlock, -⟩ := ih (by omega) fun i hi ↦ hsome i (by omega)
    have hwaits := hreach.leads (leads_waits hunlock)
    obtain ⟨s, hleads, hinv, hmain, hsettled⟩ :=
      (inv_of_reachable hwaits).exists_settled rfl rfl
    have hkeeps : ∀ j, s.main.keeps j = decide (p < j) := by
      intro j
      rcases hmain with hmain | hmain <;> rw [hmain] <;> rfl
    have hcount : s.count p = n := by
      refine hinv.count_eq (by omega) fun k ↦ ?_
      rcases hsettled k with hexited | ⟨j, hpoint, -, hheld⟩
      · exact .inl hexited
      · rw [hkeeps] at hheld
        exact .inr ⟨j, hpoint, of_decide_eq_true hheld⟩
    have hwoken : s.main = .woken p := by
      rcases hmain with hmain | hmain
      · -- A thread that has still to signal is not settled.
        obtain ⟨k, hk⟩ := hinv.due p hmain (hsome p (by omega)) hcount.ge
        rcases hsettled k with hpoint | ⟨j, hpoint, -⟩ <;> simp [hpoint] at hk
      · exact hmain
    have hcreated := hinv.created
    have hfree := hinv.m_free (by rw [hwoken]; rfl) hsettled
    have hlock : main s = some { s with main := .test p, m := some .main } := by
      simp [main, hwoken, hfree, mutexLock]
    have htest : main { s with main := .test p, m := some .main } =
        some { s with main := .unlock (p + 1), m := some .main } := by
      have hless : ¬ s.count p < s.nbthTOT := by omega
      have hcount' : State.count { s with main := .test p, m := some .main } p = s.count p := rfl
      simp [main, hcount', hless, hp]
    refine ⟨_, ((hwaits.leads hleads).leads (leads_main hlock)).leads (leads_main htest), rfl,
      fun k ↦ ?_⟩
    rcases hsettled k with hexited | ⟨j, hpoint, hsucceeds, hheld⟩
    · exact .inl hexited
    · rw [hkeeps] at hheld
      exact .inr ⟨j, hpoint, hsucceeds, hheld⟩

/-- Threads that wait for mutexes which `main` has not released do nothing, and do not signal. -/
theorem Inv.not_willSignal (h : Inv succeeds s) (hsettled : Settled succeeds s) :
    ¬ WillSignal succeeds s := by
  rintro ⟨s', hleads, k, i, hsignal⟩
  have hstays : ∀ k, Phases.threaded succeeds s k = none := by
    intro k
    rcases hsettled k with hpoint | ⟨j, hpoint, hsucceeds, hheld⟩
    · simp [Phases.threaded, hpoint]
    · have hrange : j < phases := by
        have hrange := h.inRange.2 k
        rwa [hpoint] at hrange
      have howner := ((h.owned j hrange) .main).mpr hheld
      simp [Phases.threaded, hpoint, hsucceeds, howner, mutexLock]
  rcases hleads.cases_head with rfl | ⟨middle, ⟨move, hnext⟩, -⟩
  · rcases hsettled k with hpoint | ⟨j, hpoint, -⟩ <;> simp [hpoint] at hsignal
  · obtain ⟨hmove, hnext⟩ := System.restrict_next_eq_some_iff.mp hnext
    cases move with
    | spurious => simp [Move.ofThread] at hmove
    | thread thread =>
      cases thread with
      | main => simp [Move.ofThread] at hmove
      | thread k =>
        have hnone := hstays k
        simp [program, Phases.next, hnone] at hnext

/-- In the phase of a mutex that no thread locks, `main` can be blocked for ever. -/
theorem exists_stuck (hi : i < phases) (hsome : ∀ j < i, ∃ k, succeeds k j = true)
    (hnone : ∀ k, succeeds k i = false) :
    ∃ s, (program succeeds).Reachable s ∧ Stuck succeeds s := by
  obtain ⟨s, hreach, hmain, hsettled⟩ := exists_unlock i hi hsome
  have hwaits := hreach.leads (leads_waits hmain)
  have hinv := inv_of_reachable hwaits
  have hlater : ∀ k, s.thread k = .exited ∨
      ∃ j, s.thread k = .lock j ∧ succeeds k j = true ∧ i < j := by
    intro k
    rcases hsettled k with hexited | ⟨j, hpoint, hsucceeds, hheld⟩
    · exact .inl hexited
    · simp only [hmain, MainPoint.keeps, decide_eq_true_eq] at hheld
      refine .inr ⟨j, hpoint, hsucceeds, lt_of_le_of_ne hheld ?_⟩
      rintro rfl
      simp [hnone k] at hsucceeds
  refine ⟨s.waits i, hwaits, i, rfl, ?_, hinv.not_willSignal fun k ↦ ?_⟩
  · have hbeyond : ∀ k, s.thread k = .exited ∨ ∃ j, s.thread k = .lock j ∧ i < j := by
      intro k
      rcases hlater k with hexited | ⟨j, hpoint, -, hless⟩
      · exact .inl hexited
      · exact .inr ⟨j, hpoint, hless⟩
    have hcount := hinv.count_eq hi hbeyond
    have htotal := hinv.nbthTOT_eq (i := i) rfl
    omega
  · rcases hlater k with hexited | ⟨j, hpoint, hsucceeds, hless⟩
    · exact .inl hexited
    · exact .inr ⟨j, hpoint, hsucceeds, by simp [State.waits, MainPoint.keeps, hless]⟩

/-- For every number of threads, every choice of the locks that succeed and every interleaving:
`main` is never blocked for ever exactly if every mutex is locked by some thread. -/
theorem main_never_stuck_iff (succeeds : Fin n → ℕ → Bool) :
    (∀ s, (program succeeds).Reachable s → ¬ Stuck succeeds s) ↔
      ∀ i < phases, ∃ k, succeeds k i = true := by
  constructor
  · intro hnever
    by_contra hall
    have hexists : ∃ i, i < phases ∧ ∀ k, succeeds k i = false := by
      simpa using hall
    obtain ⟨hi, hnone⟩ := Nat.find_spec hexists
    have hbefore : ∀ j < Nat.find hexists, ∃ k, succeeds k j = true := by
      intro j hj
      have hmin := Nat.find_min hexists hj
      have hj' : j < phases := by omega
      simpa [hj'] using hmin
    obtain ⟨s, hreach, hstuck⟩ := exists_stuck hi hbefore hnone
    exact hnever s hreach hstuck
  · rintro hsome s hreach ⟨i, hblocked, hfull, hnever⟩
    have hinv := inv_of_reachable hreach
    have hrange : i < phases := by
      have hrange := hinv.inRange.1
      rwa [hblocked] at hrange
    exact hnever (hinv.willSignal hblocked hfull (hsome i hrange))

/-- One thread, none of whose locks succeeds, goes through all mutexes before `main` waits. -/
def threadFirst (only : Fin 1) : List (Move 1) :=
  List.flatten [.replicate 3 (.thread .main), .replicate 30 (.thread (.thread only)),
    .replicate 3 (.thread .main)]

theorem stuck_of_failing_locks :
    ∃ s : State 1, (program fun (_ : Fin 1) _ ↦ false).Reachable s ∧ Stuck (fun _ _ ↦ false) s := by
  obtain ⟨s, hreach, hexited, hmain, hcount⟩ : ∃ s,
      (program fun (_ : Fin 1) _ ↦ false).Reachable s ∧ s.thread 0 = .exited ∧
        s.main = .blocked 0 ∧ s.nbthTOT ≤ s.count 0 :=
    System.exists_reachable (threadFirst 0) rfl (by decide +kernel)
  refine ⟨s, hreach, 0, hmain, hcount, (inv_of_reachable hreach).not_willSignal fun k ↦ .inl ?_⟩
  rw [Subsingleton.elim k 0]
  exact hexited

end OpenPosix.Mutexes.Phases

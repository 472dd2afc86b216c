import OpenPosix.CondVars.CancelRounds

/-!
# No worker waits for ever

`round_completes`: with three workers or more, a worker that is blocked on the condition variable is
never the last thing that happens in the cell, and every round can be brought to its end without
spurious wake-ups, without help from the cancellation, and whatever was chosen. `cellmanager` polls
the counter, so a round may take any number of steps; at every moment there is one that brings the
end of the round nearer (`Inv.advances`).
-/

namespace OpenPosix.CondVars.Cancel

open Interleaving

variable {n : ℕ} {s s' : State n} {i : Fin n}

/-! ### The steps that are left in a round -/

/-- A bound on the steps of a worker that nobody wakes spuriously. A worker that has been unblocked
waits again if `boolean` is zero. -/
@[simp] def WorkerPoint.weight (zero : Bool) : WorkerPoint → ℕ
  | .lock => 14
  | .incr => 13
  | .woken _ => if zero then 12 else 8
  | .test => if zero then 11 else 7
  | .wait => 10
  | .blocked => 9
  | .broadcast => 6
  | .unlock => 5
  | .canceling => 4
  | .cleanup => 3
  | .returned | .canceled => 1
  | .unborn => 0

@[simp] def SignalerPoint.weight : SignalerPoint → ℕ
  | .start => 9
  | .lock => 8
  | .barrier => 7
  | .waiting => 6
  | .signal => 5
  | .finish => 4
  | .unlock => 3
  | .returned => 1
  | .unborn => 0

/-- A bound on the steps of `cellmanager`, if it locks the mutex only when all workers have counted
themselves. -/
@[simp] def ManagerPoint.rank (count : ℕ) : ManagerPoint n → ℕ
  | .reset => n + 25 + 15 * n
  | .create rest => n + 24 + 15 * rest.length
  | .choose => n + 23
  | .read => if count < n then n + 22 else n + 19
  | .unlock i => if i < n then n + 21 else n + 18
  | .lock => n + 20
  | .setBoolean => n + 17
  | .createSignaler => n + 16
  | .barrier => n + 5
  | .waiting => n + 4
  | .cancel => n + 3
  | .joinSignaler => n + 2
  | .join rest => rest.length + 1
  | .loop | .returned => 0

def State.remaining (s : State n) : ℕ :=
  s.manager.rank s.count + s.signaler.weight +
    total (WorkerPoint.weight (decide (s.boolean = .zero))) s.worker

theorem rank_antitone (point : ManagerPoint n) {count count' : ℕ} (hle : count ≤ count') :
    point.rank count' ≤ point.rank count := by
  cases point with
  | read =>
    simp only [ManagerPoint.rank]
    split_ifs <;> omega
  | _ => exact le_rfl

theorem remaining_lt_of_goto {point : WorkerPoint} (hmanager : s'.manager = s.manager)
    (hsignaler : s'.signaler = s.signaler) (hboolean : s'.boolean = s.boolean)
    (hcount : s.count ≤ s'.count) (hworker : s'.worker = Function.update s.worker i point)
    (hweight : point.weight (decide (s.boolean = .zero)) <
      (s.worker i).weight (decide (s.boolean = .zero))) : s'.remaining < s.remaining := by
  have hmove := total_update (WorkerPoint.weight (decide (s.boolean = .zero))) s.worker i point
  have hrank := rank_antitone s.manager hcount
  rw [State.remaining, State.remaining, hmanager, hsignaler, hboolean, hworker]
  omega

/-- A signal or a broadcast, after `boolean` has been set. -/
theorem total_wake_le (signaled : Bool) (set : Finset (Fin n)) (hset : s.boolean ≠ .zero) :
    total (WorkerPoint.weight (decide (s.boolean = .zero))) (s.wake signaled set).worker ≤
      total (WorkerPoint.weight (decide (s.boolean = .zero))) s.worker := by
  refine total_wakeUp_le (fun point ↦ ?_) set s.worker
  cases point <;> simp [hset]

/-! ### The end of a round can be reached -/

/-- The moves of the threads, other than to act on a cancellation. -/
def Move.ordinary : Move n → Bool
  | .thread _ | .choose _ _ | .signal _ => true
  | .act _ | .spurious _ | .stop => false

/-- The cell without spurious wake-ups, when nobody acts on a cancellation. -/
def calm (n : ℕ) : System (State n) (Move n) := (program n).restrict Move.ordinary

/-- Some thread has a step that brings the end of the round nearer. -/
def Advances (s : State n) : Prop :=
  ∃ move s', (calm n).next s move = some s' ∧ s'.remaining < s.remaining

theorem advances_of_next (move : Move n) (s' : State n) (hmove : move.ordinary = true)
    (hnext : next s move = some s') (hless : s'.remaining < s.remaining) : Advances s :=
  ⟨move, s', System.restrict_next_eq_some_iff.mpr ⟨hmove, hnext⟩, hless⟩

/-! ### The steps of the threads -/

/-- A step of `cellmanager` and the signaler that changes no worker. -/
theorem remaining_lt_of_goOn (hworker : s'.worker = s.worker) (hboolean : s'.boolean = s.boolean)
    (hless : s'.manager.rank s'.count + s'.signaler.weight <
      s.manager.rank s.count + s.signaler.weight) : s'.remaining < s.remaining := by
  rw [State.remaining, State.remaining, hworker, hboolean]
  omega

/-- A worker broadcasts, and `boolean` has been set. -/
theorem Inv.remaining_lt_of_broadcast (h : Inv s) (hpoint : s.worker i = .broadcast) :
    ((s.wake false Finset.univ).goto i .unlock).remaining < s.remaining := by
  have hrun : s.manager.stage = .run := by
    have hfits := h.fits i
    cases hstage : s.manager.stage <;> simp_all
  have hwake : (s.wake false Finset.univ).worker i = .broadcast := by
    rw [wake_of_not_blocked (by simp [hpoint]), hpoint]
  calc ((s.wake false Finset.univ).goto i .unlock).remaining
      < (s.wake false Finset.univ).remaining :=
        remaining_lt_of_goto rfl rfl rfl le_rfl rfl (by simp [hwake])
    _ ≤ s.remaining := Nat.add_le_add_left (total_wake_le false Finset.univ (h.set hrun)) _

theorem Inv.remaining_lt_of_worker (h : Inv s) (hstep : Cancel.worker s i = some s') :
    s'.remaining < s.remaining := by
  unfold Cancel.worker at hstep
  cases hpoint : s.worker i <;> simp only [hpoint, reduceCtorEq] at hstep
  case lock | woken | canceling =>
    obtain ⟨owner, -, rfl⟩ := Option.map_eq_some_iff.mp hstep
    refine remaining_lt_of_goto rfl rfl rfl le_rfl rfl ?_
    cases decide (s.boolean = .zero) <;> simp [hpoint]
  case incr =>
    cases hstep
    exact remaining_lt_of_goto rfl rfl rfl (Nat.le_succ _) rfl (by simp [hpoint])
  case wait =>
    split_ifs at hstep
    all_goals
      cases hstep
      exact remaining_lt_of_goto rfl rfl rfl le_rfl rfl (by simp [hpoint])
  case test =>
    cases hstep
    refine remaining_lt_of_goto rfl rfl rfl le_rfl rfl ?_
    rw [hpoint]
    split_ifs with hzero <;> simp [hzero]
  case broadcast =>
    cases hstep
    exact h.remaining_lt_of_broadcast hpoint
  case unlock | cleanup =>
    cases hstep
    exact remaining_lt_of_goto rfl rfl rfl le_rfl rfl (by simp [hpoint])

theorem remaining_lt_of_signaler (hstep : signaler s = some s') : s'.remaining < s.remaining := by
  unfold Cancel.signaler at hstep
  cases hpoint : s.signaler <;> simp only [hpoint, reduceCtorEq] at hstep
  case start | finish =>
    cases hstep
    refine remaining_lt_of_goOn rfl rfl ?_
    rw [hpoint]
    split_ifs <;> simp
  case lock =>
    obtain ⟨owner, -, rfl⟩ := Option.map_eq_some_iff.mp hstep
    exact remaining_lt_of_goOn rfl rfl (by simp [hpoint])
  case barrier =>
    split_ifs at hstep
    · cases hstep
      refine remaining_lt_of_goOn rfl rfl ?_
      simp only [State.release, hpoint]
      split_ifs with hmanager <;> simp [hmanager]
    · cases hstep
      exact remaining_lt_of_goOn rfl rfl (by simp [hpoint])
  case unlock =>
    cases hstep
    exact remaining_lt_of_goOn rfl rfl (by simp [hpoint])

/-- `boolean` is set, and every worker is at most as far from its end as before. -/
theorem Inv.remaining_lt_of_setBoolean (h : Inv s) (hpoint : s.manager = .setBoolean)
    {boolean : Flag} (hset : boolean ≠ .zero) :
    State.remaining { s with boolean := boolean, manager := .createSignaler } < s.remaining := by
  have hzero := (h.unset (by rw [hpoint]; rfl)).1
  have hmono : total (WorkerPoint.weight false) s.worker ≤
      total (WorkerPoint.weight true) s.worker := by
    refine total_mono fun i ↦ ?_
    cases s.worker i <;> simp
  simp only [State.remaining, hpoint, hzero, hset, ManagerPoint.rank, decide_true, decide_false]
  omega

/-- A step of `cellmanager`, which polls the counter only when it is complete. -/
theorem Inv.remaining_lt_of_cellmanager (h : Inv s) (hloop : s.manager ≠ .loop)
    (hpoll : s.manager = .lock → n ≤ s.count) (hstep : Cancel.cellmanager s = some s') :
    s'.remaining < s.remaining := by
  have hmeets := h.meets
  unfold Cancel.cellmanager at hstep
  cases hpoint : s.manager <;> simp only [hpoint, reduceCtorEq] at hstep
  case loop => exact absurd hpoint hloop
  case reset =>
    cases hstep
    have hunborn : ∀ i, s.worker i = .unborn := fun i ↦ (h.unborn i).mpr (by rw [hpoint]; rfl)
    simp [State.remaining, total, hunborn, hpoint]
  case create rest =>
    cases rest with
    | nil =>
      cases hstep
      exact remaining_lt_of_goOn rfl rfl (by simp [hpoint])
    | cons i rest =>
      cases hstep
      have hmove := total_update (WorkerPoint.weight (decide (s.boolean = .zero))) s.worker i .lock
      simp only [State.remaining, State.goto, hpoint, ManagerPoint.rank, WorkerPoint.weight,
        List.length_cons] at hmove ⊢
      omega
  case lock =>
    obtain ⟨owner, -, rfl⟩ := Option.map_eq_some_iff.mp hstep
    exact remaining_lt_of_goOn rfl rfl (by simp [hpoint, (hpoll hpoint).not_gt])
  case read =>
    cases hstep
    refine remaining_lt_of_goOn rfl rfl ?_
    simp only [hpoint, ManagerPoint.rank]
    split_ifs <;> omega
  case unlock k =>
    cases hstep
    refine remaining_lt_of_goOn rfl rfl ?_
    simp only [hpoint]
    split_ifs with hless <;> simp [hless]
  case setBoolean =>
    cases hstep
    refine h.remaining_lt_of_setBoolean hpoint ?_
    split_ifs <;> simp
  case createSignaler =>
    cases hstep
    have hsignaler : s.signaler = .unborn := by simpa [hpoint] using hmeets
    exact remaining_lt_of_goOn rfl rfl (by simp [hpoint, hsignaler])
  case barrier =>
    split_ifs at hstep
    · cases hstep
      refine remaining_lt_of_goOn rfl rfl ?_
      simp only [State.release, hpoint]
      split_ifs with hsignaler <;> simp [hsignaler]
    · cases hstep
      exact remaining_lt_of_goOn rfl rfl (by simp [hpoint])
  case cancel =>
    cases hstep
    exact remaining_lt_of_goOn rfl rfl (by simp [hpoint])
  case joinSignaler =>
    split_ifs at hstep with hsignaler
    cases hstep
    refine remaining_lt_of_goOn rfl rfl ?_
    simp only [hpoint, hsignaler, ManagerPoint.rank, SignalerPoint.weight, List.length_finRange]
    omega
  case join rest =>
    cases rest with
    | nil =>
      cases hstep
      exact remaining_lt_of_goOn rfl rfl (by simp [hpoint])
    | cons i rest =>
      obtain ⟨-, ⟨⟩⟩ := Option.ite_none_right_eq_some.mp hstep
      have hmove :=
        total_update (WorkerPoint.weight (decide (s.boolean = .zero))) s.worker i .unborn
      simp only [State.remaining, State.goto, hpoint, ManagerPoint.rank, List.length_cons]
      simp only [WorkerPoint.weight] at hmove
      omega

/-! ### Some thread has a step -/

theorem Inv.advances_worker (h : Inv s) (henabled : (Cancel.worker s i).isSome = true) :
    Advances s := by
  obtain ⟨s', hstep⟩ := Option.isSome_iff_exists.mp henabled
  exact advances_of_next (.thread (.worker i)) s' rfl hstep (h.remaining_lt_of_worker hstep)

theorem advances_signaler (henabled : (signaler s).isSome = true) : Advances s := by
  obtain ⟨s', hstep⟩ := Option.isSome_iff_exists.mp henabled
  exact advances_of_next (.thread .signaler) s' rfl hstep (remaining_lt_of_signaler hstep)

theorem Inv.advances_cellmanager (h : Inv s) (hloop : s.manager ≠ .loop)
    (hpoll : s.manager = .lock → n ≤ s.count) (henabled : (Cancel.cellmanager s).isSome = true) :
    Advances s := by
  obtain ⟨s', hstep⟩ := Option.isSome_iff_exists.mp henabled
  exact advances_of_next (.thread .manager) s' rfl hstep
    (h.remaining_lt_of_cellmanager hloop hpoll hstep)

theorem Inv.advances_holder (h : Inv s) (hholds : (s.worker i).holds = true) : Advances s := by
  refine h.advances_worker (i := i) ?_
  unfold Cancel.worker
  cases hpoint : s.worker i <;> simp_all
  case wait => split_ifs <;> rfl

/-- A worker that needs the mutex gets it when it is free. -/
theorem Inv.advances_lock (h : Inv s) (hfree : s.mtx = none)
    (hpoint : s.worker i = .lock ∨ (∃ signaled, s.worker i = .woken signaled) ∨
      s.worker i = .canceling) : Advances s := by
  refine h.advances_worker (i := i) ?_
  obtain hpoint | ⟨signaled, hpoint⟩ | hpoint := hpoint
  all_goals simp [Cancel.worker, hpoint, hfree, mutexLock]

/-- Whoever has the mutex goes on, unless it is `cellmanager` or the signaler. -/
theorem Inv.advances_or_free (h : Inv s) (hmanager : s.manager.holds = false)
    (hsignaler : s.signaler.holds s.boolean = false) : Advances s ∨ s.mtx = none := by
  by_cases hfree : s.mtx = none
  · exact .inr hfree
  · obtain ⟨thread, hthread⟩ := Option.ne_none_iff_exists'.mp hfree
    have hholds := (h.owned thread).mp hthread
    cases thread with
    | manager => simp [Holds, hmanager] at hholds
    | signaler => simp [Holds, hsignaler] at hholds
    | worker i => exact .inl (h.advances_holder hholds)

/-- `cellmanager` polls the counter: there is a worker that has not counted itself, or the poll is
the last one. -/
theorem Inv.advances_poll (h : Inv s) (hmanager : s.manager = .lock) : Advances s := by
  have hgather : s.manager.stage = .gather := by rw [hmanager]; rfl
  have hsignaler := h.signaler_unborn (by rw [hmanager]; rfl)
  rcases h.advances_or_free (by rw [hmanager]; rfl) (by rw [hsignaler]; rfl) with hstep | hfree
  · exact hstep
  by_cases hcount : s.count < n
  · -- The mutex is free, so a worker that has not counted itself is about to lock it.
    obtain ⟨i, hi⟩ : ∃ i, (s.worker i).counted ≠ 1 := by
      by_contra hall
      have htotal : total WorkerPoint.counted s.worker = n := by
        rw [total, Finset.sum_congr rfl fun i _ ↦ not_not.mp fun hi ↦ hall ⟨i, hi⟩]
        simp
      rw [h.count hgather, htotal] at hcount
      exact lt_irrefl n hcount
    have hfits := h.fits i
    have hborn : s.worker i ≠ .unborn := fun hunborn ↦ by
      have habsent := (h.unborn i).mp hunborn
      simp [hmanager, ManagerPoint.stage] at habsent
    have hout := h.owned.not_holds hfree (.worker i)
    refine h.advances_lock (i := i) hfree (.inl ?_)
    cases hpoint : s.worker i <;> simp_all [Holds]
  · exact h.advances_cellmanager (by simp [hmanager]) (fun _ ↦ not_lt.mp hcount)
      (by simp [Cancel.cellmanager, hmanager, hfree, mutexLock])

/-- `cellmanager` waits at the barrier for the signaler. -/
theorem Inv.advances_waiting (h : Inv s) (hmanager : s.manager = .waiting) : Advances s := by
  have hmeets := h.meets
  rw [hmanager] at hmeets
  cases hsignaler : s.signaler with
  | start => exact advances_signaler (by simp [Cancel.signaler, hsignaler])
  | lock =>
    rcases h.advances_or_free (by rw [hmanager]; rfl) (by rw [hsignaler]; rfl) with hstep | hfree
    · exact hstep
    exact advances_signaler (by simp [Cancel.signaler, hsignaler, hfree, mutexLock])
  | barrier =>
    refine advances_signaler ?_
    simp only [Cancel.signaler, hsignaler]
    split_ifs <;> rfl
  | _ => simp [hsignaler] at hmeets

/-- `cellmanager` waits for the signaler to return. -/
theorem Inv.advances_joinSignaler (h : Inv s) (hmanager : s.manager = .joinSignaler) :
    Advances s := by
  have hmeets := h.meets
  rw [hmanager] at hmeets
  cases hsignaler : s.signaler with
  | signal =>
    obtain ⟨set, hsignals⟩ := exists_signals WorkerPoint.isBlocked s.worker
    refine advances_of_next (.signal set) { s.wake true set with signaler := .finish } rfl ?_ ?_
    · simp [Cancel.next, Cancel.signal, hsignaler, hsignals]
    · have hwake := total_wake_le true set (h.set (by rw [hmanager]; rfl))
      simp only [State.remaining, State.wake, hsignaler, SignalerPoint.weight] at hwake ⊢
      omega
  | finish | unlock => exact advances_signaler (by simp [Cancel.signaler, hsignaler])
  | returned =>
    exact h.advances_cellmanager (by simp [hmanager]) (by simp [hmanager])
      (by simp [Cancel.cellmanager, hmanager, hsignaler])
  | _ => simp [hsignaler] at hmeets

/-- `cellmanager` waits for a worker to end. If that worker is blocked, another one comes to its
broadcast. -/
theorem Inv.advances_join (h : Inv s) {rest : List (Fin n)}
    (hmanager : s.manager = .join (i :: rest)) : Advances s := by
  have hrun : s.manager.stage = .run := by rw [hmanager]; rfl
  have hsignaler : s.signaler = .unborn := by simpa [hmanager] using h.meets
  rcases h.advances_or_free (by rw [hmanager]; rfl) (by rw [hsignaler]; rfl) with hstep | hfree
  · exact hstep
  have hout := fun k ↦ h.owned.not_holds hfree (.worker k)
  have hfits := h.fits i
  rw [hrun] at hfits
  cases hpoint : s.worker i with
  | unborn =>
    have habsent := (h.unborn i).mp hpoint
    simp [hmanager] at habsent
  | lock | incr => simp [hpoint] at hfits
  | wait | test | broadcast | unlock | cleanup =>
    exact absurd (hout i) (by simp [Holds, hpoint])
  | blocked =>
    obtain ⟨k, hk⟩ := h.caller hrun (by simp [hmanager]) ⟨i, by rw [hpoint]; rfl⟩
    cases hcaller : s.worker k with
    | woken signaled => exact h.advances_lock hfree (.inr (.inl ⟨signaled, hcaller⟩))
    | test | broadcast => exact absurd (hout k) (by simp [Holds, hcaller])
    | _ => simp [Calls, hcaller] at hk
  | woken signaled => exact h.advances_lock hfree (.inr (.inl ⟨signaled, hpoint⟩))
  | canceling => exact h.advances_lock hfree (.inr (.inr hpoint))
  | returned | canceled =>
    exact h.advances_cellmanager (by simp [hmanager]) (by simp [hmanager])
      (by simp [Cancel.cellmanager, hmanager, hpoint])

theorem Inv.advances (h : Inv s) (hn : 0 < n) (hround : s.manager ≠ .loop ∧ s.manager ≠ .returned) :
    Advances s := by
  cases hmanager : s.manager with
  | returned => exact absurd hmanager hround.2
  | lock => exact h.advances_poll hmanager
  | waiting => exact h.advances_waiting hmanager
  | joinSignaler => exact h.advances_joinSignaler hmanager
  | choose =>
    refine advances_of_next (.choose ⟨0, hn⟩ false)
      { s with randval := some ⟨0, hn⟩, locking := false, manager := .lock } rfl ?_ ?_
    · simp [Cancel.next, Cancel.choose, hmanager]
    · exact remaining_lt_of_goOn rfl rfl (by simp [hmanager])
  | join rest =>
    cases rest with
    | nil =>
      exact h.advances_cellmanager hround.1 (by simp [hmanager])
        (by simp [Cancel.cellmanager, hmanager])
    | cons i rest => exact h.advances_join hmanager
  | create rest =>
    refine h.advances_cellmanager hround.1 (by simp [hmanager]) ?_
    cases rest <;> simp [Cancel.cellmanager, hmanager]
  | barrier =>
    refine h.advances_cellmanager hround.1 (by simp [hmanager]) ?_
    simp only [Cancel.cellmanager, hmanager]
    split_ifs <;> rfl
  | _ =>
    exact h.advances_cellmanager hround.1 (by simp [hmanager])
      (by simp [Cancel.cellmanager, hmanager])

/-- From every state the round can be brought to its end. -/
theorem Inv.exists_over (h : Inv s) (hn : 3 ≤ n) :
    ∃ s', (calm n).Leads s s' ∧ (s'.manager = .loop ∨ s'.manager = .returned) ∧
      ∀ i, s'.worker i = .unborn := by
  have hstep : ∀ state : State n, Inv state →
      ¬ (state.manager = .loop ∨ state.manager = .returned) →
      ∃ move state', (calm n).next state move = some state' ∧ Inv state' ∧
        state'.remaining < state.remaining := by
    intro state hinv hround
    obtain ⟨move, state', hnext, hless⟩ := hinv.advances (by omega) (not_or.mp hround)
    have hordinary := (System.restrict_next_eq_some_iff.mp hnext).2
    exact ⟨move, state', hnext, hinv.next hn hordinary, hless⟩
  obtain ⟨s', hleads, hinv, hover⟩ := System.exists_leads_of_measure State.remaining hstep h
  refine ⟨s', hleads, hover, fun i ↦ (hinv.unborn i).mpr ?_⟩
  rcases hover with hmanager | hmanager <;> rw [hmanager] <;> rfl

/-- For every number of workers from three on, every choice and every interleaving: while a worker
is blocked on the condition variable, another thread of the cell has a step, one that is not a
spurious wake-up; and the round can be brought to its end, with every worker joined. -/
theorem round_completes (hn : 3 ≤ n) (h : (program n).Reachable s) :
    (∀ i, s.worker i = .blocked →
      ∃ move, move ≠ .thread (.worker i) ∧ (calm n).Enabled s move) ∧
      ∃ s', (calm n).Leads s s' ∧ (s'.manager = .loop ∨ s'.manager = .returned) ∧
        ∀ i, s'.worker i = .unborn := by
  have hinv := inv_of_reachable hn h
  refine ⟨fun i hblocked ↦ ?_, hinv.exists_over hn⟩
  have hfits := hinv.fits i
  have hround : s.manager ≠ .loop ∧ s.manager ≠ .returned := by
    constructor
    all_goals
      intro hmanager
      simp [hblocked, hmanager, ManagerPoint.stage] at hfits
  obtain ⟨move, s', hnext, -⟩ := hinv.advances (by omega) hround
  refine ⟨move, ?_, Option.isSome_iff_exists.mpr ⟨s', hnext⟩⟩
  rintro rfl
  have hworker := (System.restrict_next_eq_some_iff.mp hnext).2
  simp [program, Cancel.next, Cancel.worker, hblocked] at hworker

/-- Three workers: the signal goes to the worker that is cancelled, which leaves it to the first
one, while the third one stays blocked. -/
def untilActed (first second third : Fin 3) : List (Move 3) :=
  List.flatten [.replicate 6 (.thread .manager), [.choose second false],
    .replicate 3 (.thread (.worker first)), .replicate 3 (.thread (.worker second)),
    .replicate 3 (.thread (.worker third)), .replicate 6 (.thread .manager),
    .replicate 2 (.thread .signaler), [.thread .manager, .signal {second}, .act {first}],
    [.thread .signaler, .thread .manager]]

theorem round_completes_acted :
    ∃ s : State 3, (program 3).Reachable s ∧ s.worker 1 = .canceling ∧ s.worker 2 = .blocked ∧
      s.manager = .join (List.finRange 3) ∧
        (∃ move, move ≠ .thread (.worker 2) ∧ (calm 3).Enabled s move) ∧
          ∃ s', (calm 3).Leads s s' ∧ (s'.manager = .loop ∨ s'.manager = .returned) ∧
            ∀ i, s'.worker i = .unborn := by
  obtain ⟨s, hreach, hacted, hblocked, hmanager⟩ : ∃ s, (program 3).Reachable s ∧
      s.worker 1 = .canceling ∧ s.worker 2 = .blocked ∧ s.manager = .join (List.finRange 3) :=
    System.exists_reachable (untilActed 0 1 2) rfl (by decide +kernel)
  obtain ⟨hstep, hover⟩ := round_completes (by decide) hreach
  exact ⟨s, hreach, hacted, hblocked, hmanager, hstep 2 hblocked, hover⟩

end OpenPosix.CondVars.Cancel

import OpenPosix.Mutexes.ElectionInvariant

/-!
# Every round elects one child

`round_spec` puts together what the invariant says about the barrier and about the end of a round,
and that no round gets stuck. The busy loops of `main` and of the children make it possible that a
round goes on for ever, but at every moment some thread has a step that brings the end of the round
nearer (`Inv.advances`). `countP_completion` counts over whole runs: each round completes the
barrier once.
-/

namespace OpenPosix.Mutexes.Election

open Interleaving

variable {n nscenar : ℕ} {s s' : State n} {k : Fin n}

attribute [simp] State.arrives State.goto State.mainGoto State.setMtx

/-! ### The end of a round can be reached -/

/-- A bound on the steps of a child, if it tries the mutex again only when that is free. -/
def ChildPoint.weight : ChildPoint → ℕ
  | .test => 9
  | .trylock => 8
  | .check true => 7
  | .barrier => 6
  | .waiting => 5
  | .clear => 4
  | .unlock => 3
  | .check false => 2
  | .returned => 1
  | .unborn => 0

/-- A bound on the steps of `main`, if it tries the mutex again only when a child has it. -/
@[simp] def MainPoint.rank : MainPoint n → ℕ
  | .lock => 10 * n + 9
  | .setGoOn => 10 * n + 8
  | .create rest => n + 7 + 9 * rest.length
  | .unlock => n + 6
  | .trylock => n + 5
  | .barrier => n + 4
  | .waiting => n + 3
  | .join rest => rest.length + 2
  | .next => 1
  | .loop | .ended => 0

def State.remaining (s : State n) : ℕ := s.main.rank + total ChildPoint.weight s.child

theorem remaining_lt_of_goto {point : ChildPoint} (hmain : s'.main = s.main)
    (hchild : s'.child = Function.update s.child k point)
    (hweight : point.weight < (s.child k).weight) : s'.remaining < s.remaining := by
  have hmove := total_update ChildPoint.weight s.child k point
  rw [State.remaining, State.remaining, hmain, hchild]
  omega

theorem remaining_pass_lt (hmain : s.main = .barrier ∨ s.main = .waiting)
    (hk : s.child k = .barrier ∨ s.child k = .waiting) :
    (s.pass k).remaining < s.remaining := by
  have hmove := total_update ChildPoint.weight s.child k .clear
  have hrank : (afterBarrier : MainPoint n).rank < s.main.rank := by
    rcases hmain with hmain | hmain <;>
      simp [hmain, afterBarrier, List.length_finRange]
  have hweight : ChildPoint.clear.weight < (s.child k).weight := by
    rcases hk with hk | hk <;> rw [hk] <;> decide
  simp only [State.remaining, State.pass, State.goto, State.mainGoto]
  omega

/-- A child is not blocked, and does not try a mutex that is held. -/
structure Ready (s : State n) (k : Fin n) : Prop where
  born : s.child k ≠ .unborn
  waiting : s.child k ≠ .waiting
  unfinished : s.child k ≠ .returned
  free : s.child k = .trylock → s.mtx s.i = none

/-- A child that is ready brings the end of the round nearer. -/
theorem Inv.child_remaining_lt (h : Inv s) (hready : Ready s k) :
    ∃ s', Election.threaded s k = some s' ∧ s'.remaining < s.remaining := by
  unfold Election.threaded
  cases hpoint : s.child k with
  | unborn => exact absurd hpoint hready.born
  | waiting => exact absurd hpoint hready.waiting
  | returned => exact absurd hpoint hready.unfinished
  | trylock =>
    simp only [hready.free hpoint, if_true]
    exact ⟨_, rfl, remaining_lt_of_goto rfl rfl (by rw [hpoint]; decide)⟩
  | test =>
    refine ⟨_, rfl, remaining_lt_of_goto rfl rfl ?_⟩
    rw [hpoint]
    split_ifs <;> decide
  | check acquired =>
    cases acquired <;> cases hgoOn : s.goOn <;>
      simp only [Bool.and_true, Bool.and_false, Bool.false_eq_true, if_true, if_false]
    all_goals exact ⟨_, rfl, remaining_lt_of_goto rfl rfl (by rw [hpoint]; decide)⟩
  | barrier =>
    by_cases hcompletes : Completes 2 s.waiting
    · obtain ⟨hmain, hpass⟩ := h.waiting_of_child hpoint hcompletes
      simp only [hcompletes, if_true, hpass]
      exact ⟨_, rfl, remaining_pass_lt (.inr hmain) (.inl hpoint)⟩
    · simp only [hcompletes, if_false]
      exact ⟨_, rfl, remaining_lt_of_goto rfl rfl (by rw [hpoint]; decide)⟩
  | clear | unlock => exact ⟨_, rfl, remaining_lt_of_goto rfl rfl (by rw [hpoint]; decide)⟩

/-- Some thread has a step that brings the end of the round nearer. -/
def Advances (nscenar : ℕ) (s : State n) : Prop :=
  ∃ thread s', next nscenar s (.thread thread) = some s' ∧ s'.remaining < s.remaining

theorem Inv.advances_child (h : Inv s) (hready : Ready s k) : Advances nscenar s := by
  obtain ⟨s', hnext, hless⟩ := h.child_remaining_lt hready
  exact ⟨.child k, s', hnext, hless⟩

theorem advances_main (s' : State n) (hnext : main nscenar s = some s')
    (hchild : s'.child = s.child)
    (hrank : s'.main.rank < s.main.rank) : Advances nscenar s := by
  refine ⟨.main, s', hnext, ?_⟩
  rw [State.remaining, State.remaining, hchild]
  omega

/-- A child that has the mutex and does not wait at the barrier goes on. -/
theorem Inv.advances_holder (h : Inv s) (hholds : (s.child k).holds = true)
    (hwaiting : s.child k ≠ .waiting) : Advances nscenar s := by
  refine h.advances_child (k := k) ⟨?_, hwaiting, ?_, ?_⟩
  all_goals
    intro hpoint
    simp [hpoint, ChildPoint.holds] at hholds

/-- The mutex is free, unless `main` or a child holds it. -/
theorem Inv.free_of_not_holds (h : Inv s) (hmain : s.main.holds = false)
    (hchildren : ∀ k, (s.child k).holds = false) : s.mtx s.i = none := by
  by_contra hheld
  obtain ⟨thread, hthread⟩ := Option.ne_none_iff_exists'.mp hheld
  have hholds := (h.owned thread).mp hthread
  cases thread with
  | main => simp [Holds, hmain] at hholds
  | child k => simp [Holds, hchildren k] at hholds

/-- `main` tries the mutex: a child has it, or can get it. -/
theorem Inv.advances_trylock (h : Inv s) (hn : 0 < n) (hmain : s.main = .trylock) :
    Advances nscenar s := by
  by_cases hfree : s.mtx s.i = none
  · have hgoOn := h.goOn_of_before (by rw [hmain]; rfl)
    have hfits := h.fits ⟨0, hn⟩
    rw [hmain] at hfits
    have hfree' := h.owned.not_holds hfree (.child ⟨0, hn⟩)
    refine h.advances_child (k := ⟨0, hn⟩) ⟨fun hunborn ↦ ?_, fun hpoint ↦ ?_, fun hpoint ↦ ?_,
      fun _ ↦ hfree⟩
    · have habsent := (h.unborn _).mp hunborn
      simp [hmain, MainPoint.phase] at habsent
    · simp [Holds, hpoint, ChildPoint.holds] at hfree'
    · simp [hpoint, MainPoint.phase] at hfits
  · exact advances_main (s.mainGoto .barrier) (by simp [Election.main, hmain, hfree]) rfl
      (by simp [hmain])

/-- `main` is at the barrier. -/
theorem Inv.advances_barrier (h : Inv s) (hmain : s.main = .barrier) : Advances nscenar s := by
  by_cases hcompletes : Completes 2 s.waiting
  · obtain ⟨k, hk, hpass⟩ := h.waiting_of_main hmain hcompletes
    refine ⟨.main, s.pass k, ?_, remaining_pass_lt (.inl hmain) (.inr hk)⟩
    simp only [Election.next, Election.main, hmain, if_pos hcompletes, hpass]
  · exact advances_main (s.mainGoto .waiting) (by simp [Election.main, hmain, hcompletes]) rfl
      (by simp [hmain])

/-- `main` waits for a child to return: the child that holds the mutex goes on, or there is none and
the child that is waited for does. -/
theorem Inv.advances_join (h : Inv s) {rest : List (Fin n)} (hmain : s.main = .join (k :: rest)) :
    Advances nscenar s := by
  have hfits : ∀ j, (s.child j).fits .after s.goOn = true := by
    intro j
    have hj := h.fits j
    rwa [hmain] at hj
  have hnever : ∀ j, s.child j ≠ .waiting := by
    intro j hpoint
    have hj := hfits j
    cases hgoOn : s.goOn <;> simp [hpoint, hgoOn] at hj
  by_cases hholder : ∃ j, (s.child j).holds = true
  · obtain ⟨j, hj⟩ := hholder
    exact h.advances_holder hj (hnever j)
  · have hnone : ∀ j, (s.child j).holds = false := fun j ↦ by
      rw [← Bool.not_eq_true]
      exact fun hj ↦ hholder ⟨j, hj⟩
    by_cases hreturned : s.child k = .returned
    · refine ⟨.main, (s.goto k .unborn).mainGoto (.join rest), ?_, ?_⟩
      · simp [Election.next, Election.main, hmain, hreturned]
      · have hmove := total_update ChildPoint.weight s.child k .unborn
        simp only [State.remaining, State.goto, State.mainGoto, hmain, MainPoint.rank,
          ChildPoint.weight, List.length_cons] at hmove ⊢
        omega
    · refine h.advances_child (k := k) ⟨fun hunborn ↦ ?_, hnever k, hreturned,
        fun _ ↦ h.free_of_not_holds (by rw [hmain]; rfl) hnone⟩
      have habsent := (h.unborn k).mp hunborn
      simp [hmain] at habsent

theorem Inv.advances (h : Inv s) (hn : 0 < n) (hround : s.main ≠ .loop ∧ s.main ≠ .ended) :
    Advances nscenar s := by
  cases hmain : s.main with
  | loop => exact absurd hmain hround.1
  | ended => exact absurd hmain hround.2
  | lock =>
    have hunborn : ∀ j, (s.child j).holds = false := fun j ↦ by
      rw [(h.unborn j).mpr (by rw [hmain]; rfl)]
      rfl
    have hfree := h.free_of_not_holds (by rw [hmain]; rfl) hunborn
    exact advances_main ((s.setMtx (some .main)).mainGoto .setGoOn)
      (by simp [Election.main, hmain, hfree, mutexLock]) rfl (by simp [hmain])
  | setGoOn =>
    refine advances_main ({ s with goOn := true, main := .create (List.finRange n) }) ?_ rfl ?_
    · simp [Election.main, hmain]
    · simp only [hmain, MainPoint.rank, List.length_finRange]
      omega
  | create rest =>
    cases rest with
    | nil =>
      exact advances_main (s.mainGoto .unlock) (by simp [Election.main, hmain]) rfl
        (by simp [hmain])
    | cons k rest =>
      refine ⟨.main, (s.goto k .trylock).mainGoto (.create rest),
        by simp [Election.next, Election.main, hmain], ?_⟩
      have hmove := total_update ChildPoint.weight s.child k .trylock
      simp only [State.remaining, State.goto, State.mainGoto, hmain, MainPoint.rank,
        ChildPoint.weight, List.length_cons] at hmove ⊢
      omega
  | unlock =>
    refine advances_main ((s.setMtx none).mainGoto .trylock) (by simp [Election.main, hmain]) rfl ?_
    simp [hmain]
  | trylock => exact h.advances_trylock hn hmain
  | barrier => exact h.advances_barrier hmain
  | waiting =>
    obtain ⟨k, hk⟩ := h.elected (.inr hmain)
    exact h.advances_holder hk (h.apart hmain k)
  | join rest =>
    cases rest with
    | nil =>
      refine advances_main (s.mainGoto .next) (by simp [Election.main, hmain]) rfl ?_
      simp [hmain]
    | cons k rest => exact h.advances_join hmain
  | next =>
    refine advances_main ({ s with i := (s.i + 1) % (nscenar + 2), main := .loop })
      (by simp [Election.main, hmain]) rfl ?_
    simp [hmain]

/-- From every state the round can be brought to its end. -/
theorem Inv.exists_over (h : Inv s) (hn : 0 < n) :
    ∃ s', (program n nscenar).Leads s s' ∧ (s'.main = .loop ∨ s'.main = .ended) ∧
      ∀ k, s'.child k = .unborn := by
  have hstep : ∀ state : State n, Inv state → ¬ (state.main = .loop ∨ state.main = .ended) →
      ∃ move state', (program n nscenar).next state move = some state' ∧ Inv state' ∧
        state'.remaining < state.remaining := by
    intro state hinv hround
    obtain ⟨thread, state', hnext, hless⟩ := hinv.advances hn (not_or.mp hround)
    exact ⟨.thread thread, state', hnext, hinv.next hnext, hless⟩
  obtain ⟨s', hleads, hinv, hover⟩ := System.exists_leads_of_measure State.remaining hstep h
  refine ⟨s', hleads, hover, fun k ↦ (hinv.unborn k).mpr ?_⟩
  rcases hover with hmain | hmain <;> rw [hmain] <;> rfl

theorem Inv.exists_step (h : Inv s) (hn : 0 < n) (hended : s.main ≠ .ended) :
    ∃ thread s', (program n nscenar).next s (.thread thread) = some s' := by
  by_cases hloop : s.main = .loop
  · exact ⟨.main, s.mainGoto (if s.doIt then .lock else .ended), by
      simp [program, Election.next, Election.main, hloop]⟩
  · obtain ⟨thread, s', hnext, -⟩ := h.advances hn ⟨hloop, hended⟩
    exact ⟨thread, s', hnext⟩

/-! ### Who passes the barrier -/

/-- Children at the barrier hold the mutex, so there is at most one. -/
theorem Inv.atBarrier_unique (h : Inv s) {j k : Fin n} (hj : (s.child j).atBarrier = true)
    (hk : (s.child k).atBarrier = true) : j = k := by
  have hholds : ∀ i, (s.child i).atBarrier = true → (s.child i).holds = true := by
    intro i hi
    cases hpoint : s.child i <;> simp_all [ChildPoint.atBarrier, ChildPoint.holds]
  exact h.unique (hholds j hj) (hholds k hk)

/-- The step that completes the barrier lets one child and `main` pass. -/
theorem Inv.passing (h : Inv s) {t : Thread n} (harrives : s.arrives t = true)
    (hcompletes : Completes 2 s.waiting) :
    s.childrenPassing t = 1 ∧ s.mainPasses t = true := by
  cases t with
  | main =>
    have hmain : s.main = .barrier := by simpa using harrives
    obtain ⟨k, hk, -⟩ := h.waiting_of_main hmain hcompletes
    refine ⟨?_, rfl⟩
    rw [State.childrenPassing, h.total_waits (k := k) (by rw [hk]; rfl), hk]
    rfl
  | child k =>
    have hk : s.child k = .barrier := by simpa using harrives
    obtain ⟨hmain, -⟩ := h.waiting_of_child hk hcompletes
    refine ⟨?_, by simp [State.mainPasses, hmain]⟩
    rw [State.childrenPassing, h.total_waits (k := k) (by rw [hk]; rfl), hk]
    rfl

/-- One from when `main` passes the barrier to the end of the round. -/
@[simp] def MainPoint.passed : MainPoint n → ℕ
  | .join _ | .next => 1
  | _ => 0

/-- A step that is not the end of a round completes the barrier exactly if `main` passes it. -/
theorem Inv.passed_step (h : Inv s) {move : Move n}
    (hnext : Election.next nscenar s move = some s') :
    (completion (s, move)).toNat + s.main.passed = (roundEnd (s, move)).toNat + s'.main.passed := by
  cases move with
  | stop =>
    cases hnext
    rfl
  | thread t =>
    cases t with
    | child k =>
      simp only [Election.next, Election.threaded] at hnext
      cases hpoint : s.child k <;> simp only [hpoint, reduceCtorEq] at hnext
      case barrier =>
        by_cases hcompletes : Completes 2 s.waiting
        · obtain ⟨hmain, hpass⟩ := h.waiting_of_child hpoint hcompletes
          rw [if_pos hcompletes, hpass] at hnext
          cases hnext
          simp [completion, roundEnd, hpoint, hcompletes, hmain, afterBarrier]
        · rw [if_neg hcompletes] at hnext
          cases hnext
          simp [completion, roundEnd, hcompletes]
      case trylock | check acquired =>
        split_ifs at hnext
        all_goals
          cases hnext
          simp [completion, roundEnd, hpoint]
      case test | clear | unlock =>
        cases hnext
        simp [completion, roundEnd, hpoint]
    | main =>
      simp only [Election.next, Election.main] at hnext
      cases hmain : s.main <;> simp only [hmain, reduceCtorEq] at hnext
      case barrier =>
        by_cases hcompletes : Completes 2 s.waiting
        · rw [if_pos hcompletes] at hnext
          cases hnext
          simp [completion, roundEnd, hmain, hcompletes, afterBarrier]
        · rw [if_neg hcompletes] at hnext
          cases hnext
          simp [completion, roundEnd, hmain, hcompletes]
      case lock =>
        simp only [Option.map_eq_some_iff] at hnext
        obtain ⟨owner, -, rfl⟩ := hnext
        simp [completion, roundEnd, hmain]
      case loop =>
        cases hnext
        cases hdoIt : s.doIt <;>
          simp [completion, roundEnd, hmain]
      case trylock =>
        split_ifs at hnext
        all_goals
          cases hnext
          simp [completion, roundEnd, hmain]
      case create rest =>
        cases rest <;> simp only at hnext
        all_goals
          cases hnext
          simp [completion, roundEnd, hmain]
      case join rest =>
        cases rest <;> simp only at hnext
        · cases hnext
          simp [completion, roundEnd, hmain]
        · split_ifs at hnext
          cases hnext
          simp [completion, roundEnd, hmain]
      case setGoOn | unlock | next =>
        cases hnext
        simp [completion, roundEnd, hmain]

/-- The barrier is completed once in every round that has ended, and in the current round if `main`
has passed it. -/
theorem countP_completion {trace : List (State n × Move n)} (h : (program n nscenar).Exec trace s) :
    trace.countP completion = trace.countP roundEnd + s.main.passed := by
  induction h with
  | start hinitial =>
    obtain rfl := hinitial
    rfl
  | @step trace state state' move hbefore hnext ih =>
    have hstep := (inv_of_reachable ⟨trace, hbefore⟩).passed_step hnext
    simp only [List.countP_append, List.countP_singleton]
    cases hcompletion : completion (state, move) <;> cases hend : roundEnd (state, move) <;>
      simp only [hcompletion, hend, Bool.toNat_false, Bool.toNat_true, Bool.false_eq_true, if_true,
        if_false] at hstep ⊢ <;> omega

/-- For every number of children and every interleaving: at most one child is at the barrier; the
step that completes the barrier lets one child and `main` pass, and there is one such step in each
round; as long as `main` has not ended or a child has not returned, a thread has a step, and the
round can be brought to its end; and when the children are joined, the mutexes are free and `go_on`
is cleared. -/
theorem round_spec (hn : 0 < n) {trace : List (State n × Move n)}
    (h : (program n nscenar).Exec trace s) :
    (∀ j k, (s.child j).atBarrier = true → (s.child k).atBarrier = true → j = k) ∧
      (∀ t, s.arrives t = true → Completes 2 s.waiting →
        s.childrenPassing t = 1 ∧ s.mainPasses t = true) ∧
      trace.countP completion = trace.countP roundEnd + s.main.passed ∧
      ((∃ k, s.child k ≠ .unborn ∧ s.child k ≠ .returned) ∨ s.main ≠ .ended →
        ∃ thread s', (program n nscenar).next s (.thread thread) = some s') ∧
      (∃ s', (program n nscenar).Leads s s' ∧ (s'.main = .loop ∨ s'.main = .ended) ∧
        ∀ k, s'.child k = .unborn) ∧
      (s.main = .join [] → s.goOn = false ∧ ∀ j, s.mtx j = none) := by
  have hinv := inv_of_reachable ⟨trace, h⟩
  refine ⟨fun j k ↦ hinv.atBarrier_unique, fun t ↦ hinv.passing, countP_completion h,
    fun hunfinished ↦ hinv.exists_step hn ?_, hinv.exists_over hn, fun hmain ↦ ?_⟩
  · rcases hunfinished with ⟨k, hborn, -⟩ | hended
    · intro hmain
      exact hborn ((hinv.unborn k).mpr (by rw [hmain]; rfl))
    · exact hended
  · obtain ⟨hgoOn, -, hfree⟩ := hinv.joined hmain
    exact ⟨hgoOn, hfree⟩

/-- Two children: the second one gets the mutex and waits at the barrier, which `main` is about to
complete. -/
def untilBarrier (first second : Fin 2) : List (Move 2) :=
  List.flatten [.replicate 7 (.thread .main), .replicate 3 (.thread (.child second)),
    .replicate 2 (.thread (.child first)), [.thread .main]]

theorem round_spec_two :
    ∃ (trace : List (State 2 × Move 2)) (s : State 2), (program 2 8).Exec trace s ∧
      s.main = .barrier ∧ s.child 1 = .waiting ∧ s.childrenPassing .main = 1 ∧
        ∃ s', (program 2 8).Leads s s' ∧ (s'.main = .loop ∨ s'.main = .ended) ∧
          ∀ k, s'.child k = .unborn := by
  obtain ⟨s, hrun, hmain, hchild, hcompletes⟩ : ∃ s, (program 2 8).runSchedule (start 2)
      (untilBarrier 0 1) = some s ∧ s.main = .barrier ∧ s.child 1 = .waiting ∧
        Completes 2 s.waiting := System.exists_of_replay (by decide +kernel)
  have hexec := (System.Exec.start (P := program 2 8) rfl).runSchedule hrun
  obtain ⟨-, hpassing, -, -, hover, -⟩ := round_spec (by decide) hexec
  have harrives : s.arrives .main = true := by simp [hmain]
  exact ⟨_, s, hexec, hmain, hchild, (hpassing .main harrives hcompletes).1, hover⟩

end OpenPosix.Mutexes.Election

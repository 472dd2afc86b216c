import OpenPosix.CondVars.WakeupScenario

/-!
# Who leaves the loop, and when

Two results about the wake-up tests. `leaves_after_wake_iff`: in the runs of a program no child
leaves its loop before `main` has woken the children of the same scenario, exactly if no timed wait
can expire and there can be no spurious wake-ups after the first scenario, where `td->predicate` is
still set from the scenario before. `cascade`: in `pthread_cond_signal/1-2.c` one signal of `main`
is enough, since a blocked child is never alone once `main` has released the mutex, and all the
children can return.
-/

namespace OpenPosix.CondVars.Wakeup

open Interleaving Verdicts

variable {n : ℕ} {c : Config n} {s s' : State n} {i : Fin n}

attribute [simp] MainPoint.isExited

/-! ### Before the wake-up -/

/-- A child that has not been woken, or that has returned. -/
@[simp] def ChildPoint.early : ChildPoint → Bool
  | .unborn | .lock | .incr | .wait _ | .blocked _ | .returned _ => true
  | _ => false

/-- Before `main` sets the predicate of a scenario, it is what it was at the start if the scenario
is the first one; and the children have not been woken, except in the first scenario if the
predicate was not set at the start. -/
structure Before (c : Config n) (s : State n) : Prop where
  untouched : s.main.hasSet = false → s.scenar = 0 → s.predicate = c.predicate
  early : s.main.hasSet = false → s.scenar = 0 ∧ c.predicate = false ∨ ∀ i, (s.child i).early

theorem before_start (c : Config n) : Before c (start c) :=
  ⟨fun _ _ ↦ rfl, fun _ ↦ .inr fun _ ↦ rfl⟩

theorem Flow.early {test : Test} {predicate : Bool} {before after : ChildPoint}
    (h : Flow test predicate before after) (hbefore : before.early) : after.early := by
  cases h <;> simp_all

theorem Before.child (h : Before c s) (heffect : ChildEffect c s i s') : Before c s' := by
  refine ⟨?_, ?_⟩
  · rw [heffect.main, heffect.scenar, heffect.predicate]
    exact h.untouched
  · rw [heffect.main, heffect.scenar]
    intro hmain
    refine (h.early hmain).imp_right fun hearly j ↦ ?_
    have hsignal : s.child i ≠ .signal := fun heq ↦ by
      have hi := hearly i
      simp [heq] at hi
    by_cases heq : j = i
    · subst heq
      exact heffect.flow.early (hearly j)
    · rw [heffect.quiet hsignal j heq]
      exact hearly j

/-- From the time that the predicate is set there is nothing to say. -/
theorem before_of_hasSet (h : s.main.hasSet = true) : Before c s :=
  ⟨fun hnot ↦ by simp [h] at hnot, fun hnot ↦ by simp [h] at hnot⟩

/-- A step of `main` with which it does not touch the predicate or the children. -/
theorem Before.keep (h : Before c s) (hmain : s.main.hasSet = false)
    (hpredicate : s'.predicate = s.predicate) (hscenar : s'.scenar = s.scenar)
    (hchild : s'.child = s.child) : Before c s' := by
  refine ⟨fun _ hzero ↦ ?_, fun _ ↦ ?_⟩
  · rw [hpredicate]
    exact h.untouched hmain (hscenar ▸ hzero)
  · rw [hscenar, hchild]
    exact h.early hmain

theorem Before.main_step (h : Before c s) (hinv : Inv c s) (hstep : MainStep c s s') :
    Before c s' := by
  have hinv' := hinv.main_step hstep
  cases hstep with
  | setup hmain hlt =>
    exact ⟨fun _ ↦ h.untouched (by simp [hmain, MainPoint.hasSet]), fun _ ↦ .inr fun _ ↦ rfl⟩
  | finish hmain | created hmain | lock hmain hfree | unlock hmain | counted hmain hcount =>
    exact h.keep (by simp [hmain, MainPoint.hasSet]) rfl rfl rfl
  | create i rest hmain =>
    have hset : s.main.hasSet = false := by simp [hmain, MainPoint.hasSet]
    refine ⟨fun _ ↦ h.untouched hset, fun _ ↦ (h.early hset).imp_right fun hearly j ↦ ?_⟩
    by_cases heq : j = i
    · subst heq
      simp
    · simpa [heq] using hearly j
  | setPredicate hmain | wake set hmain hset hall | release hmain | join i rest hmain hreturned =>
    exact before_of_hasSet rfl
  | joined hmain =>
    -- The children of the scenario have returned.
    refine ⟨fun _ hzero ↦ absurd hzero (Nat.succ_ne_zero _), fun _ ↦ .inr fun i ↦ ?_⟩
    rcases hinv'.idle rfl i with heq | heq
    · exact heq ▸ rfl
    · exact heq ▸ rfl

/-- The condition on the environment: in the scenarios of the list there are no timeouts, and no
spurious wake-ups unless it is the first scenario and the predicate is not set at the start. -/
def Quiet (c : Config n) : Prop :=
  ∀ scenar < c.scenarios, c.expires scenar = false ∧
    (c.spurious scenar = false ∨ scenar = 0 ∧ c.predicate = false)

theorem before_of_reachable (hquiet : Quiet c) (h : (program c).Reachable s) : Before c s := by
  have hexpires : ∀ scenar < c.scenarios, c.expires scenar = false :=
    fun scenar hlt ↦ (hquiet scenar hlt).1
  refine h.invariant (fun s hs ↦ hs ▸ before_start c) fun s move s' hreach hbefore hnext ↦ ?_
  have hinv := inv_of_reachable hexpires hreach
  simp only [program] at hnext
  split_ifs at hnext with hexited
  cases move with
  | main set => exact hbefore.main_step hinv (mainStep_of_main hinv hnext)
  | child i set => exact hbefore.child (childEffect_of_child hinv.owned (hinv.fresh i) hnext)
  | spurious i =>
    obtain ⟨⟨hspurious, hblocked⟩, ⟨⟩⟩ := Option.ite_none_right_eq_some.mp hnext
    rcases (hquiet _ (hinv.scenar_lt hblocked)).2 with hnone | hfirst
    · simp [hnone] at hspurious
    · exact ⟨hbefore.untouched, fun _ ↦ .inl hfirst⟩
  | expire i =>
    simp only [expire, Option.ite_none_right_eq_some] at hnext
    obtain ⟨⟨hexpire, hpoint⟩, -⟩ := hnext
    have hblocked : (s.child i).isBlocked := by simp [hpoint, ChildPoint.isBlocked]
    simp [hexpires _ (hinv.scenar_lt hblocked)] at hexpire

/-- Assumes: the environment is quiet, and the state is reachable. A move that takes a child out of
its loop comes after the wake-up. -/
theorem hasWoken_of_leavesLoop (hquiet : Quiet c) (h : (program c).Reachable s) {move : Move n}
    (hleaves : LeavesLoop s move) : s.main.hasWoken = true := by
  have hinv := inv_of_reachable (fun scenar hlt ↦ (hquiet scenar hlt).1) h
  have hbefore := before_of_reachable hquiet h
  cases move with
  | main set | spurious i | expire i => exact hleaves.elim
  | child i set =>
    obtain ⟨timed, expired, hpoint, hcond⟩ := hleaves
    have hfresh := hinv.fresh i
    simp only [hpoint, ChildPoint.expired] at hfresh
    have hpredicate : s.predicate = true := hcond.resolve_left (by simp [hfresh])
    -- `main` does not hold the mutex, since the child does.
    have hmain : s.main.holds = false := by
      by_contra hholds
      refine absurd (hinv.owned.unique (show Holds s .main by simpa [Holds] using hholds)
        (show Holds s (.child i) by simp [Holds, hpoint])) (by simp)
    by_contra hnot
    have hset : s.main.hasSet = false := by
      cases hs : s.main <;> simp_all [MainPoint.hasSet, MainPoint.hasWoken, MainPoint.holds]
    rcases hbefore.early hset with ⟨hzero, hunset⟩ | hearly
    · have huntouched := hbefore.untouched hset hzero
      simp [hpredicate, hunset] at huntouched
    · have hi := hearly i
      simp [hpoint] at hi

/-! ### Leaving too early -/

/-- In some run a child leaves its loop before the wake-up of the scenario. -/
def CanLeaveEarly (c : Config n) : Prop :=
  ∃ s move s', (program c).Reachable s ∧ (program c).next s move = some s' ∧ LeavesLoop s move ∧
    s.main.hasWoken = false

/-- Every scenario of the list is reached, and after the first one the predicate is set. -/
theorem exists_setup (c : Config n) {scenar : ℕ} (hle : scenar ≤ c.scenarios) :
    ∃ s, (program c).Reachable s ∧ Inv c s ∧ s.main = .setup ∧ s.scenar = scenar ∧
      s.predicate = (c.predicate || decide (0 < scenar)) := by
  induction scenar with
  | zero => exact ⟨start c, System.reachable_of_initial rfl, inv_start c, rfl, rfl, by simp [start]⟩
  | succ scenar ih =>
    obtain ⟨s, hreach, hinv, hmain, hscenar, -⟩ := ih (Nat.le_of_succ_le hle)
    have hlt : s.scenar < c.scenarios := hscenar ▸ hle
    have hfirst : (program c).next s (.main ∅) =
        some { s with main := .create (c.kids s.scenar), child := fun _ ↦ .unborn, mtx := none,
                      count := 0 } := by
      simp [program, hmain, main, hlt]
    obtain ⟨last, hleads, hlast, hsame, hjoined⟩ := (inv_setup hinv hlt).exists_joined rfl
    have hnext : (program c).next last (.main ∅) =
        some { last with main := .setup, scenar := last.scenar + 1 } := by
      simp [program, hjoined, main, ChildVerdicts.afterJoin]
    have hnew := hlast.next (by simp) hnext
    refine ⟨_, ((hreach.step hfirst).leads hleads).step hnext, hnew, rfl, ?_, ?_⟩
    · simp only [hsame, hscenar]
    · simpa using hnew.carried (Nat.succ_pos _)

/-- In every scenario of the list the first child can be blocked, in a timed wait, while `main` is
still creating the others. -/
theorem exists_blocked (c : Config n) {scenar : ℕ} (hlt : scenar < c.scenarios) :
    ∃ s i rest, (program c).Reachable s ∧ s.main = .create rest ∧ s.scenar = scenar ∧
      s.child i = .blocked true ∧ s.mtx = none ∧
      s.predicate = (c.predicate || decide (0 < scenar)) := by
  obtain ⟨s, hreach, -, hmain, rfl, hpredicate⟩ := exists_setup c hlt.le
  obtain ⟨i, rest, hkids⟩ := c.exists_kids_eq_cons s.scenar
  have hrun : (program c).runSchedule s [.main ∅, .main ∅, .child i ∅, .child i ∅, .child i ∅] =
      some { s with main := .create rest, mtx := none, count := 1,
                    child := Function.update (fun _ ↦ .unborn) i (.blocked true) } := by
    simp [System.runSchedule, program, main, child, hmain, hlt, hkids, mutexLock]
  exact ⟨_, i, rest, hreach.runSchedule hrun, rfl, rfl, by simp, rfl, hpredicate⟩

/-- A child whose wait is over takes the mutex and leaves its loop. -/
theorem canLeaveEarly_of_woken {rest : List (Fin n)} {expired : Bool}
    (hreach : (program c).Reachable s) (hmain : s.main = .create rest) (hfree : s.mtx = none)
    (hpoint : s.child i = .woken true expired) (hcond : expired = true ∨ s.predicate = true) :
    CanLeaveEarly c := by
  have hlock : (program c).next s (.child i ∅) =
      some ({ s with mtx := some (.child i) }.goto i (.test true expired)) := by
    simp [program, hmain, child, hpoint, hfree, mutexLock]
  obtain ⟨set, s', hnext⟩ := exists_child_step (c := c) (i := i)
    (s := { s with mtx := some (.child i) }.goto i (.test true expired))
    (by simp [hmain])
    (.inl (by simp))
  exact ⟨_, _, s', hreach.step hlock, hnext, ⟨true, expired, by simp, hcond⟩,
    by simp [hmain, MainPoint.hasWoken]⟩

/-- Assumes: the environment is not quiet in some scenario. A child can leave its loop too early. -/
theorem canLeaveEarly_of_loud {scenar : ℕ} (hlt : scenar < c.scenarios)
    (hloud : c.expires scenar = true ∨
      c.spurious scenar = true ∧ (0 < scenar ∨ c.predicate = true)) : CanLeaveEarly c := by
  obtain ⟨s, i, rest, hreach, hmain, rfl, hpoint, hfree, hpredicate⟩ := exists_blocked c hlt
  rcases hloud with hexpires | ⟨hspurious, hset⟩
  · have hnext : (program c).next s (.expire i) = some (s.goto i (.woken true true)) := by
      simp [program, hmain, expire, hexpires, hpoint]
    have hwoken : (s.goto i (.woken true true)).child i = .woken true true := by simp
    exact canLeaveEarly_of_woken (hreach.step hnext) hmain hfree hwoken (.inl rfl)
  · have hnext : (program c).next s (.spurious i) = some (s.goto i (.woken true false)) := by
      simp [program, hmain, spurious, hspurious, hpoint, ChildPoint.isBlocked, ChildPoint.wake]
    have hwoken : (s.goto i (.woken true false)).child i = .woken true false := by
      simp
    refine canLeaveEarly_of_woken (hreach.step hnext) hmain hfree hwoken (.inr ?_)
    change s.predicate = true
    rw [hpredicate]
    rcases hset with hpos | hset
    · simp [hpos]
    · simp [hset]

/-- For a given program and environment: in every interleaving no child leaves its loop before
`main` has set the predicate and has signalled or broadcast in the same scenario, exactly if in the
scenarios of the list no timed wait can expire, and no spurious wake-up can occur, except in the
first scenario if `td->predicate` is not set at the start. -/
theorem leaves_after_wake_iff (c : Config n) :
    (∀ s, (program c).Reachable s → ∀ move s', (program c).next s move = some s' →
      LeavesLoop s move → s.main.hasWoken = true) ↔
    ∀ scenar < c.scenarios, c.expires scenar = false ∧
      (c.spurious scenar = false ∨ scenar = 0 ∧ c.predicate = false) := by
  constructor
  · intro hall scenar hlt
    by_contra hnot
    have hloud : c.expires scenar = true ∨
        c.spurious scenar = true ∧ (0 < scenar ∨ c.predicate = true) := by
      by_contra hquiet
      refine hnot ⟨?_, ?_⟩ <;> simp only [not_or, not_and, Bool.not_eq_true] at hquiet
      · exact hquiet.1
      · cases hspurious : c.spurious scenar with
        | false => exact .inl rfl
        | true =>
          obtain ⟨hzero, hpredicate⟩ := hquiet.2 hspurious
          exact .inr ⟨Nat.eq_zero_of_not_pos hzero, hpredicate⟩
    obtain ⟨s, move, s', hreach, hnext, hleaves, hwoken⟩ := canLeaveEarly_of_loud hlt hloud
    exact absurd (hall s hreach move s' hnext hleaves) (by simp [hwoken])
  · exact fun hquiet s hreach move s' _ hleaves ↦ hasWoken_of_leavesLoop hquiet hreach hleaves

/-- Two scenarios of one child each, `td->predicate` not set at the start, and spurious wake-ups. -/
def twoScenarios (test : Test) : Config 1 where
  test := test
  scenarios := 2
  children := fun _ ↦ 1
  fork := fun _ ↦ false
  predicate := false
  spurious := fun _ ↦ true
  expires := fun _ ↦ false
  children_pos := fun _ ↦ Nat.one_pos
  children_le := fun _ ↦ le_rfl

theorem canLeaveEarly_twoScenarios (test : Test) : CanLeaveEarly (twoScenarios test) :=
  canLeaveEarly_of_loud (show 1 < (twoScenarios test).scenarios from Nat.one_lt_two)
    (.inr ⟨rfl, .inl Nat.one_pos⟩)

/-- In the second scenario of each of the three programs, a child leaves its loop too early. -/
theorem leaves_early : CanLeaveEarly (twoScenarios .condSignal12) ∧
    CanLeaveEarly (twoScenarios .condBroadcast12) ∧
    CanLeaveEarly (twoScenarios .condBroadcast23) :=
  ⟨canLeaveEarly_twoScenarios _, canLeaveEarly_twoScenarios _, canLeaveEarly_twoScenarios _⟩

/-! ### The chain of signals -/

/-- Assumes: `main` has signalled and released the mutex. A blocked child is not alone: another
child can make a step. -/
theorem Inv.exists_other_child (h : Inv c s) (hwoken : s.main.hasWoken) (hmain : s.main ≠ .release)
    (hblocked : (s.child i).isBlocked) :
    ∃ j, j ≠ i ∧ ∃ set s', (program c).next s (.child j set) = some s' := by
  have hexited : s.main.isExited = false := MainPoint.not_isExited
    (MainPoint.inScenario_of_hasCounted (MainPoint.hasCounted_of_hasWoken hwoken))
  have hnot : s.main.holds = false := by
    cases hs : s.main <;> simp_all [MainPoint.hasWoken, MainPoint.holds]
  have hne : ∀ j, (s.child j).isBlocked = false → j ≠ i := by
    rintro j hj rfl
    simp [hj] at hblocked
  by_cases hfree : s.mtx = none
  · obtain ⟨j, timed, expired, hj⟩ := h.exists_woken hwoken hfree hblocked
    exact ⟨j, hne j (by simp [hj, ChildPoint.isBlocked]),
      exists_child_step hexited (.inr ⟨hfree, .inr ⟨timed, expired, hj⟩⟩)⟩
  · obtain ⟨j, hholds⟩ := h.exists_child_holds hnot hfree
    refine ⟨j, hne j ?_, exists_child_step hexited (.inl hholds)⟩
    cases hpoint : s.child j <;> simp_all [ChildPoint.isBlocked]

/-- Assumes: no timed wait can expire, and `main` has signalled in the current scenario. If a child
is blocked, then another child can make a step, or `main` has not yet released the mutex after its
signal and can do so; and from every such state all the children of the scenario can return. The
result is about the signal test: after a broadcast no child is blocked. -/
theorem cascade (c : Config n) (hexpires : ∀ scenar < c.scenarios, c.expires scenar = false)
    (s : State n) (h : (program c).Reachable s) (hwoken : s.main.hasWoken = true) :
    (∀ i, (s.child i).isBlocked →
      (s.main ≠ .release → ∃ j, j ≠ i ∧ ∃ set s', (program c).next s (.child j set) = some s') ∧
      (s.main = .release → ∃ set s', (program c).next s (.main set) = some s')) ∧
    ∃ s', (program c).Leads s s' ∧ s'.scenar = s.scenar ∧
      ∀ i ∈ c.kids s.scenar, s'.child i = .returned ptsPass := by
  have hinv := inv_of_reachable hexpires h
  refine ⟨fun i hblocked ↦ ⟨fun hmain ↦ hinv.exists_other_child hwoken hmain hblocked,
    fun hmain ↦ ?_⟩, ?_⟩
  · exact ⟨∅, by simp [program, hmain, main]⟩
  · obtain ⟨s', hleads, hinv', hscenar, hjoined⟩ := hinv.exists_joined
      (MainPoint.inScenario_of_hasCounted (MainPoint.hasCounted_of_hasWoken hwoken))
    obtain ⟨-, -, hkids⟩ := hinv'.joined _ _ hjoined
    exact ⟨s', hleads, hscenar, fun i hi ↦ (hkids i (hscenar ▸ hi)).resolve_left (by simp)⟩

/-- One scenario of the signal test with two children and with spurious wake-ups. -/
def twoChildren : Config 2 where
  test := .condSignal12
  scenarios := 1
  children := fun _ ↦ 2
  fork := fun _ ↦ false
  predicate := false
  spurious := fun _ ↦ true
  expires := fun _ ↦ false
  children_pos := fun _ ↦ Nat.two_pos
  children_le := fun _ ↦ le_rfl

/-- Both children wait, and `main` signals, which wakes the first one. -/
def oneSignal (first second : Fin 2) : List (Move 2) :=
  List.flatten [.replicate 4 (.main ∅), .replicate 3 (.child first ∅),
    .replicate 3 (.child second ∅), .replicate 3 (.main ∅), [.main {first}]]

theorem exists_window : ∃ s, (program twoChildren).Reachable s ∧ s.main = .release ∧
    s.child 0 = .woken true false ∧ s.child 1 = .blocked false ∧ s.mtx = some .main :=
  System.exists_reachable (oneSignal 0 1) rfl (by decide +kernel)

/-- All the children return after the signal. -/
theorem cascade_two : ∃ s s', (program twoChildren).Reachable s ∧ (s.child 1).isBlocked = true ∧
    (program twoChildren).Leads s s' ∧ ∀ i ∈ twoChildren.kids s.scenar,
      s'.child i = .returned ptsPass := by
  obtain ⟨s, hreach, hmain, -, hblocked, -⟩ := exists_window
  obtain ⟨-, s', hleads, -, hreturned⟩ := cascade twoChildren (fun _ _ ↦ rfl) s hreach
    (by simp [hmain, MainPoint.hasWoken])
  exact ⟨s, s', hreach, by simp [hblocked, ChildPoint.isBlocked], hleads, hreturned⟩

/-- Until `main` releases the mutex after its signal, a child can be blocked while no other child
has a step. -/
theorem blocked_alone : ∃ s, (program twoChildren).Reachable s ∧ s.main.hasWoken = true ∧
    (s.child 1).isBlocked = true ∧
    ∀ j, j ≠ 1 → ∀ set, (program twoChildren).next s (.child j set) = none := by
  obtain ⟨s, hreach, hmain, hwoken, hblocked, hmtx⟩ := exists_window
  refine ⟨s, hreach, by simp [hmain, MainPoint.hasWoken], by simp [hblocked, ChildPoint.isBlocked],
    fun j hj set ↦ ?_⟩
  obtain rfl : j = 0 := by omega
  simp [program, hmain, child, hwoken, hmtx, mutexLock]

end OpenPosix.CondVars.Wakeup

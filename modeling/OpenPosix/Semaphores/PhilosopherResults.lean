import OpenPosix.Semaphores.PhilosopherInvariant

/-!
# Exclusion and progress of the dining philosophers

`neighbours_exclusive` is safety: two neighbours are never both in the section that follows the wait
on their private semaphore, and whenever `lock` is free the entry of a philosopher is `eating`
exactly when it has a ticket or is in its section. `no_missed_grant` is progress: whenever `lock` is
free, no philosopher that `test` would grant is left waiting, so no reachable state with an
unfinished philosopher is a deadlock. The step that is then enabled is one of a philosopher, or the
creation of the next one; it is never only a join of `main`.

Both are about every number of philosophers from two on and every number of rounds. With a single
philosopher each neighbour is the philosopher itself, and its own `eating` entry refuses it.
-/

namespace OpenPosix.Semaphores.Philosopher

open Interleaving

variable {n loopNum : ℕ} {s : State n} {i : Fin n}

/-- A thread at none of its waits has a step. -/
theorem philosopher_isSome_iff : (philosopher loopNum s i).isSome ↔ match s.point i with
      | .unborn | .exited => False
      | .waitLock | .waitLockAgain => 0 < s.lock
      | .waitPh => 0 < s.ph i
      | _ => True := by
  cases hpoint : s.point i <;> simp [philosopher, hpoint]

/-- While `lock` is free no thread is inside `test`. -/
theorem Inv.not_holds (h : Inv s) (hlock : s.lock = 1) (i : Fin n) : (s.point i).holds ≠ 1 := by
  intro hi
  have hzero := h.lock_eq_zero hi
  omega

theorem Inv.ticket_of_free (h : Inv s) (hlock : s.lock = 1) (i : Fin n) :
    s.ph i + (s.point i).inSection.toNat = if s.state i = .eating then 1 else 0 :=
  h.ticket i fun j hj ↦ h.not_holds hlock j hj.holds

theorem Inv.not_grantable (h : Inv s) (hlock : s.lock = 1) (i : Fin n) : ¬ Grantable s i := by
  intro hgrant
  obtain ⟨j, hj⟩ := h.decided i hgrant
  exact h.not_holds hlock j hj.holds

/-- A philosopher in its section has an `eating` entry. -/
theorem Inv.eating_of_inSection (h : Inv s) (hi : (s.point i).inSection = true) :
    s.state i = .eating := by
  have hplace := h.place i
  cases hpoint : s.point i with
  | eat | waitLockAgain | setThinking => simpa [Place, hpoint] using hplace
  | _ => simp [hpoint, Point.inSection] at hi

/-- Assumes: at least two philosophers, and a reachable state. Two neighbours are never both between
the return of `sem_wait(&ph[i])` and `state[i] = thinking`. Whenever `lock` has value one, every
`ph[i]` has value at most one, and `state[i]` is `eating` exactly when `ph[i]` has value one or
philosopher `i` is in that section. -/
theorem neighbours_exclusive (n loopNum : ℕ) (hn : 2 ≤ n) (s : State n)
    (h : (program n loopNum).Reachable s) :
    (∀ i j : Fin n, j.val = (i.val + 1) % n →
      ¬ ((s.point i).inSection = true ∧ (s.point j).inSection = true)) ∧
    (s.lock = 1 → ∀ i, s.ph i ≤ 1 ∧
      (s.state i = .eating ↔ s.ph i = 1 ∨ (s.point i).inSection = true)) := by
  have hinv := inv_of_reachable hn h
  constructor
  · rintro i j hj ⟨hi, hnext⟩
    obtain rfl : j = post i := Fin.ext (by rw [hj, post_val_eq_mod])
    exact hinv.exclusive i (hinv.eating_of_inSection hi) (hinv.eating_of_inSection hnext)
  · intro hlock i
    have hticket := hinv.ticket_of_free hlock i
    by_cases heating : s.state i = .eating
    · rw [if_pos heating] at hticket
      cases hsection : (s.point i).inSection <;> simp [hsection] at hticket <;>
        simp [hticket, heating]
    · rw [if_neg heating] at hticket
      cases hsection : (s.point i).inSection <;> simp [hsection] at hticket
      simp [hticket, heating]

/-- A schedule of two philosophers of one round: the first one gets to eat. -/
def firstEats : List (Thread 2) :=
  [.main, .main] ++ List.replicate 10 (.philosopher 0) ++ [.philosopher 1]

theorem firstEats_run : ∃ s, (program 2 1).runSchedule (start 2) firstEats = some s ∧
    s.point 0 = .eat ∧ s.lock = 1 :=
  ⟨_, rfl, rfl, rfl⟩

/-- While the first of two philosophers eats, the second one is not in its section. -/
theorem neighbours_exclusive_firstEats :
    ∃ s, (program 2 1).runSchedule (start 2) firstEats = some s ∧
      (s.point 0).inSection = true ∧ (s.point 1).inSection = false ∧ s.state 0 = .eating := by
  obtain ⟨s, hrun, hpoint, hlock⟩ := firstEats_run
  have hreach := (System.reachable_of_initial (P := program 2 1) rfl).runSchedule hrun
  obtain ⟨hexclusive, hticket⟩ := neighbours_exclusive 2 1 le_rfl s hreach
  have hfirst : (s.point 0).inSection = true := by rw [hpoint]; rfl
  refine ⟨s, hrun, hfirst, ?_, ((hticket hlock 0).2).mpr (.inr hfirst)⟩
  have hsecond := hexclusive 0 1 rfl
  simpa [hfirst] using hsecond

/-- A philosopher that waits for its turn while `lock` is free and no thread has a step would be
granted. -/
theorem Inv.not_eating_of_blocked (h : Inv s) (hlock : s.lock = 1)
    (hblocked : ¬ (philosopher loopNum s i).isSome) : s.state i ≠ .eating := by
  intro heating
  have hticket := h.ticket_of_free hlock i
  have hplace := h.place i
  rw [if_pos heating] at hticket
  rw [heating] at hplace
  rw [philosopher_isSome_iff] at hblocked
  cases hpoint : s.point i with
  | unborn | exited => simp [Place, hpoint] at hplace
  | waitLock | waitLockAgain => simp [hpoint, hlock] at hblocked
  | waitPh =>
    simp only [hpoint, Point.inSection, Bool.toNat_false] at hblocked hticket
    omega
  | _ => simp [hpoint] at hblocked

/-- Assumes: `main` has created all philosophers, and none of them has a step. All have exited. -/
theorem Inv.all_exited (h : Inv s) (hborn : ∀ i, s.point i ≠ .unborn)
    (hblocked : ∀ i, ¬ (philosopher loopNum s i).isSome) (i : Fin n) : s.point i = .exited := by
  have hlock : s.lock = 1 := by
    by_contra hne
    have htoken := h.token
    have hpositive : 0 < total Point.holds s.point := by omega
    obtain ⟨j, hj⟩ := exists_pos_of_total_pos hpositive
    have hstep := hblocked j
    rw [philosopher_isSome_iff] at hstep
    cases hpoint : s.point j <;> simp [hpoint, Point.holds] at hj hstep
  have hi := hblocked i
  rw [philosopher_isSome_iff] at hi
  cases hpoint : s.point i with
  | exited => rfl
  | unborn => exact absurd hpoint (hborn i)
  | waitPh =>
    have hplace := h.place i
    have hnot := h.not_eating_of_blocked hlock (hblocked i)
    have hhungry : s.state i = .hungry := by simpa [Place, hpoint, hnot] using hplace
    exact absurd ⟨hhungry, h.not_eating_of_blocked hlock (hblocked _),
      h.not_eating_of_blocked hlock (hblocked _)⟩ (h.not_grantable hlock i)
  | waitLock | waitLockAgain => simp [hpoint, hlock] at hi
  | _ => simp [hpoint] at hi

/-- Assumes: at least two philosophers, and a reachable state. Whenever `lock` has value one, no
philosopher is hungry while neither of its neighbours is eating. If some philosopher has rounds left
or has not exited, then a philosopher has a step, or `main` has one to create and can create it. -/
theorem no_missed_grant (n loopNum : ℕ) (hn : 2 ≤ n) (s : State n)
    (h : (program n loopNum).Reachable s) :
    (s.lock = 1 → ∀ i, ¬ (s.state i = .hungry ∧ s.state (pre i) ≠ .eating ∧
      s.state (post i) ≠ .eating)) ∧
    ((∃ i, s.round i < loopNum ∨ s.point i ≠ .exited) →
      (∃ i, (program n loopNum).Enabled s (.philosopher i)) ∨
        s.main.creates ≠ [] ∧ (program n loopNum).Enabled s .main) := by
  have hinv := inv_of_reachable hn h
  refine ⟨hinv.not_grantable, ?_⟩
  rintro ⟨i, hi⟩
  have hunfinished : s.point i ≠ .exited := by
    obtain hround | hpoint := hi
    · intro hpoint
      have hdone := exitsDone_of_reachable h i hpoint
      omega
    · exact hpoint
  by_cases hcreates : s.main.creates = []
  · by_contra hnone
    push Not at hnone
    have hborn : ∀ j, s.point j ≠ .unborn := fun j hj ↦ by
      simpa [hcreates] using ((launched_of_reachable h).unborn_iff j).mp hj
    exact hunfinished (hinv.all_exited hborn (fun j hj ↦ hnone.1 j hj) i)
  · refine .inr ⟨hcreates, ?_⟩
    show (main s).isSome = true
    exact Launcher.next_isSome hcreates

/-- The second philosopher announces its hunger while the first one eats, and waits. -/
def secondWaits : List (Thread 2) := firstEats ++ List.replicate 5 (.philosopher 1)

/-- The second philosopher is blocked and hungry, `lock` is free, and some thread has a step. -/
theorem no_missed_grant_secondWaits :
    ∃ s, (program 2 1).runSchedule (start 2) secondWaits = some s ∧
      philosopher 1 s 1 = none ∧ s.state 1 = .hungry ∧ s.state 0 = .eating ∧
      ∃ i, (program 2 1).Enabled s (.philosopher i) := by
  obtain ⟨s, hrun, hblocked, hhungry, hlock, hcreates⟩ :
      ∃ s, (program 2 1).runSchedule (start 2) secondWaits = some s ∧ philosopher 1 s 1 = none ∧
        s.state 1 = .hungry ∧ s.lock = 1 ∧ s.main.creates = [] :=
    ⟨_, rfl, rfl, rfl, rfl, rfl⟩
  have hreach := (System.reachable_of_initial (P := program 2 1) rfl).runSchedule hrun
  obtain ⟨hgrant, hprogress⟩ := no_missed_grant 2 1 le_rfl s hreach
  have hpoint : s.point 1 ≠ .exited := by
    intro hpoint
    have hdone := (inv_of_reachable le_rfl hreach).place 1
    simp [hpoint, hhungry, Place] at hdone
  have heating : s.state 0 = .eating := by
    have hfree := hgrant hlock 1
    by_contra hne
    exact hfree ⟨hhungry, hne, hne⟩
  exact ⟨s, hrun, hblocked, hhungry, heating,
    (hprogress ⟨1, .inr hpoint⟩).resolve_right fun hcreate ↦ hcreate.1 hcreates⟩

end OpenPosix.Semaphores.Philosopher

import OpenPosix.CondVars.DestroyStages

/-!
# The condition variable is destroyed safely

When `main` destroys the condition variable after a broadcast, no child is blocked on it, and none
begins a wait until it is initialised again (`destroy_safe`). The test does not get stuck either: in
every state with an unfinished child some thread has a step, without the help of a spurious wake-up,
and the right steps lead to the end of the scenario (`Inv.exists_joined`).
-/

namespace OpenPosix.CondVars.Destroy

open Interleaving

variable {n scenarios : ℕ} {s s' : State n} {i : Fin n} {p q : Pass}

/-! ### The end of a scenario can be reached -/

/-- The steps that a child has before it after a pass. -/
@[simp] def Pass.offset : Pass → ℕ
  | .one => 9
  | .two => 0

/-- A bound on the steps that a child has before it. A woken child that finds the predicate not set
goes back to its wait, so the test of the loop counts more then. -/
@[simp] def ChildPoint.weight (predicate : Pass → Bool) : ChildPoint → ℕ
  | .unborn => 22
  | .lock p => p.offset + 12
  | .incr p => p.offset + 11
  | .test p => p.offset + if predicate p then 6 else 10
  | .wait p => p.offset + 9
  | .blocked p => p.offset + 8
  | .woken p => p.offset + 7
  | .decr => 14
  | .unlock p => p.offset + 4
  | .returned => 0

theorem weight_wake_le (predicate : Pass → Bool) (point : ChildPoint) :
    point.wake.weight predicate ≤ point.weight predicate := by
  cases point <;> simp

theorem weight_update_le (predicate : Pass → Bool) (p : Pass) (point : ChildPoint) :
    point.weight (Function.update predicate p true) ≤ point.weight predicate := by
  cases point with
  | test q =>
    by_cases hq : q = p
    · subst hq
      simp only [ChildPoint.weight, Function.update_self, if_true]
      split_ifs <;> omega
    · simp [hq]
  | _ => exact le_rfl

theorem Flow.weight_lt {predicate : Pass → Bool} {before after : ChildPoint}
    (h : Flow predicate p before after) (hwoken : before = .woken p → predicate p = true) :
    after.weight predicate < before.weight predicate := by
  cases h with
  | relock p => simp [hwoken rfl]
  | again p hnot => simp [hnot]
  | leave p hset => cases p <;> simp [hset]
  | unlock p => cases p <;> simp
  | decr => simp
  | _ => simp

/-- A step changes the counter of its own pass only. -/
theorem Flow.counted_other {predicate : Pass → Bool} {before after : ChildPoint}
    (h : Flow predicate p before after) (hq : q ≠ p) : after.counted q = before.counted q := by
  cases h with
  | leave p hset => cases p <;> cases q <;> simp_all
  | unlock p => cases p <;> cases q <;> simp_all
  | decr => cases q <;> simp_all
  | _ => simp [hq.symm]

/-- A bound on the steps that `main` has before it in a scenario. It looks at a counter again only
if it has found it too small, or too large between the passes. -/
def mainRank (s : State n) : ℕ :=
  match s.main with
  | .create rest => n + 20 + rest.length
  | .poll .one => if s.count .one < n then n + 19 else n + 17
  | .lock .one => n + 18
  | .setPredicate .one => n + 16
  | .broadcast .one => n + 15
  | .unlock .one => n + 14
  | .destroy .one => n + 13
  | .drain => if 0 < s.count .one then n + 12 else n + 10
  | .drainLock => n + 11
  | .drainUnlock => n + 9
  | .init => n + 8
  | .poll .two => if s.count .two < n then n + 7 else n + 5
  | .lock .two => n + 6
  | .setPredicate .two => n + 4
  | .broadcast .two => n + 3
  | .unlock .two => n + 2
  | .destroy .two => n + 1
  | .join rest => rest.length
  | .setup | .cleanup | .exited => 0

def remaining (s : State n) : ℕ := mainRank s + total (ChildPoint.weight s.predicate) s.child

theorem ChildEffect.remaining_lt (h : ChildEffect s i p s') (howned : Owned (s.mtx p) (Holds p s))
    (hwoken : s.child i = .woken p → s.predicate p = true) : remaining s' < remaining s := by
  have hmain := h.not_main_holds howned
  have hcount : ∀ q, q ≠ p → s'.count q = s.count q := fun q hq ↦ by
    have hmove := h.count q
    rw [h.flow.counted_other hq] at hmove
    omega
  have hrank : mainRank s' = mainRank s := by
    unfold mainRank
    rw [h.main]
    cases hs : s.main with
    | poll q =>
      have hq : q ≠ p := by
        rintro rfl
        simp [hs] at hmain
      have hsame := hcount q hq
      cases q <;> simp only [hsame]
    | drain => simp [hs] at hmain
    | lock q | setPredicate q | broadcast q | unlock q | destroy q => cases q <;> rfl
    | _ => rfl
  have htotal : total (ChildPoint.weight s.predicate) s'.child <
      total (ChildPoint.weight s.predicate) s.child :=
    total_lt_total (h.flow.weight_lt hwoken) fun j hj ↦ by rw [h.others j hj]
  unfold remaining
  rw [hrank, h.predicate]
  omega

/-- A child that holds its mutex can go on, and so can one that waits for a mutex that is free. -/
theorem exists_child_step (hready : (s.child i).holds p = true ∨
    s.mtx p = none ∧ (s.child i = .lock p ∨ s.child i = .woken p)) :
    ∃ s', child s i = some s' := by
  rcases hready with hholds | ⟨hfree, hlock | hwoken⟩
  · cases hpoint : s.child i <;> simp_all [child]
  · simp [child, hlock, hfree, mutexLock]
  · simp [child, hwoken, hfree, mutexLock]

/-- The mutex is free, so no child holds it. -/
theorem Inv.not_holds_of_free (h : Inv s) (hfree : s.mtx p = none) (i : Fin n) :
    (s.child i).holds p = false := by
  simpa [Holds] using (h.owned p).not_holds hfree (.child i)

/-- There is a step of a thread that stays in the scenario and leaves fewer steps. -/
def Advances (scenarios : ℕ) (s : State n) : Prop :=
  ∃ thread s', (program n scenarios).next s (.thread thread) = some s' ∧ Inv s' ∧
    s'.main.stage ≠ .over ∧ remaining s' < remaining s

/-- A child that can go on does so. -/
theorem Inv.advances_child (h : Inv s) (hstage : s.main.stage ≠ .over)
    (hready : (s.child i).holds p = true ∨
      s.mtx p = none ∧ (s.child i = .lock p ∨ s.child i = .woken p))
    (hwoken : ∀ q, s.child i = .woken q → s.predicate q = true) : Advances scenarios s := by
  obtain ⟨s', hnext⟩ := exists_child_step hready
  obtain ⟨q, heffect⟩ := childEffect_of_child h hnext
  exact ⟨.child i, s', hnext, h.child heffect, heffect.main ▸ hstage,
    heffect.remaining_lt (h.owned q) (hwoken q)⟩

/-- If the mutex is held by a child, this child goes on. -/
theorem Inv.advances_of_held (h : Inv s) (hstage : s.main.stage ≠ .over)
    (hnot : s.main.holds p = false) (hheld : s.mtx p ≠ none) : Advances scenarios s := by
  obtain ⟨thread, hthread⟩ := Option.ne_none_iff_exists'.mp hheld
  have hholds := (h.owned p thread).mp hthread
  cases thread with
  | main => exact absurd (hnot.symm.trans hholds) Bool.false_ne_true
  | child j =>
    refine h.advances_child hstage (.inl hholds) fun q hwoken ↦ ?_
    simp [Holds, hwoken] at hholds

/-- `main` goes on, and the children are not further from their ends than before. -/
theorem Inv.advances_main (h : Inv s) (s' : State n) (hnext : Destroy.main scenarios s = some s')
    (hstage : s'.main.stage ≠ .over) (hrank : mainRank s' < mainRank s)
    (hweight : total (ChildPoint.weight s'.predicate) s'.child ≤
      total (ChildPoint.weight s.predicate) s.child) : Advances scenarios s := by
  refine ⟨.main, s', hnext, h.main_step hnext, hstage, ?_⟩
  unfold remaining
  omega

/-- While `main` waits for a mutex to look at a counter, the children go on until the counter is
complete. -/
theorem Inv.advances_lock (h : Inv s) (hmain : s.main = .lock p) : Advances scenarios s := by
  have hstage : s.main.stage ≠ .over := by simp [hmain]
  by_cases hfree : s.mtx p = none
  · by_cases hcount : s.count p < n
    · obtain ⟨i, hzero⟩ : ∃ i, (s.child i).counted p ≠ 1 := by
        by_contra hall
        push Not at hall
        have htotal := total_eq_card hall
        rw [← h.count, Fintype.card_fin] at htotal
        omega
      have hborn := h.ne_unborn hstage (by simp [hmain]) i
      have hfits := h.fits i
      have hholds := h.not_holds_of_free hfree i
      have hlock : s.child i = .lock p := by
        cases hpoint : s.child i <;>
          simp_all
      exact h.advances_child hstage (.inr ⟨hfree, .inl hlock⟩) (by simp [hlock])
    · refine h.advances_main { s.setMtx p (some .main) with main := .poll p }
        (by simp [Destroy.main, hmain, hfree, mutexLock]) (by simp) ?_ le_rfl
      cases p <;> simp [mainRank, hmain, hcount]
  · exact h.advances_of_held hstage (by cases p <;> simp [hmain]) hfree

/-- While `main` waits for the children to leave the first wait, the woken ones go on. -/
theorem Inv.advances_drainLock (h : Inv s) (hmain : s.main = .drainLock) :
    Advances scenarios s := by
  have hstage : s.main.stage ≠ .over := by simp [hmain]
  by_cases hfree : s.mtx .one = none
  · by_cases hcount : 0 < s.count .one
    · rw [h.count] at hcount
      obtain ⟨i, hcounted⟩ := exists_pos_of_total_pos hcount
      have hfits := h.fits i
      have hholds := h.not_holds_of_free hfree i
      have hwoken : s.child i = .woken .one := by
        cases hpoint : s.child i <;>
          simp_all
      refine h.advances_child hstage (.inr ⟨hfree, .inr hwoken⟩) fun q hq ↦ ?_
      rw [hwoken] at hq
      cases hq
      rw [h.predicate hstage]
      simp [hmain]
    · refine h.advances_main { s.setMtx .one (some .main) with main := .drain }
        (by simp [Destroy.main, hmain, hfree, mutexLock]) (by simp) ?_ le_rfl
      simp [mainRank, hmain, hcount]
  · exact h.advances_of_held hstage (by simp [hmain]) hfree

/-- While `main` waits for a child to return, the child goes on. -/
theorem Inv.advances_join {rest : List (Fin n)} (h : Inv s) (hmain : s.main = .join (i :: rest)) :
    Advances scenarios s := by
  have hstage : s.main.stage ≠ .over := by simp [hmain]
  by_cases hreturned : s.child i = .returned
  · refine h.advances_main { s with main := .join rest }
      (by simp [Destroy.main, hmain, hreturned]) (by simp) ?_ le_rfl
    simp [mainRank, hmain]
  · by_cases hfree : s.mtx .two = none
    · have hfits := h.fits i
      have hholds := h.not_holds_of_free hfree i
      have hwoken : s.child i = .woken .two := by
        cases hpoint : s.child i <;>
          simp_all
      refine h.advances_child hstage (.inr ⟨hfree, .inr hwoken⟩) fun q _ ↦ ?_
      rw [h.predicate hstage]
      simp [hmain]
    · exact h.advances_of_held hstage (by simp [hmain]) hfree

theorem Inv.advances (h : Inv s) (hstage : s.main.stage ≠ .over) (hnot : s.main ≠ .join []) :
    Advances scenarios s := by
  cases hmain : s.main with
  | setup | cleanup | exited => simp [hmain] at hstage
  | create rest =>
    cases rest with
    | nil =>
      refine h.advances_main { s with main := .lock .one } (by simp [Destroy.main, hmain])
        (by simp) ?_ le_rfl
      simp [mainRank, hmain]
    | cons i rest =>
      have hunborn : s.child i = .unborn :=
        (h.unborn hstage i).mpr (by simp [hmain])
      refine h.advances_main ({ s with main := .create rest }.goto i (.lock .one))
        (by simp [Destroy.main, hmain]) (by simp)
        (by simp [mainRank, hmain]) ?_
      have hmove := total_update (ChildPoint.weight s.predicate) s.child i (.lock .one)
      rw [hunborn] at hmove
      simp only [ChildPoint.weight, Pass.offset] at hmove
      simp only [State.goto]
      omega
  | lock p => exact h.advances_lock hmain
  | poll p =>
    by_cases hcount : s.count p < n
    · refine h.advances_main { s.setMtx p none with main := .lock p }
        (by simp [Destroy.main, hmain, hcount]) (by simp) ?_ le_rfl
      cases p <;> simp [mainRank, hmain, hcount]
    · refine h.advances_main { s with main := .setPredicate p }
        (by simp [Destroy.main, hmain, hcount]) (by simp) ?_ le_rfl
      cases p <;> simp [mainRank, hmain, hcount]
  | setPredicate p =>
    refine h.advances_main
      { s with predicate := Function.update s.predicate p true, main := .broadcast p }
      (by simp [Destroy.main, hmain]) (by simp) ?_ ?_
    · cases p <;> simp [mainRank, hmain]
    · exact Finset.sum_le_sum fun j _ ↦ weight_update_le s.predicate p (s.child j)
  | broadcast p =>
    refine h.advances_main
      { s with child := Interleaving.wakeUp ChildPoint.wake Finset.univ s.child, main := .unlock p }
      (by simp [Destroy.main, hmain]) (by simp) ?_
      (total_wakeUp_le (weight_wake_le _) _ _)
    cases p <;> simp [mainRank, hmain]
  | unlock p =>
    refine h.advances_main { s.setMtx p none with main := .destroy p }
      (by simp [Destroy.main, hmain]) (by simp) ?_ le_rfl
    cases p <;> simp [mainRank, hmain]
  | destroy p =>
    refine h.advances_main { s with cnd := false, main := afterDestroy p }
      (by simp [Destroy.main, hmain]) ?_ ?_ le_rfl
    · cases p <;> simp [afterDestroy]
    · cases p <;> simp [mainRank, hmain, afterDestroy]
  | drainLock => exact h.advances_drainLock hmain
  | drain =>
    by_cases hcount : 0 < s.count .one
    · refine h.advances_main { s.setMtx .one none with main := .drainLock }
        (by simp [Destroy.main, hmain, hcount]) (by simp) ?_ le_rfl
      simp [mainRank, hmain, hcount]
    · refine h.advances_main { s with main := .drainUnlock }
        (by simp [Destroy.main, hmain, hcount]) (by simp) ?_ le_rfl
      simp [mainRank, hmain, hcount]
  | drainUnlock =>
    refine h.advances_main { s.setMtx .one none with main := .init }
      (by simp [Destroy.main, hmain]) (by simp) ?_ le_rfl
    simp [mainRank, hmain]
  | init =>
    refine h.advances_main { s with cnd := true, main := .poll .two }
      (by simp [Destroy.main, hmain]) (by simp) ?_ le_rfl
    simp only [mainRank, hmain]
    split_ifs <;> omega
  | join rest =>
    cases rest with
    | nil => exact absurd hmain hnot
    | cons i rest => exact h.advances_join hmain

/-- Every state of a scenario leads to its end, where all children have returned. -/
theorem Inv.exists_joined (h : Inv s) (hstage : s.main.stage ≠ .over) :
    ∃ s', (program n scenarios).Leads s s' ∧ ∀ i, s'.child i = .returned := by
  have hstep : ∀ state : State n, (Inv state ∧ state.main.stage ≠ .over) →
      ¬ state.main = .join [] → ∃ move state', (program n scenarios).next state move = some state' ∧
        (Inv state' ∧ state'.main.stage ≠ .over) ∧ remaining state' < remaining state := by
    rintro state ⟨hinv, hin⟩ hnot
    obtain ⟨thread, state', hnext, hinv', hin', hless⟩ := hinv.advances hin hnot
    exact ⟨.thread thread, state', hnext, ⟨hinv', hin'⟩, hless⟩
  obtain ⟨s', hleads, ⟨hinv', -⟩, hgoal⟩ :=
    System.exists_leads_of_measure remaining hstep ⟨h, hstage⟩
  exact ⟨s', hleads, fun i ↦ (hinv'.joined [] hgoal i).resolve_left List.not_mem_nil⟩

/-! ### The condition variable is destroyed safely -/

/-- No child is left behind by the broadcast that precedes a destruction. -/
theorem Inv.not_blocked_of_destroy (h : Inv s) (hmain : s.main = .destroy p) (i : Fin n) :
    (s.child i).isBlocked = false := by
  have hfits := h.fits i
  cases hpoint : s.child i <;>
    simp_all [ChildPoint.isBlocked]

/-- A child that is about to wait finds the condition variable initialised. -/
theorem Inv.cnd_of_wait (h : Inv s) (hwait : s.child i = .wait p) : s.cnd = true := by
  have hfits := h.fits i
  rw [hwait] at hfits
  have hgather : s.main.stage = .gather p := of_decide_eq_true hfits
  rw [h.cnd (by rw [hgather]; simp)]
  cases hmain : s.main <;> simp_all

/-- A child that has started and has not returned belongs to a scenario. -/
theorem Inv.stage_ne_over (h : Inv s) (hborn : s.child i ≠ .unborn)
    (hunfinished : s.child i ≠ .returned) : s.main.stage ≠ .over := by
  intro hover
  have hfits := h.fits i
  cases hpoint : s.child i <;> simp_all

/-- Destroying the condition variable right after the broadcast is safe: when `main` is about to do
it, in either pass, no child is blocked on the variable; a child begins a wait only while the
variable is initialised, so none does between a destruction and the next initialisation. And the
test does not get stuck: as long as some child has not returned, a thread has a step, and the right
steps take all the children to their ends. -/
theorem destroy_safe (n scenarios : ℕ) (s : State n) (h : (program n scenarios).Reachable s) :
    (∀ p, s.main = .destroy p → ∀ i, (s.child i).isBlocked = false) ∧
      (∀ i p, s.child i = .wait p → s.cnd = true) ∧
      ((∃ i, s.child i ≠ .unborn ∧ s.child i ≠ .returned) →
        (∃ thread s', (program n scenarios).next s (.thread thread) = some s') ∧
          ∃ s', (program n scenarios).Leads s s' ∧ ∀ i, s'.child i = .returned) := by
  have hinv := inv_of_reachable h
  refine ⟨fun p hmain ↦ hinv.not_blocked_of_destroy hmain, fun i p ↦ hinv.cnd_of_wait, ?_⟩
  rintro ⟨i, hborn, hunfinished⟩
  have hstage := hinv.stage_ne_over hborn hunfinished
  have hnot : s.main ≠ .join [] := fun hmain ↦
    hunfinished ((hinv.joined [] hmain i).resolve_left List.not_mem_nil)
  obtain ⟨thread, s', hnext, -⟩ := hinv.advances hstage hnot
  exact ⟨⟨thread, s', hnext⟩, hinv.exists_joined hstage⟩

/-- Two children are in the first wait, one of them woken too early, and `main` has broadcast and
released the mutex. -/
def untilDestroy (first second : Fin 2) : List (Move 2) :=
  List.flatten [.replicate 4 (.thread .main), .replicate 3 (.thread (.child first)),
    .replicate 3 (.thread (.child second)), [.spurious second], .replicate 5 (.thread .main)]

theorem destroy_safe_two : ∃ s : State 2, s.main = .destroy .one ∧
    (∀ i, (s.child i).isBlocked = false) ∧
      ∃ s', (program 2 1).Leads s s' ∧ ∀ i, s'.child i = .returned := by
  obtain ⟨s, hreach, hmain, hborn, hunfinished⟩ : ∃ s, (program 2 1).Reachable s ∧
      s.main = .destroy .one ∧ s.child 0 ≠ .unborn ∧ s.child 0 ≠ .returned :=
    System.exists_reachable (untilDestroy 0 1) rfl (by decide +kernel)
  obtain ⟨hsafe, -, hgoes⟩ := destroy_safe 2 1 s hreach
  exact ⟨s, hmain, hsafe .one hmain, (hgoes ⟨0, hborn, hunfinished⟩).2⟩

end OpenPosix.CondVars.Destroy

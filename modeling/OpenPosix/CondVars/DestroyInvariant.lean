import OpenPosix.CondVars.DestroyModel

/-!
# Where the children are while the condition variable is destroyed

The point of `main` says how far a scenario has got (`MainPoint.stage`), and at every stage the
children can only be at certain points (`ChildPoint.fits`): while `main` gathers the children of a
pass they are on their way into the wait, when the counter is complete all of them are in it, and
after the broadcast they are on their way out. The stages follow each other because the counters say
how many children are in a wait (`Inv.count`), and a child does not run ahead into the next stage
because `main` has the mutex it needs (`Inv.owned`).
-/

namespace OpenPosix.CondVars.Destroy

open Interleaving

variable {n scenarios : ℕ} {s s' : State n} {i : Fin n} {p q : Pass}

attribute [simp] State.goto State.setMtx Pass.afterUnlock Pass.afterLoop ChildPoint.wake

/-! ### What the points say -/

variable {point : ChildPoint}

/-- How far a scenario has got: the children gather in the wait of a pass, all of them are in it,
they leave it, they are between the passes; or there is no child. -/
inductive Stage
  | gather (p : Pass)
  | full (p : Pass)
  | leave (p : Pass)
  | between
  | over
  deriving DecidableEq, Repr

def MainPoint.stage : MainPoint n → Stage
  | .create _ => .gather .one
  | .lock p | .poll p => .gather p
  | .setPredicate p | .broadcast p => .full p
  | .unlock p | .destroy p => .leave p
  | .drainLock | .drain => .leave .one
  | .drainUnlock | .init => .between
  | .join _ => .leave .two
  | .setup | .cleanup | .exited => .over

@[simp] def ChildPoint.fits (stage : Stage) : ChildPoint → Bool
  | .unborn => stage = .gather .one ∨ stage = .over
  | .lock p => stage = .gather p ∨ p = .two ∧ (stage = .leave .one ∨ stage = .between)
  | .incr p | .wait p => stage = .gather p
  | .blocked p => stage = .gather p ∨ stage = .full p
  | .woken p => stage = .gather p ∨ stage = .full p ∨ stage = .leave p
  | .test p => stage = .gather p ∨ stage = .leave p
  | .decr => stage = .leave .one
  | .unlock p => stage = .leave p
  | .returned => stage = .leave .two ∨ stage = .over

def ChildPoint.holds (p : Pass) : ChildPoint → Bool
  | .incr q | .wait q | .test q | .unlock q => q = p
  | .decr => p = .one
  | _ => false

/-- One for a child that the counter of the pass counts. -/
@[simp] def ChildPoint.counted (p : Pass) : ChildPoint → ℕ
  | .wait q | .blocked q | .woken q | .test q => if q = p then 1 else 0
  | .decr => if p = .one then 1 else 0
  | .unlock .two | .returned => if p = .two then 1 else 0
  | _ => 0

def MainPoint.holds (p : Pass) : MainPoint n → Bool
  | .poll q | .setPredicate q | .broadcast q | .unlock q => q = p ∨ p = .two
  | .drain | .drainUnlock => true
  | .create _ | .drainLock | .init => p = .two
  | .lock q | .destroy q => q = .one ∧ p = .two
  | _ => false

@[simp] def MainPoint.hasSet (p : Pass) : MainPoint n → Bool
  | .broadcast q | .unlock q | .destroy q => p = .one ∨ q = .two
  | .drainLock | .drain | .drainUnlock | .init => p = .one
  | .lock q | .poll q | .setPredicate q => p = .one ∧ q = .two
  | .join _ => true
  | _ => false

/-- The condition variable is initialised. -/
@[simp] def MainPoint.live : MainPoint n → Bool
  | .create _ | .lock _ | .poll _ | .setPredicate _ | .broadcast _ | .unlock _ | .destroy _ => true
  | _ => false

def MainPoint.toCreate : MainPoint n → List (Fin n)
  | .create rest => rest
  | _ => []

/-- The threads whose points say that they hold the mutex of the pass. -/
def Holds (p : Pass) (s : State n) : Thread n → Prop
  | .main => s.main.holds p = true
  | .child i => (s.child i).holds p = true

@[simp] theorem holds_wake (p : Pass) (point : ChildPoint) :
    point.wake.holds p = point.holds p := by
  cases point <;> rfl

@[simp] theorem counted_wake (p : Pass) (point : ChildPoint) :
    point.wake.counted p = point.counted p := by
  cases point <;> rfl

@[simp] theorem wake_eq_unborn_iff : point.wake = .unborn ↔ point = .unborn := by
  cases point <;> simp

@[simp] theorem wake_eq_returned_iff : point.wake = .returned ↔ point = .returned := by
  cases point <;> simp

/-- A wake-up keeps a child in the stage. -/
theorem fits_wake {stage : Stage} (h : point.fits stage) : point.wake.fits stage := by
  cases point with
  | blocked p =>
    rcases of_decide_eq_true h with h | h <;> simp [h]
  | _ => exact h

structure Inv (s : State n) : Prop where
  owned : ∀ p, Owned (s.mtx p) (Holds p s)
  count : ∀ p, s.count p = total (ChildPoint.counted p) s.child
  fits : ∀ i, (s.child i).fits s.main.stage
  nodup : s.main.toCreate.Nodup
  unborn : s.main.stage ≠ .over → ∀ i, s.child i = .unborn ↔ i ∈ s.main.toCreate
  predicate : s.main.stage ≠ .over → ∀ p, s.predicate p = s.main.hasSet p
  cnd : s.main.stage ≠ .over → s.cnd = s.main.live
  joined : ∀ rest, s.main = .join rest → ∀ i, i ∈ rest ∨ s.child i = .returned

/-! ### A step of a child -/

/-- The way of a child through its code; each step is about the mutex of one pass. -/
inductive Flow (predicate : Pass → Bool) : Pass → ChildPoint → ChildPoint → Prop
  | lock (p : Pass) : Flow predicate p (.lock p) (.incr p)
  | incr (p : Pass) : Flow predicate p (.incr p) (.wait p)
  | wait (p : Pass) : Flow predicate p (.wait p) (.blocked p)
  | relock (p : Pass) : Flow predicate p (.woken p) (.test p)
  | again (p : Pass) : predicate p = false → Flow predicate p (.test p) (.wait p)
  | leave (p : Pass) : predicate p = true → Flow predicate p (.test p) p.afterLoop
  | decr : Flow predicate .one .decr (.unlock .one)
  | unlock (p : Pass) : Flow predicate p (.unlock p) p.afterUnlock

section Flow

variable {predicate : Pass → Bool} {before after : ChildPoint}

/-- A child holds the mutex before or after each of its steps. -/
theorem Flow.holds (h : Flow predicate p before after) : before.holds p ∨ after.holds p := by
  cases h <;> simp [ChildPoint.holds]

/-- It does not hold the other mutex. -/
theorem Flow.not_holds (h : Flow predicate p before after) (hne : q ≠ p) :
    before.holds q = false ∧ after.holds q = false := by
  cases h with
  | leave p hset => cases p <;> cases q <;> simp_all [ChildPoint.holds]
  | unlock p => cases p <;> cases q <;> simp_all [ChildPoint.holds]
  | decr => cases q <;> simp_all [ChildPoint.holds]
  | _ => simp [ChildPoint.holds, hne.symm]

theorem Flow.before_ne_unborn (h : Flow predicate p before after) : before ≠ .unborn := by
  cases h <;> simp

theorem Flow.after_ne_unborn (h : Flow predicate p before after) : after ≠ .unborn := by
  cases h with
  | leave p hset => cases p <;> simp
  | unlock p => cases p <;> simp
  | _ => simp

theorem Flow.before_ne_returned (h : Flow predicate p before after) : before ≠ .returned := by
  cases h <;> simp

/-- A child stays in the stage: it waits again as long as the predicate is not set, and it needs a
mutex to get into the next stage. -/
theorem Flow.fits {stage : Stage} (h : Flow predicate p before after) (hbefore : before.fits stage)
    (hgather : stage = .gather p → predicate p = false)
    (hleave : stage = .leave p → predicate p = true) (hfull : stage ≠ .full p)
    (htwo : p = .two → stage ≠ .leave .one ∧ stage ≠ .between) : after.fits stage := by
  cases h with
  | leave p hset => cases p <;> simp_all
  | unlock p => cases p <;> simp_all
  | lock p => cases p <;> simp_all
  | _ => simp_all

end Flow

structure ChildEffect (s : State n) (i : Fin n) (p : Pass) (s' : State n) : Prop where
  flow : Flow s.predicate p (s.child i) (s'.child i)
  free : (s.child i).holds p = false → s.mtx p = none
  others : ∀ j, j ≠ i → s'.child j = s.child j
  count : ∀ q, s'.count q + (s.child i).counted q = s.count q + (s'.child i).counted q
  mtx : s'.mtx p = if (s'.child i).holds p then some (.child i) else none
  mtx_other : ∀ q, q ≠ p → s'.mtx q = s.mtx q
  main : s'.main = s.main
  predicate : s'.predicate = s.predicate
  cnd : s'.cnd = s.cnd

/-- A step to the point `after`, with the mutex and the counters given. -/
theorem childEffect_goto {after : ChildPoint} {owner : Option (Thread n)} {count : Pass → ℕ}
    (hflow : Flow s.predicate p (s.child i) after)
    (hfree : (s.child i).holds p = false → s.mtx p = none)
    (hcount : ∀ q, count q + (s.child i).counted q = s.count q + after.counted q)
    (howner : owner = if after.holds p then some (.child i) else none) :
    ChildEffect s i p ({ s.setMtx p owner with count := count }.goto i after) where
  flow := by simpa using hflow
  free := hfree
  others := fun j hj ↦ by simp [hj]
  count := by simpa using hcount
  mtx := by simpa using howner
  mtx_other := fun q hq ↦ by simp [hq]
  main := rfl
  predicate := rfl
  cnd := rfl

theorem childEffect_keep {after : ChildPoint} {count : Pass → ℕ}
    (hflow : Flow s.predicate p (s.child i) after) (hheld : s.mtx p = some (.child i))
    (hbefore : (s.child i).holds p = true) (hafter : after.holds p = true)
    (hcount : ∀ q, count q + (s.child i).counted q = s.count q + after.counted q) :
    ChildEffect s i p ({ s with count := count }.goto i after) where
  flow := by simpa using hflow
  free := by simp [hbefore]
  others := fun j hj ↦ by simp [hj]
  count := by simpa using hcount
  mtx := by simpa [hafter] using hheld
  mtx_other := fun q _ ↦ rfl
  main := rfl
  predicate := rfl
  cnd := rfl

attribute [simp] ChildPoint.holds

theorem childEffect_of_child (h : Inv s) (hnext : child s i = some s') :
    ∃ p, ChildEffect s i p s' := by
  have howner : ∀ p, (s.child i).holds p = true → s.mtx p = some (.child i) :=
    fun p ↦ (h.owned p (.child i)).mpr
  unfold child at hnext
  cases hpoint : s.child i <;> simp only [hpoint, reduceCtorEq] at hnext
  case lock p =>
    obtain ⟨hfree, rfl⟩ := map_mutexLock_eq_some_iff.mp hnext
    exact ⟨p, childEffect_goto (hpoint ▸ .lock p) (fun _ ↦ hfree)
      (by simp [hpoint]) (by simp)⟩
  case woken p =>
    obtain ⟨hfree, rfl⟩ := map_mutexLock_eq_some_iff.mp hnext
    exact ⟨p, childEffect_goto (hpoint ▸ .relock p) (fun _ ↦ hfree)
      (by simp [hpoint]) (by simp)⟩
  case wait p =>
    cases hnext
    exact ⟨p, childEffect_goto (hpoint ▸ .wait p) (by simp [hpoint])
      (by simp [hpoint]) (by simp)⟩
  case unlock p =>
    cases hnext
    refine ⟨p, childEffect_goto (hpoint ▸ .unlock p) (by simp [hpoint])
      (fun q ↦ ?_) ?_⟩
    · cases p <;> simp [hpoint]
    · cases p <;> simp
  case incr p =>
    cases hnext
    have hbefore : (s.child i).holds p = true := by simp [hpoint]
    refine ⟨p, childEffect_keep (hpoint ▸ .incr p) (howner p hbefore) hbefore
      (by simp) fun q ↦ ?_⟩
    by_cases hq : q = p
    · subst hq
      simp [hpoint]
    · simp [hpoint, hq, Ne.symm hq]
  case test p =>
    cases hnext
    have hbefore : (s.child i).holds p = true := by simp [hpoint]
    split_ifs with hset
    · refine ⟨p, childEffect_keep (hpoint ▸ .leave p hset) (howner p hbefore) hbefore ?_ fun q ↦ ?_⟩
      · cases p <;> simp
      · cases p <;> simp [hpoint, eq_comm]
    · exact ⟨p, childEffect_keep (hpoint ▸ .again p (by simpa using hset)) (howner p hbefore)
        hbefore (by simp) (by simp [hpoint])⟩
  case decr =>
    cases hnext
    have hbefore : (s.child i).holds .one = true := by simp [hpoint]
    -- The child itself is counted, so the counter is not zero.
    have hpos : 1 ≤ s.count .one := by
      have hle := le_total (ChildPoint.counted .one) s.child i
      rw [h.count]
      simpa [hpoint] using hle
    refine ⟨.one, childEffect_keep (hpoint ▸ .decr) (howner .one hbefore) hbefore
      (by simp) fun q ↦ ?_⟩
    cases q
    · simp [hpoint, Nat.sub_add_cancel hpos]
    · simp [hpoint]

/-! ### The steps of the children keep the invariant -/

section Stage

variable {m : MainPoint n}

theorem MainPoint.not_hasSet_of_gather (h : m.stage = .gather p) : m.hasSet p = false := by
  cases m <;> cases p <;> simp_all [MainPoint.stage]

theorem MainPoint.hasSet_of_leave (h : m.stage = .leave p) : m.hasSet p = true := by
  cases m <;> cases p <;> simp_all [MainPoint.stage]

theorem MainPoint.holds_of_full (h : m.stage = .full p) : m.holds p = true := by
  cases m <;> simp_all [MainPoint.stage, MainPoint.holds]

/-- `main` holds the second mutex until it waits for the children of the second pass. -/
theorem MainPoint.holds_two (h : m.stage = .leave .one ∨ m.stage = .between) :
    m.holds .two = true := by
  cases m <;> simp_all [MainPoint.stage, MainPoint.holds]

end Stage

namespace ChildEffect

theorem holds_other (h : ChildEffect s i p s') {thread : Thread n} (hne : thread ≠ .child i)
    (q : Pass) : Holds q s' thread ↔ Holds q s thread := by
  cases thread with
  | main => simp only [Holds, h.main]
  | child j =>
    have hj : j ≠ i := fun heq ↦ hne (by rw [heq])
    simp only [Holds, h.others j hj]

theorem owned (h : ChildEffect s i p s') (howned : ∀ q, Owned (s.mtx q) (Holds q s)) (q : Pass) :
    Owned (s'.mtx q) (Holds q s') := by
  by_cases hq : q = p
  · subst hq
    refine (howned q).move (.child i) (fun hnot ↦ h.free (by simpa [Holds] using hnot))
      h.flow.holds (fun hheld ↦ ?_) (fun hleft ↦ ?_) fun _ hne ↦ h.holds_other hne q
    · exact h.mtx.trans (if_pos hheld)
    · exact h.mtx.trans (if_neg hleft)
  · rw [h.mtx_other q hq]
    obtain ⟨hbefore, hafter⟩ := h.flow.not_holds hq
    refine (howned q).congr fun thread ↦ ?_
    by_cases heq : thread = .child i
    · rw [heq]
      exact iff_of_false (by simp only [Holds, hafter]; simp) (by simp only [Holds, hbefore]; simp)
    · exact h.holds_other heq q

/-- No child makes a step for which `main` has the mutex. -/
theorem not_main_holds (h : ChildEffect s i p s') (howned : Owned (s.mtx p) (Holds p s)) :
    s.main.holds p = false := by
  have hnot : ¬ Holds p s .main := howned.not_holds_of_ne (.child i)
    (fun hnot ↦ h.free (by simpa [Holds] using hnot)) (by simp)
  simpa [Holds] using hnot

/-- A child does not run ahead of the stage. -/
theorem fits (h : ChildEffect s i p s') (hinv : Inv s) : (s'.child i).fits s.main.stage := by
  have hmain := h.not_main_holds (hinv.owned p)
  refine h.flow.fits (hinv.fits i) (fun hgather ↦ ?_) (fun hleave ↦ ?_) (fun hfull ↦ ?_)
    fun htwo ↦ ⟨fun hleave ↦ ?_, fun hbetween ↦ ?_⟩
  · rw [hinv.predicate (by simp [hgather]), MainPoint.not_hasSet_of_gather hgather]
  · rw [hinv.predicate (by simp [hleave]), MainPoint.hasSet_of_leave hleave]
  · simp [MainPoint.holds_of_full hfull] at hmain
  · simp [htwo, MainPoint.holds_two (.inl hleave)] at hmain
  · simp [htwo, MainPoint.holds_two (.inr hbetween)] at hmain

end ChildEffect

theorem Inv.child (h : Inv s) (heffect : ChildEffect s i p s') : Inv s' where
  owned := heffect.owned h.owned
  count := fun q ↦ by
    have hmove : total (ChildPoint.counted q) s'.child + (s.child i).counted q =
        total (ChildPoint.counted q) s.child + (s'.child i).counted q :=
      total_move fun j hj ↦ by rw [heffect.others j hj]
    have hcount := heffect.count q
    have hbefore := h.count q
    omega
  fits := fun j ↦ by
    rw [heffect.main]
    by_cases heq : j = i
    · subst heq
      exact heffect.fits h
    · rw [heffect.others j heq]
      exact h.fits j
  nodup := by
    rw [heffect.main]
    exact h.nodup
  unborn := by
    rw [heffect.main]
    intro hstage j
    by_cases heq : j = i
    · subst heq
      rw [← h.unborn hstage j]
      exact iff_of_false heffect.flow.after_ne_unborn heffect.flow.before_ne_unborn
    · rw [heffect.others j heq]
      exact h.unborn hstage j
  predicate := by
    rw [heffect.main, heffect.predicate]
    exact h.predicate
  cnd := by
    rw [heffect.main, heffect.cnd]
    exact h.cnd
  joined := by
    rw [heffect.main]
    intro rest hmain j
    refine (h.joined rest hmain j).imp_right fun hreturned ↦ ?_
    have hne : j ≠ i := by
      rintro rfl
      exact heffect.flow.before_ne_returned hreturned
    rw [heffect.others j hne, hreturned]

/-- A wake-up of any children. -/
theorem Inv.wakeUp (h : Inv s) (set : Finset (Fin n)) :
    Inv { s with child := Interleaving.wakeUp ChildPoint.wake set s.child } where
  owned := fun p ↦ (h.owned p).congr fun thread ↦ by
    cases thread with
    | main => rfl
    | child j => simp only [Holds, apply_wakeUp (holds_wake p)]
  count := fun p ↦ by
    have hsame : total (ChildPoint.counted p) (Interleaving.wakeUp ChildPoint.wake set s.child) =
        total (ChildPoint.counted p) s.child :=
      Finset.sum_congr rfl fun j _ ↦ apply_wakeUp (counted_wake p) set s.child j
    exact (h.count p).trans hsame.symm
  fits := fun j ↦ by
    rcases wakeUp_eq_or ChildPoint.wake set s.child j with heq | heq
    · simpa only [heq] using h.fits j
    · simpa only [heq] using fits_wake (h.fits j)
  nodup := h.nodup
  unborn := fun hstage j ↦ by
    rw [apply_wakeUp (f := (· = ChildPoint.unborn)) (fun _ ↦ propext wake_eq_unborn_iff)]
    exact h.unborn hstage j
  predicate := h.predicate
  cnd := h.cnd
  joined := fun rest hmain j ↦ by
    rw [apply_wakeUp (f := (· = ChildPoint.returned)) (fun _ ↦ propext wake_eq_returned_iff)]
    exact h.joined rest hmain j

end OpenPosix.CondVars.Destroy

import OpenPosix.CondVars.WakeupModel

/-!
# Invariants of the wake-up tests

`Inv` is what holds in the runs in which no timed wait expires. The mutex has the owner that the
points of the threads say, `td->count` counts the children that have been at the increment, and the
other fields follow `main` through a scenario: when it has seen that the count is complete, every
child is in its wait or behind it (`settled`), and once it has signalled or broadcast, a blocked
child coexists with a child of the signal test that has been woken and has not signalled yet
(`chain`).

A step of a child is inverted once: `Flow` is its way through the code, and `ChildEffect` says what
it does to the state. A signal changes no other point than the blocked ones, and apart from being
blocked or not, `ChildPoint.wake` keeps everything the invariant says about a child.
-/

namespace OpenPosix.CondVars.Wakeup

open Interleaving Verdicts

variable {n : ℕ} {c : Config n} {s s' : State n} {i : Fin n}

attribute [simp] State.goto Test.afterLoop

/-! ### What the points say -/

variable {point : ChildPoint}

def ChildPoint.holds : ChildPoint → Bool
  | .incr | .wait _ | .test _ _ | .failed | .signal | .own | .unlock => true
  | _ => false

/-- One for a child that has incremented the count. -/
@[simp] def ChildPoint.counted : ChildPoint → ℕ
  | .unborn | .lock | .incr => 0
  | _ => 1

/-- A child that has begun its first wait and is not about to begin another. -/
@[simp] def ChildPoint.settled : ChildPoint → Bool
  | .blocked _ | .woken _ _ | .test _ _ | .signal | .own | .unlock | .returned _ => true
  | _ => false

/-- The wait of the child has timed out. -/
@[simp] def ChildPoint.expired : ChildPoint → Bool
  | .woken _ expired | .test _ expired => expired
  | .failed => true
  | .returned status => status ≠ ptsPass
  | _ => false

/-- A child of the signal test that has been woken and has not signalled yet. -/
def ChildPoint.pending : ChildPoint → Bool
  | .woken _ _ | .test _ _ | .signal => true
  | _ => false

@[simp] theorem holds_wake (point : ChildPoint) : point.wake.holds = point.holds := by
  cases point <;> rfl

@[simp] theorem counted_wake (point : ChildPoint) : point.wake.counted = point.counted := by
  cases point <;> rfl

@[simp] theorem settled_wake (point : ChildPoint) : point.wake.settled = point.settled := by
  cases point <;> rfl

@[simp] theorem expired_wake (point : ChildPoint) : point.wake.expired = point.expired := by
  cases point <;> rfl

@[simp] theorem wake_eq_unborn_iff : point.wake = .unborn ↔ point = .unborn := by
  cases point <;> simp [ChildPoint.wake]

@[simp] theorem wake_eq_returned_iff {status : ℕ} :
    point.wake = .returned status ↔ point = .returned status := by
  cases point <;> simp [ChildPoint.wake]

@[simp] theorem isBlocked_wake (point : ChildPoint) : point.wake.isBlocked = false := by
  cases point <;> rfl

theorem pending_wake (h : point.isBlocked ∨ point.pending) : point.wake.pending = true := by
  cases point <;> simp_all [ChildPoint.wake, ChildPoint.pending, ChildPoint.isBlocked]

def MainPoint.holds : MainPoint n → Bool
  | .poll | .setPredicate | .wake | .release => true
  | _ => false

@[simp] def MainPoint.toCreate : MainPoint n → List (Fin n)
  | .create rest => rest
  | _ => []

def MainPoint.inScenario : MainPoint n → Bool
  | .setup | .exited _ => false
  | _ => true

/-- `main` has seen that the count is complete. -/
@[simp] def MainPoint.hasCounted : MainPoint n → Bool
  | .setPredicate | .wake | .release | .join _ _ => true
  | _ => false

/-- `main` has set the predicate in the current scenario. -/
def MainPoint.hasSet : MainPoint n → Bool
  | .wake | .release | .join _ _ => true
  | _ => false

/-- The threads whose points say that they hold the mutex. -/
def Holds (s : State n) : Thread n → Prop
  | .main => s.main.holds = true
  | .child i => (s.child i).holds = true

/-- What holds in the runs without a timeout. -/
structure Inv (c : Config n) (s : State n) : Prop where
  owned : Owned s.mtx (Holds s)
  count : s.count = total ChildPoint.counted s.child
  fresh : ∀ i, (s.child i).expired = false
  carried : 0 < s.scenar → s.predicate = true
  inside : s.main.inScenario → s.scenar < c.scenarios
  idle : s.main.inScenario = false → ∀ i, s.child i = .unborn ∨ s.child i = .returned ptsPass
  toCreate : s.main.toCreate <:+ c.kids s.scenar
  unborn : s.main.inScenario → ∀ i, s.child i = .unborn ↔ i ∈ s.main.toCreate ∨ i ∉ c.kids s.scenar
  settled : s.main.hasCounted → ∀ i ∈ c.kids s.scenar, (s.child i).settled
  set : s.main.hasSet → s.predicate = true
  chain : s.main.hasWoken → (∃ i, (s.child i).isBlocked) →
    c.test = .condSignal12 ∧ ∃ i, (s.child i).pending
  joined : ∀ rest ret, s.main = .join rest ret → ret = 0 ∧ rest ⊆ c.kids s.scenar ∧
    ∀ i ∈ c.kids s.scenar, i ∈ rest ∨ s.child i = .returned ptsPass

/-! ### A step of a child -/

/-- The way of a child through its code, when no timed wait expires. -/
inductive Flow (test : Test) (predicate : Bool) : ChildPoint → ChildPoint → Prop
  | lock : Flow test predicate .lock .incr
  | incr (timed : Bool) : Flow test predicate .incr (.wait timed)
  | wait (timed : Bool) : Flow test predicate (.wait timed) (.blocked timed)
  | relock (timed : Bool) : Flow test predicate (.woken timed false) (.test timed false)
  | again (timed : Bool) : predicate = false → Flow test predicate (.test timed false) (.wait timed)
  | leave (timed : Bool) : predicate = true → Flow test predicate (.test timed false) test.afterLoop
  | signal : Flow test predicate .signal .unlock
  | own : Flow test predicate .own .unlock
  | unlock : Flow test predicate .unlock (.returned ptsPass)

section Flow

variable {test : Test} {predicate : Bool} {before after : ChildPoint}

/-- A child holds the mutex before or after each of its steps. -/
theorem Flow.holds (h : Flow test predicate before after) : before.holds ∨ after.holds := by
  cases h <;> simp [ChildPoint.holds]

theorem Flow.fresh (h : Flow test predicate before after) : after.expired = false := by
  cases h with
  | leave timed hset => cases test <;> rfl
  | _ => rfl

theorem Flow.before_ne_unborn (h : Flow test predicate before after) : before ≠ .unborn := by
  cases h <;> simp

theorem Flow.after_ne_unborn (h : Flow test predicate before after) : after ≠ .unborn := by
  cases h with
  | leave timed hset => cases test <;> simp
  | _ => simp

theorem Flow.before_ne_returned (h : Flow test predicate before after) (status : ℕ) :
    before ≠ .returned status := by
  cases h <;> simp

/-- Once the predicate is set, no child waits again. -/
theorem Flow.settled (h : Flow test predicate before after) (hset : predicate = true)
    (hbefore : before.settled) : after.settled := by
  cases h with
  | leave timed _ => cases test <;> rfl
  | again timed hnot => simp [hset] at hnot
  | _ => first | rfl | simp at hbefore

theorem Flow.not_isBlocked (h : Flow test predicate before after) (hbefore : before.settled) :
    after.isBlocked = false := by
  cases h with
  | leave timed _ => cases test <;> rfl
  | wait timed => simp at hbefore
  | _ => rfl

/-- In the signal test, a woken child stays one until it signals. -/
theorem Flow.pending (h : Flow .condSignal12 predicate before after) (hset : predicate = true)
    (hbefore : before.pending) (hsignal : before ≠ .signal) : after.pending := by
  cases h with
  | again timed hnot => simp [hset] at hnot
  | signal => simp at hsignal
  | _ => first | rfl | simp [ChildPoint.pending] at hbefore

end Flow

structure ChildEffect (c : Config n) (s : State n) (i : Fin n) (s' : State n) : Prop where
  flow : Flow c.test s.predicate (s.child i) (s'.child i)
  free : (s.child i).holds = false → s.mtx = none
  others : ∀ j, j ≠ i → s'.child j = s.child j ∨ s'.child j = (s.child j).wake
  quiet : s.child i ≠ .signal → ∀ j, j ≠ i → s'.child j = s.child j
  signals : s.child i = .signal → (∃ j, (s.child j).isBlocked) → ∃ j, j ≠ i ∧ (s'.child j).pending
  count : s'.count + (s.child i).counted = s.count + (s'.child i).counted
  mtx : s'.mtx = if (s'.child i).holds then some (.child i) else none
  scenar : s'.scenar = s.scenar
  main : s'.main = s.main
  predicate : s'.predicate = s.predicate

/-- A step that leaves the other children alone. -/
theorem childEffect_goto {after : ChildPoint} {mtx : Option (Thread n)} {count : ℕ}
    (hflow : Flow c.test s.predicate (s.child i) after)
    (hfree : (s.child i).holds = false → s.mtx = none) (hsignal : s.child i ≠ .signal)
    (hcount : count + (s.child i).counted = s.count + after.counted)
    (hmtx : mtx = if after.holds then some (.child i) else none) :
    ChildEffect c s i ({ s with mtx := mtx, count := count }.goto i after) where
  flow := by simpa using hflow
  free := hfree
  others := fun j hj ↦ .inl (by simp [hj])
  quiet := fun _ j hj ↦ by simp [hj]
  signals := fun h ↦ absurd h hsignal
  count := by simpa using hcount
  mtx := by simpa using hmtx
  scenar := rfl
  main := rfl
  predicate := rfl

attribute [simp] ChildPoint.holds

/-- The step of a child that signals. -/
theorem childEffect_signal {set : Finset (Fin n)} (hmtx : s.mtx = some (.child i))
    (hpoint : s.child i = .signal) (hnext : signal s set = some s') :
    ChildEffect c s i (s'.goto i .unlock) := by
  unfold signal at hnext
  split_ifs at hnext with hset
  cases hnext
  refine ⟨?_, ?_, fun j hj ↦ ?_, fun h ↦ absurd hpoint h, fun _ hblocked ↦ ?_, ?_, ?_, rfl, rfl,
    rfl⟩
  · simpa [hpoint] using Flow.signal
  · simp [hpoint]
  · simpa [hj] using wakeUp_eq_or ChildPoint.wake set s.child j
  · obtain ⟨j, hj⟩ := hset.2 hblocked
    have hblocked : (s.child j).isBlocked := hset.1 j hj
    have hne : j ≠ i := by
      rintro rfl
      simp [hpoint, ChildPoint.isBlocked] at hblocked
    exact ⟨j, hne, by simp [hne, wakeUp, hj, pending_wake (.inl hblocked)]⟩
  · simp [hpoint]
  · simpa using hmtx

/-- Assumes: the mutex has the owner the points say, and the wait of the child has not timed out. -/
theorem childEffect_of_child {set : Finset (Fin n)} (howned : Owned s.mtx (Holds s))
    (hfresh : (s.child i).expired = false) (hnext : child c s i set = some s') :
    ChildEffect c s i s' := by
  have hmtx : (s.child i).holds = true → s.mtx = some (.child i) := (howned (.child i)).mpr
  unfold child at hnext
  cases hpoint : s.child i <;>
    simp only [hpoint, ChildPoint.holds, reduceCtorEq, forall_const] at hnext hmtx
  case failed => simp [hpoint] at hfresh
  case lock =>
    obtain ⟨hfree, rfl⟩ := map_mutexLock_eq_some_iff.mp hnext
    exact childEffect_goto (hpoint ▸ .lock) (fun _ ↦ hfree) (by simp [hpoint])
      (by simp [hpoint]) (by simp)
  case incr =>
    cases hnext
    exact childEffect_goto (hpoint ▸ .incr _) (by simp [hpoint])
      (by simp [hpoint]) (by simp [hpoint]) (by simpa using hmtx)
  case wait timed =>
    cases hnext
    exact childEffect_goto (hpoint ▸ .wait timed) (by simp [hpoint])
      (by simp [hpoint]) (by simp [hpoint]) (by simp)
  case woken timed expired =>
    obtain rfl : expired = false := by simpa [hpoint] using hfresh
    obtain ⟨hfree, rfl⟩ := map_mutexLock_eq_some_iff.mp hnext
    exact childEffect_goto (hpoint ▸ .relock timed) (fun _ ↦ hfree) (by simp [hpoint])
      (by simp [hpoint]) (by simp)
  case test timed expired =>
    obtain rfl : expired = false := by simpa [hpoint] using hfresh
    simp only [true_and, Bool.false_eq_true, if_false] at hnext
    split_ifs at hnext with hpredicate
    · cases hnext
      exact childEffect_goto (hpoint ▸ .again timed hpredicate) (by simp [hpoint])
        (by simp [hpoint]) (by simp [hpoint]) (by simpa using hmtx)
    · cases hnext
      refine childEffect_goto (hpoint ▸ .leave timed (by simpa using hpredicate))
        (by simp [hpoint]) (by simp [hpoint]) ?_ ?_
      · cases c.test <;> simp [hpoint]
      · cases c.test <;> simpa using hmtx
  case signal =>
    obtain ⟨woken, hsignal, rfl⟩ := Option.map_eq_some_iff.mp hnext
    exact childEffect_signal hmtx hpoint hsignal
  case own =>
    simp only [hmtx, if_true] at hnext
    cases hnext
    exact childEffect_goto (hpoint ▸ .own) (by simp [hpoint])
      (by simp [hpoint]) (by simp [hpoint]) (by simpa using hmtx)
  case unlock =>
    cases hnext
    exact childEffect_goto (hpoint ▸ .unlock) (by simp [hpoint])
      (by simp [hpoint]) (by simp [hpoint]) (by simp)

/-! ### The steps of the children keep the invariant -/

namespace ChildEffect

/-- What a wake-up keeps, a step of another child keeps. -/
theorem apply_other {Value : Type*} {f : ChildPoint → Value} {j : Fin n}
    (h : ChildEffect c s i s') (hwake : ∀ point : ChildPoint, f point.wake = f point)
    (hj : j ≠ i) : f (s'.child j) = f (s.child j) := by
  rcases h.others j hj with heq | heq
  · rw [heq]
  · rw [heq, hwake]

theorem holds_other (h : ChildEffect c s i s') {thread : Thread n} (hne : thread ≠ .child i) :
    Holds s' thread ↔ Holds s thread := by
  cases thread with
  | main => simp only [Holds, h.main]
  | child j =>
    have hj : j ≠ i := fun heq ↦ hne (by rw [heq])
    simp only [Holds, h.apply_other holds_wake hj]

theorem owned (h : ChildEffect c s i s') (howned : Owned s.mtx (Holds s)) :
    Owned s'.mtx (Holds s') := by
  refine howned.move (.child i) (fun hnot ↦ h.free (by simpa [Holds] using hnot)) h.flow.holds
    (fun hheld ↦ ?_) (fun hleft ↦ ?_) fun _ hne ↦ h.holds_other hne
  · exact h.mtx.trans (if_pos hheld)
  · exact h.mtx.trans (if_neg hleft)

/-- No child moves while `main` holds the mutex. -/
theorem not_main_holds (h : ChildEffect c s i s') (howned : Owned s.mtx (Holds s)) :
    s.main.holds = false := by
  have hnot : ¬ Holds s .main := howned.not_holds_of_ne (.child i)
    (fun hnot ↦ h.free (by simpa [Holds] using hnot)) (by simp)
  simpa [Holds] using hnot

/-- A child that moves when `main` has seen the count finds the predicate set. -/
theorem predicate_of_hasCounted (h : ChildEffect c s i s') (hinv : Inv c s)
    (hcounted : s.main.hasCounted) : s.predicate = true := by
  refine hinv.set ?_
  have hfree := h.not_main_holds hinv.owned
  cases hmain : s.main <;> simp_all [MainPoint.holds, MainPoint.hasSet]

/-- It is a child of the scenario, since it exists. -/
theorem mem_kids (h : ChildEffect c s i s') (hinv : Inv c s) (hmain : s.main.inScenario) :
    i ∈ c.kids s.scenar := by
  by_contra hnot
  exact h.flow.before_ne_unborn ((hinv.unborn hmain i).mpr (.inr hnot))

end ChildEffect

theorem MainPoint.inScenario_of_hasCounted {main : MainPoint n} (h : main.hasCounted) :
    main.inScenario = true := by
  cases main <;> simp_all [MainPoint.inScenario]

theorem MainPoint.hasCounted_of_hasWoken {main : MainPoint n} (h : main.hasWoken) :
    main.hasCounted = true := by
  cases main <;> simp_all [MainPoint.hasWoken]

/-- In the signal test the chain of signals goes on. -/
theorem Inv.chain_child (h : Inv c s) (heffect : ChildEffect c s i s') (hwoken : s.main.hasWoken)
    (hblocked : ∃ j, (s'.child j).isBlocked) :
    c.test = .condSignal12 ∧ ∃ j, (s'.child j).pending := by
  have hcounted := MainPoint.hasCounted_of_hasWoken hwoken
  have hpredicate := heffect.predicate_of_hasCounted h hcounted
  have hkid := heffect.mem_kids h (MainPoint.inScenario_of_hasCounted hcounted)
  -- The child that moves is past its last wait, so the blocked child was blocked before.
  have hblocked : ∃ j, (s.child j).isBlocked := by
    obtain ⟨j, hj⟩ := hblocked
    have hne : j ≠ i := by
      rintro rfl
      rw [heffect.flow.not_isBlocked (h.settled hcounted _ hkid)] at hj
      exact absurd hj Bool.false_ne_true
    rcases heffect.others j hne with heq | heq
    · exact ⟨j, heq ▸ hj⟩
    · rw [heq, isBlocked_wake] at hj
      exact absurd hj Bool.false_ne_true
  obtain ⟨htest, j, hpending⟩ := h.chain hwoken hblocked
  refine ⟨htest, ?_⟩
  by_cases hsignal : s.child i = .signal
  · obtain ⟨k, -, hk⟩ := heffect.signals hsignal hblocked
    exact ⟨k, hk⟩
  · by_cases heq : j = i
    · subst heq
      exact ⟨j, (htest ▸ heffect.flow).pending hpredicate hpending hsignal⟩
    · exact ⟨j, by rwa [heffect.quiet hsignal j heq]⟩

theorem Inv.child (h : Inv c s) (heffect : ChildEffect c s i s') : Inv c s' where
  owned := heffect.owned h.owned
  count := by
    have hmove : total ChildPoint.counted s'.child + (s.child i).counted =
        total ChildPoint.counted s.child + (s'.child i).counted :=
      total_move fun j hj ↦ heffect.apply_other counted_wake hj
    have hcount := heffect.count
    have hbefore := h.count
    omega
  fresh := fun j ↦ by
    by_cases heq : j = i
    · subst heq
      exact heffect.flow.fresh
    · rw [heffect.apply_other expired_wake heq]
      exact h.fresh j
  carried := by
    rw [heffect.scenar, heffect.predicate]
    exact h.carried
  inside := by
    rw [heffect.main, heffect.scenar]
    exact h.inside
  idle := by
    rw [heffect.main]
    intro hmain
    rcases h.idle hmain i with hunborn | hreturned
    · exact absurd hunborn heffect.flow.before_ne_unborn
    · exact absurd hreturned (heffect.flow.before_ne_returned _)
  toCreate := by
    rw [heffect.main, heffect.scenar]
    exact h.toCreate
  unborn := by
    rw [heffect.main, heffect.scenar]
    intro hmain j
    by_cases heq : j = i
    · subst heq
      rw [← h.unborn hmain j]
      exact iff_of_false heffect.flow.after_ne_unborn heffect.flow.before_ne_unborn
    · rw [heffect.apply_other (f := (· = .unborn)) (fun _ ↦ propext wake_eq_unborn_iff) heq]
      exact h.unborn hmain j
  settled := by
    rw [heffect.main, heffect.scenar]
    intro hmain j hj
    by_cases heq : j = i
    · subst heq
      exact heffect.flow.settled (heffect.predicate_of_hasCounted h hmain) (h.settled hmain j hj)
    · rw [heffect.apply_other settled_wake heq]
      exact h.settled hmain j hj
  set := by
    rw [heffect.main, heffect.predicate]
    exact h.set
  chain := by
    rw [heffect.main]
    exact h.chain_child heffect
  joined := by
    rw [heffect.main, heffect.scenar]
    intro rest ret hmain
    obtain ⟨hret, hsubset, hkids⟩ := h.joined rest ret hmain
    refine ⟨hret, hsubset, fun j hj ↦ (hkids j hj).imp_right fun hreturned ↦ ?_⟩
    have hne : j ≠ i := by
      rintro rfl
      exact heffect.flow.before_ne_returned _ hreturned
    rcases heffect.others j hne with heq | heq
    · rw [heq, hreturned]
    · rw [heq, hreturned]
      rfl

/-- A wake-up of any children. -/
theorem Inv.wakeUp (h : Inv c s) (set : Finset (Fin n)) :
    Inv c { s with child := Interleaving.wakeUp ChildPoint.wake set s.child } where
  owned := h.owned.congr fun thread ↦ by
    cases thread with
    | main => rfl
    | child j => simp only [Holds, apply_wakeUp holds_wake]
  count := by
    have hsame : total ChildPoint.counted (Interleaving.wakeUp ChildPoint.wake set s.child) =
        total ChildPoint.counted s.child :=
      Finset.sum_congr rfl fun j _ ↦ apply_wakeUp counted_wake set s.child j
    exact h.count.trans hsame.symm
  fresh := fun j ↦ by
    rw [apply_wakeUp expired_wake]
    exact h.fresh j
  carried := h.carried
  inside := h.inside
  idle := fun hmain j ↦ by
    rw [apply_wakeUp (f := (· = ChildPoint.unborn)) (fun _ ↦ propext wake_eq_unborn_iff),
      apply_wakeUp (f := (· = ChildPoint.returned ptsPass)) (fun _ ↦ propext wake_eq_returned_iff)]
    exact h.idle hmain j
  toCreate := h.toCreate
  unborn := fun hmain j ↦ by
    rw [apply_wakeUp (f := (· = ChildPoint.unborn)) (fun _ ↦ propext wake_eq_unborn_iff)]
    exact h.unborn hmain j
  settled := fun hmain j hj ↦ by
    rw [apply_wakeUp settled_wake]
    exact h.settled hmain j hj
  set := h.set
  chain := fun hmain hblocked ↦ by
    obtain ⟨j, hj⟩ := hblocked
    have hbefore : (s.child j).isBlocked := by
      rcases wakeUp_eq_or ChildPoint.wake set s.child j with heq | heq
      · exact heq ▸ hj
      · simp [heq] at hj
    obtain ⟨htest, k, hk⟩ := h.chain hmain ⟨j, hbefore⟩
    refine ⟨htest, k, ?_⟩
    rcases wakeUp_eq_or ChildPoint.wake set s.child k with heq | heq
    · simpa [heq] using hk
    · simpa [heq] using pending_wake (.inr hk)
  joined := fun rest ret hmain ↦ by
    obtain ⟨hret, hsubset, hkids⟩ := h.joined rest ret hmain
    refine ⟨hret, hsubset, fun j hj ↦ (hkids j hj).imp_right fun hreturned ↦ ?_⟩
    rwa [apply_wakeUp (f := (· = ChildPoint.returned ptsPass))
      (fun _ ↦ propext wake_eq_returned_iff)]

end OpenPosix.CondVars.Wakeup

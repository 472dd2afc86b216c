import OpenPosix.Semaphores.PhilosopherModel

/-!
# The steps of the dining philosophers

What one step of a philosopher can do is said once (`Move`, `move_of_philosopher`). A move changes
the point of one philosopher and balances the value of `lock` against what that philosopher holds
(`Move.control`).

Two facts need no more than that: `main` creates each philosopher once (`launched_of_reachable`),
and a philosopher exits only when its rounds are done (`exitsDone_of_reachable`).
-/

namespace OpenPosix.Semaphores.Philosopher

open Interleaving Function

variable {n loopNum : ℕ} {s s' : State n} {i : Fin n}

/-! ### Neighbours -/

theorem pre_val (i : Fin n) : (pre i).val = if i.val = 0 then n - 1 else i.val - 1 := by
  simp only [pre, preID]
  split_ifs with hneg hzero hzero
  · omega
  · omega
  · omega
  · rw [Int.tmod_eq_emod_of_nonneg (by omega), Int.emod_eq_of_lt (by omega) (by omega)]
    omega

theorem post_val (i : Fin n) : (post i).val = if i.val + 1 = n then 0 else i.val + 1 := by
  simp only [post, postID]
  split_ifs with hge hlast hlast
  · omega
  · omega
  · omega
  · rw [Int.tmod_eq_emod_of_nonneg (by omega), Int.emod_eq_of_lt (by omega) (by omega)]
    omega

/-- The right neighbour of `i` is `(i + 1) mod PH_NUM`. -/
theorem post_val_eq_mod (i : Fin n) : (post i).val = (i.val + 1) % n := by
  rw [post_val]
  split_ifs with hlast
  · rw [hlast, Nat.mod_self]
  · rw [Nat.mod_eq_of_lt (by omega)]

@[simp] theorem post_pre (i : Fin n) : post (pre i) = i := by
  have hpost := post_val (pre i)
  rw [pre_val] at hpost
  ext
  grind

@[simp] theorem pre_post (i : Fin n) : pre (post i) = i := by
  have hpre := pre_val (post i)
  rw [post_val] at hpre
  ext
  grind

theorem pre_ne (hn : 2 ≤ n) (i : Fin n) : pre i ≠ i := by
  rw [Ne, Fin.ext_iff, pre_val]
  split_ifs <;> omega

theorem post_ne (hn : 2 ≤ n) (i : Fin n) : post i ≠ i := by
  rw [Ne, Fin.ext_iff, post_val]
  split_ifs <;> omega

/-! ### What a step can do -/

/-- `test i` would grant: philosopher `i` is hungry and neither neighbour is eating. -/
def Grantable (s : State n) (i : Fin n) : Prop :=
  s.state i = .hungry ∧ s.state (pre i) ≠ .eating ∧ s.state (post i) ≠ .eating

/-- The steps that touch nothing but the point of the philosopher and are not in `test`. -/
inductive Walk : Point → Point → Prop
  | begin : Walk .loop .waitLock
  | finish : Walk .loop .exited
  | eat : Walk .eat .waitLockAgain

/-- The two points that wait for `lock`, with the points after them. -/
inductive Acquire : Point → Point → Prop
  | first : Acquire .waitLock .setHungry
  | second : Acquire .waitLockAgain .setThinking

/-- The two points that post `lock`, with the points after them. -/
inductive Release : Point → Point → Prop
  | first : Release .postLock .waitPh
  | second : Release .postLockAgain .loop

/-- One successful read of the condition of `test ID`, with the next point. -/
inductive Advance (s : State n) (ID : Fin n) : TestPoint → TestPoint → Prop
  | self (h : s.state ID = .hungry) : Advance s ID .readSelf .readPre
  | left (h : s.state (pre ID) ≠ .eating) : Advance s ID .readPre .readPost
  | right (h : s.state (post ID) ≠ .eating) : Advance s ID .readPost .setEating

inductive Move (loopNum : ℕ) (s : State n) (i : Fin n) : State n → Prop
  | walk {point : Point} (hwalk : Walk (s.point i) point)
      (hround : point = .exited → loopNum ≤ s.round i) : Move loopNum s i (s.goto i point)
  | acquire {point : Point} {value : ℕ} (hacquire : Acquire (s.point i) point)
      (hlock : s.lock = value + 1) : Move loopNum s i ({ s with lock := value }.goto i point)
  | announce (hpoint : s.point i = .setHungry) :
    Move loopNum s i
      ({ s with state := Function.update s.state i .hungry }.goto i (.test .own .readSelf))
  | advance {site : TestSite} {point point' : TestPoint} (hpoint : s.point i = .test site point)
      (hadvance : Advance s (site.target i) point point') :
    Move loopNum s i (s.goto i (.test site point'))
  | refuse {site : TestSite} {point : TestPoint} (hpoint : s.point i = .test site point)
      (hread : point ≠ .postPh) (hrefused : ¬ Grantable s (site.target i)) :
    Move loopNum s i (s.goto i site.next)
  | grant {site : TestSite} (hpoint : s.point i = .test site .setEating) :
    Move loopNum s i ({ s with state := Function.update s.state (site.target i) .eating }.goto i
      (.test site .postPh))
  | wake {site : TestSite} (hpoint : s.point i = .test site .postPh) :
    Move loopNum s i
      ({ s with ph := Function.update s.ph (site.target i) (s.ph (site.target i) + 1) }.goto i
        site.next)
  | release {point : Point} {round : Fin n → ℕ} (hrelease : Release (s.point i) point)
      (hround : ∀ k, s.round k ≤ round k) :
    Move loopNum s i ({ s with lock := s.lock + 1, round := round }.goto i point)
  | pass {value : ℕ} (hpoint : s.point i = .waitPh) (hph : s.ph i = value + 1) :
    Move loopNum s i ({ s with ph := Function.update s.ph i value }.goto i .eat)
  | think (hpoint : s.point i = .setThinking) :
    Move loopNum s i
      ({ s with state := Function.update s.state i .thinking }.goto i (.test .left .readSelf))

/-- The step of a philosopher inside `test`. -/
theorem move_of_test {site : TestSite} {point : TestPoint} (hpoint : s.point i = .test site point) :
    Move loopNum s i ((test s (site.target i) point).1.goto i
      (match (test s (site.target i) point).2 with
        | some point' => .test site point'
        | none => site.next)) := by
  cases point with
  | readSelf =>
    by_cases hself : s.state (site.target i) = .hungry
    · simpa [test, hself] using Move.advance hpoint (.self hself)
    · simpa [test, hself] using Move.refuse hpoint (by simp) fun hgrant ↦ hself hgrant.1
  | readPre =>
    by_cases hleft : s.state (pre (site.target i)) = .eating
    · simpa [test, hleft] using Move.refuse hpoint (by simp) fun hgrant ↦ hgrant.2.1 hleft
    · simpa [test, hleft] using Move.advance hpoint (.left hleft)
  | readPost =>
    by_cases hright : s.state (post (site.target i)) = .eating
    · simpa [test, hright] using Move.refuse hpoint (by simp) fun hgrant ↦ hgrant.2.2 hright
    · simpa [test, hright] using Move.advance hpoint (.right hright)
  | setEating => exact .grant hpoint
  | postPh => exact .wake hpoint

theorem move_of_philosopher (h : philosopher loopNum s i = some s') : Move loopNum s i s' := by
  cases hpoint : s.point i <;>
    simp only [philosopher, hpoint, Option.some.injEq, map_semWait_eq_some_iff, reduceCtorEq] at h
  case loop =>
    cases h
    split_ifs with hround
    · exact .walk (hpoint ▸ .begin) (by simp)
    · exact .walk (hpoint ▸ .finish) fun _ ↦ not_lt.mp hround
  case waitLock =>
    obtain ⟨value, hlock, rfl⟩ := h
    exact .acquire (hpoint ▸ .first) hlock
  case setHungry => exact h ▸ .announce hpoint
  case test site point => exact h ▸ move_of_test hpoint
  case postLock => exact h ▸ .release (hpoint ▸ .first) fun _ ↦ le_rfl
  case waitPh =>
    obtain ⟨value, hph, rfl⟩ := h
    exact .pass hpoint hph
  case eat => exact h ▸ .walk (hpoint ▸ .eat) (by simp)
  case waitLockAgain =>
    obtain ⟨value, hlock, rfl⟩ := h
    exact .acquire (hpoint ▸ .second) hlock
  case setThinking => exact h ▸ .think hpoint
  case postLockAgain =>
    refine h ▸ .release (hpoint ▸ .second) fun k ↦ ?_
    by_cases hk : k = i
    · simp [hk]
    · simp [update_of_ne hk]

@[simp] theorem goto_point (s : State n) (i : Fin n) (point : Point) :
    (s.goto i point).point = update s.point i point := rfl

@[simp] theorem goto_state (s : State n) (i : Fin n) (point : Point) :
    (s.goto i point).state = s.state := rfl

@[simp] theorem goto_ph (s : State n) (i : Fin n) (point : Point) :
    (s.goto i point).ph = s.ph := rfl

@[simp] theorem goto_lock (s : State n) (i : Fin n) (point : Point) :
    (s.goto i point).lock = s.lock := rfl

@[simp] theorem holds_next (site : TestSite) : site.next.holds = 1 := by cases site <;> rfl

@[simp] theorem holds_test (site : TestSite) (point : TestPoint) :
    (Point.test site point).holds = 1 := rfl

@[simp] theorem inSection_next (site : TestSite) : site.next.inSection = false := by
  cases site <;> rfl

@[simp] theorem inSection_test (site : TestSite) (point : TestPoint) :
    (Point.test site point).inSection = false := rfl

/-- How a move changes the control state: one thread moves, between created points, and the value
of `lock` balances what the thread holds. -/
theorem Move.control (hm : Move loopNum s i s') :
    ∃ point, s'.point = update s.point i point ∧ point ≠ .unborn ∧
      s.point i ≠ .unborn ∧ s'.main = s.main ∧
      s'.lock + point.holds = s.lock + (s.point i).holds := by
  have hnext (site : TestSite) : site.next ≠ .unborn := by cases site <;> simp [TestSite.next]
  cases hm with
  | walk hwalk =>
    generalize hpoint : s.point i = point at hwalk
    cases hwalk <;> exact ⟨_, rfl, by simp, by simp, rfl, rfl⟩
  | acquire hacquire hlock =>
    generalize hpoint : s.point i = point at hacquire
    cases hacquire <;> exact ⟨_, rfl, by simp, by simp, rfl, by simp [hlock, Point.holds]⟩
  | announce hpoint | pass hpoint | think hpoint =>
    exact ⟨_, rfl, by simp, by simp [hpoint], rfl, by simp [hpoint, Point.holds]⟩
  | advance hpoint | grant hpoint =>
    exact ⟨_, rfl, by simp, by simp [hpoint], rfl, by simp [hpoint]⟩
  | refuse hpoint | wake hpoint => exact ⟨_, rfl, hnext _, by simp [hpoint], rfl, by simp [hpoint]⟩
  | release hrelease =>
    generalize hpoint : s.point i = point at hrelease
    cases hrelease <;> exact ⟨_, rfl, by simp, by simp, rfl, by simp [Point.holds]⟩

/-! ### Creation and exit -/

/-- `main` creates each philosopher once, and only an uncreated one. -/
def Launched (s : State n) : Prop := s.main.Covers fun i ↦ s.point i = .unborn

theorem launched_start (n : ℕ) : Launched (start n) :=
  ⟨fun i ↦ by simp [start], List.nodup_finRange n⟩

theorem launched_move (h : Launched s) (hm : Move loopNum s i s') : Launched s' := by
  obtain ⟨point, hpoint, hborn, hwas, hmain, -⟩ := hm.control
  unfold Launched
  rw [hpoint, hmain]
  refine Launcher.Covers.congr h fun k ↦ ?_
  by_cases hk : k = i
  · subst hk
    simp [hborn, hwas]
  · rw [update_of_ne hk]

theorem launched_main (h : Launched s) (hm : main s = some s') : Launched s' := by
  obtain ⟨i, rest, hcreates, rfl⟩ | ⟨hcreates, _, joins, -, -, rfl⟩ := Launcher.next_cases hm
  · refine Launcher.Covers.create h hcreates (by simp) (fun k hk ↦ ?_) _
    rw [goto_point, update_of_ne hk]
  · exact Launcher.Covers.join h hcreates joins

theorem launched_of_reachable (h : (program n loopNum).Reachable s) : Launched s := by
  refine h.invariant (fun s hs ↦ hs ▸ launched_start n) fun s thread s' _ hlaunched hnext ↦ ?_
  cases thread with
  | main => exact launched_main hlaunched hnext
  | philosopher i => exact launched_move hlaunched (move_of_philosopher hnext)

def ExitsDone (loopNum : ℕ) (s : State n) : Prop :=
  ∀ i, s.point i = .exited → loopNum ≤ s.round i

theorem exitsDone_of_reachable (h : (program n loopNum).Reachable s) : ExitsDone loopNum s := by
  refine h.invariant (fun s hs i hi ↦ ?_) fun s thread s' hreach hrounds hnext k hk ↦ ?_
  · rw [hs] at hi
    simp [start] at hi
  cases thread with
  | main =>
    obtain ⟨i, rest, hcreates, rfl⟩ | ⟨-, _, joins, -, -, rfl⟩ :=
      Launcher.next_cases (show main s = _ from hnext)
    · by_cases hki : k = i
      · simp [hki] at hk
      · rw [goto_point, update_of_ne hki] at hk
        exact hrounds k hk
    · exact hrounds k hk
  | philosopher i =>
    have hround : loopNum ≤ s.round k → loopNum ≤ s'.round k := by
      intro hle
      cases move_of_philosopher hnext with
      | release _ hgrows => exact hle.trans (hgrows k)
      | _ => exact hle
    by_cases hki : k = i
    · subst hki
      cases move_of_philosopher hnext with
      | walk hwalk hfinished => exact hfinished (by simpa using hk)
      | acquire hacquire =>
        generalize s.point k = old at hacquire
        cases hacquire <;> simp at hk
      | @refuse site | @wake site => cases site <;> simp [TestSite.next] at hk
      | release hrelease =>
        generalize s.point k = old at hrelease
        cases hrelease <;> simp at hk
      | _ => simp at hk
    · obtain ⟨point, hpoint, -⟩ := (move_of_philosopher hnext).control
      rw [hpoint, update_of_ne hki] at hk
      exact hround (hrounds k hk)

end OpenPosix.Semaphores.Philosopher

import OpenPosix.CondVars.WakeupInvariant

/-!
# The scenarios of the wake-up tests

The steps of `main` keep the invariant, so it holds in every state that is reached without a timeout
(`Inv.next`, `inv_of_reachable`). Every such state in a scenario leads on to the end of that
scenario, where all the children have been joined (`exists_joined`): whatever the scheduler and the
spurious wake-ups have done so far, the right moves from there on bring all of them out of their
waits.
-/

namespace OpenPosix.CondVars.Wakeup

open Interleaving Verdicts

variable {n : ℕ} {c : Config n} {s s' : State n} {i : Fin n}

/-! ### The children of a scenario -/

theorem Config.nodup_kids (c : Config n) (scenar : ℕ) : (c.kids scenar).Nodup :=
  (List.nodup_finRange n).sublist (List.take_sublist _ _)

theorem Config.length_kids (c : Config n) (scenar : ℕ) :
    (c.kids scenar).length = c.children scenar := by
  simp [Config.kids, c.children_le scenar]

/-- A scenario has a first child. -/
theorem Config.exists_kids_eq_cons (c : Config n) (scenar : ℕ) :
    ∃ first rest, c.kids scenar = first :: rest := by
  refine List.exists_cons_of_ne_nil fun hnil ↦ ?_
  have hlength := c.length_kids scenar
  rw [hnil] at hlength
  exact absurd hlength.symm (c.children_pos scenar).ne'

/-- The children are joined in one order or the other. -/
theorem Config.mem_joinOrder_iff (c : Config n) {scenar : ℕ} :
    i ∈ c.test.program.joinOrder (c.kids scenar) ↔ i ∈ c.kids scenar := by
  cases c.test <;> simp [Test.program, ChildVerdicts.Program.joinOrder]

theorem Config.length_joinOrder_le (c : Config n) (scenar : ℕ) :
    (c.test.program.joinOrder (c.kids scenar)).length ≤ n := by
  have hle := c.children_le scenar
  rw [← c.length_kids] at hle
  cases c.test <;> simpa [Test.program, ChildVerdicts.Program.joinOrder] using hle

theorem Config.sum_kids (c : Config n) (scenar : ℕ) :
    ∑ i, (if i ∈ c.kids scenar then 1 else 0) = c.children scenar := by
  rw [Finset.sum_boole, ← c.length_kids, ← List.toFinset_card_of_nodup (c.nodup_kids _)]
  simp only [Nat.cast_id]
  congr 1
  ext i
  simp

/-- If the count is not complete, some child has not been at the increment. -/
theorem exists_uncounted (hcount : s.count = total ChildPoint.counted s.child)
    (hlt : s.count < c.children s.scenar) : ∃ i ∈ c.kids s.scenar, (s.child i).counted = 0 := by
  by_contra hall
  push Not at hall
  have hle : c.children s.scenar ≤ s.count := by
    rw [← c.sum_kids, hcount]
    refine Finset.sum_le_sum fun i _ ↦ ?_
    split_ifs with hi
    · exact Nat.one_le_iff_ne_zero.mpr (hall i hi)
    · exact Nat.zero_le _
  omega

/-- If the count is complete, every child counts. -/
theorem counted_of_le_count (hcount : s.count = total ChildPoint.counted s.child)
    (hunborn : ∀ i, i ∉ c.kids s.scenar → s.child i = .unborn)
    (hall : c.children s.scenar ≤ s.count) (i : Fin n) (hi : i ∈ c.kids s.scenar) :
    (s.child i).counted = 1 := by
  have hle : ∀ j ∈ Finset.univ, (s.child j).counted ≤ if j ∈ c.kids s.scenar then 1 else 0 := by
    intro j _
    split_ifs with hj
    · cases s.child j <;> simp
    · rw [hunborn j hj]
      rfl
  have htotal : ∑ j, (s.child j).counted = ∑ j, if j ∈ c.kids s.scenar then 1 else 0 := by
    refine le_antisymm (Finset.sum_le_sum hle) ?_
    rw [c.sum_kids]
    exact hall.trans hcount.le
  have heach := (Finset.sum_eq_sum_iff_of_le hle).mp htotal i (Finset.mem_univ i)
  rwa [if_pos hi] at heach

/-! ### The steps of `main` -/

theorem inv_start (c : Config n) : Inv c (start c) where
  owned := fun thread ↦ by cases thread <;> simp [start, Holds, MainPoint.holds]
  count := (total_eq_zero fun _ ↦ rfl).symm
  fresh := fun _ ↦ rfl
  carried := fun h ↦ absurd h (lt_irrefl 0)
  inside := nofun
  idle := fun _ _ ↦ .inl rfl
  toCreate := List.nil_suffix
  unborn := nofun
  settled := nofun
  set := nofun
  chain := nofun
  joined := nofun

theorem inv_setup (h : Inv c s) (hlt : s.scenar < c.scenarios) :
    Inv c { s with main := .create (c.kids s.scenar), child := fun _ ↦ .unborn, mtx := none,
                   count := 0 } where
  owned := fun thread ↦ by cases thread <;> simp [Holds, MainPoint.holds]
  count := (total_eq_zero fun _ ↦ rfl).symm
  fresh := fun _ ↦ rfl
  carried := h.carried
  inside := fun _ ↦ hlt
  idle := nofun
  toCreate := List.suffix_refl _
  unborn := fun _ i ↦ iff_of_true rfl (em _)
  settled := nofun
  set := nofun
  chain := nofun
  joined := nofun

theorem Inv.create {rest : List (Fin n)} (h : Inv c s) (hmain : s.main = .create (i :: rest)) :
    Inv c ({ s with main := .create rest }.goto i .lock) := by
  have hin : s.main.inScenario = true := by rw [hmain]; rfl
  have hsuffix : i :: rest <:+ c.kids s.scenar := by
    simpa [hmain] using h.toCreate
  have hkid : i ∈ c.kids s.scenar := hsuffix.subset List.mem_cons_self
  have hnotin : i ∉ rest :=
    (List.nodup_cons.mp ((c.nodup_kids s.scenar).sublist hsuffix.sublist)).1
  have hunborn : s.child i = .unborn :=
    (h.unborn hin i).mpr (.inl (by simp [hmain]))
  refine ⟨?_, ?_, fun j ↦ ?_, h.carried, fun _ ↦ h.inside hin, nofun,
    (List.suffix_cons i rest).trans hsuffix, fun _ j ↦ ?_, nofun, nofun, nofun, nofun⟩
  · refine h.owned.congr fun thread ↦ ?_
    cases thread with
    | main => simp [Holds, hmain, MainPoint.holds]
    | child j =>
      by_cases heq : j = i
      · subst heq
        simp [Holds, hunborn]
      · simp [Holds, heq]
  · have hsame : total ChildPoint.counted (Function.update s.child i .lock) =
        total ChildPoint.counted s.child :=
      total_update_of_eq (by simp [hunborn])
    exact h.count.trans hsame.symm
  · by_cases heq : j = i
    · subst heq
      simp
    · simpa [heq] using h.fresh j
  · by_cases heq : j = i
    · subst heq
      simp [hnotin, hkid]
    · simpa [heq, hmain] using h.unborn hin j

theorem holds_congr {thread : Thread n} (hchild : s'.child = s.child)
    (hmain : thread = .main → s'.main.holds = s.main.holds) : Holds s' thread ↔ Holds s thread := by
  cases thread with
  | main => simp only [Holds, hmain rfl]
  | child j => simp only [Holds, hchild]

/-- When `main` has seen that the count is complete, every child waits or has waited. -/
theorem Inv.settled_of_poll (h : Inv c s) (hmain : s.main = .poll)
    (hall : ¬ s.count < c.children s.scenar) (i : Fin n) (hi : i ∈ c.kids s.scenar) :
    (s.child i).settled := by
  have hunborn : ∀ j, j ∉ c.kids s.scenar → s.child j = .unborn := fun j hj ↦
    (h.unborn (by rw [hmain]; rfl) j).mpr (.inr hj)
  have hcounted := counted_of_le_count h.count hunborn (not_lt.mp hall) i hi
  -- `main` has the mutex, so the child is not at a point where it would hold it.
  have hnot : (s.child i).holds ≠ true := fun hholds ↦
    absurd (h.owned.unique (show Holds s .main by simp [Holds, hmain, MainPoint.holds])
      (show Holds s (.child i) from hholds)) nofun
  cases hpoint : s.child i <;>
    simp_all

/-- The wake-up: of every child that is blocked, or of one at least in the signal test. -/
theorem Inv.wake (h : Inv c s) (hmain : s.main = .wake) {set : Finset (Fin n)}
    (hset : (∃ i, (s.child i).isBlocked) → c.test = .condSignal12 →
      ∃ i ∈ set, (s.child i).isBlocked)
    (hall : c.test ≠ .condSignal12 → set = Finset.univ) :
    Inv c { s with
      child := Interleaving.wakeUp ChildPoint.wake set s.child, main := .release } := by
  have hwoken := h.wakeUp set
  refine ⟨?_, hwoken.count, hwoken.fresh, h.carried, fun _ ↦ h.inside (by rw [hmain]; rfl),
    nofun, List.nil_suffix, fun _ ↦ ?_, fun _ ↦ hwoken.settled (by rw [hmain]; rfl),
    fun _ ↦ h.set (by rw [hmain]; rfl), fun _ hblocked ↦ ?_, nofun⟩
  · exact hwoken.owned.congr fun thread ↦ holds_congr rfl fun _ ↦ by simp [hmain, MainPoint.holds]
  · simpa [hmain] using hwoken.unborn (by rw [hmain]; rfl)
  · obtain ⟨j, hj⟩ := hblocked
    have hbefore : (s.child j).isBlocked ∧ j ∉ set := by
      unfold Interleaving.wakeUp at hj
      by_cases hmem : j ∈ set
      · simp [hmem] at hj
      · simpa [hmem] using hj
    have htest : c.test = .condSignal12 := by
      by_contra hne
      exact hbefore.2 (hall hne ▸ Finset.mem_univ j)
    obtain ⟨k, hk, hblocked⟩ := hset ⟨j, hbefore.1⟩ htest
    exact ⟨htest, k, by simp [Interleaving.wakeUp, hk, pending_wake (.inl hblocked)]⟩

/-- `main` goes on in a scenario, and the mutex and the predicate follow. -/
theorem Inv.goes_on {old main : MainPoint n} {mtx : Option (Thread n)} {predicate : Bool}
    (h : Inv c s) (hmain : s.main = old) (hpass : Passes .main s.mtx old.holds main.holds mtx)
    (hpredicate : s.predicate = true → predicate = true) (hin : old.inScenario = true)
    (hin' : main.inScenario = true) (hcreate : main.toCreate = old.toCreate)
    (hcounted : main.hasCounted = true → ∀ i ∈ c.kids s.scenar, (s.child i).settled)
    (hset : main.hasSet = true → predicate = true)
    (hwoken : main.hasWoken = true → old.hasWoken = true)
    (hjoined : ∀ rest ret, main = .join rest ret → ret = 0 ∧ rest ⊆ c.kids s.scenar ∧
      ∀ i ∈ c.kids s.scenar, i ∈ rest ∨ s.child i = .returned ptsPass) :
    Inv c { s with main := main, mtx := mtx, predicate := predicate } := by
  subst hmain
  have howned := h.owned.pass Iff.rfl hpass
  refine ⟨howned.congr fun thread ↦ by cases thread <;> simp [Holds], h.count, h.fresh,
    fun hpos ↦ hpredicate (h.carried hpos), fun _ ↦ h.inside hin,
    fun hnot ↦ absurd hin' (by simp [hnot]), hcreate ▸ h.toCreate, fun _ ↦ ?_, hcounted, hset,
    fun hafter ↦ h.chain (hwoken hafter), hjoined⟩
  simpa only [hcreate] using h.unborn hin

/-- `main` releases the mutex after the wake-up. -/
theorem Inv.release (h : Inv c s) (hmain : s.main = .release) :
    Inv c { s with mtx := none,
                   main := .join (c.test.program.joinOrder (c.kids s.scenar)) 0 } := by
  refine h.goes_on hmain (.drop rfl rfl) id rfl rfl rfl (fun _ ↦ h.settled (by rw [hmain]; rfl))
    (fun _ ↦ h.set (by rw [hmain]; rfl)) id
    fun rest ret heq ↦ ?_
  obtain ⟨rfl, rfl⟩ := MainPoint.join.inj heq
  exact ⟨rfl, fun i hi ↦ c.mem_joinOrder_iff.mp hi, fun i hi ↦ .inl (c.mem_joinOrder_iff.mpr hi)⟩

/-- `main` is between two scenarios, or has ended. -/
theorem Inv.leave {main : MainPoint n} {scenar : ℕ} (h : Inv c s) (hnot : s.main.holds = false)
    (hmain : main = .setup ∨ ∃ code, main = .exited code)
    (hidle : ∀ i, s.child i = .unborn ∨ s.child i = .returned ptsPass)
    (hcarried : 0 < scenar → s.predicate = true) :
    Inv c { s with main := main, scenar := scenar } := by
  have howned : Owned s.mtx (Holds { s with main := main, scenar := scenar }) := by
    refine h.owned.congr fun _ ↦ holds_congr rfl fun _ ↦ ?_
    rw [hnot]
    rcases hmain with rfl | ⟨code, rfl⟩ <;> rfl
  rcases hmain with rfl | ⟨code, rfl⟩ <;>
  exact ⟨howned, h.count, h.fresh, hcarried, nofun, fun _ ↦ hidle, List.nil_suffix, nofun, nofun,
    nofun, nofun, nofun⟩

/-- Joining a child that has passed. -/
theorem join_passed (c : Config n) (scenar : ℕ) :
    ChildVerdicts.join c.test.program 0 (c.joined scenar ptsPass) = .ok 0 := by
  unfold Config.joined
  split_ifs
  · rfl
  · cases c.test <;> rfl

/-- The steps of `main` in the runs without a timeout, where every child returns `PTS_PASS`. -/
inductive MainStep (c : Config n) (s : State n) : State n → Prop
  | setup : s.main = .setup → s.scenar < c.scenarios →
    MainStep c s { s with main := .create (c.kids s.scenar), child := fun _ ↦ .unborn, mtx := none,
                          count := 0 }
  | finish : s.main = .setup → MainStep c s { s with main := .exited ptsPass }
  | create (i : Fin n) (rest : List (Fin n)) : s.main = .create (i :: rest) →
    MainStep c s ({ s with main := .create rest }.goto i .lock)
  | created : s.main = .create [] → MainStep c s { s with main := .lock }
  | lock : s.main = .lock → s.mtx = none → MainStep c s { s with mtx := some .main, main := .poll }
  | unlock : s.main = .poll → MainStep c s { s with mtx := none, main := .lock }
  | counted : s.main = .poll → ¬ s.count < c.children s.scenar →
    MainStep c s { s with main := .setPredicate }
  | setPredicate : s.main = .setPredicate → MainStep c s { s with predicate := true, main := .wake }
  | wake (set : Finset (Fin n)) : s.main = .wake →
    ((∃ i, (s.child i).isBlocked) → c.test = .condSignal12 → ∃ i ∈ set, (s.child i).isBlocked) →
    (c.test ≠ .condSignal12 → set = Finset.univ) →
    MainStep c s { s with child := Interleaving.wakeUp ChildPoint.wake set s.child,
                          main := .release }
  | release : s.main = .release →
    MainStep c s { s with mtx := none,
                          main := .join (c.test.program.joinOrder (c.kids s.scenar)) 0 }
  | join (i : Fin n) (rest : List (Fin n)) : s.main = .join (i :: rest) 0 →
    s.child i = .returned ptsPass → MainStep c s { s with main := .join rest 0 }
  | joined : s.main = .join [] 0 → MainStep c s { s with main := .setup, scenar := s.scenar + 1 }

theorem mainStep_of_main {set : Finset (Fin n)} (h : Inv c s) (hnext : main c s set = some s') :
    MainStep c s s' := by
  unfold main at hnext
  cases hmain : s.main <;> simp only [hmain, reduceCtorEq] at hnext
  case setup =>
    split_ifs at hnext with hlt
    · exact Option.some.inj hnext ▸ .setup hmain hlt
    · exact Option.some.inj hnext ▸ .finish hmain
  case create rest =>
    cases rest with
    | nil =>
      exact Option.some.inj hnext ▸ .created hmain
    | cons i rest =>
      exact Option.some.inj hnext ▸ .create i rest hmain
  case lock =>
    obtain ⟨hfree, rfl⟩ := map_mutexLock_eq_some_iff.mp hnext
    exact .lock hmain hfree
  case poll =>
    split_ifs at hnext with hcount
    · exact Option.some.inj hnext ▸ .unlock hmain
    · exact Option.some.inj hnext ▸ .counted hmain hcount
  case setPredicate =>
    exact Option.some.inj hnext ▸ .setPredicate hmain
  case wake =>
    split at hnext
    next htest =>
      simp only [Option.map_eq_some_iff, signal, Option.ite_none_right_eq_some,
        Option.some.injEq] at hnext
      obtain ⟨woken, ⟨hset, rfl⟩, rfl⟩ := hnext
      refine .wake set hmain (fun hblocked _ ↦ ?_) fun hne ↦ absurd htest hne
      obtain ⟨i, hi⟩ := hset.2 hblocked
      exact ⟨i, hi, hset.1 i hi⟩
    next htest =>
      cases hnext
      exact .wake Finset.univ hmain (fun _ hsignal ↦ absurd hsignal htest) fun _ ↦ rfl
  case release =>
    exact Option.some.inj hnext ▸ .release hmain
  case join rest ret =>
    obtain ⟨rfl, -, -⟩ := h.joined rest ret hmain
    cases rest with
    | nil =>
      exact Option.some.inj hnext ▸ .joined hmain
    | cons i rest =>
      simp only at hnext
      split at hnext
      next status hreturned =>
        have hfresh := h.fresh i
        obtain rfl : status = ptsPass := by simpa [hreturned] using hfresh
        simp only [join_passed] at hnext
        exact Option.some.inj hnext ▸ .join i rest hmain hreturned
      next => exact absurd hnext (by simp)

theorem Inv.main_step (h : Inv c s) (hstep : MainStep c s s') : Inv c s' := by
  have hnot : ∀ {P : Prop}, false = true → P := fun hfalse ↦ absurd hfalse Bool.false_ne_true
  cases hstep with
  | setup hmain hlt => exact inv_setup h hlt
  | finish hmain =>
    exact h.leave (by rw [hmain]; rfl) (.inr ⟨_, rfl⟩) (h.idle (by rw [hmain]; rfl)) h.carried
  | create i rest hmain => exact h.create hmain
  | created hmain =>
    exact h.goes_on hmain (.keep rfl) id rfl rfl rfl hnot hnot id (by simp)
  | lock hmain hfree =>
    exact h.goes_on hmain (.take hfree rfl) id rfl rfl rfl hnot hnot id (by simp)
  | unlock hmain =>
    exact h.goes_on hmain (.drop rfl rfl) id rfl rfl rfl hnot hnot id (by simp)
  | counted hmain hcount =>
    exact h.goes_on hmain (.keep rfl) id rfl rfl rfl (fun _ ↦ h.settled_of_poll hmain hcount) hnot
      id (by simp)
  | setPredicate hmain =>
    exact h.goes_on hmain (.keep rfl) (fun _ ↦ rfl) rfl rfl rfl
      (fun _ ↦ h.settled (by rw [hmain]; rfl)) (fun _ ↦ rfl) id (by simp)
  | wake set hmain hset hall => exact h.wake hmain hset hall
  | release hmain => exact h.release hmain
  | join i rest hmain hreturned =>
    obtain ⟨-, hsubset, hkids⟩ := h.joined _ _ hmain
    refine h.goes_on hmain (.keep rfl) id rfl rfl rfl
      (fun _ ↦ h.settled (by rw [hmain]; rfl)) (fun _ ↦ h.set (by rw [hmain]; rfl)) id
      fun rest' ret' heq ↦ ?_
    obtain ⟨rfl, rfl⟩ := MainPoint.join.inj heq
    refine ⟨rfl, fun j hj ↦ hsubset (List.mem_cons_of_mem _ hj), fun j hj ↦ ?_⟩
    rcases hkids j hj with hmem | hdone
    · rcases List.mem_cons.mp hmem with rfl | hrest
      · exact .inr hreturned
      · exact .inl hrest
    · exact .inr hdone
  | joined hmain =>
    obtain ⟨-, -, hkids⟩ := h.joined _ _ hmain
    refine h.leave (by rw [hmain]; rfl) (.inl rfl) (fun i ↦ ?_) fun _ ↦ h.set (by rw [hmain]; rfl)
    by_cases hkid : i ∈ c.kids s.scenar
    · exact .inr ((hkids i hkid).resolve_left (by simp))
    · exact .inl ((h.unborn (by rw [hmain]; rfl) i).mpr (.inr hkid))

/-- Every move keeps the invariant except the timeout of a wait. -/
theorem Inv.next {move : Move n} (h : Inv c s) (hexpire : ∀ i, move ≠ .expire i)
    (hnext : (program c).next s move = some s') : Inv c s' := by
  simp only [program] at hnext
  split_ifs at hnext with hexited
  cases move with
  | main set => exact h.main_step (mainStep_of_main h hnext)
  | child i set => exact h.child (childEffect_of_child h.owned (h.fresh i) hnext)
  | spurious i =>
    obtain ⟨-, ⟨⟩⟩ := Option.ite_none_right_eq_some.mp hnext
    unfold State.goto
    rw [update_wake]
    exact h.wakeUp {i}
  | expire i => exact absurd rfl (hexpire i)

/-- A blocked child is in a scenario of the list. -/
theorem Inv.scenar_lt (h : Inv c s) (hblocked : (s.child i).isBlocked) :
    s.scenar < c.scenarios := by
  refine h.inside ?_
  by_contra hnot
  rcases h.idle (by simpa using hnot) i with heq | heq <;>
  simp [heq, ChildPoint.isBlocked] at hblocked

/-- Assumes: no timed wait can expire. -/
theorem inv_of_reachable (hexpires : ∀ scenar < c.scenarios, c.expires scenar = false)
    (h : (program c).Reachable s) : Inv c s := by
  refine h.invariant (fun s hs ↦ hs ▸ inv_start c) fun s move s' _ hinv hnext ↦ ?_
  refine hinv.next (fun i hmove ↦ ?_) hnext
  subst hmove
  simp only [program] at hnext
  split_ifs at hnext with hexited
  simp only [expire, Option.ite_none_right_eq_some] at hnext
  obtain ⟨⟨hexpire, hpoint⟩, -⟩ := hnext
  have hlt := hinv.scenar_lt (i := i) (by simp [hpoint, ChildPoint.isBlocked])
  simp [hexpires s.scenar hlt] at hexpire

/-! ### The end of a scenario can be reached -/

/-- A bound on the steps that a child has before it. A woken child that finds the predicate not set
goes back to its wait, so the test of the loop counts more then. -/
@[simp] def ChildPoint.weight (predicate : Bool) : ChildPoint → ℕ
  | .unborn => 12
  | .lock => 11
  | .incr => 10
  | .test _ _ => if predicate then 5 else 9
  | .wait _ => 8
  | .blocked _ => 7
  | .woken _ _ => 6
  | .signal | .own => 4
  | .unlock => 3
  | .failed | .returned _ => 0

theorem weight_wake_le (predicate : Bool) (point : ChildPoint) :
    point.wake.weight predicate ≤ point.weight predicate := by
  cases point <;> simp [ChildPoint.wake]

theorem weight_true_le (point : ChildPoint) : point.weight true ≤ point.weight false := by
  cases point <;> simp

/-- A step of a child makes its weight smaller, except that of a woken child that finds the
predicate not set. -/
theorem Flow.weight_lt {test : Test} {predicate : Bool} {before after : ChildPoint}
    (h : Flow test predicate before after)
    (hwoken : ∀ timed, before = .woken timed false → predicate = true) :
    after.weight predicate < before.weight predicate := by
  cases h with
  | relock timed => simp [hwoken timed rfl]
  | again timed hnot => simp [hnot]
  | leave timed hset => cases test <;> simp [hset]
  | _ => simp

/-- A bound on the steps that `main` has before it in a scenario. It looks at the count again only
if it has found it incomplete. -/
def mainRank (c : Config n) (s : State n) : ℕ :=
  match s.main with
  | .create rest => n + 7 + rest.length
  | .poll => if s.count < c.children s.scenar then n + 6 else n + 4
  | .lock => n + 5
  | .setPredicate => n + 3
  | .wake => n + 2
  | .release => n + 1
  | .join rest _ => rest.length
  | .setup | .exited _ => 0

def remaining (c : Config n) (s : State n) : ℕ :=
  mainRank c s + total (ChildPoint.weight s.predicate) s.child

theorem ChildEffect.remaining_lt (h : ChildEffect c s i s') (howned : Owned s.mtx (Holds s))
    (hwoken : ∀ timed, s.child i = .woken timed false → s.predicate = true) :
    remaining c s' < remaining c s := by
  have hrank : mainRank c s' = mainRank c s := by
    have hmain := h.not_main_holds howned
    unfold mainRank
    rw [h.main]
    cases hpoint : s.main <;> simp_all [MainPoint.holds]
  have htotal : total (ChildPoint.weight s.predicate) s'.child <
      total (ChildPoint.weight s.predicate) s.child := by
    refine total_lt_total (h.flow.weight_lt hwoken) fun j hj ↦ ?_
    rcases h.others j hj with hsame | hwake
    · rw [hsame]
    · rw [hwake]
      exact weight_wake_le _ _
  unfold remaining
  rw [hrank, h.predicate]
  omega

/-- A child that holds the mutex can go on, and so can one that waits for the mutex when it is
free. -/
theorem exists_child_step (hnot : s.main.isExited = false) (hready : (s.child i).holds ∨
      s.mtx = none ∧ (s.child i = .lock ∨ ∃ timed expired, s.child i = .woken timed expired)) :
    ∃ set s', (program c).next s (.child i set) = some s' := by
  simp only [program, hnot, Bool.false_eq_true, if_false]
  rcases hready with hholds | ⟨hfree, hlock | ⟨timed, expired, hwoken⟩⟩
  · cases hpoint : s.child i with
    | signal =>
      obtain ⟨set, hset⟩ := exists_signals ChildPoint.isBlocked s.child
      exact ⟨set, by simp [child, hpoint, signal, hset]⟩
    | test timed expired | failed =>
      simp only [child, hpoint]
      split_ifs <;> exact ⟨∅, _, rfl⟩
    | unborn | lock | blocked timed | woken timed expired | returned status =>
      simp [hpoint] at hholds
    | incr | wait timed | own | unlock => exact ⟨∅, by simp [child, hpoint]⟩
  · exact ⟨∅, by simp [child, hlock, hfree, mutexLock]⟩
  · exact ⟨∅, by simp [child, hwoken, hfree, mutexLock]⟩

/-- The mutex is free, so no child holds it. -/
theorem Inv.not_holds_of_free (h : Inv c s) (hfree : s.mtx = none) (i : Fin n) :
    (s.child i).holds = false := by
  simpa [Holds] using h.owned.not_holds hfree (.child i)

/-- The mutex is held, and not by `main`, so a child holds it. -/
theorem Inv.exists_child_holds (h : Inv c s) (hnot : s.main.holds = false) (hheld : s.mtx ≠ none) :
    ∃ i, (s.child i).holds = true := by
  obtain ⟨thread, hthread⟩ := Option.ne_none_iff_exists'.mp hheld
  have hholds := (h.owned thread).mp hthread
  cases thread with
  | main => simp [Holds, hnot] at hholds
  | child j => exact ⟨j, hholds⟩

/-- Assumes: `main` has signalled, and the mutex is free. If a child is blocked, another one has
been woken and has not signalled yet. -/
theorem Inv.exists_woken (h : Inv c s) (hwoken : s.main.hasWoken) (hfree : s.mtx = none)
    (hblocked : (s.child i).isBlocked) :
    ∃ j timed expired, s.child j = .woken timed expired := by
  obtain ⟨-, j, hpending⟩ := h.chain hwoken ⟨i, hblocked⟩
  have hnot := h.not_holds_of_free hfree j
  cases hpoint : s.child j with
  | woken timed expired => exact ⟨j, timed, expired, hpoint⟩
  | _ => simp_all [ChildPoint.pending]

/-- There is a move that stays in the scenario and leaves fewer steps. -/
def Advances (c : Config n) (s : State n) : Prop :=
  ∃ move s', (program c).next s move = some s' ∧ Inv c s' ∧ s'.main.inScenario ∧
    s'.scenar = s.scenar ∧ remaining c s' < remaining c s

theorem MainPoint.not_isExited {main : MainPoint n} (h : main.inScenario) :
    main.isExited = false := by
  cases main <;> simp_all [MainPoint.inScenario, MainPoint.isExited]

/-- A child that can go on does so. -/
theorem Inv.advances_child (h : Inv c s) (hin : s.main.inScenario) (hready : (s.child i).holds ∨
      s.mtx = none ∧ (s.child i = .lock ∨ ∃ timed expired, s.child i = .woken timed expired))
    (hwoken : ∀ timed, s.child i = .woken timed false → s.predicate = true) : Advances c s := by
  obtain ⟨set, s', hnext⟩ := exists_child_step (c := c) (MainPoint.not_isExited hin) hready
  have hchild : Wakeup.child c s i set = some s' := by
    simpa [program, MainPoint.not_isExited hin] using hnext
  have heffect := childEffect_of_child h.owned (h.fresh i) hchild
  exact ⟨_, s', hnext, h.child heffect, heffect.main ▸ hin, heffect.scenar,
    heffect.remaining_lt h.owned hwoken⟩

/-- If the mutex is held by a child, this child goes on. -/
theorem Inv.advances_of_held (h : Inv c s) (hin : s.main.inScenario) (hnot : s.main.holds = false)
    (hheld : s.mtx ≠ none) : Advances c s := by
  obtain ⟨j, hholds⟩ := h.exists_child_holds hnot hheld
  refine h.advances_child hin (.inl hholds) fun timed hwoken ↦ ?_
  simp [hwoken] at hholds

/-- `main` goes on, and the children are not further from their ends than before. -/
theorem Inv.advances_main (h : Inv c s) (hin : s.main.inScenario) (set : Finset (Fin n))
    (s' : State n) (hnext : Wakeup.main c s set = some s') (hin' : s'.main.inScenario)
    (hscenar : s'.scenar = s.scenar) (hrank : mainRank c s' < mainRank c s)
    (hweight : total (ChildPoint.weight s'.predicate) s'.child ≤
      total (ChildPoint.weight s.predicate) s.child) : Advances c s := by
  have hmove : (program c).next s (.main set) = some s' := by
    simpa [program, MainPoint.not_isExited hin] using hnext
  refine ⟨_, s', hmove, h.next (fun _ ↦ by simp) hmove, hin', hscenar, ?_⟩
  unfold remaining
  omega

/-- While `main` waits for the mutex to look at the count, the children go on until the count is
complete. -/
theorem Inv.advances_lock (h : Inv c s) (hmain : s.main = .lock) : Advances c s := by
  have hin : s.main.inScenario = true := by simp [hmain, MainPoint.inScenario]
  by_cases hfree : s.mtx = none
  · by_cases hcount : s.count < c.children s.scenar
    · have hunborn : ∀ j, s.child j = .unborn ↔ j ∉ c.kids s.scenar := by
        simpa [hmain] using h.unborn hin
      obtain ⟨i, hi, hzero⟩ := exists_uncounted h.count hcount
      have hnot := h.not_holds_of_free hfree i
      have hlock : s.child i = .lock := by
        cases hpoint : s.child i <;> simp_all
      exact h.advances_child hin (.inr ⟨hfree, .inl hlock⟩) (by simp [hlock])
    · refine h.advances_main hin ∅ { s with mtx := some .main, main := .poll }
        (by simp [main, hmain, hfree, mutexLock]) rfl rfl ?_ le_rfl
      simp [mainRank, hmain, hcount]
  · exact h.advances_of_held hin (by simp [hmain, MainPoint.holds]) hfree

/-- While `main` waits for a child, the children that are woken go on. -/
theorem Inv.advances_join {rest : List (Fin n)} (h : Inv c s) (hmain : s.main = .join (i :: rest) 0)
    (hkid : i ∈ c.kids s.scenar) : Advances c s := by
  have hin : s.main.inScenario = true := by simp [hmain, MainPoint.inScenario]
  have hset : s.predicate = true := h.set (by simp [hmain, MainPoint.hasSet])
  have hwoken : s.main.hasWoken = true := by simp [hmain, MainPoint.hasWoken]
  by_cases hfree : s.mtx = none
  · have hsettled := h.settled (by simp [hmain]) i hkid
    have hfresh := h.fresh i
    cases hpoint : s.child i with
    | returned status =>
      obtain rfl : status = ptsPass := by simpa [hpoint] using hfresh
      refine h.advances_main hin ∅ { s with main := .join rest 0 }
        (by simp [main, hmain, hpoint, join_passed]) rfl rfl ?_ le_rfl
      simp [mainRank, hmain]
    | woken timed expired =>
      exact h.advances_child hin (.inr ⟨hfree, .inr ⟨timed, expired, hpoint⟩⟩) fun _ _ ↦ hset
    | blocked timed =>
      obtain ⟨j, hj⟩ := h.exists_woken hwoken hfree (i := i)
        (by simp [hpoint, ChildPoint.isBlocked])
      exact h.advances_child hin (.inr ⟨hfree, .inr hj⟩) fun _ _ ↦ hset
    | _ =>
      have hi := h.not_holds_of_free hfree i
      simp [hpoint] at hsettled hi
  · exact h.advances_of_held hin (by simp [hmain, MainPoint.holds]) hfree

theorem Inv.advances (h : Inv c s) (hin : s.main.inScenario) (hnot : s.main ≠ .join [] 0) :
    Advances c s := by
  cases hmain : s.main with
  | setup | exited code => simp [hmain, MainPoint.inScenario] at hin
  | create rest =>
    cases rest with
    | nil =>
      exact h.advances_main hin ∅ { s with main := .lock } (by simp [main, hmain]) rfl rfl
        (by simp [mainRank, hmain]) le_rfl
    | cons i rest =>
      have hunborn : s.child i = .unborn :=
        (h.unborn hin i).mpr (.inl (by simp [hmain]))
      refine h.advances_main hin ∅ ({ s with main := .create rest }.goto i .lock)
        (by simp [main, hmain]) rfl rfl (by simp [mainRank, hmain]) ?_
      have hmove := total_update (ChildPoint.weight s.predicate) s.child i .lock
      rw [hunborn] at hmove
      simp only [ChildPoint.weight] at hmove
      simp only [State.goto]
      omega
  | lock => exact h.advances_lock hmain
  | poll =>
    by_cases hcount : s.count < c.children s.scenar
    · exact h.advances_main hin ∅ { s with mtx := none, main := .lock }
        (by simp [main, hmain, hcount]) rfl rfl (by simp [mainRank, hmain, hcount]) le_rfl
    · exact h.advances_main hin ∅ { s with main := .setPredicate }
        (by simp [main, hmain, hcount]) rfl rfl (by simp [mainRank, hmain, hcount]) le_rfl
  | setPredicate =>
    refine h.advances_main hin ∅ { s with predicate := true, main := .wake }
      (by simp [main, hmain]) rfl rfl (by simp [mainRank, hmain]) ?_
    cases s.predicate with
    | true => exact le_rfl
    | false => exact Finset.sum_le_sum fun i _ ↦ weight_true_le (s.child i)
  | wake =>
    obtain ⟨set, hset⟩ := exists_signals ChildPoint.isBlocked s.child
    cases htest : c.test with
    | condSignal12 =>
      refine h.advances_main hin set
        { s with child := Interleaving.wakeUp ChildPoint.wake set s.child, main := .release }
        (by simp [main, hmain, htest, signal, hset]) rfl rfl (by simp [mainRank, hmain]) ?_
      exact total_wakeUp_le (weight_wake_le _) _ _
    | _ =>
      refine h.advances_main hin set { broadcast s with main := .release }
        (by simp [main, hmain, htest]) rfl rfl (by simp [mainRank, hmain]) ?_
      exact total_wakeUp_le (weight_wake_le _) _ _
  | release =>
    refine h.advances_main hin ∅ { s with
      mtx := none, main := .join (c.test.program.joinOrder (c.kids s.scenar)) 0 }
      (by simp [main, hmain]) rfl rfl ?_ le_rfl
    have hlength := c.length_joinOrder_le s.scenar
    simp only [mainRank, hmain]
    omega
  | join rest ret =>
    obtain ⟨rfl, hsubset, -⟩ := h.joined rest ret hmain
    cases rest with
    | nil => exact absurd hmain hnot
    | cons i rest => exact h.advances_join hmain (hsubset List.mem_cons_self)

/-- Every state of a scenario leads to the end of the scenario, where all children are joined. -/
theorem Inv.exists_joined (h : Inv c s) (hin : s.main.inScenario) :
    ∃ s', (program c).Leads s s' ∧ Inv c s' ∧ s'.scenar = s.scenar ∧ s'.main = .join [] 0 := by
  have hstep : ∀ state, (Inv c state ∧ state.main.inScenario ∧ state.scenar = s.scenar) →
      ¬ state.main = .join [] 0 → ∃ move state', (program c).next state move = some state' ∧
        (Inv c state' ∧ state'.main.inScenario ∧ state'.scenar = s.scenar) ∧
        remaining c state' < remaining c state := by
    rintro state ⟨hinv, hmain, hscenar⟩ hnot
    obtain ⟨move, state', hnext, hinv', hmain', hscenar', hless⟩ := hinv.advances hmain hnot
    exact ⟨move, state', hnext, ⟨hinv', hmain', hscenar'.trans hscenar⟩, hless⟩
  obtain ⟨s', hleads, ⟨hinv', -, hscenar'⟩, hgoal⟩ :=
    System.exists_leads_of_measure (remaining c) hstep ⟨h, hin, rfl⟩
  exact ⟨s', hleads, hinv', hscenar', hgoal⟩

end OpenPosix.CondVars.Wakeup

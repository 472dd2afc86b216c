import OpenPosix.Interleaving.ThreadPool
import OpenPosix.SharedMemory.CreateModel

/-!
# Every object is counted once

Two facts meet in the invariant `Running`. For each name one `shm_open` succeeds, so the number of
names that exist is the number of successful calls; and the semaphore lets one process at a time
read the counter and write it back, so no update is lost. Together: the counter, and the processes
that have created an object and have not counted it yet, add up to the number of names that exist
(`Running.count`). A child that has gone through its loop has seen every name exist, so with one
child at least all names exist in the end.

`create_count` is the result. The loops are bounded, and every step leaves less to do
(`State.weight`).
-/

namespace OpenPosix.SharedMemory.Create

open Interleaving Verdicts

variable {n nloop : ℕ} {s s' : State n} {k : Fin n} {move : Move n} {point : ChildPoint}
  {objects : List (List Char)} {createCnt : ℕ}

attribute [simp] State.put

/-! ### The names -/

theorem shmName_injective : Function.Injective shmName := by
  intro i j h
  have hdigits : Nat.toDigits 10 i = Nat.toDigits 10 j := List.append_cancel_left h
  rw [← Nat.ofDigitChars_ten_toDigits (n := i), hdigits, Nat.ofDigitChars_ten_toDigits]

/-- Three digits fit the buffer. -/
theorem sprintf_eq_some {i : ℕ} (h : i < 1000) : sprintf i = some (shmName i) := by
  refine if_pos ?_
  have hdigits : (Nat.toDigits 10 i).length ≤ 3 :=
    (Nat.length_toDigits_le_iff (by decide) (by decide)).mpr h
  have hname : (shmName i).length = 16 + (Nat.toDigits 10 i).length := List.length_append
  rw [hname, nameSize]
  omega

/-- How many of the names exist. -/
def created (nloop : ℕ) (objects : List (List Char)) : ℕ :=
  ((Finset.range nloop).filter fun i ↦ objects.contains (shmName i)).card

theorem created_eq (nloop : ℕ) (objects : List (List Char)) :
    created nloop objects = ((Finset.range nloop).filter fun i ↦ shmName i ∈ objects).card :=
  congrArg Finset.card (Finset.filter_congr fun _ _ ↦ List.contains_iff_mem)

theorem created_eq_zero (h : ∀ i < nloop, shmName i ∉ objects) : created nloop objects = 0 := by
  rw [created_eq, Finset.card_eq_zero, Finset.filter_eq_empty_iff]
  exact fun i hi ↦ h i (Finset.mem_range.mp hi)

theorem created_eq_self (h : ∀ i < nloop, shmName i ∈ objects) : created nloop objects = nloop := by
  rw [created_eq, Finset.filter_true_of_mem fun i hi ↦ h i (Finset.mem_range.mp hi),
    Finset.card_range]

theorem created_cons {i : ℕ} (hi : i < nloop) (hnew : shmName i ∉ objects) :
    created nloop (shmName i :: objects) = created nloop objects + 1 := by
  have hinsert : ((Finset.range nloop).filter fun j ↦ shmName j ∈ shmName i :: objects) =
      insert i ((Finset.range nloop).filter fun j ↦ shmName j ∈ objects) := by
    ext j
    simp only [Finset.mem_filter, Finset.mem_range, Finset.mem_insert, List.mem_cons,
      shmName_injective.eq_iff]
    constructor
    · rintro ⟨hj, rfl | hmem⟩
      · exact .inl rfl
      · exact .inr ⟨hj, hmem⟩
    · rintro (rfl | ⟨hj, hmem⟩)
      · exact ⟨hi, .inl rfl⟩
      · exact ⟨hj, .inr hmem⟩
  rw [created_eq, hinsert, Finset.card_insert_of_notMem, created_eq]
  exact fun hmem ↦ hnew (Finset.mem_filter.mp hmem).2

/-! ### The children -/

@[simp] def ChildPoint.seen (nloop : ℕ) : ChildPoint → ℕ
  | .unborn | .sleep | .overflow => 0
  | .test i | .shmOpen i _ => i
  | .wait i | .load i | .store i _ | .post i | .nanosleep i => i + 1
  | .exited | .reaped => nloop

/-- The child has created an object and has not counted it. -/
def ChildPoint.uncounted : ChildPoint → ℕ
  | .wait _ | .load _ | .store _ _ => 1
  | _ => 0

def ChildPoint.holds : ChildPoint → ℕ
  | .load _ | .store _ _ | .post _ => 1
  | _ => 0

structure ChildOk (nloop : ℕ) (objects : List (List Char)) (createCnt : ℕ) (point : ChildPoint) :
    Prop where
  seen : ∀ i < point.seen nloop, shmName i ∈ objects
  name : ∀ i name, point = .shmOpen i name → i < nloop ∧ name = shmName i
  value : ∀ i value, point = .store i value → value = createCnt
  fits : point ≠ .overflow

/-- The invariant until the last child is reaped. -/
structure Running (nloop : ℕ) (s : State n) : Prop where
  child : ∀ k, ChildOk nloop s.objects s.createCnt (s.child k)
  count : s.createCnt + total ChildPoint.uncounted s.child = created nloop s.objects
  sem : s.sem + total ChildPoint.holds s.child = 1

theorem ChildOk.mono {objects' : List (List Char)} {createCnt' : ℕ}
    (h : ChildOk nloop objects createCnt point) (hsub : objects ⊆ objects')
    (hvalue : ∀ i value, point = .store i value → value = createCnt') :
    ChildOk nloop objects' createCnt' point :=
  ⟨fun i hi ↦ hsub (h.seen i hi), h.name, hvalue, h.fits⟩

/-- One child moves. Assumes: objects are only added, the balance of the counter and that of the
semaphore are kept, and no other child has read a counter that changes. -/
theorem Running.update {sem : ℕ} (h : Running nloop s) (hsub : s.objects ⊆ objects)
    (hchild : ChildOk nloop objects createCnt point)
    (hvalue : ∀ j ≠ k, ∀ i value, s.child j = .store i value → value = createCnt)
    (hcount : createCnt + point.uncounted + created nloop s.objects =
      s.createCnt + (s.child k).uncounted + created nloop objects)
    (hsem : sem + point.holds = s.sem + (s.child k).holds) :
    Running nloop
      { s.put k point with objects := objects, sem := sem, createCnt := createCnt } where
  child j := by
    by_cases heq : j = k
    · subst heq
      simpa using hchild
    · simpa [heq] using (h.child j).mono hsub (hvalue j heq)
  count := by
    have hmove := total_update ChildPoint.uncounted s.child k point
    have hold := h.count
    dsimp only [State.put]
    omega
  sem := by
    have hmove := total_update ChildPoint.holds s.child k point
    have hold := h.sem
    dsimp only [State.put]
    omega

/-- A child moves and changes nothing else. -/
theorem Running.put (h : Running nloop s) (hchild : ChildOk nloop s.objects s.createCnt point)
    (hcount : point.uncounted = (s.child k).uncounted) (hsem : point.holds = (s.child k).holds) :
    Running nloop (s.put k point) :=
  h.update (List.Subset.refl _) hchild (fun j _ ↦ (h.child j).value) (by rw [hcount]) (by rw [hsem])

/-- Nobody else holds the semaphore. -/
theorem Running.not_holds {j : Fin n} (h : Running nloop s) (hk : (s.child k).holds = 1)
    (hne : j ≠ k) : (s.child j).holds = 0 := by
  have hpair := pair_le_total ChildPoint.holds s.child hne
  have hsem := h.sem
  omega

/-- The test of the loop, and the name of the next object. -/
theorem Running.test {i : ℕ} (hloop : nloop ≤ 1000) (h : Running nloop s)
    (hpoint : s.child k = .test i) (hnext : childFunc nloop s k = some s') : Running nloop s' := by
  have hk := h.child k
  rw [hpoint] at hk
  simp only [childFunc, hpoint] at hnext
  split at hnext
  case isTrue hi =>
    rw [sprintf_eq_some (hi.trans_le hloop)] at hnext
    cases hnext
    refine h.put ⟨hk.seen, ?_, by simp, by simp⟩ (by rw [hpoint]; rfl) (by rw [hpoint]; rfl)
    rintro _ _ ⟨⟩
    exact ⟨hi, rfl⟩
  case isFalse hi =>
    cases hnext
    refine h.put ⟨fun j hj ↦ hk.seen j ?_, by simp, by simp, by simp⟩ (by rw [hpoint]; rfl)
      (by rw [hpoint]; rfl)
    exact hj.trans_le (not_lt.mp hi)

/-- The object exists, or the child creates it. -/
theorem Running.shmOpen {i : ℕ} {name : List Char} (h : Running nloop s)
    (hpoint : s.child k = .shmOpen i name) (hnext : childFunc nloop s k = some s') :
    Running nloop s' := by
  have hk := h.child k
  rw [hpoint] at hk
  obtain ⟨hi, rfl⟩ := hk.name i name rfl
  have hseen {objects : List (List Char)} (hsub : s.objects ⊆ objects)
      (hmem : shmName i ∈ objects) (j : ℕ) (hj : j < i + 1) : shmName j ∈ objects := by
    rcases Nat.lt_succ_iff_lt_or_eq.mp hj with hlt | rfl
    · exact hsub (hk.seen j hlt)
    · exact hmem
  simp only [childFunc, hpoint] at hnext
  split at hnext
  case isTrue hmem =>
    cases hnext
    exact h.put ⟨hseen (List.Subset.refl _) hmem, by simp, by simp, by simp⟩ (by rw [hpoint]; rfl)
      (by rw [hpoint]; rfl)
  case isFalse hnew =>
    cases hnext
    have hsub := List.subset_cons_self (shmName i) s.objects
    refine h.update hsub ⟨hseen hsub List.mem_cons_self, by simp, by simp, by simp⟩
      (fun j _ ↦ (h.child j).value) ?_ (by rw [hpoint]; rfl)
    rw [created_cons hi hnew, hpoint]
    simp only [ChildPoint.uncounted, State.put]
    omega

/-- The child that has read the counter holds the semaphore, so nobody else has read it. -/
theorem Running.store {i value : ℕ} (h : Running nloop s) (hpoint : s.child k = .store i value)
    (hnext : childFunc nloop s k = some s') : Running nloop s' := by
  have hheld : (s.child k).holds = 1 := by rw [hpoint]; rfl
  have hk := h.child k
  rw [hpoint] at hk
  obtain rfl := hk.value i value rfl
  simp only [childFunc, hpoint] at hnext
  cases hnext
  refine h.update (List.Subset.refl _) ⟨hk.seen, by simp, by simp, by simp⟩
    (fun j hne i value hstore ↦ ?_) (by rw [hpoint]; rfl) (by rw [hpoint]; rfl)
  have hfree := h.not_holds hheld hne
  rw [hstore] at hfree
  exact absurd hfree Nat.one_ne_zero

theorem Running.childFunc (hloop : nloop ≤ 1000) (h : Running nloop s)
    (hnext : childFunc nloop s k = some s') : Running nloop s' := by
  have hk := h.child k
  cases hpoint : s.child k with
  | test i => exact h.test hloop hpoint hnext
  | shmOpen i name => exact h.shmOpen hpoint hnext
  | store i value => exact h.store hpoint hnext
  | unborn | exited | reaped | overflow => simp [Create.childFunc, hpoint] at hnext
  | sleep | nanosleep i =>
    simp only [Create.childFunc, hpoint] at hnext hk
    cases hnext
    exact h.put ⟨hk.seen, by simp, by simp, by simp⟩ (by rw [hpoint]; rfl) (by rw [hpoint]; rfl)
  | load i =>
    simp only [Create.childFunc, hpoint] at hnext hk
    cases hnext
    refine h.put ⟨hk.seen, by simp, ?_, by simp⟩ (by rw [hpoint]; rfl) (by rw [hpoint]; rfl)
    rintro _ _ ⟨⟩
    rfl
  | wait i =>
    simp only [Create.childFunc, hpoint] at hnext hk
    obtain ⟨value, hwait, rfl⟩ := Option.map_eq_some_iff.mp hnext
    refine h.update (List.Subset.refl _) ⟨hk.seen, by simp, by simp, by simp⟩
      (fun j _ ↦ (h.child j).value) (by rw [hpoint]; rfl) ?_
    rw [hpoint, semWait_eq_some_iff.mp hwait]
    rfl
  | post i =>
    simp only [Create.childFunc, hpoint] at hnext hk
    cases hnext
    exact h.update (List.Subset.refl _) ⟨hk.seen, by simp, by simp, by simp⟩
      (fun j _ ↦ (h.child j).value) (by rw [hpoint]; rfl) (by rw [hpoint]; rfl)

/-- A child neither starts nor undoes its start, and leaves `main` where it is. -/
theorem frame_childFunc (hnext : childFunc nloop s k = some s') :
    s'.main = s.main ∧ ∀ j, s'.child j = .unborn ↔ s.child j = .unborn := by
  have hput {point : ChildPoint} (hold : s.child k ≠ .unborn) (hnew : point ≠ .unborn) (j : Fin n) :
      Function.update s.child k point j = .unborn ↔ s.child j = .unborn := by
    by_cases heq : j = k
    · simp [heq, hold, hnew]
    · simp [heq]
  have hold : s.child k ≠ .unborn := fun hunborn ↦ by
    simp [childFunc, hunborn] at hnext
  unfold childFunc at hnext
  split at hnext
  case h_1 | h_2 | h_3 | h_4 => cases hnext
  case h_8 =>
    obtain ⟨value, -, rfl⟩ := Option.map_eq_some_iff.mp hnext
    exact ⟨rfl, hput hold (by simp)⟩
  case h_6 =>
    split at hnext
    · split at hnext
      all_goals
        cases hnext
        exact ⟨rfl, hput hold (by simp)⟩
    · cases hnext
      exact ⟨rfl, hput hold (by simp)⟩
  case h_7 =>
    split at hnext
    all_goals
      cases hnext
      exact ⟨rfl, hput hold (by simp)⟩
  all_goals
    cases hnext
    exact ⟨rfl, hput hold (by simp)⟩

/-- When the last child has ended, every name exists and every object has been counted. -/
theorem Running.createCnt_eq (hpos : 0 < n) (h : Running nloop s)
    (hreaped : ∀ k, s.child k = .reaped) : s.createCnt = nloop := by
  have huncounted : total ChildPoint.uncounted s.child = 0 :=
    total_eq_zero fun k ↦ by rw [hreaped k]; rfl
  have hall : ∀ i < nloop, shmName i ∈ s.objects := by
    have hseen := (h.child ⟨0, hpos⟩).seen
    rwa [hreaped] at hseen
  have hcount := h.count
  rwa [huncounted, created_eq_self hall] at hcount

/-! ### The program -/

/-- `main` removes the objects, compares, or has returned `PTS_PASS`. -/
def MainPoint.Last (point : MainPoint n) : Prop :=
  (∃ i, point = .unlink i) ∨ point = .compare ∨ point = .returned ptsPass

/-- The invariant, by how far `main` has come. -/
inductive Inv (nloop : ℕ) (s : State n) : Prop
  | forking {children : List (Fin n)} (main : s.main = .fork children)
    (covers : (Launcher.mk children []).Covers fun k ↦ s.child k = .unborn)
    (running : Running nloop s)
  | waiting (main : s.main = .wait) (born : ∀ k, s.child k ≠ .unborn) (running : Running nloop s)
  | last (main : s.main.Last) (reaped : ∀ k, s.child k = .reaped) (count : s.createCnt = nloop)

theorem inv_start (n : ℕ) (h : ∀ i < nloop, shmName i ∉ objects) : Inv nloop (start n objects) := by
  refine .forking rfl ⟨fun k ↦ iff_of_true rfl (List.mem_finRange k), List.nodup_finRange n⟩ ?_
  refine ⟨fun k ↦ ⟨by simp [start], by simp [start], by simp [start], by simp [start]⟩, ?_, ?_⟩
  · have hnone : total ChildPoint.uncounted (start n objects).child = 0 :=
      total_eq_zero fun _ ↦ rfl
    rw [hnone]
    exact (created_eq_zero h).symm
  · have hnone : total ChildPoint.holds (start n objects).child = 0 := total_eq_zero fun _ ↦ rfl
    rw [hnone]
    rfl

theorem Inv.childFunc (hloop : nloop ≤ 1000) (h : Inv nloop s)
    (hnext : childFunc nloop s k = some s') : Inv nloop s' := by
  obtain ⟨hsame, hunborn⟩ := frame_childFunc hnext
  cases h with
  | forking hmain hcovers hrunning =>
    exact .forking (hsame.trans hmain) (hcovers.congr hunborn) (hrunning.childFunc hloop hnext)
  | waiting hmain hborn hrunning =>
    exact .waiting (hsame.trans hmain) (fun j ↦ mt (hunborn j).mp (hborn j))
      (hrunning.childFunc hloop hnext)
  | last _ hreaped _ => simp [Create.childFunc, hreaped] at hnext

theorem Inv.reap (h : Inv nloop s) (hnext : reap s k = some s') : Inv nloop s' := by
  obtain ⟨⟨hwait, hexited⟩, ⟨⟩⟩ := Option.ite_none_right_eq_some.mp hnext
  cases h with
  | forking hmain _ _ => simp [hmain] at hwait
  | waiting hmain hborn hrunning =>
    have hk := hrunning.child k
    rw [hexited] at hk
    refine .waiting hmain (fun j ↦ ?_) (hrunning.put ⟨hk.seen, by simp, by simp, by simp⟩ ?_ ?_)
    · by_cases heq : j = k
      · simp [heq]
      · simpa [heq] using hborn j
    all_goals rw [hexited]; rfl
  | last _ hreaped _ => simp [hreaped] at hexited

theorem Inv.main (hpos : 0 < n) (hloop : nloop ≤ 1000) (h : Inv nloop s)
    (hnext : main nloop s = some s') : Inv nloop s' := by
  cases h with
  | @forking children hmain hcovers hrunning =>
    cases children with
    | nil =>
      simp only [Create.main, hmain] at hnext
      cases hnext
      have hborn (k : Fin n) : s.child k ≠ .unborn := fun hunborn ↦
        List.not_mem_nil ((hcovers.unborn_iff k).mp hunborn)
      exact .waiting rfl hborn ⟨hrunning.child, hrunning.count, hrunning.sem⟩
    | cons k rest =>
      simp only [Create.main, hmain] at hnext
      cases hnext
      have hunborn : s.child k = .unborn := (hcovers.unborn_iff k).mpr List.mem_cons_self
      have hput : Running nloop (s.put k .sleep) := by
        refine hrunning.put ⟨by simp, by simp, by simp, by simp⟩ ?_ ?_
        all_goals rw [hunborn]; rfl
      refine .forking rfl (hcovers.create rfl ?_ (fun j hne ↦ ?_) []) ⟨hput.child, hput.count,
        hput.sem⟩
      · simp
      · simp [hne]
  | waiting hmain _ hrunning =>
    simp only [Create.main, hmain] at hnext
    split_ifs at hnext with hreaped
    cases hnext
    have hcount : s.createCnt = nloop := hrunning.createCnt_eq hpos hreaped
    exact .last (.inl ⟨0, rfl⟩) hreaped hcount
  | last hmain hreaped hcount =>
    obtain ⟨i, hmain⟩ | hmain | hmain := hmain
    · simp only [Create.main, hmain] at hnext
      split at hnext
      · rename_i hi
        rw [sprintf_eq_some (hi.trans_le hloop)] at hnext
        cases hnext
        exact .last (.inl ⟨i + 1, rfl⟩) hreaped hcount
      · cases hnext
        exact .last (.inr (.inl rfl)) hreaped hcount
    · simp only [Create.main, hmain, if_neg (not_not_intro hcount)] at hnext
      cases hnext
      exact .last (.inr (.inr rfl)) hreaped hcount
    · simp [Create.main, hmain] at hnext

theorem inv_of_reachable (hpos : 0 < n) (hloop : nloop ≤ 1000)
    (h : (program n nloop).Reachable s) : Inv nloop s := by
  refine h.invariant (fun s hinit ↦ ?_) fun s move s' _ hinv hnext ↦ ?_
  · obtain ⟨objects, hnew, rfl⟩ := hinit
    exact inv_start n hnew
  · cases move with
    | main => exact hinv.main hpos hloop hnext
    | child k => exact hinv.childFunc hloop hnext
    | reap k => exact hinv.reap hnext

/-! ### The end of the program -/

/-- A process that waits for the semaphore waits for the one that holds it. -/
theorem Running.exists_enabled (h : Running nloop s) (hmain : s.main = .wait)
    (hborn : s.child k ≠ .unborn) (hk : s.child k ≠ .reaped) :
    ∃ move, (program n nloop).Enabled s move := by
  have hstep (j : Fin n) (hj : (s.child j).holds = 1) : (program n nloop).Enabled s (.child j) := by
    change (Create.childFunc nloop s j).isSome = true
    unfold Create.childFunc
    cases hpoint : s.child j with
    | load | store | post => rfl
    | _ =>
      rw [hpoint] at hj
      exact absurd hj Nat.zero_ne_one
  cases hpoint : s.child k with
  | unborn => exact absurd hpoint hborn
  | reaped => exact absurd hpoint hk
  | overflow => exact absurd hpoint (h.child k).fits
  | exited =>
    refine ⟨.reap k, ?_⟩
    change (Create.reap s k).isSome = true
    rw [Create.reap, if_pos ⟨hmain, hpoint⟩]
    rfl
  | wait i =>
    cases hsem : s.sem with
    | succ value =>
      refine ⟨.child k, ?_⟩
      change (Create.childFunc nloop s k).isSome = true
      simp [Create.childFunc, hpoint, hsem]
    | zero =>
      have htotal := h.sem
      rw [hsem, Nat.zero_add] at htotal
      obtain ⟨j, hj⟩ := exists_pos_of_total_pos (htotal ▸ Nat.one_pos)
      exact ⟨.child j, hstep j (by cases hother : s.child j <;> simp_all [ChildPoint.holds])⟩
  | load | store | post => exact ⟨.child k, hstep k (by rw [hpoint]; rfl)⟩
  | sleep | nanosleep =>
    refine ⟨.child k, ?_⟩
    change (Create.childFunc nloop s k).isSome = true
    simp [Create.childFunc, hpoint]
  | test i =>
    refine ⟨.child k, ?_⟩
    change (Create.childFunc nloop s k).isSome = true
    simp only [Create.childFunc, hpoint]
    split
    · split <;> rfl
    · rfl
  | shmOpen i name =>
    refine ⟨.child k, ?_⟩
    change (Create.childFunc nloop s k).isSome = true
    simp only [Create.childFunc, hpoint]
    split <;> rfl

theorem Inv.exists_enabled (h : Inv nloop s) (hmain : ∀ code, s.main ≠ .returned code) :
    ∃ move, (program n nloop).Enabled s move := by
  cases h with
  | @forking children hfork _ _ =>
    refine ⟨.main, ?_⟩
    change (Create.main nloop s).isSome = true
    cases children <;> simp [Create.main, hfork]
  | waiting hwait hborn hrunning =>
    by_cases hreaped : ∀ k, s.child k = .reaped
    · refine ⟨.main, ?_⟩
      change (Create.main nloop s).isSome = true
      simp [Create.main, hwait, hreaped]
    · obtain ⟨k, hk⟩ := not_forall.mp hreaped
      exact hrunning.exists_enabled hwait (hborn k) hk
  | last hlast _ _ =>
    refine ⟨.main, ?_⟩
    change (Create.main nloop s).isSome = true
    obtain ⟨i, hlast⟩ | hlast | hlast := hlast
    · simp only [Create.main, hlast]
      split
      · split <;> rfl
      · rfl
    · simp [Create.main, hlast]
    · exact absurd hlast (hmain ptsPass)

/-- The steps a child has left, when no other process creates an object before it. -/
@[simp] def ChildPoint.weight (nloop : ℕ) : ChildPoint → ℕ
  | .unborn => 7 * nloop + 4
  | .sleep => 7 * nloop + 3
  | .test i => 7 * (nloop - i) + 2
  | .shmOpen i _ => 7 * (nloop - (i + 1)) + 8
  | .wait i => 7 * (nloop - (i + 1)) + 7
  | .load i => 7 * (nloop - (i + 1)) + 6
  | .store i _ => 7 * (nloop - (i + 1)) + 5
  | .post i => 7 * (nloop - (i + 1)) + 4
  | .nanosleep i => 7 * (nloop - (i + 1)) + 3
  | .exited => 1
  | .reaped | .overflow => 0

@[simp] def MainPoint.weight (nloop : ℕ) : MainPoint n → ℕ
  | .fork children => nloop + 5 + children.length
  | .wait => nloop + 4
  | .unlink i => nloop - i + 3
  | .compare => 1
  | .returned _ | .overflow => 0

def State.weight (nloop : ℕ) (s : State n) : ℕ :=
  s.main.weight nloop + total (ChildPoint.weight nloop) s.child

theorem weight_childFunc (hnext : childFunc nloop s k = some s') :
    s'.main = s.main ∧ ∃ point, s'.child = Function.update s.child k point ∧
      point.weight nloop < (s.child k).weight nloop := by
  unfold childFunc at hnext
  split at hnext
  case h_1 | h_2 | h_3 | h_4 => cases hnext
  case h_8 hpoint =>
    obtain ⟨value, -, rfl⟩ := Option.map_eq_some_iff.mp hnext
    exact ⟨rfl, _, rfl, by simp [hpoint]⟩
  case h_6 hpoint =>
    split at hnext
    · rename_i hi
      split at hnext
      all_goals
        cases hnext
        refine ⟨rfl, _, rfl, ?_⟩
        simp only [hpoint, ChildPoint.weight]
        omega
    · cases hnext
      refine ⟨rfl, _, rfl, ?_⟩
      simp only [hpoint, ChildPoint.weight]
      omega
  case h_7 hpoint =>
    split at hnext
    all_goals
      cases hnext
      exact ⟨rfl, _, rfl, by simp [hpoint]⟩
  all_goals
    rename_i hpoint
    cases hnext
    exact ⟨rfl, _, rfl, by simp [hpoint]⟩

theorem weight_put {s : State n} (h : point.weight nloop < (s.child k).weight nloop) :
    total (ChildPoint.weight nloop) (Function.update s.child k point) <
      total (ChildPoint.weight nloop) s.child := by
  have hmove := total_update (ChildPoint.weight nloop) s.child k point
  omega

theorem weight_main (hnext : main nloop s = some s') :
    s'.main.weight nloop < s.main.weight nloop := by
  unfold main at hnext
  split at hnext
  case h_3 hmain =>
    split_ifs at hnext
    cases hnext
    simp [hmain]
  case h_4 hmain =>
    split at hnext
    · split at hnext
      all_goals
        cases hnext
        simp only [hmain, MainPoint.weight]
        omega
    · cases hnext
      simp [hmain]
  case h_6 | h_7 => cases hnext
  all_goals
    rename_i hmain
    cases hnext
    simp [hmain]

/-- `main` leaves the children alone, or starts one of them. -/
theorem Inv.total_main_le (h : Inv nloop s) (hnext : Create.main nloop s = some s') :
    total (ChildPoint.weight nloop) s'.child ≤ total (ChildPoint.weight nloop) s.child := by
  unfold Create.main at hnext
  split at hnext
  case h_2 k rest hmain =>
    cases hnext
    cases h with
    | @forking children hfork hcovers _ =>
      obtain rfl : k :: rest = children := by simpa [hmain] using hfork
      have hunborn : s.child k = .unborn := (hcovers.unborn_iff k).mpr List.mem_cons_self
      exact (weight_put (by simp [hunborn])).le
    | waiting hwait _ _ => simp [hmain] at hwait
    | last hlast _ _ => simp [hmain, MainPoint.Last] at hlast
  case h_3 =>
    split_ifs at hnext
    cases hnext
    exact le_rfl
  case h_4 =>
    split at hnext
    · split at hnext
      all_goals
        cases hnext
        exact le_rfl
    · cases hnext
      exact le_rfl
  case h_6 | h_7 => cases hnext
  all_goals
    cases hnext
    exact le_rfl

theorem Inv.weight_lt (h : Inv nloop s) (hnext : (program n nloop).next s move = some s') :
    s'.weight nloop < s.weight nloop := by
  cases move with
  | main => exact Nat.add_lt_add_of_lt_of_le (weight_main hnext) (h.total_main_le hnext)
  | child k =>
    obtain ⟨hsame, point, hchild, hless⟩ := weight_childFunc hnext
    rw [State.weight, State.weight, hsame, hchild]
    exact Nat.add_lt_add_left (weight_put hless) _
  | reap k =>
    obtain ⟨⟨-, hexited⟩, ⟨⟩⟩ := Option.ite_none_right_eq_some.mp hnext
    exact Nat.add_lt_add_left (weight_put (by simp [hexited])) _

/-! ### The result -/

/-- Assumes: at least one process, and no more than a thousand objects, so that every name fits its
buffer. When all children have been reaped, the counter is the number of the objects. `main` returns
nothing but `PTS_PASS`, and it does return: until then some process has a step, and only so many
steps can follow. -/
theorem create_count (hpos : 0 < n) (hloop : nloop ≤ 1000)
    (h : (program n nloop).Reachable s) :
    ((∀ k, s.child k = .reaped) → s.createCnt = nloop) ∧
      (∀ code, s.main = .returned code → code = ptsPass) ∧
      ((∀ code, s.main ≠ .returned code) → ∃ move, (program n nloop).Enabled s move) ∧
      ∃ bound, ∀ schedule last,
        (program n nloop).runSchedule s schedule = some last → schedule.length ≤ bound := by
  have hinv := inv_of_reachable hpos hloop h
  refine ⟨fun hreaped ↦ ?_, fun code hcode ↦ ?_, hinv.exists_enabled, s.weight nloop, ?_⟩
  · cases hinv with
    | forking _ _ hrunning | waiting _ _ hrunning => exact hrunning.createCnt_eq hpos hreaped
    | last _ _ hcount => exact hcount
  · cases hinv with
    | forking hmain _ _ | waiting hmain _ _ => simp [hcode] at hmain
    | last hmain _ _ => simpa [hcode, MainPoint.Last] using hmain
  · intro schedule last hrun
    refine System.length_le_of_measure (State.weight nloop)
      (fun state move state' hreach hnext ↦ ?_) h hrun
    exact ⟨hreach.step hnext, (inv_of_reachable hpos hloop hreach).weight_lt hnext⟩

/-- Two processes and one object. The first process creates it and counts it in nine steps; the
second one finds it and needs five. -/
def twoProcesses : List (Move 2) :=
  List.flatten [.replicate 3 .main,
    (List.finRange 2).flatMap fun k ↦ .replicate (9 - 4 * k.val) (.child k),
    (List.finRange 2).map .reap, .replicate 4 .main]

theorem create_count_twoProcesses : ∃ s,
    (program 2 1).runSchedule (start 2 []) twoProcesses = some s ∧
      (∀ k, s.child k = .reaped) ∧ s.createCnt = 1 ∧ s.main = .returned ptsPass := by
  obtain ⟨s, hrun, hreaped, hcode⟩ : ∃ s,
      (program 2 1).runSchedule (start 2 []) twoProcesses = some s ∧
        (∀ k, s.child k = .reaped) ∧ s.main = .returned ptsPass :=
    System.exists_of_replay (by decide +kernel)
  have hinitial := System.reachable_of_initial (P := program 2 1)
    ⟨[], fun _ _ ↦ List.not_mem_nil, rfl⟩
  obtain ⟨hcount, -⟩ := create_count (by decide) (by decide) (hinitial.runSchedule hrun)
  exact ⟨s, hrun, hreaped, hcount hreaped, hcode⟩

end OpenPosix.SharedMemory.Create

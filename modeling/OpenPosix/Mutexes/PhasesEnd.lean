import OpenPosix.Mutexes.PhasesInvariant

/-!
# When `main` destroys the mutexes

After its last phase `main` of `stress/threads/pthread_mutex_lock/s-c1.c` destroys the mutexes
`mtx`, the condition variable and `m`, one after the other. A thread counts itself before it
releases its mutex and signals, so the counters alone do not say that the threads are done. The
signal does: if `main` returns from its last wait because of it, all threads have exited (`Left`). A
spurious wake-up between the last count and the signal lets `main` go on earlier.

Here all locks of `mtx` succeed.
-/

namespace OpenPosix.Mutexes.Phases

open Interleaving

variable {n : ℕ}

/-! ### The end of `main` -/

inductive Object
  | mtx (i : ℕ)
  | cnd
  | m
  deriving DecidableEq, Repr

def objects : List Object := (List.range phases).map .mtx ++ [.cnd, .m]

/-- The state of the phases, and the number of objects that are destroyed. -/
structure EndState (n : ℕ) where
  inner : State n
  destroyed : ℕ

inductive EndMove (n : ℕ)
  | step (move : Move n)
  | destroy
  deriving DecidableEq

def always (_ : Fin n) (_ : ℕ) : Bool := true

def endNext (s : EndState n) : EndMove n → Option (EndState n)
  | .step move => (next always s.inner move).map fun inner ↦ { s with inner := inner }
  | .destroy =>
    if s.inner.main = .ended ∧ s.destroyed < objects.length then
      some { s with destroyed := s.destroyed + 1 }
    else none

def endProgram (n : ℕ) : System (EndState n) (EndMove n) where
  Initial := fun s ↦ s = ⟨start n, 0⟩
  next := endNext

/-- The object that the next call of a thread is for. -/
def ThreadPoint.object : ThreadPoint → Option Object
  | .lock i | .unlock i _ => some (.mtx i)
  | .lockM _ _ | .unlockM _ _ _ => some .m
  | .signal _ => some .cnd
  | _ => none

def ThreadPoint.holdsObject (point : ThreadPoint) : Object → Bool
  | .mtx i => point.holds i
  | .m => point.holdsM
  | .cnd => false

/-- A thread will still make a call for the object. -/
def WillUse (s : State n) (k : Fin n) (object : Object) : Prop :=
  ∃ s', ((program always).restrict Move.ofThread).Leads s s' ∧ (s'.thread k).object = some object

/-- If `main` destroys an object now, no thread holds it or will still use it. -/
def DestroysSafely (s : EndState n) : Prop :=
  s.inner.main = .ended → ∀ object, objects[s.destroyed]? = some object → ∀ k,
    (s.inner.thread k).holdsObject object = false ∧ ¬ WillUse s.inner k object

/-- `main` returns from its last wait, and the thread that has counted last has not signalled. -/
def premature (s : EndState n) (move : EndMove n) : Bool :=
  move = .step (.thread .main) && s.inner.main = .woken (phases - 1) &&
    decide (∃ k, s.inner.thread k = .unlock (phases - 1) true ∨
      s.inner.thread k = .signal (phases - 1))

/-! ### What the counters say -/

/-- Of the threads that have still to release the last mutex, given its counter: `bool` is false
only if the counter is not complete. -/
def ThreadPoint.fine (n count : ℕ) : ThreadPoint → Prop
  | .lockM _ success | .incr _ success | .test _ success => success = true
  | .unlockM i success bool => success = true ∧ (i + 1 = phases → bool = false → count < n)
  | .unlock i bool => i + 1 = phases → bool = false → count < n
  | _ => True

/-- `main` has returned from its last wait. -/
def Leaves (s : State n) : Prop :=
  s.main = .test (phases - 1) ∧ n ≤ s.count (phases - 1) ∨ s.main = .unlockM ∨ s.main = .ended

/-- All threads have exited when `main` has returned from its last wait. -/
structure Left (s : State n) : Prop where
  inv : Inv always s
  fine : ∀ k, (s.thread k).fine n (s.count (phases - 1))
  exited : Leaves s → ∀ k, s.thread k = .exited

variable {s s' : State n} {k : Fin n}

theorem leaves_wake (h : Leaves { s with main := s.main.wake }) : Leaves s := by
  unfold Leaves at h ⊢
  cases hmain : s.main <;> simp_all [State.count]

theorem left_start : Left (start n) :=
  ⟨inv_start, fun _ ↦ trivial, by simp [Leaves, start]⟩

/-- Assumes: a thread that has not exited goes to another point. -/
theorem Left.goto (h : Left s) {point : ThreadPoint} (hinv : Inv always s')
    (hthread : s'.thread = Function.update s.thread k point)
    (hothers : ∀ j ≠ k, (s.thread j).fine n (s'.count (phases - 1)))
    (hfine : point.fine n (s'.count (phases - 1))) (hleaves : Leaves s' → Leaves s)
    (hstays : s.thread k ≠ .exited) : Left s' := by
  refine ⟨hinv, ?_, fun hleft ↦ absurd (h.exited (hleaves hleft) k) hstays⟩
  rw [hthread]
  exact (Function.forall_update_iff s.thread fun _ point ↦ point.fine n _).mpr ⟨hfine, hothers⟩

theorem fine_endOfPhase (i count : ℕ) : (endOfPhase i).fine n count := by
  unfold endOfPhase
  split_ifs <;> trivial

theorem fine_afterUnlock (i count : ℕ) (bool : Bool) : (afterUnlock i bool).fine n count := by
  cases bool with
  | true => trivial
  | false => exact fine_endOfPhase i count

/-- Only a thread that holds the last mutex depends on its counter. -/
theorem fine_of_not_holds {point : ThreadPoint} {count : ℕ} (count' : ℕ)
    (h : point.fine n count) (hholds : point.holds (phases - 1) = false) :
    point.fine n count' := by
  cases point with
  | unlockM i success bool =>
    obtain ⟨rfl, -⟩ := h
    refine ⟨rfl, fun hlast ↦ absurd hholds ?_⟩
    simp [ThreadPoint.holds, ← hlast]
  | unlock i bool =>
    refine fun hlast ↦ absurd hholds ?_
    simp [ThreadPoint.holds, ← hlast]
  | _ => exact h

theorem Left.incr (h : Left s) {i : ℕ} {success : Bool} (hpoint : s.thread k = .incr i success) :
    Left ((s.incr i success).goto k (.test i success)) := by
  obtain rfl : success = true := by simpa [hpoint, ThreadPoint.fine] using h.fine k
  have hcount : ∀ j ≠ i, ((s.incr i true).goto k (.test i true)).count j = s.count j := by
    intro j hj
    simp [State.incr, State.count, hj]
  refine h.goto (h.inv.incr hpoint) rfl (fun j hj ↦ ?_) rfl (fun hleft ↦ ?_) (by simp [hpoint])
  · by_cases hlast : phases - 1 = i
    · -- The thread holds the last mutex, so no other thread does.
      refine fine_of_not_holds _ (h.fine j) (Bool.eq_false_iff.mpr fun hholds ↦ hj ?_)
      have hheld : Holds s (phases - 1) (.thread k) := by
        simp [hpoint, ThreadPoint.holds, hlast]
      have hheld' : Holds s (phases - 1) (.thread j) := hholds
      simpa using (h.inv.owned _ (by decide)).unique hheld' hheld
    · rw [hcount _ hlast]
      exact h.fine j
  · -- `main` does not hold `m`.
    obtain ⟨hmain, -⟩ | hleaves := hleft
    · have hheld : HoldsM s (.thread k) := by simp [hpoint, ThreadPoint.holdsM]
      have hmain' : HoldsM s .main := by
        have hmain : s.main = .test (phases - 1) := hmain
        simp [hmain, MainPoint.holdsM]
      exact absurd (h.inv.ownedM.unique hheld hmain') (by simp)
    · exact .inr hleaves

theorem Left.threaded (h : Left s) (hstep : threaded always s k = some s') : Left s' := by
  have hinv := h.inv.threaded hstep
  have hfine := h.fine k
  unfold Phases.threaded at hstep
  cases hpoint : s.thread k <;> simp only [hpoint, reduceCtorEq] at hstep <;> rw [hpoint] at hfine
  case lock i =>
    obtain ⟨hfree, rfl⟩ := map_mutexLock_eq_some_iff.mp hstep
    exact h.goto hinv rfl (fun j _ ↦ h.fine j) rfl id (by simp [hpoint])
  case lockM i success =>
    obtain ⟨hfree, rfl⟩ := map_mutexLock_eq_some_iff.mp hstep
    exact h.goto hinv rfl (fun j _ ↦ h.fine j) hfine id (by simp [hpoint])
  case incr i success =>
    cases hstep
    exact h.incr hpoint
  case test i success =>
    cases hstep
    refine h.goto hinv rfl (fun j _ ↦ h.fine j) ⟨hfine, fun hlast hbool ↦ ?_⟩ id (by simp [hpoint])
    obtain rfl : i = phases - 1 := by omega
    have hless : s.count (phases - 1) < s.nbthTOT := by simpa using hbool
    have hcreated := h.inv.created
    exact hless.trans_le (by omega)
  case unlockM i success bool =>
    cases hstep
    obtain ⟨rfl, hbool⟩ := hfine
    exact h.goto hinv rfl (fun j _ ↦ h.fine j) hbool id (by simp [hpoint])
  case unlock i bool =>
    cases hstep
    exact h.goto hinv rfl (fun j _ ↦ h.fine j) (fine_afterUnlock i _ bool) id (by simp [hpoint])
  case signal i =>
    cases hstep
    exact h.goto hinv rfl (fun j _ ↦ h.fine j) (fine_endOfPhase i _) (leaves_wake (s := s))
      (by simp [hpoint])

/-- Assumes: the counter of the last mutex is complete, no thread holds `m`, and the thread that has
counted last has signalled. Then all threads have exited. -/
theorem Left.exited_of_full (h : Left s) (hfull : n ≤ s.count (phases - 1)) (hfree : s.m = none)
    (hsignalled : s.thread k ≠ .unlock (phases - 1) true ∧ s.thread k ≠ .signal (phases - 1)) :
    s.thread k = .exited := by
  have hfine := h.fine k
  have hrange := h.inv.inRange.2 k
  have hnotM := h.inv.ownedM.not_holds hfree (.thread k)
  have hcounted : (s.thread k).counted (phases - 1) ≠ 0 := by
    intro hzero
    have hless := h.inv.count_lt (by decide) hzero
    omega
  cases hpoint : s.thread k <;>
    simp only [hpoint, HoldsBy, ThreadPoint.holdsM, ThreadPoint.fine, ThreadPoint.inRange,
      ThreadPoint.counted, not_true_eq_false] at hnotM hfine hrange hcounted hsignalled
  case exited => rfl
  case unlock i bool =>
    obtain rfl : i = phases - 1 := by
      split_ifs at hcounted <;> omega
    cases bool with
    | true => exact absurd rfl hsignalled.1
    | false =>
      have hless := hfine rfl rfl
      omega
  case signal i =>
    obtain rfl : i = phases - 1 := by
      split_ifs at hcounted <;> omega
    exact absurd rfl hsignalled.2
  case unborn => exact absurd rfl hcounted
  all_goals split_ifs at hcounted <;> omega

/-- Assumes: a step of `main` that creates no thread. -/
theorem Left.mainGoto (h : Left s) (hinv : Inv always s') (hthread : s'.thread = s.thread)
    (hcount : s'.count = s.count) (hexited : Leaves s' → ∀ k, s.thread k = .exited) : Left s' := by
  refine ⟨hinv, ?_, ?_⟩
  · rw [hthread, hcount]
    exact h.fine
  · rw [hthread]
    exact hexited

theorem Left.main (h : Left s) (hstep : main s = some s')
    (hsignalled : s.main = .woken (phases - 1) → ∀ k,
      s.thread k ≠ .unlock (phases - 1) true ∧ s.thread k ≠ .signal (phases - 1)) : Left s' := by
  have hinv := h.inv.main hstep
  unfold Phases.main at hstep
  cases hmain : s.main <;> simp only [hmain, reduceCtorEq] at hstep
  case create rest =>
    cases rest with
    | nil =>
      cases hstep
      exact h.mainGoto hinv rfl rfl (by simp [Leaves])
    | cons k rest =>
      cases hstep
      have hunborn : s.thread k = .unborn := (h.inv.unborn k).mpr (by simp [hmain, MainPoint.rest])
      exact h.goto hinv rfl (fun j _ ↦ h.fine j) trivial (by simp [Leaves]) (by simp [hunborn])
  case lockM =>
    obtain ⟨-, rfl⟩ := map_mutexLock_eq_some_iff.mp hstep
    exact h.mainGoto hinv rfl rfl (by simp [Leaves])
  case woken i =>
    obtain ⟨hfree, rfl⟩ := map_mutexLock_eq_some_iff.mp hstep
    refine h.mainGoto hinv rfl rfl fun hleft k ↦ ?_
    obtain ⟨rfl, hfull⟩ : i = phases - 1 ∧ n ≤ s.count (phases - 1) := by
      simpa [Leaves, State.count] using hleft
    exact h.exited_of_full hfull hfree (hsignalled hmain k)
  case test i =>
    cases hstep
    refine h.mainGoto hinv rfl rfl fun hleft ↦ h.exited ?_
    have hrange : i < phases := h.inv.main_inRange hmain
    have hcreated := h.inv.created
    rw [hmain] at hcreated
    simp only [MainPoint.rest, MainPoint.uncounted, List.length_nil] at hcreated
    split_ifs at hleft with hless hnext
    · simp [Leaves] at hleft
    · simp [Leaves] at hleft
    · obtain rfl : i = phases - 1 := by omega
      exact .inl ⟨hmain, by omega⟩
  case unlockM =>
    cases hstep
    exact h.mainGoto hinv rfl rfl fun _ ↦ h.exited (.inr (.inl hmain))
  all_goals
    cases hstep
    exact h.mainGoto hinv rfl rfl (by simp [Leaves])

/-! ### Every run -/

/-- A step that is not premature. -/
theorem Left.endNext (e : EndState n) (h : Left e.inner) {e' : EndState n} {move : EndMove n}
    (hstep : endNext e move = some e') (hsteps : premature e move = false) : Left e'.inner := by
  cases move with
  | step move =>
    obtain ⟨inner, hnext, rfl⟩ := Option.map_eq_some_iff.mp hstep
    cases move with
    | thread thread =>
      cases thread with
      | main =>
        refine h.main hnext fun hwoken ↦ ?_
        simpa [premature, hwoken] using hsteps
      | thread k => exact h.threaded hnext
    | spurious =>
      have hinv := h.inv.next hnext
      simp only [next] at hnext
      split_ifs at hnext
      cases hnext
      exact h.mainGoto hinv rfl rfl fun hleft ↦ h.exited (leaves_wake hleft)
  | destroy =>
    simp only [Phases.endNext] at hstep
    split_ifs at hstep
    cases hstep
    exact h

/-- Once all threads have exited, none of them makes a step. -/
theorem exited_of_leads (h : ((program always).restrict Move.ofThread).Leads s s')
    (hexited : ∀ k, s.thread k = .exited) : ∀ k, s'.thread k = .exited := by
  induction h with
  | refl => exact hexited
  | tail _ hstep ih =>
    obtain ⟨move, hnext⟩ := hstep
    obtain ⟨hallowed, hnext⟩ := System.restrict_next_eq_some_iff.mp hnext
    obtain ⟨k, rfl⟩ : ∃ k, move = .thread (.thread k) := by
      cases move with
      | thread thread => cases thread <;> simp_all [Move.ofThread]
      | spurious => simp [Move.ofThread] at hallowed
    simp [program, next, threaded, ih k] at hnext

/-- In every run in which `main` does not return from its last wait before the thread that has
counted last has signalled, no thread holds or will still use what `main` destroys. -/
theorem destroys_safely {trace : List (EndState n × EndMove n)} {s : EndState n}
    (hrun : (endProgram n).Exec trace s)
    (hsteps : ∀ step ∈ trace, premature step.1 step.2 = false) : DestroysSafely s := by
  have hleft : Left s.inner := by
    induction hrun with
    | start hinitial =>
      obtain rfl : _ = _ := hinitial
      exact left_start
    | step _ hnext ih =>
      exact (ih fun step hmem ↦ hsteps step (List.mem_append_left _ hmem)).endNext _ hnext
        (hsteps (_, _) (by simp))
  intro hended object _ k
  have hexited := hleft.exited (.inr (.inr hended))
  refine ⟨?_, fun ⟨s', hleads, huses⟩ ↦ ?_⟩
  · rw [hexited k]
    cases object <;> rfl
  · rw [exited_of_leads hleads hexited k] at huses
    simp [ThreadPoint.object] at huses

def mainSteps (count : ℕ) : List (EndMove n) := List.replicate count (.step (.thread .main))

def threadSteps (k : Fin n) (count : ℕ) : List (EndMove n) :=
  List.replicate count (.step (.thread (.thread k)))

/-- The steps of `main` up to the last wait, and the given ones of its threads in each phase. -/
def fourPhases (steps : List (EndMove n)) : List (EndMove n) :=
  mainSteps (2 * n + 4) ++ (List.replicate 4 (steps ++ mainSteps 4)).flatten

/-- Two threads, and `main` wakes up spuriously in the last phase before the second one has counted
itself, and is then woken by its signal: it destroys the fifth mutex safely. -/
theorem destroys_safely_signalled : ∃ s, (endProgram 2).Reachable s ∧ s.inner.main = .ended ∧
    s.destroyed = 4 ∧ DestroysSafely s := by
  have hreplay : ∃ s, (endProgram 2).runSchedule ⟨start 2, 0⟩
      (fourPhases (threadSteps 0 6 ++ threadSteps 1 7) ++ threadSteps 0 6 ++
        .step .spurious :: mainSteps 3 ++ threadSteps 1 7 ++ mainSteps 3 ++
          List.replicate 4 .destroy) = some s ∧
        s.inner.main = .ended ∧ s.destroyed = 4 := System.exists_of_replay (by decide +kernel)
  obtain ⟨s, hrun, hmain, hdestroyed⟩ := hreplay
  have hexec := (System.Exec.start (P := endProgram 2) rfl).runSchedule hrun
  exact ⟨s, ⟨_, hexec⟩, hmain, hdestroyed, destroys_safely hexec (by decide +kernel)⟩

/-- One thread, and `main` wakes up spuriously after the thread has counted itself for the last
time: it destroys the mutex that the thread holds. -/
theorem destroys_held : ∃ s, (endProgram 1).Reachable s ∧ ¬ DestroysSafely s := by
  obtain ⟨s, hreach, hmain, hdestroyed, hheld⟩ : ∃ s, (endProgram 1).Reachable s ∧
      s.inner.main = .ended ∧ s.destroyed = 4 ∧ (s.inner.thread 0).holds 4 = true :=
    System.exists_reachable (fourPhases (threadSteps 0 7) ++ threadSteps 0 5 ++ .step .spurious ::
      mainSteps 3 ++ List.replicate 4 .destroy) rfl (by decide +kernel)
  refine ⟨s, hreach, fun hsafe ↦ ?_⟩
  have hfree := (hsafe hmain (.mtx 4) (by rw [hdestroyed]; rfl) 0).1
  simp [ThreadPoint.holdsObject, hheld] at hfree

end OpenPosix.Mutexes.Phases

import OpenPosix.Interleaving.ThreadPool
import OpenPosix.Threads.CreateModel

/-!
# Who owns `m_synchro`, and how many threads have counted themselves

`Inv` holds in every run of the scalability test, whatever the first `pthread_create` of a scenario
returns: a created thread owns `m_synchro` exactly inside its update of `ctl`, `main` owns it at
least from each lock to the next unlock, and inside a scenario `ctl` and the threads that have not
counted themselves add up to the threads created. When the check of `ctl` lets `main` go on, every
thread has therefore left `m_synchro` for good (`Inv.quiet`).
-/

namespace OpenPosix.Threads.Create

open Interleaving

/-- Between a lock and an unlock of `m_synchro` by `main`. -/
@[simp] def MainPoint.holds : MainPoint → Bool
  | .reset | .createFirst | .createNext | .waitSem | .unlock | .readCtl | .unlockCheck => true
  | _ => false

/-- From the first creation of a scenario to the check of `ctl` that ends it. -/
@[simp] def MainPoint.counting : MainPoint → Bool
  | .createNext | .waitSem | .unlock | .join _ | .lockCheck | .readCtl | .unlockCheck => true
  | _ => false

/-- Between the lock and the unlock of `m_synchro`. -/
def ChildPoint.holds : ChildPoint → Bool
  | .readCtl | .writeCtl _ | .unlock => true
  | _ => false

def ChildPoint.uncounted : ChildPoint → Bool
  | .post | .lock | .readCtl | .writeCtl _ => true
  | _ => false

/-- After the unlock of `m_synchro`. -/
@[simp] def ChildPoint.left : ChildPoint → Bool
  | .ret | .exited => true
  | _ => false

theorem ChildPoint.left_iff {child : ChildPoint} :
    child.left = true ↔ child.uncounted = false ∧ child.holds = false := by
  cases child <;> simp [left, uncounted, holds]

/-- The thread with this number owns `m_synchro` as far as its own point says. -/
def Holds (s : State) (n : ℕ) : Prop := ∃ child, s.children[n]? = some child ∧ child.holds = true

structure Inv (s : State) : Prop where
  main : s.point.holds = true → s.mSynchro = some .main
  child : ∀ n : ℕ, s.mSynchro = some (.child n) ↔ Holds s n
  coherent : ∀ n value : ℕ, s.children[n]? = some (.writeCtl value) → value = s.ctl
  fresh : s.point = .createFirst → s.ctl = 0 ∧ s.nthreads = 0
  counted : s.point.counting = true →
    s.ctl + s.children.countP ChildPoint.uncounted = s.nthreads + 1
  seen : s.point = .unlockCheck → s.tmp = s.ctl
  quiet : s.point.counting = false → ∀ child ∈ s.children, child.left = true

variable {c : Config} {s s' : State} {n : ℕ} {child child' : ChildPoint}

theorem Inv.not_holds (h : Inv s) (hmain : ∀ n, s.mSynchro ≠ some (.child n)) (n : ℕ) :
    ¬ Holds s n :=
  fun hholds ↦ hmain n ((h.child n).mpr hholds)

/-! ### Steps of the created threads -/

/-- What a step of a created thread does. It goes to another point; on the way it may take or leave
`m_synchro`, or write `ctl`. -/
structure ChildStep (n : ℕ) (s s' : State) (child child' : ChildPoint) : Prop where
  before : s.children[n]? = some child
  after : s'.children = s.children.set n child'
  point : s'.point = s.point
  sc : s'.sc = s.sc
  nthreads : s'.nthreads = s.nthreads
  tmp : s'.tmp = s.tmp
  owner : child'.holds = child.holds ∧ s'.mSynchro = s.mSynchro ∨
    child'.holds = true ∧ s.mSynchro = none ∧ s'.mSynchro = some (.child n) ∨
    child.holds = true ∧ child'.holds = false ∧ s'.mSynchro = none
  ctl : s'.ctl = s.ctl ∧ child'.uncounted = child.uncounted ∨
    ∃ value, child = .writeCtl value ∧ s'.ctl = value + 1 ∧ child' = .unlock
  reads : ∀ value, child' = .writeCtl value → value = s'.ctl
  left : child.left = true → child'.left = true

theorem lockSynchro_eq_some_iff {owner : Owner} : lockSynchro owner s = some s' ↔
    s.mSynchro = none ∧ { s with mSynchro := some owner } = s' := by
  simp [lockSynchro]

theorem childStep_of_threaded (hnext : threaded n s = some s') :
    ∃ child child', ChildStep n s s' child child' := by
  unfold threaded at hnext
  cases hchild : s.children[n]? with
  | none => simp [hchild] at hnext
  | some child =>
    cases child with
    | exited => simp [hchild] at hnext
    | lock =>
      simp only [hchild, Option.map_eq_some_iff, lockSynchro_eq_some_iff] at hnext
      obtain ⟨_, ⟨hfree, rfl⟩, rfl⟩ := hnext
      exact ⟨.lock, .readCtl, hchild, rfl, rfl, rfl, rfl, rfl, .inr (.inl ⟨rfl, hfree, rfl⟩),
        .inl ⟨rfl, rfl⟩, by simp, by simp⟩
    | writeCtl value =>
      rw [hchild] at hnext
      cases hnext
      exact ⟨.writeCtl value, .unlock, hchild, rfl, rfl, rfl, rfl, rfl, .inl ⟨rfl, rfl⟩,
        .inr ⟨value, rfl, rfl, rfl⟩, by simp, by simp⟩
    | unlock =>
      rw [hchild] at hnext
      cases hnext
      exact ⟨.unlock, .ret, hchild, rfl, rfl, rfl, rfl, rfl, .inr (.inr ⟨rfl, rfl, rfl⟩),
        .inl ⟨rfl, rfl⟩, by simp, by simp⟩
    | post | ret =>
      rw [hchild] at hnext
      cases hnext
      exact ⟨_, _, hchild, rfl, rfl, rfl, rfl, rfl, .inl ⟨rfl, rfl⟩, .inl ⟨rfl, rfl⟩, by simp,
        by simp⟩
    | readCtl =>
      rw [hchild] at hnext
      cases hnext
      exact ⟨.readCtl, .writeCtl s.ctl, hchild, rfl, rfl, rfl, rfl, rfl, .inl ⟨rfl, rfl⟩,
        .inl ⟨rfl, rfl⟩, by simp, by simp⟩

theorem ChildStep.lt_length (h : ChildStep n s s' child child') : n < s.children.length :=
  (List.getElem?_eq_some_iff.mp h.before).1

theorem ChildStep.getElem?_self (h : ChildStep n s s' child child') :
    s'.children[n]? = some child' := by
  rw [h.after, List.getElem?_set_self h.lt_length]

theorem ChildStep.getElem?_of_ne {m : ℕ} (h : ChildStep n s s' child child') (hne : m ≠ n) :
    s'.children[m]? = s.children[m]? := by
  rw [h.after, List.getElem?_set_ne (Ne.symm hne)]

theorem ChildStep.holds_self (h : ChildStep n s s' child child') :
    (Holds s n ↔ child.holds = true) ∧ (Holds s' n ↔ child'.holds = true) := by
  simp [Holds, h.before, h.getElem?_self]

theorem ChildStep.holds_of_ne {m : ℕ} (h : ChildStep n s s' child child') (hne : m ≠ n) :
    Holds s' m ↔ Holds s m := by
  simp [Holds, h.getElem?_of_ne hne]

theorem Inv.child_step (h : Inv s) (hstep : ChildStep n s s' child child') (m : ℕ) :
    s'.mSynchro = some (.child m) ↔ Holds s' m := by
  obtain ⟨hself, hself'⟩ := hstep.holds_self
  have hother : m ≠ n → (Holds s' m ↔ s.mSynchro = some (.child m)) :=
    fun hne ↦ (hstep.holds_of_ne hne).trans (h.child m).symm
  obtain ⟨hsame, howner⟩ | ⟨hholds, hfree, howner⟩ | ⟨hholds, hleaves, howner⟩ := hstep.owner
  · by_cases hne : m = n
    · subst hne
      rw [howner, h.child m, hself, hself', hsame]
    · rw [howner, hother hne]
  · by_cases hne : m = n
    · subst hne
      exact iff_of_true howner (hself'.mpr hholds)
    · rw [howner, hother hne, hfree]
      simp [Ne.symm hne]
  · have hbefore : s.mSynchro = some (.child n) := (h.child n).mpr (hself.mpr hholds)
    by_cases hne : m = n
    · subst hne
      rw [howner, hself', hleaves]
      simp
    · rw [howner, hother hne, hbefore]
      simp [Ne.symm hne]

theorem Inv.coherent_step (h : Inv s) (hstep : ChildStep n s s' child child') (m value : ℕ)
    (hm : s'.children[m]? = some (.writeCtl value)) : value = s'.ctl := by
  by_cases hne : m = n
  · subst hne
    rw [hstep.getElem?_self] at hm
    exact hstep.reads value (Option.some.inj hm)
  rw [hstep.getElem?_of_ne hne] at hm
  obtain ⟨hctl, -⟩ | ⟨written, rfl, -, -⟩ := hstep.ctl
  · rw [hctl]
    exact h.coherent m value hm
  · -- Two threads would own the mutex at once.
    have hn := (h.child n).mpr ⟨_, hstep.before, rfl⟩
    have hm := (h.child m).mpr ⟨_, hm, rfl⟩
    exact absurd (hm.symm.trans hn) (by simp [hne])

/-- While `main` owns `m_synchro` no thread takes or leaves it, or writes `ctl`. -/
theorem Inv.same_of_main (h : Inv s) (hstep : ChildStep n s s' child child')
    (howner : s.mSynchro = some .main) : s'.mSynchro = s.mSynchro ∧ s'.ctl = s.ctl := by
  have hnot : child.holds = false := by
    by_contra hholds
    exact h.not_holds (by simp [howner]) n ⟨child, hstep.before, by simpa using hholds⟩
  constructor
  · obtain ⟨-, hsame⟩ | ⟨-, hfree, -⟩ | ⟨hholds, -⟩ := hstep.owner
    · exact hsame
    · simp [howner] at hfree
    · simp [hnot] at hholds
  · obtain ⟨hsame, -⟩ | ⟨value, rfl, -⟩ := hstep.ctl
    · exact hsame
    · simp [ChildPoint.holds] at hnot

theorem Inv.threaded (h : Inv s) (hnext : Create.threaded n s = some s') : Inv s' := by
  obtain ⟨child, child', hstep⟩ := childStep_of_threaded hnext
  have hmem : child ∈ s.children := List.mem_of_getElem? hstep.before
  have hmain : s.mSynchro = some .main → s'.ctl = s.ctl :=
    fun howner ↦ (h.same_of_main hstep howner).2
  refine ⟨fun hholds ↦ ?_, h.child_step hstep, h.coherent_step hstep, fun hpoint ↦ ?_,
    fun hcounting ↦ ?_, fun hpoint ↦ ?_, fun hcounting other hother ↦ ?_⟩
  · have howner := h.main (hstep.point ▸ hholds)
    exact (h.same_of_main hstep howner).1.trans howner
  · rw [hstep.point] at hpoint
    rw [hmain (h.main (by rw [hpoint]; rfl)), hstep.nthreads]
    exact h.fresh hpoint
  · have hcount := countP_set ChildPoint.uncounted child' hstep.before
    have hbefore := h.counted (hstep.point ▸ hcounting)
    rw [← hstep.after] at hcount
    rw [hstep.nthreads]
    obtain ⟨hctl, hsame⟩ | ⟨value, rfl, hctl, rfl⟩ := hstep.ctl
    · rw [hsame] at hcount
      omega
    · have hvalue := h.coherent n value hstep.before
      simp only [ChildPoint.uncounted, Bool.toNat_true, Bool.toNat_false] at hcount
      omega
  · rw [hstep.point] at hpoint
    rw [hmain (h.main (by rw [hpoint]; rfl)), hstep.tmp]
    exact h.seen hpoint
  · have hquiet := h.quiet (hstep.point ▸ hcounting)
    rw [hstep.after] at hother
    obtain hold | rfl := List.mem_or_eq_of_mem_set hother
    · exact hquiet other hold
    · exact hstep.left (hquiet child hmem)

/-! ### Steps of `main` -/

variable {point : MainPoint}

/-- `main` moves on, and keeps what it owns. -/
theorem Inv.goto (h : Inv s) (hholds : point.holds = true → s.mSynchro = some .main)
    (hcounting : point.counting = s.point.counting) (hfresh : point ≠ .createFirst)
    (hseen : point ≠ .unlockCheck) : Inv (s.goto point) :=
  ⟨hholds, h.child, h.coherent, fun hpoint ↦ absurd hpoint hfresh,
    fun hpoint ↦ h.counted (hcounting ▸ hpoint), fun hpoint ↦ absurd hpoint hseen,
    fun hpoint ↦ h.quiet (hcounting ▸ hpoint)⟩

theorem Inv.lock (h : Inv s) (hfree : s.mSynchro = none)
    (hcounting : point.counting = s.point.counting) (hfresh : point ≠ .createFirst)
    (hseen : point ≠ .unlockCheck) : Inv { s with mSynchro := some .main, point := point } := by
  have hnone := h.not_holds (by simp [hfree])
  exact ⟨fun _ ↦ rfl, fun n ↦ iff_of_false (by simp) (hnone n), h.coherent,
    fun hpoint ↦ absurd hpoint hfresh, fun hpoint ↦ h.counted (hcounting ▸ hpoint),
    fun hpoint ↦ absurd hpoint hseen, fun hpoint ↦ h.quiet (hcounting ▸ hpoint)⟩

/-- `main` unlocks `m_synchro`, which it owns. -/
theorem Inv.unlock (h : Inv s) (howner : s.mSynchro = some .main) (hholds : point.holds = false)
    (hcounting : point.counting = true → s.point.counting = true)
    (hquiet : point.counting = false → ∀ child ∈ s.children, child.left = true) :
    Inv { s with mSynchro := none, point := point } := by
  have hnone := h.not_holds (by simp [howner])
  refine ⟨fun hpoint ↦ ?_, fun n ↦ iff_of_false (by simp) (hnone n), h.coherent, fun hpoint ↦ ?_,
    fun hpoint ↦ h.counted (hcounting hpoint), fun hpoint ↦ ?_, hquiet⟩
  · exact absurd (hpoint.symm.trans hholds) (by simp)
  · obtain rfl : point = .createFirst := hpoint
    simp at hholds
  · obtain rfl : point = .unlockCheck := hpoint
    simp at hholds

/-- Assumes: `main` owns `m_synchro`. It creates a thread, which has not counted itself. -/
theorem Inv.create {nthreads child : ℕ} {th : ℕ → ℕ} (h : Inv s) (howner : s.mSynchro = some .main)
    (hcounting : point.counting = true)
    (hcounted : s.ctl + s.children.countP ChildPoint.uncounted = nthreads)
    (hseen : point ≠ .unlockCheck) : Inv { s with
      nthreads := nthreads, child := child, th := th, children := s.children ++ [.post],
      point := point } := by
  have hnone := h.not_holds (by simp [howner])
  have hget : ∀ {n : ℕ} {child : ChildPoint}, (s.children ++ [.post])[n]? = some child →
      child = .post ∨ s.children[n]? = some child := by
    intro n child hchild
    obtain hn | hn := Nat.lt_or_ge n s.children.length
    · exact .inr (List.getElem?_append_left hn ▸ hchild)
    · rw [List.getElem?_append_right hn] at hchild
      exact .inl (by simpa using List.mem_of_getElem? hchild)
  refine ⟨fun _ ↦ howner, fun n ↦ iff_of_false (by simp [howner]) ?_, fun n value hchild ↦ ?_,
    fun hpoint ↦ ?_, fun _ ↦ ?_, fun hpoint ↦ absurd hpoint hseen, fun hpoint ↦ ?_⟩
  · rintro ⟨other, hother, hholds⟩
    obtain rfl | hold := hget hother
    · simp [ChildPoint.holds] at hholds
    · exact hnone n ⟨other, hold, hholds⟩
  · obtain hpost | hold := hget hchild
    · simp at hpost
    · exact h.coherent n value hold
  · obtain rfl : point = .createFirst := hpoint
    simp at hcounting
  · simp only [List.countP_append, List.countP_singleton, ChildPoint.uncounted, if_true]
    omega
  · exact absurd (hcounting.symm.trans hpoint) (by simp)

/-- A check of `ctl` that finds all threads counted, made while `main` owns `m_synchro`: every
thread has left it. -/
theorem Inv.left_of_counted (h : Inv s) (howner : s.mSynchro = some .main)
    (hcounting : s.point.counting = true) (hctl : s.ctl = s.nthreads + 1) :
    ∀ child ∈ s.children, child.left = true := by
  intro child hmem
  have hcounted := h.counted hcounting
  have hzero : s.children.countP ChildPoint.uncounted = 0 := by omega
  obtain ⟨n, hn⟩ := List.mem_iff_getElem?.mp hmem
  refine ChildPoint.left_iff.mpr ⟨?_, ?_⟩
  · simpa using List.countP_eq_zero.mp hzero child hmem
  · by_contra hholds
    exact h.not_holds (by simp [howner]) n ⟨child, hn, by simpa using hholds⟩

/-- What a step of `main` other than the creation of a further thread does. -/
inductive MainStep (c : Config) (s : State) : State → Prop
  | finish (hpoint : s.point = .loop) : MainStep c s (s.goto .done)
  | skip (hpoint : s.point = .loop) : MainStep c s (s.goto .next)
  | choose {scenario : Scenario} (hpoint : s.point = .loop)
      (hscenario : c.scenarios[s.sc]? = some scenario)
      (hbottom : scenario.bottom c.stackOptions = false) : MainStep c s (s.goto .lockStart)
  | lockStart (hpoint : s.point = .lockStart) (hfree : s.mSynchro = none) :
    MainStep c s { s with mSynchro := some .main, point := .reset }
  | reset (hpoint : s.point = .reset) :
    MainStep c s { s with ctl := 0, nthreads := 0, point := .createFirst }
  | createFirst (hpoint : s.point = .createFirst) :
    MainStep c s { s with
      child := s.children.length, children := s.children ++ [.post], point := .createNext }
  | failFirst (hpoint : s.point = .createFirst) (hfirst : c.first s.sc = false) :
    MainStep c s (s.goto .next)
  | waitSem {sem : ℕ → ℕ} (hpoint : s.point = .waitSem) :
    MainStep c s { s with sem := sem, point := .createNext }
  | unlock {detached : Bool} (hpoint : s.point = .unlock) :
    MainStep c s { s with
      mSynchro := none, point := if detached then .lockCheck else .join 0 }
  | join {i : ℕ} (hpoint : s.point = .join i) :
    MainStep c s (s.goto (if i < s.nthreads then .join (i + 1) else .lockCheck))
  | lockCheck (hpoint : s.point = .lockCheck) (hfree : s.mSynchro = none) :
    MainStep c s { s with mSynchro := some .main, point := .readCtl }
  | readCtl (hpoint : s.point = .readCtl) :
    MainStep c s { s with tmp := s.ctl, point := .unlockCheck }
  | unlockCheck (hpoint : s.point = .unlockCheck) :
    MainStep c s { s with
      mSynchro := none, point := if s.tmp = s.nthreads + 1 then .next else .lockCheck }
  | next (hpoint : s.point = .next) : MainStep c s { s with sc := s.sc + 1, point := .loop }

theorem mainStep_of_main (hnext : main c s = some s') : MainStep c s s' := by
  unfold main at hnext
  cases hpoint : s.point with
  | loop =>
    cases hscenario : c.scenarios[s.sc]? with
    | none =>
      simp only [hpoint, hscenario] at hnext
      exact Option.some.inj hnext ▸ .finish hpoint
    | some scenario =>
      simp only [hpoint, hscenario] at hnext
      cases hnext
      cases hbottom : scenario.bottom c.stackOptions with
      | true => exact .skip hpoint
      | false => exact .choose hpoint hscenario hbottom
  | lockStart =>
    simp only [hpoint, Option.map_eq_some_iff, lockSynchro_eq_some_iff] at hnext
    obtain ⟨_, ⟨hfree, rfl⟩, rfl⟩ := hnext
    exact .lockStart hpoint hfree
  | createFirst =>
    simp only [hpoint] at hnext
    split_ifs at hnext with hfirst
    · exact Option.some.inj hnext ▸ .createFirst hpoint
    · exact Option.some.inj hnext ▸ .failFirst hpoint (by simpa using hfirst)
  | waitSem =>
    simp only [hpoint, Option.map_eq_some_iff] at hnext
    obtain ⟨value, -, rfl⟩ := hnext
    exact .waitSem hpoint
  | unlock =>
    cases hscenario : c.scenarios[s.sc]? with
    | none => simp [hpoint, hscenario] at hnext
    | some scenario =>
      simp only [hpoint, hscenario] at hnext
      exact Option.some.inj hnext ▸ .unlock hpoint
  | join i =>
    simp only [hpoint, Option.ite_none_right_eq_some] at hnext
    exact Option.some.inj hnext.2 ▸ .join hpoint
  | lockCheck =>
    simp only [hpoint, Option.map_eq_some_iff, lockSynchro_eq_some_iff] at hnext
    obtain ⟨_, ⟨hfree, rfl⟩, rfl⟩ := hnext
    exact .lockCheck hpoint hfree
  | createNext | done => simp [hpoint] at hnext
  | reset =>
    rw [hpoint] at hnext
    exact Option.some.inj hnext ▸ .reset hpoint
  | readCtl =>
    rw [hpoint] at hnext
    exact Option.some.inj hnext ▸ .readCtl hpoint
  | unlockCheck =>
    rw [hpoint] at hnext
    exact Option.some.inj hnext ▸ .unlockCheck hpoint
  | next =>
    rw [hpoint] at hnext
    exact Option.some.inj hnext ▸ .next hpoint

theorem Inv.main_step (h : Inv s) (hstep : MainStep c s s') : Inv s' := by
  cases hstep with
  | finish hpoint | skip hpoint | choose hpoint | failFirst hpoint =>
    exact h.goto (by simp) (by rw [hpoint]; rfl) (by simp) (by simp)
  | lockStart hpoint hfree | lockCheck hpoint hfree =>
    exact h.lock hfree (by rw [hpoint]; rfl) (by simp) (by simp)
  | reset hpoint =>
    have howner := h.main (by rw [hpoint]; rfl)
    have hnone := h.not_holds (by simp [howner])
    exact ⟨fun _ ↦ howner, h.child, fun n value hchild ↦ absurd ⟨_, hchild, rfl⟩ (hnone n),
      fun _ ↦ ⟨rfl, rfl⟩, by simp, by simp,
      fun _ ↦ h.quiet (by rw [hpoint]; rfl)⟩
  | createFirst hpoint =>
    obtain ⟨hctl, hnthreads⟩ := h.fresh hpoint
    have hquiet := h.quiet (by rw [hpoint]; rfl)
    have hzero : s.children.countP ChildPoint.uncounted = 0 :=
      List.countP_eq_zero.mpr fun child hmem ↦ by
        simp [(ChildPoint.left_iff.mp (hquiet child hmem)).1]
    exact h.create (h.main (by rw [hpoint]; rfl)) rfl (by omega) (by simp)
  | waitSem hpoint =>
    exact ⟨fun _ ↦ h.main (by rw [hpoint]; rfl), h.child, h.coherent, by simp,
      fun _ ↦ h.counted (by rw [hpoint]; rfl), by simp, by simp⟩
  | @unlock detached hpoint =>
    have howner := h.main (by rw [hpoint]; rfl)
    cases detached <;>
      exact h.unlock howner rfl (fun _ ↦ by rw [hpoint]; rfl) (by simp)
  | join hpoint =>
    split <;> exact h.goto (by simp) (by rw [hpoint]; rfl) (by simp) (by simp)
  | readCtl hpoint =>
    exact ⟨fun _ ↦ h.main (by rw [hpoint]; rfl), h.child, h.coherent, by simp,
      fun _ ↦ h.counted (by rw [hpoint]; rfl), fun _ ↦ rfl, by simp⟩
  | unlockCheck hpoint =>
    have howner := h.main (by rw [hpoint]; rfl)
    have hcounting : s.point.counting = true := by rw [hpoint]; rfl
    by_cases htmp : s.tmp = s.nthreads + 1
    · rw [if_pos htmp]
      exact h.unlock howner rfl (by simp)
        fun _ ↦ h.left_of_counted howner hcounting ((h.seen hpoint).symm.trans htmp)
    · rw [if_neg htmp]
      exact h.unlock howner rfl (fun _ ↦ hcounting) (by simp)
  | next hpoint =>
    exact ⟨by simp, h.child, h.coherent, by simp, by simp,
      by simp, fun _ ↦ h.quiet (by rw [hpoint]; rfl)⟩

theorem Inv.createNext {created : Bool} (h : Inv s)
    (hnext : Create.createNext c created s = some s') : Inv s' := by
  unfold Create.createNext at hnext
  by_cases hpoint : s.point = .createNext
  · have howner := h.main (by rw [hpoint]; rfl)
    have hcounted := h.counted (by rw [hpoint]; rfl)
    rw [if_pos hpoint] at hnext
    cases created with
    | true =>
      simp only [if_true] at hnext
      split at hnext
      · simp at hnext
      · cases hnext
        exact h.create howner (by split <;> rfl) hcounted (by split <;> simp)
    | false =>
      obtain rfl : s.goto .unlock = s' := by simpa using hnext
      exact h.goto (fun _ ↦ howner) (by rw [hpoint]; rfl) (by simp) (by simp)
  · simp [hpoint] at hnext

theorem inv_start : Inv start where
  main := by simp [start]
  child := by simp [start, Holds]
  coherent := by simp [start]
  fresh := by simp [start]
  counted := by simp [start]
  seen := by simp [start]
  quiet := by simp [start]

/-- Assumes: a reachable state. The invariant holds. -/
theorem inv_of_reachable (h : (program c).Reachable s) : Inv s := by
  refine h.invariant (fun s hs ↦ hs ▸ inv_start) fun s thread s' _ hinv hnext ↦ ?_
  cases thread with
  | main => exact hinv.main_step (mainStep_of_main hnext)
  | createNext created => exact hinv.createNext hnext
  | threaded n => exact hinv.threaded hnext

end OpenPosix.Threads.Create

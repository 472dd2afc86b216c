import OpenPosix.Interleaving.ThreadPool

/-!
# Mutexes, condition variables and barriers

A mutex is the thread that holds it, if any. Which threads hold it can also be read off the points
they are at, and `Owned` says that the two agree; it has a rule for each of taking the mutex,
releasing it and doing neither.

A condition variable has no state of its own: a pool of threads waits for it, and whether a thread
is blocked is a matter of its local state. A wake-up moves the blocked threads of a set (`wakeUp`),
and these threads then compete for the mutex. `pthread_cond_broadcast` wakes every blocked thread.
`pthread_cond_signal` wakes some, and at least one if there is one: `Signals` is the choice POSIX
leaves to the implementation. A wake-up of a single thread at any time is a spurious one.

A barrier has no state of its own either: the thread whose arrival makes the number complete does
not wait, and releases the threads that do.
-/

namespace OpenPosix.Interleaving

open Function

section Mutex

variable {Thread : Type*} {mtx mtx' : Option Thread} {me : Thread} {holds holds' : Thread → Prop}

/-- `pthread_mutex_lock` by `me`, which blocks while the mutex is held. -/
def mutexLock (mtx : Option Thread) (me : Thread) : Option (Option Thread) :=
  match mtx with
  | none => some (some me)
  | some _ => none

@[simp] theorem mutexLock_eq_some_iff :
    mutexLock mtx me = some mtx' ↔ mtx = none ∧ mtx' = some me := by
  cases mtx <;> simp [mutexLock, eq_comm]

theorem map_mutexLock_eq_some_iff {α : Type*} {f : Option Thread → α} {result : α} :
    (mutexLock mtx me).map f = some result ↔ mtx = none ∧ f (some me) = result := by
  cases mtx <;> simp [mutexLock]

/-- The mutex is held by the thread whose point says so. -/
def Owned (mtx : Option Thread) (holds : Thread → Prop) : Prop :=
  ∀ thread, mtx = some thread ↔ holds thread

theorem Owned.not_holds (h : Owned mtx holds) (hfree : mtx = none) (thread : Thread) :
    ¬ holds thread :=
  fun hholds ↦ absurd (hfree.symm.trans ((h thread).mpr hholds)) nofun

/-- Two threads do not hold the mutex together. -/
theorem Owned.unique (h : Owned mtx holds) {first second : Thread} (hfirst : holds first)
    (hsecond : holds second) : first = second :=
  Option.some.inj (((h first).mpr hfirst).symm.trans ((h second).mpr hsecond))

theorem Owned.congr (h : Owned mtx holds) (hsame : ∀ thread, holds' thread ↔ holds thread) :
    Owned mtx holds' :=
  fun thread ↦ (h thread).trans (hsame thread).symm

theorem Owned.acquire (h : Owned mtx holds) (hfree : mtx = none) (hme : holds' me)
    (hothers : ∀ thread, thread ≠ me → (holds' thread ↔ holds thread)) :
    Owned (some me) holds' := by
  intro thread
  by_cases heq : thread = me
  · subst heq
    exact iff_of_true rfl hme
  · rw [hothers thread heq]
    exact iff_of_false (fun hsome ↦ heq (Option.some.inj hsome).symm) (h.not_holds hfree thread)

theorem Owned.release (h : Owned mtx holds) (hholds : holds me) (hme : ¬ holds' me)
    (hothers : ∀ thread, thread ≠ me → (holds' thread ↔ holds thread)) : Owned none holds' := by
  intro thread
  refine iff_of_false nofun fun hthread ↦ ?_
  by_cases heq : thread = me
  · exact hme (heq ▸ hthread)
  · exact heq (h.unique ((hothers thread heq).mp hthread) hholds)

/-- A thread makes a step: it holds the mutex, or takes it, or releases it. -/
theorem Owned.move (h : Owned mtx holds) (me : Thread) (hfree : ¬ holds me → mtx = none)
    (hany : holds me ∨ holds' me) (hheld : holds' me → mtx' = some me)
    (hleft : ¬ holds' me → mtx' = none)
    (hothers : ∀ thread, thread ≠ me → (holds' thread ↔ holds thread)) : Owned mtx' holds' := by
  by_cases hafter : holds' me
  · rw [hheld hafter]
    by_cases hbefore : holds me
    · rw [← (h me).mpr hbefore]
      refine h.congr fun thread ↦ ?_
      by_cases heq : thread = me
      · rw [heq]
        exact iff_of_true hafter hbefore
      · exact hothers thread heq
    · exact h.acquire (hfree hbefore) hafter hothers
  · rw [hleft hafter]
    exact h.release (hany.resolve_right hafter) hafter hothers

/-- A thread that holds the mutex or finds it free keeps the others out. -/
theorem Owned.not_holds_of_ne (h : Owned mtx holds) (me : Thread) (hfree : ¬ holds me → mtx = none)
    {thread : Thread} (hne : thread ≠ me) : ¬ holds thread := by
  intro hthread
  by_cases hme : holds me
  · exact hne (h.unique hthread hme)
  · exact h.not_holds (hfree hme) thread hthread

/-! One thread goes to another point: `now` says whether it holds the mutex there. -/

variable [DecidableEq Thread] {now : Prop}

theorem Owned.update_same (h : Owned mtx holds) (hsame : now ↔ holds me) :
    Owned mtx (update holds me now) := by
  refine h.congr fun thread ↦ ?_
  by_cases heq : thread = me
  · subst heq
    rwa [update_self]
  · rw [update_of_ne heq]

theorem Owned.update_acquire (h : Owned mtx holds) (hfree : mtx = none) (hnow : now) :
    Owned (some me) (update holds me now) := by
  refine h.acquire hfree ?_ fun thread hne ↦ by rw [update_of_ne hne]
  rwa [update_self]

theorem Owned.update_release (h : Owned mtx holds) (hholds : holds me) (hnow : ¬ now) :
    Owned none (update holds me now) := by
  refine h.release hholds ?_ fun thread hne ↦ by rw [update_of_ne hne]
  rwa [update_self]

/-- What a step of `me` does to the mutex: nothing, a lock or an unlock. `held` and `now` are what
the points of the thread before and after the step say. -/
inductive Passes (me : Thread) (mtx : Option Thread) (held now : Bool) : Option Thread → Prop
  | keep (hsame : now = held) : Passes me mtx held now mtx
  | take (hfree : mtx = none) (hnow : now = true) : Passes me mtx held now (some me)
  | drop (hheld : held = true) (hnow : now = false) : Passes me mtx held now none

theorem Owned.pass {held now : Bool} (h : Owned mtx holds) (hheld : holds me ↔ held = true)
    (hpass : Passes me mtx held now mtx') : Owned mtx' (update holds me (now = true)) := by
  cases hpass with
  | keep hsame => exact h.update_same (by rw [hsame, hheld])
  | take hfree hnow => exact h.update_acquire hfree hnow
  | drop hbefore hnow => exact h.update_release (hheld.mpr hbefore) (by simp [hnow])

end Mutex

section CondVar

variable {Index Local : Type*}

/-- What `pthread_cond_signal` may wake: blocked threads, and at least one if there is one. -/
def Signals (blocked : Local → Bool) (pool : Index → Local) (set : Finset Index) : Prop :=
  (∀ i ∈ set, blocked (pool i)) ∧ ((∃ i, blocked (pool i)) → set.Nonempty)

instance [Fintype Index] (blocked : Local → Bool) (pool : Index → Local) (set : Finset Index) :
    Decidable (Signals blocked pool set) :=
  inferInstanceAs (Decidable (_ ∧ _))

/-- There is always a choice. -/
theorem exists_signals [Fintype Index] (blocked : Local → Bool) (pool : Index → Local) :
    ∃ set, Signals blocked pool set := by
  refine ⟨Finset.univ.filter fun i ↦ blocked (pool i), fun i hi ↦ (Finset.mem_filter.mp hi).2, ?_⟩
  rintro ⟨i, hi⟩
  exact ⟨i, Finset.mem_filter.mpr ⟨Finset.mem_univ i, hi⟩⟩

variable [DecidableEq Index]

/-- The threads of a set are woken; `wake` leaves a thread alone that is not blocked. -/
def wakeUp (wake : Local → Local) (set : Finset Index) (pool : Index → Local) : Index → Local :=
  fun i ↦ if i ∈ set then wake (pool i) else pool i

theorem wakeUp_eq_or (wake : Local → Local) (set : Finset Index) (pool : Index → Local)
    (i : Index) : wakeUp wake set pool i = pool i ∨ wakeUp wake set pool i = wake (pool i) := by
  unfold wakeUp
  split_ifs
  · exact .inr rfl
  · exact .inl rfl

/-- The wake-up of a single thread. -/
theorem update_wake (wake : Local → Local) (pool : Index → Local) (i : Index) :
    update pool i (wake (pool i)) = wakeUp wake {i} pool := by
  ext1 j
  by_cases heq : j = i
  · subst heq
    simp [wakeUp]
  · simp [wakeUp, heq]

/-- What no wake-up changes about a thread. -/
theorem apply_wakeUp {Value : Type*} {wake : Local → Local} {f : Local → Value}
    (h : ∀ l, f (wake l) = f l) (set : Finset Index) (pool : Index → Local) (i : Index) :
    f (wakeUp wake set pool i) = f (pool i) := by
  rcases wakeUp_eq_or wake set pool i with heq | heq
  · rw [heq]
  · rw [heq, h]

theorem total_wakeUp_le [Fintype Index] {wake : Local → Local} {weight : Local → ℕ}
    (h : ∀ l, weight (wake l) ≤ weight l) (set : Finset Index) (pool : Index → Local) :
    total weight (wakeUp wake set pool) ≤ total weight pool := by
  refine Finset.sum_le_sum fun i _ ↦ ?_
  rcases wakeUp_eq_or wake set pool i with heq | heq
  · rw [heq]
  · rw [heq]
    exact h (pool i)

end CondVar

section Barrier

/-- `pthread_barrier_wait` at a barrier for `count` threads, while `waiting` threads wait at it:
this arrival completes the number. -/
def Completes (count waiting : ℕ) : Prop := waiting + 1 = count

instance (count waiting : ℕ) : Decidable (Completes count waiting) :=
  inferInstanceAs (Decidable (_ = _))

end Barrier

end OpenPosix.Interleaving

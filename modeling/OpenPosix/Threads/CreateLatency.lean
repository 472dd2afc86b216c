import OpenPosix.Threads.CreateResults

/-!
# What the latency of `pthread_create` covers

`main` takes the time before it creates a thread and after it has waited for the semaphore of the
scenario, which every created thread posts. The posts are anonymous, and the first thread of a
scenario, which is created before the loop, posts too, while nobody waits for it: there is always
one post more than `main` has waited for. Of the threads created so far at most one has not posted
when `main` reads the clock for the second time (`Posts`), and that can be the thread whose creation
is measured. `posted_iff` says when it is not.
-/

namespace OpenPosix.Threads.Create

open Interleaving Function

variable {c : Config} {s s' : State} {n : ℕ}

/-- The thread has not posted the semaphore yet. -/
@[simp] def ChildPoint.unposted : ChildPoint → Bool
  | .post => true
  | _ => false

@[simp] def MainPoint.before : MainPoint → Bool
  | .loop | .lockStart | .reset | .createFirst => true
  | _ => false

/-- The number of threads that have not posted. -/
def State.unposted (s : State) : ℕ := s.children.countP ChildPoint.unposted

/-- The creation of a further thread is being measured: `main` is at the wait, or past it and not at
the next creation yet, and reads the clock in between. -/
def State.Measures (s : State) : Prop := s.point = .waitSem ∨ s.point = .createNext ∧ 0 < s.nthreads

/-- The thread whose creation is measured. -/
def State.created (s : State) : ℕ := s.th (s.nthreads - 1)

/-- How the posts and the waits of a scenario balance, and which thread was created last. -/
structure Posts (s : State) : Prop where
  later : ∀ sc, s.sc < sc → s.sem sc = 0
  before : s.point.before = true → s.sem s.sc = 0
  ahead : s.point = .createNext → s.sem s.sc + s.unposted = 1
  due : s.point = .waitSem → s.sem s.sc + s.unposted = 2
  last : s.Measures → s.children.length = s.created + 1

theorem Inv.unposted_eq_zero (h : Inv s) (hcounting : s.point.counting = false) :
    s.unposted = 0 := by
  refine List.countP_eq_zero.mpr fun child hmem ↦ ?_
  have hleft := h.quiet hcounting child hmem
  cases child <;> simp_all

/-! ### Steps -/

/-- What a step of a created thread does to the semaphores: a post moves a unit from the threads
that have not posted to the semaphore of the scenario. -/
structure PostStep (s s' : State) : Prop where
  th : s'.th = s.th
  others : ∀ sc, sc ≠ s.sc → s'.sem sc = s.sem sc
  balance : s'.sem s.sc + s'.unposted = s.sem s.sc + s.unposted
  quiet : s.unposted = 0 → s'.sem s.sc = s.sem s.sc

/-- Assumes: a thread that has posted goes on. -/
theorem postStep_of_posted {child child' : ChildPoint} (hchild : s.children[n]? = some child)
    (hbefore : child.unposted = false) (hafter : child'.unposted = false)
    (hchildren : s'.children = s.children.set n child') (hsem : s'.sem = s.sem)
    (hth : s'.th = s.th) : PostStep s s' := by
  have hcount := countP_set ChildPoint.unposted child' hchild
  rw [hbefore, hafter, ← hchildren] at hcount
  exact ⟨hth, fun _ _ ↦ by rw [hsem], by rw [hsem]; exact congrArg (s.sem s.sc + ·) hcount,
    fun _ ↦ by rw [hsem]⟩

theorem postStep_of_threaded (hnext : threaded n s = some s') : PostStep s s' := by
  unfold threaded at hnext
  cases hchild : s.children[n]? with
  | none => simp [hchild] at hnext
  | some child =>
    cases child with
    | exited => simp [hchild] at hnext
    | post =>
      rw [hchild] at hnext
      cases hnext
      have hcount := countP_set ChildPoint.unposted .lock hchild
      simp only [ChildPoint.unposted, Bool.toNat_true, Bool.toNat_false] at hcount
      refine ⟨rfl, fun sc hne ↦ by simp [hne], ?_, fun hzero ↦ ?_⟩
      · simp only [State.unposted, update_self, semPost_eq]
        omega
      · unfold State.unposted at hzero
        omega
    | lock =>
      simp only [hchild, Option.map_eq_some_iff, lockSynchro_eq_some_iff] at hnext
      obtain ⟨_, ⟨-, rfl⟩, rfl⟩ := hnext
      exact postStep_of_posted hchild rfl rfl rfl rfl rfl
    | readCtl | writeCtl | unlock | ret =>
      rw [hchild] at hnext
      cases hnext
      exact postStep_of_posted hchild rfl rfl rfl rfl rfl

theorem before_not_counting {point : MainPoint} (h : point.before = true) :
    point.counting = false := by
  cases point <;> simp_all

theorem Posts.threaded (h : Posts s) (hinv : Inv s) (hnext : threaded n s = some s') :
    Posts s' := by
  obtain ⟨child, child', hstep⟩ := childStep_of_threaded hnext
  have hpost := postStep_of_threaded hnext
  refine ⟨fun sc hsc ↦ ?_, fun hbefore ↦ ?_, fun hpoint ↦ ?_, fun hpoint ↦ ?_, fun hlast ↦ ?_⟩
  · rw [hstep.sc] at hsc
    rw [hpost.others sc hsc.ne']
    exact h.later sc hsc
  · rw [hstep.point] at hbefore
    rw [hstep.sc, hpost.quiet (hinv.unposted_eq_zero (before_not_counting hbefore))]
    exact h.before hbefore
  · rw [hstep.point] at hpoint
    rw [hstep.sc, hpost.balance]
    exact h.ahead hpoint
  · rw [hstep.point] at hpoint
    rw [hstep.sc, hpost.balance]
    exact h.due hpoint
  · rw [State.Measures, hstep.point, hstep.nthreads] at hlast
    rw [hstep.after, List.length_set, State.created, hpost.th, hstep.nthreads]
    exact h.last hlast

/-- `main` goes to a point of which nothing is known. -/
theorem Posts.goto (h : Posts s) (hsame : s'.sem = s.sem) (hsc : s'.sc = s.sc)
    (hbefore : s'.point.before = true → s.point.before = true) (hnext : s'.point ≠ .createNext)
    (hwait : s'.point ≠ .waitSem) : Posts s' := by
  refine ⟨fun sc hlt ↦ ?_, fun hpoint ↦ ?_, fun hpoint ↦ absurd hpoint hnext,
    fun hpoint ↦ absurd hpoint hwait, fun hlast ↦ ?_⟩
  · rw [hsame]
    exact h.later sc (hsc ▸ hlt)
  · rw [hsame, hsc]
    exact h.before (hbefore hpoint)
  · rcases hlast with hpoint | ⟨hpoint, -⟩
    · exact absurd hpoint hwait
    · exact absurd hpoint hnext

theorem Posts.waitSem (h : Posts s) (hpoint : s.point = .waitSem) (hnext : main c s = some s') :
    Posts s' := by
  simp only [Create.main, hpoint, map_semWait_eq_some_iff] at hnext
  obtain ⟨value, hvalue, rfl⟩ := hnext
  have hdue := h.due hpoint
  refine ⟨fun sc hlt ↦ ?_, by simp, fun _ ↦ ?_, by simp, fun _ ↦ h.last (.inl hpoint)⟩
  · simp only [update_of_ne hlt.ne']
    exact h.later sc hlt
  · simp only [update_self, State.unposted] at hdue ⊢
    omega

theorem Posts.main (h : Posts s) (hinv : Inv s) (hnext : main c s = some s') : Posts s' := by
  cases mainStep_of_main hnext with
  | finish hpoint | skip hpoint | choose hpoint | lockStart hpoint | reset hpoint
  | failFirst hpoint | lockCheck hpoint | readCtl hpoint =>
    exact h.goto rfl rfl (by simp [hpoint]) (by simp) (by simp)
  | createFirst hpoint =>
    have hzero := hinv.unposted_eq_zero (by rw [hpoint]; rfl)
    have hsem := h.before (by rw [hpoint]; rfl)
    have hfresh := (hinv.fresh hpoint).2
    refine ⟨h.later, by simp, fun _ ↦ ?_, by simp, by simp [State.Measures, hfresh]⟩
    simp only [State.unposted, List.countP_append, List.countP_singleton, ChildPoint.unposted]
      at hzero ⊢
    simp [hsem, hzero]
  | waitSem hpoint => exact h.waitSem hpoint hnext
  | unlock | join | unlockCheck =>
    refine h.goto rfl rfl ?_ ?_ ?_ <;> dsimp only [State.goto] <;> split <;> simp
  | next =>
    exact ⟨fun sc hlt ↦ h.later sc (Nat.lt_of_succ_lt hlt), fun _ ↦ h.later _ (Nat.lt_succ_self _),
      by simp, by simp, by simp [State.Measures]⟩

theorem Posts.createNext {created : Bool} (h : Posts s)
    (hnext : createNext c created s = some s') : Posts s' := by
  unfold Create.createNext at hnext
  by_cases hpoint : s.point = .createNext
  · have hahead := h.ahead hpoint
    rw [if_pos hpoint] at hnext
    cases created with
    | true =>
      simp only [if_true] at hnext
      split at hnext
      · simp at hnext
      · cases hnext
        refine ⟨h.later, ?_, ?_, fun _ ↦ ?_, fun _ ↦ ?_⟩
        · dsimp only
          split <;> simp
        · dsimp only
          split <;> simp
        · simp only [State.unposted, List.countP_append, List.countP_singleton,
            ChildPoint.unposted, if_true] at hahead ⊢
          omega
        · simp [State.created]
    | false =>
      obtain rfl : s.goto .unlock = s' := by simpa using hnext
      exact h.goto rfl rfl (by simp) (by simp) (by simp)
  · simp [hpoint] at hnext

theorem posts_of_reachable (h : (program c).Reachable s) : Posts s := by
  refine h.invariant (fun s hs ↦ ?_) fun s thread s' hreach hposts hnext ↦ ?_
  · rw [show s = start from hs]
    exact ⟨fun _ _ ↦ rfl, fun _ ↦ rfl, by simp [start], by simp [start],
      by simp [start, State.Measures]⟩
  · cases thread with
    | main => exact hposts.main (inv_of_reachable hreach) hnext
    | createNext created => exact hposts.createNext hnext
    | threaded n => exact hposts.threaded (inv_of_reachable hreach) hnext

/-! ### The second reading of the clock -/

def Posted (s : State) (n : ℕ) : Prop :=
  ∃ child, s.children[n]? = some child ∧ child.unposted = false

/-- `main` has returned from the wait for the thread that it has created last, and has not tried to
create the next one: here it reads the clock, however many steps the threads have made since the
wait. -/
structure ReadsFin (c : Config) (s : State) : Prop where
  reachable : (program c).Reachable s
  point : s.point = .createNext
  waited : 0 < s.nthreads

theorem one_le_unposted {child : ChildPoint} (hchild : s.children[n]? = some child)
    (hpost : child.unposted = true) : 1 ≤ s.unposted :=
  List.countP_pos_iff.mpr ⟨child, List.mem_of_getElem? hchild, hpost⟩

/-- Two threads that have not posted. -/
theorem two_le_unposted {m : ℕ} {first second : ChildPoint} (hfirst : s.children[n]? = some first)
    (hsecond : s.children[m]? = some second) (hne : m ≠ n) (hpost : first.unposted = true)
    (hpost' : second.unposted = true) : 2 ≤ s.unposted := by
  have hcount := countP_set ChildPoint.unposted .lock hfirst
  have hrest : 1 ≤ (s.children.set n .lock).countP ChildPoint.unposted := by
    refine List.countP_pos_iff.mpr ⟨second, List.mem_of_getElem? (i := m) ?_, hpost'⟩
    rw [List.getElem?_set_ne hne.symm, hsecond]
  rw [hpost] at hcount
  simp only [ChildPoint.unposted, Bool.toNat_true, Bool.toNat_false] at hcount
  unfold State.unposted
  omega

theorem ReadsFin.posted_iff (h : ReadsFin c s) : Posted s s.created ↔
    s.sem s.sc = 1 ∨ ∃ earlier < s.created, s.children[earlier]? = some .post := by
  have hposts := posts_of_reachable h.reachable
  -- One thread has not posted, or there is a unit in the semaphore.
  have hbalance := hposts.ahead h.point
  have hlength := hposts.last (.inr ⟨h.point, h.waited⟩)
  obtain ⟨child, hchild⟩ : ∃ child, s.children[s.created]? = some child :=
    ⟨_, List.getElem?_eq_getElem (by omega)⟩
  constructor
  · rintro ⟨posted, hposted, hnot⟩
    by_cases hsem : s.sem s.sc = 1
    · exact .inl hsem
    · have hpos : 0 < s.unposted := by omega
      obtain ⟨other, hmem, hpost⟩ := List.countP_pos_iff.mp hpos
      obtain ⟨earlier, hearlier⟩ := List.mem_iff_getElem?.mp hmem
      obtain rfl : other = .post := by cases other <;> simp_all
      have hlt : earlier < s.children.length := (List.getElem?_eq_some_iff.mp hearlier).1
      have hne : earlier ≠ s.created := by
        rintro rfl
        rw [hearlier] at hposted
        obtain rfl := Option.some.inj hposted
        cases hnot
      exact .inr ⟨earlier, by omega, hearlier⟩
  · intro hcondition
    refine ⟨child, hchild, ?_⟩
    by_contra hpost
    rw [Bool.not_eq_false] at hpost
    have hone := one_le_unposted hchild hpost
    rcases hcondition with hsem | ⟨earlier, hlt, hearlier⟩
    · omega
    · have htwo := two_le_unposted hearlier hchild hlt.ne' rfl hpost
      omega

/-! ### A measure that misses the start of the thread -/

/-- `main` is about to create the thread with number `k` in scenario `sc`, and will wait for a post.
-/
structure AboutToCreate (c : Config) (sc k : ℕ) (s : State) : Prop where
  reachable : (program c).Reachable s
  point : s.point = .createNext
  sc : s.sc = sc
  nthreads : s.nthreads + 1 = k
  bound : k ≤ c.myMax

/-- `main` has come to the measure from the creation. -/
def FromCreation (c : Config) (s : State) : Prop :=
  s.Measures → ∃ before, AboutToCreate c s.sc s.nthreads before

theorem fromCreation_of_reachable (hreach : (program c).Reachable s) : FromCreation c s := by
  refine hreach.invariant (fun s hs ↦ ?_) fun s thread s' hreach ih hnext ↦ ?_ <;> intro hlast
  · rw [show s = start from hs] at hlast
    simp [State.Measures, start] at hlast
  · cases thread with
    | main =>
      have hstep := mainStep_of_main hnext
      cases hstep with
      | waitSem hpoint => exact ih (.inl hpoint)
      | createFirst hpoint =>
        have hfresh := ((inv_of_reachable hreach).fresh hpoint).2
        simp [State.Measures, hfresh] at hlast
      | unlock | join | unlockCheck =>
        dsimp only [State.Measures, State.goto] at hlast
        split at hlast <;> simp at hlast
      | _ => simp [State.Measures] at hlast
    | createNext created =>
      simp only [program, next, createNext] at hnext
      split_ifs at hnext with hcreate hcreated hfails hmax
      · cases hnext
        simp [State.Measures] at hlast
      · cases hnext
        exact ⟨s, hreach, hcreate, rfl, rfl, by simpa using hmax⟩
      · cases hnext
        simp [State.Measures] at hlast
    | threaded n =>
      obtain ⟨child, child', hstep⟩ := childStep_of_threaded hnext
      rw [State.Measures, hstep.point, hstep.nthreads] at hlast
      rw [hstep.sc, hstep.nthreads]
      exact ih hlast

/-- All threads that exist post. -/
theorem AboutToCreate.exists_posted {sc k : ℕ} (h : AboutToCreate c sc k s) :
    ∃ t, AboutToCreate c sc k t ∧ t.sem t.sc = 1 := by
  have hahead := (posts_of_reachable h.reachable).ahead h.point
  by_cases hsem : s.sem s.sc = 1
  · exact ⟨s, h, hsem⟩
  · have hpos : 0 < s.unposted := by omega
    obtain ⟨child, hmem, hpost⟩ := List.countP_pos_iff.mp hpos
    obtain ⟨n, hn⟩ := List.mem_iff_getElem?.mp hmem
    obtain rfl : child = .post := by cases child <;> simp_all
    have hnext : (program c).next s (.threaded n) = some { s with
        sem := update s.sem s.sc (semPost (s.sem s.sc))
        children := s.children.set n .lock } := by
      simp [program, next, threaded, hn]
    refine ⟨_, ⟨h.reachable.step hnext, h.point, h.sc, h.nthreads, h.bound⟩, ?_⟩
    simp only [update_self, semPost_eq]
    omega

/-- `main` creates the thread and takes the unit that is there, before the thread has run. -/
theorem AboutToCreate.exists_missed {sc k : ℕ} (h : AboutToCreate c sc k s)
    (hsem : s.sem s.sc = 1) : ∃ t, ReadsFin c t ∧ t.sc = sc ∧ t.nthreads = k ∧
      ¬ Posted t t.created := by
  let t : State := { s with
    th := update s.th s.nthreads s.children.length, children := s.children ++ [.post],
    nthreads := s.nthreads + 1, point := .waitSem }
  have hcreate : (program c).next s (.createNext true) = some t := by
    have hnot : ¬ c.myMax < s.nthreads + 1 := by
      rw [h.nthreads]
      exact h.bound.not_gt
    simp [program, next, createNext, h.point, hnot, t]
  have hwait : (program c).next t .main = some { t with
      sem := update t.sem t.sc 0, point := .createNext } := by
    simp [program, next, main, hsem, semWait, t]
  refine ⟨_, ⟨(h.reachable.step hcreate).step hwait, rfl, Nat.succ_pos _⟩, h.sc, h.nthreads, ?_⟩
  rintro ⟨child, hchild, hposted⟩
  obtain rfl : .post = child := by simpa [State.created, t] using hchild
  cases hposted

/-- For every configuration, every scenario, every number of created threads and every interleaving:
wherever `main` reads the clock after the wait, the thread that it has created last has posted
exactly if there is still a unit in the semaphore, so that all threads have posted, or one of the
threads created before is the one that has not. And whenever a creation is measured, in some
interleaving the measure of the same creation is taken before the thread has posted. -/
theorem fin_covers_start_iff (h : ReadsFin c s) :
    (Posted s s.created ↔
      s.sem s.sc = 1 ∨ ∃ earlier < s.created, s.children[earlier]? = some .post) ∧
    ∃ t, ReadsFin c t ∧ t.sc = s.sc ∧ t.nthreads = s.nthreads ∧ ¬ Posted t t.created := by
  refine ⟨h.posted_iff, ?_⟩
  obtain ⟨before, hbefore⟩ := fromCreation_of_reachable h.reachable (.inr ⟨h.point, h.waited⟩)
  obtain ⟨t, hcreate, hsem⟩ := hbefore.exists_posted
  exact hcreate.exists_missed hsem

/-- The wait for the second thread of the first scenario returns on a post of the first, and the
second posts before the clock is read. -/
def postsLate : List Thread :=
  List.replicate 4 .main ++ [.createNext true, .threaded 0, .main, .threaded 1]

theorem fin_covers_start_postsLate : ∃ s, ReadsFin allSucceed s ∧ s.nthreads = 1 ∧
    Posted s s.created := by
  obtain ⟨s, hreach, hpoint, hnthreads, hsem⟩ : ∃ s, (program allSucceed).Reachable s ∧
      s.point = .createNext ∧ s.nthreads = 1 ∧ s.sem s.sc = 1 :=
    System.exists_reachable postsLate rfl (by decide +kernel)
  have hreads : ReadsFin allSucceed s := ⟨hreach, hpoint, hnthreads ▸ Nat.one_pos⟩
  exact ⟨s, hreads, hnthreads, (fin_covers_start_iff hreads).1.mpr (.inl hsem)⟩

/-- The first creation that is measured: `main` waits and reads the clock before the thread has run
its first instruction. -/
def MissesStart : Prop :=
  ∃ s, ReadsFin allSucceed s ∧ s.sc = 0 ∧ s.nthreads = 1 ∧ s.children[s.created]? = some .post

theorem misses_start : MissesStart := by
  obtain ⟨s, hreach, hpoint, hsc, hnthreads, hpost⟩ : ∃ s, (program allSucceed).Reachable s ∧
      s.point = .createNext ∧ s.sc = 0 ∧ s.nthreads = 1 ∧
      s.children[s.created]? = some .post :=
    System.exists_reachable (List.replicate 4 .main ++ [.createNext true, .threaded 0, .main]) rfl
      (by decide +kernel)
  exact ⟨s, ⟨hreach, hpoint, hnthreads ▸ Nat.one_pos⟩, hsc, hnthreads, hpost⟩

end OpenPosix.Threads.Create

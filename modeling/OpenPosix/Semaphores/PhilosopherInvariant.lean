import OpenPosix.Semaphores.PhilosopherSteps

/-!
# The invariant of the dining philosophers

Everything about every interleaving is derived from one invariant (`Inv`), whose parts are kept by
each kind of move of `PhilosopherSteps` and by the steps of `main` (`inv_of_reachable`).

The parts. `token`: the value of `lock` and the threads that hold it add up to one, so the entries
of `state` are written by one thread at a time. `place`: the point of a philosopher bounds the value
of its entry. `reading`: what a call of `test` has read so far is still so, because the thread in
`test` holds `lock`. `ticket`: unless a thread is between the assignment and the post of `test i`,
the value of `ph[i]` plus one for a philosopher in its section is one exactly when `state[i]` is
`eating`. `exclusive`: no two neighbours have `eating` entries. `decided`: an entry that `test`
would grant is one that the thread holding `lock` still has to test.
-/

namespace OpenPosix.Semaphores.Philosopher

open Interleaving Function

variable {n loopNum : ℕ} {s s' : State n} {i j : Fin n}

/-! ### The invariant -/

/-- Thread `j` at a point is about to post `ph[i]`. -/
def Posts (j : Fin n) (point : Point) (i : Fin n) : Prop :=
  ∃ site, point = .test site .postPh ∧ site.target j = i

/-- Thread `j` at a point still has to decide on a grant to philosopher `i`. -/
def Tests (j : Fin n) (point : Point) (i : Fin n) : Prop :=
  ∃ site stage, point = .test site stage ∧
    (stage ≠ .postPh ∧ site.target j = i ∨ site = .left ∧ post j = i)

/-- What a call `test ID` knows at each of its points. -/
def Knows (s : State n) (ID : Fin n) : TestPoint → Prop
  | .readSelf => True
  | .readPre => s.state ID = .hungry
  | .readPost => s.state ID = .hungry ∧ s.state (pre ID) ≠ .eating
  | .setEating => Grantable s ID
  | .postPh => s.state ID = .eating ∧ s.ph ID = 0 ∧ (s.point ID).inSection = false

/-- The values that the entry of a philosopher may have at a point of its code. -/
def Place : Point → Activity → Prop
  | .test .own _, activity | .postLock, activity | .waitPh, activity =>
    activity = .hungry ∨ activity = .eating
  | .eat, activity | .waitLockAgain, activity | .setThinking, activity => activity = .eating
  | _, activity => activity = .thinking

/-- What holds between any two steps of the program. -/
structure Inv (s : State n) : Prop where
  token : s.lock + total Point.holds s.point = 1
  place : ∀ i, Place (s.point i) (s.state i)
  reading : ∀ j site point, s.point j = .test site point → Knows s (site.target j) point
  ticket : ∀ i, (∀ j, ¬ Posts j (s.point j) i) →
    s.ph i + (s.point i).inSection.toNat = if s.state i = .eating then 1 else 0
  exclusive : ∀ i, s.state i = .eating → s.state (post i) ≠ .eating
  decided : ∀ i, Grantable s i → ∃ j, Tests j (s.point j) i

theorem Tests.holds {point : Point} (h : Tests j point i) : point.holds = 1 := by
  obtain ⟨site, stage, rfl, -⟩ := h
  rfl

theorem Posts.holds {point : Point} (h : Posts j point i) : point.holds = 1 := by
  obtain ⟨site, rfl, -⟩ := h
  rfl

theorem Inv.unique (h : Inv s) (hi : (s.point i).holds = 1) (hj : (s.point j).holds = 1) :
    i = j := by
  by_contra hne
  have hpair := pair_le_total Point.holds s.point hne
  have htoken := h.token
  omega

theorem Inv.lock_eq_zero (h : Inv s) (hi : (s.point i).holds = 1) : s.lock = 0 := by
  have hle := le_total Point.holds s.point i
  have htoken := h.token
  omega

/-! ### Every move keeps the invariant -/

theorem token_move (h : Inv s) (hm : Move loopNum s i s') :
    s'.lock + total Point.holds s'.point = 1 := by
  obtain ⟨point, hpoint, -, -, -, hlock⟩ := hm.control
  have hmove := total_update Point.holds s.point i point
  have htoken := h.token
  rw [hpoint]
  omega

/-- A thread that moves while another one holds `lock` leaves `state` alone, and changes no more
than its own point and its own semaphore. -/
theorem Move.of_held (hm : Move loopNum s i s') (h : Inv s) (hj : (s.point j).holds = 1)
    (hne : j ≠ i) :
    s'.state = s.state ∧ (∀ k, k ≠ i → s'.ph k = s.ph k) ∧
      (s.ph i = 0 → s'.ph i = 0 ∧ (s'.point i).inSection = (s.point i).inSection) := by
  have hlock := h.lock_eq_zero hj
  have hfree : (s.point i).holds ≠ 1 := fun hi ↦ hne (h.unique hj hi)
  cases hm with
  | walk hwalk =>
    refine ⟨rfl, fun k _ ↦ rfl, fun hph ↦ ⟨hph, ?_⟩⟩
    rw [goto_point, update_self]
    generalize s.point i = point at hwalk
    cases hwalk <;> rfl
  | acquire hacquire hvalue => omega
  | announce hpoint | advance hpoint | refuse hpoint | grant hpoint | wake hpoint
  | think hpoint => exact absurd (by rw [hpoint]; rfl) hfree
  | release hrelease =>
    generalize s.point i = point at hrelease hfree
    cases hrelease <;> exact absurd rfl hfree
  | pass hpoint hph =>
    refine ⟨rfl, fun k hk ↦ ?_, fun hzero ↦ by omega⟩
    exact update_of_ne hk _ _

/-- A philosopher that can pass `sem_wait(&ph[i])` has been granted. -/
theorem Inv.eating_of_ph (h : Inv s) {value : ℕ} (hph : s.ph i = value + 1) :
    s.state i = .eating ∧ ∀ j, ¬ Posts j (s.point j) i := by
  have hposts : ∀ j, ¬ Posts j (s.point j) i := by
    rintro j ⟨site, hpoint, rfl⟩
    have hknows := h.reading j site _ hpoint
    simp only [Knows] at hknows
    omega
  have hticket := h.ticket i hposts
  refine ⟨?_, hposts⟩
  by_contra hne
  rw [if_neg hne] at hticket
  omega

/-- A point of a thread that keeps its entry of `state`. -/
theorem place_goto (h : Inv s) {point : Point} (hpoint : Place point (s.state i)) (k : Fin n) :
    Place (update s.point i point k) (s.state k) := by
  by_cases hk : k = i
  · subst hk
    rwa [update_self]
  · rw [update_of_ne hk]
    exact h.place k

theorem place_move (hn : 2 ≤ n) (h : Inv s) (hm : Move loopNum s i s') (k : Fin n) :
    Place (s'.point k) (s'.state k) := by
  have hi := h.place i
  cases hm with
  | walk hwalk =>
    refine place_goto h ?_ k
    generalize s.point i = point at hwalk hi
    cases hwalk <;> exact hi
  | acquire hacquire hvalue =>
    refine place_goto h ?_ k
    generalize s.point i = point at hacquire hi
    cases hacquire <;> exact hi
  | announce hpoint | think hpoint =>
    by_cases hk : k = i
    · subst hk
      simp [Place]
    · simpa [update_of_ne hk] using h.place k
  | @advance site _ _ hpoint hadvance | @refuse site _ hpoint hread hrefused
  | @wake site hpoint =>
    refine place_goto h ?_ k
    rw [hpoint] at hi
    cases site <;> exact hi
  | @grant site hpoint =>
    have hknows : s.state (site.target i) = .hungry := (h.reading i site _ hpoint).1
    have htarget := h.place (site.target i)
    rw [hpoint] at hi
    simp only [goto_point, goto_state]
    by_cases hk : k = i
    · subst hk
      rw [update_self]
      cases site with
      | own => simp [Place, TestSite.target]
      | left => rwa [TestSite.target, update_of_ne (pre_ne hn k).symm]
      | right => rwa [TestSite.target, update_of_ne (post_ne hn k).symm]
    · rw [update_of_ne hk]
      by_cases heq : k = site.target i
      · subst heq
        generalize s.point (site.target i) = point at htarget
        cases point with
        | test site' => cases site' <;> simp_all [Place]
        | _ => simp_all [Place]
      · rw [update_of_ne heq]
        exact h.place k
  | release hrelease =>
    refine place_goto h ?_ k
    generalize s.point i = point at hrelease hi
    cases hrelease <;> exact hi
  | pass hpoint hph =>
    refine place_goto h ?_ k
    exact (h.eating_of_ph hph).1

theorem Knows.congr {ID : Fin n} {point : TestPoint} (h : Knows s ID point)
    (hstate : s'.state = s.state)
    (hpost : s.ph ID = 0 → s'.ph ID = 0 ∧ (s'.point ID).inSection = (s.point ID).inSection) :
    Knows s' ID point := by
  cases point with
  | readSelf => trivial
  | readPre | readPost => rwa [Knows, hstate]
  | setEating => rwa [Knows, Grantable, hstate]
  | postPh =>
    obtain ⟨heating, hph, hsection⟩ := h
    obtain ⟨hph', hsection'⟩ := hpost hph
    exact ⟨by rw [hstate, heating], hph', by rw [hsection', hsection]⟩

/-- While a thread holds `lock` and is not about to post, no thread is about to post. -/
theorem Inv.not_posts (h : Inv s) (hi : (s.point i).holds = 1)
    (hpoint : ∀ site, s.point i ≠ .test site .postPh) (j k : Fin n) : ¬ Posts j (s.point j) k := by
  rintro hposts
  obtain rfl := h.unique hi hposts.holds
  obtain ⟨site, hpost, -⟩ := hposts
  exact hpoint site hpost

/-- A hungry philosopher has no ticket and is not in its section. -/
theorem Inv.no_ticket (h : Inv s) (hstate : s.state i ≠ .eating)
    (hposts : ∀ j, ¬ Posts j (s.point j) i) : s.ph i = 0 ∧ (s.point i).inSection = false := by
  have hticket := h.ticket i hposts
  rw [if_neg hstate] at hticket
  refine ⟨by omega, ?_⟩
  cases hsection : (s.point i).inSection with
  | false => rfl
  | true => simp [hsection] at hticket

theorem reading_mover (h : Inv s) (hm : Move loopNum s i s') (site : TestSite) (point : TestPoint)
    (hi : s'.point i = .test site point) : Knows s' (site.target i) point := by
  cases hm with
  | walk hwalk =>
    generalize s.point i = old at hwalk
    cases hwalk <;> simp at hi
  | acquire hacquire hvalue =>
    generalize s.point i = old at hacquire
    cases hacquire <;> simp at hi
  | announce hpoint =>
    obtain ⟨rfl, rfl⟩ : TestSite.own = site ∧ TestPoint.readSelf = point := by simpa using hi
    trivial
  | @advance site' from' to' hpoint hadvance =>
    obtain ⟨rfl, rfl⟩ : site' = site ∧ to' = point := by simpa using hi
    have hknows := h.reading i site' from' hpoint
    cases hadvance with
    | self hself => exact hself
    | left hleft => exact ⟨hknows, hleft⟩
    | right hright => exact ⟨hknows.1, hknows.2, hright⟩
  | @refuse site' _ hpoint hread hrefused | @wake site' hpoint =>
    cases site' with
    | left =>
      obtain ⟨rfl, rfl⟩ : TestSite.right = site ∧ TestPoint.readSelf = point := by
        simpa [TestSite.next] using hi
      trivial
    | own | right => simp [TestSite.next] at hi
  | @grant site' hpoint =>
    obtain ⟨rfl, rfl⟩ : site' = site ∧ TestPoint.postPh = point := by simpa using hi
    have hhungry : s.state (site'.target i) = .hungry := (h.reading i site' _ hpoint).1
    have hposts := h.not_posts (i := i) (by rw [hpoint]; rfl) (by simp [hpoint])
    obtain ⟨hph, hsection⟩ := h.no_ticket (by simp [hhungry]) fun j ↦ hposts j (site'.target i)
    refine ⟨by simp, hph, ?_⟩
    by_cases ht : site'.target i = i
    · rw [ht, goto_point, update_self]
      rfl
    · rwa [goto_point, update_of_ne ht]
  | release hrelease =>
    generalize s.point i = old at hrelease
    cases hrelease <;> simp at hi
  | pass hpoint hph => simp at hi
  | think hpoint =>
    obtain ⟨rfl, rfl⟩ : TestSite.left = site ∧ TestPoint.readSelf = point := by simpa using hi
    trivial

theorem reading_move (h : Inv s) (hm : Move loopNum s i s') (k : Fin n) (site : TestSite)
    (point : TestPoint) (hk : s'.point k = .test site point) : Knows s' (site.target k) point := by
  by_cases hki : k = i
  · subst hki
    exact reading_mover h hm site point hk
  · obtain ⟨new, hnew, -⟩ := hm.control
    rw [hnew, update_of_ne hki] at hk
    obtain ⟨hstate, hph, hown⟩ := hm.of_held h (by rw [hk]; rfl) hki
    refine (h.reading k site point hk).congr hstate fun hzero ↦ ?_
    by_cases ht : site.target k = i
    · rw [ht] at hzero ⊢
      exact hown hzero
    · rw [hph _ ht, hnew, update_of_ne ht]
      exact ⟨hzero, rfl⟩

/-- A step that does not post leaves only the posts that were due before it. -/
theorem not_posts_before {point : Point} {k : Fin n} (hold : ∀ site, s.point i ≠ .test site .postPh)
    (hposts : ∀ j, ¬ Posts j (update s.point i point j) k) (j : Fin n) :
    ¬ Posts j (s.point j) k := by
  intro hj
  by_cases hji : j = i
  · subst hji
    obtain ⟨site, hpost, -⟩ := hj
    exact hold site hpost
  · refine hposts j ?_
    rwa [update_of_ne hji]

/-- The ticket of `k` over a step that does not post and keeps the thread inside or outside of its
section. -/
theorem ticket_goto (h : Inv s) {point : Point} (hold : ∀ site, s.point i ≠ .test site .postPh)
    (hsection : point.inSection = (s.point i).inSection) (k : Fin n)
    (hposts : ∀ j, ¬ Posts j (update s.point i point j) k) :
    s.ph k + (update s.point i point k).inSection.toNat = if s.state k = .eating then 1 else 0 := by
  have hticket := h.ticket k (not_posts_before hold hposts)
  by_cases hki : k = i
  · subst hki
    rwa [update_self, hsection]
  · rwa [update_of_ne hki]

theorem ticket_wake (h : Inv s) {site : TestSite} (hpoint : s.point i = .test site .postPh)
    (k : Fin n) :
    update s.ph (site.target i) (s.ph (site.target i) + 1) k +
      (update s.point i site.next k).inSection.toNat = if s.state k = .eating then 1 else 0 := by
  obtain ⟨heating, hph, hsection⟩ := h.reading i site _ hpoint
  have hsame : (update s.point i site.next k).inSection = (s.point k).inSection := by
    by_cases hki : k = i
    · subst hki
      rw [update_self, inSection_next, hpoint, inSection_test]
    · rw [update_of_ne hki]
  rw [hsame]
  by_cases hk : k = site.target i
  · subst hk
    rw [update_self, heating, hph, hsection]
    rfl
  · rw [update_of_ne hk]
    -- The only thread about to post is the one that moves, and it posts another semaphore.
    refine h.ticket k fun j hj ↦ ?_
    obtain rfl := h.unique hj.holds (by rw [hpoint]; rfl)
    obtain ⟨site', hpost, htarget⟩ := hj
    obtain rfl : site' = site := by simpa [hpoint] using hpost.symm
    exact hk htarget.symm

theorem ticket_move (h : Inv s) (hm : Move loopNum s i s') (k : Fin n)
    (hposts : ∀ j, ¬ Posts j (s'.point j) k) :
    s'.ph k + (s'.point k).inSection.toNat = if s'.state k = .eating then 1 else 0 := by
  cases hm with
  | walk hwalk =>
    refine ticket_goto h ?_ ?_ k hposts
    · generalize s.point i = old at hwalk
      cases hwalk <;> simp
    · generalize s.point i = old at hwalk
      cases hwalk <;> rfl
  | acquire hacquire hvalue =>
    refine ticket_goto h ?_ ?_ k hposts
    · generalize s.point i = old at hacquire
      cases hacquire <;> simp
    · generalize s.point i = old at hacquire
      cases hacquire <;> rfl
  | announce hpoint =>
    have hticket := ticket_goto h (by simp [hpoint]) (by simp [hpoint, Point.inSection]) k hposts
    have hthinking : s.state i = .thinking := by simpa [Place, hpoint] using h.place i
    by_cases hki : k = i
    · subst hki
      simpa [hthinking] using hticket
    · simpa [update_of_ne hki] using hticket
  | advance hpoint hadvance =>
    refine ticket_goto h ?_ (by simp [hpoint]) k hposts
    cases hadvance <;> simp [hpoint]
  | refuse hpoint hread =>
    exact ticket_goto h (by simp [hpoint, hread]) (by simp [hpoint]) k hposts
  | @grant site hpoint =>
    have hk : k ≠ site.target i := by
      rintro rfl
      exact hposts i ⟨site, by simp, rfl⟩
    have hticket := ticket_goto h (by simp [hpoint]) (by simp [hpoint]) k hposts
    simpa [update_of_ne hk] using hticket
  | wake hpoint => exact ticket_wake h hpoint k
  | release hrelease =>
    refine ticket_goto h ?_ ?_ k hposts
    · generalize s.point i = old at hrelease
      cases hrelease <;> simp
    · generalize s.point i = old at hrelease
      cases hrelease <;> rfl
  | @pass value hpoint hph =>
    have hticket := h.ticket k (not_posts_before (by simp [hpoint]) hposts)
    change update s.ph i value k + (update s.point i .eat k).inSection.toNat =
      if s.state k = .eating then 1 else 0
    by_cases hki : k = i
    · subst hki
      rw [hph, hpoint] at hticket
      simpa [Point.inSection] using hticket
    · simpa [update_of_ne hki] using hticket
  | think hpoint =>
    have hticket := h.ticket k (not_posts_before (by simp [hpoint]) hposts)
    by_cases hki : k = i
    · subst hki
      have heating : s.state k = .eating := by simpa [Place, hpoint] using h.place k
      rw [hpoint, heating] at hticket
      simpa [Point.inSection] using hticket
    · simpa [update_of_ne hki] using hticket

theorem exclusive_move (hn : 2 ≤ n) (h : Inv s) (hm : Move loopNum s i s') (k : Fin n)
    (hk : s'.state k = .eating) : s'.state (post k) ≠ .eating := by
  cases hm with
  | announce hpoint | think hpoint =>
    have hki : k ≠ i := by
      rintro rfl
      simp at hk
    simp only [goto_state, update_of_ne hki] at hk ⊢
    by_cases hpost : post k = i
    · simp [hpost]
    · rw [update_of_ne hpost]
      exact h.exclusive k hk
  | @grant site hpoint =>
    obtain ⟨-, hleft, hright⟩ : Grantable s (site.target i) := h.reading i site _ hpoint
    simp only [goto_state] at hk ⊢
    by_cases hki : k = site.target i
    · subst hki
      rwa [update_of_ne (post_ne hn _)]
    · rw [update_of_ne hki] at hk
      by_cases hpost : post k = site.target i
      · rw [← hpost, pre_post] at hleft
        exact absurd hk hleft
      · rw [update_of_ne hpost]
        exact h.exclusive k hk
  | walk _ | acquire _ _ | advance _ _ | refuse _ _ _ | wake _ | release _ | pass _ _ =>
    exact h.exclusive k hk

/-- A thread that holds `lock` is the only one that may still have to decide on a grant. -/
theorem Inv.tests_of_grantable (h : Inv s) (hi : (s.point i).holds = 1) {k : Fin n}
    (hgrant : Grantable s k) : Tests i (s.point i) k := by
  obtain ⟨j, hj⟩ := h.decided k hgrant
  obtain rfl := h.unique hi hj.holds
  exact hj

/-- The threads that still have to decide, over a step that leaves `state` alone. Assumes: if the
thread that moves had to decide on the grant, it still has to. -/
theorem decided_goto (h : Inv s) {point : Point} {k : Fin n} (hgrant : Grantable s k)
    (hmover : Tests i (s.point i) k → Tests i point k) :
    ∃ j, Tests j (update s.point i point j) k := by
  obtain ⟨j, hj⟩ := h.decided k hgrant
  refine ⟨j, ?_⟩
  by_cases hji : j = i
  · subst hji
    rw [update_self]
    exact hmover hj
  · rwa [update_of_ne hji]

theorem tests_of_advance {site : TestSite} {point point' : TestPoint} {k : Fin n}
    (hadvance : Advance s (site.target i) point point') (h : Tests i (.test site point) k) :
    Tests i (.test site point') k := by
  obtain ⟨site', stage, heq, hdue⟩ := h
  obtain ⟨rfl, rfl⟩ : site = site' ∧ point = stage := by simpa using heq
  refine ⟨site, point', rfl, hdue.imp_left fun hown ↦ ⟨?_, hown.2⟩⟩
  cases hadvance <;> simp

/-- The calls of `test` that are due after the one on `site` returns. -/
theorem tests_next {site : TestSite} {point : TestPoint} {k : Fin n}
    (h : Tests i (.test site point) k) (hk : point = .postPh ∨ k ≠ site.target i) :
    Tests i site.next k := by
  obtain ⟨site', stage, heq, hdue⟩ := h
  obtain ⟨rfl, rfl⟩ : site = site' ∧ point = stage := by simpa using heq
  obtain ⟨hstage, htarget⟩ | ⟨rfl, hright⟩ := hdue
  · obtain hpost | hne := hk
    · exact absurd hpost hstage
    · exact absurd htarget.symm hne
  · exact ⟨.right, .readSelf, rfl, .inl ⟨by simp, hright⟩⟩

/-- The thread that stops eating makes no philosopher but its neighbours grantable. -/
theorem grantable_think (h : Inv s) (hpoint : s.point i = .setThinking) {k : Fin n}
    (hgrant : Grantable { s with state := update s.state i .thinking } k) :
    k = pre i ∨ k = post i := by
  obtain ⟨hhungry, hleft, hright⟩ := hgrant
  simp only at hhungry hleft hright
  have hki : k ≠ i := by
    rintro rfl
    simp at hhungry
  rw [update_of_ne hki] at hhungry
  by_cases hpre : pre k = i
  · exact .inr (by rw [← hpre, post_pre])
  · by_cases hpost : post k = i
    · exact .inl (by rw [← hpost, pre_post])
    · rw [update_of_ne hpre] at hleft
      rw [update_of_ne hpost] at hright
      obtain ⟨site, stage, htest, -⟩ :=
        h.tests_of_grantable (i := i) (by rw [hpoint]; rfl) ⟨hhungry, hleft, hright⟩
      simp [hpoint] at htest

/-- The thread that becomes hungry makes no philosopher but itself grantable. -/
theorem grantable_announce (h : Inv s) (hpoint : s.point i = .setHungry) {k : Fin n}
    (hgrant : Grantable { s with state := update s.state i .hungry } k) : k = i := by
  by_contra hki
  have hthinking : s.state i = .thinking := by simpa [Place, hpoint] using h.place i
  have hstate : ∀ j, update s.state i .hungry j ≠ .eating → s.state j ≠ .eating := by
    intro j hj
    by_cases hji : j = i
    · simp [hji, hthinking]
    · rwa [update_of_ne hji] at hj
  obtain ⟨hhungry, hleft, hright⟩ := hgrant
  simp only [update_of_ne hki] at hhungry
  obtain ⟨site, stage, htest, -⟩ := h.tests_of_grantable (i := i) (by rw [hpoint]; rfl)
    ⟨hhungry, hstate _ hleft, hstate _ hright⟩
  simp [hpoint] at htest

/-- A grant makes nothing grantable, and the philosopher it grants to no longer is. -/
theorem grantable_grant {ID k : Fin n}
    (hgrant : Grantable { s with state := update s.state ID .eating } k) :
    k ≠ ID ∧ Grantable s k := by
  obtain ⟨hhungry, hleft, hright⟩ := hgrant
  simp only at hhungry hleft hright
  have hstate : ∀ j, update s.state ID .eating j ≠ .eating → s.state j ≠ .eating := by
    intro j hj
    by_cases hji : j = ID
    · simp [hji] at hj
    · rwa [update_of_ne hji] at hj
  have hk : k ≠ ID := by
    rintro rfl
    simp at hhungry
  rw [update_of_ne hk] at hhungry
  exact ⟨hk, hhungry, hstate _ hleft, hstate _ hright⟩

theorem decided_move (h : Inv s) (hm : Move loopNum s i s') (k : Fin n) (hgrant : Grantable s' k) :
    ∃ j, Tests j (s'.point j) k := by
  cases hm with
  | walk hwalk =>
    refine decided_goto h hgrant fun htests ↦ ?_
    have hholds := htests.holds
    generalize s.point i = old at hwalk hholds
    cases hwalk <;> simp [Point.holds] at hholds
  | acquire hacquire hvalue =>
    refine decided_goto h hgrant fun htests ↦ ?_
    have hholds := htests.holds
    generalize s.point i = old at hacquire hholds
    cases hacquire <;> simp [Point.holds] at hholds
  | announce hpoint =>
    obtain rfl := grantable_announce h hpoint hgrant
    exact ⟨k, .own, .readSelf, by simp, .inl ⟨by simp, rfl⟩⟩
  | advance hpoint hadvance =>
    refine decided_goto h hgrant fun htests ↦ ?_
    rw [hpoint] at htests
    exact tests_of_advance hadvance htests
  | refuse hpoint hread hrefused =>
    refine decided_goto h hgrant fun htests ↦ ?_
    rw [hpoint] at htests
    refine tests_next htests (.inr ?_)
    rintro rfl
    exact hrefused hgrant
  | @grant site hpoint =>
    obtain ⟨hk, hbefore⟩ := grantable_grant hgrant
    refine decided_goto h hbefore fun htests ↦ ?_
    rw [hpoint] at htests
    obtain ⟨site', stage, heq, hdue⟩ := htests
    obtain ⟨rfl, rfl⟩ : site = site' ∧ TestPoint.setEating = stage := by simpa using heq
    obtain ⟨-, htarget⟩ | hright := hdue
    · exact absurd htarget.symm hk
    · exact ⟨site, .postPh, rfl, .inr hright⟩
  | wake hpoint =>
    refine decided_goto h hgrant fun htests ↦ ?_
    rw [hpoint] at htests
    exact tests_next htests (.inl rfl)
  | release hrelease =>
    refine decided_goto h hgrant fun htests ↦ ?_
    obtain ⟨site, stage, htest, -⟩ := htests
    generalize s.point i = old at hrelease htest
    cases hrelease <;> simp at htest
  | pass hpoint hph =>
    refine decided_goto h hgrant fun htests ↦ ?_
    obtain ⟨site, stage, htest, -⟩ := htests
    simp [hpoint] at htest
  | think hpoint =>
    refine ⟨i, .left, .readSelf, by simp, ?_⟩
    obtain rfl | rfl := grantable_think h hpoint hgrant
    · exact .inl ⟨by simp, rfl⟩
    · exact .inr ⟨rfl, rfl⟩

theorem inv_move (hn : 2 ≤ n) (h : Inv s) (hm : Move loopNum s i s') : Inv s' where
  token := token_move h hm
  place := place_move hn h hm
  reading := reading_move h hm
  ticket := ticket_move h hm
  exclusive := exclusive_move hn h hm
  decided := decided_move h hm

/-! ### Every reachable state satisfies the invariant -/

theorem inv_start (n : ℕ) : Inv (start n) where
  token := by simp [start, total, Point.holds]
  place := fun i ↦ rfl
  reading := fun j site point hpoint ↦ by simp [start] at hpoint
  ticket := fun i _ ↦ by simp [start, Point.inSection]
  exclusive := fun i hi ↦ by simp [start] at hi
  decided := fun i hi ↦ by simp [start, Grantable] at hi

theorem inv_create (h : Inv s) (hunborn : s.point i = .unborn) (main : Launcher (Fin n)) :
    Inv ({ s with main := main }.goto i .loop) where
  token := by
    have hmove := total_update Point.holds s.point i .loop
    have htoken := h.token
    simp only [hunborn, Point.holds, goto_point, goto_lock] at hmove ⊢
    omega
  place := place_goto h (by simpa [Place, hunborn] using h.place i)
  reading := by
    intro k site point hk
    by_cases hki : k = i
    · simp [hki] at hk
    · rw [goto_point, update_of_ne hki] at hk
      refine (h.reading k site point hk).congr rfl fun hzero ↦ ⟨hzero, ?_⟩
      by_cases ht : site.target k = i
      · rw [ht, goto_point, update_self, hunborn]
        rfl
      · rw [goto_point, update_of_ne ht]
  ticket := ticket_goto h (by simp [hunborn]) (by simp [hunborn, Point.inSection])
  exclusive := h.exclusive
  decided := fun k hgrant ↦ decided_goto h hgrant fun htests ↦ by
    obtain ⟨site, stage, htest, -⟩ := htests
    simp [hunborn] at htest

theorem inv_main (h : Inv s) (hlaunched : Launched s) (hm : main s = some s') : Inv s' := by
  obtain ⟨i, rest, hcreates, rfl⟩ | ⟨-, _, joins, -, -, rfl⟩ := Launcher.next_cases hm
  · exact inv_create h ((hlaunched.unborn_iff i).mpr (by simp [hcreates])) _
  · exact ⟨h.token, h.place, fun k site point hk ↦ (h.reading k site point hk).congr rfl
      fun hzero ↦ ⟨hzero, rfl⟩, h.ticket, h.exclusive, h.decided⟩

/-- Assumes: at least two philosophers. The invariant holds in every reachable state. -/
theorem inv_of_reachable (hn : 2 ≤ n) (h : (program n loopNum).Reachable s) : Inv s := by
  refine h.invariant (fun s hs ↦ hs ▸ inv_start n) fun s thread s' hreach hinv hnext ↦ ?_
  cases thread with
  | main => exact inv_main hinv (launched_of_reachable hreach) hnext
  | philosopher i => exact inv_move hn hinv (move_of_philosopher hnext)

end OpenPosix.Semaphores.Philosopher

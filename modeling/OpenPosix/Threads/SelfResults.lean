import OpenPosix.Threads.SelfInvariant

/-!
# Threads of an earlier round

`main` joins the threads that are not detached before it starts the next round, so these have left
their loops when it clears `c_boolean`. Nothing makes it wait for a detached thread. Such a thread
can have been unblocked by the broadcast and still need the mutex when `main` starts over; it then
finds `c_boolean` cleared and waits for the release of the next round.

`rounds_separate_iff` puts both together: the rounds are separate in all runs exactly if no scenario
with a detached thread can be created. For the one direction, `Joins` says which threads can be
alive. For the other one, a run is built in which the detached thread of some scenario is slow, and
everybody else does what it has to do (`Creating`, `Gathering` and `Joining` are its stages).
-/

namespace OpenPosix.Threads.Self

open Interleaving Function

variable {n : ℕ} {scenarios : Fin n → Scenario} {s s' : State n} {k : ℕ} {child : Child n}

/-! ### A slow detached thread -/

/-- The first round, while nobody is inside the mutex: which threads there are. -/
structure FirstRound (s : State n) : Prop where
  doIt : s.doIt = true
  free : s.mSynchro = none
  made : ∀ sc k, s.creation sc = some k → ∃ child, s.children[k]? = some child ∧ child.me = sc
  index : ∀ k child, s.children[k]? = some child → s.creation child.me = some k

theorem FirstRound.goto (h : FirstRound s) (hchild : s.children[k]? = some child)
    (point : ChildPoint) (hsame : s'.children = (s.goto k child point).children)
    (hcreation : s'.creation = s.creation) (hdoIt : s'.doIt = s.doIt)
    (hfree : s'.mSynchro = none) : FirstRound s' := by
  refine ⟨hdoIt.trans h.doIt, hfree, fun sc j hsc ↦ ?_, fun j other hj ↦ ?_⟩
  · rw [hcreation] at hsc
    obtain ⟨other, hother, rfl⟩ := h.made sc j hsc
    rw [hsame, getElem?_goto hchild]
    by_cases heq : j = k
    · subst heq
      obtain rfl := Option.some.inj (hchild.symm.trans hother)
      exact ⟨_, if_pos rfl, rfl⟩
    · exact ⟨other, by rw [if_neg heq, hother], rfl⟩
  · rw [hsame, getElem?_goto hchild] at hj
    rw [hcreation]
    split at hj
    · subst j
      obtain rfl := Option.some.inj hj
      exact h.index k child hchild
    · exact h.index j other hj

/-- `main` goes on. -/
theorem FirstRound.goes (h : FirstRound s) (hchildren : s'.children = s.children)
    (hcreation : s'.creation = s.creation) (hdoIt : s'.doIt = s.doIt)
    (hfree : s'.mSynchro = s.mSynchro) : FirstRound s' := by
  refine ⟨hdoIt.trans h.doIt, hfree.trans h.free, fun sc k hsc ↦ ?_, fun k child hk ↦ ?_⟩
  · rw [hchildren]
    exact h.made sc k (hcreation ▸ hsc)
  · rw [hcreation]
    exact h.index k child (hchildren ▸ hk)

/-- The number of threads at a point. -/
def State.countAt (s : State n) (point : ChildPoint) : ℕ :=
  s.children.countP fun child ↦ child.point = point

theorem countAt_goto {point : ChildPoint} (hchild : s.children[k]? = some child)
    (hpoint : child.point ≠ point) :
    (s.goto k child point).countAt child.point < s.countAt child.point := by
  have hcount := countP_set (fun other : Child n ↦ decide (other.point = child.point))
    { child with point := point } hchild
  simp only [decide_true, Bool.toNat_true, hpoint.symm, decide_false, Bool.toNat_false] at hcount
  simp only [State.countAt, State.goto]
  omega

/-! The threads are created. -/

section Creating

/-- The threads of the scenarios that are left do not exist, and the others have not run. The thread
of the scenario `d` is among them. -/
structure Creating (d : Fin n) (rest : List (Fin n)) (s : State n) : Prop where
  round : FirstRound s
  main : s.main = .create rest
  cBoolean : s.cBoolean = false
  nodup : rest.Nodup
  left : ∀ sc ∈ rest, s.creation sc = none
  lock : ∀ child ∈ s.children, child.point = .lock
  slow : d ∈ rest ∨ s.creation d ≠ none

variable {d : Fin n} {sc : Fin n} {rest : List (Fin n)}

/-- A thread is created if it can be. -/
theorem Creating.create (h : Creating d (sc :: rest) s) (hresult : (scenarios sc).result ≠ .fail) :
    ∃ s', (program scenarios).Leads s s' ∧ Creating d rest s' := by
  obtain ⟨hsc, hnodup⟩ := List.nodup_cons.mp h.nodup
  have hnext : (program scenarios).next s (.create true) = some { s with
      main := .create rest
      creation := update s.creation sc (some s.children.length)
      children := s.children ++ [⟨sc, .lock⟩] } := by
    have hadmits := Expected.admits_true_iff.mpr hresult
    simp [program, next, Self.create, h.main, hadmits]
  have hnone := h.left sc List.mem_cons_self
  refine ⟨_, System.leads_of_next hnext, ⟨h.round.doIt, h.round.free, fun other k hother ↦ ?_,
    fun k child hk ↦ ?_⟩, rfl, h.cBoolean, hnodup, fun other hmem ↦ ?_, fun child hmem ↦ ?_, ?_⟩
  · by_cases heq : other = sc
    · subst heq
      obtain rfl : s.children.length = k := by simpa using hother
      exact ⟨⟨other, .lock⟩, by simp, rfl⟩
    · simp only [update_of_ne heq] at hother
      obtain ⟨child, hchild, hme⟩ := h.round.made other k hother
      have hlt := (List.getElem?_eq_some_iff.mp hchild).1
      exact ⟨child, by rw [List.getElem?_append_left hlt, hchild], hme⟩
  · rcases Nat.lt_or_ge k s.children.length with hlt | hge
    · rw [List.getElem?_append_left hlt] at hk
      have hindex := h.round.index k child hk
      have hne : child.me ≠ sc := by
        rintro rfl
        simp [hnone] at hindex
      simpa [update_of_ne hne] using hindex
    · rw [List.getElem?_append_right hge] at hk
      obtain ⟨hlt, rfl⟩ := List.getElem?_eq_some_iff.mp hk
      obtain rfl : k = s.children.length := by
        simp only [List.length_singleton] at hlt
        omega
      simp
  · have hne : other ≠ sc := by
      rintro rfl
      exact hsc hmem
    simpa [update_of_ne hne] using h.left other (List.mem_cons_of_mem sc hmem)
  · rcases List.mem_append.mp hmem with hold | hnew
    · exact h.lock child hold
    · rw [List.mem_singleton.mp hnew]
  · by_cases heq : d = sc
    · subst heq
      exact .inr (by simp)
    · rcases h.slow with hmem | hd
      · exact .inl ((List.mem_cons.mp hmem).resolve_left heq)
      · exact .inr (by simpa [update_of_ne heq] using hd)

theorem Creating.fail (h : Creating d (sc :: rest) s) (hresult : (scenarios sc).result = .fail)
    (hd : (scenarios d).result ≠ .fail) :
    ∃ s', (program scenarios).Leads s s' ∧ Creating d rest s' := by
  obtain ⟨hsc, hnodup⟩ := List.nodup_cons.mp h.nodup
  have hnext : (program scenarios).next s (.create false) = some { s with
      main := .create rest, creation := update s.creation sc none } := by
    simp [program, next, Self.create, h.main, hresult, Expected.admits]
  have hsame : update s.creation sc none = s.creation :=
    update_eq_self_iff.mpr (h.left sc List.mem_cons_self).symm
  rw [hsame] at hnext
  refine ⟨_, System.leads_of_next hnext, h.round.goes rfl rfl rfl rfl, rfl, h.cBoolean, hnodup,
    fun other hmem ↦ h.left other (List.mem_cons_of_mem sc hmem), h.lock, ?_⟩
  refine h.slow.imp_left fun hmem ↦ (List.mem_cons.mp hmem).resolve_left ?_
  rintro rfl
  exact hd hresult

theorem Creating.leads (h : Creating d rest s) (hd : (scenarios d).result ≠ .fail) :
    ∃ s', (program scenarios).Leads s s' ∧ Creating d [] s' := by
  induction rest generalizing s with
  | nil => exact ⟨s, .refl s, h⟩
  | cons sc rest ih =>
    obtain ⟨s₁, hleads, hcreating⟩ : ∃ s', (program scenarios).Leads s s' ∧ Creating d rest s' := by
      by_cases hresult : (scenarios sc).result = .fail
      · exact h.fail hresult hd
      · exact h.create hresult
    obtain ⟨s₂, hleads', hlast⟩ := ih hcreating
    exact ⟨s₂, hleads.trans hleads', hlast⟩

end Creating

/-! The threads store their ID, post, and wait. -/

section Gathering

/-- `main` waits for the posts. The threads have not run, or are blocked and have posted. -/
structure Gathering (d : Fin n) (rest : List (Fin n)) (s : State n) : Prop where
  round : FirstRound s
  main : s.main = .waitSem rest
  cBoolean : s.cBoolean = false
  nodup : rest.Nodup
  points : ∀ k child, s.children[k]? = some child → child.point = .lock ∨
    child.point = .blocked ∧ s.running child.me = some k ∧ (child.me ∈ rest → 0 < s.sem child.me)
  slow : s.creation d ≠ none

variable {d : Fin n} {sc : Fin n} {rest : List (Fin n)}

/-- A thread that has not run gets to its wait. -/
theorem leads_blocked (scenarios : Fin n → Scenario) (hmain : s.main = .waitSem rest)
    (hfree : s.mSynchro = none) (hboolean : s.cBoolean = false)
    (hchild : s.children[k]? = some child) (hpoint : child.point = .lock) :
    (program scenarios).Leads s { s.goto k child .blocked with
      mSynchro := none
      running := update s.running child.me (some k)
      sem := update s.sem child.me (s.sem child.me + 1) } := by
  obtain ⟨hlt, rfl⟩ := List.getElem?_eq_some_iff.mp hchild
  have hrun : (program scenarios).runSchedule s (List.replicate 5 (.threaded k)) =
      some { s.goto k s.children[k] .blocked with
        mSynchro := none
        running := update s.running s.children[k].me (some k)
        sem := update s.sem s.children[k].me (s.sem s.children[k].me + 1) } := by
    simp [System.runSchedule, program, next, threaded, List.replicate, hmain, hfree, hboolean,
      hpoint, hlt, State.goto, mutexLock]
  exact System.leads_of_runSchedule hrun

/-- The thread is blocked after that, and nothing changes for the others. -/
theorem Gathering.blocked (h : Gathering d rest s) (hchild : s.children[k]? = some child) :
    Gathering d rest { s.goto k child .blocked with
      mSynchro := none
      running := update s.running child.me (some k)
      sem := update s.sem child.me (s.sem child.me + 1) } := by
  refine ⟨h.round.goto hchild .blocked rfl rfl rfl rfl, h.main, h.cBoolean, h.nodup,
    fun j other hj ↦ ?_, h.slow⟩
  have hindex := h.round.index k child hchild
  simp only [getElem?_goto hchild] at hj
  split at hj
  · subst j
    obtain rfl := Option.some.inj hj
    exact .inr ⟨rfl, by simp, by simp⟩
  · rename_i hne
    refine (h.points j other hj).imp_right ?_
    rintro ⟨hblocked, hrunning, hsem⟩
    have hme : other.me ≠ child.me := by
      intro heq
      have hj' := h.round.index j other hj
      rw [heq, hindex] at hj'
      exact hne (Option.some.inj hj').symm
    simpa [hme] using ⟨hblocked, hrunning, hsem⟩

/-- All threads get to their waits. -/
theorem Gathering.exists_blocked (scenarios : Fin n → Scenario) (h : Gathering d rest s) :
    ∃ s', (program scenarios).Leads s s' ∧ Gathering d rest s' ∧
      ∀ child ∈ s'.children, child.point = .blocked := by
  refine System.exists_leads_of_progress (State.countAt · .lock) (fun s hgathering hnot ↦ ?_) h
  obtain ⟨child, hmem, hpoint⟩ : ∃ child ∈ s.children, child.point ≠ .blocked := by
    simpa using hnot
  obtain ⟨k, hchild⟩ := List.mem_iff_getElem?.mp hmem
  have hlock : child.point = .lock :=
    (hgathering.points k child hchild).resolve_right fun hblocked ↦ hpoint hblocked.1
  exact ⟨_, leads_blocked scenarios hgathering.main hgathering.round.free hgathering.cBoolean hchild
    hlock, hgathering.blocked hchild, hlock ▸ countAt_goto hchild hpoint⟩

theorem Gathering.exists_waited (scenarios : Fin n → Scenario) (h : Gathering d rest s)
    (hall : ∀ child ∈ s.children, child.point = .blocked) :
    ∃ s', (program scenarios).Leads s s' ∧ Gathering d [] s' ∧
      ∀ child ∈ s'.children, child.point = .blocked := by
  induction rest generalizing s with
  | nil => exact ⟨s, .refl s, h, hall⟩
  | cons sc rest ih =>
    obtain ⟨hsc, hnodup⟩ := List.nodup_cons.mp h.nodup
    have hpoints : ∀ k child, s.children[k]? = some child → child.point = .blocked ∧
        s.running child.me = some k ∧ (child.me ∈ sc :: rest → 0 < s.sem child.me) := by
      intro k child hchild
      refine (h.points k child hchild).resolve_left ?_
      simp [hall child (List.mem_of_getElem? hchild)]
    obtain ⟨s₁, hnext, hgathering, hsame⟩ : ∃ s', (program scenarios).next s .main = some s' ∧
        Gathering d rest s' ∧ s'.children = s.children := by
      cases hcreation : s.creation sc with
      | none =>
        refine ⟨{ s with main := .waitSem rest },
          by simp [program, next, Self.main, h.main, hcreation],
          ⟨h.round.goes rfl rfl rfl rfl, rfl, h.cBoolean, hnodup, fun k child hchild ↦ .inr ?_,
            h.slow⟩, rfl⟩
        obtain ⟨hblocked, hrunning, hsem⟩ := hpoints k child hchild
        exact ⟨hblocked, hrunning, fun hmem ↦ hsem (List.mem_cons_of_mem sc hmem)⟩
      | some k =>
        obtain ⟨child, hchild, rfl⟩ := h.round.made sc k hcreation
        have hsem : semWait (s.sem child.me) = some (s.sem child.me - 1) := by
          have hpos := (hpoints k child hchild).2.2 List.mem_cons_self
          rw [semWait_eq_some_iff]
          omega
        refine ⟨{ s with
            main := .waitSem rest, sem := update s.sem child.me (s.sem child.me - 1) },
          by simp [program, next, Self.main, h.main, hcreation, hsem],
          ⟨h.round.goes rfl rfl rfl rfl, rfl, h.cBoolean, hnodup, fun j other hj ↦ .inr ?_,
            h.slow⟩, rfl⟩
        obtain ⟨hblocked, hrunning, hpos⟩ := hpoints j other hj
        refine ⟨hblocked, hrunning, fun hmem ↦ ?_⟩
        have hne : other.me ≠ child.me := fun heq ↦ hsc (heq ▸ hmem)
        simpa [update_of_ne hne] using hpos (List.mem_cons_of_mem _ hmem)
    obtain ⟨s', hleads, hlast⟩ := ih hgathering (hsame ▸ hall)
    exact ⟨s', (System.leads_of_next hnext).trans hleads, hlast⟩

end Gathering

/-! The threads are released, and all but the slow one end. -/

section Joining

/-- `main` joins the threads. They have been woken up or have ended, and the thread of the scenario
`d` has not. -/
structure Joining (d : Fin n) (rest : List (Fin n)) (s : State n) : Prop where
  round : FirstRound s
  main : s.main = .join rest
  cBoolean : s.cBoolean = true
  points : ∀ child ∈ s.children, child.point = .woken ∨ child.me ≠ d ∧ child.point = .exited
  slow : s.creation d ≠ none

variable {d : Fin n} {sc : Fin n} {rest : List (Fin n)}

theorem Gathering.idsAgree (h : Gathering d [] s)
    (hall : ∀ child ∈ s.children, child.point = .blocked) : s.IdsAgree := by
  have hmade : ∀ sc, s.creation sc ≠ none → ∃ k child, s.creation sc = some k ∧
      s.children[k]? = some child ∧ child.me = sc ∧ s.running sc = some k := by
    intro sc hsc
    obtain ⟨k, hk⟩ := Option.ne_none_iff_exists'.mp hsc
    obtain ⟨child, hchild, rfl⟩ := h.round.made sc k hk
    refine ⟨k, child, hk, hchild, rfl, ?_⟩
    have hpoint := hall child (List.mem_of_getElem? hchild)
    exact ((h.points k child hchild).resolve_left (by simp [hpoint])).2.1
  constructor
  · intro sc hsc
    obtain ⟨k, -, hk, -, -, hrunning⟩ := hmade sc hsc
    rw [hrunning, hk]
  · intro sc i hlt hsc heq
    obtain ⟨k, child, hk, hchild, hme, -⟩ := hmade sc hsc
    obtain ⟨j, other, hj, hother, hme', -⟩ := hmade i (heq ▸ hsc)
    obtain rfl : k = j := Option.some.inj (hk.symm.trans (heq.trans hj))
    obtain rfl := Option.some.inj (hchild.symm.trans hother)
    exact hlt.ne (hme.symm.trans hme')

/-- `main` compares the IDs and releases the threads. -/
theorem Gathering.exists_joining (scenarios : Fin n → Scenario) (h : Gathering d [] s)
    (hall : ∀ child ∈ s.children, child.point = .blocked) :
    ∃ s', (program scenarios).Leads s s' ∧ Joining d (List.finRange n) s' := by
  have hrun : (program scenarios).runSchedule s (List.replicate 6 .main) = some { s with
      main := .join (List.finRange n), cBoolean := true, mSynchro := none,
      children := s.children.map Child.wake } := by
    have hagree : State.IdsAgree { s with main := .check, mSynchro := some .main } :=
      h.idsAgree hall
    simp [System.runSchedule, program, next, Self.main, List.replicate, h.main, h.round.free,
      mutexLock, hagree]
  refine ⟨_, System.leads_of_runSchedule hrun, ⟨h.round.doIt, rfl, fun sc k hsc ↦ ?_,
    fun k child hk ↦ ?_⟩, rfl, rfl, fun child hmem ↦ ?_, h.slow⟩
  · obtain ⟨child, hchild, rfl⟩ := h.round.made sc k hsc
    refine ⟨child.wake, by simp [hchild], ?_⟩
    unfold Child.wake
    split <;> rfl
  · rw [List.getElem?_map] at hk
    obtain ⟨before, hbefore, rfl⟩ := Option.map_eq_some_iff.mp hk
    have hindex := h.round.index k before hbefore
    unfold Child.wake
    split <;> exact hindex
  · obtain ⟨before, hbefore, rfl⟩ := List.mem_map.mp hmem
    exact .inl (by simp [Child.wake, hall before hbefore])

/-- A thread that has been woken up ends. -/
theorem leads_exited (scenarios : Fin n → Scenario) (hmain : s.main = .join rest)
    (hfree : s.mSynchro = none) (hboolean : s.cBoolean = true)
    (hchild : s.children[k]? = some child) (hpoint : child.point = .woken) :
    (program scenarios).Leads s { s.goto k child .exited with mSynchro := none } := by
  obtain ⟨hlt, rfl⟩ := List.getElem?_eq_some_iff.mp hchild
  have hrun : (program scenarios).runSchedule s (List.replicate 3 (.threaded k)) =
      some { s.goto k s.children[k] .exited with mSynchro := none } := by
    simp [System.runSchedule, program, next, threaded, List.replicate, hmain, hfree, hboolean,
      hpoint, hlt, State.goto, mutexLock]
  exact System.leads_of_runSchedule hrun

theorem Joining.exited (h : Joining d rest s) (hchild : s.children[k]? = some child)
    (hme : child.me ≠ d) : Joining d rest { s.goto k child .exited with mSynchro := none } := by
  refine ⟨h.round.goto hchild .exited rfl rfl rfl rfl, h.main, h.cBoolean, fun other hmem ↦ ?_,
    h.slow⟩
  rcases List.mem_or_eq_of_mem_set hmem with hold | rfl
  · exact h.points other hold
  · exact .inr ⟨hme, rfl⟩

/-- All threads end but the slow one. -/
theorem Joining.exists_exited (scenarios : Fin n → Scenario) (h : Joining d rest s) :
    ∃ s', (program scenarios).Leads s s' ∧ Joining d rest s' ∧
      ∀ child ∈ s'.children, child.me ≠ d → child.point = .exited := by
  refine System.exists_leads_of_progress (State.countAt · .woken) (fun s hjoining hnot ↦ ?_) h
  obtain ⟨child, hmem, hme, hpoint⟩ : ∃ child ∈ s.children, child.me ≠ d ∧
      child.point ≠ .exited := by simpa using hnot
  obtain ⟨k, hchild⟩ := List.mem_iff_getElem?.mp hmem
  have hwoken : child.point = .woken :=
    (hjoining.points child hmem).resolve_right fun hexited ↦ hpoint hexited.2
  exact ⟨_, leads_exited scenarios hjoining.main hjoining.round.free hjoining.cBoolean hchild
    hwoken, hjoining.exited hchild hme, hwoken ▸ countAt_goto hchild hpoint⟩

/-- `main` joins all threads but the slow one, which is detached. -/
theorem Joining.exists_joined (hd : (scenarios d).detached = true) (h : Joining d rest s)
    (hexited : ∀ child ∈ s.children, child.me ≠ d → child.point = .exited) :
    ∃ s', (program scenarios).Leads s s' ∧ Joining d [] s' := by
  induction rest generalizing s with
  | nil => exact ⟨s, .refl s, h⟩
  | cons sc rest ih =>
    have hnext : (program scenarios).next s .main = some { s with main := .join rest } := by
      cases hcreation : s.creation sc with
      | none => simp [program, next, Self.main, h.main, hcreation]
      | some k =>
        obtain ⟨child, hchild, rfl⟩ := h.round.made sc k hcreation
        by_cases hme : child.me = d
        · have hdetached : (scenarios child.me).detached = true := by rw [hme, hd]
          simp [program, next, Self.main, h.main, hcreation, hdetached]
        · have hpoint := hexited child (List.mem_of_getElem? hchild) hme
          simp [program, next, Self.main, h.main, hcreation, hchild, hpoint]
    have hjoining : Joining d rest { s with main := .join rest } :=
      ⟨h.round.goes rfl rfl rfl rfl, rfl, h.cBoolean, h.points, h.slow⟩
    obtain ⟨s', hleads, hlast⟩ := ih hjoining hexited
    exact ⟨s', (System.leads_of_next hnext).trans hleads, hlast⟩

end Joining

/-! ### The condition -/

/-- No thread of an earlier round is inside its loop when `main` starts a round. -/
def Separate (s : State n) : Prop :=
  s.main = .reset → ∀ child ∈ s.children, child.point.inLoop = false

/-- Assumes: the detached thread of some scenario can be created. In some run it is still inside its
loop when `main` starts the second round. -/
theorem exists_not_separate {d : Fin n} (hdetached : (scenarios d).detached = true)
    (hresult : (scenarios d).result ≠ .fail) :
    ∃ s, (program scenarios).Reachable s ∧ ¬ Separate s := by
  have hcreates : (program scenarios).runSchedule (start n) [.main, .main] =
      some { start n with main := .create (List.finRange n) } := by
    simp [System.runSchedule, program, next, main, start]
  have hcreating : Creating d (List.finRange n)
      { start n with main := .create (List.finRange n) } :=
    ⟨⟨rfl, rfl, by simp [start], by simp [start]⟩, rfl, rfl, List.nodup_finRange n, fun _ _ ↦ rfl,
      by simp [start], .inl (List.mem_finRange d)⟩
  obtain ⟨s₁, hleads₁, hcreated⟩ := hcreating.leads hresult
  have hwaits : (program scenarios).next s₁ .main =
      some { s₁ with main := .waitSem (List.finRange n) } := by
    simp [program, next, main, hcreated.main]
  have hgathering : Gathering d (List.finRange n) { s₁ with main := .waitSem (List.finRange n) } :=
    ⟨hcreated.round.goes rfl rfl rfl rfl, rfl, hcreated.cBoolean, List.nodup_finRange n,
      fun _ _ hk ↦ .inl (hcreated.lock _ (List.mem_of_getElem? hk)),
      hcreated.slow.resolve_left List.not_mem_nil⟩
  obtain ⟨s₂, hleads₂, hgathering₂, hblocked⟩ := hgathering.exists_blocked scenarios
  obtain ⟨s₃, hleads₃, hgathering₃, hblocked₃⟩ := hgathering₂.exists_waited scenarios hblocked
  obtain ⟨s₄, hleads₄, hjoining⟩ := hgathering₃.exists_joining scenarios hblocked₃
  obtain ⟨s₅, hleads₅, hjoining₅, hexited⟩ := hjoining.exists_exited scenarios
  obtain ⟨s₆, hleads₆, hjoined⟩ := hjoining₅.exists_joined hdetached hexited
  have hreset : (program scenarios).runSchedule s₆ [.main, .main] =
      some { s₆ with main := .reset } := by
    simp [System.runSchedule, program, next, main, hjoined.main, hjoined.round.doIt]
  have hleads := ((((((System.leads_of_runSchedule hcreates).trans hleads₁).trans
    (System.leads_of_next hwaits)).trans hleads₂).trans hleads₃).trans hleads₄).trans
    ((hleads₅.trans hleads₆).trans (System.leads_of_runSchedule hreset))
  refine ⟨_, (System.reachable_of_initial rfl).leads hleads, fun hseparate ↦ ?_⟩
  obtain ⟨k, hk⟩ := Option.ne_none_iff_exists'.mp hjoined.slow
  obtain ⟨child, hchild, hme⟩ := hjoined.round.made d k hk
  have hmem := List.mem_of_getElem? hchild
  have hwoken := (hjoined.points child hmem).resolve_right fun hother ↦ hother.1 hme
  have hloop := hseparate rfl child hmem
  rw [hwoken] at hloop
  cases hloop

/-- For every number of scenarios and every interleaving: when `main` clears `c_boolean` at the
start of a round, no thread of an earlier round is inside its loop, in any run, exactly if no
detached thread can be created. -/
theorem rounds_separate_iff (scenarios : Fin n → Scenario) :
    (∀ s, (program scenarios).Reachable s → Separate s) ↔
      ∀ sc, (scenarios sc).detached = true → (scenarios sc).result = .fail := by
  constructor
  · intro hseparate sc hdetached
    by_contra hresult
    obtain ⟨s, hreach, hnot⟩ := exists_not_separate hdetached hresult
    exact hnot (hseparate s hreach)
  · intro hall s hreach hmain child hmem
    rw [(joins_of_reachable hall hreach).exited hmain child hmem]
    rfl

/-- The thread of the only scenario does not run between the broadcast and the next round. -/
def slowThread : List Move :=
  List.flatten [.replicate 2 .main, [.create true, .main], .replicate 5 (.threaded 0),
    .replicate 10 .main]

/-- With one scenario, "detached", `main` starts the second round while the thread of the first one
is inside its loop. -/
def LeftBehind : Prop :=
  ∃ s, (program fun _ : Fin 1 ↦ casePos true false).Reachable s ∧ s.main = .reset ∧
    ∃ sc, s.children = [⟨sc, .woken⟩]

theorem left_behind : LeftBehind := by
  obtain ⟨s, hreach, hmain, hchildren⟩ : ∃ s,
      (program fun _ : Fin 1 ↦ casePos true false).Reachable s ∧ s.main = .reset ∧
        s.children = [⟨0, .woken⟩] :=
    System.exists_reachable slowThread rfl (by decide +kernel)
  exact ⟨s, hreach, hmain, 0, hchildren⟩

end OpenPosix.Threads.Self

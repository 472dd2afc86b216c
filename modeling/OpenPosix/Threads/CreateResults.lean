import OpenPosix.Threads.CreateInvariant

/-!
# `m_synchro` over the scenario loop

When the first `pthread_create` of a scenario fails, which `main` accepts unless the scenario is
expected to succeed, `main` goes on to the next scenario without unlocking `m_synchro`. It then
waits for itself at the next scenario that it does not skip, or leaves the loop as the owner of the
mutex (`main_keeps_synchro`). `synchro_free_iff` says that nothing else goes wrong: `main` starts
every scenario without `m_synchro`, and the mutex is free after the loop, exactly when the first
creation of every scenario that is not skipped succeeds.
-/

namespace OpenPosix.Threads.Create

open Interleaving

variable {c : Config} {s s' : State} {sc n : ℕ} {scenario : Scenario}

attribute [simp] State.goto

def FirstSucceed (c : Config) : Prop :=
  ∀ (sc : ℕ) (scenario : Scenario), c.scenarios[sc]? = some scenario →
    scenario.bottom c.stackOptions = false → c.first sc = true

/-- `main` is not about to lock a mutex that it owns, and the mutex is free after the loop. -/
structure SynchroFree (s : State) : Prop where
  start : s.point = .lockStart → s.mSynchro ≠ some .main
  done : s.point = .done → s.mSynchro = none

/-! ### Scenarios whose first creation succeeds -/

/-- The points at which `main` has chosen a scenario and has created no thread for it. -/
@[simp] def MainPoint.starting : MainPoint → Bool
  | .lockStart | .reset | .createFirst => true
  | _ => false

/-- `main` owns `m_synchro` only from a lock to the next unlock, and it has skipped the scenarios
with a stack of their own. -/
structure Regular (c : Config) (s : State) : Prop where
  owner : s.mSynchro = some .main → s.point.holds = true
  chosen : s.point.starting = true → ∃ scenario, c.scenarios[s.sc]? = some scenario ∧
    scenario.bottom c.stackOptions = false

theorem Regular.not_owner (h : Regular c s) (hpoint : s.point.holds = false) :
    s.mSynchro ≠ some .main := fun howner ↦
  absurd ((h.owner howner).symm.trans hpoint) (by simp)

theorem Regular.main_step (h : Regular c s) (hfirst : FirstSucceed c) (hstep : MainStep c s s') :
    Regular c s' := by
  cases hstep with
  | finish hpoint | skip hpoint | next hpoint =>
    have howner := h.not_owner (by rw [hpoint]; rfl)
    exact ⟨fun hmain ↦ absurd hmain howner, by simp⟩
  | choose hpoint hscenario hbottom =>
    have howner := h.not_owner (by rw [hpoint]; rfl)
    exact ⟨fun hmain ↦ absurd hmain howner, fun _ ↦ ⟨_, hscenario, hbottom⟩⟩
  | lockStart hpoint | reset hpoint =>
    exact ⟨fun _ ↦ rfl, fun _ ↦ h.chosen (by rw [hpoint]; rfl)⟩
  | failFirst hpoint hfails =>
    obtain ⟨scenario, hscenario, hbottom⟩ := h.chosen (by rw [hpoint]; rfl)
    exact absurd (hfails.symm.trans (hfirst s.sc scenario hscenario hbottom)) (by simp)
  | createFirst | waitSem | lockCheck | readCtl =>
    exact ⟨fun _ ↦ rfl, by simp⟩
  | @unlock detached =>
    refine ⟨by simp, ?_⟩
    cases detached <;> simp
  | join hpoint =>
    have howner := h.not_owner (by rw [hpoint]; rfl)
    split <;> exact ⟨fun hmain ↦ absurd hmain howner, by simp⟩
  | unlockCheck =>
    refine ⟨by simp, ?_⟩
    split <;> simp

/-- Wherever `main` goes after a further creation, it owns `m_synchro` there. -/
theorem regular_of_createNext {created : Bool} (hnext : createNext c created s = some s') :
    Regular c s' := by
  unfold createNext at hnext
  split_ifs at hnext <;>
    exact Option.some.inj hnext ▸ ⟨fun _ ↦ rfl, by simp⟩

theorem Regular.threaded (h : Regular c s) (hnext : Create.threaded n s = some s') :
    Regular c s' := by
  obtain ⟨child, child', hstep⟩ := childStep_of_threaded hnext
  constructor
  · intro howner
    rw [hstep.point]
    obtain ⟨-, hsame⟩ | ⟨-, -, hchild⟩ | ⟨-, -, hfree⟩ := hstep.owner
    · exact h.owner (hsame ▸ howner)
    · simp [hchild] at howner
    · simp [hfree] at howner
  · rw [hstep.point, hstep.sc]
    exact h.chosen

/-- Assumes: all first creations succeed. `main` owns `m_synchro` only from a lock to an unlock. -/
theorem regular_of_reachable (hfirst : FirstSucceed c) (h : (program c).Reachable s) :
    Regular c s := by
  refine h.invariant (fun s hs ↦ ?_) fun s thread s' _ hregular hnext ↦ ?_
  · rw [show s = Create.start from hs]
    exact ⟨by simp [start], by simp [start]⟩
  · cases thread with
    | main => exact hregular.main_step hfirst (mainStep_of_main hnext)
    | createNext created => exact regular_of_createNext hnext
    | threaded n => exact hregular.threaded hnext

/-- Assumes: all first creations succeed, and a reachable state. `main` starts no scenario as the
owner of `m_synchro`, and leaves the loop with `m_synchro` free. -/
theorem synchroFree_of_firstSucceed (hfirst : FirstSucceed c) (h : (program c).Reachable s) :
    SynchroFree s := by
  have hregular := regular_of_reachable hfirst h
  have hinv := inv_of_reachable h
  constructor
  · intro hpoint
    exact hregular.not_owner (by rw [hpoint]; rfl)
  · intro hpoint
    -- The threads of the last scenario have left the mutex, and `main` has unlocked it.
    cases howner : s.mSynchro with
    | none => rfl
    | some owner =>
      cases owner with
      | main => exact absurd howner (hregular.not_owner (by rw [hpoint]; rfl))
      | child n =>
        obtain ⟨child, hchild, hholds⟩ := (hinv.child n).mp howner
        have hleft := hinv.quiet (by rw [hpoint]; rfl) child (List.mem_of_getElem? hchild)
        exact absurd (hholds.symm.trans (ChildPoint.left_iff.mp hleft).2) (by simp)

/-! ### Scenarios whose first creation fails -/

/-- `main` is at the head of the loop, and `m_synchro` is free or owned. -/
structure AtLoop (s : State) (sc : ℕ) (owner : Option Owner) : Prop where
  point : s.point = .loop
  sc : s.sc = sc
  owner : s.mSynchro = owner

section Runs

attribute [local simp] System.runSchedule program next main createNext threaded lockSynchro
  State.goto

theorem atLoop_skip {owner : Option Owner} (h : AtLoop s sc owner)
    (hscenario : c.scenarios[sc]? = some scenario)
    (hbottom : scenario.bottom c.stackOptions = true) :
    ∃ s', (program c).Leads s s' ∧ AtLoop s' (sc + 1) owner := by
  obtain ⟨hpoint, rfl, rfl⟩ := h
  have hrun : (program c).runSchedule s [.main, .main] =
      some { s with sc := s.sc + 1, point := .loop } := by
    simp [hpoint, hscenario, hbottom]
  exact ⟨_, System.leads_of_runSchedule hrun, rfl, rfl, rfl⟩

/-- A created thread posts its semaphore, counts itself and returns. -/
theorem leads_child (c : Config) {rest : List ChildPoint}
    (hchildren : s.children = rest ++ [.post]) (hfree : s.mSynchro = none) :
    ∃ sem, (program c).Leads s { s with
      ctl := s.ctl + 1, sem := sem, children := rest ++ [.exited] } := by
  have hrun : ∃ sem, (program c).runSchedule s (List.replicate 6 (.threaded rest.length)) =
      some { s with ctl := s.ctl + 1, sem := sem, children := rest ++ [.exited] } := by
    simp [hchildren, hfree, List.replicate]
  obtain ⟨sem, hrun⟩ := hrun
  exact ⟨sem, System.leads_of_runSchedule hrun⟩

/-- A scenario that works: `main` creates the first thread, gets `EAGAIN` for the second one, and
goes on when the thread has counted itself. -/
theorem atLoop_success (h : AtLoop s sc none) (hscenario : c.scenarios[sc]? = some scenario)
    (hbottom : scenario.bottom c.stackOptions = false) (hfirst : c.first sc = true) :
    ∃ s', (program c).Leads s s' ∧ AtLoop s' (sc + 1) none := by
  obtain ⟨hpoint, rfl, hfree⟩ := h
  let s₁ : State := { s with
    ctl := 0, nthreads := 0, child := s.children.length, children := s.children ++ [.post],
    mSynchro := none, point := if scenario.detached then .lockCheck else .join 0 }
  have hcreates : (program c).runSchedule s
      (List.replicate 4 .main ++ [.createNext false, .main]) = some s₁ := by
    simp [List.replicate, hpoint, hscenario, hbottom, hfirst, hfree, s₁]
  obtain ⟨sem, hchild⟩ := leads_child (s := s₁) c rfl rfl
  let s₂ : State := { s₁ with ctl := 1, sem := sem, children := s.children ++ [.exited] }
  let s₃ : State := { s₂ with tmp := 1, sc := s.sc + 1, point := .loop }
  have hends : (program c).Leads s₂ s₃ := by
    cases hdetached : scenario.detached with
    | true =>
      have hrun : (program c).runSchedule s₂ (List.replicate 4 .main) = some s₃ := by
        simp [List.replicate, hdetached, s₁, s₂, s₃]
      exact System.leads_of_runSchedule hrun
    | false =>
      have hrun : (program c).runSchedule s₂ (List.replicate 5 .main) = some s₃ := by
        simp [List.replicate, hdetached, s₁, s₂, s₃, State.joined]
      exact System.leads_of_runSchedule hrun
  exact ⟨s₃, ((System.leads_of_runSchedule hcreates).trans hchild).trans hends, rfl, rfl, rfl⟩

/-- A scenario whose first creation fails: `main` goes on as the owner of `m_synchro`. -/
theorem atLoop_failure (h : AtLoop s sc none) (hscenario : c.scenarios[sc]? = some scenario)
    (hbottom : scenario.bottom c.stackOptions = false) (hfirst : c.first sc = false) :
    ∃ s', (program c).Leads s s' ∧ AtLoop s' (sc + 1) (some .main) := by
  obtain ⟨hpoint, rfl, hfree⟩ := h
  have hrun : (program c).runSchedule s (List.replicate 5 .main) = some { s with
      mSynchro := some .main, ctl := 0, nthreads := 0, sc := s.sc + 1, point := .loop } := by
    simp [List.replicate, hpoint, hscenario, hbottom, hfirst, hfree]
  exact ⟨_, System.leads_of_runSchedule hrun, rfl, rfl, rfl⟩

theorem leads_done {owner : Option Owner} (h : AtLoop s sc owner)
    (hsc : c.scenarios.length ≤ sc) : (program c).Leads s (s.goto .done) := by
  have hscenario : c.scenarios[s.sc]? = none := List.getElem?_eq_none (h.sc ▸ hsc)
  have hrun : (program c).runSchedule s [.main] = some (s.goto .done) := by
    simp [h.point, hscenario]
  exact System.leads_of_runSchedule hrun

theorem leads_lockStart {owner : Option Owner} (h : AtLoop s sc owner)
    (hscenario : c.scenarios[sc]? = some scenario)
    (hbottom : scenario.bottom c.stackOptions = false) :
    (program c).Leads s (s.goto .lockStart) := by
  have hrun : (program c).runSchedule s [.main] = some (s.goto .lockStart) := by
    simp [h.point, h.sc, hscenario, hbottom]
  exact System.leads_of_runSchedule hrun

end Runs

/-- At the head of the loop as the owner of `m_synchro`, `main` gets to the lock of the next
scenario that it does not skip, or to the end of the loop, and still owns `m_synchro` there. -/
theorem leads_not_synchroFree (h : AtLoop s sc (some .main)) :
    ∃ s', (program c).Leads s s' ∧ ¬ SynchroFree s' := by
  induction hleft : c.scenarios.length - sc generalizing s sc with
  | zero =>
    exact ⟨_, leads_done h (by omega),
      fun hsynchro ↦ absurd (h.owner.symm.trans (hsynchro.done rfl)) (by simp)⟩
  | succ left ih =>
    have hlt : sc < c.scenarios.length := by omega
    have hscenario : c.scenarios[sc]? = some c.scenarios[sc] := List.getElem?_eq_getElem hlt
    cases hbottom : c.scenarios[sc].bottom c.stackOptions with
    | true =>
      obtain ⟨s₁, hleads, hloop⟩ := atLoop_skip h hscenario hbottom
      obtain ⟨s', hleads', hsynchro⟩ := ih hloop (by omega)
      exact ⟨s', hleads.trans hleads', hsynchro⟩
    | false =>
      exact ⟨_, leads_lockStart h hscenario hbottom, fun hsynchro ↦ hsynchro.start rfl h.owner⟩

/-- Assumes: the scenarios before `sc` are skipped or work. `main` can get to scenario `sc` with
`m_synchro` free. -/
theorem reachable_atLoop (hsc : sc ≤ c.scenarios.length)
    (hbefore : ∀ (earlier : ℕ) (scenario : Scenario), earlier < sc →
      c.scenarios[earlier]? = some scenario → scenario.bottom c.stackOptions = false →
      c.first earlier = true) :
    ∃ s, (program c).Reachable s ∧ AtLoop s sc none := by
  induction sc with
  | zero => exact ⟨start, System.reachable_of_initial (P := program c) rfl, rfl, rfl, rfl⟩
  | succ sc ih =>
    obtain ⟨s, hreach, hloop⟩ := ih (by omega) fun earlier scenario hlt ↦
      hbefore earlier scenario (by omega)
    have hscenario : c.scenarios[sc]? = some c.scenarios[sc] := List.getElem?_eq_getElem hsc
    cases hbottom : c.scenarios[sc].bottom c.stackOptions with
    | true =>
      obtain ⟨s', hleads, hloop'⟩ := atLoop_skip hloop hscenario hbottom
      exact ⟨s', hreach.leads hleads, hloop'⟩
    | false =>
      obtain ⟨s', hleads, hloop'⟩ := atLoop_success hloop hscenario hbottom
        (hbefore sc _ (by omega) hscenario hbottom)
      exact ⟨s', hreach.leads hleads, hloop'⟩

/-- `main` is about to lock `m_synchro` for a scenario, and owns it. -/
structure SelfBlocked (s : State) : Prop where
  point : s.point = .lockStart
  owner : s.mSynchro = some .main

/-- Only `main` could unlock the mutex it waits for. -/
theorem SelfBlocked.step {thread : Thread} (h : SelfBlocked s) (hinv : Inv s)
    (hnext : next c s thread = some s') : SelfBlocked s' := by
  cases thread with
  | main => simp [next, main, h.point, lockSynchro, h.owner] at hnext
  | createNext created => simp [next, createNext, h.point] at hnext
  | threaded n =>
    obtain ⟨child, child', hstep⟩ := childStep_of_threaded hnext
    exact ⟨hstep.point.trans h.point, (hinv.same_of_main hstep h.owner).1.trans h.owner⟩

/-- Assumes: a reachable state in which `main` waits for itself. It does so in every continuation.
-/
theorem SelfBlocked.leads (h : SelfBlocked s) (hreach : (program c).Reachable s)
    (hleads : (program c).Leads s s') : SelfBlocked s' :=
  (hleads.invariant
    (fun _ _ _ hreach hblocked hnext ↦ hblocked.step (inv_of_reachable hreach) hnext) hreach h).2

/-! ### The scenarios of `threads_scenarii.c` -/

/-- The scenarios of the program, with one whose outcome is not known and whose first creation
fails; all other first creations succeed. -/
def failsAt (failing : ℕ)
    (h : ∀ scenario, scenarii[failing]? = some scenario → scenario.result = .unknown) : Config where
  scenarios := scenarii
  stackOptions := true
  myMax := 1000
  threadsMax := false
  first := fun sc ↦ sc ≠ failing
  admitted := by
    intro sc scenario hscenario _
    by_cases hsc : sc = failing
    · subst hsc
      rw [h scenario hscenario]
      rfl
    · simpa [hsc] using
        Expected.admits_true_iff.mpr (result_ne_fail (List.mem_of_getElem? hscenario))

/-- The scenario "Explicit FIFO max param" fails, as it does without the privilege for it. -/
def fifoFails : Config := failsAt 17 fun _ hscenario ↦ by cases hscenario; rfl

/-- The last scenario, "Detached, explicit RR min param, alt scope", fails. -/
def lastFails : Config := failsAt 32 fun _ hscenario ↦ by cases hscenario; rfl

/-- The first creations of a scenario before the failing one succeed. -/
theorem reachable_failure (failing : ℕ) {scenario : Scenario}
    (h : ∀ scenario, scenarii[failing]? = some scenario → scenario.result = .unknown)
    (hscenario : scenarii[failing]? = some scenario) (hbottom : scenario.bottom true = false) :
    ∃ s, (program (failsAt failing h)).Reachable s ∧ AtLoop s (failing + 1) (some .main) := by
  have hlength : failing < scenarii.length := (List.getElem?_eq_some_iff.mp hscenario).1
  obtain ⟨s, hreach, hloop⟩ := reachable_atLoop (c := failsAt failing h) (Nat.le_of_lt hlength)
    fun earlier _ hlt _ _ ↦ by simp [failsAt, Nat.ne_of_lt hlt]
  obtain ⟨s', hleads, hloop'⟩ := atLoop_failure (c := failsAt failing h) hloop hscenario
    hbottom (by simp [failsAt])
  exact ⟨s', hreach.leads hleads, hloop'⟩

/-- When the creation with an explicit FIFO policy fails, `main` locks `m_synchro` for the next
scenario while it owns it, and waits for itself for ever. When the creation of the last scenario
fails, `main` owns `m_synchro` after the loop. -/
theorem main_keeps_synchro :
    (∃ s, (program fifoFails).Reachable s ∧
      ∀ s', (program fifoFails).Leads s s' → SelfBlocked s') ∧
    ∃ s, (program lastFails).Reachable s ∧ s.point = .done ∧ s.mSynchro = some .main := by
  constructor
  · obtain ⟨s, hreach, hloop⟩ := reachable_failure 17 _ rfl rfl
    have hlock := hreach.leads (leads_lockStart hloop rfl rfl)
    have hblocked : SelfBlocked (s.goto .lockStart) := ⟨rfl, hloop.owner⟩
    exact ⟨_, hlock, fun s' hleads ↦ hblocked.leads hlock hleads⟩
  · obtain ⟨s, hreach, hloop⟩ := reachable_failure 32 _ rfl rfl
    exact ⟨_, hreach.leads (leads_done hloop (by decide)), rfl, hloop.owner⟩

/-! ### The condition -/

/-- Whatever the scenarios and the outcomes of their first `pthread_create` that `main` accepts:
`main` never gets to the lock at the start of a scenario as the owner of `m_synchro`, and
`m_synchro` is free when the loop ends, exactly when the first creation of every scenario that is
not skipped succeeds. -/
theorem synchro_free_iff (c : Config) :
    (∀ s, (program c).Reachable s → SynchroFree s) ↔ FirstSucceed c := by
  refine ⟨fun hall ↦ ?_, fun hfirst s hreach ↦ synchroFree_of_firstSucceed hfirst hreach⟩
  intro sc
  -- The scenarios before the first failing one can be passed with `m_synchro` free.
  induction sc using Nat.strong_induction_on with
  | _ sc ih =>
    intro scenario hscenario hbottom
    by_contra hfirst
    have hlength : sc < c.scenarios.length := (List.getElem?_eq_some_iff.mp hscenario).1
    obtain ⟨s, hreach, hloop⟩ := reachable_atLoop (Nat.le_of_lt hlength)
      fun earlier scenario hlt ↦ ih earlier hlt scenario
    obtain ⟨s₁, hleads₁, hloop₁⟩ := atLoop_failure hloop hscenario hbottom (by simpa using hfirst)
    obtain ⟨s₂, hleads₂, hsynchro⟩ := leads_not_synchroFree hloop₁
    exact hsynchro (hall s₂ ((hreach.leads hleads₁).leads hleads₂))

/-- The scenarios of the program, all of whose first creations succeed. -/
def allSucceed : Config where
  scenarios := scenarii
  stackOptions := true
  myMax := 1000
  threadsMax := false
  first := fun _ ↦ true
  admitted := fun _ _ hscenario _ ↦
    Expected.admits_true_iff.mpr (result_ne_fail (List.mem_of_getElem? hscenario))

/-- With them `main` gets to the end of the loop, and `m_synchro` is free there. -/
theorem synchro_free_allSucceed :
    ∃ s, (program allSucceed).Reachable s ∧ s.point = .done ∧ s.mSynchro = none := by
  have hfree := (synchro_free_iff allSucceed).mpr fun _ _ _ _ ↦ rfl
  obtain ⟨s, hreach, hloop⟩ := reachable_atLoop (c := allSucceed) (Nat.le_refl _)
    fun _ _ _ _ _ ↦ rfl
  have hdone := hreach.leads (leads_done hloop (Nat.le_refl _))
  exact ⟨_, hdone, rfl, (hfree _ hdone).done rfl⟩

end OpenPosix.Threads.Create

import Mathlib.Data.List.Infix
import Mathlib.Logic.Relation

/-!
# Programs under an arbitrary scheduler

A program of several threads is a set of initial states and, for every thread, the next atomic step
of that thread (`System`). A thread without a next step is blocked or has ended. The scheduler is
not modelled: a run picks any thread that has a step, so a statement about every run (`Exec`) is a
statement about every interleaving.

A run carries the list of its steps, each as the state it was taken in and the thread that took it.
Whatever a program is observed to do (the items it wrote, the number of times it passed a point) is
a function of that list, and the states need no field for it. `Exec.take` and `Exec.at` give back
the states inside a run, and `Reachable.invariant` is the rule for properties of single states.
`exists_leads_of_measure` is the rule for what a program can still get to. `runSchedule` replays a
fixed schedule, which is how a concrete run is exhibited.
-/

namespace OpenPosix.Interleaving

/-- A program of several threads: its initial states and the next atomic step of each thread. -/
structure System (State Thread : Type*) where
  Initial : State → Prop
  next : State → Thread → Option State

/-- The main thread of a program that starts a list of threads one by one and then waits for a list
of threads: what is left of both lists. -/
structure Launcher (Thread : Type*) where
  creates : List Thread
  joins : List Thread

namespace Launcher

variable {Thread : Type*} {launcher : Launcher Thread} {unborn unborn' : Thread → Prop}

section Next

variable {State : Type*} {create : Launcher Thread → Thread → State} {exited : Thread → Bool}
  {goto : Launcher Thread → State} {state : State}

/-- The next step of the main thread: it starts the next thread, and after the last one it waits for
the next thread to exit. -/
def next (launcher : Launcher Thread) (create : Launcher Thread → Thread → State)
    (exited : Thread → Bool) (goto : Launcher Thread → State) : Option State :=
  match launcher with
  | ⟨thread :: rest, joins⟩ => some (create ⟨rest, joins⟩ thread)
  | ⟨[], thread :: rest⟩ => if exited thread then some (goto ⟨[], rest⟩) else none
  | ⟨[], []⟩ => none

theorem next_cases (h : launcher.next create exited goto = some state) :
    (∃ thread rest, launcher.creates = thread :: rest ∧
      state = create ⟨rest, launcher.joins⟩ thread) ∨
    launcher.creates = [] ∧ ∃ thread joins, launcher.joins = thread :: joins ∧
      exited thread = true ∧ state = goto ⟨[], joins⟩ := by
  unfold next at h
  split at h
  case h_1 thread rest joins =>
    cases h
    exact .inl ⟨thread, rest, rfl, rfl⟩
  case h_2 thread rest =>
    obtain ⟨hexited, ⟨⟩⟩ := Option.ite_none_right_eq_some.mp h
    exact .inr ⟨rfl, thread, rest, rfl, hexited, rfl⟩
  case h_3 => cases h

theorem next_isSome (h : launcher.creates ≠ []) :
    (launcher.next create exited goto).isSome = true := by
  obtain ⟨creates, joins⟩ := launcher
  cases creates with
  | nil => exact absurd rfl h
  | cons thread rest => rfl

end Next

/-- The threads that do not exist yet are those left to start, each of them once. -/
structure Covers (launcher : Launcher Thread) (unborn : Thread → Prop) : Prop where
  unborn_iff : ∀ thread, unborn thread ↔ thread ∈ launcher.creates
  nodup : launcher.creates.Nodup

theorem Covers.congr (h : launcher.Covers unborn)
    (hsame : ∀ thread, unborn' thread ↔ unborn thread) : launcher.Covers unborn' :=
  ⟨fun thread ↦ (hsame thread).trans (h.unborn_iff thread), h.nodup⟩

/-- Assumes: the first thread to start exists now, and nothing changes for the others. -/
theorem Covers.create {thread : Thread} {rest : List Thread} (h : launcher.Covers unborn)
    (hcreates : launcher.creates = thread :: rest) (hborn : ¬ unborn' thread)
    (hothers : ∀ other, other ≠ thread → (unborn' other ↔ unborn other)) (joins : List Thread) :
    Covers ⟨rest, joins⟩ unborn' := by
  obtain ⟨hfirst, hrest⟩ := List.nodup_cons.mp (hcreates ▸ h.nodup)
  refine ⟨fun other ↦ ?_, hrest⟩
  by_cases heq : other = thread
  · rw [heq]
    exact iff_of_false hborn hfirst
  · rw [hothers other heq, h.unborn_iff other, hcreates, List.mem_cons]
    exact or_iff_right heq

theorem Covers.join {creates : List Thread} (h : launcher.Covers unborn)
    (hcreates : launcher.creates = creates) (joins : List Thread) :
    Covers ⟨creates, joins⟩ unborn := by
  subst hcreates
  exact ⟨h.unborn_iff, h.nodup⟩

end Launcher

namespace System

variable {State Thread : Type*} (P : System State Thread)

/-- The runs of a program: the list of steps taken, oldest first, and the state reached. -/
inductive Exec : List (State × Thread) → State → Prop
  | start {state : State} : P.Initial state → Exec [] state
  | step {trace : List (State × Thread)} {state state' : State} {thread : Thread} :
    Exec trace state → P.next state thread = some state' → Exec (trace ++ [(state, thread)]) state'

/-- A state at the end of some run. -/
def Reachable (state : State) : Prop := ∃ trace, P.Exec trace state

/-- A thread that has a next step. -/
def Enabled (state : State) (thread : Thread) : Prop := (P.next state thread).isSome

/-- The states some continuation of a run leads to. -/
def Leads : State → State → Prop :=
  Relation.ReflTransGen fun state state' ↦ ∃ thread, P.next state thread = some state'

/-- The states of a run: those its steps were taken in, and the last one. -/
def Visits (trace : List (State × Thread)) (last state : State) : Prop :=
  state = last ∨ ∃ thread, (state, thread) ∈ trace

/-- Runs the threads of a schedule in order, failing at the first one without a step. -/
def runSchedule : State → List Thread → Option State
  | state, [] => some state
  | state, thread :: rest => (P.next state thread).bind fun state' ↦ runSchedule state' rest

/-- The steps that a schedule takes, up to the first thread without a step. -/
def traceOf : State → List Thread → List (State × Thread)
  | _, [] => []
  | state, thread :: rest =>
    match P.next state thread with
    | some state' => (state, thread) :: traceOf state' rest
    | none => []

/-- The program when only the allowed moves are made. -/
def restrict (allowed : Thread → Bool) : System State Thread where
  Initial := P.Initial
  next := fun state thread ↦ if allowed thread then P.next state thread else none

variable {P}

theorem restrict_next_eq_some_iff {allowed : Thread → Bool} {state state' : State}
    {thread : Thread} : (P.restrict allowed).next state thread = some state' ↔
      allowed thread = true ∧ P.next state thread = some state' := by
  simp [restrict]

/-- Every initial part of a run is a run. -/
theorem Exec.take {first : List (State × Thread)} (second : List (State × Thread)) :
    ∀ {state : State}, P.Exec (first ++ second) state → ∃ middle, P.Exec first middle := by
  induction second using List.reverseRecOn with
  | nil =>
    intro state h
    rw [List.append_nil] at h
    exact ⟨state, h⟩
  | append_singleton rest last ih =>
    intro state h
    rw [← List.append_assoc] at h
    generalize hall : (first ++ rest) ++ [last] = trace at h
    cases h with
    | start => simp at hall
    | step hbefore _ =>
      obtain ⟨hrest, -⟩ := List.append_inj' hall rfl
      exact ih (hrest ▸ hbefore)

/-- A step inside a run was taken in a state that the steps before it lead to. -/
theorem Exec.at {first second : List (State × Thread)} {state last : State} {thread : Thread}
    (h : P.Exec (first ++ (state, thread) :: second) last) :
    P.Exec first state ∧ ∃ state', P.next state thread = some state' := by
  rw [List.append_cons] at h
  obtain ⟨middle, hmiddle⟩ := h.take
  generalize hall : first ++ [(state, thread)] = trace at hmiddle
  cases hmiddle with
  | start => simp at hall
  | step hbefore hnext =>
    obtain ⟨rfl, hstep⟩ := List.append_inj' hall rfl
    obtain ⟨rfl, rfl⟩ : state = _ ∧ thread = _ := by simpa using hstep
    exact ⟨hbefore, _, hnext⟩

/-- The states of a run are reachable. -/
theorem Exec.reachable_of_visits {trace : List (State × Thread)} {last state : State}
    (h : P.Exec trace last) (hvisits : Visits trace last state) : P.Reachable state := by
  obtain rfl | ⟨thread, hmem⟩ := hvisits
  · exact ⟨trace, h⟩
  · obtain ⟨first, second, rfl⟩ := List.append_of_mem hmem
    exact ⟨first, h.at.1⟩

/-- Assumes: a property of states that holds initially and is kept by every step taken in a
reachable state. It holds in every reachable state. -/
theorem Reachable.invariant {Inv : State → Prop} (hinit : ∀ state, P.Initial state → Inv state)
    (hstep : ∀ state thread state', P.Reachable state → Inv state →
      P.next state thread = some state' → Inv state') {state : State} (h : P.Reachable state) :
    Inv state := by
  obtain ⟨trace, hrun⟩ := h
  induction hrun with
  | start hinitial => exact hinit _ hinitial
  | step hbefore hnext ih => exact hstep _ _ _ ⟨_, hbefore⟩ ih hnext

theorem Reachable.step {state state' : State} {thread : Thread} (h : P.Reachable state)
    (hnext : P.next state thread = some state') : P.Reachable state' := by
  obtain ⟨trace, hrun⟩ := h
  exact ⟨_, hrun.step hnext⟩

theorem Leads.refl (state : State) : P.Leads state state := Relation.ReflTransGen.refl

theorem Leads.trans {first second third : State} (h : P.Leads first second)
    (h' : P.Leads second third) : P.Leads first third :=
  Relation.ReflTransGen.trans h h'

theorem leads_of_next {state state' : State} {thread : Thread}
    (hnext : P.next state thread = some state') : P.Leads state state' :=
  .single ⟨thread, hnext⟩

/-- Assumes: a property of states that every step taken in a reachable state keeps. Every
continuation of a run keeps it. -/
theorem Leads.invariant {Inv : State → Prop}
    (hstep : ∀ state thread state', P.Reachable state → Inv state →
      P.next state thread = some state' → Inv state') {state state' : State}
    (h : P.Leads state state') (hreach : P.Reachable state) (hinv : Inv state) :
    P.Reachable state' ∧ Inv state' := by
  induction h with
  | refl => exact ⟨hreach, hinv⟩
  | tail _ hnext ih =>
    obtain ⟨thread, hnext⟩ := hnext
    exact ⟨ih.1.step hnext, hstep _ _ _ ih.1 ih.2 hnext⟩

/-- The same for a property that every step keeps. -/
theorem Leads.keeps {Inv : State → Prop}
    (hstep : ∀ state thread state', Inv state → P.next state thread = some state' → Inv state')
    {state state' : State} (h : P.Leads state state') (hinv : Inv state) : Inv state' := by
  induction h with
  | refl => exact hinv
  | tail _ hnext ih =>
    obtain ⟨thread, hnext⟩ := hnext
    exact hstep _ _ _ ih hnext

theorem leads_of_restrict {allowed : Thread → Bool} {state state' : State}
    (h : (P.restrict allowed).Leads state state') : P.Leads state state' := by
  induction h with
  | refl => exact .refl _
  | tail _ hnext ih =>
    obtain ⟨thread, hnext⟩ := hnext
    exact ih.trans (leads_of_next (restrict_next_eq_some_iff.mp hnext).2)

theorem Reachable.leads {state state' : State} (h : P.Reachable state)
    (hleads : P.Leads state state') : P.Reachable state' :=
  (hleads.invariant (fun _ _ _ _ _ _ ↦ trivial) h trivial).1

/-- Assumes: from every state with the property and without the goal, some steps lead to a state
with the property and a smaller measure. Every state with the property leads to the goal. -/
theorem exists_leads_of_progress {Inv Goal : State → Prop} (measure : State → ℕ)
    (hstep : ∀ state, Inv state → ¬ Goal state → ∃ state',
      P.Leads state state' ∧ Inv state' ∧ measure state' < measure state)
    {state : State} (h : Inv state) :
    ∃ state', P.Leads state state' ∧ Inv state' ∧ Goal state' := by
  generalize hmeasure : measure state = bound
  induction bound using Nat.strongRecOn generalizing state with
  | _ bound ih =>
    by_cases hgoal : Goal state
    · exact ⟨state, .refl state, h, hgoal⟩
    · obtain ⟨middle, hfirst, hmiddle, hless⟩ := hstep state h hgoal
      obtain ⟨last, hleads, hlast⟩ := ih (measure middle) (hmeasure ▸ hless) hmiddle rfl
      exact ⟨last, hfirst.trans hleads, hlast⟩

/-- Assumes: in every state with the property and without the goal, some thread has a step that
keeps the property and makes the measure smaller. Every state with the property leads to the goal.
-/
theorem exists_leads_of_measure {Inv Goal : State → Prop} (measure : State → ℕ)
    (hstep : ∀ state, Inv state → ¬ Goal state → ∃ thread state',
      P.next state thread = some state' ∧ Inv state' ∧ measure state' < measure state)
    {state : State} (h : Inv state) :
    ∃ state', P.Leads state state' ∧ Inv state' ∧ Goal state' := by
  refine exists_leads_of_progress measure (fun state hinv hgoal ↦ ?_) h
  obtain ⟨thread, middle, hnext, hmiddle⟩ := hstep state hinv hgoal
  exact ⟨middle, leads_of_next hnext, hmiddle⟩

/-- Assumes: every step taken in a state with the property keeps it and makes the measure smaller.
The measure bounds the number of steps that can follow. -/
theorem length_le_of_measure {Inv : State → Prop} (measure : State → ℕ)
    (hstep : ∀ state thread state', Inv state → P.next state thread = some state' →
      Inv state' ∧ measure state' < measure state) {schedule : List Thread} :
    ∀ {state last : State}, Inv state → P.runSchedule state schedule = some last →
      schedule.length ≤ measure state := by
  induction schedule with
  | nil => exact fun _ _ ↦ Nat.zero_le _
  | cons thread rest ih =>
    intro state last hinv hrun
    obtain ⟨state', hnext, hrest⟩ := Option.bind_eq_some_iff.mp hrun
    obtain ⟨hinv', hless⟩ := hstep state thread state' hinv hnext
    exact (Nat.succ_le_succ (ih hinv' hrest)).trans hless

/-- Where a schedule ends can be found by evaluating it. -/
theorem exists_of_replay {Goal : State → Prop} [DecidablePred Goal] {state : State}
    {schedule : List Thread} (h : (P.runSchedule state schedule).any (fun s ↦ Goal s) = true) :
    ∃ last, P.runSchedule state schedule = some last ∧ Goal last := by
  obtain ⟨last, hrun, hgoal⟩ := (Option.any_eq_true _ _).mp h
  exact ⟨last, hrun, of_decide_eq_true hgoal⟩

/-- A replayed schedule extends a run. -/
theorem Exec.runSchedule {schedule : List Thread} :
    ∀ {trace : List (State × Thread)} {state last : State}, P.Exec trace state →
      P.runSchedule state schedule = some last →
        P.Exec (trace ++ P.traceOf state schedule) last := by
  induction schedule with
  | nil =>
    intro trace state last h hrun
    obtain rfl : state = last := by simpa [System.runSchedule] using hrun
    simpa [traceOf] using h
  | cons thread rest ih =>
    intro trace state last h hrun
    obtain ⟨state', hnext, hrest⟩ := Option.bind_eq_some_iff.mp hrun
    have hrun' := ih (h.step hnext) hrest
    simpa [traceOf, hnext] using hrun'

theorem leads_of_runSchedule {schedule : List Thread} :
    ∀ {state last : State}, P.runSchedule state schedule = some last → P.Leads state last := by
  induction schedule with
  | nil =>
    intro state last hrun
    obtain rfl : state = last := by simpa [System.runSchedule] using hrun
    exact .refl state
  | cons thread rest ih =>
    intro state last hrun
    obtain ⟨state', hnext, hrest⟩ := Option.bind_eq_some_iff.mp hrun
    exact (leads_of_next hnext).trans (ih hrest)

/-- The end of a replayed schedule is reachable. Assumes: it starts in a reachable state. -/
theorem Reachable.runSchedule {schedule : List Thread} {state last : State}
    (h : P.Reachable state) (hrun : P.runSchedule state schedule = some last) :
    P.Reachable last := by
  obtain ⟨trace, hbefore⟩ := h
  exact ⟨_, hbefore.runSchedule hrun⟩

theorem reachable_of_initial {state : State} (h : P.Initial state) : P.Reachable state :=
  ⟨[], .start h⟩

/-- A schedule from an initial state is replayed to exhibit a reachable state. -/
theorem exists_reachable {Goal : State → Prop} [DecidablePred Goal] {state : State}
    (schedule : List Thread) (hinitial : P.Initial state)
    (h : (P.runSchedule state schedule).any (fun s ↦ Goal s) = true) :
    ∃ last, P.Reachable last ∧ Goal last := by
  obtain ⟨last, hrun, hgoal⟩ := exists_of_replay h
  exact ⟨last, (reachable_of_initial hinitial).runSchedule hrun, hgoal⟩

end System

end OpenPosix.Interleaving

import OpenPosix.Threads.ForkCascade

/-!
# The exits of the scalability test of `fork`

`stress/threads/fork/s-c1.c`, with calls that fail. The children of the test wait for `sem_ending`,
which the parent has to post before it ends, whichever way it ends. `ForkCascade` has the runs in
which only `fork` can fail. Here every call of the parent in and after its loop can: the two
readings of the clock, `sem_wait`, `malloc`, `sem_post`, `waitpid` and the calls of `parse_measure`.
Most of them end the program through a `sem_post` of `sem_ending`; the two readings of the clock do
not.

The state is one of `ForkCascade`, with what the parent does about a call that has failed
(`Control`). A post on the way out takes the parent to the point `failed`, which stands for an end
after a post. An interrupted call is repeated and is no step here. The children make no errors.

`orphans_iff` is the result: some child waits for ever exactly if the parent ends because it cannot
read the clock, or because its post fails.
-/

namespace OpenPosix.Threads.Fork.Exits

open Interleaving

/-- The ways the parent ends, once there are children: `UNRESOLVED`, `FAILED` or `PASSED`, with
their texts. -/
inductive Exit
  /-- `Unable to read clock`, before `fork` -/
  | clockRef
  /-- `Failed to fork and received an unexpected error` -/
  | forkFailed
  /-- `Failed to wait for the sync semaphore` -/
  | waitSynchro
  /-- `Unable to read clock`, after `fork` -/
  | clockFin
  /-- `Unable to alloc memory for measure saving` -/
  | malloc
  /-- `Failed post the end semaphore` -/
  | postEnding
  /-- `Waitpid returned the wrong PID` -/
  | wrongPid
  /-- `Child exited abnormally` -/
  | abnormal
  /-- `Unable to alloc space for results parsing` -/
  | parse
  /-- `The function is not scalable, add verbosity for more information` -/
  | notScalable
  | passed
  deriving DecidableEq, Repr

/-- The parent goes on, is about to post `sem_ending` and to end, or has ended. -/
inductive Control
  | running
  | posting (exit : Exit)
  | ended (exit : Exit)
  deriving DecidableEq, Repr

/-- A state of the program without errors, what the parent does about one, whether it has posted
`sem_ending`, and whether a post has failed. -/
structure State where
  inner : Fork.State
  control : Control
  posted : Bool
  refused : Bool
  deriving DecidableEq, Repr

/-- A step without an error; a call of the parent that fails; a child that did not exit with
`PTS_PASS`; the end of the program, with the result of `parse_measure`; and a post on the way out.
-/
inductive Move
  | call (process : Process)
  | fail
  | abnormal
  | finish (scalable : Bool)
  | post (succeeds : Bool)
  deriving DecidableEq, Repr

/-- The next step of the parent at this point is a post of `sem_ending`. -/
def posts : MainPoint → Bool
  | .postEnding | .postFailed => true
  | _ => false

def State.goto (s : State) (control : Control) : State := { s with control := control }

def call (c : Config) (s : State) (process : Process) : Option State :=
  match process with
  | .child n => (child n s.inner).map fun inner ↦ { s with inner := inner }
  | _ =>
    if s.control = .running then
      (Fork.next c s.inner process).map fun inner ↦
        { s with inner := inner, posted := s.posted || posts s.inner.point }
    else
      none

def fail (c : Config) (s : State) : Option State :=
  match s.inner.point with
  | .readRef => some (s.goto (.ended .clockRef))
  | .fork => none
  | .waitSynchro => some (s.goto (.posting .waitSynchro))
  | .readFin => some (s.goto (.ended .clockFin))
  | .record =>
    if s.inner.nprocesses % c.resolution = 0 ∧ s.inner.nprocesses ≠ 0 then
      some (s.goto (.posting .malloc))
    else
      none
  | .postEnding => some { s.goto (.ended .postEnding) with refused := true }
  | .waitpid i => if i < s.inner.nprocesses then some (s.goto (.ended .wrongPid)) else none
  | .waited => some (s.goto (.ended .parse))
  | .postFailed => some { s.goto (.ended .forkFailed) with refused := true }
  | .failed => none

/-- `waitpid` gives a child that was killed or has exited with another code. -/
def abnormal (s : State) : Option State :=
  match s.inner.point with
  | .waitpid i => if i < s.inner.nprocesses then some (s.goto (.ended .abnormal)) else none
  | _ => none

/-- The end of `main`, and `FAILED` after an unexpected error of `fork`. -/
def finish (s : State) (scalable : Bool) : Option State :=
  match s.inner.point with
  | .waited => some (s.goto (.ended (if scalable then .passed else .notScalable)))
  | .failed => some (s.goto (.ended .forkFailed))
  | _ => none

/-- The post on the way out, whose result is not looked at. -/
def post (s : State) (succeeds : Bool) : Option State :=
  match s.control with
  | .posting exit =>
    if succeeds then
      some { s.goto (.ended exit) with
        inner := { s.inner with semEnding := semPost s.inner.semEnding, point := .failed }
        posted := true }
    else
      some { s.goto (.ended exit) with refused := true }
  | _ => none

def next (c : Config) (s : State) : Move → Option State
  | .call process => call c s process
  | .fail => if s.control = .running then fail c s else none
  | .abnormal => if s.control = .running then abnormal s else none
  | .finish scalable => if s.control = .running then finish s scalable else none
  | .post succeeds => post s succeeds

def program (c : Config) : System State Move where
  Initial := fun s ↦ s = ⟨Fork.start c, .running, false, false⟩
  next := next c

/-! ### What is asked -/

def AllExited (s : State) : Prop := ∀ child ∈ s.inner.children, child = .exited

/-- All children can still come to their end. -/
def NoOrphan (c : Config) (s : State) : Prop := ∃ t, (program c).Leads s t ∧ AllExited t

/-- The parent ends because it cannot read the clock. -/
def Exit.clock : Exit → Bool
  | .clockRef | .clockFin => true
  | _ => false

/-! ### The invariant -/

variable {inner : Fork.State}

variable {c : Config} {s s' : State} {move : Move} {exit : Exit}

/-- The child has not got the unit of `sem_ending`. -/
def early : ChildPoint → Bool
  | .postSynchro | .waitEnding => true
  | _ => false

structure Inv (c : Config) (s : State) : Prop where
  inner : Fork.Inv c s.inner
  posted : s.posted = s.inner.point.released
  early : s.posted = false → ∀ child ∈ s.inner.children, early child = true
  running : s.control = .running → s.refused = false
  posting : ∀ exit, s.control = .posting exit →
    s.posted = false ∧ s.refused = false ∧ exit.clock = false
  ended : ∀ exit, s.control = .ended exit →
    (s.posted = true ↔ exit.clock = false ∧ s.refused = false)

theorem inv_start (c : Config) : Inv c ⟨Fork.start c, .running, false, false⟩ where
  inner := Fork.inv_start
  posted := rfl
  early _ child hmem := absurd hmem List.not_mem_nil
  running _ := rfl
  posting _ hcontrol := by cases hcontrol
  ended _ hcontrol := by cases hcontrol

/-- Before the parent has posted `sem_ending` there is no unit of it. -/
theorem Inv.semEnding_eq_zero (h : Inv c s) (hposted : s.posted = false) :
    s.inner.semEnding = 0 := by
  have hending := h.inner.ending
  rw [← h.posted, hposted] at hending
  exact Nat.eq_zero_of_add_eq_zero_right hending

theorem Inv.early_child {n : ℕ} (h : Inv c s) (hposted : s.posted = false)
    (hnext : child n s.inner = some inner) :
    ∀ child ∈ inner.children, Exits.early child = true := by
  have hearly := h.early hposted
  unfold child at hnext
  split at hnext
  case h_1 | h_2 => cases hnext
  case h_4 =>
    obtain ⟨value, hwait, -⟩ := Option.map_eq_some_iff.mp hnext
    rw [h.semEnding_eq_zero hposted] at hwait
    cases hwait
  case h_3 =>
    cases hnext
    intro child hmem
    rcases List.mem_or_eq_of_mem_set hmem with hold | rfl
    · exact hearly child hold
    · rfl
  all_goals
    rename_i hchild
    exact absurd (hearly _ (List.mem_of_getElem? hchild)) Bool.false_ne_true

theorem Inv.child {n : ℕ} (h : Inv c s) (hnext : child n s.inner = some inner) :
    Inv c { s with inner := inner } := by
  obtain ⟨old, new, hstep⟩ := childStep_of_child hnext
  exact { h with
    inner := h.inner.child hstep
    posted := by rw [hstep.point]; exact h.posted
    early := fun hposted ↦ h.early_child hposted hnext }

/-- What a step of the parent without an error does to the post and to the children. -/
structure ParentStep (before after : Fork.State) : Prop where
  released : after.point.released = (before.point.released || posts before.point)
  early : (∀ child ∈ before.children, Exits.early child = true) →
    ∀ child ∈ after.children, Exits.early child = true

theorem parentStep_main {inner' : Fork.State} (hnext : Fork.main c inner = some inner') :
    ParentStep inner inner' := by
  unfold Fork.main at hnext
  cases hpoint : inner.point with
  | fork | waited | failed => simp [hpoint] at hnext
  | waitSynchro =>
    simp only [hpoint] at hnext
    obtain ⟨value, -, rfl⟩ := Option.map_eq_some_iff.mp hnext
    exact ⟨by rw [hpoint]; rfl, id⟩
  | record =>
    simp only [hpoint] at hnext
    split at hnext
    all_goals
      cases hnext
      exact ⟨by rw [hpoint]; rfl, id⟩
  | waitpid i =>
    simp only [hpoint] at hnext
    split at hnext
    · split at hnext
      · split_ifs at hnext
        cases hnext
        exact ⟨by rw [hpoint]; rfl, id⟩
      · cases hnext
    · cases hnext
      exact ⟨by rw [hpoint]; rfl, id⟩
  | _ =>
    simp only [hpoint] at hnext
    cases hnext
    exact ⟨by rw [hpoint]; rfl, id⟩

theorem parentStep_fork {result : ForkResult} {inner' : Fork.State}
    (hnext : Fork.fork c result inner = some inner') : ParentStep inner inner' := by
  obtain ⟨hpoint, hnext⟩ := Option.ite_none_right_eq_some.mp hnext
  cases result with
  | created =>
    cases hnext
    refine ⟨?_, fun hearly child hmem ↦ ?_⟩
    · rw [hpoint]
      split <;> rfl
    · rcases List.mem_append.mp hmem with hold | hnew
      · exact hearly child hold
      · rw [List.mem_singleton.mp hnew]
        rfl
  | lacking | other =>
    cases hnext
    exact ⟨by rw [hpoint]; rfl, id⟩

theorem Inv.parent (h : Inv c s) (hrun : s.control = .running) (hinner : Fork.Inv c inner)
    (hstep : ParentStep s.inner inner) :
    Inv c { s with inner := inner, posted := s.posted || posts s.inner.point } where
  inner := hinner
  posted := by
    rw [hstep.released, ← h.posted]
  early hposted := hstep.early (h.early (Bool.or_eq_false_iff.mp hposted).1)
  running := h.running
  posting exit hcontrol := by
    rw [hrun] at hcontrol
    cases hcontrol
  ended exit hcontrol := by
    rw [hrun] at hcontrol
    cases hcontrol

theorem Inv.call {process : Process} (h : Inv c s) (hnext : call c s process = some s') :
    Inv c s' := by
  cases process with
  | child n =>
    obtain ⟨inner, hchild, rfl⟩ := Option.map_eq_some_iff.mp hnext
    exact h.child hchild
  | main =>
    obtain ⟨hrun, hnext⟩ := Option.ite_none_right_eq_some.mp hnext
    obtain ⟨inner, hmain, rfl⟩ := Option.map_eq_some_iff.mp hnext
    exact h.parent hrun (h.inner.next hmain) (parentStep_main hmain)
  | fork result =>
    obtain ⟨hrun, hnext⟩ := Option.ite_none_right_eq_some.mp hnext
    obtain ⟨inner, hfork, rfl⟩ := Option.map_eq_some_iff.mp hnext
    exact h.parent hrun (h.inner.next hfork) (parentStep_fork hfork)

/-- The parent ends. Assumes: it has posted `sem_ending` if the exit is not one of those that do
without. -/
theorem Inv.end {refused : Bool} (h : Inv c s)
    (hended : s.posted = true ↔ exit.clock = false ∧ refused = false) :
    Inv c { s.goto (.ended exit) with refused := refused } where
  inner := h.inner
  posted := h.posted
  early := h.early
  running hcontrol := by cases hcontrol
  posting _ hcontrol := by cases hcontrol
  ended _ hcontrol := by
    obtain rfl := Control.ended.inj hcontrol
    exact hended

theorem Inv.leave (h : Inv c s) (hrun : s.control = .running)
    (hposted : s.inner.point.released = false) (hclock : exit.clock = false) :
    Inv c (s.goto (.posting exit)) where
  inner := h.inner
  posted := h.posted
  early := h.early
  running hcontrol := by cases hcontrol
  posting _ hcontrol := by
    obtain rfl := Control.posting.inj hcontrol
    exact ⟨h.posted.trans hposted, h.running hrun, hclock⟩
  ended _ hcontrol := by cases hcontrol

/-- An exit after the post. -/
theorem Inv.end_released (h : Inv c s) (hrun : s.control = .running)
    (hposted : s.inner.point.released = true) (hclock : exit.clock = false) :
    Inv c (s.goto (.ended exit)) :=
  h.end (iff_of_true (h.posted.trans hposted) ⟨hclock, h.running hrun⟩)

theorem Inv.fail (h : Inv c s) (hrun : s.control = .running) (hnext : fail c s = some s') :
    Inv c s' := by
  have hposted := h.posted
  unfold Exits.fail at hnext
  cases hpoint : s.inner.point <;> simp only [hpoint, reduceCtorEq] at hnext
  case readRef | readFin =>
    cases hnext
    rw [hpoint] at hposted
    exact h.end (by simp [hposted, MainPoint.released, Exit.clock])
  case postEnding | postFailed =>
    cases hnext
    rw [hpoint] at hposted
    exact h.end (by simp [hposted, MainPoint.released])
  case waitSynchro =>
    cases hnext
    exact h.leave hrun (by rw [hpoint]; rfl) rfl
  case record =>
    split_ifs at hnext
    cases hnext
    exact h.leave hrun (by rw [hpoint]; rfl) rfl
  case waitpid i =>
    split_ifs at hnext
    cases hnext
    exact h.end_released hrun (by rw [hpoint]; rfl) rfl
  case waited =>
    cases hnext
    exact h.end_released hrun (by rw [hpoint]; rfl) rfl

theorem Inv.abnormal (h : Inv c s) (hrun : s.control = .running) (hnext : abnormal s = some s') :
    Inv c s' := by
  unfold Exits.abnormal at hnext
  split at hnext
  · rename_i hpoint
    split_ifs at hnext
    cases hnext
    exact h.end_released hrun (by rw [hpoint]; rfl) rfl
  · cases hnext

theorem Inv.finish {scalable : Bool} (h : Inv c s) (hrun : s.control = .running)
    (hnext : finish s scalable = some s') : Inv c s' := by
  unfold Exits.finish at hnext
  split at hnext
  · rename_i hpoint
    cases hnext
    exact h.end_released hrun (by rw [hpoint]; rfl) (by cases scalable <;> rfl)
  · rename_i hpoint
    cases hnext
    exact h.end_released hrun (by rw [hpoint]; rfl) rfl
  · cases hnext

theorem Inv.post {succeeds : Bool} (h : Inv c s) (hnext : post s succeeds = some s') :
    Inv c s' := by
  unfold Exits.post at hnext
  split at hnext
  · rename_i exit hcontrol
    obtain ⟨hposted, hrefused, hclock⟩ := h.posting exit hcontrol
    cases succeeds with
    | true =>
      cases hnext
      have hending := h.inner.ending
      rw [← h.posted, hposted] at hending
      refine
        { inner := h.inner.main_step ⟨rfl, rfl, rfl⟩ ?_ ?_ ?_ ?_ ?_
          posted := rfl
          early := fun hnot ↦ by cases hnot
          running := fun hnot ↦ by cases hnot
          posting := fun _ hnot ↦ by cases hnot
          ended := fun _ hended ↦ ?_ }
      · simp [MainPoint.inLoop]
      · simp
      · simp [MainPoint.inLoop]
      · simp only [MainPoint.released, semPost_eq, if_true, Bool.false_eq_true, if_false]
          at hending ⊢
        omega
      · simp
      · obtain rfl := Control.ended.inj hended
        exact iff_of_true rfl ⟨hclock, hrefused⟩
    | false =>
      cases hnext
      exact h.end (by simp [hposted])
  · cases hnext

theorem Inv.next (h : Inv c s) (hnext : next c s move = some s') : Inv c s' := by
  cases move with
  | call process => exact h.call hnext
  | fail =>
    obtain ⟨hrun, hnext⟩ := Option.ite_none_right_eq_some.mp hnext
    exact h.fail hrun hnext
  | abnormal =>
    obtain ⟨hrun, hnext⟩ := Option.ite_none_right_eq_some.mp hnext
    exact h.abnormal hrun hnext
  | finish scalable =>
    obtain ⟨hrun, hnext⟩ := Option.ite_none_right_eq_some.mp hnext
    exact h.finish hrun hnext
  | post succeeds => exact h.post hnext

theorem inv_of_reachable (h : (program c).Reachable s) : Inv c s :=
  h.invariant (fun _ hs ↦ hs ▸ inv_start c) fun _ _ _ _ hinv hnext ↦ hinv.next hnext

/-! ### The children of a parent that has ended -/

/-- The parent has ended after its post. -/
structure Freed (c : Config) (s : State) : Prop where
  inv : Inv c s
  posted : s.posted = true

theorem Freed.noOrphan (h : Freed c s) : NoOrphan c s := by
  have hleads : ∃ t, (program c).Leads s t ∧ Freed c t ∧ AllExited t := by
    refine System.exists_leads_of_measure (fun s ↦ s.inner.remaining) (fun s hfreed hgoal ↦ ?_) h
    have hnot : ¬ Quiet s.inner := fun hquiet ↦
      hgoal (hquiet.exited hfreed.inv.inner (hfreed.inv.posted ▸ hfreed.posted))
    obtain ⟨n, inner, hchild, hless⟩ := exists_child_of_not_quiet hnot
    have hnext : (program c).next s (.call (.child n)) = some { s with inner := inner } := by
      simp [program, next, call, hchild]
    exact ⟨_, _, hnext, ⟨hfreed.inv.child hchild, hfreed.posted⟩, hless⟩
  obtain ⟨t, ht, -, hexited⟩ := hleads
  exact ⟨t, ht, hexited⟩

/-- The parent has ended without a post, and there is a child. -/
structure Orphaned (c : Config) (s : State) : Prop where
  inv : Inv c s
  posted : s.posted = false
  ended : ∃ exit, s.control = .ended exit
  children : s.inner.children ≠ []

theorem Orphaned.next (h : Orphaned c s) (hnext : next c s move = some s') : Orphaned c s' := by
  obtain ⟨hinv, hposted, ⟨exit, hended⟩, hchildren⟩ := h
  have hrun : s.control ≠ .running := by simp [hended]
  have hinv' := hinv.next hnext
  cases move with
  | call process =>
    cases process with
    | child n =>
      obtain ⟨inner, hchild, rfl⟩ := Option.map_eq_some_iff.mp hnext
      obtain ⟨old, new, hstep⟩ := childStep_of_child hchild
      refine ⟨hinv', hposted, ⟨exit, hended⟩, ?_⟩
      rwa [hstep.children, ne_eq, List.set_eq_nil_iff]
    | main | fork => simp [Exits.next, call, hrun] at hnext
  | fail | abnormal | finish => simp [Exits.next, hrun] at hnext
  | post succeeds => simp [Exits.next, post, hended] at hnext

theorem Orphaned.not_noOrphan (h : Orphaned c s) : ¬ NoOrphan c s := by
  rintro ⟨t, hleads, hexited⟩
  have ht : Orphaned c t := hleads.keeps (fun _ _ _ horphaned hnext ↦ horphaned.next hnext) h
  obtain ⟨child, hmem⟩ := List.exists_mem_of_ne_nil _ ht.children
  have hearly := ht.inv.early ht.posted child hmem
  rw [hexited child hmem] at hearly
  cases hearly

/-! ### The result -/

/-- Assumes: the parent has ended, and there is a child. The parent has posted `sem_ending` exactly
if it was not ended by a clock that it cannot read and none of its posts has failed; and otherwise
the children wait for ever. -/
theorem orphans_iff (h : (program c).Reachable s) (hended : s.control = .ended exit)
    (hchildren : 1 ≤ s.inner.nprocesses) :
    (s.posted = true ↔ exit.clock = false ∧ s.refused = false) ∧
      (NoOrphan c s ↔ exit.clock = false ∧ s.refused = false) := by
  have hinv := inv_of_reachable h
  have hposted := hinv.ended exit hended
  refine ⟨hposted, ?_⟩
  rw [← hposted]
  constructor
  · intro hfree
    by_contra hnot
    have hborn : s.inner.children ≠ [] := by
      rw [← List.length_pos_iff, hinv.inner.born]
      exact hchildren
    exact Orphaned.not_noOrphan ⟨hinv, Bool.eq_false_iff.mpr hnot, ⟨exit, hended⟩, hborn⟩ hfree
  · exact fun hposted ↦ Freed.noOrphan ⟨hinv, hposted⟩

def oneChild : List Move :=
  List.flatten [[.call .main, .call (.fork .created), .call (.child 0)],
    .replicate 4 (.call .main), [.call (.fork .lacking), .call .main],
    .replicate 3 (.call (.child 0)), .replicate 2 (.call .main), [.finish true]]

theorem orphans_oneChild : ∃ s, (program ⟨10, 5⟩).Reachable s ∧ s.control = .ended .passed ∧
    1 ≤ s.inner.nprocesses ∧ s.posted = true ∧ NoOrphan ⟨10, 5⟩ s := by
  obtain ⟨s, hreach, hended, hchildren, hrefused⟩ : ∃ s, (program ⟨10, 5⟩).Reachable s ∧
      s.control = .ended .passed ∧ 1 ≤ s.inner.nprocesses ∧ s.refused = false :=
    System.exists_reachable oneChild rfl (by decide)
  obtain ⟨hposted, hfree⟩ := orphans_iff hreach hended hchildren
  exact ⟨s, hreach, hended, hchildren, hposted.mpr ⟨rfl, hrefused⟩, hfree.mpr ⟨rfl, hrefused⟩⟩

/-- The parent cannot read the clock after the first child has started. -/
def noClock : List Move :=
  [.call .main, .call (.fork .created), .call (.child 0), .call .main, .fail]

theorem noClock_orphans : ∃ s, (program ⟨10, 5⟩).Reachable s ∧ s.control = .ended .clockFin ∧
    s.inner.children = [.waitEnding] ∧ s.posted = false ∧ ¬ NoOrphan ⟨10, 5⟩ s := by
  obtain ⟨s, hreach, hended, hchildren, hposted⟩ : ∃ s, (program ⟨10, 5⟩).Reachable s ∧
      s.control = .ended .clockFin ∧ s.inner.children = [.waitEnding] ∧ s.posted = false :=
    System.exists_reachable noClock rfl (by decide)
  have horphaned : Orphaned ⟨10, 5⟩ s :=
    ⟨inv_of_reachable hreach, hposted, ⟨_, hended⟩, by simp [hchildren]⟩
  exact ⟨s, hreach, hended, hchildren, hposted, horphaned.not_noOrphan⟩

end OpenPosix.Threads.Fork.Exits

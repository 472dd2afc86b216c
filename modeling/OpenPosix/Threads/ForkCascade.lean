import OpenPosix.Interleaving.Semaphore
import OpenPosix.Interleaving.System
import OpenPosix.Interleaving.ThreadPool

/-!
# The scalability test of `fork`

`stress/threads/fork/s-c1.c`. The parent forks children until `fork` fails or there are more than
`my_max` of them. Every child posts `sem_synchro`, which the parent waits for before it reads the
clock, and then waits for `sem_ending`. When no more children are wanted the parent posts
`sem_ending` once: a child that gets the unit posts it again before it exits, and so the unit goes
from child to child. The parent waits for the children in the order of their creation.

A step is one semaphore operation, one reading of the clock, or one call of `fork`, `waitpid` or
`exit`. The semaphore operations succeed, and the outcome of each `fork` is free. The values that
the clock shows are left out; of the list of measures the numbers of processes are kept. A child is
named by the number of children that were created before it.

`Inv` holds in every run. Its field `synchro` counts the units of the first semaphore and the
children that have not posted it, and `ending` the units of the second and the children that have to
pass it on. `cascade_spec` is the result.
-/

namespace OpenPosix.Threads.Fork

open Interleaving

/-- What a run depends on: `my_max`, and how many processes there are between two measures. -/
structure Config where
  myMax : ℕ
  resolution : ℕ

/-- The points of the parent. After an unexpected error of `fork` it posts `sem_ending` and ends
with `FAILED`. -/
inductive MainPoint
  | readRef
  | fork
  | waitSynchro
  | readFin
  | record
  | postEnding
  | waitpid (i : ℕ)
  | waited
  | postFailed
  | failed
  deriving DecidableEq, Repr

inductive ChildPoint
  | postSynchro
  | waitEnding
  | postEnding
  | exit
  | exited
  deriving DecidableEq, Repr

/-- What `fork` returns to the parent: a child, `EAGAIN` or `ENOMEM`, or another error. -/
inductive ForkResult
  | created
  | lacking
  | other
  deriving DecidableEq, Repr

/-- The semaphores, the variables of the parent, and the points of all processes. An entry of the
array `pr` is the child that it names, if any. -/
structure State where
  point : MainPoint
  nprocesses : ℕ
  pr : List (Option ℕ)
  measures : List ℕ
  semSynchro : ℕ
  semEnding : ℕ
  children : List ChildPoint
  deriving DecidableEq, Repr

/-- The steps of the program. `fork` has one step for each outcome. -/
inductive Process
  | main
  | fork (result : ForkResult)
  | child (n : ℕ)
  deriving DecidableEq, Repr

@[simp] def State.goto (s : State) (point : MainPoint) : State := { s with point := point }

/-- One step of the parent other than `fork`. -/
def main (c : Config) (s : State) : Option State :=
  match s.point with
  | .readRef => some (s.goto .fork)
  | .fork => none
  | .waitSynchro => (semWait s.semSynchro).map fun value ↦
      { s with semSynchro := value, point := .readFin }
  | .readFin => some (s.goto .record)
  | .record =>
    if s.nprocesses % c.resolution = 0 ∧ s.nprocesses ≠ 0 then
      some { s with measures := s.measures ++ [s.nprocesses], point := .readRef }
    else
      some (s.goto .readRef)
  | .postEnding => some { s with semEnding := semPost s.semEnding, point := .waitpid 0 }
  | .waitpid i =>
    if i < s.nprocesses then
      match s.pr[i]? with
      | some (some pid) =>
        if s.children[pid]? = some .exited then some (s.goto (.waitpid (i + 1))) else none
      | _ => none
    else
      some (s.goto .waited)
  | .waited => none
  | .postFailed => some { s with semEnding := semPost s.semEnding, point := .failed }
  | .failed => none

/-- A new child, and the parent at the given point. -/
@[simp] def State.addChild (s : State) (point : MainPoint) : State :=
  { s with
    pr := s.pr.set s.nprocesses (some s.children.length)
    children := s.children ++ [.postSynchro]
    nprocesses := s.nprocesses + 1
    point := point }

/-- A call of `fork`. The entry of `pr` is written before the parent looks at the result. -/
def fork (c : Config) (result : ForkResult) (s : State) : Option State :=
  if s.point = .fork then
    match result with
    | .created =>
      some (s.addChild (if s.nprocesses + 1 > c.myMax then .postEnding else .waitSynchro))
    | .lacking => some { s with pr := s.pr.set s.nprocesses none, point := .postEnding }
    | .other => some { s with pr := s.pr.set s.nprocesses none, point := .postFailed }
  else
    none

def State.childGoto (s : State) (n : ℕ) (point : ChildPoint) : State :=
  { s with children := s.children.set n point }

def child (n : ℕ) (s : State) : Option State :=
  match s.children[n]? with
  | none | some .exited => none
  | some .postSynchro => some { s.childGoto n .waitEnding with semSynchro := semPost s.semSynchro }
  | some .waitEnding => (semWait s.semEnding).map fun value ↦
      { s.childGoto n .postEnding with semEnding := value }
  | some .postEnding => some { s.childGoto n .exit with semEnding := semPost s.semEnding }
  | some .exit => some (s.childGoto n .exited)

def next (c : Config) (s : State) : Process → Option State
  | .main => main c s
  | .fork result => fork c result s
  | .child n => child n s

/-- The start of the loop: the array is allocated, and the semaphores are opened with the value
zero. -/
def start (c : Config) : State where
  point := .readRef
  nprocesses := 0
  pr := List.replicate (1 + c.myMax) none
  measures := []
  semSynchro := 0
  semEnding := 0
  children := []

def program (c : Config) : System State Process where
  Initial := fun s ↦ s = start c
  next := next c

/-- The index at which the next step of the parent uses `pr`. -/
def State.access (s : State) : Option ℕ :=
  match s.point with
  | .fork => some s.nprocesses
  | .waitpid i => if i < s.nprocesses then some i else none
  | _ => none

/-- After the post of `sem_ending` by the parent. -/
@[simp] def MainPoint.released : MainPoint → Bool
  | .waitpid _ | .waited | .failed => true
  | _ => false

def ChildPoint.posted : ChildPoint → Bool
  | .postSynchro => false
  | _ => true

/-- One for a child that has not posted `sem_synchro`. -/
def ChildPoint.unposted : ChildPoint → ℕ
  | .postSynchro => 1
  | _ => 0

/-- One for a child between its `sem_wait` and its `sem_post` of `sem_ending`. -/
def ChildPoint.carries : ChildPoint → ℕ
  | .postEnding => 1
  | _ => 0

def ChildPoint.weight : ChildPoint → ℕ
  | .postSynchro => 4
  | .waitEnding => 3
  | .postEnding => 2
  | .exit => 1
  | .exited => 0

/-! ### The invariant -/

def MainPoint.inLoop : MainPoint → Bool
  | .readRef | .fork | .waitSynchro | .readFin | .record => true
  | _ => false

structure Inv (c : Config) (s : State) : Prop where
  born : s.children.length = s.nprocesses
  size : s.pr.length = 1 + c.myMax
  pids : ∀ i < s.nprocesses, s.pr[i]? = some (some i)
  room : s.nprocesses ≤ c.myMax + if s.point.inLoop then 0 else 1
  forked : s.point = .waitSynchro ∨ s.point = .readFin → 0 < s.nprocesses
  synchro : s.point.inLoop = true → s.semSynchro + listTotal ChildPoint.unposted s.children =
    if s.point = .waitSynchro then 1 else 0
  ending : s.semEnding + listTotal ChildPoint.carries s.children =
    if s.point.released then 1 else 0
  waited : ∀ i, s.point = .waitpid i → i ≤ s.nprocesses

variable {c : Config} {s s' : State}

theorem inv_start : Inv c (start c) := by
  constructor <;> simp [start, MainPoint.inLoop, listTotal]

/-! ### Steps of the children -/

variable {n : ℕ} {old : ChildPoint}

/-- What a step of a child does: the child goes from one point to another, and the units of the
semaphores follow it. -/
structure ChildStep (n : ℕ) (s s' : State) (old new : ChildPoint) : Prop where
  before : s.children[n]? = some old
  children : s'.children = s.children.set n new
  point : s'.point = s.point
  nprocesses : s'.nprocesses = s.nprocesses
  pr : s'.pr = s.pr
  semSynchro : s'.semSynchro + new.unposted = s.semSynchro + old.unposted
  semEnding : s'.semEnding + new.carries = s.semEnding + old.carries
  weight : new.weight < old.weight

theorem childStep_of_child (hnext : child n s = some s') : ∃ old new, ChildStep n s s' old new := by
  unfold child at hnext
  cases hchild : s.children[n]? with
  | none => simp [hchild] at hnext
  | some old =>
    rw [hchild] at hnext
    cases old with
    | exited => simp at hnext
    | waitEnding =>
      simp only [map_semWait_eq_some_iff] at hnext
      obtain ⟨value, hvalue, rfl⟩ := hnext
      exact ⟨_, _, hchild, rfl, rfl, rfl, rfl, rfl, by simp [ChildPoint.carries, hvalue], by decide⟩
    | postSynchro | postEnding | exit =>
      cases hnext
      exact ⟨_, _, hchild, rfl, rfl, rfl, rfl, rfl, rfl, by decide⟩

theorem Inv.child (h : Inv c s) {new : ChildPoint} (hstep : ChildStep n s s' old new) :
    Inv c s' := by
  have hunposted := listTotal_set ChildPoint.unposted new hstep.before
  have hcarries := listTotal_set ChildPoint.carries new hstep.before
  have hsynchro := hstep.semSynchro
  have hending := hstep.semEnding
  rw [← hstep.children] at hunposted hcarries
  refine
    { born := by rw [hstep.children, List.length_set, h.born, hstep.nprocesses]
      size := hstep.pr ▸ h.size
      pids := by
        rw [hstep.nprocesses, hstep.pr]
        exact h.pids
      room := by
        rw [hstep.nprocesses, hstep.point]
        exact h.room
      forked := by
        rw [hstep.nprocesses, hstep.point]
        exact h.forked
      synchro := fun hloop ↦ ?_
      ending := ?_
      waited := by
        rw [hstep.nprocesses, hstep.point]
        exact h.waited }
  · rw [hstep.point] at hloop ⊢
    have hunit := h.synchro hloop
    omega
  · rw [hstep.point]
    have hunit := h.ending
    omega

/-! ### Steps of the parent -/

/-- What a step of the parent other than `fork` may change: the units of the semaphores and its
point. -/
structure MainStep (s s' : State) : Prop where
  children : s'.children = s.children
  nprocesses : s'.nprocesses = s.nprocesses
  pr : s'.pr = s.pr

theorem Inv.main_step (h : Inv c s) (hstep : MainStep s s')
    (hroom : s'.point.inLoop = true → s.point.inLoop = true)
    (hforked : s'.point = .waitSynchro ∨ s'.point = .readFin → 0 < s.nprocesses)
    (hsynchro : s'.point.inLoop = true → s'.semSynchro + listTotal ChildPoint.unposted s.children =
        if s'.point = .waitSynchro then 1 else 0)
    (hending : s'.semEnding + listTotal ChildPoint.carries s.children =
      if s'.point.released then 1 else 0)
    (hwaited : ∀ i, s'.point = .waitpid i → i ≤ s.nprocesses) : Inv c s' := by
  refine ⟨?_, ?_, ?_, ?_, ?_, ?_, ?_, ?_⟩
  · rw [hstep.children, hstep.nprocesses]
    exact h.born
  · rw [hstep.pr]
    exact h.size
  · rw [hstep.nprocesses, hstep.pr]
    exact h.pids
  · have hbefore := h.room
    rw [hstep.nprocesses]
    split_ifs at hbefore ⊢ with hafter
    · exact hbefore
    · exact absurd (hroom hafter) ‹_›
    all_goals omega
  · rw [hstep.nprocesses]
    exact hforked
  · rw [hstep.children]
    exact hsynchro
  · rw [hstep.children]
    exact hending
  · rw [hstep.nprocesses]
    exact hwaited

theorem Inv.main (h : Inv c s) (hnext : main c s = some s') : Inv c s' := by
  have hsynchro := h.synchro
  have hending := h.ending
  unfold Fork.main at hnext
  cases hpoint : s.point <;> simp only [hpoint, reduceCtorEq] at hnext
  case waitSynchro =>
    simp only [map_semWait_eq_some_iff] at hnext
    obtain ⟨value, hvalue, rfl⟩ := hnext
    have hunit := hsynchro (by rw [hpoint]; rfl)
    rw [hpoint] at hunit hending
    simp only [if_true] at hunit
    refine h.main_step ⟨rfl, rfl, rfl⟩ (fun _ ↦ by rw [hpoint]; rfl)
      (fun _ ↦ h.forked (.inl hpoint)) (fun _ ↦ ?_) hending (by simp)
    simp only [reduceCtorEq, if_false]
    omega
  case readRef | readFin =>
    cases hnext
    rw [hpoint] at hsynchro hending
    exact h.main_step ⟨rfl, rfl, rfl⟩ (fun _ ↦ by rw [hpoint]; rfl) (by simp)
      (fun _ ↦ hsynchro rfl) hending (by simp)
  case record =>
    rw [hpoint] at hsynchro hending
    split_ifs at hnext
    all_goals
      cases hnext
      exact h.main_step ⟨rfl, rfl, rfl⟩ (fun _ ↦ by rw [hpoint]; rfl) (by simp)
        (fun _ ↦ hsynchro rfl) hending (by simp)
  case postEnding | postFailed =>
    cases hnext
    rw [hpoint] at hending
    simp only [MainPoint.released, Bool.false_eq_true, if_false] at hending
    refine h.main_step ⟨rfl, rfl, rfl⟩ (by simp [MainPoint.inLoop]) (by simp)
      (by simp [MainPoint.inLoop]) ?_ (by simp)
    simp only [MainPoint.released, semPost_eq, if_true]
    omega
  case waitpid i =>
    rw [hpoint] at hending
    have hgoto : ∀ point : MainPoint, point.inLoop = false → point.released = true →
        (∀ j, point = .waitpid j → j ≤ s.nprocesses) → Inv c (s.goto point) := by
      intro point hloop hreleased hwaited
      have hnot : (s.goto point).point.inLoop ≠ true := by simp [hloop]
      refine h.main_step ⟨rfl, rfl, rfl⟩ (absurd · hnot) ?_ (absurd · hnot) ?_ hwaited
      · rintro (hother | hother)
        all_goals exact absurd (by rw [hother]; rfl) hnot
      · rw [show (s.goto point).point.released = true from hreleased]
        exact hending
    split_ifs at hnext with hlt
    · split at hnext
      · split_ifs at hnext
        cases hnext
        exact hgoto _ rfl rfl fun j hj ↦ by
          obtain rfl : i + 1 = j := by simpa using hj
          exact hlt
      · simp at hnext
    · cases hnext
      exact hgoto _ rfl rfl (by simp)

/-! ### Calls of `fork` -/

/-- The entries of the children that exist are not written again. -/
theorem Inv.pids_set (h : Inv c s) (pid : Option ℕ) {i : ℕ} (hi : i < s.nprocesses) :
    (s.pr.set s.nprocesses pid)[i]? = some (some i) := by
  rw [List.getElem?_set_ne (Nat.ne_of_gt hi)]
  exact h.pids i hi

/-- A `fork` that fails ends the loop. -/
theorem Inv.fork_fails (h : Inv c s) (hpoint : s.point = .fork) {point : MainPoint}
    (hafter : point = .postEnding ∨ point = .postFailed) :
    Inv c { s with pr := s.pr.set s.nprocesses none, point := point } := by
  have hroom := h.room
  have hending := h.ending
  rw [hpoint] at hroom hending
  have hloop : point.inLoop = false := by rcases hafter with rfl | rfl <;> rfl
  have hreleased : point.released = false := by rcases hafter with rfl | rfl <;> rfl
  refine
    { born := h.born
      size := by rw [List.length_set, h.size]
      pids := fun i hi ↦ h.pids_set none hi
      room := by
        simp only [MainPoint.inLoop, if_true] at hroom
        simp only [hloop]
        omega
      forked := by rcases hafter with rfl | rfl <;> simp
      synchro := by simp [hloop]
      ending := by
        rw [hreleased]
        exact hending
      waited := by rcases hafter with rfl | rfl <;> simp }

/-- A new child has not posted `sem_synchro`, and the parent waits for it unless the limit is
exceeded. -/
theorem Inv.addChild (h : Inv c s) (hpoint : s.point = .fork) {point : MainPoint}
    (hafter : point = .postEnding ∨ point = .waitSynchro ∧ s.nprocesses + 1 ≤ c.myMax) :
    Inv c (s.addChild point) := by
  have hroom := h.room
  have hsynchro := h.synchro (by rw [hpoint]; rfl)
  have hending := h.ending
  rw [hpoint] at hroom hsynchro hending
  simp only [MainPoint.inLoop, if_true, Nat.add_zero] at hroom
  simp only [reduceCtorEq, if_false] at hsynchro
  have hunposted := listTotal_append_singleton ChildPoint.unposted s.children .postSynchro
  refine
    { born := by simp [h.born]
      size := by rw [State.addChild, List.length_set, h.size]
      pids := fun i hi ↦ ?_
      room := ?_
      forked := fun _ ↦ Nat.succ_pos _
      synchro := fun hloop ↦ ?_
      ending := ?_
      waited := by rcases hafter with rfl | ⟨rfl, -⟩ <;> simp }
  · obtain hlt | rfl := Nat.lt_succ_iff_lt_or_eq.mp hi
    · exact h.pids_set _ hlt
    · have hlt : s.nprocesses < s.pr.length := by
        rw [h.size]
        omega
      rw [State.addChild, List.getElem?_set_self hlt, h.born]
  · rcases hafter with rfl | ⟨rfl, hlimit⟩
    · exact Nat.succ_le_succ hroom
    · exact hlimit
  · rcases hafter with rfl | ⟨rfl, -⟩
    · exact absurd hloop (by simp [MainPoint.inLoop])
    · simp only [State.addChild, hunposted, ChildPoint.unposted, if_true]
      omega
  · rw [State.addChild, listTotal_append_singleton]
    rcases hafter with rfl | ⟨rfl, -⟩ <;> exact hending

theorem Inv.fork (h : Inv c s) {result : ForkResult} (hnext : fork c result s = some s') :
    Inv c s' := by
  unfold Fork.fork at hnext
  by_cases hpoint : s.point = .fork
  swap
  · simp [hpoint] at hnext
  rw [if_pos hpoint] at hnext
  cases result with
  | created =>
    cases hnext
    refine h.addChild hpoint ?_
    by_cases hlimit : s.nprocesses + 1 > c.myMax
    · exact .inl (if_pos hlimit)
    · exact .inr ⟨if_neg hlimit, Nat.le_of_not_lt hlimit⟩
  | lacking =>
    cases hnext
    exact h.fork_fails hpoint (.inl rfl)
  | other =>
    cases hnext
    exact h.fork_fails hpoint (.inr rfl)

theorem Inv.next (h : Inv c s) {process : Process} (hnext : next c s process = some s') :
    Inv c s' := by
  cases process with
  | main => exact h.main hnext
  | fork result => exact h.fork hnext
  | child n =>
    obtain ⟨old, new, hstep⟩ := childStep_of_child hnext
    exact h.child hstep

theorem inv_of_reachable (h : (program c).Reachable s) : Inv c s :=
  h.invariant (fun _ hs ↦ hs ▸ inv_start) fun _ _ _ _ hinv hnext ↦ hinv.next hnext

/-! ### Getting to the end -/

/-- How many steps the parent has left if no more children are created. -/
@[simp] def MainPoint.rank (nprocesses : ℕ) : MainPoint → ℕ
  | .waitSynchro => nprocesses + 7
  | .readFin => nprocesses + 6
  | .record => nprocesses + 5
  | .readRef => nprocesses + 4
  | .fork => nprocesses + 3
  | .postEnding => nprocesses + 2
  | .waitpid i => nprocesses + 1 - i
  | .postFailed => 1
  | .waited | .failed => 0

/-- How many steps are left if no more children are created. -/
@[simp] def State.remaining (s : State) : ℕ :=
  s.point.rank s.nprocesses + listTotal ChildPoint.weight s.children

/-- The parent has ended, and so have all children. -/
structure Over (s : State) : Prop where
  main : s.point = .waited ∨ s.point = .failed
  children : ∀ child ∈ s.children, child = .exited

/-- Some step makes the number of steps left smaller. -/
def Advances (c : Config) (s : State) : Prop :=
  ∃ process s', next c s process = some s' ∧ s'.remaining < s.remaining

/-- Assumes: a child that has not exited, and a unit of `sem_ending` if it waits for one. -/
theorem exists_child (hchild : s.children[n]? = some old) (hexited : old ≠ .exited)
    (hunit : old = .waitEnding → 0 < s.semEnding) : ∃ s', child n s = some s' := by
  refine Option.isSome_iff_exists.mp ?_
  cases old with
  | exited => exact absurd rfl hexited
  | waitEnding => simp [child, hchild, hunit rfl]
  | postSynchro | postEnding | exit => simp [child, hchild]

theorem ChildStep.remaining_lt {new : ChildPoint} (h : ChildStep n s s' old new) :
    s'.remaining < s.remaining := by
  have hmove := listTotal_set ChildPoint.weight new h.before
  have hweight := h.weight
  rw [State.remaining, State.remaining, h.point, h.nprocesses, h.children]
  omega

/-- Every child has exited or waits for a unit that is not there. -/
def Quiet (s : State) : Prop :=
  ∀ child ∈ s.children, child = .exited ∨ child = .waitEnding ∧ s.semEnding = 0

/-- Some child can go on. -/
theorem exists_child_of_not_quiet (h : ¬ Quiet s) :
    ∃ n s', child n s = some s' ∧ s'.remaining < s.remaining := by
  unfold Quiet at h
  push Not at h
  obtain ⟨old, hmem, hexited, hunit⟩ := h
  obtain ⟨n, hn⟩ := List.mem_iff_getElem?.mp hmem
  obtain ⟨s', hnext⟩ := exists_child hn hexited fun hwait ↦ Nat.pos_of_ne_zero (hunit hwait)
  obtain ⟨_, _, hstep⟩ := childStep_of_child hnext
  exact ⟨n, s', hnext, hstep.remaining_lt⟩

theorem advances_of_not_quiet (h : ¬ Quiet s) : Advances c s := by
  obtain ⟨n, s', hnext, hless⟩ := exists_child_of_not_quiet h
  exact ⟨.child n, s', hnext, hless⟩

theorem Quiet.listTotal_eq_zero (h : Quiet s) {weight : ChildPoint → ℕ}
    (hexited : weight .exited = 0) (hwait : weight .waitEnding = 0) :
    listTotal weight s.children = 0 := by
  by_contra hne
  obtain ⟨n, point, hn, hpos⟩ := exists_pos_of_listTotal_pos (Nat.pos_of_ne_zero hne)
  obtain rfl | ⟨rfl, -⟩ := h point (List.mem_of_getElem? hn) <;> omega

/-- When the parent has posted `sem_ending` and no child has to pass the unit on, the unit is there
and all children have exited. -/
theorem Quiet.exited (h : Quiet s) (hinv : Inv c s) (hreleased : s.point.released = true) :
    ∀ child ∈ s.children, child = .exited := by
  have hunit := hinv.ending
  rw [h.listTotal_eq_zero rfl rfl, hreleased, if_pos rfl, Nat.add_zero] at hunit
  intro child hmem
  obtain hexited | ⟨-, hzero⟩ := h child hmem
  · exact hexited
  · omega

/-- A step of the parent that only goes on to another point. -/
theorem advances_goto (point : MainPoint) (hnext : Fork.main c s = some (s.goto point))
    (hrank : point.rank s.nprocesses < s.point.rank s.nprocesses) : Advances c s :=
  ⟨.main, _, hnext, Nat.add_lt_add_right hrank _⟩

theorem Quiet.advances (h : Quiet s) (hinv : Inv c s) (hover : ¬ Over s) : Advances c s := by
  cases hpoint : s.point with
  | waited =>
    exact absurd ⟨.inl hpoint, h.exited hinv (by rw [hpoint]; rfl)⟩ hover
  | failed =>
    exact absurd ⟨.inr hpoint, h.exited hinv (by rw [hpoint]; rfl)⟩ hover
  | readRef =>
    exact advances_goto .fork (by rw [Fork.main, hpoint]) (by simp [hpoint])
  | readFin =>
    exact advances_goto .record (by rw [Fork.main, hpoint]) (by simp [hpoint])
  | fork =>
    refine ⟨.fork .lacking, { s with pr := s.pr.set s.nprocesses none, point := .postEnding },
      ?_, ?_⟩
    · simp [Fork.next, Fork.fork, hpoint]
    · simp [hpoint]
  | waitSynchro =>
    have hunit := hinv.synchro (by rw [hpoint]; rfl)
    rw [hpoint, h.listTotal_eq_zero rfl rfl, if_pos rfl, Nat.add_zero] at hunit
    refine ⟨.main, { s with semSynchro := 0, point := .readFin }, ?_, ?_⟩
    · simp [Fork.next, Fork.main, hpoint, hunit, semWait]
    · simp [hpoint]
  | record =>
    by_cases hmeasure : s.nprocesses % c.resolution = 0 ∧ s.nprocesses ≠ 0
    · refine ⟨.main, { s with measures := s.measures ++ [s.nprocesses], point := .readRef }, ?_, ?_⟩
      · simp only [Fork.next, Fork.main, hpoint, if_pos hmeasure]
      · simp [hpoint]
    · exact advances_goto .readRef (by simp only [Fork.main, hpoint, if_neg hmeasure])
        (by simp [hpoint])
  | postEnding =>
    refine ⟨.main, { s with semEnding := semPost s.semEnding, point := .waitpid 0 }, ?_, ?_⟩
    · rw [Fork.next, Fork.main, hpoint]
    · simp [hpoint]
  | postFailed =>
    refine ⟨.main, { s with semEnding := semPost s.semEnding, point := .failed }, ?_, ?_⟩
    · rw [Fork.next, Fork.main, hpoint]
    · simp [hpoint]
  | waitpid i =>
    have hall := h.exited hinv (by rw [hpoint]; rfl)
    have hle := hinv.waited i hpoint
    by_cases hlt : i < s.nprocesses
    · have hexited : s.children[i]? = some .exited := by
        have hborn : i < s.children.length := hinv.born ▸ hlt
        rw [List.getElem?_eq_getElem hborn, hall _ (List.getElem_mem hborn)]
      refine advances_goto (.waitpid (i + 1)) ?_ ?_
      · simp only [Fork.main, hpoint, if_pos hlt, hinv.pids i hlt, hexited, if_true]
      · simp only [hpoint, MainPoint.rank]
        omega
    · refine advances_goto .waited ?_ ?_
      · simp only [Fork.main, hpoint, if_neg hlt]
      · simp only [hpoint, MainPoint.rank]
        omega

theorem Inv.exists_over (h : Inv c s) : ∃ s', (program c).Leads s s' ∧ Inv c s' ∧ Over s' := by
  refine System.exists_leads_of_measure State.remaining (fun s hinv hover ↦ ?_) h
  have hadvances : Advances c s := by
    by_cases hquiet : Quiet s
    · exact hquiet.advances hinv hover
    · exact advances_of_not_quiet hquiet
  obtain ⟨process, s', hnext, hless⟩ := hadvances
  exact ⟨process, s', hnext, hinv.next hnext, hless⟩

/-! ### The array, the measures and the cascade -/

/-- The parent has posted `sem_ending`, with this number of children. -/
structure Released (k : ℕ) (s : State) : Prop where
  point : s.point.released = true
  born : s.children.length = k

/-- After the post no more children are created. -/
theorem Released.next {k : ℕ} (h : Released k s) {process : Process}
    (hnext : next c s process = some s') : Released k s' := by
  have hreleased := h.point
  have hborn := h.born
  cases process with
  | main =>
    simp only [Fork.next, Fork.main] at hnext
    cases hpoint : s.point with
    | waitpid i =>
      simp only [hpoint] at hnext
      split_ifs at hnext
      · split at hnext
        · split_ifs at hnext
          cases hnext
          exact ⟨rfl, hborn⟩
        · simp at hnext
      · cases hnext
        exact ⟨rfl, hborn⟩
    | waited | failed => simp [hpoint] at hnext
    | _ => simp [hpoint] at hreleased
  | fork result =>
    simp only [Fork.next, Fork.fork] at hnext
    by_cases hpoint : s.point = .fork
    · simp [hpoint] at hreleased
    · simp [hpoint] at hnext
  | child n =>
    obtain ⟨old, new, hstep⟩ := childStep_of_child hnext
    exact ⟨by rw [hstep.point, hreleased], by rw [hstep.children, List.length_set, hborn]⟩

theorem Inv.access_lt (h : Inv c s) {i : ℕ} (haccess : s.access = some i) : i < s.pr.length := by
  have hroom := h.room
  rw [h.size]
  unfold State.access at haccess
  cases hpoint : s.point with
  | fork =>
    simp only [hpoint, MainPoint.inLoop, if_true] at hroom haccess
    obtain rfl := Option.some.inj haccess
    omega
  | waitpid j =>
    simp only [hpoint, Option.ite_none_right_eq_some, Option.some.injEq] at haccess
    obtain ⟨hlt, rfl⟩ := haccess
    simp only [hpoint, MainPoint.inLoop] at hroom
    simp at hroom
    omega
  | _ => simp [hpoint] at haccess

/-- When the parent reads the clock after a `fork`, the new child has posted `sem_synchro`. -/
theorem Inv.posted (h : Inv c s) (hpoint : s.point = .readFin) :
    ∃ child, s.children[s.nprocesses - 1]? = some child ∧ child.posted = true := by
  have hborn : s.nprocesses - 1 < s.children.length := by
    have hpos := h.forked (.inr hpoint)
    have hlength := h.born
    omega
  have hchild := List.getElem?_eq_getElem hborn
  refine ⟨_, hchild, ?_⟩
  have hunit := h.synchro (by rw [hpoint]; rfl)
  rw [hpoint] at hunit
  have hle := le_listTotal ChildPoint.unposted hchild
  cases hold : s.children[s.nprocesses - 1] with
  | postSynchro =>
    simp only [hold, ChildPoint.unposted, reduceCtorEq, if_false] at hle hunit
    omega
  | _ => rfl

/-- For every `my_max`, every outcome of the calls of `fork` and every interleaving: the array is
used inside its bounds, a clock reading after a `fork` comes after the post of the new child, and
from the post of `sem_ending` on there is always one unit of it, in the semaphore or with a child
that is about to pass it on; all children can then exit, and the parent can get to its end. -/
theorem cascade_spec (h : (program c).Reachable s) :
    s.pr.length = 1 + c.myMax ∧ (∀ i, s.access = some i → i < s.pr.length) ∧
      (s.point = .readFin →
        ∃ child, s.children[s.nprocesses - 1]? = some child ∧ child.posted = true) ∧
      (s.point.released = true →
        s.semEnding + listTotal ChildPoint.carries s.children = 1 ∧
        ∃ s', (program c).Leads s s' ∧ s'.children.length = s.children.length ∧ Over s') := by
  have hinv := inv_of_reachable h
  refine ⟨hinv.size, fun i ↦ hinv.access_lt, hinv.posted, fun hreleased ↦ ⟨?_, ?_⟩⟩
  · have hunit := hinv.ending
    rwa [hreleased, if_pos rfl] at hunit
  · obtain ⟨s', hleads, -, hover⟩ := hinv.exists_over
    have hsame : Released s.children.length s' :=
      (hleads.invariant (fun _ _ _ _ hbefore hnext ↦ hbefore.next hnext) h ⟨hreleased, rfl⟩).2
    exact ⟨s', hleads, hsame.born, hover⟩

/-- Two children, the second of which exceeds the limit and gets the unit first. -/
def twoChildren : List Process :=
  [.main, .fork .created, .child 0, .main, .main, .main, .main, .fork .created, .main, .child 1,
    .child 1]

theorem cascade_spec_two :
    ∃ s, (program ⟨1, 5⟩).Reachable s ∧ s.children = [.waitEnding, .postEnding] ∧
      ∃ s', (program ⟨1, 5⟩).Leads s s' ∧ s'.children.length = 2 ∧ Over s' := by
  obtain ⟨s, hreach, hpoint, hchildren⟩ : ∃ s, (program ⟨1, 5⟩).Reachable s ∧
      s.point = .waitpid 0 ∧ s.children = [.waitEnding, .postEnding] :=
    System.exists_reachable twoChildren rfl (by decide)
  obtain ⟨-, -, -, hcascade⟩ := cascade_spec hreach
  obtain ⟨-, s', hleads, hlength, hover⟩ := hcascade (by rw [hpoint]; rfl)
  exact ⟨s, hreach, hchildren, s', hleads, by rw [hlength, hchildren]; rfl, hover⟩

end OpenPosix.Threads.Fork

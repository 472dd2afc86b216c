import OpenPosix.CondVars.SharedModel
import OpenPosix.Interleaving.Monitor

/-!
# Who holds the mutexes

What holds in every run of the two processes: a mutex is held by the thread whose point says so or
by the parent, the main thread of the child does not get past its semaphore as long as the parent is
in `parent_process`, and it has joined the threads that it says. A step in the child takes no mutex
from the parent (`Frame`).
-/

namespace OpenPosix.CondVars.Shared

open Interleaving Function

variable {s s' : State} {w : Cond}

attribute [simp] Cond.next State.goto ThreadPoint.wake Reach.point State.wake

/-! ### Classes of points -/

@[simp] def Cond.index : Cond → ℕ
  | .null => 0
  | .dflt => 1
  | .pshared => 2

def ThreadPoint.holds : ThreadPoint → Bool
  | .post | .count | .wait | .incr _ | .test _ | .zero | .unlock => true
  | _ => false

@[simp] def ParentPoint.holds : ParentPoint → Cond → Prop
  | .lock _ w', w => w.index < w'.index
  | .check, _ | .compare, _ | .stop, _ => True
  | .unlock _ w', w => w'.index ≤ w.index
  | _, _ => False

/-- The parent is in `parent_process`. -/
@[simp] def ParentPoint.active : ParentPoint → Bool
  | .waitpid _ _ | .ended _ => false
  | _ => true

@[simp] def MainPoint.absent : MainPoint → Cond → Prop
  | .create w', w => w'.index ≤ w.index
  | _, _ => False

/-- The main thread of the child has not passed its semaphore. -/
def MainPoint.early : MainPoint → Bool
  | .create _ | .waitB => true
  | _ => false

@[simp] def MainPoint.joined : MainPoint → Cond → Prop
  | .join w', w => w.index < w'.index
  | .exited, _ => True
  | _, _ => False

structure Inv (s : State) : Prop where
  owned : ∀ w, s.mtx w = some .child ↔ (s.thread w).holds = true
  held : ∀ w, s.parent.holds w → s.mtx w = some .parent
  unborn : s.main ≠ .killed → ∀ w, s.thread w = .unborn ↔ s.main.absent w
  joined : ∀ w, s.main.joined w → s.thread w = .returned
  early : s.parent.active = true → s.semB = 0 ∧ s.main.early = true

theorem inv_start : Inv start where
  owned := by simp [start, ThreadPoint.holds]
  held := by simp [start]
  unborn := by simp [start]
  joined := by simp [start]
  early := fun _ ↦ ⟨rfl, rfl⟩

/-! ### Steps of the threads -/

variable {point : ThreadPoint}

/-- A thread goes to another point, and its mutex follows. Everything else but its counter and the
first semaphore is left alone. -/
structure ThreadStep (s s' : State) (w : Cond) (point : ThreadPoint) : Prop where
  parent : s'.parent = s.parent
  result : s'.result = s.result
  bool : s'.bool = s.bool
  main : s'.main = s.main
  semB : s'.semB = s.semB
  signals : s'.usr1 = s.usr1 ∧ s'.usr2 = s.usr2 ∧ s'.handling = s.handling
  thread : s'.thread = update s.thread w point
  mtx : ∃ owner, s'.mtx = update s.mtx w owner ∧
    Passes .child (s.mtx w) (s.thread w).holds point.holds owner
  born : s.thread w ≠ .unborn ∧ point ≠ .unborn
  running : s.thread w ≠ .returned
  awake : point ≠ .usedUp
  returns : point = .returned → (s.thread w).holds = true

theorem threadStep {fails : Bool} (hnext : childProcessTh s w fails = some s') :
    ∃ point, ThreadStep s s' w point := by
  have hkeep {point : ThreadPoint} (hsame : point.holds = (s.thread w).holds) :
      ∃ owner, s.mtx = update s.mtx w owner ∧
        Passes .child (s.mtx w) (s.thread w).holds point.holds owner :=
    ⟨s.mtx w, (update_eq_self w s.mtx).symm, .keep hsame⟩
  unfold childProcessTh at hnext
  split at hnext
  case h_1 | h_7 | h_13 | h_14 => simp at hnext
  case h_3 hpoint | h_8 hpoint =>
    split_ifs at hnext with hfree
    cases hnext
    exact ⟨_, rfl, rfl, rfl, rfl, rfl, ⟨rfl, rfl, rfl⟩, rfl, ⟨_, rfl, .take hfree rfl⟩,
      by simp [hpoint], by simp [hpoint], by simp, by simp⟩
  case h_6 hpoint =>
    cases hnext
    split
    · exact ⟨_, rfl, rfl, rfl, rfl, rfl, ⟨rfl, rfl, rfl⟩, rfl, hkeep (by rw [hpoint]; rfl),
        by simp [hpoint], by simp [hpoint], by simp, by simp⟩
    · exact ⟨_, rfl, rfl, rfl, rfl, rfl, ⟨rfl, rfl, rfl⟩, rfl,
        ⟨_, rfl, .drop (by rw [hpoint]; rfl) rfl⟩, by simp [hpoint], by simp [hpoint], by simp,
        by simp⟩
  case h_10 ok hpoint =>
    cases hnext
    refine ⟨_, rfl, rfl, rfl, rfl, rfl, ⟨rfl, rfl, rfl⟩, rfl, hkeep ?_, ⟨by simp [hpoint], ?_⟩,
      by simp [hpoint], ?_, fun _ ↦ by rw [hpoint]; rfl⟩
    · rw [hpoint]
      split_ifs <;> rfl
    all_goals split_ifs <;> simp
  case h_12 hpoint =>
    cases hnext
    exact ⟨_, rfl, rfl, rfl, rfl, rfl, ⟨rfl, rfl, rfl⟩, rfl,
      ⟨_, rfl, .drop (by rw [hpoint]; rfl) rfl⟩, by simp [hpoint], by simp [hpoint], by simp,
      fun _ ↦ by rw [hpoint]; rfl⟩
  all_goals
    rename_i hpoint
    cases hnext
    exact ⟨_, rfl, rfl, rfl, rfl, rfl, ⟨rfl, rfl, rfl⟩, rfl, hkeep (by rw [hpoint]; rfl),
      by simp [hpoint], by simp [hpoint], by simp, by simp⟩

theorem Inv.threadStep (h : Inv s) (hstep : ThreadStep s s' w point) : Inv s' := by
  obtain ⟨owner, hmtx, hpasses⟩ := hstep.mtx
  constructor
  · rw [hmtx, hstep.thread]
    intro i
    by_cases heq : i = w
    · subst heq
      simp only [update_self]
      cases hpasses with
      | keep hsame => exact hsame ▸ h.owned i
      | take _ hnow => exact iff_of_true rfl hnow
      | drop _ hnow => exact iff_of_false (by simp) (by simp [hnow])
    · simpa [update_of_ne heq] using h.owned i
  · rw [hstep.parent, hmtx]
    refine (forall_update_iff s.mtx fun i owner ↦ s.parent.holds i → owner = some .parent).mpr
      ⟨fun hheld ↦ ?_, fun i _ ↦ h.held i⟩
    have hparent := h.held w hheld
    cases hpasses with
    | keep => exact hparent
    | take hfree => simp [hfree] at hparent
    | drop hholds => simp [(h.owned w).mpr hholds] at hparent
  · rw [hstep.main, hstep.thread]
    exact fun hkilled ↦ (forall_update_iff s.thread fun i point ↦
      point = .unborn ↔ s.main.absent i).mpr ⟨iff_of_false hstep.born.2 fun habsent ↦
        hstep.born.1 ((h.unborn hkilled w).mpr habsent), fun i _ ↦ h.unborn hkilled i⟩
  · rw [hstep.main, hstep.thread]
    exact (forall_update_iff s.thread fun i point ↦ s.main.joined i → point = .returned).mpr
      ⟨fun hjoined ↦ absurd (h.joined w hjoined) hstep.running, fun i _ ↦ h.joined i⟩
  · rw [hstep.parent, hstep.main, hstep.semB]
    exact h.early

/-! ### Wake-ups -/

/-- The thread is inside its wait, without its mutex. -/
def ThreadPoint.inWait : ThreadPoint → Bool
  | .blocked | .usedUp | .woken => true
  | _ => false

/-- What others can do to a thread: it stays where it is, or inside its wait. -/
def ThreadPoint.Stirs (point point' : ThreadPoint) : Prop :=
  point' = point ∨ point.inWait = true ∧ point'.inWait = true

theorem ThreadPoint.stirs_wake (point : ThreadPoint) (reach : Reach) :
    point.Stirs (point.wake reach) := by
  cases point with
  | blocked => exact .inr ⟨rfl, by cases reach <;> rfl⟩
  | _ => exact .inl rfl

theorem ThreadPoint.stirs_interrupt (point : ThreadPoint) : point.Stirs point.interrupt := by
  cases point with
  | usedUp => exact .inr ⟨rfl, rfl⟩
  | _ => exact .inl rfl

/-- What does not tell the points inside the wait apart stays. -/
theorem ThreadPoint.Stirs.eq {α : Type} {point point' : ThreadPoint} (h : point.Stirs point')
    (f : ThreadPoint → α) (hused : f .usedUp = f .blocked) (hwoken : f .woken = f .blocked) :
    f point' = f point := by
  have hwait {point : ThreadPoint} (hpoint : point.inWait = true) : f point = f .blocked := by
    cases point <;> first | rfl | assumption | cases hpoint
  obtain rfl | ⟨hbefore, hafter⟩ := h
  · rfl
  · rw [hwait hbefore, hwait hafter]

/-- Being moved by others leaves the invariant. -/
theorem Inv.stir (h : Inv s) (hstirs : (s.thread w).Stirs point) : Inv (s.goto w point) where
  owned := (forall_update_iff s.thread fun i point ↦
    s.mtx i = some .child ↔ point.holds = true).mpr
      ⟨hstirs.eq ThreadPoint.holds rfl rfl ▸ h.owned w, fun i _ ↦ h.owned i⟩
  held := h.held
  unborn := fun hkilled ↦ (forall_update_iff s.thread fun i point ↦
    point = .unborn ↔ s.main.absent i).mpr
      ⟨(hstirs.eq (· = .unborn) (by simp) (by simp)).to_iff.trans (h.unborn hkilled w),
        fun i _ ↦ h.unborn hkilled i⟩
  joined := (forall_update_iff s.thread fun i point ↦
    s.main.joined i → point = .returned).mpr
      ⟨fun hjoined ↦ (hstirs.eq (· = .returned) (by simp) (by simp)).mpr (h.joined w hjoined),
        fun i _ ↦ h.joined i⟩
  early := h.early

theorem Inv.wake (h : Inv s) (w : Cond) (reach : Reach) : Inv (s.wake w reach) :=
  h.stir ((s.thread w).stirs_wake reach)

/-! ### Steps of the main thread of the child -/

theorem MainPoint.absent_create (w i : Cond) : (match w.next with
      | some w' => MainPoint.create w'
      | none => .waitB).absent i ↔ (MainPoint.create w).absent i ∧ i ≠ w := by
  cases w <;> cases i <;> simp

theorem MainPoint.joined_join (w i : Cond) : (match w.next with
      | some w' => MainPoint.join w'
      | none => .exited).joined i ↔ (MainPoint.join w).joined i ∨ i = w := by
  cases w <;> cases i <;> simp

/-- The main thread of the child goes on. -/
theorem Inv.mainGoto (h : Inv s) {point : MainPoint} (hparent : s'.parent = s.parent)
    (hmain : s'.main = point) (hthread : s'.thread = s.thread) (hmtx : s'.mtx = s.mtx)
    (hbefore : s.main ≠ .killed) (habsent : ∀ i, point.absent i ↔ s.main.absent i)
    (hjoined : ∀ i, point.joined i → s.thread i = .returned)
    (hearly : s.parent.active = true → s'.semB = 0 ∧ point.early = true) : Inv s' where
  owned := by
    rw [hmtx, hthread]
    exact h.owned
  held := by
    rw [hparent, hmtx]
    exact h.held
  unborn := by
    rw [hmain, hthread]
    exact fun _ i ↦ (h.unborn hbefore i).trans (habsent i).symm
  joined := by
    rw [hmain, hthread]
    exact hjoined
  early := by
    rw [hparent, hmain]
    exact hearly

/-- The main thread of the child creates a thread. -/
theorem Inv.create (h : Inv s) (hmain : s.main = .create w) {point : MainPoint}
    (habsent : ∀ i, point.absent i ↔ (MainPoint.create w).absent i ∧ i ≠ w)
    (hjoined : ∀ i, ¬ point.joined i) (hearly : point.early = true) :
    Inv { s.goto w .start with main := point } := by
  have hunborn := h.unborn (by simp [hmain])
  rw [hmain] at hunborn
  have hw : s.thread w = .unborn := (hunborn w).mpr le_rfl
  refine ⟨?_, h.held, fun _ ↦ ?_, fun i hi ↦ absurd hi (hjoined i),
    fun hactive ↦ ⟨(h.early hactive).1, hearly⟩⟩
  · refine (forall_update_iff s.thread fun i point ↦
      s.mtx i = some .child ↔ point.holds = true).mpr ⟨?_, fun i _ ↦ h.owned i⟩
    rw [h.owned w, hw]
    rfl
  · refine (forall_update_iff s.thread fun i point' ↦
      point' = .unborn ↔ point.absent i).mpr ⟨?_, fun i hne ↦ ?_⟩
    · exact iff_of_false (by simp) fun habs ↦ ((habsent w).mp habs).2 rfl
    · rw [hunborn i, habsent i]
      exact (and_iff_left hne).symm

theorem Inv.childProcess (h : Inv s) (hnext : childProcess s = some s') : Inv s' := by
  have hlate : s.main.early = false → s.parent.active ≠ true := by
    intro hmain hactive
    rw [(h.early hactive).2] at hmain
    simp at hmain
  unfold Shared.childProcess at hnext
  split at hnext
  case h_1 w hmain =>
    cases hnext
    refine h.create hmain (MainPoint.absent_create w) (fun i ↦ ?_) ?_
    · cases w <;> simp
    · cases w <;> rfl
  case h_2 hmain =>
    obtain ⟨rest, hrest, rfl⟩ := Option.map_eq_some_iff.mp hnext
    refine h.mainGoto rfl rfl rfl rfl (by simp [hmain]) (by simp [hmain]) (by simp) fun hactive ↦ ?_
    rw [semWait_eq_some_iff, (h.early hactive).1] at hrest
    omega
  case h_3 w hmain =>
    cases hnext
    have hactive := hlate (by rw [hmain]; rfl)
    refine (h.wake w .wakes).mainGoto rfl rfl rfl rfl (by simp [hmain]) ?_ ?_
      fun hbefore ↦ absurd hbefore hactive
    · intro i
      cases w <;> simp [hmain]
    · intro i
      cases w <;> cases i <;> simp
  case h_4 w hmain =>
    split_ifs at hnext with hreturned
    cases hnext
    have hactive := hlate (by rw [hmain]; rfl)
    refine h.mainGoto rfl rfl rfl rfl (by simp [hmain]) ?_ ?_ fun hbefore ↦ absurd hbefore hactive
    · intro i
      cases w <;> simp [hmain]
    · intro i hi
      obtain hi | rfl := (MainPoint.joined_join w i).mp hi
      · exact h.joined i (hmain ▸ hi)
      · exact hreturned
  case h_5 | h_6 => simp at hnext

/-- The parent goes on, and keeps its mutexes or has none at the new point. -/
theorem Inv.parentGoto (h : Inv s) {point : ParentPoint} (hparent : s'.parent = point)
    (hmain : s'.main = s.main) (hthread : s'.thread = s.thread) (hmtx : s'.mtx = s.mtx)
    (hholds : ∀ w, point.holds w → s.parent.holds w)
    (hactive : point.active = true → s.parent.active = true ∧ s'.semB = s.semB) : Inv s' where
  owned := by
    rw [hmtx, hthread]
    exact h.owned
  held := by
    rw [hparent, hmtx]
    exact fun w hw ↦ h.held w (hholds w hw)
  unborn := by
    rw [hmain, hthread]
    exact h.unborn
  joined := by
    rw [hmain, hthread]
    exact h.joined
  early := by
    rw [hparent, hmain]
    intro hafter
    obtain ⟨hbefore, hsemB⟩ := hactive hafter
    rw [hsemB]
    exact h.early hbefore

/-- A step that only moves signals and the units of the first semaphore. -/
theorem Inv.congr (h : Inv s) (hparent : s'.parent = s.parent) (hmain : s'.main = s.main)
    (hthread : s'.thread = s.thread) (hmtx : s'.mtx = s.mtx) (hsemB : s'.semB = s.semB) : Inv s' :=
  h.parentGoto hparent hmain hthread hmtx (fun _ ↦ id) fun hactive ↦ ⟨hactive, hsemB⟩

theorem Inv.childNext (h : Inv s) {move : Move} (hnext : childNext s move = some s') : Inv s' := by
  cases move with
  | parent choice => simp [Shared.childNext] at hnext
  | main => exact h.childProcess (Option.ite_none_right_eq_some.mp hnext).2
  | thread w fails =>
    obtain ⟨point, hstep⟩ := Shared.threadStep hnext
    exact h.threadStep hstep
  | sigusr1 =>
    obtain ⟨-, ⟨⟩⟩ := Option.ite_none_right_eq_some.mp hnext
    exact h.congr rfl rfl rfl rfl rfl
  | childsighdl w =>
    obtain ⟨-, ⟨⟩⟩ := Option.ite_none_right_eq_some.mp hnext
    exact (h.stir (s.thread w).stirs_interrupt).congr rfl rfl rfl rfl rfl
  | mainsighdl =>
    simp only [Shared.childNext, mainsighdl] at hnext
    split at hnext
    · simp at hnext
    · exact Option.some.inj hnext ▸ h.congr rfl rfl rfl rfl rfl
  | spurious w =>
    obtain ⟨hsleeps, ⟨⟩⟩ := Option.ite_none_right_eq_some.mp hnext
    exact h.stir (.inr ⟨by obtain heq | heq := hsleeps <;> rw [heq] <;> rfl, rfl⟩)

/-! ### Steps of the parent -/

theorem Inv.locUrslvd (h : Inv s) (choice : Choice) (x : ℤ → ℤ) : Inv (locUrslvd s choice x) := by
  unfold Shared.locUrslvd
  split
  · exact h.parentGoto rfl rfl rfl rfl (fun _ ↦ False.elim) (by simp)
  · exact ⟨h.owned, fun _ ↦ False.elim, fun hkilled ↦ absurd rfl hkilled, fun _ ↦ False.elim,
      by simp⟩

/-- The parent locks or unlocks a mutex that the thread of the child does not hold. -/
theorem Inv.setMtx (h : Inv s) {point : ParentPoint} {owner : Option Owner}
    (hbefore : s.mtx w ≠ some .child) (howner : owner ≠ some .child)
    (hholds : ∀ i, point.holds i → i ≠ w → s.parent.holds i)
    (hw : point.holds w → owner = some .parent) (hactive : s.parent.active = true) :
    Inv { s.setMtx w owner with parent := point } where
  owned := (forall_update_iff s.mtx fun i owner ↦
    owner = some .child ↔ (s.thread i).holds = true).mpr
      ⟨iff_of_false howner fun hthread ↦ hbefore ((h.owned w).mpr hthread), fun i _ ↦ h.owned i⟩
  held := (forall_update_iff s.mtx fun i owner ↦
    point.holds i → owner = some .parent).mpr ⟨hw, fun i hne hi ↦ h.held i (hholds i hi hne)⟩
  unborn := h.unborn
  joined := h.joined
  early := fun _ ↦ h.early hactive

theorem Inv.lock (h : Inv s) {again : Bool} (hparent : s.parent = .lock again w)
    (hfree : s.mtx w = none) {point : ParentPoint}
    (hholds : ∀ i, point.holds i → i ≠ w → i.index < w.index) :
    Inv { s.setMtx w (some .parent) with parent := point } :=
  h.setMtx (by simp [hfree]) (by simp) (fun i hi hne ↦ hparent ▸ hholds i hi hne) (fun _ ↦ rfl)
    (by rw [hparent]; rfl)

theorem Inv.unlock (h : Inv s) {last : Bool} (hparent : s.parent = .unlock last w)
    {point : ParentPoint} (hholds : ∀ i, point.holds i → i ≠ w ∧ w.index ≤ i.index) :
    Inv { s.setMtx w none with parent := point } := by
  have hw : s.mtx w = some .parent := h.held w (by rw [hparent]; exact le_rfl)
  exact h.setMtx (by simp [hw]) (by simp) (fun i hi _ ↦ hparent ▸ (hholds i hi).2)
    (fun hpoint ↦ absurd rfl (hholds w hpoint).1) (by rw [hparent]; rfl)

/-- The parent is in a round of the loop, between the unlocks and the second locks. -/
def ParentPoint.inRound : ParentPoint → Bool
  | .wake _ _ _ _ | .kill _ _ | .handled _ _ _ => true
  | _ => false

/-- The parent has its wake-ups to send, and then its signal. -/
def ParentPoint.wakes : ParentPoint → Bool
  | .wake _ _ _ _ | .kill _ _ => true
  | _ => false

/-- A wake-up has reached at most one thread. -/
def State.WokenFrom (t s : State) : Prop := t = s ∨ ∃ w reach, t = s.wake w reach

theorem wokenFrom_ite {P : Prop} [Decidable P] (s : State) (w : Cond) (reach : Reach) :
    (if P then s.wake w reach else s).WokenFrom s := by
  split
  · exact .inr ⟨w, reach, rfl⟩
  · exact .inl rfl

theorem ParentPoint.active_of_inRound {point : ParentPoint} (h : point.inRound = true) :
    point.active = true := by
  cases point <;> first | rfl | cases h

theorem State.WokenFrom.parent {t : State} (h : t.WokenFrom s) : t.parent = s.parent := by
  obtain rfl | ⟨w, reach, rfl⟩ := h <;> rfl

/-- The exits by which `parent_process` returns 0 with no mutex locked. `LOC_URSLVD` has assigned
`ret` the 0 of `sem_post` when it evaluates `ret`, and `ret > tmp ? ret : tmp` where the call for
`cndN` has returned 0. -/
def ParentPoint.passes : ParentPoint → Bool
  | .lock _ .null | .wake _ _ .dflt 0 | .wake _ _ .pshared _ => true
  | _ => false

/-- What `parent_process` returns by an exit, if `sem_post` has returned 0. -/
def ParentPoint.Returns (point : ParentPoint) (rc2 : ℤ) : Prop :=
  if point.passes then rc2 = 0 else rc2 ≠ 0 ∨ ∃ w, point.holds w

/-- What a step of the parent does, by the point where it is. -/
inductive ParentMove (choice : Choice) (s : State) : State → Prop
  | urslvd (t : State) (x : ℤ → ℤ) (ht : t.WokenFrom s) (hactive : s.parent.active = true)
    (hx : s.parent.Returns (x 0)) :
    ParentMove choice s (locUrslvd t choice x)
  | ready (n rest : ℕ) (hparent : s.parent = .ready n) (hsemA : s.semA = rest + 1) :
    ParentMove choice s { s with
      semA := rest
      parent := if n < 2 then .ready (n + 1) else .lock false .null }
  | lock (again : Bool) (w : Cond) (hparent : s.parent = .lock again w) (hfree : s.mtx w = none) :
    ParentMove choice s { s.setMtx w (some .parent) with
      parent := match w.next with
        | some w' => .lock again w'
        | none => if again then .compare else .check }
  | unlock (last : Bool) (w : Cond) (hparent : s.parent = .unlock last w) :
    ParentMove choice s { s.setMtx w none with
      parent := match w.next with
        | some w' => .unlock last w'
        | none => if last then .post else .wake 0 false .null 0 }
  | round (t : State) (point : ParentPoint) (semA : ℕ) (usr1 : Bool) (ht : t.WokenFrom s)
    (hbefore : s.parent.inRound = true)
    (hafter : point.inRound = true ∨ point = .lock true .null)
    (hsignal : point.wakes = true ∨ usr1 = true ∨
      s.parent.wakes = false ∧ t = s ∧ usr1 = s.usr1) :
    ParentMove choice s { t with parent := point, semA := semA, usr1 := usr1 }
  | result (result : ℕ) (hparent : s.parent = .check ∨ s.parent = .compare) :
    ParentMove choice s { s with result := result, parent := .stop }
  | passes (hparent : s.parent = .check) :
    ParentMove choice s { s with parent := .unlock false .null }
  | stop (hparent : s.parent = .stop) :
    ParentMove choice s { s with bool := true, parent := .unlock true .null }
  | post (hparent : s.parent = .post) :
    ParentMove choice s { s with semB := semPost s.semB, parent := .waitpid false 0 }
  | ended (v : Verdict) (hleft : s.parent.active = false) :
    ParentMove choice s { s with parent := .ended v }

section ParentMoves

variable {choice : Choice} {point : ParentPoint}

/-- An exit at a point of which `active` and `Returns` are known. -/
theorem ParentMove.exits {t : State} (x : ℤ → ℤ) (hparent : s.parent = point)
    (ht : t.WokenFrom s) (hactive : point.active = true) (hx : point.Returns (x 0)) :
    ParentMove choice s (locUrslvd t choice x) :=
  .urslvd t x ht (hparent ▸ hactive) (hparent ▸ hx)

/-- The exit of a call that returns its error code. -/
theorem ParentMove.fails (hparent : s.parent = point) (hactive : point.active = true)
    (hpasses : point.passes = false) (herror : choice.error ≠ 0) :
    ParentMove choice s (locUrslvd s choice fun _ ↦ choice.error) := by
  refine .exits _ hparent (.inl rfl) hactive ?_
  rw [ParentPoint.Returns, hpasses]
  exact .inl (Int.natCast_ne_zero.mpr herror)

theorem parentMove_wake {i tmp : ℕ} {broadcast : Bool}
    (hparent : s.parent = .wake i broadcast w tmp) (hnext : parentProcess s choice = some s') :
    ParentMove choice s s' := by
  have hround : s.parent.inRound = true := by rw [hparent]; rfl
  simp only [parentProcess, hparent] at hnext
  cases w with
  | null =>
    cases hnext
    exact .round _ _ _ _ (wokenFrom_ite s .null _) hround (.inl rfl) (.inl rfl)
  | dflt =>
    dsimp only at hnext
    split at hnext <;> cases hnext
    · refine .exits _ hparent (wokenFrom_ite s .dflt _) rfl ?_
      cases tmp with
      | zero => rfl
      | succ tmp => exact .inl (by omega)
    · exact .round _ _ _ _ (wokenFrom_ite s .dflt _) hround (.inl rfl) (.inl rfl)
  | pshared =>
    dsimp only at hnext
    split at hnext <;> cases hnext
    · exact .exits _ hparent (.inl rfl) rfl rfl
    · exact .round _ _ _ _ (.inr ⟨.pshared, .wakes, rfl⟩) hround (.inl rfl) (.inl rfl)

theorem parentMove_handled {i n : ℕ} {broadcast : Bool}
    (hparent : s.parent = .handled i broadcast n) (hnext : parentProcess s choice = some s') :
    ParentMove choice s s' := by
  simp only [parentProcess, hparent] at hnext
  split at hnext
  · cases hnext
    exact .fails hparent rfl rfl ‹choice.error ≠ 0›
  · obtain ⟨rest, -, rfl⟩ := Option.map_eq_some_iff.mp hnext
    refine .round s _ _ _ (.inl rfl) (by rw [hparent]; rfl) ?_
      (.inr (.inr ⟨by rw [hparent]; rfl, rfl, rfl⟩))
    dsimp only [afterHandled]
    split_ifs <;> first | exact .inl rfl | exact .inr rfl

/-- The parent looks at the counters, with the three mutexes. -/
theorem parentMove_compare (hparent : s.parent = .check ∨ s.parent = .compare)
    (hnext : parentProcess s choice = some s') : ParentMove choice s s' := by
  obtain hparent | hparent := hparent
  · simp only [parentProcess, hparent] at hnext
    split at hnext <;> [skip; split at hnext] <;> cases hnext
    · exact .exits _ hparent (.inl rfl) rfl (.inr ⟨.null, trivial⟩)
    · exact .result _ (.inl hparent)
    · exact .passes hparent
  · simp only [parentProcess, hparent] at hnext
    split at hnext <;> [skip; (split at hnext <;> [skip; split at hnext])] <;> cases hnext
    · exact .exits _ hparent (.inl rfl) rfl (.inr ⟨.null, trivial⟩)
    · exact .result _ (.inr hparent)
    · exact .exits _ hparent (.inl rfl) rfl (.inr ⟨.null, trivial⟩)
    · exact .result _ (.inr hparent)

theorem parentMove_lock {again : Bool} (hparent : s.parent = .lock again w)
    (hnext : parentProcess s choice = some s') : ParentMove choice s s' := by
  simp only [parentProcess, hparent] at hnext
  split at hnext
  · cases hnext
    refine .exits _ hparent (.inl rfl) rfl ?_
    cases w with
    | null => rfl
    | dflt => exact .inr ⟨.null, Nat.zero_lt_one⟩
    | pshared => exact .inr ⟨.null, Nat.zero_lt_two⟩
  · obtain ⟨hfree, ⟨⟩⟩ := Option.ite_none_right_eq_some.mp hnext
    exact .lock again w hparent hfree

theorem parentMove (hnext : parentProcess s choice = some s') : ParentMove choice s s' := by
  have hstep := hnext
  unfold parentProcess at hnext
  split at hnext
  case h_2 hparent => exact parentMove_lock hparent hstep
  case h_3 hparent => exact parentMove_compare (.inl hparent) hstep
  case h_5 hparent | h_6 hparent | h_7 hparent => exact parentMove_wake hparent hstep
  case h_9 hparent => exact parentMove_handled hparent hstep
  case h_10 hparent => exact parentMove_compare (.inr hparent) hstep
  case h_1 n hparent =>
    split at hnext
    · cases hnext
      exact .fails hparent rfl rfl ‹choice.error ≠ 0›
    · obtain ⟨rest, hrest, rfl⟩ := Option.map_eq_some_iff.mp hnext
      exact .ready n rest hparent (semWait_eq_some_iff.mp hrest)
  case h_4 last w hparent =>
    split at hnext <;> cases hnext
    · exact .exits _ hparent (.inl rfl) rfl (.inr ⟨w, Nat.le_refl w.index⟩)
    · exact .unlock last w hparent
  case h_8 i broadcast hparent =>
    split at hnext <;> cases hnext
    · exact .fails hparent rfl rfl ‹choice.error ≠ 0›
    · exact .round s _ _ _ (.inl rfl) (by rw [hparent]; rfl) (.inl rfl) (.inr (.inl rfl))
  case h_11 hparent =>
    cases hnext
    exact .stop hparent
  case h_12 hparent =>
    split at hnext <;> cases hnext
    · exact .fails hparent rfl rfl ‹choice.error ≠ 0›
    · exact .post hparent
  case h_13 urslvd rc2 hparent =>
    obtain ⟨v, -, rfl⟩ := Option.map_eq_some_iff.mp hnext
    exact .ended v (by rw [hparent]; rfl)
  case h_14 => cases hnext

end ParentMoves

theorem Inv.woken {t : State} (h : Inv s) (ht : t.WokenFrom s) : Inv t := by
  obtain rfl | ⟨w, reach, rfl⟩ := ht
  · exact h
  · exact h.wake w reach

theorem Inv.parentProcess (h : Inv s) {choice : Choice} (hnext : parentProcess s choice = some s') :
    Inv s' := by
  cases parentMove hnext with
  | urslvd t x ht hactive => exact (h.woken ht).locUrslvd choice x
  | ready n rest hparent hsemA =>
    refine h.parentGoto rfl rfl rfl rfl (fun w hw ↦ ?_) fun _ ↦ ⟨by rw [hparent]; rfl, rfl⟩
    split at hw <;> simp at hw
  | lock again w hparent hfree =>
    refine h.lock hparent hfree fun i ↦ ?_
    cases w <;> cases i <;> simp
  | unlock last w hparent =>
    refine h.unlock hparent fun i ↦ ?_
    cases w <;> cases i <;> cases last <;> simp
  | round t point semA usr1 ht hbefore hafter =>
    have hactive : t.parent.active = true := by
      rw [ht.parent]
      exact ParentPoint.active_of_inRound hbefore
    refine (h.woken ht).parentGoto rfl rfl rfl rfl (fun w hw ↦ ?_) fun _ ↦ ⟨hactive, rfl⟩
    obtain hafter | rfl := hafter
    · cases point <;> first | exact hw.elim | cases hafter
    · exact absurd hw (Nat.not_lt_zero w.index)
  | result result hparent =>
    refine h.parentGoto rfl rfl rfl rfl (fun _ _ ↦ ?_) fun _ ↦ ⟨?_, rfl⟩
    all_goals obtain hparent | hparent := hparent <;> rw [hparent] <;> trivial
  | passes hparent | stop hparent =>
    exact h.parentGoto rfl rfl rfl rfl (fun _ _ ↦ by rw [hparent]; trivial)
      fun _ ↦ ⟨by rw [hparent]; rfl, rfl⟩
  | post | ended =>
    exact h.parentGoto rfl rfl rfl rfl (fun _ ↦ False.elim) (by simp)

theorem Inv.next (h : Inv s) {move : Move} (hnext : next s move = some s') : Inv s' := by
  cases move with
  | parent choice => exact h.parentProcess hnext
  | _ => exact h.childNext (Option.ite_none_left_eq_some.mp hnext).2

theorem inv_of_reachable (h : program.Reachable s) : Inv s := by
  refine h.invariant ?_ fun state move state' _ hinv hnext ↦ hinv.next hnext
  rintro state rfl
  exact inv_start

end OpenPosix.CondVars.Shared

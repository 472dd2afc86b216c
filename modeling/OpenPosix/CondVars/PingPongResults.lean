import OpenPosix.CondVars.PingPongModel

/-!
# No wake-up is lost between the two threads

What can go wrong is that a thread waits and the other one does not wake it any more. `Fits` says
which points the two threads of a cell can be at together: while one of them is blocked, the other
one is on its way to a wake-up, and a thread that has found the boolean 0 and is going to wait has
not been left behind. A thread tests the boolean and waits without releasing the mutex in between,
and so the other one comes to its own test of the boolean later, when it is still woken.

`ping_pong` is the result. When the boolean is set, every step of a thread leaves less to do
(`State.weight`), and until `main` has joined all threads some thread has a step.
-/

namespace OpenPosix.CondVars.PingPong

open Interleaving Function

variable {n : ℕ} {s s' : State n} {i : Fin n} {c c' : Cell} {boolean wakes : Bool}

/-! ### Classes of points -/

def PointA.holds : PointA → Bool
  | .create | .test | .arm | .wait | .signal | .unlock => true
  | _ => false

def PointB.holds : PointB → Bool
  | .test | .broadcast | .arm | .wait | .lastBroadcast | .unlock => true
  | _ => false

def Cell.Holds (c : Cell) : Side → Prop
  | .A => c.a.holds = true
  | .B => c.b.holds = true

/-- `threaded_A` has not started the other thread. -/
def PointA.early : PointA → Bool
  | .unborn | .lock | .create => true
  | _ => false

/-- `threaded_A` is going to signal the condition variable before it waits or leaves its loop. -/
def PointA.wakesOther : PointA → Bool
  | .woken | .signal => true
  | _ => false

/-- `threaded_B` is going to broadcast the condition variable before it waits or exits. -/
def PointB.wakesOther : PointB → Bool
  | .lock | .test | .broadcast | .woken | .lastBroadcast => true
  | _ => false

/-- The thread has found the boolean 0 and is going to wait. -/
def PointA.settled : PointA → Bool
  | .arm | .wait => true
  | _ => false

def PointB.settled : PointB → Bool
  | .broadcast | .arm | .wait => true
  | _ => false

def PointA.left : PointA → Bool
  | .unlock | .join | .returned => true
  | _ => false

def PointB.left : PointB → Bool
  | .lastBroadcast | .unlock | .exited => true
  | _ => false

/-- `threaded_B` will not wake anybody any more. -/
def PointB.silent : PointB → Bool
  | .unlock | .exited => true
  | _ => false

/-! ### One cell -/

/-- Where the two threads of a cell can be together. -/
structure Fits (boolean : Bool) (a : PointA) (b : PointB) : Prop where
  unborn : b = .unborn ↔ a.early = true
  wakesA : a = .blocked → b.wakesOther = true
  wakesB : b = .blocked → a.wakesOther = true
  settledA : a.settled = true → b ≠ .exited
  settledB : b.settled = true → a.left = false
  leftA : a.left = true → boolean = true
  leftB : b.left = true → boolean = true
  joined : a = .returned → b = .exited

theorem fits_iff {a : PointA} {b : PointB} : Fits boolean a b ↔
    (b = .unborn ↔ a.early = true) ∧ (a = .blocked → b.wakesOther = true) ∧
      (b = .blocked → a.wakesOther = true) ∧ (a.settled = true → b ≠ .exited) ∧
      (b.settled = true → a.left = false) ∧ (a.left = true → boolean = true) ∧
      (b.left = true → boolean = true) ∧ (a = .returned → b = .exited) := by
  constructor
  · intro h
    exact ⟨h.unborn, h.wakesA, h.wakesB, h.settledA, h.settledB, h.leftA, h.leftB, h.joined⟩
  · rintro ⟨hunborn, hwakesA, hwakesB, hsettledA, hsettledB, hleftA, hleftB, hjoined⟩
    exact ⟨hunborn, hwakesA, hwakesB, hsettledA, hsettledB, hleftA, hleftB, hjoined⟩

instance (boolean : Bool) (a : PointA) (b : PointB) : Decidable (Fits boolean a b) :=
  decidable_of_iff _ fits_iff.symm

structure CellOk (boolean : Bool) (c : Cell) : Prop where
  owned : Owned c.mtx c.Holds
  fits : Fits boolean c.a c.b

theorem CellOk.exclusive (h : CellOk boolean c) : ¬ (c.a.holds = true ∧ c.b.holds = true) := by
  rintro ⟨hA, hB⟩
  have heq : Side.A = Side.B := h.owned.unique hA hB
  cases heq

theorem PointA.holds_wake (a : PointA) : a.wake.holds = a.holds := by
  cases a <;> rfl

theorem PointB.holds_wake (b : PointB) : b.wake.holds = b.holds := by
  cases b <;> rfl

theorem Fits.threadedA (h : Fits boolean c.a c.b) (hone : ¬ (c.a.holds = true ∧ c.b.holds = true))
    (hnext : threadedA boolean c = some c') : Fits boolean c'.a c'.b := by
  obtain ⟨a, b, mtx⟩ := c
  cases a
  case unborn | blocked | returned => simp [PingPong.threadedA] at hnext
  case join =>
    obtain ⟨rfl, ⟨⟩⟩ := Option.ite_none_right_eq_some.mp hnext
    dsimp only at h ⊢
    revert h
    cases boolean <;> decide
  case' lock | woken => obtain ⟨owner, -, rfl⟩ := Option.map_eq_some_iff.mp hnext
  case' create | arm | wait | signal | test | unlock => cases hnext
  all_goals
    dsimp only [Cell.condWake] at h hone ⊢
    revert h hone
    cases boolean <;> cases b <;> decide

theorem Fits.threadedB (h : Fits boolean c.a c.b) (hone : ¬ (c.a.holds = true ∧ c.b.holds = true))
    (hnext : threadedB boolean c = some c') : Fits boolean c'.a c'.b := by
  obtain ⟨a, b, mtx⟩ := c
  cases b
  case unborn | blocked | exited => simp [PingPong.threadedB] at hnext
  case' lock | woken => obtain ⟨owner, -, rfl⟩ := Option.map_eq_some_iff.mp hnext
  case' broadcast | arm | wait | test | unlock | lastBroadcast => cases hnext
  all_goals
    dsimp only [Cell.condWake] at h hone ⊢
    revert h hone
    cases boolean <;> cases a <;> decide

theorem iff_of_ne_A {holds holds' : Side → Prop} (h : holds' .B ↔ holds .B) :
    ∀ side, side ≠ .A → (holds' side ↔ holds side)
  | .A, hne => absurd rfl hne
  | .B, _ => h

theorem iff_of_ne_B {holds holds' : Side → Prop} (h : holds' .A ↔ holds .A) :
    ∀ side, side ≠ .B → (holds' side ↔ holds side)
  | .A, _ => h
  | .B, hne => absurd rfl hne

/-- Neither thread takes the mutex or releases it. -/
theorem Cell.holds_congr (hA : c'.a.holds = c.a.holds) (hB : c'.b.holds = c.b.holds) (side : Side) :
    c'.Holds side ↔ c.Holds side := by
  cases side with
  | A => rw [Cell.Holds, Cell.Holds, hA]
  | B => rw [Cell.Holds, Cell.Holds, hB]

theorem CellOk.threadedA (h : CellOk boolean c) (hnext : threadedA boolean c = some c') :
    CellOk boolean c' := by
  refine ⟨?_, h.fits.threadedA h.exclusive hnext⟩
  obtain ⟨howned, hfits⟩ := h
  obtain ⟨a, b, mtx⟩ := c
  cases a with
  | unborn | blocked | returned => simp [PingPong.threadedA] at hnext
  | lock | woken =>
    obtain ⟨hfree, rfl⟩ := map_mutexLock_eq_some_iff.mp hnext
    exact howned.acquire hfree rfl (iff_of_ne_A .rfl)
  | wait | unlock =>
    cases hnext
    exact howned.release (show Cell.Holds _ .A from rfl) Bool.false_ne_true (iff_of_ne_A .rfl)
  | create =>
    obtain rfl : b = .unborn := hfits.unborn.mpr rfl
    cases hnext
    exact howned.congr (Cell.holds_congr rfl rfl)
  | test =>
    cases hnext
    exact howned.congr (Cell.holds_congr (by cases boolean <;> rfl) rfl)
  | signal =>
    cases hnext
    exact howned.congr (Cell.holds_congr rfl b.holds_wake)
  | join =>
    obtain ⟨-, ⟨⟩⟩ := Option.ite_none_right_eq_some.mp hnext
    exact howned.congr (Cell.holds_congr rfl rfl)
  | arm =>
    cases hnext
    exact howned.congr (Cell.holds_congr rfl rfl)

theorem CellOk.threadedB (h : CellOk boolean c) (hnext : threadedB boolean c = some c') :
    CellOk boolean c' := by
  refine ⟨?_, h.fits.threadedB h.exclusive hnext⟩
  obtain ⟨howned, hfits⟩ := h
  obtain ⟨a, b, mtx⟩ := c
  cases b with
  | unborn | blocked | exited => simp [PingPong.threadedB] at hnext
  | lock | woken =>
    obtain ⟨hfree, rfl⟩ := map_mutexLock_eq_some_iff.mp hnext
    exact howned.acquire hfree rfl (iff_of_ne_B .rfl)
  | wait | unlock =>
    cases hnext
    exact howned.release (show Cell.Holds _ .B from rfl) Bool.false_ne_true (iff_of_ne_B .rfl)
  | test =>
    cases hnext
    exact howned.congr (Cell.holds_congr rfl (by cases boolean <;> rfl))
  | broadcast | lastBroadcast =>
    cases hnext
    exact howned.congr (Cell.holds_congr a.holds_wake rfl)
  | arm =>
    cases hnext
    exact howned.congr (Cell.holds_congr rfl rfl)

/-- A woken thread is as good as one that waits and will be woken. -/
theorem CellOk.spurious {side : Side} (h : CellOk boolean c) (hnext : c.spurious side = some c') :
    CellOk boolean c' := by
  obtain ⟨howned, hfits⟩ := h
  obtain ⟨a, b, mtx⟩ := c
  cases side with
  | A =>
    obtain ⟨hblocked, hnext⟩ := Option.ite_none_right_eq_some.mp hnext
    obtain rfl : a = .blocked := hblocked
    cases hnext
    refine ⟨howned.congr (Cell.holds_congr rfl rfl), ?_⟩
    dsimp only at hfits ⊢
    revert hfits
    cases boolean <;> cases b <;> decide
  | B =>
    obtain ⟨hblocked, hnext⟩ := Option.ite_none_right_eq_some.mp hnext
    obtain rfl : b = .blocked := hblocked
    cases hnext
    refine ⟨howned.congr (Cell.holds_congr rfl rfl), ?_⟩
    dsimp only at hfits ⊢
    revert hfits
    cases boolean <;> cases a <;> decide

/-- The handler sets the boolean. -/
theorem CellOk.sighdl (h : CellOk boolean c) : CellOk true c :=
  ⟨h.owned, { h.fits with leftA := fun _ ↦ rfl, leftB := fun _ ↦ rfl }⟩

/-- `main` starts the first thread of a cell. -/
theorem CellOk.create (h : CellOk boolean c) (ha : c.a = .unborn) :
    CellOk boolean { c with a := .lock } := by
  obtain ⟨howned, hfits⟩ := h
  obtain ⟨a, b, mtx⟩ := c
  obtain rfl : a = .unborn := ha
  refine ⟨howned.congr (Cell.holds_congr rfl rfl), ?_⟩
  dsimp only at hfits ⊢
  revert hfits
  cases boolean <;> cases b <;> decide

/-! ### All cells -/

structure Inv (s : State n) : Prop where
  cells : ∀ i, CellOk s.boolean (s.cell i)
  covers : s.main.Covers fun i ↦ (s.cell i).a = .unborn
  joined : ∀ i, i ∉ s.main.joins → (s.cell i).a = .returned

theorem inv_start (n : ℕ) (boolean : Bool) : Inv (start n boolean) where
  cells i := by
    refine ⟨fun side ↦ iff_of_false (Option.some_ne_none side).symm ?_, ?_⟩
    · cases side <;> exact Bool.false_ne_true
    · change Fits boolean .unborn .unborn
      cases boolean <;> decide
  covers := ⟨fun i ↦ iff_of_true rfl (List.mem_finRange i), List.nodup_finRange n⟩
  joined i hi := absurd (List.mem_finRange i) hi

/-- What no step of a cell does to its first thread: start it, or undo its return. -/
@[simp] def Cell.Keeps (c c' : Cell) : Prop :=
  (c'.a = .unborn ↔ c.a = .unborn) ∧ (c.a = .returned → c'.a = .returned)

theorem keeps_threadedA (hnext : threadedA boolean c = some c') : c.Keeps c' := by
  obtain ⟨a, b, mtx⟩ := c
  cases a with
  | unborn | blocked | returned => simp [threadedA] at hnext
  | lock | woken =>
    obtain ⟨owner, -, rfl⟩ := Option.map_eq_some_iff.mp hnext
    simp
  | join =>
    obtain ⟨-, ⟨⟩⟩ := Option.ite_none_right_eq_some.mp hnext
    simp
  | _ =>
    cases hnext
    cases boolean <;> simp

theorem PointA.wake_eq_unborn_iff {a : PointA} : a.wake = .unborn ↔ a = .unborn := by
  cases a <;> simp [PointA.wake]

theorem keeps_threadedB (hnext : threadedB boolean c = some c') : c.Keeps c' := by
  have hwake : c.Keeps c.condWake := by
    refine ⟨PointA.wake_eq_unborn_iff, fun hreturned ↦ ?_⟩
    rw [Cell.condWake, hreturned]
    rfl
  unfold threadedB at hnext
  split at hnext
  case h_1 | h_7 | h_11 => cases hnext
  case h_2 | h_8 =>
    obtain ⟨owner, -, rfl⟩ := Option.map_eq_some_iff.mp hnext
    exact ⟨.rfl, id⟩
  case h_4 | h_9 => exact Option.some.inj hnext ▸ hwake
  all_goals exact Option.some.inj hnext ▸ ⟨.rfl, id⟩

theorem Cell.keeps_spurious {side : Side} (hnext : c.spurious side = some c') : c.Keeps c' := by
  cases side with
  | A =>
    obtain ⟨hblocked, ⟨⟩⟩ := Option.ite_none_right_eq_some.mp hnext
    simp [hblocked]
  | B =>
    obtain ⟨-, hnext⟩ := Option.ite_none_right_eq_some.mp hnext
    exact Option.some.inj hnext ▸ ⟨.rfl, id⟩

theorem Inv.onCell (h : Inv s) (hok : CellOk s.boolean c') (hkeeps : (s.cell i).Keeps c') :
    Inv { s with cell := update s.cell i c' } where
  cells := (forall_update_iff s.cell fun _ c ↦ CellOk s.boolean c).mpr ⟨hok, fun j _ ↦ h.cells j⟩
  covers := by
    refine h.covers.congr fun j ↦ ?_
    by_cases heq : j = i
    · subst heq
      simpa using hkeeps.1
    · simp [update_of_ne heq]
  joined := (forall_update_iff s.cell fun j c ↦
    j ∉ s.main.joins → c.a = .returned).mpr
      ⟨fun hi ↦ hkeeps.2 (h.joined i hi), fun j _ ↦ h.joined j⟩

theorem Inv.main (h : Inv s) (hnext : main s = some s') : Inv s' := by
  unfold PingPong.main at hnext
  split at hnext
  case h_1 i rest hcreates =>
    cases hnext
    have hunborn : (s.cell i).a = .unborn := (h.covers.unborn_iff i).mpr (by simp [hcreates])
    refine ⟨(forall_update_iff s.cell fun _ c ↦ CellOk s.boolean c).mpr
      ⟨(h.cells i).create hunborn, fun j _ ↦ h.cells j⟩,
      h.covers.create hcreates (by simp) (fun j hj ↦ by simp [update_of_ne hj]) _,
      (forall_update_iff s.cell fun j c ↦ j ∉ s.main.joins → c.a = .returned).mpr
        ⟨fun hi ↦ ?_, fun j _ ↦ h.joined j⟩⟩
    rw [h.joined i hi] at hunborn
    cases hunborn
  case h_2 hcreates =>
    split at hnext
    case h_1 i rest hjoins =>
      split_ifs at hnext with hreturned
      cases hnext
      refine ⟨h.cells, h.covers.join hcreates rest, fun j hj ↦ ?_⟩
      by_cases heq : j = i
      · rw [heq]
        exact hreturned
      · exact h.joined j (by simpa [hjoins, heq] using hj)
    case h_2 => cases hnext

theorem Inv.next (h : Inv s) {move : Move n} (hnext : next wakes s move = some s') : Inv s' := by
  cases move with
  | main => exact h.main hnext
  | thread i side =>
    obtain ⟨c', hstep, rfl⟩ := Option.map_eq_some_iff.mp hnext
    cases side with
    | A => exact h.onCell ((h.cells i).threadedA hstep) (keeps_threadedA hstep)
    | B => exact h.onCell ((h.cells i).threadedB hstep) (keeps_threadedB hstep)
  | spurious i side =>
    obtain ⟨-, hnext⟩ := Option.ite_none_right_eq_some.mp hnext
    obtain ⟨c', hstep, rfl⟩ := Option.map_eq_some_iff.mp hnext
    exact h.onCell ((h.cells i).spurious hstep) (Cell.keeps_spurious hstep)
  | sighdl =>
    cases hnext
    exact ⟨fun i ↦ (h.cells i).sighdl, h.covers, h.joined⟩

theorem inv_of_reachable (h : (program n wakes).Reachable s) : Inv s := by
  refine h.invariant ?_ fun state move state' _ hinv hnext ↦ hinv.next hnext
  rintro state ⟨boolean, rfl⟩
  exact inv_start n boolean

/-! ### The end -/

@[simp] def PointA.weight : PointA → ℕ
  | .unborn => 12
  | .lock => 11
  | .create => 10
  | .arm => 9
  | .wait => 8
  | .blocked => 7
  | .woken => 6
  | .signal => 5
  | .test => 4
  | .unlock => 3
  | .join => 2
  | .returned => 0

@[simp] def PointB.weight : PointB → ℕ
  | .unborn => 12
  | .lock => 11
  | .broadcast => 10
  | .arm => 9
  | .wait => 8
  | .blocked => 7
  | .woken => 6
  | .test => 5
  | .lastBroadcast => 4
  | .unlock => 3
  | .exited => 0

@[simp] def Cell.weight (c : Cell) : ℕ := c.a.weight + c.b.weight

def State.weight (s : State n) : ℕ :=
  total Cell.weight s.cell + s.main.creates.length + s.main.joins.length

theorem PointA.weight_wake_le (a : PointA) : a.wake.weight ≤ a.weight := by
  cases a <;> decide

theorem PointB.weight_wake_le (b : PointB) : b.wake.weight ≤ b.weight := by
  cases b <;> decide

theorem CellOk.weight_threadedA (h : CellOk true c) (hnext : PingPong.threadedA true c = some c') :
    c'.weight < c.weight := by
  have hunborn := h.fits.unborn
  obtain ⟨a, b, mtx⟩ := c
  cases a with
  | unborn | blocked | returned => simp [PingPong.threadedA] at hnext
  | lock | woken =>
    obtain ⟨owner, -, rfl⟩ := Option.map_eq_some_iff.mp hnext
    simp
  | create =>
    obtain rfl : b = .unborn := hunborn.mpr rfl
    cases hnext
    simp
  | signal =>
    cases hnext
    have hwake := b.weight_wake_le
    simp only [Cell.weight, Cell.condWake, PointA.weight]
    omega
  | join =>
    obtain ⟨-, ⟨⟩⟩ := Option.ite_none_right_eq_some.mp hnext
    simp
  | _ =>
    cases hnext
    simp

theorem weight_threadedB (hnext : threadedB true c = some c') : c'.weight < c.weight := by
  obtain ⟨a, b, mtx⟩ := c
  cases b with
  | unborn | blocked | exited => simp [threadedB] at hnext
  | lock | woken =>
    obtain ⟨owner, -, rfl⟩ := Option.map_eq_some_iff.mp hnext
    simp
  | broadcast | lastBroadcast =>
    cases hnext
    have hwake := a.weight_wake_le
    simp only [Cell.weight, Cell.condWake, PointB.weight]
    omega
  | _ =>
    cases hnext
    simp

theorem Cell.exists_step_of_holds (side : Side) (h : c.Holds side) :
    ∃ c', threaded boolean side c = some c' := by
  obtain ⟨a, b, mtx⟩ := c
  cases side with
  | A => cases a <;> first | exact ⟨_, rfl⟩ | cases h
  | B => cases b <;> first | exact ⟨_, rfl⟩ | cases h

/-- While the first thread runs, one of the two has a step. -/
theorem CellOk.exists_step (h : CellOk boolean c) (hborn : c.a ≠ .unborn)
    (hreturned : c.a ≠ .returned) : ∃ side c', threaded boolean side c = some c' := by
  cases hmtx : c.mtx with
  | some side => exact ⟨side, Cell.exists_step_of_holds side ((h.owned side).mp hmtx)⟩
  | none =>
    have hA : ¬ c.a.holds = true := h.owned.not_holds hmtx .A
    have hB : ¬ c.b.holds = true := h.owned.not_holds hmtx .B
    have hfits := h.fits
    obtain ⟨a, b, mtx⟩ := c
    obtain rfl : mtx = none := hmtx
    cases a with
    | unborn => exact absurd rfl hborn
    | returned => exact absurd rfl hreturned
    | lock | woken => exact ⟨.A, _, rfl⟩
    | blocked =>
      have hwakes := hfits.wakesA rfl
      cases b with
      | lock | woken => exact ⟨.B, _, rfl⟩
      | test | broadcast | lastBroadcast => exact absurd rfl hB
      | _ => cases hwakes
    | join =>
      cases b with
      | lock | woken => exact ⟨.B, _, rfl⟩
      | exited => exact ⟨.A, _, rfl⟩
      | unborn => cases hfits.unborn.mp rfl
      | blocked => cases hfits.wakesB rfl
      | _ => exact absurd rfl hB
    | _ => exact absurd rfl hA

/-- Some thread makes a step that leaves less to do. -/
theorem Inv.advances (h : Inv s) (hboolean : s.boolean = true) (hover : ¬ s.Over) :
    ∃ move s', PingPong.next false s move = some s' ∧ s'.boolean = true ∧ s'.weight < s.weight := by
  cases hcreates : s.main.creates with
  | cons i rest =>
    have hunborn : (s.cell i).a = .unborn := (h.covers.unborn_iff i).mpr (by simp [hcreates])
    have hnext : PingPong.next false s .main = some { s with
        main := ⟨rest, s.main.joins⟩
        cell := update s.cell i { s.cell i with a := .lock } } := by
      simp only [PingPong.next, PingPong.main, hcreates]
    refine ⟨.main, _, hnext, hboolean, ?_⟩
    have htotal := total_update Cell.weight s.cell i { s.cell i with a := .lock }
    simp only [State.weight, hcreates, List.length_cons]
    simp only [Cell.weight, PointA.weight, hunborn] at htotal ⊢
    omega
  | nil =>
    cases hjoins : s.main.joins with
    | nil =>
      refine absurd ?_ hover
      calc s.main = ⟨s.main.creates, s.main.joins⟩ := rfl
        _ = ⟨[], []⟩ := by rw [hcreates, hjoins]
    | cons i rest =>
      by_cases hreturned : (s.cell i).a = .returned
      · have hnext : PingPong.next false s .main = some { s with main := ⟨[], rest⟩ } := by
          simp only [PingPong.next, PingPong.main, hcreates, hjoins, if_pos hreturned]
        refine ⟨.main, _, hnext, hboolean, ?_⟩
        simp [State.weight, hcreates, hjoins]
      · have hborn : (s.cell i).a ≠ .unborn := by
          rw [ne_eq, h.covers.unborn_iff i, hcreates]
          exact List.not_mem_nil
        have hok := h.cells i
        rw [hboolean] at hok
        obtain ⟨side, c', hstep⟩ := hok.exists_step hborn hreturned
        have hlt : c'.weight < (s.cell i).weight := by
          cases side with
          | A => exact hok.weight_threadedA hstep
          | B => exact weight_threadedB hstep
        have hnext : PingPong.next false s (.thread i side) =
            some { s with cell := update s.cell i c' } := by
          simp only [PingPong.next, State.onCell, hboolean, hstep, Option.map_some]
        refine ⟨.thread i side, _, hnext, hboolean, ?_⟩
        have htotal := total_update Cell.weight s.cell i c'
        simp only [State.weight]
        omega

def Stopping (s : State n) : Prop := Inv s ∧ s.boolean = true

theorem Stopping.exists_over (h : Stopping s) :
    ∃ t, (program n false).Leads s t ∧ Stopping t ∧ t.Over := by
  refine System.exists_leads_of_measure State.weight (fun state hstate hover ↦ ?_) h
  obtain ⟨move, state', hnext, hboolean, hlt⟩ := hstate.1.advances hstate.2 hover
  exact ⟨move, state', hnext, ⟨hstate.1.next hnext, hboolean⟩, hlt⟩

theorem Inv.ended (h : Inv s) (hover : s.Over) (i : Fin n) :
    (s.cell i).a = .returned ∧ (s.cell i).b = .exited := by
  have hreturned : (s.cell i).a = .returned := by
    refine h.joined i ?_
    rw [hover]
    exact List.not_mem_nil
  exact ⟨hreturned, (h.cells i).fits.joined hreturned⟩

/-- For every number of cells, every run with any spurious wake-ups and every moment of the handler:
the two threads of a cell are never blocked together, neither is blocked when the other one has left
its loop and will not wake it, and once the boolean is set all threads can end without a spurious
wake-up. -/
theorem ping_pong (hreach : (program n wakes).Reachable s) :
    (∀ i, ¬ ((s.cell i).a = .blocked ∧ (s.cell i).b = .blocked)) ∧
      (∀ i, (s.cell i).a.left = true → (s.cell i).b ≠ .blocked) ∧
      (∀ i, (s.cell i).b.silent = true → (s.cell i).a ≠ .blocked) ∧
      (s.boolean = true → ∃ t, (program n false).Leads s t ∧ t.Over ∧
        ∀ i, (t.cell i).a = .returned ∧ (t.cell i).b = .exited) := by
  have hinv := inv_of_reachable hreach
  refine ⟨fun i ↦ ?_, fun i hleft hblocked ↦ ?_, fun i hsilent hblocked ↦ ?_, fun hboolean ↦ ?_⟩
  · rintro ⟨hA, hB⟩
    have hwakes := (hinv.cells i).fits.wakesA hA
    rw [hB] at hwakes
    cases hwakes
  · have hwakes := (hinv.cells i).fits.wakesB hblocked
    revert hleft hwakes
    cases (s.cell i).a <;> decide
  · have hwakes := (hinv.cells i).fits.wakesA hblocked
    revert hsilent hwakes
    cases (s.cell i).b <;> decide
  · obtain ⟨t, hleads, hstopping, hover⟩ := Stopping.exists_over ⟨hinv, hboolean⟩
    exact ⟨t, hleads, hover, hstopping.1.ended hover⟩

/-- In the first cell `A` waits and `B` has found the boolean 0, in the second one `B` waits and `A`
has been woken; then the handler runs, before the other thread of either is woken. -/
def stopsLate (first second : Fin 2) : List (Move 2) :=
  List.flatten [[.main, .main], .replicate 5 (.thread first .A), .replicate 2 (.thread first .B),
    .replicate 5 (.thread second .A), .replicate 5 (.thread second .B),
    [.thread second .A, .sighdl]]

theorem ping_pong_stopsLate :
    ∃ s, (program 2 true).runSchedule (start 2 false) (stopsLate 0 1) = some s ∧
      ((s.cell 0).a = .blocked ∧ (s.cell 0).b = .broadcast) ∧
      ((s.cell 1).a = .signal ∧ (s.cell 1).b = .blocked) ∧
      ∃ t, (program 2 false).Leads s t ∧ t.Over ∧
        ∀ i, (t.cell i).a = .returned ∧ (t.cell i).b = .exited := by
  obtain ⟨s, hrun, hfirst, hsecond, hboolean⟩ : ∃ s,
      (program 2 true).runSchedule (start 2 false) (stopsLate 0 1) = some s ∧
        ((s.cell 0).a = .blocked ∧ (s.cell 0).b = .broadcast) ∧
        ((s.cell 1).a = .signal ∧ (s.cell 1).b = .blocked) ∧ s.boolean = true :=
    System.exists_of_replay (by decide)
  have hinitial := System.reachable_of_initial (P := program 2 true) ⟨false, rfl⟩
  exact ⟨s, hrun, hfirst, hsecond, (ping_pong (hinitial.runSchedule hrun)).2.2.2 hboolean⟩

end OpenPosix.CondVars.PingPong

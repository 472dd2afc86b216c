import OpenPosix.Mutexes.StressModel

/-!
# The token of a cell

Once `cell_init` has posted the semaphore of a cell, the cell has one token: it is in the semaphore,
with `sigthr`, pending as a `SIGUSR2` on a worker, or in a handler that has not posted yet. What
`main` has done for a cell is its `Stage`, and `CellOk` is what then holds in the cell. A step of a
thread changes one worker (`CellOk.put`) or `sigthr` (`CellOk.sig`), or takes the token from one to
the other (`CellOk.kill`). `Inv` holds in every run, whichever thread takes `SIGUSR1`.
-/

namespace OpenPosix.Mutexes.Stress

open Interleaving Function

attribute [simp] Cell.blank Worker.unborn Cell.put WorkerPoint.keySet

/-! ### Classes of points -/

@[simp] def WorkerPoint.holds : WorkerPoint → Bool
  | .check | .write | .recheck | .reset | .unlock => true
  | _ => false

@[simp] def WorkerPoint.holdsT : WorkerPoint → Bool
  | .incrT | .unlockT => true
  | _ => false

def SigPoint.holdsT : SigPoint → Bool
  | .readT | .unlockT _ => true
  | _ => false

/-- `ctrl` has the value of the worker. -/
def WorkerPoint.writing : WorkerPoint → Bool
  | .recheck | .reset => true
  | _ => false

def WorkerPoint.counted : WorkerPoint → ℕ
  | .unborn | .setspecific | .lockT | .incrT => 0
  | _ => 1

def Worker.counted (w : Worker) : ℕ := w.point.counted

/-- The tokens of a worker: a pending signal, and a handler that has not posted the semaphore. -/
@[simp] def Worker.carries (w : Worker) : ℕ :=
  w.pending.toNat + if w.handler = .entered then 1 else 0

/-- `sigthr` is between the return from `sem_wait` and `pthread_kill`. -/
def SigPoint.carries : SigPoint → ℕ
  | .kill _ => 1
  | _ => 0

/-- `sigthr` has seen that all workers have been counted. -/
@[simp] def SigPoint.polled : SigPoint → Bool
  | .unborn | .lockT | .readT | .unlockT _ => false
  | _ => true

def SigPoint.inLoop : SigPoint → Bool
  | .setOk | .returned | .unresolved => false
  | _ => true

/-- Who holds the mutex of the counter, as the points say. -/
def HoldsT (c : Cell) : CellThread → Prop
  | .sigthr => c.sigthr.holdsT = true
  | .worker j => (c.worker j).point.holdsT = true

/-- What `main` has done for a cell: nothing, all but the workers in `js`, or everything. -/
inductive Stage
  | absent
  | creating (js : List (Fin 9))
  | running

/-- The workers that `main` has not created. -/
def Stage.missing : Stage → Fin 9 → Prop
  | .absent, _ => True
  | .creating js, j => j ∈ js
  | .running, _ => False

def Stage.tokens : Stage → ℕ
  | .running => 1
  | _ => 0

variable {k : ℕ}

/-- What `main` has done for a cell. -/
@[simp] def MainPoint.stage (main : MainPoint k) (c : Fin k) : Stage :=
  match main with
  | .init rest => if c ∈ rest then .absent else .running
  | .create c' js rest => if c = c' then .creating js else if c ∈ rest then .absent else .running
  | .post c' rest => if c = c' then .creating [] else if c ∈ rest then .absent else .running
  | _ => .running

/-- The lists of cells and workers that `main` goes through have no repetitions. -/
def MainPoint.Nodup : MainPoint k → Prop
  | .init rest => rest.Nodup
  | .create c js rest => (c :: rest).Nodup ∧ js.Nodup
  | .post c rest => (c :: rest).Nodup
  | _ => True

/-- The cells whose `sigthr` `main` has joined. -/
def MainPoint.joinedSig : MainPoint k → Fin k → Prop
  | .fini rest, c => c ∉ rest
  | .join c' _ rest, c | .destroy c' rest, c => c = c' ∨ c ∉ rest
  | .ended, _ => True
  | _, _ => False

def MainPoint.joined : MainPoint k → Fin k → Fin 9 → Prop
  | .fini rest, c, _ => c ∉ rest
  | .join c' js rest, c, j => (c = c' → j ∉ js) ∧ (c = c' ∨ c ∉ rest)
  | .destroy c' rest, c, _ => c = c' ∨ c ∉ rest
  | .ended, _, _ => True
  | _, _, _ => False

def Cell.tokens (c : Cell) : ℕ := c.semsig + total Worker.carries c.worker + c.sigthr.carries

structure CellOk (stage : Stage) (c : Cell) : Prop where
  mtx : Owned c.mtx fun j ↦ (c.worker j).point.holds = true
  tmtx : Owned c.tmtx (HoldsT c)
  ctrl : ∀ j, (c.worker j).point.writing = true → c.ctrl = (c.worker j).loc
  clean : (∀ j, (c.worker j).point.writing = false) → c.ctrl = 0#8
  tcnt : c.tcnt = total Worker.counted c.worker
  seen : ∀ i, c.sigthr = .unlockT i → i ≤ c.tcnt
  polled : c.sigthr.polled = true → ∀ j, (c.worker j).point.counted = 1
  tokens : c.tokens = stage.tokens
  keyed : ∀ j, (c.worker j).pending = true ∨ (c.worker j).handler ≠ .idle →
    (c.worker j).point.keySet = true
  sigok : c.sigok = true ↔ c.sigthr = .returned
  ended : ∀ j, (c.worker j).point = .returned → c.sigok = true
  unfailed : ∀ j, (c.worker j).point ≠ .failed
  absent : c.sigthr = .unborn ↔ stage = .absent
  missing : ∀ j, (c.worker j).point = .unborn ↔ stage.missing j

variable {c c' : Cell} {j : Fin 9} {stage : Stage} {doIt : Bool}

theorem cellOk_blank : CellOk .absent Cell.blank where
  mtx := by simp [Owned]
  tmtx := by
    intro thread
    cases thread <;>
      simp [HoldsT, SigPoint.holdsT]
  ctrl := by simp [WorkerPoint.writing]
  clean := fun _ ↦ rfl
  tcnt := (total_eq_zero fun _ ↦ rfl).symm
  seen := by simp
  polled := by simp
  tokens := by simp [Cell.tokens, SigPoint.carries, Stage.tokens, total]
  keyed := by simp
  sigok := by simp
  ended := by simp
  unfailed := by simp
  absent := by simp
  missing := by simp [Stage.missing]

/-! ### The mutexes -/

variable {w : Worker} {old point : WorkerPoint}

theorem holds_put (w : Worker) : (fun i ↦ ((c.put j w).worker i).point.holds = true) =
      update (fun i ↦ (c.worker i).point.holds = true) j (w.point.holds = true) := by
  ext1 i
  by_cases heq : i = j
  · subst heq
    simp
  · simp [update_of_ne heq]

theorem holdsT_put (w : Worker) :
    HoldsT (c.put j w) = update (HoldsT c) (.worker j) (w.point.holdsT = true) := by
  refine eq_update_iff.mpr ⟨by simp [HoldsT], fun thread hne ↦ ?_⟩
  cases thread with
  | sigthr => rfl
  | worker i =>
    have hij : i ≠ j := fun heq ↦ hne (heq ▸ rfl)
    simp [HoldsT, update_of_ne hij]

theorem holdsT_sig (point : SigPoint) : HoldsT { c with sigthr := point } =
      update (HoldsT c) .sigthr (point.holdsT = true) := by
  ext1 thread
  cases thread with
  | sigthr | worker i => simp [HoldsT]

theorem CellOk.mtx_put (h : CellOk stage c) {mtx : Option (Fin 9)}
    (hpass : Passes j c.mtx (c.worker j).point.holds w.point.holds mtx) :
    Owned mtx fun i ↦ ((c.put j w).worker i).point.holds = true := by
  rw [holds_put]
  exact h.mtx.pass Iff.rfl hpass

theorem CellOk.tmtx_put (h : CellOk stage c) {tmtx : Option CellThread}
    (hpass : Passes (.worker j) c.tmtx (c.worker j).point.holdsT w.point.holdsT tmtx) :
    Owned tmtx (HoldsT (c.put j w)) := by
  rw [holdsT_put]
  exact h.tmtx.pass Iff.rfl hpass

theorem CellOk.tmtx_sig (h : CellOk stage c) {tmtx : Option CellThread} {point : SigPoint}
    (hpass : Passes .sigthr c.tmtx c.sigthr.holdsT point.holdsT tmtx) :
    Owned tmtx (HoldsT { c with sigthr := point }) := by
  rw [holdsT_sig]
  exact h.tmtx.pass Iff.rfl hpass

/-- Two workers do not hold the mutex of the cell together. -/
theorem CellOk.unique (h : CellOk stage c) {i : Fin 9} (hi : (c.worker i).point.holds = true)
    (hj : (c.worker j).point.holds = true) : i = j :=
  h.mtx.unique hi hj

theorem WorkerPoint.holds_of_writing (h : point.writing = true) : point.holds = true := by
  cases point <;> simp_all [WorkerPoint.writing]

/-! ### Steps of the workers -/

theorem WorkerPoint.counted_le_one (point : WorkerPoint) : point.counted ≤ 1 := by
  cases point <;> decide

/-- A worker changes, and with it what it has access to. -/
theorem CellOk.put (h : CellOk stage c) {mtx : Option (Fin 9)} {tmtx : Option CellThread}
    (ctrl : BitVec 8) (semsig tcnt : ℕ)
    (hmtx : Passes j c.mtx (c.worker j).point.holds w.point.holds mtx)
    (htmtx : Passes (.worker j) c.tmtx (c.worker j).point.holdsT w.point.holdsT tmtx)
    (hctrl : ∀ i, ((c.put j w).worker i).point.writing = true → ctrl = ((c.put j w).worker i).loc)
    (hclean : (∀ i, ((c.put j w).worker i).point.writing = false) → ctrl = 0#8)
    (htcnt : tcnt + (c.worker j).counted = c.tcnt + w.counted)
    (hcounted : (c.worker j).counted ≤ w.counted)
    (htoken : semsig + w.carries = c.semsig + (c.worker j).carries)
    (hkeyed : w.pending = true ∨ w.handler ≠ .idle → w.point.keySet = true)
    (hended : w.point = .returned → c.sigok = true) (hfailed : w.point ≠ .failed)
    (hborn : w.point = .unborn ↔ (c.worker j).point = .unborn) : CellOk stage { c.put j w with
      mtx := mtx, tmtx := tmtx, ctrl := ctrl, semsig := semsig, tcnt := tcnt } where
  mtx := h.mtx_put hmtx
  tmtx := h.tmtx_put htmtx
  ctrl := hctrl
  clean := hclean
  tcnt := by
    have htotal := total_update Worker.counted c.worker j w
    have hbefore := h.tcnt
    simp only [Cell.put]
    omega
  seen := by
    intro i hi
    have hle := h.seen i hi
    simp only
    omega
  polled := by
    intro hpolled
    have hbefore := h.polled hpolled
    refine (forall_update_iff c.worker fun _ w ↦ w.point.counted = 1).mpr ⟨?_, fun i _ ↦ hbefore i⟩
    have hj : (c.worker j).counted = 1 := hbefore j
    exact le_antisymm w.point.counted_le_one (hj ▸ hcounted)
  tokens := by
    have htotal := total_update Worker.carries c.worker j w
    have hbefore := h.tokens
    simp only [Cell.tokens, Cell.put] at hbefore ⊢
    omega
  keyed := (forall_update_iff c.worker fun _ w ↦
    w.pending = true ∨ w.handler ≠ .idle → w.point.keySet = true).mpr ⟨hkeyed, fun i _ ↦ h.keyed i⟩
  sigok := h.sigok
  ended := (forall_update_iff c.worker fun _ w ↦
    w.point = .returned → c.sigok = true).mpr ⟨hended, fun i _ ↦ h.ended i⟩
  unfailed := (forall_update_iff c.worker fun _ w ↦ w.point ≠ .failed).mpr
    ⟨hfailed, fun i _ ↦ h.unfailed i⟩
  absent := h.absent
  missing := (forall_update_iff c.worker fun i w ↦
    w.point = .unborn ↔ stage.missing i).mpr ⟨hborn.trans (h.missing j), fun i _ ↦ h.missing i⟩

/-- A worker that does not write to `ctrl` does not disturb the one that does. -/
theorem CellOk.ctrl_same (h : CellOk stage c)
    (hwriting : w.point.writing = (c.worker j).point.writing) (hloc : w.loc = (c.worker j).loc)
    (i : Fin 9) (hi : ((c.put j w).worker i).point.writing = true) :
    c.ctrl = ((c.put j w).worker i).loc := by
  by_cases heq : i = j
  · subst heq
    simp only [Cell.put, update_self] at hi ⊢
    rw [hloc]
    exact h.ctrl i (hwriting ▸ hi)
  · simp only [Cell.put, update_of_ne heq] at hi ⊢
    exact h.ctrl i hi

theorem CellOk.clean_same (h : CellOk stage c)
    (hwriting : w.point.writing = (c.worker j).point.writing)
    (hnone : ∀ i, ((c.put j w).worker i).point.writing = false) : c.ctrl = 0#8 := by
  refine h.clean fun i ↦ ?_
  have hi := hnone i
  by_cases heq : i = j
  · subst heq
    simpa [hwriting] using hi
  · simpa [update_of_ne heq] using hi

/-- A worker goes from one point to the other, and does not write to `ctrl`. -/
def WorkerPoint.Follows (old new : WorkerPoint) : Prop :=
  new.writing = old.writing ∧ old.counted ≤ new.counted ∧
    (old.keySet = true → new.keySet = true) ∧ new ≠ .failed ∧ old ≠ .unborn ∧ new ≠ .unborn

instance (old new : WorkerPoint) : Decidable (old.Follows new) :=
  inferInstanceAs (Decidable (_ ∧ _))

/-- It keeps its mutexes, or keeps out of them. -/
def WorkerPoint.Alike (old new : WorkerPoint) : Prop :=
  old.Follows new ∧ new.holds = old.holds ∧ new.holdsT = old.holdsT ∧ new.counted = old.counted

instance (old new : WorkerPoint) : Decidable (old.Alike new) :=
  inferInstanceAs (Decidable (_ ∧ _))

theorem CellOk.move (h : CellOk stage c) (hold : (c.worker j).point = old) {mtx : Option (Fin 9)}
    {tmtx : Option CellThread} (tcnt : ℕ) (hmtx : Passes j c.mtx old.holds point.holds mtx)
    (htmtx : Passes (.worker j) c.tmtx old.holdsT point.holdsT tmtx) (hfollows : old.Follows point)
    (htcnt : tcnt + old.counted = c.tcnt + point.counted)
    (hended : point = .returned → c.sigok = true) :
    CellOk stage { c.goto j point with mtx := mtx, tmtx := tmtx, tcnt := tcnt } := by
  subst hold
  obtain ⟨hwriting, hcounted, hkeyed, hfailed, hborn, hpoint⟩ := hfollows
  exact h.put c.ctrl c.semsig tcnt hmtx htmtx (h.ctrl_same hwriting rfl)
    (h.clean_same hwriting) htcnt hcounted rfl (fun hbusy ↦ hkeyed (h.keyed j hbusy)) hended hfailed
    (iff_of_false hpoint hborn)

theorem CellOk.goto (h : CellOk stage c) (hold : (c.worker j).point = old)
    (halike : old.Alike point) (hended : point = .returned → c.sigok = true) :
    CellOk stage (c.goto j point) := by
  obtain ⟨hfollows, hholds, hholdsT, hcounted⟩ := halike
  exact h.move hold c.tcnt (.keep hholds) (.keep hholdsT) hfollows (by rw [hcounted]) hended

/-- Only the holder of the mutex writes to `ctrl`. -/
theorem CellOk.writing_of_ne (h : CellOk stage c) (hholds : (c.worker j).point.holds = true)
    {i : Fin 9} (hne : i ≠ j) : (c.worker i).point.writing = false := by
  rw [← Bool.not_eq_true]
  exact fun hwriting ↦ hne (h.unique (WorkerPoint.holds_of_writing hwriting) hholds)

/-- The holder of the mutex finds `ctrl` at zero when it has not written to it. -/
theorem CellOk.ctrl_eq_zero (h : CellOk stage c) (hholds : (c.worker j).point.holds = true)
    (hwriting : (c.worker j).point.writing = false) : c.ctrl = 0#8 := by
  refine h.clean fun i ↦ ?_
  by_cases heq : i = j
  · rw [heq, hwriting]
  · exact h.writing_of_ne hholds heq

/-- The holder of the mutex writes to `ctrl`. -/
theorem CellOk.assign (h : CellOk stage c) (hold : (c.worker j).point = old) (loc ctrl : BitVec 8)
    (hbefore : old.holds = true) (hafter : point.holds = true)
    (hctrl : point.writing = true → ctrl = loc) (hclean : point.writing = false → ctrl = 0#8)
    (hpoint : point ≠ .failed) :
    CellOk stage { c.put j { c.worker j with point := point, loc := loc } with ctrl := ctrl } := by
  subst hold
  have hborn : ∀ {old : WorkerPoint}, old.holds = true →
      old ≠ .unborn ∧ old ≠ .returned ∧ old.counted = 1 ∧ old.holdsT = false ∧
        old.keySet = true := by
    intro old
    cases old <;> decide
  obtain ⟨hold, -, hcounted, hholdsT, -⟩ := hborn hbefore
  obtain ⟨hnew, hreturned, hcounted', hholdsT', hkey⟩ := hborn hafter
  refine h.put ctrl c.semsig c.tcnt (.keep (hafter.trans hbefore.symm))
    (.keep (hholdsT'.trans hholdsT.symm)) ?_ ?_ ?_ ?_ rfl (fun _ ↦ hkey)
    (fun heq ↦ absurd heq hreturned) hpoint (iff_of_false hnew hold)
  · intro i hi
    by_cases heq : i = j
    · subst heq
      simp only [Cell.put, update_self] at hi ⊢
      exact hctrl hi
    · simp only [Cell.put, update_of_ne heq, h.writing_of_ne hbefore heq] at hi
      simp at hi
  · intro hnone
    have hj := hnone j
    simp only [Cell.put, update_self] at hj
    exact hclean hj
  · simp only [Worker.counted, hcounted, hcounted']
  · simp only [Worker.counted, hcounted, hcounted', le_refl]

theorem exists_workerthr (j : Fin 9) :
    ∃ call, ∀ doIt c, worker doIt c j = workerthr call doIt c j := by
  unfold worker
  split_ifs
  · exact ⟨.lock, fun _ _ ↦ rfl⟩
  · exact ⟨.timedlock, fun _ _ ↦ rfl⟩
  · exact ⟨.trylock, fun _ _ ↦ rfl⟩

theorem CellOk.worker (h : CellOk stage c) (hnext : worker doIt c j = some c') :
    CellOk stage c' := by
  obtain ⟨call, hcall⟩ := exists_workerthr j
  rw [hcall] at hnext
  unfold workerthr at hnext
  split at hnext
  case h_1 | h_8 | h_14 | h_15 => simp at hnext
  case h_2 hpoint =>
    cases hnext
    exact h.goto hpoint (by decide) (by simp)
  case h_3 hpoint =>
    obtain ⟨hfree, rfl⟩ := map_mutexLock_eq_some_iff.mp hnext
    exact h.move hpoint c.tcnt (.keep rfl) (.take hfree rfl) (by decide) rfl (by simp)
  case h_4 hpoint =>
    cases hnext
    exact h.move hpoint (c.tcnt + 1) (.keep rfl) (.keep rfl) (by decide) rfl (by simp)
  case h_5 hpoint =>
    cases hnext
    exact h.move hpoint c.tcnt (.keep rfl) (.drop rfl rfl) (by decide) rfl (by simp)
  case h_6 hpoint =>
    split at hnext
    · obtain ⟨hfree, rfl⟩ := map_mutexLock_eq_some_iff.mp hnext
      exact h.move hpoint c.tcnt (.take hfree rfl) (.keep rfl) (by decide) rfl (by simp)
    all_goals
      split at hnext
      next owner howner =>
        cases hnext
        obtain ⟨hfree, rfl⟩ := mutexLock_eq_some_iff.mp howner
        exact h.move hpoint c.tcnt (.take hfree rfl) (.keep rfl) (by decide) rfl (by simp)
      next =>
        cases hnext
        exact h
  case h_7 hpoint =>
    cases hnext
    rw [if_pos (h.ctrl_eq_zero (j := j) (by rw [hpoint]; rfl) (by rw [hpoint]; rfl))]
    exact h.goto hpoint (by decide) (by simp)
  case h_9 hpoint =>
    cases hnext
    rw [if_pos (h.ctrl j (by rw [hpoint]; rfl))]
    exact h.goto hpoint (by decide) (by simp)
  case h_10 hpoint =>
    cases hnext
    exact h.assign hpoint _ 0#8 rfl rfl (by simp [WorkerPoint.writing]) (fun _ ↦ rfl) (by simp)
  case h_11 hpoint =>
    cases hnext
    exact h.move hpoint c.tcnt (.drop rfl rfl) (.keep rfl) (by decide) rfl (by simp)
  case h_12 hpoint =>
    cases hnext
    cases doIt
    all_goals exact h.goto hpoint (by decide) (by simp)
  case h_13 hpoint =>
    cases hnext
    split
    next hsigok => exact h.goto hpoint (by decide) fun _ ↦ hsigok
    next => exact h

theorem CellOk.control (h : CellOk stage c) {loc : BitVec 8}
    (hnext : control c j loc = some c') : CellOk stage c' := by
  obtain ⟨hpoint, ⟨⟩⟩ := Option.ite_none_right_eq_some.mp hnext
  exact h.assign hpoint loc loc rfl rfl (fun _ ↦ rfl) (by simp [WorkerPoint.writing]) (by simp)

/-! ### Steps of the handlers -/

/-- The code of a worker stands still, and its token moves. -/
theorem CellOk.handle (h : CellOk stage c) (pending : Bool) (handler : HandlerPoint) (semsig : ℕ)
    (hkeyed : (c.worker j).point.keySet = true)
    (htoken : semsig + Worker.carries ⟨(c.worker j).point, (c.worker j).loc, pending, handler⟩ =
      c.semsig + (c.worker j).carries) :
    CellOk stage { c.put j { c.worker j with pending := pending, handler := handler } with
      semsig := semsig } :=
  h.put c.ctrl semsig c.tcnt (.keep rfl) (.keep rfl) (h.ctrl_same rfl rfl) (h.clean_same rfl) rfl
    le_rfl htoken (fun _ ↦ hkeyed) (h.ended j) (h.unfailed j) Iff.rfl

theorem CellOk.deliver (h : CellOk stage c) (hnext : deliver c j = some c') :
    CellOk stage c' := by
  obtain ⟨⟨hpending, hidle, -⟩, ⟨⟩⟩ := Option.ite_none_right_eq_some.mp hnext
  exact h.handle false .entered c.semsig (h.keyed j (.inl hpending)) (by simp [hpending, hidle])

theorem CellOk.sighdl (h : CellOk stage c) (hnext : sighdl c j = some c') : CellOk stage c' := by
  unfold Stress.sighdl at hnext
  split at hnext
  case h_1 => simp at hnext
  case h_2 hentered =>
    split_ifs at hnext with hkeyed
    cases hnext
    refine h.handle (c.worker j).pending .posted _ hkeyed ?_
    simp [hentered]
    omega
  case h_3 hposted =>
    cases hnext
    exact h.handle (c.worker j).pending .idle c.semsig (h.keyed j (.inr (by simp [hposted])))
      (by simp [hposted])

/-! ### Steps of `sigthr` -/

variable {i : ℕ} {move : CellMove}

/-- `sigthr` goes to another point before its return, and takes the token out of the semaphore or
leaves it there. -/
theorem CellOk.sig (h : CellOk stage c) {old point : SigPoint} (hold : c.sigthr = old)
    {tmtx : Option CellThread} (semsig : ℕ)
    (hpass : Passes .sigthr c.tmtx old.holdsT point.holdsT tmtx)
    (hseen : ∀ i, point = .unlockT i → i ≤ c.tcnt)
    (hpolled : point.polled = true → ∀ j, (c.worker j).point.counted = 1)
    (htoken : semsig + point.carries = c.semsig + old.carries) (halive : old.alive = true)
    (halive' : point.alive = true) :
    CellOk stage { c with sigthr := point, tmtx := tmtx, semsig := semsig } := by
  subst hold
  have hclass : ∀ {point : SigPoint}, point.alive = true → point ≠ .unborn ∧ point ≠ .returned := by
    intro point
    cases point <;> simp [SigPoint.alive]
  obtain ⟨hborn, hreturned⟩ := hclass halive
  obtain ⟨hborn', hreturned'⟩ := hclass halive'
  exact { h with
    tmtx := h.tmtx_sig hpass
    seen := hseen
    polled := hpolled
    tokens := by
      have htokens := h.tokens
      simp only [Cell.tokens] at htokens ⊢
      omega
    sigok := iff_of_false (fun hsigok ↦ hreturned (h.sigok.mp hsigok)) hreturned'
    absent := iff_of_false hborn' fun habsent ↦ hborn (h.absent.mpr habsent) }

/-- `sigthr` goes on after the poll. -/
theorem CellOk.sigGoto (h : CellOk stage c) {old : SigPoint} (hold : c.sigthr = old)
    (point : SigPoint) (semsig : ℕ) (hbefore : old.polled = true) (hpolled : point.polled = true)
    (htoken : semsig + point.carries = c.semsig + old.carries) (halive : old.alive = true)
    (halive' : point.alive = true) : CellOk stage { c with sigthr := point, semsig := semsig } := by
  have hclass : ∀ {point : SigPoint}, point.polled = true →
      point.holdsT = false ∧ ∀ i, point ≠ .unlockT i := by
    intro point
    cases point <;> simp [SigPoint.holdsT]
  have hsame := (hclass hpolled).1.trans (hclass hbefore).1.symm
  exact h.sig hold semsig (.keep hsame) (fun i heq ↦ absurd heq ((hclass hpolled).2 i))
    (fun _ ↦ h.polled (hold ▸ hbefore)) htoken halive halive'

/-- The poll has read that nine workers have been counted. -/
theorem CellOk.all_counted (h : CellOk stage c) (hnine : 9 ≤ c.tcnt) (j : Fin 9) :
    (c.worker j).point.counted = 1 := by
  have hle : ∀ i, (c.worker i).counted ≤ 1 := fun i ↦ (c.worker i).point.counted_le_one
  refine eq_one_of_total_eq_card hle (le_antisymm (total_le_card hle) ?_) j
  rw [Fintype.card_fin, ← h.tcnt]
  exact hnine

/-- The target of `pthread_kill` has set its key and has not returned, and it has no token. -/
theorem CellOk.target_ok (h : CellOk stage c) (hkill : c.sigthr = .kill i) (j : Fin 9) :
    (c.worker j).point.keySet = true ∧ (c.worker j).point.alive = true ∧
      (c.worker j).carries = 0 := by
  have hcounted : (c.worker j).point.counted = 1 := h.polled (by rw [hkill]; rfl) j
  have hreturned : (c.worker j).point ≠ .returned := by
    intro heq
    have hsig := h.sigok.mp (h.ended j heq)
    rw [hkill] at hsig
    simp at hsig
  refine ⟨?_, ?_, ?_⟩
  · cases hpoint : (c.worker j).point <;> simp_all [WorkerPoint.counted]
  · cases hpoint : (c.worker j).point <;> simp_all [WorkerPoint.counted, WorkerPoint.alive]
  · have htokens := h.tokens
    have hle := le_total Worker.carries c.worker j
    have hstage : stage.tokens ≤ 1 := by cases stage <;> simp [Stage.tokens]
    simp only [Cell.tokens, hkill, SigPoint.carries] at htokens
    omega

/-- `pthread_kill` hands the token to a worker: it is as if the token went by the semaphore. -/
theorem CellOk.kill (h : CellOk stage c) (hkill : c.sigthr = .kill i) (j : Fin 9) :
    CellOk stage { c.put j { c.worker j with pending := true } with
      sigthr := .test (i % 9 + 1) } := by
  obtain ⟨hkeyed, -, hcarries⟩ := h.target_ok hkill j
  have hback : CellOk stage { c with sigthr := .test (i % 9 + 1), semsig := c.semsig + 1 } :=
    h.sigGoto hkill _ (c.semsig + 1) rfl rfl rfl rfl rfl
  refine hback.handle true (c.worker j).handler c.semsig hkeyed ?_
  simp only [Worker.carries] at hcarries ⊢
  simp only [Bool.toNat_true]
  omega

/-- `sigthr` says that it sends no more signals. -/
theorem CellOk.setOk (h : CellOk stage c) (hpoint : c.sigthr = .setOk) :
    CellOk stage { c with sigthr := .returned, sigok := true } :=
  { h with
    tmtx := h.tmtx_sig (.keep (by rw [hpoint]; rfl))
    seen := by simp
    polled := fun _ ↦ h.polled (by rw [hpoint]; rfl)
    tokens := by
      have htokens := h.tokens
      simp only [Cell.tokens, hpoint] at htokens ⊢
      exact htokens
    sigok := iff_of_true rfl rfl
    ended := fun _ _ ↦ rfl
    absent := iff_of_false (by simp) fun habsent ↦ by
      have hunborn := h.absent.mpr habsent
      rw [hpoint] at hunborn
      simp at hunborn }

/-- `sigthr` takes the token out of the semaphore. -/
theorem CellOk.take (h : CellOk stage c) {rest : ℕ}
    (hpoint : c.sigthr = .wait i ∨ c.sigthr = .blocked i) (hrest : semWait c.semsig = some rest) :
    CellOk stage { c with sigthr := .kill i, semsig := rest } := by
  have htoken := (semWait_eq_some_iff.mp hrest).symm
  obtain hpoint | hpoint := hpoint
  all_goals exact h.sigGoto hpoint (.kill i) rest rfl rfl htoken rfl rfl

theorem CellOk.sigthr (h : CellOk stage c) (hnext : sigthr doIt c = some c') :
    CellOk stage c' := by
  unfold Stress.sigthr at hnext
  split at hnext
  case h_1 | h_10 | h_11 => simp at hnext
  case h_2 hpoint =>
    obtain ⟨hfree, rfl⟩ := map_mutexLock_eq_some_iff.mp hnext
    exact h.sig hpoint c.semsig (.take hfree rfl) (by simp) (by simp) rfl rfl rfl
  case h_3 hpoint =>
    cases hnext
    exact h.sig hpoint c.semsig (.keep rfl) (by simp) (by simp) rfl rfl rfl
  case h_4 i hpoint =>
    cases hnext
    split
    next => exact h.sig hpoint c.semsig (.drop rfl rfl) (by simp) (by simp) rfl rfl rfl
    next hnine =>
      have hseen := h.seen i hpoint
      have hall := h.all_counted (by omega)
      exact h.sig hpoint c.semsig (.drop rfl rfl) (by simp) (fun _ ↦ hall) rfl rfl rfl
  case h_5 i hpoint =>
    cases hnext
    split
    next => exact h.sigGoto hpoint (.wait i) c.semsig rfl rfl rfl rfl rfl
    next => exact h.sigGoto hpoint .setOk c.semsig rfl rfl rfl rfl rfl
  case h_6 i hpoint =>
    split at hnext
    next rest hrest =>
      cases hnext
      exact h.take (.inl hpoint) hrest
    next =>
      cases hnext
      exact h.sigGoto hpoint (.blocked i) c.semsig rfl rfl rfl rfl rfl
  case h_7 i hpoint =>
    obtain ⟨rest, hrest, rfl⟩ := Option.map_eq_some_iff.mp hnext
    exact h.take (.inr hpoint) hrest
  case h_8 i hpoint =>
    rw [if_pos (h.target_ok hpoint (target i)).2.1] at hnext
    cases hnext
    exact h.kill hpoint (target i)
  case h_9 hpoint =>
    cases hnext
    exact h.setOk hpoint

theorem CellOk.next (h : CellOk stage c) (hnext : cellNext doIt c move = some c') :
    CellOk stage c' := by
  cases move with
  | sigthr => exact h.sigthr hnext
  | worker j => exact h.worker (Option.ite_none_right_eq_some.mp hnext).2
  | control j loc => exact h.control (Option.ite_none_right_eq_some.mp hnext).2
  | deliver j => exact h.deliver hnext
  | sighdl j => exact h.sighdl hnext

/-- `sem_wait` of `sigthr` is interrupted. -/
theorem CellOk.interrupt (h : CellOk stage c) (hinterrupts : c.interrupts = true) :
    CellOk stage { c with sigthr := .unresolved } := by
  unfold Cell.interrupts at hinterrupts
  split at hinterrupts
  case h_1 i hpoint => exact h.sigGoto hpoint .unresolved c.semsig rfl rfl rfl rfl rfl
  case h_2 => simp at hinterrupts

/-! ### Threads that have returned -/

/-- `sigthr` stays where it is, and the workers that have returned do so too. -/
def Keeps (c c' : Cell) : Prop :=
  c'.sigthr = c.sigthr ∧ ∀ i, (c.worker i).point = .returned → (c'.worker i).point = .returned

theorem keeps_put (h : (c.worker j).point = .returned → w.point = .returned) :
    Keeps c (c.put j w) := by
  refine ⟨rfl, fun i hi ↦ ?_⟩
  by_cases heq : i = j
  · subst heq
    simpa using h hi
  · simpa [update_of_ne heq] using hi

theorem keeps_worker (hnext : worker doIt c j = some c') : Keeps c c' := by
  have hput : ∀ {w : Worker}, (c.worker j).point ≠ .returned → Keeps c (c.put j w) :=
    fun hpoint ↦ keeps_put fun heq ↦ absurd heq hpoint
  have hsame : Keeps c c := ⟨rfl, fun _ ↦ id⟩
  obtain ⟨call, hcall⟩ := exists_workerthr j
  rw [hcall] at hnext
  unfold workerthr at hnext
  split at hnext
  case h_1 | h_8 | h_14 | h_15 => simp at hnext
  case h_3 hpoint =>
    obtain ⟨owner, -, rfl⟩ := Option.map_eq_some_iff.mp hnext
    exact hput (by simp [hpoint])
  case h_6 hpoint =>
    split at hnext
    · obtain ⟨owner, -, rfl⟩ := Option.map_eq_some_iff.mp hnext
      exact hput (by simp [hpoint])
    all_goals
      split at hnext
      next => exact Option.some.inj hnext ▸ hput (by simp [hpoint])
      next => exact Option.some.inj hnext ▸ hsame
  case h_13 hpoint =>
    cases hnext
    split
    next => exact hput (by simp [hpoint])
    next => exact hsame
  all_goals
    rename_i hpoint
    exact Option.some.inj hnext ▸ hput (by simp [hpoint])

/-- The steps of the workers and of the handlers. -/
theorem keeps_next (hmove : move ≠ .sigthr) (hnext : cellNext doIt c move = some c') :
    Keeps c c' := by
  cases move with
  | sigthr => exact absurd rfl hmove
  | worker j => exact keeps_worker (Option.ite_none_right_eq_some.mp hnext).2
  | control j loc =>
    obtain ⟨-, hnext⟩ := Option.ite_none_right_eq_some.mp hnext
    obtain ⟨hpoint, ⟨⟩⟩ := Option.ite_none_right_eq_some.mp hnext
    exact keeps_put fun heq ↦ absurd (hpoint.symm.trans heq) (by simp)
  | deliver j =>
    obtain ⟨-, hput⟩ := Option.ite_none_right_eq_some.mp hnext
    exact Option.some.inj hput ▸ keeps_put id
  | sighdl j =>
    simp only [cellNext, sighdl] at hnext
    split at hnext
    case h_1 => simp at hnext
    case h_2 =>
      split_ifs at hnext
      cases hnext
      exact keeps_put (w := { c.worker j with handler := .posted }) id
    case h_3 => exact Option.some.inj hnext ▸ keeps_put id

/-- What a step of `sigthr` does: the workers keep their points. -/
theorem points_of_sigthr (hnext : sigthr doIt c = some c') (i : Fin 9) :
    (c'.worker i).point = (c.worker i).point := by
  unfold sigthr at hnext
  split at hnext
  case h_1 | h_10 | h_11 => simp at hnext
  case h_2 | h_7 =>
    obtain ⟨_, -, rfl⟩ := Option.map_eq_some_iff.mp hnext
    rfl
  case h_6 =>
    split at hnext
    all_goals exact Option.some.inj hnext ▸ rfl
  case h_8 l hpoint =>
    split at hnext
    next =>
      cases hnext
      by_cases heq : i = target l
      · subst heq
        simp
      · simp [update_of_ne heq]
    next => exact Option.some.inj hnext ▸ rfl
  all_goals exact Option.some.inj hnext ▸ rfl

/-- The threads that have returned before a step have returned after it. -/
def KeepsReturned (c c' : Cell) : Prop :=
  (c.sigthr = .returned → c'.sigthr = .returned) ∧
    ∀ i, (c.worker i).point = .returned → (c'.worker i).point = .returned

theorem keepsReturned_next (hnext : cellNext doIt c move = some c') : KeepsReturned c c' := by
  by_cases hmove : move = .sigthr
  · subst hmove
    refine ⟨fun heq ↦ ?_, fun i hi ↦ (points_of_sigthr hnext i).trans hi⟩
    simp [cellNext, sigthr, heq] at hnext
  · have hkeeps := keeps_next hmove hnext
    exact ⟨fun heq ↦ hkeeps.1.trans heq, hkeeps.2⟩

/-! ### Steps of the process -/

variable {s s' : State k}

structure Inv (s : State k) : Prop where
  cell : ∀ c, CellOk (s.main.stage c) (s.cell c)
  nodup : s.main.Nodup
  joinedSig : ∀ c, s.main.joinedSig c → (s.cell c).sigthr = .returned
  joined : ∀ c j, s.main.joined c j → ((s.cell c).worker j).point = .returned
  unfailed : s.main ≠ .failed

theorem inv_start : Inv (start k) where
  cell := by
    intro c
    simpa [start] using cellOk_blank
  nodup := List.nodup_finRange k
  joinedSig := by simp [start, MainPoint.joinedSig]
  joined := by simp [start, MainPoint.joined]
  unfailed := by simp [start]

/-- A cell changes, and `main` stays where it is. -/
theorem Inv.put (h : Inv s) {c : Fin k} {new : Cell} (doIt : Bool)
    (hok : CellOk (s.main.stage c) new) (hkeeps : KeepsReturned (s.cell c) new) :
    Inv { s.put c new with doIt := doIt } where
  cell := (forall_update_iff s.cell fun c cell ↦ CellOk (s.main.stage c) cell).mpr
    ⟨hok, fun c _ ↦ h.cell c⟩
  nodup := h.nodup
  joinedSig := (forall_update_iff s.cell fun c cell ↦
    s.main.joinedSig c → cell.sigthr = .returned).mpr
      ⟨fun hjoined ↦ hkeeps.1 (h.joinedSig c hjoined), fun c _ ↦ h.joinedSig c⟩
  joined := (forall_update_iff s.cell fun c cell ↦
    ∀ j, s.main.joined c j → (cell.worker j).point = .returned).mpr
      ⟨fun j hjoined ↦ hkeeps.2 j (h.joined c j hjoined), fun c _ ↦ h.joined c⟩
  unfailed := h.unfailed

theorem Inv.cellNext (h : Inv s) {c : Fin k}
    (hnext : (cellNext s.doIt (s.cell c) move).map (s.put c) = some s') : Inv s' := by
  obtain ⟨new, hnew, rfl⟩ := Option.map_eq_some_iff.mp hnext
  exact h.put s.doIt ((h.cell c).next hnew) (keepsReturned_next hnew)

/-- `SIGUSR1` reaches a thread that it does not interrupt. -/
theorem Inv.stop (h : Inv s) : Inv { s with doIt := false } := { h with }

theorem Inv.globalsig (h : Inv s) {taker : Taker k} (hnext : globalsig s taker = some s') :
    Inv s' := by
  cases taker with
  | main => exact Option.some.inj hnext ▸ h.stop
  | worker c j => exact Option.some.inj (Option.ite_none_right_eq_some.mp hnext).2 ▸ h.stop
  | sigthr c =>
    obtain ⟨-, hnext⟩ := Option.ite_none_right_eq_some.mp hnext
    split at hnext
    next hinterrupts =>
      cases hnext
      refine h.put false ((h.cell c).interrupt hinterrupts) ⟨fun heq ↦ ?_, fun _ ↦ id⟩
      simp [Cell.interrupts, heq] at hinterrupts
    next => exact Option.some.inj hnext ▸ h.stop

/-! ### Steps of `main` -/

theorem cellOk_launched :
    CellOk (.creating (List.finRange 9)) { Cell.blank with sigthr := .lockT } :=
  { cellOk_blank with
    tmtx := cellOk_blank.tmtx_sig (.keep rfl)
    seen := by simp
    polled := by simp
    sigok := by simp
    absent := by simp
    missing := by simp [Stage.missing] }

theorem CellOk.create {c : Cell} {j : Fin 9} {js : List (Fin 9)}
    (h : CellOk (.creating (j :: js)) c) (hnodup : (j :: js).Nodup) :
    CellOk (.creating js) (c.goto j .setspecific) := by
  have hunborn : (c.worker j).point = .unborn := (h.missing j).mpr List.mem_cons_self
  have hidle : ¬ ((c.worker j).pending = true ∨ (c.worker j).handler ≠ .idle) := by
    intro hbusy
    have hkeyed := h.keyed j hbusy
    simp [hunborn] at hkeyed
  have hsame : WorkerPoint.setspecific.writing = (c.worker j).point.writing := by
    rw [hunborn]
    rfl
  exact { h with
    mtx := h.mtx_put (.keep (by rw [hunborn]; rfl))
    tmtx := h.tmtx_put (.keep (by rw [hunborn]; rfl))
    ctrl := h.ctrl_same hsame rfl
    clean := h.clean_same hsame
    tcnt := h.tcnt.trans (total_update_of_eq (by simp [Worker.counted, hunborn]; rfl)).symm
    polled := by
      intro hpolled
      have hcounted := h.polled hpolled j
      simp [hunborn, WorkerPoint.counted] at hcounted
    tokens := by
      have htokens := h.tokens
      have hsame : total Worker.carries (c.goto j .setspecific).worker =
          total Worker.carries c.worker := total_update_of_eq rfl
      simp only [Cell.tokens, hsame]
      exact htokens
    keyed := (forall_update_iff c.worker fun _ w ↦
      w.pending = true ∨ w.handler ≠ .idle → w.point.keySet = true).mpr
        ⟨fun hbusy ↦ absurd hbusy hidle, fun i _ ↦ h.keyed i⟩
    ended := (forall_update_iff c.worker fun _ w ↦
      w.point = .returned → c.sigok = true).mpr ⟨by simp, fun i _ ↦ h.ended i⟩
    unfailed := (forall_update_iff c.worker fun _ w ↦ w.point ≠ .failed).mpr
      ⟨by simp, fun i _ ↦ h.unfailed i⟩
    absent := h.absent.trans (iff_of_false (by simp) (by simp))
    missing := by
      refine (forall_update_iff c.worker fun i w ↦ w.point = .unborn ↔ i ∈ js).mpr
        ⟨iff_of_false (by simp) (List.nodup_cons.mp hnodup).1, fun i hne ↦ ?_⟩
      exact (h.missing i).trans (List.mem_cons.trans (or_iff_right hne)) }

/-- `main` puts the token into the semaphore. -/
theorem CellOk.post {c : Cell} (h : CellOk (.creating []) c) :
    CellOk .running { c with semsig := semPost c.semsig } :=
  { h with
    tokens := by
      have htokens := h.tokens
      simp only [Cell.tokens, Stage.tokens, semPost_eq] at htokens ⊢
      omega
    absent := h.absent.trans (iff_of_false (by simp) (by simp))
    missing := fun j ↦ (h.missing j).trans (iff_of_false (List.not_mem_nil) id) }

theorem Inv.build (h : Inv s) {c : Fin k} {new : Cell} {point : MainPoint k}
    (hok : CellOk (point.stage c) new) (hstage : ∀ i, i ≠ c → point.stage i = s.main.stage i)
    (hnodup : point.Nodup) (hsig : ∀ i, ¬ point.joinedSig i) (hjoined : ∀ i j, ¬ point.joined i j)
    (hpoint : point ≠ .failed) : Inv { s.put c new with main := point } where
  cell := (forall_update_iff s.cell fun c cell ↦ CellOk (point.stage c) cell).mpr
    ⟨hok, fun i hne ↦ (hstage i hne).symm ▸ h.cell i⟩
  nodup := hnodup
  joinedSig := fun i hi ↦ absurd hi (hsig i)
  joined := fun i j hij ↦ absurd hij (hjoined i j)
  unfailed := hpoint

/-- `main` goes on, and the cells stay as they are. -/
theorem Inv.mainGoto (h : Inv s) {point : MainPoint k}
    (hstage : ∀ c, point.stage c = s.main.stage c) (hnodup : point.Nodup)
    (hsig : ∀ c, point.joinedSig c → (s.cell c).sigthr = .returned)
    (hjoined : ∀ c j, point.joined c j → ((s.cell c).worker j).point = .returned)
    (hpoint : point ≠ .failed) : Inv { s with main := point } where
  cell := fun c ↦ (hstage c).symm ▸ h.cell c
  nodup := hnodup
  joinedSig := hsig
  joined := hjoined
  unfailed := hpoint

/-- A cell whose workers have returned has a free mutex. -/
theorem CellOk.mtx_eq_none {c : Cell} {stage : Stage} (h : CellOk stage c)
    (hall : ∀ j, (c.worker j).point = .returned) : c.mtx = none := by
  cases hmtx : c.mtx with
  | none => rfl
  | some j =>
    have hholds := (h.mtx j).mp hmtx
    simp [hall j] at hholds

theorem Inv.joinSigthr (h : Inv s) {c : Fin k} {rest : List (Fin k)}
    (hmain : s.main = .fini (c :: rest)) (hreturned : (s.cell c).sigthr = .returned) :
    Inv { s with main := .join c (List.finRange 9) rest } := by
  have hsig := h.joinedSig
  have hjoined := h.joined
  simp only [hmain, MainPoint.joinedSig, MainPoint.joined, List.mem_cons, not_or] at hsig hjoined
  refine h.mainGoto (by simp [hmain]) trivial ?_ ?_ (by simp)
  · intro i hi
    by_cases heq : i = c
    · rw [heq, hreturned]
    · exact hsig i ⟨heq, hi.resolve_left heq⟩
  · rintro i j ⟨hnot, hi⟩
    have hne : i ≠ c := fun heq ↦ hnot heq (List.mem_finRange j)
    exact hjoined i j ⟨hne, hi.resolve_left hne⟩

theorem Inv.joinWorker (h : Inv s) {c : Fin k} {j : Fin 9} {js : List (Fin 9)}
    {rest : List (Fin k)} (hmain : s.main = .join c (j :: js) rest)
    (hreturned : ((s.cell c).worker j).point = .returned) :
    Inv { s with main := .join c js rest } := by
  have hsig := h.joinedSig
  have hjoined := h.joined
  simp only [hmain, MainPoint.joinedSig, MainPoint.joined] at hsig hjoined
  refine h.mainGoto (by simp [hmain]) trivial hsig ?_ (by simp)
  rintro i l ⟨hnot, hi⟩
  by_cases heq : i = c ∧ l = j
  · rw [heq.1, heq.2, hreturned]
  · refine hjoined i l ⟨fun hic hmem ↦ ?_, hi⟩
    obtain hlj | hmem := List.mem_cons.mp hmem
    · exact heq ⟨hic, hlj⟩
    · exact hnot hic hmem

theorem Inv.main (h : Inv s) (hnext : main s = some s') : Inv s' := by
  have hnodup := h.nodup
  have hsig := h.joinedSig
  have hjoined := h.joined
  unfold Stress.main at hnext
  split at hnext
  case h_1 c rest hmain =>
    cases hnext
    rw [hmain] at hnodup
    exact h.build (by simpa using cellOk_launched) (fun i hne ↦ by simp [hmain, hne])
      ⟨hnodup, List.nodup_finRange 9⟩ (fun _ ↦ id) (fun _ _ ↦ id) (by simp)
  case h_2 hmain =>
    cases hnext
    exact h.mainGoto (by simp [hmain]) trivial (fun _ ↦ False.elim) (fun _ _ ↦ False.elim) (by simp)
  case h_3 c j js rest hmain =>
    cases hnext
    have hcell := h.cell c
    rw [hmain] at hnodup hcell
    simp only [MainPoint.stage, if_true] at hcell
    exact h.build (by simpa using hcell.create hnodup.2) (fun i hne ↦ by simp [hmain, hne])
      ⟨hnodup.1, hnodup.2.of_cons⟩ (fun _ ↦ id) (fun _ _ ↦ id) (by simp)
  case h_4 c rest hmain =>
    cases hnext
    rw [hmain] at hnodup
    exact h.mainGoto (by simp [hmain]) hnodup.1 (fun _ ↦ False.elim)
      (fun _ _ ↦ False.elim) (by simp)
  case h_5 c rest hmain =>
    cases hnext
    have hcell := h.cell c
    rw [hmain] at hnodup hcell
    simp only [MainPoint.stage, if_true] at hcell
    obtain ⟨hnot, hrest⟩ := List.nodup_cons.mp hnodup
    exact h.build (by simpa [hnot] using hcell.post) (fun i hne ↦ by simp [hmain, hne]) hrest
      (fun _ ↦ id) (fun _ _ ↦ id) (by simp)
  case h_6 hmain =>
    cases hnext
    split
    · exact h.mainGoto (by simp [hmain]) trivial (fun _ ↦ False.elim) (fun _ _ ↦ False.elim)
        (by simp)
    · exact h.mainGoto (by simp [hmain]) trivial
        (by simp [MainPoint.joinedSig]) (by simp [MainPoint.joined]) (by simp)
  case h_7 c rest hmain =>
    split_ifs at hnext with hreturned
    cases hnext
    exact h.joinSigthr hmain hreturned
  case h_8 hmain =>
    cases hnext
    simp only [hmain, MainPoint.joinedSig, MainPoint.joined, List.not_mem_nil, not_false_eq_true,
      true_imp_iff] at hsig hjoined
    exact h.mainGoto (by simp [hmain]) trivial (fun c _ ↦ hsig c)
      (fun c j _ ↦ hjoined c j) (by simp)
  case h_9 c j js rest hmain =>
    split_ifs at hnext with hreturned
    cases hnext
    exact h.joinWorker hmain hreturned
  case h_10 c rest hmain =>
    cases hnext
    simp only [hmain, MainPoint.joinedSig, MainPoint.joined] at hsig hjoined
    exact h.mainGoto (by simp [hmain]) trivial hsig
      (fun i j hi ↦ hjoined i j ⟨fun _ ↦ List.not_mem_nil, hi⟩) (by simp)
  case h_11 c rest hmain =>
    cases hnext
    simp only [hmain, MainPoint.joinedSig, MainPoint.joined] at hsig hjoined
    rw [if_pos ((h.cell c).mtx_eq_none fun j ↦ hjoined c j (.inl rfl))]
    exact h.mainGoto (by simp [hmain]) trivial (fun i hi ↦ hsig i (.inr hi))
      (fun i j hi ↦ hjoined i j (.inr hi)) (by simp)
  case h_12 | h_13 => simp at hnext

theorem Inv.next (h : Inv s) {move : Move k} (hnext : next s move = some s') : Inv s' := by
  obtain ⟨-, hnext⟩ := Option.ite_none_left_eq_some.mp hnext
  cases move with
  | main => exact h.main hnext
  | cell c move => exact h.cellNext hnext
  | sigusr1 taker => exact h.globalsig (Option.ite_none_right_eq_some.mp hnext).2

theorem inv_of_reachable (h : (program k).Reachable s) : Inv s := by
  refine h.invariant ?_ fun state move state' _ hinv hnext ↦ hinv.next hnext
  rintro state rfl
  exact inv_start

end OpenPosix.Mutexes.Stress

import OpenPosix.Mutexes.StressInvariant

/-!
# The stop of the process

Which runs end with an error, and why the others come to an end. The only call that `SIGUSR1` can
make fail is the `sem_wait` of a `sigthr` that is blocked in it, and no worker finds `ctrl` changed
(`no_exit_iff`). If `main` takes the signal, every thread returns: a measure of what is left to do,
with one part for each thread, can be made smaller from every state with `do_it` cleared
(`Inv.advances`). A cell in which `sigthr` waits has its token with a worker, whose handler can run.
-/

namespace OpenPosix.Mutexes.Stress

open Interleaving

variable {k : ℕ} {s s' : State k} {c c' : Cell} {j : Fin 9} {stage : Stage} {doIt : Bool}

/-! ### Exits with an error -/

/-- A step that interrupts the `sem_wait` of a `sigthr`. -/
def Interrupts (step : State k × Move k) : Prop :=
  ∃ c, step.2 = .sigusr1 (.sigthr c) ∧ (step.1.cell c).interrupts = true

theorem CellOk.exited_iff (h : CellOk stage c) : c.exited ↔ c.sigthr = .unresolved :=
  or_iff_left fun ⟨j, hj⟩ ↦ h.unfailed j hj

theorem Inv.exited_iff (h : Inv s) : s.exited ↔ ∃ c, (s.cell c).sigthr = .unresolved :=
  (or_iff_right h.unfailed).trans (exists_congr fun c ↦ (h.cell c).exited_iff)

theorem CellOk.sigthr_ne_unresolved (h : CellOk stage c) (hnext : Stress.sigthr doIt c = some c') :
    c'.sigthr ≠ .unresolved := by
  unfold Stress.sigthr at hnext
  split at hnext
  case h_1 | h_10 | h_11 => simp at hnext
  case h_2 | h_7 =>
    obtain ⟨_, -, rfl⟩ := Option.map_eq_some_iff.mp hnext
    simp
  case h_4 | h_5 =>
    cases hnext
    split <;> simp
  case h_6 =>
    split at hnext
    all_goals
      cases hnext
      simp
  case h_8 i hpoint =>
    rw [if_pos (h.target_ok hpoint (target i)).2.1] at hnext
    cases hnext
    simp
  all_goals
    cases hnext
    simp

theorem CellOk.next_ne_unresolved (h : CellOk stage c) {move : CellMove}
    (hbefore : c.sigthr ≠ .unresolved) (hnext : cellNext doIt c move = some c') :
    c'.sigthr ≠ .unresolved := by
  by_cases hmove : move = .sigthr
  · subst hmove
    exact h.sigthr_ne_unresolved hnext
  · rw [(keeps_next hmove hnext).1]
    exact hbefore

theorem main_ne_unresolved (hbefore : ∀ c, (s.cell c).sigthr ≠ .unresolved)
    (hnext : main s = some s') (c : Fin k) : (s'.cell c).sigthr ≠ .unresolved := by
  have hput : ∀ {i : Fin k} {new : Cell}, new.sigthr ≠ .unresolved →
      ((s.put i new).cell c).sigthr ≠ .unresolved := by
    intro i new hnew
    exact (Function.forall_update_iff s.cell fun _ cell ↦ cell.sigthr ≠ .unresolved).mpr
      ⟨hnew, fun i _ ↦ hbefore i⟩ c
  unfold Stress.main at hnext
  split at hnext
  case h_1 => exact Option.some.inj hnext ▸ hput (by simp)
  case h_3 | h_5 => exact Option.some.inj hnext ▸ hput (hbefore _)
  case h_7 | h_9 =>
    split_ifs at hnext
    exact Option.some.inj hnext ▸ hbefore c
  case h_12 | h_13 => simp at hnext
  all_goals exact Option.some.inj hnext ▸ hbefore c

/-- A step leaves the process if and only if it interrupts a `sem_wait`. -/
theorem Inv.exited_next_iff (h : Inv s) {move : Move k} (hnext : Stress.next s move = some s') :
    s'.exited ↔ Interrupts (s, move) := by
  rw [(h.next hnext).exited_iff]
  obtain ⟨hexited, hnext⟩ := Option.ite_none_left_eq_some.mp hnext
  rw [h.exited_iff, not_exists] at hexited
  cases move with
  | main =>
    refine iff_of_false ?_ (by simp [Interrupts])
    rintro ⟨c, hc⟩
    exact main_ne_unresolved hexited hnext c hc
  | cell c move =>
    refine iff_of_false ?_ (by simp [Interrupts])
    obtain ⟨new, hnew, rfl⟩ := Option.map_eq_some_iff.mp hnext
    rw [not_exists]
    exact (Function.forall_update_iff s.cell fun _ cell ↦ cell.sigthr ≠ .unresolved).mpr
      ⟨(h.cell c).next_ne_unresolved (hexited c) hnew, fun i _ ↦ hexited i⟩
  | sigusr1 taker =>
    split_ifs at hnext
    cases taker with
    | main =>
      cases hnext
      exact iff_of_false (not_exists.mpr hexited) (by simp [Interrupts])
    | worker c j =>
      obtain rfl := Option.some.inj (Option.ite_none_right_eq_some.mp hnext).2
      exact iff_of_false (not_exists.mpr hexited) (by simp [Interrupts])
    | sigthr c =>
      obtain ⟨-, hnext⟩ := Option.ite_none_right_eq_some.mp hnext
      split at hnext
      next hinterrupts =>
        cases hnext
        exact iff_of_true ⟨c, by simp [State.put]⟩ ⟨c, rfl, hinterrupts⟩
      next hinterrupts =>
        cases hnext
        refine iff_of_false (not_exists.mpr hexited) ?_
        rintro ⟨i, hi, hinterrupts'⟩
        obtain rfl : c = i := by simpa using hi
        exact hinterrupts hinterrupts'

/-- A thread leaves the process with `UNRESOLVED` or `FAILED` if and only if `SIGUSR1` interrupts
the `sem_wait` of a `sigthr`. -/
theorem no_exit_iff {trace : List (State k × Move k)} (h : (program k).Exec trace s) :
    ¬ s.exited ↔ ∀ step ∈ trace, ¬ Interrupts step := by
  induction h with
  | start hinit =>
    obtain rfl := hinit
    rw [inv_start.exited_iff]
    simp [start]
  | @step trace state state' move hrun hnext ih =>
    have hinv := inv_of_reachable ⟨trace, hrun⟩
    have hbefore : ¬ state.exited := by
      intro hexited
      have hnext' : next state move = some state' := hnext
      simp [Stress.next, hexited] at hnext'
    rw [hinv.exited_next_iff hnext]
    rw [List.forall_mem_append, List.forall_mem_singleton, and_iff_right (ih.mp hbefore)]

/-- The nine workers of a cell have been counted, and `sigthr` has sent its first signal and waits
for the handler; then a thread takes `SIGUSR1`. -/
def stoppedRun (c : Fin 1) (taker : Taker 1) : List (Move 1) :=
  List.flatten [.replicate 12 .main,
    (List.finRange 9).flatMap fun j ↦ .replicate 4 (.cell c (.worker j)),
    .replicate 8 (.cell c .sigthr), [.sigusr1 taker]]

instance (step : State k × Move k) : Decidable (Interrupts step) :=
  inferInstanceAs (Decidable (∃ _, _))

theorem no_exit_main :
    ∃ trace s, (program 1).Exec trace s ∧ s.doIt = false ∧ ¬ s.exited := by
  obtain ⟨last, hrun, hdoIt⟩ : ∃ last,
      (program 1).runSchedule (start 1) (stoppedRun 0 .main) = some last ∧ last.doIt = false :=
    System.exists_of_replay (by decide +kernel)
  have hexec := (System.Exec.start (P := program 1) rfl).runSchedule hrun
  exact ⟨_, last, hexec, hdoIt, (no_exit_iff hexec).mpr (by decide +kernel)⟩

theorem sem_wait_interrupted : ∃ trace s, (program 1).Exec trace s ∧ s.exited := by
  obtain ⟨last, hrun, hexited⟩ : ∃ last,
      (program 1).runSchedule (start 1) (stoppedRun 0 (.sigthr 0)) = some last ∧ last.exited :=
    System.exists_of_replay (by decide +kernel)
  exact ⟨_, last, (System.Exec.start rfl).runSchedule hrun, hexited⟩

/-! ### What is left to do -/

def WorkerPoint.weight : WorkerPoint → ℕ
  | .setspecific => 13
  | .lockT => 12
  | .incrT => 11
  | .unlockT => 10
  | .acquire => 9
  | .check => 8
  | .write => 7
  | .recheck => 6
  | .reset => 5
  | .unlock => 4
  | .test => 3
  | .spin => 2
  | .unborn | .returned | .failed => 0

@[simp] def HandlerPoint.weight : HandlerPoint → ℕ
  | .entered => 2
  | .posted => 1
  | .idle => 0

@[simp] def Worker.weight (w : Worker) : ℕ :=
  w.point.weight + 3 * w.pending.toNat + w.handler.weight

/-- A round of the poll that finds nine workers counted is the last one. -/
@[simp] def SigPoint.weight (tcnt : ℕ) : SigPoint → ℕ
  | .lockT => 17
  | .readT => if tcnt < 9 then 19 else 16
  | .unlockT i => if i < 9 then 18 else 15
  | .wait _ => 9
  | .blocked _ => 8
  | .kill _ => 7
  | .test _ => 3
  | .setOk => 2
  | .unborn | .returned | .unresolved => 0

@[simp] def Cell.weight (c : Cell) : ℕ := c.sigthr.weight c.tcnt + total Worker.weight c.worker

/-- The weight of `main` pays for the threads that it creates. -/
@[simp] def MainPoint.weight : MainPoint k → ℕ
  | .init rest => 200 * rest.length + 13 * k + 3
  | .create _ js rest => 200 * rest.length + 14 * js.length + 13 * k + 5
  | .post _ rest => 200 * rest.length + 13 * k + 4
  | .yield => 13 * k + 2
  | .fini rest => 13 * rest.length + 1
  | .join _ js rest => 13 * rest.length + js.length + 3
  | .destroy _ rest => 13 * rest.length + 2
  | .ended | .failed => 0

def State.weight (s : State k) : ℕ := s.main.weight + total Cell.weight s.cell

theorem SigPoint.weight_antitone {first second : ℕ} (hle : first ≤ second) (point : SigPoint) :
    point.weight second ≤ point.weight first := by
  cases point with
  | readT =>
    simp only [SigPoint.weight]
    split_ifs <;> omega
  | _ => exact le_rfl

theorem Cell.weight_lt_of_put {w : Worker} (hworker : c'.worker = Function.update c.worker j w)
    (hsigthr : c'.sigthr = c.sigthr) (htcnt : c.tcnt ≤ c'.tcnt)
    (hlt : w.weight < (c.worker j).weight) : c'.weight < c.weight := by
  have htotal := total_update Worker.weight c.worker j w
  have hsig := c.sigthr.weight_antitone htcnt
  unfold Cell.weight
  rw [hworker, hsigthr]
  omega

/-- Once `do_it` is cleared, some step in the cell leaves less to do. -/
def Cell.Advances (c : Cell) : Prop :=
  ∃ move c', cellNext false c move = some c' ∧ c'.weight < c.weight

/-- A handler that has been entered can end. -/
theorem CellOk.advances_handler (h : CellOk stage c) (hbusy : (c.worker j).handler ≠ .idle) :
    c.Advances := by
  have hkeyed := h.keyed j (.inr hbusy)
  cases hhandler : (c.worker j).handler with
  | idle => exact absurd hhandler hbusy
  | entered =>
    refine ⟨.sighdl j, _,
      by simp only [cellNext, Stress.sighdl, hhandler, hkeyed, if_true]; rfl, ?_⟩
    refine Cell.weight_lt_of_put (j := j) rfl rfl le_rfl ?_
    simp [hhandler]
  | posted =>
    refine ⟨.sighdl j, _, by simp only [cellNext, Stress.sighdl, hhandler]; rfl, ?_⟩
    refine Cell.weight_lt_of_put (j := j) rfl rfl le_rfl ?_
    simp [hhandler]

theorem Worker.weight_lt {w : Worker} {point : WorkerPoint} (h : point.weight < w.point.weight)
    (loc : BitVec 8) : Worker.weight { w with point := point, loc := loc } < w.weight := by
  simp only [Worker.weight]
  omega

/-- The steps of a worker that need nothing from the others. -/
@[simp] def WorkerPoint.goes : WorkerPoint → Bool
  | .unborn | .lockT | .acquire | .spin | .returned | .failed => false
  | _ => true

theorem CellOk.advances_goes (h : CellOk stage c) (hgoes : (c.worker j).point.goes = true) :
    c.Advances := by
  obtain ⟨call, hcall⟩ := exists_workerthr j
  by_cases hidle : (c.worker j).handler = .idle
  swap
  · exact h.advances_handler hidle
  cases hpoint : (c.worker j).point with
  | unborn | lockT | acquire | spin | returned | failed => simp [hpoint] at hgoes
  | write =>
    refine ⟨.control j 0#8, _,
      by simp only [cellNext, if_pos hidle, Stress.control, if_pos hpoint]; rfl, ?_⟩
    refine Cell.weight_lt_of_put (j := j) rfl rfl le_rfl (Worker.weight_lt ?_ _)
    rw [hpoint]
    decide
  | incrT =>
    refine ⟨.worker j, _, by simp only [cellNext, if_pos hidle, hcall, workerthr, hpoint]; rfl, ?_⟩
    refine Cell.weight_lt_of_put (j := j) rfl rfl (Nat.le_succ _) (Worker.weight_lt ?_ _)
    rw [hpoint]
    decide
  | check | recheck =>
    refine ⟨.worker j, _, by simp only [cellNext, if_pos hidle, hcall, workerthr, hpoint]; rfl, ?_⟩
    refine Cell.weight_lt_of_put (j := j) rfl rfl le_rfl (Worker.weight_lt ?_ _)
    rw [hpoint]
    split <;> decide
  | _ =>
    refine ⟨.worker j, _, by simp only [cellNext, if_pos hidle, hcall, workerthr, hpoint]; rfl, ?_⟩
    refine Cell.weight_lt_of_put (j := j) rfl rfl le_rfl (Worker.weight_lt ?_ _)
    rw [hpoint]
    decide

/-- The holder of the mutex of the cell can go on. -/
theorem CellOk.advances_holder (h : CellOk stage c) (hheld : c.mtx ≠ none) : c.Advances := by
  obtain ⟨j, hmtx⟩ := Option.ne_none_iff_exists'.mp hheld
  refine h.advances_goes (j := j) ?_
  have hholds := (h.mtx j).mp hmtx
  cases hpoint : (c.worker j).point <;> simp_all

/-- So can the holder of the mutex of the counter. -/
theorem CellOk.advances_holderT (h : CellOk stage c) (hheld : c.tmtx ≠ none) : c.Advances := by
  obtain ⟨thread, htmtx⟩ := Option.ne_none_iff_exists'.mp hheld
  have hholds := (h.tmtx thread).mp htmtx
  cases thread with
  | worker j =>
    refine h.advances_goes (j := j) ?_
    simp only [HoldsT] at hholds
    cases hpoint : (c.worker j).point <;> simp_all
  | sigthr =>
    simp only [HoldsT] at hholds
    cases hpoint : c.sigthr with
    | readT =>
      refine ⟨.sigthr, _, by simp only [cellNext, Stress.sigthr, hpoint]; rfl, ?_⟩
      simp only [Cell.weight, hpoint, SigPoint.weight]
      split_ifs <;> omega
    | unlockT i =>
      refine ⟨.sigthr, _, by simp only [cellNext, Stress.sigthr, hpoint]; rfl, ?_⟩
      simp only [Cell.weight, hpoint]
      split <;> simp [*]
    | _ => simp [hpoint, SigPoint.holdsT] at hholds

/-- A worker that has not come to the end of its loop can go on, or waits for one that can. -/
theorem CellOk.advances_loop (h : CellOk .running c) (hspin : (c.worker j).point ≠ .spin)
    (hreturned : (c.worker j).point ≠ .returned) : c.Advances := by
  obtain ⟨call, hcall⟩ := exists_workerthr j
  by_cases hidle : (c.worker j).handler = .idle
  swap
  · exact h.advances_handler hidle
  by_cases hgoes : (c.worker j).point.goes = true
  · exact h.advances_goes hgoes
  cases hpoint : (c.worker j).point with
  | unborn => exact absurd ((h.missing j).mp hpoint) id
  | failed => exact absurd hpoint (h.unfailed j)
  | spin => exact absurd hpoint hspin
  | returned => exact absurd hpoint hreturned
  | lockT =>
    by_cases hfree : c.tmtx = none
    swap
    · exact h.advances_holderT hfree
    refine ⟨.worker j, _, by
      simp only [cellNext, if_pos hidle, hcall, workerthr, hpoint, hfree, mutexLock]; rfl, ?_⟩
    refine Cell.weight_lt_of_put (j := j) rfl rfl le_rfl (Worker.weight_lt ?_ _)
    rw [hpoint]
    decide
  | acquire =>
    by_cases hfree : c.mtx = none
    swap
    · exact h.advances_holder hfree
    have hnext : cellNext false c (.worker j) = some { c.goto j .check with mtx := some j } := by
      simp only [cellNext, if_pos hidle, hcall, workerthr, hpoint, hfree, mutexLock]
      cases call <;> rfl
    exact ⟨.worker j, _, hnext, Cell.weight_lt_of_put (j := j) rfl rfl le_rfl
      (Worker.weight_lt (by rw [hpoint]; decide) _)⟩
  | _ => simp [hpoint] at hgoes

/-- As long as a worker has not been counted, some thread can go on. -/
theorem CellOk.advances_uncounted (h : CellOk .running c) (hlt : c.tcnt < 9) : c.Advances := by
  have hex : ∃ j, (c.worker j).point.counted ≠ 1 := by
    by_contra hall
    push Not at hall
    have htotal : total Worker.counted c.worker = Fintype.card (Fin 9) := total_eq_card hall
    rw [← h.tcnt, Fintype.card_fin] at htotal
    omega
  obtain ⟨j, hj⟩ := hex
  refine h.advances_loop (j := j) ?_ ?_
  all_goals
    intro hpoint
    simp [hpoint, WorkerPoint.counted] at hj

/-- A token that a worker carries can go on. -/
theorem CellOk.advances_token (h : CellOk .running c) (hcarries : 0 < (c.worker j).carries)
    (hsigok : c.sigok = false) : c.Advances := by
  by_cases hidle : (c.worker j).handler = .idle
  swap
  · exact h.advances_handler hidle
  have hpending : (c.worker j).pending = true := by
    by_contra hnot
    rw [Bool.not_eq_true] at hnot
    simp [hidle, hnot] at hcarries
  have halive : (c.worker j).point.alive = true := by
    have hkeyed := h.keyed j (.inl hpending)
    have hended := h.ended j
    cases hpoint : (c.worker j).point <;>
      simp_all [WorkerPoint.alive]
  have hnext : cellNext false c (.deliver j) =
      some (c.put j { c.worker j with pending := false, handler := .entered }) :=
    if_pos ⟨hpending, hidle, halive⟩
  refine ⟨.deliver j, _, hnext, Cell.weight_lt_of_put (j := j) rfl rfl le_rfl ?_⟩
  simp [hpending, hidle]

/-- A `sigthr` that has not returned can go on, or waits for a thread that can. -/
theorem CellOk.advances_sigthr (h : CellOk .running c) (hreturned : c.sigthr ≠ .returned)
    (hunresolved : c.sigthr ≠ .unresolved) : c.Advances := by
  have hsigok : c.sigok = false := by
    rw [← Bool.not_eq_true]
    exact fun hsigok ↦ hreturned (h.sigok.mp hsigok)
  cases hpoint : c.sigthr with
  | unborn => exact absurd (h.absent.mp hpoint) (by simp)
  | returned => exact absurd hpoint hreturned
  | unresolved => exact absurd hpoint hunresolved
  | lockT =>
    by_cases hlt : c.tcnt < 9
    · exact h.advances_uncounted hlt
    by_cases hfree : c.tmtx = none
    swap
    · exact h.advances_holderT hfree
    refine ⟨.sigthr, _, by simp only [cellNext, Stress.sigthr, hpoint, hfree, mutexLock]; rfl, ?_⟩
    simp [hpoint, hlt]
  | readT | unlockT i =>
    refine h.advances_holderT fun hfree ↦ h.tmtx.not_holds hfree .sigthr ?_
    simp [HoldsT, hpoint, SigPoint.holdsT]
  | test i | setOk =>
    refine ⟨.sigthr, _, by simp only [cellNext, Stress.sigthr, hpoint]; rfl, ?_⟩
    simp [hpoint]
  | wait i =>
    cases hsem : semWait c.semsig with
    | some rest | none =>
      refine ⟨.sigthr, _, by simp only [cellNext, Stress.sigthr, hpoint, hsem]; rfl, ?_⟩
      simp [hpoint]
  | blocked i =>
    cases hsem : semWait c.semsig with
    | some rest =>
      refine ⟨.sigthr, _, by simp only [cellNext, Stress.sigthr, hpoint, hsem]; rfl, ?_⟩
      simp [hpoint]
    | none =>
      -- The semaphore is at zero: the token is with a worker.
      have hzero : c.semsig = 0 := by
        cases hvalue : c.semsig with
        | zero => rfl
        | succ rest => simp [semWait, hvalue] at hsem
      have htokens := h.tokens
      simp only [Cell.tokens, hzero, hpoint, SigPoint.carries, Stage.tokens] at htokens
      have hpos : 0 < total Worker.carries c.worker := by omega
      obtain ⟨j, hj⟩ := exists_pos_of_total_pos hpos
      exact h.advances_token hj hsigok
  | kill i =>
    have hcarries := h.target_ok hpoint (target i)
    have htotal := total_update Worker.weight c.worker (target i)
      { c.worker (target i) with pending := true }
    refine ⟨.sigthr, _,
      by simp only [cellNext, Stress.sigthr, hpoint, if_pos hcarries.2.1]; rfl, ?_⟩
    simp only [Cell.weight, hpoint, SigPoint.weight, Cell.put]
    simp only [Worker.weight, Bool.toNat_true] at htotal
    omega

/-- A worker can return once `sigthr` has. -/
theorem CellOk.advances_spin (h : CellOk .running c) (hsigthr : c.sigthr = .returned)
    (hreturned : (c.worker j).point ≠ .returned) : c.Advances := by
  obtain ⟨call, hcall⟩ := exists_workerthr j
  by_cases hspin : (c.worker j).point = .spin
  swap
  · exact h.advances_loop hspin hreturned
  by_cases hidle : (c.worker j).handler = .idle
  swap
  · exact h.advances_handler hidle
  refine ⟨.worker j, _, by simp only [cellNext, if_pos hidle, hcall, workerthr, hspin,
    if_pos (h.sigok.mpr hsigthr)]; rfl, ?_⟩
  refine Cell.weight_lt_of_put (j := j) rfl rfl le_rfl (Worker.weight_lt ?_ _)
  rw [hspin]
  decide

/-! ### The process ends -/

/-- Some step other than the handler of `SIGUSR1` leaves less to do. -/
def State.Advances (s : State k) : Prop :=
  ∃ move s', next s move = some s' ∧ move.byMain = true ∧ s'.doIt = s.doIt ∧ s'.weight < s.weight

theorem advances_cell (hexited : ¬ s.exited) (hdoIt : s.doIt = false) {c : Fin k}
    (h : (s.cell c).Advances) : s.Advances := by
  obtain ⟨move, new, hnext, hlt⟩ := h
  refine ⟨.cell c move, s.put c new, ?_, rfl, rfl, ?_⟩
  · simp only [next, if_neg hexited, hdoIt, hnext, Option.map_some]
  · have htotal := total_update Cell.weight s.cell c new
    simp only [State.weight, State.put]
    omega

theorem advances_main (hexited : ¬ s.exited) (hmain : main s = some s')
    (hdoIt : s'.doIt = s.doIt) (hlt : s'.weight < s.weight) : s.Advances :=
  ⟨.main, s', by simp only [next, if_neg hexited, hmain], rfl, hdoIt, hlt⟩

/-- `main` goes on without the cells. -/
theorem advances_mainGoto (hexited : ¬ s.exited) {point : MainPoint k}
    (hmain : main s = some { s with main := point }) (hlt : point.weight < s.main.weight) :
    s.Advances :=
  advances_main hexited hmain rfl (Nat.add_lt_add_right hlt _)

theorem advances_build (hexited : ¬ s.exited) {point : MainPoint k} {c : Fin k} {new : Cell}
    (hmain : main s = some { s.put c new with main := point })
    (hlt : point.weight + new.weight < s.main.weight + (s.cell c).weight) : s.Advances := by
  refine advances_main hexited hmain rfl ?_
  have htotal := total_update Cell.weight s.cell c new
  simp only [State.weight, State.put]
  omega

theorem Cell.weight_launched : Cell.weight { Cell.blank with sigthr := .lockT } = 17 := by
  decide

theorem Inv.advances (h : Inv s) (hexited : ¬ s.exited) (hdoIt : s.doIt = false)
    (hended : s.main ≠ .ended) : s.Advances := by
  have hunresolved : ∀ c, (s.cell c).sigthr ≠ .unresolved := by
    rwa [h.exited_iff, not_exists] at hexited
  have hjoinedSig := h.joinedSig
  cases hmain : s.main with
  | ended => exact absurd hmain hended
  | failed => exact absurd hmain h.unfailed
  | init rest =>
    cases rest with
    | nil =>
      refine advances_mainGoto hexited (by simp only [Stress.main, hmain]; rfl) ?_
      simp [hmain]
    | cons c rest =>
      refine advances_build hexited (by simp only [Stress.main, hmain]; rfl) ?_
      rw [Cell.weight_launched]
      simp only [hmain, MainPoint.weight, List.length_cons, List.length_finRange]
      omega
  | create c js rest =>
    cases js with
    | nil =>
      refine advances_mainGoto hexited (by simp only [Stress.main, hmain]; rfl) ?_
      simp [hmain]
    | cons j js =>
      refine advances_build hexited (by simp only [Stress.main, hmain]; rfl) ?_
      have htotal := total_update Worker.weight (s.cell c).worker j
        { (s.cell c).worker j with point := .setspecific }
      simp only [hmain, MainPoint.weight, List.length_cons, Cell.weight, Cell.goto, Cell.put]
      simp only [Worker.weight, WorkerPoint.weight] at htotal
      omega
  | post c rest =>
    refine advances_build hexited (by simp only [Stress.main, hmain]; rfl) ?_
    simp only [hmain, MainPoint.weight, Cell.weight]
    omega
  | yield =>
    refine advances_mainGoto hexited (by simp only [Stress.main, hmain, hdoIt]; rfl) ?_
    simp [hmain]
  | fini rest =>
    cases rest with
    | nil =>
      refine advances_mainGoto hexited (by simp only [Stress.main, hmain]; rfl) ?_
      simp [hmain]
    | cons c rest =>
      have hcell := h.cell c
      rw [hmain] at hcell
      by_cases hreturned : (s.cell c).sigthr = .returned
      swap
      · exact advances_cell hexited hdoIt (hcell.advances_sigthr hreturned (hunresolved c))
      refine advances_mainGoto hexited (by simp only [Stress.main, hmain, if_pos hreturned]; rfl) ?_
      simp only [hmain, MainPoint.weight, List.length_cons, List.length_finRange]
      omega
  | join c js rest =>
    cases js with
    | nil =>
      refine advances_mainGoto hexited (by simp only [Stress.main, hmain]; rfl) ?_
      simp [hmain]
    | cons j js =>
      have hcell := h.cell c
      rw [hmain] at hcell hjoinedSig
      by_cases hreturned : ((s.cell c).worker j).point = .returned
      swap
      · exact advances_cell hexited hdoIt (hcell.advances_spin (hjoinedSig c (.inl rfl)) hreturned)
      refine advances_mainGoto hexited (by simp only [Stress.main, hmain, if_pos hreturned]; rfl) ?_
      simp only [hmain, MainPoint.weight, List.length_cons]
      omega
  | destroy c rest =>
    have hall : ∀ j, ((s.cell c).worker j).point = .returned := by
      intro j
      have hjoined := h.joined c j
      rw [hmain] at hjoined
      exact hjoined (.inl rfl)
    refine advances_mainGoto hexited
      (by simp only [Stress.main, hmain, if_pos ((h.cell c).mtx_eq_none hall)]; rfl) ?_
    simp [hmain]

/-- The process in which `main` takes `SIGUSR1`. -/
abbrev stoppedByMain (k : ℕ) : System (State k) (Move k) := (program k).restrict Move.byMain

theorem not_exited_next (h : Inv s) {move : Move k} (hmove : move.byMain = true)
    (hnext : next s move = some s') : ¬ s'.exited := by
  rw [h.exited_next_iff hnext]
  rintro ⟨c, rfl, -⟩
  simp [Move.byMain] at hmove

theorem inv_of_stoppedByMain (h : (stoppedByMain k).Reachable s) : Inv s ∧ ¬ s.exited := by
  have hinit : ∀ state, (stoppedByMain k).Initial state → Inv state ∧ ¬ state.exited := by
    rintro state rfl
    refine ⟨inv_start, ?_⟩
    rw [inv_start.exited_iff]
    simp [start]
  refine h.invariant hinit ?_
  rintro state move state' - ⟨hinv, -⟩ hnext
  obtain ⟨hmove, hnext⟩ := System.restrict_next_eq_some_iff.mp hnext
  exact ⟨hinv.next hnext, not_exited_next hinv hmove hnext⟩

theorem Inv.exists_ended (h : Inv s) (hexited : ¬ s.exited) (hdoIt : s.doIt = false) :
    ∃ s', (stoppedByMain k).Leads s s' ∧ Inv s' ∧ s'.main = .ended := by
  have hstep : ∀ state : State k, (Inv state ∧ ¬ state.exited ∧ state.doIt = false) →
      ¬ state.main = .ended → ∃ move state', (stoppedByMain k).next state move = some state' ∧
        (Inv state' ∧ ¬ state'.exited ∧ state'.doIt = false) ∧ state'.weight < state.weight := by
    rintro state ⟨hinv, hexited, hdoIt⟩ hended
    obtain ⟨move, state', hnext, hmove, hsame, hlt⟩ := hinv.advances hexited hdoIt hended
    exact ⟨move, state', System.restrict_next_eq_some_iff.mpr ⟨hmove, hnext⟩,
      ⟨hinv.next hnext, not_exited_next hinv hmove hnext, hsame.trans hdoIt⟩, hlt⟩
  obtain ⟨s', hleads, ⟨hinv, -⟩, hended⟩ :=
    System.exists_leads_of_measure State.weight hstep ⟨h, hexited, hdoIt⟩
  exact ⟨s', hleads, hinv, hended⟩

/-- The cells when `main` takes `SIGUSR1`. From the post of `cell_init` on, a cell has one token: in
the semaphore, as a pending signal, in a handler or with `sigthr`. `pthread_kill` finds a worker
that has set its key and has not returned. Once `do_it` is cleared, all threads can return. -/
theorem token_spec (h : (stoppedByMain k).Reachable s) :
    (∀ c, s.main.stage c = .running → (s.cell c).sigthr.inLoop = true →
      (s.cell c).semsig + total Worker.carries (s.cell c).worker + (s.cell c).sigthr.carries = 1) ∧
    (∀ c i, (s.cell c).sigthr = .kill i →
      ((s.cell c).worker (target i)).point.keySet = true ∧
        ((s.cell c).worker (target i)).point ≠ .returned) ∧
    (s.doIt = false → ∃ s', (stoppedByMain k).Leads s s' ∧
      ∀ c, (s'.cell c).sigthr = .returned ∧ ∀ j, ((s'.cell c).worker j).point = .returned) := by
  obtain ⟨hinv, hexited⟩ := inv_of_stoppedByMain h
  refine ⟨fun c hstage _ ↦ ?_, fun c i hkill ↦ ?_, fun hdoIt ↦ ?_⟩
  · have htokens := (hinv.cell c).tokens
    rw [hstage] at htokens
    exact htokens
  · obtain ⟨hkeyed, halive, -⟩ := (hinv.cell c).target_ok hkill (target i)
    refine ⟨hkeyed, fun hreturned ↦ ?_⟩
    simp [hreturned, WorkerPoint.alive] at halive
  · obtain ⟨s', hleads, hinv', hended⟩ := hinv.exists_ended hexited hdoIt
    refine ⟨s', hleads, fun c ↦ ⟨hinv'.joinedSig c ?_, fun j ↦ hinv'.joined c j ?_⟩⟩
    all_goals
      rw [hended]
      trivial

theorem token_spec_pending : ∃ s : State 1, (stoppedByMain 1).Reachable s ∧ s.doIt = false ∧
    (∃ j, ((s.cell 0).worker j).pending = true) ∧ (s.cell 0).tokens = 1 ∧
      ∃ s', (stoppedByMain 1).Leads s s' ∧ ∀ j, ((s'.cell 0).worker j).point = .returned := by
  obtain ⟨last, hreach, hdoIt, hstage, hloop, hpending⟩ : ∃ last, (stoppedByMain 1).Reachable last ∧
      last.doIt = false ∧ last.main = .init [] ∧ (last.cell 0).sigthr.inLoop = true ∧
        ∃ j, ((last.cell 0).worker j).pending = true :=
    System.exists_reachable (stoppedRun 0 .main) rfl (by decide +kernel)
  obtain ⟨htokens, -, hends⟩ := token_spec hreach
  obtain ⟨s', hleads, hall⟩ := hends hdoIt
  exact ⟨last, hreach, hdoIt, hpending, htokens 0 (by rw [hstage]; rfl) hloop, s', hleads,
    (hall 0).2⟩

end OpenPosix.Mutexes.Stress

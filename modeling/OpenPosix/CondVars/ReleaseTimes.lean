import Mathlib.Algebra.Ring.Int.Defs
import OpenPosix.Clock.Timespec

/-!
# The times that `pthread_cond_timedwait/s-c.c` measures

`do_measure` of `stress/threads/pthread_cond_timedwait/s-c.c` waits until a deadline has passed,
reads the clock, and takes the difference; a clock before the deadline is a failure.
`do_threads_test` adds the differences of each scenario up in `ts_cumul`, stores the sum in
microseconds, and returns the sum of the last scenario in nanoseconds. Its other calls, which start
and release the threads, are modelled in `ReleaseModel`.

The numbers are not bounded. The program ends with the first failure; `.error i` says that it was
found for wait number `i`, counted from 0.
-/

namespace OpenPosix.CondVars.ReleaseTimes

open Clock

/-- The deadline of a wait, and the clock after it. -/
structure Wait where
  tsCnd : Timespec
  tsClk : Timespec
  deriving DecidableEq, Repr

/-- The end of `do_measure`, from the return of the wait on. -/
def doMeasure (wait : Wait) : Option Timespec :=
  let ts : Timespec :=
    ⟨wait.tsClk.tvSec - wait.tsCnd.tvSec, wait.tsClk.tvNsec - wait.tsCnd.tvNsec⟩
  let ts := if ts.tvNsec < 0 then ⟨ts.tvSec - 1, ts.tvNsec + 1000000000⟩ else ts
  if ts.tvSec < 0 then none else some ts

/-- The sum of the differences with a new one. -/
def accumulate (tsCumul ts : Timespec) : Timespec :=
  let tsCumul : Timespec := ⟨tsCumul.tvSec + ts.tvSec, tsCumul.tvNsec + ts.tvNsec⟩
  if 1000000000 ≤ tsCumul.tvNsec then ⟨tsCumul.tvSec + 1, tsCumul.tvNsec - 1000000000⟩
  else tsCumul

/-- The waits of a scenario, with the sum of the differences so far. -/
def scenario : Timespec → List Wait → Except ℕ Timespec
  | tsCumul, [] => .ok tsCumul
  | tsCumul, wait :: waits =>
    match doMeasure wait with
    | none => .error 0
    | some ts => (scenario (accumulate tsCumul ts) waits).mapError (· + 1)

/-- `do_threads_test`: `measure->_data`, and the value that is returned, which is `dur` if no
scenario is left. -/
def doThreadsTest : ℤ → List (List Wait) → Except ℕ (List ℤ × ℤ)
  | dur, [] => .ok ([], dur)
  | _, waits :: scenarii =>
    match scenario ⟨0, 0⟩ waits with
    | .error i => .error i
    | .ok tsCumul =>
      match doThreadsTest (tsCumul.tvSec * 1000000000 + tsCumul.tvNsec) scenarii with
      | .error i => .error (i + waits.length)
      | .ok (data, dur) =>
        .ok ((tsCumul.tvSec * 1000000 + tsCumul.tvNsec.tdiv 1000) :: data, dur)

/-! ### One wait -/

structure Wait.Normalized (wait : Wait) : Prop where
  tsCnd : wait.tsCnd.Normalized
  tsClk : wait.tsClk.Normalized

def Wait.early (wait : Wait) : Bool := wait.tsClk.toNs < wait.tsCnd.toNs

/-- By how much the wait was too long. -/
def Wait.delay (wait : Wait) : ℤ := wait.tsClk.toNs - wait.tsCnd.toNs

theorem doMeasure_eq {wait : Wait} (h : wait.Normalized) :
    doMeasure wait = if wait.early then none else some (ofNs wait.delay) := by
  have hsec := ediv_toNs_sub h.tsCnd h.tsClk
  have hnsec := emod_toNs_sub h.tsCnd h.tsClk
  have hearly : wait.early = true ↔ wait.delay / 1000000000 < 0 := by
    simp only [Wait.early, Wait.delay, decide_eq_true_eq]
    omega
  rw [if_congr hearly rfl rfl]
  simp only [doMeasure, ofNs, Wait.delay, hsec, hnsec]
  by_cases hborrow : wait.tsClk.tvNsec - wait.tsCnd.tvNsec < 0 <;>
    simp only [hborrow, if_true, if_false]

theorem accumulate_ofNs (sum delay : ℤ) :
    accumulate (ofNs sum) (ofNs delay) = ofNs (sum + delay) := by
  simp only [accumulate]
  split_ifs with hcarry
  all_goals
    simp only [ofNs] at hcarry
    simp only [ofNs, Timespec.mk.injEq]
    omega

/-! ### The sums -/

/-- By how much the waits were too long together. -/
def total (waits : List Wait) : ℤ := (waits.map Wait.delay).sum

theorem scenario_eq (waits : List Wait) : ∀ (sum : ℤ), (∀ wait ∈ waits, wait.Normalized) →
    scenario (ofNs sum) waits = match waits.findIdx? Wait.early with
      | some i => .error i
      | none => .ok (ofNs (sum + total waits)) := by
  induction waits with
  | nil =>
    intro sum _
    simp [scenario, total]
  | cons wait waits ih =>
    intro sum h
    obtain ⟨hwait, hwaits⟩ := List.forall_mem_cons.mp h
    rw [scenario, doMeasure_eq hwait, List.findIdx?_cons]
    cases wait.early with
    | true => rfl
    | false =>
      simp only [Bool.false_eq_true, if_false, accumulate_ofNs, ih _ hwaits]
      cases waits.findIdx? Wait.early with
      | some i => rfl
      | none => simp [Except.mapError, total, Int.add_assoc]

theorem micros_ofNs (x : ℤ) : (ofNs x).tvSec * 1000000 + (ofNs x).tvNsec.tdiv 1000 = x / 1000 := by
  rw [Int.tdiv_eq_ediv_of_nonneg (normalized_ofNs x).nonneg]
  simp only [ofNs]
  omega

theorem doThreadsTest_eq (scenarii : List (List Wait)) : ∀ {dur : ℤ},
    (∀ waits ∈ scenarii, ∀ wait ∈ waits, wait.Normalized) →
    doThreadsTest dur scenarii = match scenarii.flatten.findIdx? Wait.early with
      | some i => .error i
      | none => .ok (scenarii.map (total · / 1000), (scenarii.getLast?.map total).getD dur) := by
  induction scenarii with
  | nil => intros; rfl
  | cons waits scenarii ih =>
    intro dur h
    obtain ⟨hwaits, hscenarii⟩ := List.forall_mem_cons.mp h
    have hscenario := scenario_eq waits 0 hwaits
    rw [show ofNs 0 = ⟨0, 0⟩ from rfl, Int.zero_add] at hscenario
    rw [doThreadsTest, hscenario, List.flatten_cons, List.findIdx?_append]
    cases waits.findIdx? Wait.early with
    | some i => rfl
    | none =>
      simp only [ih hscenarii, micros_ofNs]
      cases scenarii.flatten.findIdx? Wait.early with
      | some i => rfl
      | none =>
        have htotal := toNs_ofNs (total waits)
        unfold Timespec.toNs at htotal
        rw [htotal, List.getLast?_cons, Option.map_some, Option.getD_some, Option.getD_map]
        rfl

/-- `FAILED` is called for the first wait that returned before its deadline. Otherwise every
difference is exact and normalized, and so is the sum of a scenario after any of its waits; the list
gets the sums in microseconds, rounded down, and the sum of the last scenario is returned. -/
theorem times_exact {scenarii : List (List Wait)} (hne : scenarii ≠ []) (dur : ℤ)
    (h : ∀ waits ∈ scenarii, ∀ wait ∈ waits, wait.Normalized) :
    (∀ waits ∈ scenarii, ∀ wait ∈ waits, ∀ ts, doMeasure wait = some ts →
      ts.Normalized ∧ ts.toNs = wait.tsClk.toNs - wait.tsCnd.toNs) ∧
    (∀ waits ∈ scenarii, ∀ done, done <+: waits → ∀ tsCumul, scenario ⟨0, 0⟩ done = .ok tsCumul →
      tsCumul.Normalized ∧ tsCumul.toNs = total done) ∧
    match doThreadsTest dur scenarii with
    | .error i => scenarii.flatten.findIdx? Wait.early = some i
    | .ok (data, dur) => (∀ wait ∈ scenarii.flatten, wait.early = false) ∧
        data = scenarii.map (total · / 1000) ∧ dur = total (scenarii.getLast hne) := by
  refine ⟨fun waits hwaits wait hwait ts hts ↦ ?_, fun waits hwaits done hdone tsCumul hok ↦ ?_, ?_⟩
  · rw [doMeasure_eq (h waits hwaits wait hwait)] at hts
    split_ifs at hts
    cases hts
    exact ⟨normalized_ofNs _, toNs_ofNs _⟩
  · have hscenario := scenario_eq done 0 fun wait hwait ↦
      h waits hwaits wait (hdone.subset hwait)
    rw [show ofNs 0 = ⟨0, 0⟩ from rfl, Int.zero_add, hok] at hscenario
    split at hscenario
    · cases hscenario
    · cases hscenario
      exact ⟨normalized_ofNs _, toNs_ofNs _⟩
  · rw [doThreadsTest_eq scenarii h, List.getLast?_eq_some_getLast hne]
    cases hfind : scenarii.flatten.findIdx? Wait.early with
    | some i => rfl
    | none => exact ⟨by simpa using List.findIdx?_eq_none_iff.mp hfind, rfl, rfl⟩

/-- One scenario with two waits, half a second and three quarters of a second too long. -/
def carries : List (List Wait) :=
  [[⟨⟨1, 700000000⟩, ⟨2, 200000000⟩⟩, ⟨⟨3, 0⟩, ⟨3, 750000000⟩⟩]]

theorem times_exact_carries : doThreadsTest 0 carries = .ok ([1250000], 1250000000) ∧
    1250000000 = total (carries.getLast (by simp [carries])) := by
  have hnormalized : ∀ waits ∈ carries, ∀ wait ∈ waits, wait.Normalized := by
    simp only [carries, forall_eq, List.mem_cons, List.not_mem_nil, or_false]
    rintro wait (rfl | rfl) <;> exact ⟨⟨by decide, by decide⟩, ⟨by decide, by decide⟩⟩
  exact ⟨rfl, (times_exact (by simp [carries]) 0 hnormalized).2.2.2.2⟩

end OpenPosix.CondVars.ReleaseTimes

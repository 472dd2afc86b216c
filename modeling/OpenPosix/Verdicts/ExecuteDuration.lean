import Mathlib.Data.Int.Init
import Mathlib.Tactic.Common

/-!
# The duration that `execute.sh` reports

`execute.sh` reads the time of day before the first test and after the last one, and reports the
difference in hours, minutes and seconds. Two functions compute it: `end_func_noday_change`
subtracts the times, and `end_func` adds what is left of the first day. The script takes the second
one when the variable `COUNT` is 2, that is if it was started in the afternoon (`date +%P` is `pm`)
and ended in a morning.

Two things are wrong with that. A number of minutes or seconds is reduced modulo 60 only if it is
greater than 60, so 60 itself stays, and is counted twice. And a change of day is noticed from an
afternoon to a morning only; otherwise the difference is negative.

`duration_correct_iff` says that nothing else is wrong. What `expr + 1` prints when `COUNT` is not
set depends on `expr` and does not matter.
-/

namespace OpenPosix.Verdicts.ExecuteDuration

/-- `date +%H`, `date +%M` and `date +%S`, taken at one time. -/
structure Date where
  hour : ℤ
  min : ℤ
  sec : ℤ
  deriving DecidableEq, Repr

/-- The date at a time of day, in seconds. -/
def Date.ofSeconds (time : ℤ) : Date := ⟨time / 3600, time / 60 % 60, time % 60⟩

/-- `date +%P` prints `pm`. -/
def Date.pm (date : Date) : Bool := 12 ≤ date.hour

/-- The variables `TOTAL_HR`, `TOTAL_MIN` and `TOTAL_SEC`. -/
structure Duration where
  totalHr : ℤ
  totalMin : ℤ
  totalSec : ℤ
  deriving DecidableEq, Repr

/-- `start_func`: the variable `TOTAL_START_SECS`. -/
def startFunc (date : Date) : ℤ :=
  let totalStartHour := if date.hour = 0 then 0 else date.hour * 3600
  let totalStartMin := if date.min = 0 then 0 else date.min * 60
  totalStartHour + totalStartMin + date.sec

/-- The reduction modulo 60. -/
def reduce (x : ℤ) : ℤ := if x > 60 then x.tmod 60 else x

/-- The last lines of both functions. Division by `expr` rounds towards zero. -/
def split (totalTime : ℤ) : Duration where
  totalHr := reduce (totalTime.tdiv 3600)
  totalMin := reduce (totalTime.tdiv 60)
  totalSec := reduce totalTime

def endFuncNodayChange (totalStartSecs : ℤ) (date : Date) : Duration :=
  let totalEndSecs := date.hour * 3600 + date.min * 60 + date.sec
  split (totalEndSecs - totalStartSecs)

def endFunc (totalStartSecs : ℤ) (date : Date) : Duration :=
  let totalEndHour := if date.hour = 0 then 0 else date.hour * 3600
  let totalEndMin := if date.min = 0 then 0 else date.min * 60
  let totalEndSecs := totalEndHour + totalEndMin + date.sec
  split (totalEndSecs + (86400 - totalStartSecs))

/-- What `expr + 1` does: in some implementations a leading plus quotes the operand, and 1 is
printed; in the others it is an error, and nothing is. -/
inductive Expr
  | quotes
  | refuses
  deriving DecidableEq, Repr

/-- The variable `COUNT`, if it has a value, after the assignment of what expr prints for
`$COUNT + 1`. -/
def Expr.plusOne : Expr → Option ℤ → Option ℤ
  | _, some count => some (count + 1)
  | .quotes, none => some 1
  | .refuses, none => none

/-- The duration that is reported, from the dates before the first test and after the last one. The
test of `COUNT` against 2 is an error, and so false, if it has no value. -/
def report (expr : Expr) (start finish : Date) : Duration :=
  let totalStartSecs := startFunc start
  let count := if start.pm then some 1 else none
  let count := if finish.pm then count else expr.plusOne count
  if count = some 2 then endFunc totalStartSecs finish
  else endFuncNodayChange totalStartSecs finish

/-- The duration is written as it should be, and is the time that has passed. -/
structure Duration.Shows (d : Duration) (elapsed : ℤ) : Prop where
  min_nonneg : 0 ≤ d.totalMin
  min_lt : d.totalMin < 60
  sec_nonneg : 0 ≤ d.totalSec
  sec_lt : d.totalSec < 60
  total : d.totalHr * 3600 + d.totalMin * 60 + d.totalSec = elapsed

/-- The report of a run that starts at a time of day and takes some time. -/
def runFrom (expr : Expr) (start elapsed : ℤ) : Duration :=
  report expr (.ofSeconds start) (.ofSeconds ((start + elapsed) % 86400))

/-! ### The parts of the computation -/

variable {expr : Expr} {start elapsed time : ℤ}

theorem startFunc_ofSeconds (time : ℤ) : startFunc (.ofSeconds time) = time := by
  simp only [startFunc, Date.ofSeconds]
  split_ifs <;> omega

theorem endFuncNodayChange_ofSeconds (totalStartSecs time : ℤ) :
    endFuncNodayChange totalStartSecs (.ofSeconds time) = split (time - totalStartSecs) := by
  have htime : time / 3600 * 3600 + time / 60 % 60 * 60 + time % 60 = time := by omega
  simp only [endFuncNodayChange, Date.ofSeconds, htime]

theorem endFunc_ofSeconds (totalStartSecs time : ℤ) :
    endFunc totalStartSecs (.ofSeconds time) = split (time + (86400 - totalStartSecs)) := by
  have htime := startFunc_ofSeconds time
  simp only [startFunc, Date.ofSeconds] at htime
  simp only [endFunc, Date.ofSeconds, htime]

theorem pm_ofSeconds (time : ℤ) : (Date.ofSeconds time).pm = true ↔ 43200 ≤ time := by
  unfold Date.pm Date.ofSeconds
  rw [decide_eq_true_iff]
  dsimp only
  omega

/-- `COUNT` becomes 2 from an afternoon to a morning, whatever `expr` does. -/
theorem count_eq_two_iff (expr : Expr) (startPm finishPm : Bool) :
    (if finishPm then (if startPm then some 1 else none)
      else expr.plusOne (if startPm then some 1 else none)) = some (2 : ℤ) ↔
      startPm = true ∧ finishPm = false := by
  cases expr <;> cases startPm <;> cases finishPm <;> decide

/-- The script takes the change of day into account. -/
def Noticed (start elapsed : ℤ) : Prop :=
  43200 ≤ start ∧ (start + elapsed) % 86400 < 43200

instance (start elapsed : ℤ) : Decidable (Noticed start elapsed) :=
  inferInstanceAs (Decidable (_ ∧ _))

/-- The number of seconds that is split into hours, minutes and seconds. -/
theorem runFrom_eq (expr : Expr) (start elapsed : ℤ) : runFrom expr start elapsed =
      split ((start + elapsed) % 86400 - start + if Noticed start elapsed then 86400 else 0) := by
  have hpm : ((Date.ofSeconds start).pm = true ∧
      (Date.ofSeconds ((start + elapsed) % 86400)).pm = false) ↔ Noticed start elapsed := by
    rw [pm_ofSeconds, ← Bool.not_eq_true, pm_ofSeconds, Int.not_le]
    rfl
  simp only [runFrom, report, count_eq_two_iff, hpm, startFunc_ofSeconds,
    endFuncNodayChange_ofSeconds, endFunc_ofSeconds]
  split
  · congr 1
    omega
  · congr 1
    omega

/-! ### Hours, minutes and seconds -/

theorem reduce_of_nonneg (h : 0 ≤ time) : reduce time = if time > 60 then time % 60 else time := by
  rw [reduce, Int.tmod_eq_emod_of_nonneg h]

/-- Which numbers of seconds come out right. -/
theorem split_shows_iff (hnonneg : 0 ≤ time) (hlt : time < 86400) :
    (split time).Shows time ↔ time ≠ 60 ∧ ¬ (3600 ≤ time ∧ time < 3660) := by
  have hhr : (split time).totalHr = time / 3600 := by
    change reduce (time.tdiv 3600) = _
    rw [Int.tdiv_eq_ediv_of_nonneg hnonneg, reduce, if_neg (by omega)]
  have hmin : (split time).totalMin = if time / 60 > 60 then time / 60 % 60 else time / 60 := by
    change reduce (time.tdiv 60) = _
    rw [Int.tdiv_eq_ediv_of_nonneg hnonneg]
    exact reduce_of_nonneg (by omega)
  have hsec : (split time).totalSec = if time > 60 then time % 60 else time :=
    reduce_of_nonneg hnonneg
  constructor
  · rintro ⟨-, hminLt, -, hsecLt, -⟩
    rw [hmin] at hminLt
    rw [hsec] at hsecLt
    split at hminLt <;> split at hsecLt <;> omega
  · rintro ⟨hminute, hhour⟩
    refine ⟨?_, ?_, ?_, ?_, ?_⟩
    all_goals omega

theorem not_split_shows_of_neg (hneg : time < 0) : ¬ (split time).Shows elapsed := by
  intro h
  have hsec : 0 ≤ reduce time := h.sec_nonneg
  rw [reduce, if_neg (by omega)] at hsec
  omega

/-! ### The report -/

/-- Assumes: a time of day, and less than a day. The report is right exactly when no 60 is left
over, and the day does not change or changes from an afternoon to a morning. -/
theorem duration_correct_iff (expr : Expr) (hstart : 0 ≤ start ∧ start < 86400)
    (helapsed : 0 ≤ elapsed ∧ elapsed < 86400) :
    (runFrom expr start elapsed).Shows elapsed ↔
      elapsed ≠ 60 ∧ ¬ (3600 ≤ elapsed ∧ elapsed < 3660) ∧
        (start + elapsed < 86400 ∨ Noticed start elapsed) := by
  rw [runFrom_eq]
  by_cases hday : start + elapsed < 86400
  · -- without a change of day an afternoon does not end in a morning
    have hcount : ¬ Noticed start elapsed := by
      unfold Noticed
      omega
    have htime : (start + elapsed) % 86400 - start + 0 = elapsed := by omega
    rw [if_neg hcount, htime, split_shows_iff helapsed.1 helapsed.2]
    simp [hday]
  · by_cases hcount : Noticed start elapsed
    · have htime : (start + elapsed) % 86400 - start + 86400 = elapsed := by omega
      rw [if_pos hcount, htime, split_shows_iff helapsed.1 helapsed.2]
      simp [hcount]
    · rw [if_neg hcount]
      refine iff_of_false (not_split_shows_of_neg (by omega)) ?_
      rintro ⟨-, -, hsame | hnoticed⟩
      · exact hday hsame
      · exact hcount hnoticed

/-- From eleven in the evening to one in the morning. -/
theorem duration_overMidnight : (runFrom .quotes 82800 7200).Shows 7200 :=
  (duration_correct_iff .quotes ⟨by decide, by decide⟩ ⟨by decide, by decide⟩).mpr (by decide)

/-- One minute is reported as one minute and sixty seconds, one hour as one hour and sixty minutes,
and a run from one morning to the next one ends before it starts. -/
theorem duration_wrong :
    runFrom .quotes 0 60 = ⟨0, 1, 60⟩ ∧ runFrom .quotes 0 3600 = ⟨1, 60, 0⟩ ∧
      runFrom .refuses 36000 82800 = ⟨-1, -60, -3600⟩ ∧
      ¬ (runFrom .quotes 0 60).Shows 60 ∧ ¬ (runFrom .quotes 0 3600).Shows 3600 ∧
      ¬ (runFrom .refuses 36000 82800).Shows 82800 := by
  refine ⟨by decide, by decide, by decide, ?_, ?_, ?_⟩
  · exact fun h ↦ absurd h.sec_lt (by decide)
  · exact fun h ↦ absurd h.min_lt (by decide)
  · exact fun h ↦ absurd h.sec_nonneg (by decide)

end OpenPosix.Verdicts.ExecuteDuration

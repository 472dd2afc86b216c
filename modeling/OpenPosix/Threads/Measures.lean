import Mathlib.Data.List.FinRange
import Mathlib.Data.Rat.Defs
import OpenPosix.Clock.Timespec
import OpenPosix.Threads.Scenarii
import OpenPosix.Verdicts.ChildVerdicts

/-!
# The measures of the scalability tests

`stress/threads/pthread_create/s-c1.c` and `stress/threads/fork/s-c1.c` measure how long the
creation of a thread or of a process takes, as the number of those that exist grows. Every
`RESOLUTION`-th measure is put in a list. `parse_measure` compares for each series of the list the
error of a constant model with the errors of a linear one, a power and an exponential, and returns
the number of series for which the constant is not the best. `pthread_create/s-c1.c` has one series
for each scenario, `fork/s-c1.c` has one.

The numbers are `double` and `long double`. No law of their arithmetic is used: `Format` is the
operations of one format, `Formats` the conversions between the two, and `Libm` the functions of the
mathematical library. Products of two values of type `long` are exact.

`fork/s-c1.c` ends with `FAILED` if the result of `parse_measure` is not zero.
`pthread_create/s-c1.c` does not look at it: `createVerdict_iff` says that its verdict is right
exactly for the runs on which no series grows.

The output is left out. The series of `parse_measure` are independent of each other, and the loops
over them are written around the loops over the list.
-/

namespace OpenPosix.Threads.Measures

open Clock Verdicts

/-! ### Floating point -/

/-- The operations of a floating point format. -/
class Format (F : Type) extends Add F, Sub F, Mul F, Div F where
  ofInt : ℤ → F

/-- What connects `double` with `long double` and with `long`, and the comparison and the constants
with one decimal digit of `double`. -/
class Formats (Double LongDouble : Type) [Format Double] [Format LongDouble] where
  extend : Double → LongDouble
  round : LongDouble → Double
  toLong : Double → ℤ
  lt : Double → Double → Bool
  tenths : ℕ → Double

/-- The functions of the mathematical library. -/
structure Libm (Double LongDouble : Type) where
  log : Double → Double
  logl : LongDouble → LongDouble
  powl : LongDouble → LongDouble → LongDouble
  expl : LongDouble → LongDouble

/-! ### The list of measures -/

/-- The type `mes_t`, without its link: the number of threads or processes, and the time in
microseconds for each series. -/
structure Mes (n : ℕ) where
  number : ℤ
  data : Fin n → ℤ

/-- The clock before the creation and after it. -/
structure Reading where
  tsRef : Timespec
  tsFin : Timespec
  deriving DecidableEq, Repr

/-- The time of one creation in microseconds. -/
def Reading.micros (reading : Reading) : ℤ :=
  (reading.tsFin.tvSec - reading.tsRef.tvSec) * 1000000 +
    (reading.tsFin.tvNsec - reading.tsRef.tvNsec).tdiv 1000

variable {n : ℕ}

/-- One measure of a series. `mCur` is the number of elements up to the one that was changed last;
the list gets a new element if that was its last one. -/
def addMeasure (sc : Fin n) (list : List (Mes n)) (mCur : ℕ) (number : ℕ) (value : ℤ) :
    List (Mes n) :=
  let list := if mCur = list.length then list ++ [⟨number, fun _ ↦ 0⟩] else list
  list.modify mCur fun mes ↦ { mes with data := Function.update mes.data sc value }

/-- The measures of one series, from the reading for the creation with the given number on. Every
measure whose number is a multiple of the resolution is put in the list. -/
def addSeries (resolution : ℕ) (sc : Fin n) :
    List (Mes n) → ℕ → ℕ → List Reading → List (Mes n)
  | list, _, _, [] => list
  | list, mCur, number, reading :: readings =>
    if number % resolution = 0 then
      addSeries resolution sc (addMeasure sc list mCur number reading.micros) (mCur + 1)
        (number + 1) readings
    else
      addSeries resolution sc list mCur (number + 1) readings

/-- The list after all series, from the readings of each of them. -/
def measures (resolution : ℕ) (readings : Fin n → List Reading) : List (Mes n) :=
  (List.finRange n).foldl
    (fun list sc ↦ addSeries resolution sc list 0 1 (readings sc)) []

/-! ### `parse_measure` -/

section ParseMeasure

variable {Double LongDouble : Type} [Format Double] [Format LongDouble]
  [Formats Double LongDouble] (libm : Libm Double LongDouble)

/-- What the first loop over the list computes for one series: the sums, which become averages after
the loop. -/
structure Averages (Double : Type) where
  N : ℤ
  arrayMax : ℤ
  xavg : Double
  lnXavg : Double
  yavg : Double
  lnYavg : Double

/-- One round of the first loop over the list. -/
def readMeasure (i : Fin n) (sums : Averages Double) (cur : Mes n) : Averages Double :=
  let N := sums.N + 1
  if cur.data i ≠ 0 then
    { N := N
      arrayMax := N
      xavg := sums.xavg + Format.ofInt cur.number
      lnXavg := sums.lnXavg + libm.log (Format.ofInt cur.number)
      yavg := sums.yavg + Format.ofInt (cur.data i)
      lnYavg := sums.lnYavg + libm.log (Format.ofInt (cur.data i)) }
  else
    { sums with N := N }

/-- The averages of a series. With no data `arrayMax` is −1. -/
def averages (i : Fin n) (list : List (Mes n)) : Averages Double :=
  let zero : Double := Format.ofInt 0
  let sums := list.foldl (readMeasure libm i) ⟨0, -1, zero, zero, zero, zero⟩
  if sums.arrayMax ≠ -1 then
    { sums with
      xavg := sums.xavg / Format.ofInt sums.arrayMax
      lnXavg := sums.lnXavg / Format.ofInt sums.arrayMax
      yavg := sums.yavg / Format.ofInt sums.arrayMax
      lnYavg := sums.lnYavg / Format.ofInt sums.arrayMax }
  else
    sums

/-- The type `row`, for one series. -/
structure Row (Double : Type) where
  X : ℤ
  Y : ℤ
  x : ℤ
  y : ℤ
  lnX : Double
  lnY : Double
  lnx : Double
  lny : Double

/-- One row of `Table`. -/
def row (i : Fin n) (avg : Averages Double) (cur : Mes n) : Row Double :=
  let lnX := libm.log (Format.ofInt cur.number)
  let lnY := libm.log (Format.ofInt (cur.data i))
  { X := cur.number
    Y := cur.data i
    x := Formats.toLong LongDouble (Format.ofInt cur.number - avg.xavg)
    y := Formats.toLong LongDouble (Format.ofInt (cur.data i) - avg.yavg)
    lnX := lnX
    lnY := lnY
    lnx := lnX - avg.lnXavg
    lny := lnY - avg.lnYavg }

/-- The rows of `Table` that are filled for a series and read by the two passes. -/
def table (i : Fin n) (avg : Averages Double) (list : List (Mes n)) : List (Row Double) :=
  (list.take avg.arrayMax.toNat).map (row libm i avg)

/-- What the first pass computes: `r1`, and the factors of the three other models. -/
structure FirstPass (Double LongDouble : Type) where
  r1 : Double
  q0 : LongDouble
  d0 : LongDouble
  q1 : LongDouble
  d1 : LongDouble
  q2 : LongDouble
  d2 : LongDouble

def firstPass (arrayMax : ℤ) (rows : List (Row Double)) : FirstPass Double LongDouble :=
  let zero : LongDouble := Format.ofInt 0
  rows.foldl (fun pass r ↦
    { r1 := pass.r1 + Format.ofInt r.y / Format.ofInt arrayMax * Format.ofInt r.y
      q0 := pass.q0 + Format.ofInt (r.y * r.x)
      d0 := pass.d0 + Format.ofInt (r.x * r.x)
      q1 := pass.q1 + Formats.extend (r.lny * r.lnx)
      d1 := pass.d1 + Formats.extend (r.lnx * r.lnx)
      q2 := pass.q2 + Formats.extend (r.lny * Format.ofInt r.x)
      d2 := pass.d2 + Format.ofInt (r.x * r.x) })
    ⟨Format.ofInt 0, zero, zero, zero, zero, zero, zero⟩

/-- What the second pass computes: the errors of the linear model, the power and the exponential. -/
structure SecondPass (Double : Type) where
  r2 : Double
  r3 : Double
  r4 : Double

/-- The error of a model, with the difference `t` for one more row. -/
def addError (arrayMax : ℤ) (error : Double) (t : LongDouble) : Double :=
  Formats.round (Formats.extend error + t * t / Format.ofInt arrayMax)

def secondPass (avg : Averages Double) (first : FirstPass Double LongDouble)
    (rows : List (Row Double)) : SecondPass Double :=
  let zero : Double := Format.ofInt 0
  rows.foldl (fun pass r ↦
    let linear : LongDouble := Format.ofInt r.y - first.q0 * Format.ofInt r.x / first.d0
    let power : LongDouble := Format.ofInt r.Y -
      libm.logl (Formats.extend avg.lnYavg - first.q1 / first.d1 * Formats.extend avg.lnXavg) *
        libm.powl (Format.ofInt r.X) (first.q1 / first.d1)
    let exponential : LongDouble := Format.ofInt r.Y -
      libm.expl (first.q2 / first.d2 * Format.ofInt r.x + Formats.extend avg.lnYavg)
    { r2 := addError avg.arrayMax pass.r2 linear
      r3 := addError avg.arrayMax pass.r3 power
      r4 := addError avg.arrayMax pass.r4 exponential })
    ⟨zero, zero, zero⟩

/-- The last loop of `parse_measure`: a series with data for which the constant is not the best
model. -/
def growing (i : Fin n) (list : List (Mes n)) : Bool :=
  let avg := averages libm i list
  let rows := table libm i avg list
  let first : FirstPass Double LongDouble := firstPass avg.arrayMax rows
  let second := secondPass libm avg first rows
  let exceeds (factor : Double) (r : Double) : Bool := Formats.lt LongDouble (factor * r) first.r1
  avg.arrayMax != -1 &&
    (exceeds (Formats.tenths LongDouble 11) second.r2 ||
      exceeds (Formats.tenths LongDouble 12) second.r3 ||
      exceeds (Formats.tenths LongDouble 13) second.r4)

/-- `parse_measure`. `calloc` says whether the memory for `Table` was allocated; otherwise the
program ends with `UNRESOLVED`. -/
def parseMeasure (calloc : Bool) (list : List (Mes n)) : Option ℕ :=
  if calloc then some ((List.finRange n).countP fun i ↦ growing libm i list) else none

/-! ### The verdicts -/

/-- The end of `main` in `pthread_create/s-c1.c`, from the list of measures on. -/
def createVerdict (calloc : Bool) (list : List (Mes n)) : ℕ :=
  match parseMeasure libm calloc list with
  | none => ptsUnresolved
  | some _ => ptsPass

/-- The end of `main` in `fork/s-c1.c`. -/
def forkVerdict (calloc : Bool) (list : List (Mes 1)) : ℕ :=
  match parseMeasure libm calloc list with
  | none => ptsUnresolved
  | some ret => if ret ≠ 0 then ptsFail else ptsPass

/-- A verdict that says what `parse_measure` found, if that returned. -/
structure Reports (parsed : Option ℕ) (verdict : ℕ) : Prop where
  fail : ∀ ret, parsed = some ret → ret ≠ 0 → verdict = ptsFail
  pass : verdict = ptsPass → parsed = some 0

variable {libm} {calloc : Bool}

theorem reports_forkVerdict {list : List (Mes 1)} :
    Reports (parseMeasure libm calloc list) (forkVerdict libm calloc list) := by
  unfold forkVerdict
  cases parseMeasure libm calloc list with
  | none => exact ⟨by simp, by simp⟩
  | some ret => constructor <;> by_cases hret : ret = 0 <;> simp [hret]

theorem parseMeasure_eq_zero_iff {list : List (Mes n)} :
    parseMeasure libm true list = some 0 ↔ ∀ i, growing libm i list = false := by
  simp [parseMeasure]

/-- `fork/s-c1.c` reports what `parse_measure` found, for every list. `pthread_create/s-c1.c` does
so, for the lists that are built in a run whose creation phases complete, exactly if the memory for
the table is not there or the list has no growing series. -/
theorem createVerdict_iff {list : List (Mes 1)} {resolution : ℕ} {readings : Fin n → List Reading} :
    Reports (parseMeasure libm calloc list) (forkVerdict libm calloc list) ∧
      (Reports (parseMeasure libm calloc (measures resolution readings))
          (createVerdict libm calloc (measures resolution readings)) ↔
        calloc = false ∨ ∀ i, growing libm i (measures resolution readings) = false) := by
  refine ⟨reports_forkVerdict, ?_⟩
  cases calloc with
  | false =>
    exact iff_of_true ⟨by simp [parseMeasure], by simp [createVerdict, parseMeasure]⟩ (.inl rfl)
  | true =>
    rw [or_iff_right Bool.noConfusion, ← parseMeasure_eq_zero_iff]
    constructor
    · intro hreports
      exact hreports.pass rfl
    · intro hzero
      refine ⟨fun ret hret hne ↦ absurd ?_ hne, fun _ ↦ hzero⟩
      exact Option.some.inj (hret.symm.trans hzero)

end ParseMeasure

/-! ### A run with growing latency -/

instance : Format ℚ where
  toAdd := Rat.instAdd
  toSub := Rat.instSub
  toMul := Rat.instMul
  toDiv := Rat.instDiv
  ofInt := fun x ↦ x

/-- Exact arithmetic. -/
instance : Formats ℚ ℚ where
  extend := id
  round := id
  toLong := fun x ↦ x.num.tdiv x.den
  lt := fun x y ↦ x < y
  tenths := fun k ↦ mkRat k 10

/-- Three measures of a series that lie on a line. -/
structure OnLine (i : Fin n) (first second third : Mes n) : Prop where
  number₁ : first.number = 5
  number₂ : second.number = 10
  number₃ : third.number = 15
  data₁ : first.data i = 10
  data₂ : second.data i = 40
  data₃ : third.data i = 70

variable {i : Fin n} {first second third : Mes n}

theorem OnLine.averages (libm : Libm ℚ ℚ) (h : OnLine i first second third) :
    (averages libm i [first, second, third]).arrayMax = 3 ∧
      (averages libm i [first, second, third]).xavg = 10 ∧
      (averages libm i [first, second, third]).yavg = 40 := by
  simp [Measures.averages, readMeasure, Format.ofInt, h.number₁, h.number₂, h.number₃, h.data₁,
    h.data₂, h.data₃]
  decide +kernel

/-- The error of the linear model is zero, and that of the constant is not. Whatever the logarithms
are, the series is not constant. -/
theorem OnLine.growing (libm : Libm ℚ ℚ) (h : OnLine i first second third) :
    growing libm i [first, second, third] = true := by
  obtain ⟨hmax, hx, hy⟩ := h.averages libm
  simp only [Measures.growing, hmax, Bool.and_eq_true, Bool.or_eq_true]
  refine ⟨rfl, .inl (.inl ?_)⟩
  simp [table, hmax, firstPass, row, secondPass, addError, Format.ofInt, Formats.toLong,
    Formats.lt, Formats.tenths, Formats.extend, Formats.round, hx, hy, h.number₁, h.number₂,
    h.number₃, h.data₁, h.data₂, h.data₃]
  decide +kernel

/-- A creation that takes the given number of microseconds. -/
def lasting (micros : ℤ) : Reading := ⟨⟨0, 0⟩, ⟨0, micros * 1000⟩⟩

/-- Fifteen threads with the first scenario, which take longer and longer, and none with the others.
-/
def slowing (sc : Fin scenarii.length) : List Reading :=
  if sc.val = 0 then [10, 40, 70].flatMap fun micros ↦ List.replicate 5 (lasting micros) else []

theorem exists_onLine (i : Fin scenarii.length) (hi : i.val = 0) :
    ∃ first second third, measures 5 slowing = [first, second, third] ∧
      OnLine i first second third := by
  have hlist : (measures 5 slowing).map (fun mes ↦ (mes.number, mes.data i)) =
      [(5, 10), (10, 40), (15, 70)] := by
    have hzero : i = ⟨0, by decide⟩ := Fin.ext hi
    rw [hzero]
    decide +kernel
  obtain ⟨first, rest₁, hmeasures, hfirst, hrest₁⟩ := List.map_eq_cons_iff.mp hlist
  obtain ⟨second, rest₂, rfl, hsecond, hrest₂⟩ := List.map_eq_cons_iff.mp hrest₁
  obtain ⟨third, rest₃, rfl, hthird, hrest₃⟩ := List.map_eq_cons_iff.mp hrest₂
  obtain rfl := List.map_eq_nil_iff.mp hrest₃
  simp only [Prod.mk.injEq] at hfirst hsecond hthird
  exact ⟨first, second, third, hmeasures,
    ⟨hfirst.1, hsecond.1, hthird.1, hfirst.2, hsecond.2, hthird.2⟩⟩

/-- The run passes, with any mathematical library, although `parse_measure` finds a series that is
not constant. -/
def PassesSlowing : Prop :=
  ∀ libm : Libm ℚ ℚ,
    parseMeasure libm true (measures 5 slowing) ≠ some 0 ∧
      createVerdict libm true (measures 5 slowing) = ptsPass

theorem passes_slowing : PassesSlowing := by
  intro libm
  refine ⟨fun hzero ↦ ?_, rfl⟩
  obtain ⟨first, second, third, hlist, honLine⟩ := exists_onLine ⟨0, by decide⟩ rfl
  have hgrowing := parseMeasure_eq_zero_iff.mp hzero ⟨0, by decide⟩
  rw [hlist, honLine.growing libm] at hgrowing
  exact Bool.noConfusion hgrowing

end OpenPosix.Threads.Measures

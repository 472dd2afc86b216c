import Mathlib.Data.Rat.Floor
import OpenPosix.Numeric.Truncation
import OpenPosix.Threads.MeasureAverages

/-!
# The errors of the models in `parse_measure`

The two passes of `parse_measure` in exact arithmetic. The first one computes the error `r1` of the
constant model and the sums that the slopes of the others are made of, the second one the errors of
the other models. For the linear model this is least squares through the origin, with the deviations
`_x` and `_y` from the averages: `linear_error_spec` relates its error `r2` to `r1`, and says when
the series is not constant because of it.

The deviations are truncated to integers. A series that lies on a line loses by that its exact
proportionality, but no deviation of its numbers loses more than a third, and the growth is detected
(`linear_growth_detected`).
-/

namespace OpenPosix.Threads.Measures

open Numeric

/-! ### The passes in exact arithmetic -/

section Passes

variable {K : Type} [Field K]

/-- Nothing is lost between the two formats. -/
structure Exact (F : @Formats K K (Format.ofField K) (Format.ofField K)) : Prop where
  extend : ∀ x, F.extend x = x
  round : ∀ x, F.round x = x

variable {F : @Formats K K (Format.ofField K) (Format.ofField K)} {arrayMax : ℤ}
  {rows : List (Row K)}

abbrev exactFirst (F : @Formats K K (Format.ofField K) (Format.ofField K)) (arrayMax : ℤ)
    (rows : List (Row K)) : FirstPass K K :=
  @firstPass K K (Format.ofField K) (Format.ofField K) F arrayMax rows

abbrev exactSecond (F : @Formats K K (Format.ofField K) (Format.ofField K)) (libm : Libm K K)
    (avg : Averages K) (first : FirstPass K K) (rows : List (Row K)) : SecondPass K :=
  @secondPass K K (Format.ofField K) (Format.ofField K) F libm avg first rows

theorem firstPass_r1 : (exactFirst F arrayMax rows).r1 =
      dot (fun r ↦ (r.y : K)) (fun r ↦ (r.y : K)) rows / arrayMax := by
  rw [← sum_mul_div_eq]
  refine foldl_eq_sum FirstPass.r1 _ Int.cast_zero (fun pass r ↦ ?_) rows
  exact congrArg (pass.r1 + ·) (div_mul_eq_mul_div _ _ _)

theorem firstPass_q0 :
    (exactFirst F arrayMax rows).q0 = dot (fun r ↦ (r.x : K)) (fun r ↦ (r.y : K)) rows := by
  refine foldl_eq_sum FirstPass.q0 _ Int.cast_zero (fun pass r ↦ ?_) rows
  exact congrArg (pass.q0 + ·) ((Int.cast_mul _ _).trans (mul_comm _ _))

theorem firstPass_d0 :
    (exactFirst F arrayMax rows).d0 = dot (fun r ↦ (r.x : K)) (fun r ↦ (r.x : K)) rows := by
  refine foldl_eq_sum FirstPass.d0 _ Int.cast_zero (fun pass r ↦ ?_) rows
  exact congrArg (pass.d0 + ·) (Int.cast_mul _ _)

theorem firstPass_q1 (hF : Exact F) :
    (exactFirst F arrayMax rows).q1 = dot Row.lnx Row.lny rows := by
  refine foldl_eq_sum FirstPass.q1 _ Int.cast_zero (fun pass r ↦ ?_) rows
  exact congrArg (pass.q1 + ·) ((hF.extend _).trans (mul_comm _ _))

theorem firstPass_d1 (hF : Exact F) :
    (exactFirst F arrayMax rows).d1 = dot Row.lnx Row.lnx rows := by
  refine foldl_eq_sum FirstPass.d1 _ Int.cast_zero (fun pass r ↦ ?_) rows
  exact congrArg (pass.d1 + ·) (hF.extend _)

variable {libm : Libm K K} {avg : Averages K} {first : FirstPass K K}

/-- The error of a model whose difference in each row is `t`. -/
theorem addError_eq (hF : Exact F) (error t : K) :
    @addError K K (Format.ofField K) (Format.ofField K) F arrayMax error t =
      error + t * t / arrayMax := by
  unfold addError
  rw [hF.round, hF.extend]
  rfl

theorem secondPass_r2 (hF : Exact F) : (exactSecond F libm avg first rows).r2 =
      dot (fun r ↦ (r.y : K) - first.q0 / first.d0 * r.x)
        (fun r ↦ (r.y : K) - first.q0 / first.d0 * r.x) rows / avg.arrayMax := by
  rw [← sum_mul_div_eq]
  refine foldl_eq_sum SecondPass.r2 _ Int.cast_zero (fun pass r ↦ ?_) rows
  refine (addError_eq hF _ _).trans (congrArg (pass.r2 + ·) ?_)
  rw [← mul_div_right_comm]
  rfl

/-- The difference of the power model in one row. -/
def powerDifference (libm : Libm K K) (avg : Averages K) (first : FirstPass K K) (r : Row K) : K :=
  (r.Y : K) - libm.logl (avg.lnYavg - first.q1 / first.d1 * avg.lnXavg) *
    libm.powl (r.X : K) (first.q1 / first.d1)

theorem secondPass_r3 (hF : Exact F) : (exactSecond F libm avg first rows).r3 =
      dot (powerDifference libm avg first) (powerDifference libm avg first) rows /
        avg.arrayMax := by
  rw [← sum_mul_div_eq]
  refine foldl_eq_sum SecondPass.r3 _ Int.cast_zero (fun pass r ↦ ?_) rows
  refine (addError_eq hF _ _).trans (congrArg (pass.r3 + ·) ?_)
  simp only [hF.extend]
  rfl

end Passes

/-! ### The linear model -/

section Linear

theorem exact_rationals : Exact (K := ℚ) inferInstance := ⟨fun _ ↦ rfl, fun _ ↦ rfl⟩

variable {avg : Averages ℚ} {rows : List (Row ℚ)}

/-- The integer sum of the products of two deviations. -/
def sumMul (x y : Row ℚ → ℤ) (rows : List (Row ℚ)) : ℤ := (rows.map fun r ↦ x r * y r).sum

theorem cast_sumMul (x y : Row ℚ → ℤ) :
    (sumMul x y rows : ℚ) = dot (fun r ↦ (x r : ℚ)) (fun r ↦ (y r : ℚ)) rows := by
  rw [sumMul, Int.cast_list_sum, List.map_map, dot]
  refine congrArg List.sum (List.map_congr_left fun r _ ↦ ?_)
  exact Int.cast_mul _ _

theorem sumMul_eq_zero {x y : Row ℚ → ℤ} (h : ∀ r ∈ rows, y r = 0) : sumMul x y rows = 0 := by
  refine List.sum_eq_zero fun value hvalue ↦ ?_
  obtain ⟨r, hr, rfl⟩ := List.mem_map.mp hvalue
  rw [h r hr, mul_zero]

/-- What the two passes compute from the rows of a series. -/
def passes (libm : Libm ℚ ℚ) (avg : Averages ℚ) (rows : List (Row ℚ)) :
    FirstPass ℚ ℚ × SecondPass ℚ :=
  let first := firstPass avg.arrayMax rows
  (first, secondPass libm avg first rows)

/-- The clause of the linear model in the last test of `parse_measure`. -/
def exceedsLinear (r1 r2 : ℚ) : Bool := Formats.lt ℚ (Formats.tenths ℚ 11 * r2) r1

theorem exceedsLinear_iff {r1 r2 : ℚ} : exceedsLinear r1 r2 = true ↔ 11 * r2 < 10 * r1 := by
  have htenths : (Formats.tenths ℚ 11 : ℚ) = 11 / 10 := by decide +kernel
  rw [exceedsLinear, htenths]
  change decide ((11 / 10 : ℚ) * r2 < r1) = true ↔ _
  rw [decide_eq_true_eq]
  constructor <;> intro h <;> linarith

/-- The errors of the constant and of the linear model, with the sums of products. -/
theorem passes_eq (libm : Libm ℚ ℚ) (hmax : avg.arrayMax = rows.length)
    (hd : sumMul Row.x Row.x rows ≠ 0) :
    (passes libm avg rows).1.r1 = sumMul Row.y Row.y rows / rows.length ∧
      (passes libm avg rows).2.r2 = ((sumMul Row.y Row.y rows : ℚ) -
        (sumMul Row.x Row.y rows : ℚ) ^ 2 / sumMul Row.x Row.x rows) / rows.length := by
  have hd' : dot (fun r : Row ℚ ↦ (r.x : ℚ)) (fun r ↦ (r.x : ℚ)) rows ≠ 0 := by
    rw [← cast_sumMul]
    exact_mod_cast hd
  have hfirst : (passes libm avg rows).1.r1 =
      dot (fun r ↦ (r.y : ℚ)) (fun r ↦ (r.y : ℚ)) rows / avg.arrayMax :=
    firstPass_r1 (F := inferInstance)
  have hsecond : (passes libm avg rows).2.r2 = _ := secondPass_r2 exact_rationals
  rw [hfirst, hsecond, firstPass_q0, firstPass_d0, dot_residual hd', hmax, cast_sumMul, cast_sumMul,
    cast_sumMul]
  exact ⟨rfl, rfl⟩

theorem sumMul_self_pos (hd : sumMul Row.x Row.x rows ≠ 0) : 0 < sumMul Row.x Row.x rows := by
  have hnonneg : (0 : ℚ) ≤ sumMul Row.x Row.x rows := by
    rw [cast_sumMul]
    exact dot_self_nonneg
  exact lt_of_le_of_ne (by exact_mod_cast hnonneg) hd.symm

/-- The clause in terms of the sums. -/
theorem exceedsLinear_passes (libm : Libm ℚ ℚ) (hmax : avg.arrayMax = rows.length)
    (hd : sumMul Row.x Row.x rows ≠ 0) :
    exceedsLinear (passes libm avg rows).1.r1 (passes libm avg rows).2.r2 = true ↔
      11 * sumMul Row.x Row.y rows ^ 2 > sumMul Row.x Row.x rows * sumMul Row.y Row.y rows := by
  obtain ⟨hr1, hr2⟩ := passes_eq libm hmax hd
  have hpos : (0 : ℚ) < sumMul Row.x Row.x rows := by exact_mod_cast sumMul_self_pos hd
  have hlength : (0 : ℚ) < rows.length := by
    rcases rows with - | ⟨r, rest⟩
    · exact absurd rfl hd
    · exact_mod_cast Nat.succ_pos _
  have hcast : 11 * sumMul Row.x Row.y rows ^ 2 >
        sumMul Row.x Row.x rows * sumMul Row.y Row.y rows ↔
      (sumMul Row.y Row.y rows : ℚ) <
        11 * ((sumMul Row.x Row.y rows : ℚ) ^ 2 / sumMul Row.x Row.x rows) := by
    rw [← mul_div_assoc, lt_div_iff₀ hpos, mul_comm (sumMul Row.y Row.y rows : ℚ)]
    exact_mod_cast Iff.rfl
  rw [exceedsLinear_iff, hr1, hr2, hcast, mul_div_assoc', mul_div_assoc',
    div_lt_div_iff_of_pos_right hlength]
  constructor <;> intro h <;> linarith

/-- For all deviations `_x` and `_y` of a series, with a deviation `_x` other than zero: the error
of the linear model, its bounds, and when the series is not constant because of it. -/
theorem linear_error_spec (libm : Libm ℚ ℚ) (hmax : avg.arrayMax = rows.length)
    (hd : sumMul Row.x Row.x rows ≠ 0) :
    (passes libm avg rows).2.r2 = (passes libm avg rows).1.r1 -
        (sumMul Row.x Row.y rows : ℚ) ^ 2 / (rows.length * sumMul Row.x Row.x rows) ∧
      0 ≤ (passes libm avg rows).2.r2 ∧
      (passes libm avg rows).2.r2 ≤ (passes libm avg rows).1.r1 ∧
      (exceedsLinear (passes libm avg rows).1.r1 (passes libm avg rows).2.r2 = true ↔
        11 * sumMul Row.x Row.y rows ^ 2 >
          sumMul Row.x Row.x rows * sumMul Row.y Row.y rows) ∧
      ((∀ r ∈ rows, r.y = 0) →
        exceedsLinear (passes libm avg rows).1.r1 (passes libm avg rows).2.r2 = false) := by
  obtain ⟨hr1, hr2⟩ := passes_eq libm hmax hd
  have hclause := exceedsLinear_passes libm hmax hd
  have hpos : (0 : ℚ) < sumMul Row.x Row.x rows := by exact_mod_cast sumMul_self_pos hd
  have hsquare : (sumMul Row.x Row.y rows : ℚ) ^ 2 / sumMul Row.x Row.x rows ≤
      sumMul Row.y Row.y rows := by
    rw [cast_sumMul, cast_sumMul, cast_sumMul]
    refine sq_dot_le ?_
    rw [← cast_sumMul]
    exact hpos.ne'
  refine ⟨?_, ?_, ?_, hclause, fun hzero ↦ ?_⟩
  · rw [hr1, hr2, sub_div, div_div, mul_comm (rows.length : ℚ)]
  · rw [hr2]
    exact div_nonneg (by linarith) (Nat.cast_nonneg _)
  · rw [hr1, hr2]
    refine div_le_div_of_nonneg_right ?_ (Nat.cast_nonneg _)
    have hquotient : 0 ≤ (sumMul Row.x Row.y rows : ℚ) ^ 2 / sumMul Row.x Row.x rows := by
      positivity
    linarith
  · rw [← Bool.not_eq_true, hclause]
    have hxy : sumMul Row.x Row.y rows = 0 := sumMul_eq_zero hzero
    have hyy : sumMul Row.y Row.y rows = 0 := sumMul_eq_zero hzero
    simp [hxy, hyy]

def twoAverages : Averages ℚ := averages rationalLibm ⟨0, by decide⟩ twoMeasures

def twoRows : List (Row ℚ) := table rationalLibm ⟨0, by decide⟩ twoAverages twoMeasures

theorem exceedsLinear_twoMeasures :
    exceedsLinear (passes rationalLibm twoAverages twoRows).1.r1
      (passes rationalLibm twoAverages twoRows).2.r2 = true :=
  (linear_error_spec rationalLibm (by decide +kernel) (by decide +kernel)).2.2.2.1.mpr
    (by decide +kernel)

end Linear

/-! ### Measures on a line -/

section Growth

/-- The conversion of a `double` to a `long`. -/
theorem toLong_eq_truncate (u : ℚ) : Formats.toLong ℚ u = truncate u := by
  change u.num.tdiv u.den = truncate u
  wlog hu : 0 ≤ u generalizing u with hsym
  · have hneg := hsym (-u) (by linarith)
    rw [truncate_neg, Rat.neg_num, Rat.neg_den, Int.neg_tdiv] at hneg
    exact neg_injective hneg
  rw [truncate_of_nonneg hu, Rat.floor_def', Int.tdiv_eq_ediv_of_nonneg (Rat.num_nonneg.mpr hu)]

/-- A measure on a line, for the multiple of the resolution with index `k`. -/
def linePoint (R : ℕ) (a b : ℤ) (k : ℕ) : Mes 1 := ⟨R * (k + 1), fun _ ↦ a * R * (k + 1) + b⟩

/-- The measures of a series that lies on a line, one for each multiple of the resolution. -/
def onLine (n R : ℕ) (a b : ℤ) : List (Mes 1) := (List.range n).map (linePoint R a b)

variable {n R : ℕ} {a b : ℤ} {i : Fin 1}

@[simp]
theorem length_onLine : (onLine n R a b).length = n := by simp [onLine]

theorem sum_number_onLine : 2 * ((onLine n R a b).map Mes.number).sum = R * n * (n + 1) := by
  induction n with
  | zero => simp [onLine]
  | succ n ih =>
    rw [onLine, List.range_succ, List.map_append, List.map_append, List.sum_append, mul_add,
      ← onLine, ih]
    simp [linePoint]
    ring

theorem sum_data_onLine : ((onLine n R a b).map (·.data i)).sum =
    a * ((onLine n R a b).map Mes.number).sum + n * b := by
  induction n with
  | zero => simp [onLine]
  | succ n ih =>
    rw [onLine, List.range_succ, List.map_append, List.map_append, List.map_append,
      List.sum_append, List.sum_append, ← onLine, ih]
    simp [linePoint]
    ring

theorem data_onLine_ne_zero (hpos : ∀ k : ℕ, 1 ≤ k → k ≤ n → 0 < a * R * k + b) :
    ∀ mes ∈ onLine n R a b, mes.data i ≠ 0 := by
  intro mes hmem
  obtain ⟨k, hk, rfl⟩ := List.mem_map.mp hmem
  have hdata := hpos (k + 1) (by omega) (List.mem_range.mp hk)
  exact hdata.ne'

/-- The averages of a series on a line lie on the line. -/
theorem averages_onLine (libm : Libm ℚ ℚ) (hn : 2 ≤ n)
    (hpos : ∀ k : ℕ, 1 ≤ k → k ≤ n → 0 < a * R * k + b) :
    (averages libm i (onLine n R a b)).arrayMax = n ∧
      2 * (averages libm i (onLine n R a b)).xavg = R * (n + 1) ∧
      (averages libm i (onLine n R a b)).yavg =
        a * (averages libm i (onLine n R a b)).xavg + b := by
  have hne := data_onLine_ne_zero (i := i) hpos
  have hex : ∃ mes ∈ onLine n R a b, mes.data i ≠ 0 := by
    obtain ⟨mes, hmem⟩ := List.exists_mem_of_length_pos (l := onLine n R a b)
      (by rw [length_onLine]; omega)
    exact ⟨mes, hmem, hne mes hmem⟩
  have hcast : ∀ term : Mes 1 → ℤ, ((onLine n R a b).map fun mes ↦ (term mes : ℚ)).sum =
      (((onLine n R a b).map term).sum : ℤ) := by
    intro term
    rw [Int.cast_list_sum, List.map_map]
    rfl
  obtain ⟨hmax, hx, -, hy, -⟩ := exactAverages_eq libm i hex
  rw [average_of_ne_zero hne, hcast, length_onLine] at hx hy
  have hsum : (2 : ℚ) * (((onLine n R a b).map Mes.number).sum : ℤ) = R * n * (n + 1) := by
    exact_mod_cast sum_number_onLine
  rw [sum_data_onLine] at hy
  refine ⟨hmax.trans (by rw [used_eq_self hne, length_onLine]), ?_, ?_⟩
  · refine (congrArg (2 * ·) hx).trans ?_
    rw [← mul_div_assoc, hsum]
    field_simp
  · refine hy.trans ((congrArg (a * · + (b : ℚ)) hx).trans ?_).symm
    push_cast
    field_simp

theorem table_onLine (libm : Libm ℚ ℚ) (hn : 2 ≤ n)
    (hpos : ∀ k : ℕ, 1 ≤ k → k ≤ n → 0 < a * R * k + b) :
    table libm i (averages libm i (onLine n R a b)) (onLine n R a b) = (List.range n).map fun k ↦
      row libm i (averages libm i (onLine n R a b)) (linePoint R a b k) := by
  rw [table, (averages_onLine libm hn hpos).1, Int.toNat_natCast,
    List.take_of_length_le length_onLine.le]
  exact List.map_map

/-- The deviations of a measure on the line, before they are truncated: that of the number is a half
of a multiple of the resolution, and that of the duration is `a` times as large. -/
theorem row_linePoint (libm : Libm ℚ ℚ) (hn : 2 ≤ n)
    (hpos : ∀ k : ℕ, 1 ≤ k → k ≤ n → 0 < a * R * k + b) (k : ℕ) {r : Row ℚ}
    (hr : r = row libm i (averages libm i (onLine n R a b)) (linePoint R a b k)) :
    ∃ u : ℚ, 2 * u = (R * (2 * k + 1 - n) : ℤ) ∧ r.x = truncate u ∧ r.y = truncate (a * u) := by
  obtain ⟨-, hx, hy⟩ := averages_onLine (i := i) libm hn hpos
  subst hr
  refine ⟨R * (k + 1) - (averages libm i (onLine n R a b)).xavg, ?_, ?_, ?_⟩
  · rw [mul_sub, hx]
    push_cast
    ring
  · rw [← toLong_eq_truncate]
    refine congrArg (fun u : ℚ ↦ Formats.toLong ℚ (u - _)) ?_
    exact (Int.cast_mul _ _).trans (by push_cast; rfl)
  · rw [← toLong_eq_truncate, mul_sub, ← sub_eq_iff_eq_add.mpr hy]
    refine congrArg (Formats.toLong ℚ) ?_
    change ((a * R * (k + 1) + b : ℤ) : ℚ) - _ = _
    push_cast
    ring

/-- A multiple of the resolution is not a unit. -/
theorem resolution_mul_ne (hR : 2 ≤ R) (m : ℤ) : R * m ≠ 1 ∧ R * m ≠ -1 := by
  have hunit : ¬ IsUnit (R : ℤ) := by
    rw [Int.isUnit_iff]
    omega
  constructor <;> intro h
  · exact hunit (IsUnit.of_mul_eq_one m h)
  · exact hunit (IsUnit.of_mul_eq_one (-m) (by rw [mul_neg, h, neg_neg]))

/-- The sums of products of a series on a line. -/
theorem sumMul_onLine (libm : Libm ℚ ℚ) (hn : 2 ≤ n) (hR : 2 ≤ R) (ha : a ≠ 0)
    (hpos : ∀ k : ℕ, 1 ≤ k → k ≤ n → 0 < a * R * k + b) {rows : List (Row ℚ)}
    (hrows : rows = table libm i (averages libm i (onLine n R a b)) (onLine n R a b)) :
    sumMul Row.x Row.x rows ≠ 0 ∧
      11 * sumMul Row.x Row.y rows ^ 2 > sumMul Row.x Row.x rows * sumMul Row.y Row.y rows := by
  rw [table_onLine libm hn hpos] at hrows
  have hrow : ∀ r ∈ rows, ∃ (u : ℚ) (j : ℤ), 2 * u = j ∧ j ≠ 1 ∧ j ≠ -1 ∧ r.x = truncate u ∧
      r.y = truncate (a * u) := by
    intro r hr
    rw [hrows] at hr
    obtain ⟨k, -, hk⟩ := List.mem_map.mp hr
    obtain ⟨u, hu, hx, hy⟩ := row_linePoint libm hn hpos k hk.symm
    obtain ⟨hone, hneg⟩ := resolution_mul_ne hR (2 * k + 1 - n)
    exact ⟨u, _, hu, hone, hneg, hx, hy⟩
  have hd : 0 < dot (fun r : Row ℚ ↦ (r.x : ℚ)) (fun r ↦ (r.x : ℚ)) rows := by
    -- The number of the first measure is less than the average.
    have hmem : row libm i (averages libm i (onLine n R a b)) (linePoint R a b 0) ∈ rows := by
      rw [hrows]
      exact List.mem_map_of_mem (List.mem_range.mpr (by omega))
    obtain ⟨u, hu, hx, -⟩ := row_linePoint libm hn hpos 0 rfl
    obtain ⟨hone, hneg⟩ := resolution_mul_ne hR (2 * (0 : ℕ) + 1 - n)
    have hu0 : (R * (2 * (0 : ℕ) + 1 - n) : ℤ) ≠ 0 := mul_ne_zero (by omega) (by omega)
    refine dot_self_pos hmem fun hzero ↦ hu0 ?_
    have hbound := abs_le_truncate hu hone hneg
    rw [← hx, hzero, abs_zero, mul_zero, abs_nonpos_iff] at hbound
    rw [hbound, mul_zero] at hu
    exact_mod_cast hu.symm
  have hlower : ∀ r ∈ rows, (a : ℚ) * r.x * (a * r.x) ≤ a * r.x * r.y := by
    intro r hr
    obtain ⟨u, -, -, -, -, hx, hy⟩ := hrow r hr
    rw [hx, hy]
    exact_mod_cast (truncate_mul a u).1
  have hupper : ∀ r ∈ rows, (r.y : ℚ) * r.y ≤ 3 / 2 * (a * r.x * r.y) := by
    intro r hr
    obtain ⟨u, j, hj, hone, hneg, hx, hy⟩ := hrow r hr
    rw [hx, hy]
    exact truncate_mul_sq_le a hj hone hneg
  have ha' : (a : ℚ) ≠ 0 := by exact_mod_cast ha
  have hq : (0 : ℚ) < a * dot (fun r : Row ℚ ↦ (r.x : ℚ)) (fun r ↦ (r.y : ℚ)) rows :=
    (mul_pos (by positivity) hd).trans_le (mul_dot_self_le hlower)
  have hq2 : 0 < dot (fun r : Row ℚ ↦ (r.x : ℚ)) (fun r ↦ (r.y : ℚ)) rows ^ 2 :=
    sq_pos_iff.mpr (right_ne_zero_of_mul hq.ne')
  have hproduct := dot_mul_dot_le ha' hlower hupper
  rw [← cast_sumMul] at hd hq2 hproduct
  rw [← cast_sumMul, ← cast_sumMul] at hproduct
  have hstrict : (sumMul Row.x Row.x rows : ℚ) * sumMul Row.y Row.y rows <
      11 * (sumMul Row.x Row.y rows : ℚ) ^ 2 := by linarith
  exact ⟨by exact_mod_cast hd.ne', by exact_mod_cast hstrict⟩

/-- For every series on a line that is not constant, with any number of measures from two on and any
resolution from two on: there is a deviation `_x` other than zero, and the clause of the linear
model holds, so that `parse_measure` does not return zero. -/
theorem linear_growth_detected (libm : Libm ℚ ℚ) (hn : 2 ≤ n) (hR : 2 ≤ R) (ha : a ≠ 0)
    (hpos : ∀ k : ℕ, 1 ≤ k → k ≤ n → 0 < a * R * k + b) (i : Fin 1) :
    let avg := averages libm i (onLine n R a b)
    let rows := table libm i avg (onLine n R a b)
    sumMul Row.x Row.x rows ≠ 0 ∧
      exceedsLinear (passes libm avg rows).1.r1 (passes libm avg rows).2.r2 = true ∧
      ∃ ret, parseMeasure libm true (onLine n R a b) = some ret ∧ ret ≠ 0 := by
  intro avg rows
  obtain ⟨hd, hproduct⟩ : sumMul Row.x Row.x rows ≠ 0 ∧
      11 * sumMul Row.x Row.y rows ^ 2 > sumMul Row.x Row.x rows * sumMul Row.y Row.y rows :=
    sumMul_onLine libm hn hR ha hpos rfl
  have hmax : avg.arrayMax = n := (averages_onLine libm hn hpos).1
  have hlength : avg.arrayMax = rows.length := by
    rw [hmax, show rows = _ from table_onLine libm hn hpos, List.length_map, List.length_range]
  have hclause := (exceedsLinear_passes libm hlength hd).mpr hproduct
  have hgrowing : growing libm i (onLine n R a b) = true := by
    have hne : (avg.arrayMax != -1) = true := by
      rw [hmax, bne_iff_ne]
      omega
    exact Bool.and_eq_true_iff.mpr
      ⟨hne, Bool.or_eq_true_iff.mpr (.inl (Bool.or_eq_true_iff.mpr (.inl hclause)))⟩
  refine ⟨hd, hclause, _, rfl, fun hzero ↦ ?_⟩
  have hconstant := parseMeasure_eq_zero_iff.mp (congrArg some hzero) i
  exact Bool.noConfusion (hconstant.symm.trans hgrowing)

/-- Three measures with durations that fall: 8, 5 and 2 microseconds at 3, 6 and 9. -/
theorem parseMeasure_falling :
    ∃ ret, parseMeasure rationalLibm true (onLine 3 3 (-1) 11) = some ret ∧ ret ≠ 0 :=
  (linear_growth_detected rationalLibm (by decide) (by decide) (by decide)
    (fun k _ hk ↦ by push_cast; omega) ⟨0, by decide⟩).2.2

end Growth

end OpenPosix.Threads.Measures

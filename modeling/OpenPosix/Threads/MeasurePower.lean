import Mathlib.Analysis.SpecialFunctions.Pow.Real
import OpenPosix.Threads.MeasureErrors

/-!
# The power model of `parse_measure`

The power model `y = c x ^ a` is fitted in the logarithms: the slope of the line through the points
`(ln x, ln y)` is `a`, and the line meets the axis at `ln c`. For a series that lies on a power the
slope is recovered exactly (`slope_onPower`). The coefficient is the exponential of the intercept,
but `parse_measure` takes the logarithm of it, which gives `log (log c)`. With the function `logl`
left open, the error of the model is zero exactly if that function maps `log c` to `c`
(`powerError_eq_zero_iff`); the exponential does, and the logarithm does for no `c`.

Everything is over the real numbers, with the exact functions in place of those of the mathematical
library.
-/

namespace OpenPosix.Threads.Measures

open Numeric

/-! ### Real arithmetic -/

/-- The conversions between the real numbers and the integers. -/
@[reducible] noncomputable def realFormats : @Formats ℝ ℝ (Format.ofField ℝ) (Format.ofField ℝ) :=
  @Formats.mk ℝ ℝ (Format.ofField ℝ) (Format.ofField ℝ) id id truncate
    (fun x y ↦ decide (x < y)) fun k ↦ k / 10

theorem exact_reals : Exact realFormats := ⟨fun _ ↦ rfl, fun _ ↦ rfl⟩

/-- The exact functions, with some function in the place of `logl`. -/
noncomputable def realLibm (logl : ℝ → ℝ) : Libm ℝ ℝ := ⟨Real.log, logl, fun x a ↦ x ^ a, Real.exp⟩

variable (logl : ℝ → ℝ)

noncomputable abbrev realAverages {n : ℕ} (i : Fin n) (list : List (Mes n)) : Averages ℝ :=
  @averages n ℝ ℝ (Format.ofField ℝ) (realLibm logl) i list

noncomputable abbrev realTable {n : ℕ} (i : Fin n) (list : List (Mes n)) : List (Row ℝ) :=
  @table n ℝ ℝ (Format.ofField ℝ) (Format.ofField ℝ) realFormats (realLibm logl) i
    (realAverages logl i list) list

/-- The error of the power model, as the two passes compute it. -/
noncomputable def powerError {n : ℕ} (i : Fin n) (list : List (Mes n)) : ℝ :=
  let avg := realAverages logl i list
  let rows := realTable logl i list
  (exactSecond realFormats (realLibm logl) avg (exactFirst realFormats avg.arrayMax rows) rows).r3

/-! ### Measures on a power -/

/-- A measure on a power, for the multiple of the resolution with index `k`. -/
def powerPoint (R a : ℕ) (c : ℤ) (k : ℕ) : Mes 1 :=
  ⟨R * (k + 1), fun _ ↦ c * (R * (k + 1)) ^ a⟩

/-- The measures of a series that lies on a power, one for each multiple of the resolution. -/
def onPower (n R a : ℕ) (c : ℤ) : List (Mes 1) := (List.range n).map (powerPoint R a c)

variable {logl} {n R a : ℕ} {c : ℤ} {i : Fin 1}

@[simp]
theorem length_onPower : (onPower n R a c).length = n := by simp [onPower]

section Row

variable {mes : Mes 1}

theorem mem_onPower (hR : 1 ≤ R) (hmem : mes ∈ onPower n R a c) :
    0 < mes.number ∧ mes.data i = c * mes.number ^ a := by
  obtain ⟨k, -, rfl⟩ := List.mem_map.mp hmem
  exact ⟨by simp only [powerPoint]; positivity, rfl⟩

theorem data_onPower_ne_zero (hR : 1 ≤ R) (hc : 2 ≤ c) :
    ∀ mes ∈ onPower n R a c, mes.data i ≠ 0 := by
  intro mes hmem
  obtain ⟨hnumber, hdata⟩ := mem_onPower (i := i) hR hmem
  rw [hdata]
  positivity

/-- In the logarithms the measures lie on a line. -/
theorem log_data_onPower (hR : 1 ≤ R) (hc : 2 ≤ c) (hmem : mes ∈ onPower n R a c) :
    Real.log (mes.data i : ℝ) = Real.log c + a * Real.log mes.number := by
  obtain ⟨hnumber, hdata⟩ := mem_onPower (i := i) hR hmem
  have hc' : (c : ℝ) ≠ 0 := by exact_mod_cast (by omega : c ≠ 0)
  have hpow : (mes.number : ℝ) ^ a ≠ 0 := by positivity
  rw [hdata, Int.cast_mul, Int.cast_pow, Real.log_mul hc' hpow, Real.log_pow]

end Row

/-- So do their averages. -/
theorem averages_onPower (hn : 2 ≤ n) (hR : 1 ≤ R) (hc : 2 ≤ c) :
    (realAverages logl i (onPower n R a c)).arrayMax = n ∧
      (realAverages logl i (onPower n R a c)).lnYavg =
        Real.log c + a * (realAverages logl i (onPower n R a c)).lnXavg := by
  have hne := data_onPower_ne_zero (n := n) (a := a) (i := i) hR hc
  have hex : ∃ mes ∈ onPower n R a c, mes.data i ≠ 0 := by
    obtain ⟨mes, hmem⟩ := List.exists_mem_of_length_pos (l := onPower n R a c)
      (by rw [length_onPower]; omega)
    exact ⟨mes, hmem, hne mes hmem⟩
  obtain ⟨hmax, -, hx, -, hy⟩ := exactAverages_eq (realLibm logl) i hex
  rw [average_of_ne_zero hne, length_onPower] at hx hy
  refine ⟨hmax.trans (by rw [used_eq_self hne, length_onPower]), ?_⟩
  refine hy.trans ((congrArg (Real.log c + a * ·) hx).trans ?_).symm
  have hsum : ((onPower n R a c).map fun mes ↦ Real.log (mes.data i : ℝ)).sum =
      n * Real.log c + a * ((onPower n R a c).map fun mes ↦ Real.log (mes.number : ℝ)).sum := by
    rw [List.map_congr_left fun mes hmem ↦ log_data_onPower hR hc hmem, List.sum_map_add,
      List.sum_map_mul_left, List.map_const', List.sum_replicate, length_onPower, nsmul_eq_mul]
  change _ = ((onPower n R a c).map fun mes ↦ Real.log (mes.data i : ℝ)).sum / n
  rw [hsum]
  field_simp
  rfl

theorem realTable_onPower (hn : 2 ≤ n) (hR : 1 ≤ R) (hc : 2 ≤ c) :
    realTable logl i (onPower n R a c) = (onPower n R a c).map
      (@row 1 ℝ ℝ (Format.ofField ℝ) (Format.ofField ℝ) realFormats (realLibm logl) i
        (realAverages logl i (onPower n R a c))) := by
  unfold realTable table
  rw [(averages_onPower hn hR hc).1, Int.toNat_natCast, List.take_of_length_le length_onPower.le]

/-- What the power model needs from a row. -/
theorem mem_realTable_onPower (hn : 2 ≤ n) (hR : 1 ≤ R) (hc : 2 ≤ c) {r : Row ℝ}
    (hmem : r ∈ realTable logl i (onPower n R a c)) :
    0 < r.X ∧ r.Y = c * r.X ^ a ∧ r.lny = a * r.lnx := by
  rw [realTable_onPower hn hR hc] at hmem
  obtain ⟨mes, hmes, rfl⟩ := List.mem_map.mp hmem
  obtain ⟨hnumber, hdata⟩ := mem_onPower (i := i) hR hmes
  refine ⟨hnumber, hdata, ?_⟩
  change Real.log (mes.data i) - (realAverages logl i (onPower n R a c)).lnYavg =
    a * (Real.log mes.number - (realAverages logl i (onPower n R a c)).lnXavg)
  rw [log_data_onPower hR hc hmes, (averages_onPower hn hR hc).2]
  ring

/-- The logarithms of the numbers differ. -/
theorem dot_lnx_onPower_ne_zero (hn : 2 ≤ n) (hR : 1 ≤ R) (hc : 2 ≤ c) :
    dot Row.lnx Row.lnx (realTable logl i (onPower n R a c)) ≠ 0 := by
  have hlnx : ∀ k < n, ∃ r ∈ realTable logl i (onPower n R a c),
      r.lnx = Real.log (R * (k + 1)) - (realAverages logl i (onPower n R a c)).lnXavg := by
    intro k hk
    rw [realTable_onPower hn hR hc]
    refine ⟨_, List.mem_map_of_mem (List.mem_map_of_mem (List.mem_range.mpr hk)), ?_⟩
    refine congrArg (Real.log · - _) ?_
    simp [powerPoint]
  obtain ⟨first, hfirst, hlnx₁⟩ := hlnx 0 (by omega)
  obtain ⟨second, hsecond, hlnx₂⟩ := hlnx 1 (by omega)
  have hR' : (0 : ℝ) < R := by exact_mod_cast hR
  have hlt : Real.log (R * ((0 : ℕ) + 1)) < Real.log (R * ((1 : ℕ) + 1)) :=
    Real.log_lt_log (by positivity) (mul_lt_mul_of_pos_left (by norm_num) hR')
  by_cases hzero : first.lnx = 0
  · exact (dot_self_pos hsecond (by linarith)).ne'
  · exact (dot_self_pos hfirst hzero).ne'

/-- The regression recovers the exponent. -/
theorem slope_onPower (hn : 2 ≤ n) (hR : 1 ≤ R) (hc : 2 ≤ c) {arrayMax : ℤ} {first : FirstPass ℝ ℝ}
    (hfirst : first = exactFirst realFormats arrayMax (realTable logl i (onPower n R a c))) :
    first.q1 / first.d1 = a := by
  have hd : dot Row.lnx Row.lnx (realTable logl i (onPower n R a c)) ≠ 0 :=
    dot_lnx_onPower_ne_zero hn hR hc
  rw [hfirst, firstPass_q1 exact_reals, firstPass_d1 exact_reals,
    dot_of_proportional fun r hr ↦ (mem_realTable_onPower hn hR hc hr).2.2]
  exact mul_div_cancel_right₀ _ hd

/-- For every series on a power, with any number of measures from two on: the error of the power
model is zero exactly if the function that is called on the intercept maps it to the coefficient. -/
theorem powerError_eq_zero_iff (logl : ℝ → ℝ) (hn : 2 ≤ n) (hR : 1 ≤ R) (hc : 2 ≤ c) (i : Fin 1) :
    powerError logl i (onPower n R a c) = 0 ↔ logl (Real.log c) = c := by
  obtain ⟨hmax, hintercept⟩ : (realAverages logl i (onPower n R a c)).arrayMax = n ∧
      (realAverages logl i (onPower n R a c)).lnYavg =
        Real.log c + a * (realAverages logl i (onPower n R a c)).lnXavg :=
    averages_onPower hn hR hc
  set avg := realAverages logl i (onPower n R a c) with havg
  set rows := realTable logl i (onPower n R a c) with hrows
  set first := exactFirst realFormats avg.arrayMax rows with hfirst
  have hslope : first.q1 / first.d1 = a := slope_onPower hn hR hc hfirst
  have hn0 : (n : ℝ) ≠ 0 := by exact_mod_cast (by omega : n ≠ 0)
  have hdifference : ∀ r ∈ rows, powerDifference (realLibm logl) avg first r =
      (c - logl (Real.log c)) * (r.X : ℝ) ^ a := by
    intro r hr
    obtain ⟨-, hY, -⟩ := mem_realTable_onPower hn hR hc hr
    have hpow : (realLibm logl).powl (r.X : ℝ) a = (r.X : ℝ) ^ a := Real.rpow_natCast _ _
    rw [powerDifference, hslope, hintercept, add_sub_cancel_right, hpow, hY]
    push_cast
    exact (sub_mul _ _ _).symm
  have herror : powerError logl i (onPower n R a c) =
      dot (powerDifference (realLibm logl) avg first) (powerDifference (realLibm logl) avg first)
        rows / avg.arrayMax := secondPass_r3 exact_reals
  rw [herror, hmax, Int.cast_natCast, div_eq_zero_iff, or_iff_left hn0]
  constructor
  · intro hzero
    by_contra hne
    obtain ⟨r, hr⟩ : ∃ r, r ∈ rows := by
      refine List.exists_mem_of_length_pos ?_
      rw [hrows, realTable_onPower hn hR hc, List.length_map, length_onPower]
      omega
    obtain ⟨hX, -, -⟩ := mem_realTable_onPower hn hR hc hr
    have hX' : (r.X : ℝ) ≠ 0 := by exact_mod_cast hX.ne'
    refine (dot_self_pos hr ?_).ne' hzero
    rw [hdifference r hr]
    exact mul_ne_zero (sub_ne_zero.mpr (Ne.symm hne)) (pow_ne_zero _ hX')
  · intro heq
    refine List.sum_eq_zero fun value hvalue ↦ ?_
    obtain ⟨r, hr, rfl⟩ := List.mem_map.mp hvalue
    rw [hdifference r hr, heq, sub_self, zero_mul, zero_mul]

theorem log_log_lt (hc : 2 ≤ c) : Real.log (Real.log c) < c := by
  have hc' : (2 : ℝ) ≤ c := by exact_mod_cast hc
  have hlog : 0 < Real.log c := Real.log_pos (by linarith)
  have hinner : Real.log c ≤ c - 1 := Real.log_le_sub_one_of_pos (by linarith)
  have houter := Real.log_le_sub_one_of_pos hlog
  linarith

/-- For every series on a power: with the logarithm of the intercept as its coefficient the model
has the error zero exactly if `log (log c)` is `c`, which it is not for any `c`. With the
exponential, of which the logarithm is the inverse, it has the error zero. -/
theorem power_model_spec (hn : 2 ≤ n) (hR : 1 ≤ R) (hc : 2 ≤ c) (i : Fin 1) :
    (powerError Real.log i (onPower n R a c) = 0 ↔ Real.log (Real.log c) = c) ∧
      Real.log (Real.log c) < c ∧ powerError Real.exp i (onPower n R a c) = 0 := by
  refine ⟨powerError_eq_zero_iff Real.log hn hR hc i, log_log_lt hc, ?_⟩
  rw [powerError_eq_zero_iff Real.exp hn hR hc i]
  exact Real.exp_log (by exact_mod_cast (by omega : 0 < c))

/-- The durations 75, 300 and 675 at 5, 10 and 15. -/
theorem powerError_exp_squares :
    powerError Real.exp ⟨0, by decide⟩ (onPower 3 5 2 3) = 0 :=
  (power_model_spec (by decide) (by decide) (by decide) _).2.2

/-- The durations 2 and 4 at 1 and 2, which are twice the numbers. -/
def MissesPower : Prop := ∀ i : Fin 1, powerError Real.log i (onPower 2 1 1 2) ≠ 0

theorem misses_power : MissesPower := by
  intro i hzero
  rw [powerError_eq_zero_iff Real.log (by decide) (by decide) (by decide) i] at hzero
  exact (log_log_lt (by decide)).ne hzero

end OpenPosix.Threads.Measures

import Mathlib.Algebra.BigOperators.Ring.Finset
import Mathlib.Data.List.DropRight
import OpenPosix.Numeric.LeastSquares
import OpenPosix.Threads.Measures

/-!
# The averages of `parse_measure`

The first loop of `parse_measure` adds up the rows with a duration other than zero, and divides the
sums by `array_max`, the number of rows up to the last of them. The later loops work with all rows
up to that one. `used` is these rows, and `skipped` the ones among them that were not added up.

In exact arithmetic the average of the durations is right, since the rows that are left out have the
duration zero. The average of the numbers is right exactly if the numbers of the skipped rows add up
to zero (`averages_isMean_iff`), that is, if no row is skipped.

`stress/threads/sem_open/s-c1.c` has two durations in each row, of `sem_open` and `sem_close`, and
selects the rows by the first of them for both (`averagesBy`).
-/

namespace OpenPosix.Threads.Measures

open Numeric

variable {n : ℕ}

attribute [simp] Format.ofInt

/-- The arithmetic of a field. -/
@[reducible] def Format.ofField (K : Type) [Field K] : Format K where
  toAdd := inferInstance
  toSub := inferInstance
  toMul := inferInstance
  toDiv := inferInstance
  ofInt := fun x ↦ x

/-! ### The rows that are used -/

/-- The rows up to the last one with a duration. -/
def used (key : Fin n) (list : List (Mes n)) : List (Mes n) :=
  list.rdropWhile fun mes ↦ mes.data key = 0

/-- The used rows without a duration. -/
def skipped (key : Fin n) (list : List (Mes n)) : List (Mes n) :=
  (used key list).filter fun mes ↦ mes.data key = 0

section Used

variable {key : Fin n} {list : List (Mes n)} {mes : Mes n}

theorem used_concat_of_eq_zero (h : mes.data key = 0) : used key (list ++ [mes]) = used key list :=
  List.rdropWhile_concat_pos _ _ _ (by simpa using h)

theorem used_concat_of_ne_zero (h : mes.data key ≠ 0) : used key (list ++ [mes]) = list ++ [mes] :=
  List.rdropWhile_concat_neg _ _ _ (by simpa using h)

theorem used_eq_take (key : Fin n) (list : List (Mes n)) :
    used key list = list.take (used key list).length :=
  List.prefix_iff_eq_take.mp (List.rdropWhile_prefix _ _)

theorem used_ne_nil (h : ∃ mes ∈ list, mes.data key ≠ 0) : used key list ≠ [] := by
  obtain ⟨mes, hmem, hne⟩ := h
  intro hnil
  have hzero := List.rdropWhile_eq_nil_iff.mp hnil mes hmem
  exact hne (by simpa using hzero)

theorem used_eq_self (h : ∀ mes ∈ list, mes.data key ≠ 0) : used key list = list := by
  rcases List.eq_nil_or_concat' list with rfl | ⟨rest, mes, rfl⟩
  · rfl
  · exact used_concat_of_ne_zero (h mes (by simp))

/-- A sum over the list to which only the rows with a duration contribute. -/
theorem sum_eq_sum_used {K : Type} [AddCommMonoid K] {term : Mes n → K}
    (h : ∀ mes, mes.data key = 0 → term mes = 0) :
    (list.map term).sum = ((used key list).map term).sum := by
  induction list using List.reverseRecOn with
  | nil => rfl
  | append_singleton list mes ih =>
    by_cases hzero : mes.data key = 0
    · rw [used_concat_of_eq_zero hzero, ← ih]
      simp [h mes hzero]
    · rw [used_concat_of_ne_zero hzero]

end Used

/-! ### The loop -/

section Loop

variable {Double LongDouble : Type} [Format Double] (libm : Libm Double LongDouble)

/-- One round of the first loop of `sem_open/s-c1.c`, for one of its two series: the rows are
selected by the series `key`. -/
def readMeasureBy (key i : Fin n) (sums : Averages Double) (cur : Mes n) : Averages Double :=
  let N := sums.N + 1
  if cur.data key ≠ 0 then
    { N := N
      arrayMax := N
      xavg := sums.xavg + Format.ofInt cur.number
      lnXavg := sums.lnXavg + libm.log (Format.ofInt cur.number)
      yavg := sums.yavg + Format.ofInt (cur.data i)
      lnYavg := sums.lnYavg + libm.log (Format.ofInt (cur.data i)) }
  else
    { sums with N := N }

def sumsBy (key i : Fin n) (list : List (Mes n)) : Averages Double :=
  let zero : Double := Format.ofInt 0
  list.foldl (readMeasureBy libm key i) ⟨0, -1, zero, zero, zero, zero⟩

/-- The averages of one of the two series of `sem_open/s-c1.c`. -/
def averagesBy (key i : Fin n) (list : List (Mes n)) : Averages Double :=
  let sums := sumsBy libm key i list
  if sums.arrayMax ≠ -1 then
    { sums with
      xavg := sums.xavg / Format.ofInt sums.arrayMax
      lnXavg := sums.lnXavg / Format.ofInt sums.arrayMax
      yavg := sums.yavg / Format.ofInt sums.arrayMax
      lnYavg := sums.lnYavg / Format.ofInt sums.arrayMax }
  else
    sums

/-- In the other programs each series selects its own rows. -/
theorem averages_eq_averagesBy (i : Fin n) (list : List (Mes n)) :
    averages libm i list = averagesBy libm i i list := rfl

variable {libm} {key i : Fin n} {list : List (Mes n)}

theorem N_foldl (sums : Averages Double) :
    (list.foldl (readMeasureBy libm key i) sums).N = sums.N + list.length := by
  induction list generalizing sums with
  | nil => simp
  | cons mes list ih =>
    have hN : (readMeasureBy libm key i sums mes).N = sums.N + 1 := by
      unfold readMeasureBy
      split <;> rfl
    rw [List.foldl_cons, ih, hN, List.length_cons]
    omega

/-- `array_max` is the number of rows that are used. -/
theorem arrayMax_foldl {zero : Double} :
    (list.foldl (readMeasureBy libm key i) ⟨0, -1, zero, zero, zero, zero⟩).arrayMax =
      if used key list = [] then -1 else ((used key list).length : ℤ) := by
  induction list using List.reverseRecOn with
  | nil => rfl
  | append_singleton list mes ih =>
    by_cases hzero : mes.data key = 0
    · rw [used_concat_of_eq_zero hzero, ← ih]
      simp [readMeasureBy, hzero]
    · rw [used_concat_of_ne_zero hzero]
      simp [readMeasureBy, hzero, N_foldl]

theorem averagesBy_eq (h : ∃ mes ∈ list, mes.data key ≠ 0) : averagesBy libm key i list =
      { N := (sumsBy libm key i list).N
        arrayMax := (used key list).length
        xavg := (sumsBy libm key i list).xavg / Format.ofInt (used key list).length
        lnXavg := (sumsBy libm key i list).lnXavg / Format.ofInt (used key list).length
        yavg := (sumsBy libm key i list).yavg / Format.ofInt (used key list).length
        lnYavg := (sumsBy libm key i list).lnYavg / Format.ofInt (used key list).length } := by
  have hmax : (sumsBy libm key i list).arrayMax = (used key list).length := by
    rw [sumsBy, arrayMax_foldl, if_neg (used_ne_nil h)]
  have hne : ((used key list).length : ℤ) ≠ -1 := by omega
  simp only [averagesBy, hmax, ne_eq, hne, not_false_eq_true, if_true]

end Loop

/-! ### Exact arithmetic -/

section Exact

variable {K : Type} [Field K] (libm : Libm K K) (key i : Fin n) (list : List (Mes n))

/-- The averages in the arithmetic of a field. -/
abbrev exactAverages : Averages K := @averagesBy n K K (Format.ofField K) libm key i list

/-- What a row adds to a sum. -/
def selected (term : Mes n → K) (mes : Mes n) : K := if mes.data key = 0 then 0 else term mes

/-- The sum over the selected rows, divided by the number of the used ones. -/
def average (term : Mes n → K) : K :=
  ((used key list).map (selected key term)).sum / ((used key list).length : ℤ)

variable {libm key i list}

/-- Assumes: every round adds what the row adds to one field of the sums. -/
theorem sumsBy_field (field : Averages K → K) (term : Mes n → K)
    (hstart : ∀ N arrayMax, field ⟨N, arrayMax, (0 : ℤ), (0 : ℤ), (0 : ℤ), (0 : ℤ)⟩ = 0)
    (hstep : ∀ sums mes, field (@readMeasureBy n K K (Format.ofField K) libm key i sums mes) =
      field sums + selected key term mes) :
    field (@sumsBy n K K (Format.ofField K) libm key i list) =
      ((used key list).map (selected key term)).sum := by
  refine (foldl_eq_sum field (selected key term) (hstart 0 (-1)) hstep list).trans ?_
  exact sum_eq_sum_used fun mes hzero ↦ if_pos hzero

theorem exactAverages_eq (libm : Libm K K) (i : Fin n) (h : ∃ mes ∈ list, mes.data key ≠ 0) :
    (exactAverages libm key i list).arrayMax = (used key list).length ∧
      (exactAverages libm key i list).xavg = average key list (fun mes ↦ (mes.number : K)) ∧
      (exactAverages libm key i list).lnXavg = average key list (fun mes ↦ libm.log mes.number) ∧
      (exactAverages libm key i list).yavg = average key list (fun mes ↦ (mes.data i : K)) ∧
      (exactAverages libm key i list).lnYavg =
        average key list fun mes ↦ libm.log (mes.data i) := by
  rw [exactAverages, @averagesBy_eq n K K (Format.ofField K) libm key i list h]
  refine ⟨rfl, congrArg (· / _) ?_, congrArg (· / _) ?_, congrArg (· / _) ?_, congrArg (· / _) ?_⟩
  · refine sumsBy_field Averages.xavg (fun mes ↦ (mes.number : K))
      (fun _ _ ↦ Int.cast_zero) fun sums mes ↦ ?_
    by_cases hzero : mes.data key = 0 <;> simp [readMeasureBy, selected, hzero]
  · refine sumsBy_field Averages.lnXavg (fun mes ↦ libm.log mes.number)
      (fun _ _ ↦ Int.cast_zero) fun sums mes ↦ ?_
    by_cases hzero : mes.data key = 0 <;> simp [readMeasureBy, selected, hzero]
  · refine sumsBy_field Averages.yavg (fun mes ↦ (mes.data i : K))
      (fun _ _ ↦ Int.cast_zero) fun sums mes ↦ ?_
    by_cases hzero : mes.data key = 0 <;> simp [readMeasureBy, selected, hzero]
  · refine sumsBy_field Averages.lnYavg (fun mes ↦ libm.log (mes.data i))
      (fun _ _ ↦ Int.cast_zero) fun sums mes ↦ ?_
    by_cases hzero : mes.data key = 0 <;> simp [readMeasureBy, selected, hzero]

/-- The skipped rows are what a sum over the selected rows lacks. -/
theorem sum_used (term : Mes n → K) : ((used key list).map term).sum =
      ((used key list).map (selected key term)).sum + ((skipped key list).map term).sum := by
  unfold skipped
  induction used key list with
  | nil => simp
  | cons mes rest ih =>
    by_cases hzero : mes.data key = 0
    · simp only [List.map_cons, List.sum_cons, ih, selected, hzero, if_true, zero_add,
        decide_true, List.filter_cons_of_pos]
      ring
    · simp only [List.map_cons, List.sum_cons, ih, selected, hzero, if_false, decide_false,
        Bool.false_eq_true, not_false_eq_true, List.filter_cons_of_neg]
      ring

theorem average_eq_iff [CharZero K] (h : ∃ mes ∈ list, mes.data key ≠ 0) (term : Mes n → K) :
    average key list term = ((used key list).map term).sum / (used key list).length ↔
      ((skipped key list).map term).sum = 0 := by
  have hlength : ((used key list).length : K) ≠ 0 := by
    simpa [List.length_eq_zero_iff] using used_ne_nil h
  rw [average, sum_used term, Int.cast_natCast, div_left_inj' hlength, left_eq_add]

/-- No row is skipped, so that the average is the mean. -/
theorem average_of_ne_zero (h : ∀ mes ∈ list, mes.data key ≠ 0) (term : Mes n → K) :
    average key list term = (list.map term).sum / list.length := by
  rw [average, used_eq_self h, Int.cast_natCast]
  refine congrArg (fun terms : List K ↦ terms.sum / list.length)
    (List.map_congr_left fun mes hmem ↦ ?_)
  rw [selected, if_neg (h mes hmem)]

/-- The averages are the means over the rows of a table. -/
structure IsMean (avg : Averages K) (rows : List (Row K)) : Prop where
  x : avg.xavg = (rows.map fun r ↦ (r.X : K)).sum / rows.length
  y : avg.yavg = (rows.map fun r ↦ (r.Y : K)).sum / rows.length

/-- Assumes: the averages of a series, and the rows that the two passes use with them. -/
theorem isMean_iff [CharZero K] (libm : Libm K K) (h : ∃ mes ∈ list, mes.data key ≠ 0)
    {rows : List (Row K)}
    (hX : rows.map Row.X = (used key list).map Mes.number)
    (hY : rows.map Row.Y = (used key list).map (·.data i)) :
    IsMean (exactAverages libm key i list) rows ↔
      ((skipped key list).map fun mes ↦ (mes.number : K)).sum = 0 ∧
        ((skipped key list).map fun mes ↦ (mes.data i : K)).sum = 0 := by
  obtain ⟨-, hx, -, hy, -⟩ := exactAverages_eq libm i h
  have hlength : rows.length = (used key list).length := by
    simpa using congrArg List.length hX
  have hsumX : (rows.map fun r ↦ (r.X : K)) = (used key list).map fun mes ↦ (mes.number : K) := by
    simpa [Function.comp_def] using congrArg (List.map ((↑) : ℤ → K)) hX
  have hsumY : (rows.map fun r ↦ (r.Y : K)) = (used key list).map fun mes ↦ (mes.data i : K) := by
    simpa [Function.comp_def] using congrArg (List.map ((↑) : ℤ → K)) hY
  rw [← average_eq_iff h, ← average_eq_iff h]
  constructor
  · intro hmean
    exact ⟨by rw [← hx, hmean.x, hsumX, hlength], by rw [← hy, hmean.y, hsumY, hlength]⟩
  · rintro ⟨hmeanX, hmeanY⟩
    exact ⟨by rw [hx, hmeanX, hsumX, hlength], by rw [hy, hmeanY, hsumY, hlength]⟩

end Exact

/-! ### The programs -/

section Programs

variable {key i : Fin n} {list : List (Mes n)}

/-- With numbers of threads or processes that are positive, as in the lists that the programs build,
the numbers of the skipped rows add up to zero exactly if no row is skipped. -/
theorem sum_skipped_eq_zero_iff (h : ∀ mes ∈ list, 0 < mes.number) :
    ((skipped key list).map Mes.number).sum = 0 ↔ ∀ mes ∈ used key list, mes.data key ≠ 0 := by
  have hpos : ∀ mes ∈ skipped key list, 0 < mes.number := fun mes hmem ↦
    h mes ((List.rdropWhile_prefix _ _).subset (List.mem_of_mem_filter hmem))
  constructor
  · intro hsum mes hmem hzero
    have hskipped : mes ∈ skipped key list := by
      rw [skipped, List.mem_filter]
      exact ⟨hmem, by simpa using hzero⟩
    have hle : mes.number ≤ ((skipped key list).map Mes.number).sum := by
      refine List.single_le_sum (fun value hvalue ↦ ?_) _ (List.mem_map_of_mem hskipped)
      obtain ⟨other, hother, rfl⟩ := List.mem_map.mp hvalue
      exact (hpos other hother).le
    have hmes := hpos mes hskipped
    omega
  · intro hused
    have hnil : skipped key list = [] := by
      rw [skipped, List.filter_eq_nil_iff]
      intro mes hmem
      simpa using hused mes hmem
    simp [hnil]

variable (libm : Libm ℚ ℚ)

theorem isMean_averagesBy_iff (h : ∃ mes ∈ list, mes.data key ≠ 0) :
    IsMean (averagesBy libm key i list) (table libm i (averagesBy libm key i list) list) ↔
      ((skipped key list).map Mes.number).sum = 0 ∧
        ((skipped key list).map (·.data i)).sum = 0 := by
  have hmax : (averagesBy libm key i list).arrayMax.toNat = (used key list).length := by
    rw [averagesBy_eq h, Int.toNat_natCast]
  have hcast : ∀ term : Mes n → ℤ, ((skipped key list).map fun mes ↦ (term mes : ℚ)).sum = 0 ↔
      ((skipped key list).map term).sum = 0 := by
    intro term
    rw [← Int.cast_eq_zero (α := ℚ), Int.cast_list_sum, List.map_map]
    rfl
  have hX : (table libm i (averagesBy libm key i list) list).map Row.X =
      (used key list).map Mes.number := by
    rw [table, hmax, ← used_eq_take, List.map_map]
    rfl
  have hY : (table libm i (averagesBy libm key i list) list).map Row.Y =
      (used key list).map (·.data i) := by
    rw [table, hmax, ← used_eq_take, List.map_map]
    rfl
  rw [← hcast, ← hcast]
  exact isMean_iff libm h hX hY

/-- For every list with a duration other than zero: the averages of a series are the means over the
rows that the passes use exactly if the numbers of the skipped rows add up to zero. For the second
series of `sem_open/s-c1.c`, whose rows are selected by the first one, their durations have to add
up to zero, too. -/
theorem averages_isMean_iff (h : ∃ mes ∈ list, mes.data key ≠ 0) :
    (IsMean (averages libm key list) (table libm key (averages libm key list) list) ↔
      ((skipped key list).map Mes.number).sum = 0) ∧
    (∀ i, IsMean (averagesBy libm key i list) (table libm i (averagesBy libm key i list) list) ↔
      ((skipped key list).map Mes.number).sum = 0 ∧
        ((skipped key list).map (·.data i)).sum = 0) ∧
    ((∀ mes ∈ list, 0 < mes.number) → (((skipped key list).map Mes.number).sum = 0 ↔
      ∀ mes ∈ used key list, mes.data key ≠ 0)) := by
  refine ⟨?_, fun i ↦ isMean_averagesBy_iff libm h, sum_skipped_eq_zero_iff⟩
  have hzero : ((skipped key list).map (·.data key)).sum = 0 := by
    refine List.sum_eq_zero fun value hvalue ↦ ?_
    obtain ⟨mes, hmem, rfl⟩ := List.mem_map.mp hvalue
    simpa using List.of_mem_filter hmem
  rw [averages_eq_averagesBy, isMean_averagesBy_iff libm h, hzero]
  exact and_iff_left rfl

end Programs

/-- Some mathematical library over the rationals. -/
def rationalLibm : Libm ℚ ℚ := ⟨id, id, fun x _ ↦ x, id⟩

def twoMeasures : List (Mes 1) := [⟨5, fun _ ↦ 10⟩, ⟨10, fun _ ↦ 40⟩]

theorem averages_isMean_twoMeasures :
    IsMean (averages rationalLibm ⟨0, by decide⟩ twoMeasures)
      (table rationalLibm ⟨0, by decide⟩ (averages rationalLibm ⟨0, by decide⟩ twoMeasures)
        twoMeasures) :=
  (averages_isMean_iff rationalLibm (by decide)).1.mpr (by decide +kernel)

/-- Fifteen processes: the fifth creation takes 10 microseconds, the tenth less than one, and the
fifteenth 20. -/
def unsteady (_ : Fin 1) : List Reading :=
  [10, 0, 20].flatMap fun micros ↦ List.replicate 5 (lasting micros)

/-- The list of this run has a duration other than zero, and with any mathematical library its
averages are not the means. -/
def MissesMean : Prop :=
  ∀ (libm : Libm ℚ ℚ) (i : Fin 1), (∃ mes ∈ measures 5 unsteady, mes.data i ≠ 0) ∧
    ¬ IsMean (averages libm i (measures 5 unsteady))
      (table libm i (averages libm i (measures 5 unsteady)) (measures 5 unsteady))

theorem misses_mean : MissesMean := by
  intro libm i
  obtain rfl : i = ⟨0, by decide⟩ := Subsingleton.elim _ _
  have h : ∃ mes ∈ measures 5 unsteady, mes.data ⟨0, by decide⟩ ≠ 0 := by decide +kernel
  refine ⟨h, fun hmean ↦ ?_⟩
  rw [averages_eq_averagesBy, isMean_averagesBy_iff libm h] at hmean
  exact absurd hmean.1 (by decide +kernel)

end OpenPosix.Threads.Measures

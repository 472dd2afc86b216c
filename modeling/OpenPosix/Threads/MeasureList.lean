import Mathlib.Data.Finset.Lattice.Fold
import Mathlib.Data.Fintype.Basic
import Mathlib.Order.Lattice.Nat
import OpenPosix.Threads.Measures

/-!
# The list of measures of `pthread_create/s-c1.c`

All scenarios of `stress/threads/pthread_create/s-c1.c` share one list of measures. A scenario goes
through it from the start with the cursor `m_cur`, and adds elements where the list is too short for
it. The list has one row for each step of `RESOLUTION` threads (`rows`), and a scenario changes one
column of it (`addSeries_rows`).
-/

namespace OpenPosix.Threads.Measures

open Function

variable {n resolution : ℕ} {len : ℕ} {data : ℕ → Fin n → ℤ}

def rows (resolution len : ℕ) (data : ℕ → Fin n → ℤ) : List (Mes n) :=
  (List.range len).map fun k ↦ ⟨((k + 1) * resolution : ℕ), data k⟩

/-- The value that was measured for the `i`th creation, counted from 0. -/
def measured (readings : List Reading) (i : ℕ) : Option ℤ := readings[i]?.map Reading.micros

theorem getElem?_rows (k : ℕ) : (rows resolution len data)[k]? =
    if k < len then some ⟨((k + 1) * resolution : ℕ), data k⟩ else none := by
  unfold rows
  split_ifs with h
  · simp [h]
  · simp [Nat.le_of_not_lt h]

/-- The row that the cursor comes to next gets the value, and is added if the list ends there. -/
theorem addMeasure_rows (resolution : ℕ) {mCur : ℕ} (sc : Fin n) (value : ℤ) (hle : mCur ≤ len)
    (hnew : ∀ k, len ≤ k → data k = fun _ ↦ 0) :
    addMeasure sc (rows resolution len data) mCur ((mCur + 1) * resolution) value =
      rows resolution (max len (mCur + 1)) (update data mCur (update (data mCur) sc value)) := by
  have hrow : (if mCur = (rows resolution len data).length then
        rows resolution len data ++ [⟨((mCur + 1) * resolution : ℕ), fun _ ↦ 0⟩]
      else rows resolution len data) = rows resolution (max len (mCur + 1)) data := by
    split_ifs with heq
    · obtain rfl : mCur = len := by simpa [rows] using heq
      rw [max_eq_right (Nat.le_succ mCur)]
      simp [rows, List.range_succ, hnew mCur le_rfl]
    · have hlt : mCur ≠ len := by simpa [rows] using heq
      rw [max_eq_left (by omega)]
  unfold addMeasure
  rw [hrow]
  refine List.ext_getElem? fun k ↦ ?_
  rw [List.getElem?_modify, getElem?_rows, getElem?_rows]
  by_cases heq : mCur = k
  · subst heq
    simp
  · simp [heq, update_of_ne (Ne.symm heq)]

/-- The column of a scenario, from the creation after the first `p` ones on. -/
theorem addSeries_rows (sc : Fin n) (hres : 0 < resolution) (readings : List Reading) :
    ∀ {len p : ℕ} {data : ℕ → Fin n → ℤ}, p / resolution ≤ len →
      (∀ k, len ≤ k → data k = fun _ ↦ 0) →
      addSeries resolution sc (rows resolution len data) (p / resolution) (p + 1) readings =
        rows resolution (max len ((p + readings.length) / resolution)) fun k ↦
          update (data k) sc <| if p < (k + 1) * resolution then
              (measured readings ((k + 1) * resolution - (p + 1))).getD (data k sc)
            else data k sc := by
  induction readings with
  | nil =>
    intro len p data hle hnew
    simp [addSeries, measured, hle]
  | cons reading readings ih =>
    intro len p data hle hnew
    have hlength : p + (reading :: readings).length = p + 1 + readings.length := by
      simp [Nat.add_comm, Nat.add_left_comm]
    -- What the later readings do to a row that this one leaves alone.
    have hother : ∀ k, (k + 1) * resolution ≠ p + 1 → (if p + 1 < (k + 1) * resolution then
          (measured readings ((k + 1) * resolution - (p + 1 + 1))).getD (data k sc)
        else data k sc) =
        if p < (k + 1) * resolution then
          (measured (reading :: readings) ((k + 1) * resolution - (p + 1))).getD (data k sc)
        else data k sc := by
      intro k hk
      split_ifs with hlate hafter hafter
      · rw [show (k + 1) * resolution - (p + 1) = (k + 1) * resolution - (p + 1 + 1) + 1 by omega]
        rfl
      · omega
      · omega
      · rfl
    unfold addSeries
    split_ifs with hmod
    · have hcur : (p + 1) / resolution = p / resolution + 1 := by
        rw [Nat.succ_div, if_pos (Nat.dvd_of_mod_eq_zero hmod)]
      have hnumber : p + 1 = (p / resolution + 1) * resolution := by
        rw [← hcur, Nat.div_mul_cancel (Nat.dvd_of_mod_eq_zero hmod)]
      have hstep := addMeasure_rows resolution sc reading.micros hle hnew
      rw [← hnumber] at hstep
      have hnew' : ∀ k, max len ((p + 1) / resolution) ≤ k → update data (p / resolution)
            (update (data (p / resolution)) sc reading.micros) k = fun _ ↦ 0 := by
        intro k hk
        rw [update_of_ne (by omega)]
        exact hnew k (by omega)
      rw [hstep, ← hcur, ih (le_max_right _ _) hnew', hlength, max_assoc,
        max_eq_right (Nat.div_le_div_right (Nat.le_add_right _ _))]
      refine congrArg (rows resolution _) (funext fun k ↦ ?_)
      by_cases heq : k = p / resolution
      · subst heq
        rw [← hnumber]
        simp [measured]
      · rw [update_of_ne heq, hother k fun hk ↦ heq ?_]
        rw [hnumber] at hk
        exact Nat.succ_injective (Nat.eq_of_mul_eq_mul_right hres hk)
    · have hcur : (p + 1) / resolution = p / resolution := by
        rw [Nat.succ_div, if_neg fun hdvd ↦ hmod (Nat.mod_eq_zero_of_dvd hdvd), Nat.add_zero]
      rw [← hcur, ih (by omega) hnew, hlength]
      refine congrArg (rows resolution _) (funext fun k ↦ ?_)
      rw [hother k fun hk ↦ hmod (by rw [← hk, Nat.mul_mod_left])]

/-- The row for a number of threads that a scenario does not reach has no value of it. -/
theorem measured_eq_none (hres : 0 < resolution) {readings : List Reading} {k : ℕ}
    (h : readings.length / resolution ≤ k) :
    measured readings ((k + 1) * resolution - 1) = none := by
  have hlt := (Nat.div_lt_iff_lt_mul hres).mp (Nat.lt_succ_of_le h)
  rw [measured, List.getElem?_eq_none (Nat.le_sub_one_of_lt hlt), Option.map_none]

/-- The list after some scenarios, each of them with a column of its own. -/
theorem foldl_addSeries (hres : 0 < resolution) (readings : Fin n → List Reading)
    (scenarii : List (Fin n)) : ∀ (len : ℕ) (data : ℕ → Fin n → ℤ), scenarii.Nodup →
      (∀ sc ∈ scenarii, ∀ k, data k sc = 0) → (∀ k, len ≤ k → data k = fun _ ↦ 0) →
      scenarii.foldl (fun list sc ↦ addSeries resolution sc list 0 1 (readings sc))
          (rows resolution len data) =
        rows resolution (max len (scenarii.toFinset.sup fun sc ↦ (readings sc).length / resolution))
          fun k sc ↦ if sc ∈ scenarii then
            (measured (readings sc) ((k + 1) * resolution - 1)).getD 0 else data k sc := by
  induction scenarii with
  | nil =>
    intro len data _ _ _
    simp
  | cons sc scenarii ih =>
    intro len data hnodup hzero hnew
    obtain ⟨hout, hnodup⟩ := List.nodup_cons.mp hnodup
    have hpos : ∀ k, 0 < (k + 1) * resolution := fun k ↦ Nat.mul_pos k.succ_pos hres
    have hstep := addSeries_rows (p := 0) sc hres (readings sc) (by simp) hnew
    simp only [Nat.zero_div, Nat.zero_add, hpos, if_true, hzero sc List.mem_cons_self] at hstep
    rw [List.foldl_cons, hstep, ih _ _ hnodup (fun other hmem k ↦ ?_) (fun k hk ↦ ?_),
      List.toFinset_cons, Finset.sup_insert, max_assoc]
    · refine congrArg (rows resolution _) (funext fun k ↦ funext fun other ↦ ?_)
      by_cases heq : other = sc
      · subst heq
        simp [hout]
      · simp [heq]
    · rw [update_of_ne (ne_of_mem_of_not_mem hmem hout)]
      exact hzero other (List.mem_cons_of_mem sc hmem) k
    · rw [measured_eq_none hres (le_of_max_le_right hk), hnew k (le_of_max_le_left hk)]
      exact update_eq_self sc _

/-- Row `k`, counted from 0, is for `(k + 1) * RESOLUTION` threads. There is a row for each step
that a scenario has reached, and it has the value of each scenario at that number of threads, or 0
if the scenario did not reach it. -/
theorem measures_spec (hres : 0 < resolution) (readings : Fin n → List Reading) :
    (measures resolution readings).length =
        Finset.univ.sup (fun sc ↦ (readings sc).length / resolution) ∧
      ∀ (k : ℕ) (mes : Mes n), (measures resolution readings)[k]? = some mes →
        mes.number = (k + 1) * resolution ∧
          ∀ sc, mes.data sc = (measured (readings sc) ((k + 1) * resolution - 1)).getD 0 := by
  have hrows := foldl_addSeries hres readings (List.finRange n) 0 (fun _ _ ↦ 0)
    (List.nodup_finRange n) (fun _ _ _ ↦ rfl) (fun _ _ ↦ rfl)
  have hmeasures : measures resolution readings =
      rows resolution (Finset.univ.sup fun sc ↦ (readings sc).length / resolution)
        fun k sc ↦ (measured (readings sc) ((k + 1) * resolution - 1)).getD 0 := by
    simpa [measures, rows] using hrows
  refine ⟨?_, fun k mes hget ↦ ?_⟩
  · rw [hmeasures, rows, List.length_map, List.length_range]
  · rw [hmeasures, getElem?_rows] at hget
    split_ifs at hget
    cases hget
    exact ⟨by push_cast; rfl, fun _ ↦ rfl⟩

/-- Two scenarios, one with ten threads and one with four. -/
theorem measures_spec_twoScenarios :
    (measures 5 fun sc : Fin 2 ↦ List.replicate (if sc = 0 then 10 else 4)
      (⟨⟨0, 0⟩, ⟨1, 0⟩⟩ : Reading)).length = 2 :=
  (measures_spec (by decide) _).1.trans (by decide)

end OpenPosix.Threads.Measures

import Mathlib.Algebra.Order.Floor.Ring
import Mathlib.Tactic.Ring

/-!
# Truncation toward zero

`truncate` is the conversion of a number to an integer that drops the fraction. It is an odd
function, so that its facts are proved for numbers that are not negative and carried over.
`truncate_mul` compares the multiple of a truncated number with the truncated multiple.
-/

namespace OpenPosix.Numeric

variable {K : Type*} [Field K] [LinearOrder K] [FloorRing K]

/-- The integer part of a number, toward zero. -/
def truncate (u : K) : ℤ := if 0 ≤ u then ⌊u⌋ else ⌈u⌉

theorem truncate_of_nonneg {u : K} (h : 0 ≤ u) : truncate u = ⌊u⌋ := if_pos h

variable [IsStrictOrderedRing K]

theorem truncate_neg (u : K) : truncate (-u) = -truncate u := by
  unfold truncate
  rcases lt_trichotomy u 0 with hneg | rfl | hpos
  · rw [if_pos (by linarith), if_neg (by linarith), Int.floor_neg]
  · simp
  · rw [if_neg (by linarith), if_pos hpos.le, Int.ceil_neg]

/-- A number loses less than a half of itself if it is a half of an integer other than 1 and −1. -/
theorem abs_le_truncate {u : K} {j : ℤ} (hj : 2 * u = j) (hone : j ≠ 1) (hneg : j ≠ -1) :
    |u| ≤ 3 / 2 * |(truncate u : K)| := by
  -- Both sides are even functions of `u`.
  wlog hu : 0 ≤ u generalizing u j with hsym
  · have hbound := hsym (u := -u) (j := -j) (by push_cast; linarith) (by omega) (by omega)
      (by linarith)
    simpa [truncate_neg] using hbound
  have hj0 : 0 ≤ j := by
    have hcast : (0 : K) ≤ j := by linarith
    exact_mod_cast hcast
  have hfloor : ⌊u⌋ = j / 2 := by
    rw [Int.floor_eq_iff]
    have hdiv : 2 * (j / 2) ≤ j ∧ j < 2 * (j / 2) + 2 := by omega
    have hlower : (2 : K) * (j / 2 : ℤ) ≤ j := by exact_mod_cast hdiv.1
    have hupper : (j : K) < 2 * (j / 2 : ℤ) + 2 := by exact_mod_cast hdiv.2
    constructor <;> linarith
  have hbound : j ≤ 3 * (j / 2) := by omega
  have hcast : (j : K) ≤ 3 * (j / 2 : ℤ) := by exact_mod_cast hbound
  have hnonneg : (0 : K) ≤ (j / 2 : ℤ) := by exact_mod_cast (by omega : 0 ≤ j / 2)
  rw [truncate_of_nonneg hu, hfloor, abs_of_nonneg hu, abs_of_nonneg hnonneg]
  linarith

/-- An integer multiple of a truncated number lies between zero and the truncated multiple, and the
latter is at most the multiple. -/
theorem truncate_mul (a : ℤ) (u : K) :
    a * truncate u * (a * truncate u) ≤ a * truncate u * truncate (a * u) ∧
      |(truncate (a * u) : K)| ≤ |(a : K) * u| ∧ 0 ≤ a * truncate u * truncate (a * u) := by
  wlog hu : 0 ≤ u generalizing u with hsym
  · have hneg := hsym (-u) (by linarith)
    rw [mul_neg, truncate_neg, truncate_neg] at hneg
    simpa using hneg
  wlog ha : 0 ≤ a generalizing a with hsym
  · have hneg := hsym (-a) (by linarith)
    simp only [Int.cast_neg, neg_mul, truncate_neg] at hneg
    simpa using hneg
  have hacast : (0 : K) ≤ a := by exact_mod_cast ha
  have hau : 0 ≤ (a : K) * u := mul_nonneg hacast hu
  rw [truncate_of_nonneg hu, truncate_of_nonneg hau]
  have hfloor : 0 ≤ ⌊u⌋ := Int.floor_nonneg.mpr hu
  have hmul : a * ⌊u⌋ ≤ ⌊(a : K) * u⌋ := by
    rw [Int.le_floor]
    push_cast
    exact mul_le_mul_of_nonneg_left (Int.floor_le u) hacast
  have hprod : 0 ≤ a * ⌊u⌋ := mul_nonneg ha hfloor
  refine ⟨mul_le_mul_of_nonneg_left hmul hprod, ?_, mul_nonneg hprod (hprod.trans hmul)⟩
  have hcast : (0 : K) ≤ ⌊(a : K) * u⌋ := by exact_mod_cast hprod.trans hmul
  rw [abs_of_nonneg hcast, abs_of_nonneg hau]
  exact Int.floor_le _

/-- Under the conditions of `abs_le_truncate`, the truncated multiple exceeds the multiple of the
truncated number by a half of it at most. -/
theorem truncate_mul_sq_le (a : ℤ) {u : K} {j : ℤ} (hj : 2 * u = j) (hone : j ≠ 1) (hneg : j ≠ -1) :
    (truncate (a * u) : K) * truncate (a * u) ≤ 3 / 2 * (a * truncate u * truncate (a * u)) := by
  obtain ⟨-, hle, hnonneg⟩ := truncate_mul a u
  have hcast : (0 : K) ≤ a * truncate u * truncate (a * u) := by exact_mod_cast hnonneg
  have hbound : |(truncate (a * u) : K)| ≤ 3 / 2 * (|(a : K)| * |(truncate u : K)|) := by
    calc |(truncate (a * u) : K)| ≤ |(a : K)| * |u| := by rwa [← abs_mul]
      _ ≤ |(a : K)| * (3 / 2 * |(truncate u : K)|) :=
        mul_le_mul_of_nonneg_left (abs_le_truncate hj hone hneg) (abs_nonneg _)
      _ = 3 / 2 * (|(a : K)| * |(truncate u : K)|) := by ring
  calc (truncate (a * u) : K) * truncate (a * u)
      = |(truncate (a * u) : K)| * |(truncate (a * u) : K)| := (abs_mul_abs_self _).symm
    _ ≤ 3 / 2 * (|(a : K)| * |(truncate u : K)|) * |(truncate (a * u) : K)| :=
      mul_le_mul_of_nonneg_right hbound (abs_nonneg _)
    _ = 3 / 2 * |(a : K) * truncate u * truncate (a * u)| := by
      rw [abs_mul, abs_mul]
      ring
    _ = 3 / 2 * (a * truncate u * truncate (a * u)) := by rw [abs_of_nonneg hcast]

end OpenPosix.Numeric

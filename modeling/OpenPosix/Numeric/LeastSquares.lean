import Mathlib.Algebra.BigOperators.Ring.List
import Mathlib.Tactic.FieldSimp
import Mathlib.Tactic.Linarith
import Mathlib.Tactic.Positivity
import Mathlib.Tactic.Ring

/-!
# Least squares through the origin

Points are the elements of a list, with a coordinate `x` and a coordinate `y`, and `dot x y` is the
sum of the products of their coordinates. The line `y = a x` with the least error has the slope
`dot x y / dot x x`; `dot_residual` is its error. Programs compute such sums in a loop that carries
several of them at once, and `foldl_field` reads one of them off.
-/

namespace OpenPosix.Numeric

variable {Point : Type*}

section Loops

variable {State K : Type*} [AddMonoid K] {step : State → Point → State}

/-- Assumes: every round of a loop adds its term to one field of the state. The loop adds all terms
to it. -/
theorem foldl_field (field : State → K) (term : Point → K)
    (hstep : ∀ s p, field (step s p) = field s + term p) (s : State) (points : List Point) :
    field (points.foldl step s) = field s + (points.map term).sum := by
  induction points generalizing s with
  | nil => simp
  | cons p points ih => rw [List.foldl_cons, ih, hstep, List.map_cons, List.sum_cons, add_assoc]

theorem foldl_eq_sum (field : State → K) (term : Point → K) {s : State} (hstart : field s = 0)
    (hstep : ∀ s p, field (step s p) = field s + term p) (points : List Point) :
    field (points.foldl step s) = (points.map term).sum := by
  rw [foldl_field field term hstep, hstart, zero_add]

end Loops

section Dot

variable {K : Type*} [Field K]

/-- The sum of the products of two coordinates. -/
def dot (x y : Point → K) (points : List Point) : K := (points.map fun p ↦ x p * y p).sum

variable {x y : Point → K} {points : List Point}

theorem sum_mul_div_eq (c : K) : (points.map fun p ↦ x p * y p / c).sum = dot x y points / c := by
  simp only [dot, div_eq_mul_inv, List.sum_map_mul_right]

theorem dot_comm : dot x y points = dot y x points := by simp only [dot, mul_comm]

theorem dot_mul_left (a : K) : dot (fun p ↦ a * x p) y points = a * dot x y points := by
  simp only [dot, mul_assoc, List.sum_map_mul_left]

/-- The second coordinate is a multiple of the first one. -/
theorem dot_of_proportional {a : K} (h : ∀ p ∈ points, y p = a * x p) :
    dot x y points = a * dot x x points := by
  rw [dot, dot, ← List.sum_map_mul_left]
  refine congrArg List.sum (List.map_congr_left fun p hp ↦ ?_)
  rw [h p hp]
  ring

/-- The error of the line with slope `a`. -/
theorem dot_sub_mul (a : K) : dot (fun p ↦ y p - a * x p) (fun p ↦ y p - a * x p) points =
      dot y y points - 2 * a * dot x y points + a ^ 2 * dot x x points := by
  induction points with
  | nil => simp [dot]
  | cons p points ih =>
    simp only [dot, List.map_cons, List.sum_cons] at ih ⊢
    rw [ih]
    ring

/-- The error of the best line. -/
theorem dot_residual (hd : dot x x points ≠ 0) :
    dot (fun p ↦ y p - dot x y points / dot x x points * x p)
        (fun p ↦ y p - dot x y points / dot x x points * x p) points =
      dot y y points - dot x y points ^ 2 / dot x x points := by
  rw [dot_sub_mul]
  field_simp
  ring

end Dot

section Order

variable {K : Type*} [Field K] [LinearOrder K] [IsStrictOrderedRing K] {x y : Point → K}
  {points : List Point}

theorem dot_self_nonneg : 0 ≤ dot x x points := by
  refine List.sum_nonneg fun value hvalue ↦ ?_
  obtain ⟨p, -, rfl⟩ := List.mem_map.mp hvalue
  exact mul_self_nonneg (x p)

theorem dot_self_pos {p : Point} (hp : p ∈ points) (hne : x p ≠ 0) : 0 < dot x x points := by
  have hle : x p * x p ≤ dot x x points := by
    refine List.single_le_sum (fun value hvalue ↦ ?_) _ (List.mem_map_of_mem hp)
    obtain ⟨p, -, rfl⟩ := List.mem_map.mp hvalue
    exact mul_self_nonneg (x p)
  exact (mul_self_pos.mpr hne).trans_le hle

theorem sq_dot_le (hd : dot x x points ≠ 0) :
    dot x y points ^ 2 / dot x x points ≤ dot y y points := by
  have hresidual := dot_residual (y := y) hd
  have hnonneg : 0 ≤ dot (fun p ↦ y p - dot x y points / dot x x points * x p)
      (fun p ↦ y p - dot x y points / dot x x points * x p) points := dot_self_nonneg
  linarith

/-- Assumes: each `y` has the sign of `a x` and is at least as large. -/
theorem mul_dot_self_le {a : K} (h : ∀ p ∈ points, a * x p * (a * x p) ≤ a * x p * y p) :
    a ^ 2 * dot x x points ≤ a * dot x y points := by
  calc a ^ 2 * dot x x points = dot (fun p ↦ a * x p) (fun p ↦ a * x p) points := by
        rw [dot_mul_left, dot_comm (y := fun p ↦ a * x p), dot_mul_left]
        ring
    _ ≤ dot (fun p ↦ a * x p) y points := List.sum_le_sum h
    _ = a * dot x y points := dot_mul_left a

/-- Assumes: each `y` lies between `a x` and `k a x`. The product of the sums of squares is then at
most `k` times the square of `dot x y`. -/
theorem dot_mul_dot_le {a k : K} (ha : a ≠ 0)
    (hlower : ∀ p ∈ points, a * x p * (a * x p) ≤ a * x p * y p)
    (hupper : ∀ p ∈ points, y p * y p ≤ k * (a * x p * y p)) :
    dot x x points * dot y y points ≤ k * dot x y points ^ 2 := by
  have hd := mul_dot_self_le hlower
  have hy : dot y y points ≤ k * (a * dot x y points) := by
    rw [← dot_mul_left, dot, dot, ← List.sum_map_mul_left]
    exact List.sum_le_sum hupper
  have ha2 : 0 < a ^ 2 := by positivity
  refine le_of_mul_le_mul_left ?_ ha2
  calc a ^ 2 * (dot x x points * dot y y points)
      = a ^ 2 * dot x x points * dot y y points := by ring
    _ ≤ a * dot x y points * dot y y points :=
      mul_le_mul_of_nonneg_right hd dot_self_nonneg
    _ ≤ a * dot x y points * (k * (a * dot x y points)) := by
      refine mul_le_mul_of_nonneg_left hy (le_trans ?_ hd)
      exact mul_nonneg ha2.le dot_self_nonneg
    _ = a ^ 2 * (k * dot x y points ^ 2) := by ring

end Order

end OpenPosix.Numeric

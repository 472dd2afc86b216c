import Mathlib.Logic.Function.Basic
import Mathlib.Data.Nat.Init

/-!
# Lists that are linked in both directions

The cells of a list have the numbers from 0 on, in the order in which they were put at its end, and
a pointer is the number of a cell or `none`. `chain cell b` is the memory of the list that ends with
cell `b`, where `cell k next prev` is what cell `k` holds, given its links. A cell is put at the
end, or taken from it, with two assignments (`chain_succ`, `chain_pred`).
-/

namespace OpenPosix.Memory

open Function

abbrev Pointer := Option ℕ

def prevOf : ℕ → Pointer
  | 0 => none
  | k + 1 => some k

@[simp] theorem prevOf_succ (k : ℕ) : prevOf (k + 1) = some k := rfl

variable {α : Type*} (cell : ℕ → Pointer → Pointer → α) (b : ℕ)

def chain (k : ℕ) : Option α :=
  if k ≤ b then some (cell k (if k < b then some (k + 1) else none) (prevOf k)) else none

theorem chain_of_lt {k : ℕ} (h : k < b) :
    chain cell b k = some (cell k (some (k + 1)) (prevOf k)) := by
  rw [chain, if_pos (Nat.le_of_lt h), if_pos h]

theorem chain_self : chain cell b b = some (cell b none (prevOf b)) := by simp [chain]

theorem chain_of_gt {k : ℕ} (h : b < k) : chain cell b k = none := if_neg (Nat.not_le.mpr h)

/-- Away from the end the cells do not depend on where the list ends. -/
theorem chain_congr {k : ℕ} (hlast : k ≠ b + 1) (hend : k ≠ b) :
    chain cell b k = chain cell (b + 1) k := by
  rcases Nat.lt_or_ge k b with hlt | hge
  · rw [chain_of_lt cell b hlt, chain_of_lt cell (b + 1) (by omega)]
  · rw [chain_of_gt cell b (by omega), chain_of_gt cell (b + 1) (by omega)]

theorem chain_succ : update (update (chain cell b) (b + 1) (some (cell (b + 1) none (some b)))) b
      (some (cell b (some (b + 1)) (prevOf b))) = chain cell (b + 1) := by
  refine update_eq_iff.mpr ⟨(chain_of_lt cell (b + 1) b.lt_succ_self).symm, fun k hk ↦ ?_⟩
  by_cases heq : k = b + 1
  · rw [heq, update_self, chain_self, prevOf_succ]
  · rw [update_of_ne heq]
    exact chain_congr cell b heq hk

theorem chain_pred : update (update (chain cell (b + 1)) (b + 1) none) b
      (some (cell b none (prevOf b))) = chain cell b := by
  refine update_eq_iff.mpr ⟨(chain_self cell b).symm, fun k hk ↦ ?_⟩
  by_cases heq : k = b + 1
  · rw [heq, update_self, chain_of_gt cell b b.lt_succ_self]
  · rw [update_of_ne heq]
    exact (chain_congr cell b heq hk).symm

end OpenPosix.Memory

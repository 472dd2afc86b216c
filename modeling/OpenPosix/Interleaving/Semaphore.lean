import Mathlib.Data.Option.Basic
import Mathlib.Tactic.Common

/-!
# Counting semaphores

The value of a semaphore is a natural number. `semWait` takes one unit and has no result while the
value is zero, which is the state in which the caller is blocked; `semPost` gives one unit back.
Both are atomic and succeed, so `sem_wait` never returns with an error and `sem_post` never
overflows.
-/

namespace OpenPosix.Interleaving

/-- `sem_wait`: the value after one unit is taken, or no result while the caller is blocked. -/
def semWait : ℕ → Option ℕ
  | 0 => none
  | value + 1 => some value

/-- `sem_post`: the value after one unit is given back. -/
def semPost (value : ℕ) : ℕ := value + 1

@[simp] theorem semWait_eq_some_iff {value rest : ℕ} :
    semWait value = some rest ↔ value = rest + 1 := by
  cases value <;> simp [semWait]

theorem map_semWait_eq_some_iff {α : Type*} {f : ℕ → α} {value : ℕ} {result : α} :
    (semWait value).map f = some result ↔ ∃ rest, value = rest + 1 ∧ f rest = result := by
  simp

@[simp] theorem isSome_semWait_iff {value : ℕ} : (semWait value).isSome ↔ 0 < value := by
  cases value <;> simp [semWait]

@[simp] theorem semPost_eq (value : ℕ) : semPost value = value + 1 := rfl

end OpenPosix.Interleaving

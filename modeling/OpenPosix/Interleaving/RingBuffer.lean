import Mathlib.Data.Fin.Basic
import Mathlib.Data.Nat.ModEq

/-!
# Circular arrays

A circular array of `size` cells holds the window of a sequence that starts at some index: item `k`
of the sequence lies in cell `k mod size` (`slotOf`, `Stores`). Writing the next item keeps the
window as long as it has at most `size` items (`Stores.put`), because two indices less than `size`
apart have different cells (`add_size_le_of_slotOf_eq`); dropping old items keeps it trivially
(`Stores.drop`).
-/

namespace OpenPosix.Interleaving

variable {size : ℕ} [NeZero size] {Item : Type*}

/-- The cell of item `k`. -/
def slotOf (size : ℕ) [NeZero size] (k : ℕ) : Fin size :=
  ⟨k % size, Nat.mod_lt k (Nat.pos_of_ne_zero (NeZero.ne size))⟩

/-- The cell after a cell. -/
def nextSlot (slot : Fin size) : Fin size := slotOf size (slot.val + 1)

@[simp] theorem slotOf_val (slot : Fin size) : slotOf size slot.val = slot :=
  Fin.ext (Nat.mod_eq_of_lt slot.isLt)

/-- The cell after the cell of an item is the cell of the next item. -/
theorem nextSlot_slotOf (k : ℕ) : nextSlot (slotOf size k) = slotOf size (k + 1) := by
  apply Fin.ext
  simp only [nextSlot, slotOf, Nat.mod_add_mod]

/-- Two items in one cell are at least `size` apart. -/
theorem add_size_le_of_slotOf_eq {k l : ℕ} (hlt : k < l) (h : slotOf size k = slotOf size l) :
    k + size ≤ l := by
  have hmod : k % size = l % size := congrArg Fin.val h
  have hdvd : size ∣ l - k := (Nat.modEq_iff_dvd' hlt.le).mp hmod
  have hle := Nat.le_of_dvd (by omega) hdvd
  omega

/-- The cells hold the items of a sequence from index `first` on. -/
def Stores (cells : Fin size → Item) (items : List Item) (first : ℕ) : Prop :=
  ∀ k, first ≤ k → ∀ h : k < items.length, cells (slotOf size k) = items[k]

theorem stores_nil (cells : Fin size → Item) : Stores cells [] 0 := by
  intro k _ hk
  simp at hk

theorem Stores.drop {cells : Fin size → Item} {items : List Item} {first first' : ℕ}
    (h : Stores cells items first) (hle : first ≤ first') : Stores cells items first' :=
  fun k hk hlt ↦ h k (hle.trans hk) hlt

/-- The next item goes to its cell. Assumes: the window has room for it. -/
theorem Stores.put {cells : Fin size → Item} {items : List Item} {first : ℕ}
    (h : Stores cells items first) (hroom : items.length < first + size) (item : Item) :
    Stores (Function.update cells (slotOf size items.length) item) (items ++ [item]) first := by
  intro k hk hlt
  by_cases hlast : k = items.length
  · subst hlast
    simp
  · have hold : k < items.length := by
      rw [List.length_append, List.length_singleton] at hlt
      omega
    have hne : slotOf size k ≠ slotOf size items.length := by
      intro heq
      have hfar := add_size_le_of_slotOf_eq hold heq
      omega
    rw [Function.update_of_ne hne, List.getElem_append_left hold]
    exact h k hk hold

end OpenPosix.Interleaving

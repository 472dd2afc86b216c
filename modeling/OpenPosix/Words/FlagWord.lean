import Mathlib.Algebra.Group.Nat.Defs

/-!
# Words of flags with a counter in the low bits

A word whose high bits are flags and whose low bits are a counter. Setting a flag or counting up
changes no other flag: `isSet_or_flag`, `isSet_countUp`.
-/

namespace OpenPosix.Words

variable {w : ℕ}

/-- `1 << bit`. -/
def flag (bit : ℕ) : BitVec w := 1#w <<< bit

/-- `(word & (1 << bit)) != 0`. -/
def isSet (word : BitVec w) (bit : ℕ) : Bool := (word &&& flag bit) != 0#w

/-- `(1 << bits) - 1`. -/
def maskCounter (bits : ℕ) : BitVec w := flag bits - 1#w

/-- The counter in the low bits is incremented, and wraps around. -/
def countUp (bits : ℕ) (word : BitVec w) : BitVec w :=
  let cnt := ((word &&& maskCounter bits) + 1#w) &&& maskCounter bits
  (word &&& ~~~maskCounter bits) + cnt

theorem getLsbD_flag {bit i : ℕ} (hbit : bit < w) :
    (flag bit : BitVec w).getLsbD i = decide (bit = i) := by
  rw [flag, ← BitVec.twoPow_eq, BitVec.getLsbD_twoPow]
  simp [hbit]

theorem toNat_flag {bit : ℕ} (hbit : bit < w) : (flag bit : BitVec w).toNat = 2 ^ bit := by
  rw [flag, ← BitVec.twoPow_eq, BitVec.toNat_twoPow]
  exact Nat.mod_eq_of_lt (Nat.pow_lt_pow_right Nat.one_lt_two hbit)

theorem flag_ne_zero {bit : ℕ} (hbit : bit < w) : (flag bit : BitVec w) ≠ 0#w := by
  rw [← BitVec.toNat_ne_iff_ne, toNat_flag hbit, BitVec.toNat_zero]
  exact Nat.ne_of_gt (Nat.two_pow_pos bit)

theorem and_flag (word : BitVec w) (bit : ℕ) :
    word &&& flag bit = if word.getLsbD bit then flag bit else 0#w := by
  rw [flag, ← BitVec.twoPow_eq, BitVec.and_twoPow]

theorem isSet_eq_getLsbD (word : BitVec w) {bit : ℕ} (hbit : bit < w) :
    isSet word bit = word.getLsbD bit := by
  rw [isSet, and_flag]
  cases word.getLsbD bit with
  | true => exact bne_iff_ne.mpr (flag_ne_zero hbit)
  | false => simp

/-- Two words agree in a flag. -/
theorem and_flag_eq_iff (word word' : BitVec w) {bit : ℕ} (hbit : bit < w) :
    word &&& flag bit = word' &&& flag bit ↔ isSet word bit = isSet word' bit := by
  have hne : (flag bit : BitVec w) ≠ 0#w := flag_ne_zero hbit
  rw [and_flag, and_flag, isSet_eq_getLsbD _ hbit, isSet_eq_getLsbD _ hbit]
  cases word.getLsbD bit <;> cases word'.getLsbD bit <;> simp [hne, hne.symm]

theorem isSet_or_flag (word : BitVec w) {bit bit' : ℕ} (hbit : bit < w) (hbit' : bit' < w) :
    isSet (word ||| flag bit) bit' = (isSet word bit' || decide (bit = bit')) := by
  rw [isSet_eq_getLsbD _ hbit', isSet_eq_getLsbD _ hbit', BitVec.getLsbD_or, getLsbD_flag hbit]

theorem isSet_zero (bit : ℕ) : isSet (0#w) bit = false := by
  simp [isSet]

theorem getLsbD_maskCounter {bits i : ℕ} (hbits : bits < w) :
    (maskCounter bits : BitVec w).getLsbD i = decide (i < bits) := by
  have htoNat : (maskCounter bits : BitVec w).toNat = 2 ^ bits - 1 := by
    have hone : (1#w).toNat = 1 := by
      exact Nat.mod_eq_of_lt (Nat.one_lt_two_pow (by omega))
    have hle : 1#w ≤ flag bits := by
      rw [BitVec.le_def, toNat_flag hbits, hone]
      exact Nat.one_le_two_pow
    rw [maskCounter, BitVec.toNat_sub_of_le hle, toNat_flag hbits, hone]
  rw [← BitVec.testBit_toNat, htoNat, Nat.testBit_two_pow_sub_one]

/-- The flags are above the counter. -/
theorem isSet_countUp (word : BitVec w) {bits bit : ℕ} (hbits : bits ≤ bit) (hbit : bit < w) :
    isSet (countUp bits word) bit = isSet word bit := by
  have hmask : (maskCounter bits : BitVec w).getLsbD bit = false := by
    rw [getLsbD_maskCounter (by omega)]
    simp [hbits]
  have hdisjoint : (word &&& ~~~maskCounter bits) &&&
      (((word &&& maskCounter bits) + 1#w) &&& maskCounter bits) = 0#w := by
    ext i hi
    simp only [BitVec.getElem_and, BitVec.getElem_not, BitVec.getElem_zero]
    cases (maskCounter bits : BitVec w)[i] <;> simp
  rw [isSet_eq_getLsbD _ hbit, isSet_eq_getLsbD _ hbit, countUp,
    BitVec.add_eq_or_of_and_eq_zero _ _ hdisjoint]
  simp only [BitVec.getLsbD_or, BitVec.getLsbD_and, BitVec.getLsbD_not, hmask, hbit]
  simp

end OpenPosix.Words

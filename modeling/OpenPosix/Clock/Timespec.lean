import Mathlib.Algebra.Group.Int.Defs
import Mathlib.Algebra.Group.Nat.Defs
import Mathlib.Data.Int.Order.Basic
import Mathlib.Tactic.Common

/-!
# Times in seconds and nanoseconds

A time is a number of seconds and a number of nanoseconds below one second. `Timespec.toNs` is the
number of nanoseconds it stands for. The difference of two normalized times is taken field by field,
with a borrow from the seconds when the nanoseconds get negative; `ediv_toNs_sub` and
`emod_toNs_sub` say that this gives the seconds and the nanoseconds of the exact difference.

`toInt` is the conversion to a signed integer of 32 bits, which wraps around.
-/

namespace OpenPosix.Clock

/-- A time, with its fields as the system has them. -/
structure Timespec where
  tvSec : ℤ
  tvNsec : ℤ
  deriving DecidableEq, Repr

/-- The nanoseconds are those of less than one second. -/
structure Timespec.Normalized (t : Timespec) : Prop where
  nonneg : 0 ≤ t.tvNsec
  lt : t.tvNsec < 1000000000

def Timespec.toNs (t : Timespec) : ℤ := t.tvSec * 1000000000 + t.tvNsec

/-- The normalized time of a number of nanoseconds. -/
def ofNs (x : ℤ) : Timespec := ⟨x / 1000000000, x % 1000000000⟩

theorem normalized_ofNs (x : ℤ) : (ofNs x).Normalized :=
  ⟨Int.emod_nonneg x (by decide), Int.emod_lt_of_pos x (by decide)⟩

theorem toNs_ofNs (x : ℤ) : (ofNs x).toNs = x := by
  simp only [Timespec.toNs, ofNs]
  omega

/-- The conversion to `int`. -/
def toInt (x : ℤ) : ℤ := x.bmod (2 ^ 32)

/-- Assumes: the number fits. -/
theorem toInt_eq_self {x : ℤ} (hmin : -2 ^ 31 ≤ x) (hmax : x < 2 ^ 31) : toInt x = x :=
  Int.bmod_eq_of_le (by simpa using hmin) (by simpa using hmax)

@[simp] theorem toInt_toInt_sub (x y : ℤ) : toInt (toInt x - y) = toInt (x - y) :=
  Int.bmod_sub_bmod

variable {before after : Timespec}

/-- Assumes: two normalized times. The seconds of their difference. -/
theorem ediv_toNs_sub (hbefore : before.Normalized) (hafter : after.Normalized) :
    (after.toNs - before.toNs) / 1000000000 =
      if after.tvNsec - before.tvNsec < 0 then after.tvSec - before.tvSec - 1
      else after.tvSec - before.tvSec := by
  obtain ⟨hbefore₀, hbefore₁⟩ := hbefore
  obtain ⟨hafter₀, hafter₁⟩ := hafter
  unfold Timespec.toNs
  split_ifs <;> omega

/-- Assumes: two normalized times. The nanoseconds of their difference. -/
theorem emod_toNs_sub (hbefore : before.Normalized) (hafter : after.Normalized) :
    (after.toNs - before.toNs) % 1000000000 =
      if after.tvNsec - before.tvNsec < 0 then after.tvNsec - before.tvNsec + 1000000000
      else after.tvNsec - before.tvNsec := by
  obtain ⟨hbefore₀, hbefore₁⟩ := hbefore
  obtain ⟨hafter₀, hafter₁⟩ := hafter
  unfold Timespec.toNs
  split_ifs <;> omega

end OpenPosix.Clock

import OpenPosix.Clock.Timespec

/-!
# The clock set back by `pthread_cond_init/1-2.c` and `2-2.c`

`conformance/interfaces/pthread_cond_init/1-2.c` and `2-2.c` set the default clock forward and, at
the end, back. Where there is a monotonic clock they read both clocks at the start and keep the
decay between them, as a direction `sens` and a difference `diff`; at the end they read the
monotonic clock again, apply the decay to it and hand the outcome to `clock_settime`. The two
programs have the same code for it.

`Decay.toNs` is the signed number of nanoseconds that a decay stands for. `toNs_save` and
`toNs_restore` say that saving and restoring are exact in it, and `restored_spec` puts them
together: the default clock is set to where it would be had it not been touched.

The direction is a `char`, which is taken as signed. Where it is not, the direction −1 reads as 255
and the difference is added in place of being removed.
-/

namespace OpenPosix.CondVars.ClockDecay

open Clock

/-- What is kept of the two clocks. -/
structure Decay where
  sens : ℤ
  diff : Timespec
  deriving DecidableEq, Repr

/-- The decay between the default clock `ts` and the monotonic clock `diff`. -/
def save (diff ts : Timespec) : Decay :=
  if diff.tvSec > ts.tvSec then
    if diff.tvNsec < ts.tvNsec then
      ⟨-1, diff.tvSec - (1 + ts.tvSec), diff.tvNsec + (1000000000 - ts.tvNsec)⟩
    else
      ⟨-1, diff.tvSec - ts.tvSec, diff.tvNsec - ts.tvNsec⟩
  else if diff.tvSec = ts.tvSec then
    if diff.tvNsec > ts.tvNsec then
      ⟨-1, 0, diff.tvNsec - ts.tvNsec⟩
    else
      ⟨1, 0, ts.tvNsec - diff.tvNsec⟩
  else if ts.tvNsec < diff.tvNsec then
    ⟨1, ts.tvSec - (1 + diff.tvSec), 1000000000 + ts.tvNsec - diff.tvNsec⟩
  else
    ⟨1, ts.tvSec - diff.tvSec, ts.tvNsec - diff.tvNsec⟩

/-- The decay applied to the monotonic clock `ts`. -/
def restore (decay : Decay) (ts : Timespec) : Timespec :=
  if decay.sens > 0 then
    let tvSec := ts.tvSec + decay.diff.tvSec
    let tvNsec := ts.tvNsec + decay.diff.tvNsec
    if tvNsec ≥ 1000000000 then ⟨tvSec + 1, tvNsec - 1000000000⟩ else ⟨tvSec, tvNsec⟩
  else
    let tvSec := ts.tvSec - decay.diff.tvSec
    if ts.tvNsec < decay.diff.tvNsec then
      ⟨tvSec - 1, ts.tvNsec + (1000000000 - decay.diff.tvNsec)⟩
    else
      ⟨tvSec, ts.tvNsec - decay.diff.tvNsec⟩

/-- The time that the default clock is set to at the end: from the monotonic clock and the default
clock at the start, and the monotonic clock at the end. -/
def restored (monotonic default monotonicEnd : Timespec) : Timespec :=
  restore (save monotonic default) monotonicEnd

/-! ### The number of nanoseconds of a decay -/

/-- How much the default clock is ahead of the monotonic one. -/
def Decay.toNs (decay : Decay) : ℤ :=
  if decay.sens > 0 then decay.diff.toNs else -decay.diff.toNs

variable {diff ts monotonic default monotonicEnd : Timespec} {decay : Decay}

theorem toNs_save : (save diff ts).toNs = ts.toNs - diff.toNs := by
  unfold save Decay.toNs
  split_ifs <;> dsimp only [Timespec.toNs] at * <;> omega

theorem toNs_restore : (restore decay ts).toNs = ts.toNs + decay.toNs := by
  unfold restore Decay.toNs
  dsimp only
  split_ifs <;> dsimp only [Timespec.toNs] <;> omega

/-- Assumes: normalized readings. -/
theorem normalized_save (hdiff : diff.Normalized) (hts : ts.Normalized) :
    (save diff ts).diff.Normalized := by
  obtain ⟨hdiff₀, hdiff₁⟩ := hdiff
  obtain ⟨hts₀, hts₁⟩ := hts
  unfold save
  split_ifs <;> constructor <;> dsimp only <;> omega

theorem tvSec_save_nonneg : 0 ≤ (save diff ts).diff.tvSec := by
  unfold save
  split_ifs <;> dsimp only <;> omega

/-- Assumes: a normalized reading and a normalized difference. -/
theorem normalized_restore (hdecay : decay.diff.Normalized) (hts : ts.Normalized) :
    (restore decay ts).Normalized := by
  obtain ⟨hdecay₀, hdecay₁⟩ := hdecay
  obtain ⟨hts₀, hts₁⟩ := hts
  unfold restore
  dsimp only
  split_ifs <;> constructor <;> dsimp only <;> omega

/-! ### The clock at the end -/

/-- Assumes: normalized readings. The saved difference is normalized and not negative, and the
default clock is set to a normalized time: the one it had at the start, later by the time that
passed on the monotonic clock. -/
theorem restored_spec (hmonotonic : monotonic.Normalized) (hdefault : default.Normalized)
    (hend : monotonicEnd.Normalized) :
    (save monotonic default).diff.Normalized ∧ 0 ≤ (save monotonic default).diff.tvSec ∧
      (restored monotonic default monotonicEnd).Normalized ∧
      (restored monotonic default monotonicEnd).toNs =
        default.toNs + (monotonicEnd.toNs - monotonic.toNs) := by
  have hsave := normalized_save hmonotonic hdefault
  refine ⟨hsave, tvSec_save_nonneg, normalized_restore hsave hend, ?_⟩
  calc (restored monotonic default monotonicEnd).toNs
      = monotonicEnd.toNs + (save monotonic default).toNs := toNs_restore
    _ = monotonicEnd.toNs + (default.toNs - monotonic.toNs) := by rw [toNs_save]
    _ = default.toNs + (monotonicEnd.toNs - monotonic.toNs) := by omega

/-- The default clock is ahead by a second less than its seconds say, and the sum of the
nanoseconds passes a second. -/
theorem restored_spec_carry :
    restored ⟨100, 900000000⟩ ⟨1000, 400000000⟩ ⟨160, 700000000⟩ = ⟨1060, 200000000⟩ ∧
      (restored ⟨100, 900000000⟩ ⟨1000, 400000000⟩ ⟨160, 700000000⟩).toNs =
        1000400000000 + (160700000000 - 100900000000) :=
  ⟨by decide, (restored_spec ⟨by decide, by decide⟩ ⟨by decide, by decide⟩
    ⟨by decide, by decide⟩).2.2.2⟩

end OpenPosix.CondVars.ClockDecay

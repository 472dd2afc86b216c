import OpenPosix.Verdicts.SleepIntervals

/-!
# The requests of `nanosleep/10000-1.c`

`conformance/interfaces/nanosleep/10000-1.c`. The test calls `nanosleep` for a list of valid
requests and for a list of invalid ones. A valid request should return 0 and should not sleep more
than `OKSECERR` whole seconds longer than it was asked to; an invalid one should return -1 and set
`errno` to `EINVAL`. Two of the three violations set `failure`. A request that sleeps too long is
reported in a line that starts with `FAIL`, and `failure` keeps its value there.

`fail_mem_output_iff` says which requests get that line, and `verdict_correct_iff` when the verdict
is right all the same: some other violation is found.
-/

namespace OpenPosix.Verdicts.SleepInputs

open Clock SleepIntervals

def okSecErr : ℤ := 1

def einval : ℤ := 22

/-- A round of the first loop: the request, the readings of the clock, if there are any, and the
result of `nanosleep`. -/
structure ValidRound where
  tvSec : ℤ
  tvNsec : ℤ
  tsbefore : Option Timespec
  nanosleep : ℤ
  tsafter : Option Timespec
  deriving DecidableEq, Repr

/-- A round of the second loop: the request, the result of `nanosleep`, and `errno`. -/
structure InvalidRound where
  tvSec : ℤ
  tvNsec : ℤ
  nanosleep : ℤ
  errno : ℤ
  deriving DecidableEq, Repr

/-- The lines of the output, with the numbers in them. -/
inductive Line
  /-- `sleep %d sec %d nsec` -/
  | sleep (sec nsec : ℤ)
  /-- `FAIL - slept %ds%dns >> %ds%dns` -/
  | fail (slepts sleptns sec nsec : ℤ)
  /-- `PASS - slept %ds%dns ~= %ds%dns` -/
  | pass (slepts sleptns sec nsec : ℤ)
  /-- `nanosleep() did not return 0 on success` -/
  | notZero
  /-- `errno != EINVAL` -/
  | notEinval
  /-- `nanosleep() did not return -1 on failure` -/
  | notMinusOne
  /-- `At least one test FAILED` -/
  | failed
  /-- `All tests PASSED` -/
  | passed
  deriving DecidableEq, Repr

/-- What the loops keep: `failure`, and the lines written so far. -/
structure Vars where
  failure : Bool
  output : List Line
  deriving DecidableEq, Repr

@[simp] def Vars.print (vars : Vars) (line : Line) : Vars :=
  { vars with output := vars.output ++ [line] }

@[simp] def Vars.fail (vars : Vars) : Vars := { vars with failure := true }

/-- A round of the first loop, or what `main` returns and has written. -/
def validRound (vars : Vars) (r : ValidRound) : Except (ℕ × List Line) Vars :=
  let vars := vars.print (.sleep (toInt r.tvSec) (toInt r.tvNsec))
  match r.tsbefore with
  | none => .error (ptsUnresolved, vars.output)
  | some tsbefore =>
    if r.nanosleep = 0 then
      match r.tsafter with
      | none => .error (ptsUnresolved, vars.output)
      | some tsafter =>
        let (slepts, sleptns) := slept tsbefore tsafter
        if slepts - r.tvSec > okSecErr then
          .ok (vars.print (.fail slepts sleptns (toInt r.tvSec) (toInt r.tvNsec)))
        else
          .ok (vars.print (.pass slepts sleptns (toInt r.tvSec) (toInt r.tvNsec)))
    else
      .ok (vars.print .notZero).fail

def invalidRound (vars : Vars) (r : InvalidRound) : Vars :=
  let vars := vars.print (.sleep (toInt r.tvSec) (toInt r.tvNsec))
  if r.nanosleep = -1 then
    if einval ≠ r.errno then (vars.print .notEinval).fail else vars
  else
    (vars.print .notMinusOne).fail

/-- What `main` returns, and what it has written. -/
def main (valid : List ValidRound) (invalid : List InvalidRound) : ℕ × List Line :=
  match valid.foldlM validRound ⟨false, []⟩ with
  | .error result => result
  | .ok vars =>
    let vars := invalid.foldl invalidRound vars
    if vars.failure then (ptsFail, (vars.print .failed).output)
    else (ptsPass, (vars.print .passed).output)

/-! ### Runs in which the clock can be read -/

/-- A valid request whose readings succeed. The second one is made when `nanosleep` returns 0. -/
structure Call where
  tvSec : ℤ
  tvNsec : ℤ
  tsbefore : Timespec
  nanosleep : ℤ
  tsafter : Timespec
  deriving DecidableEq, Repr

@[simp] def Call.round (call : Call) : ValidRound :=
  ⟨call.tvSec, call.tvNsec, some call.tsbefore, call.nanosleep, some call.tsafter⟩

@[simp] def Call.readings (call : Call) : List Timespec :=
  if call.nanosleep = 0 then [call.tsbefore, call.tsafter] else [call.tsbefore]

/-- The whole seconds between the two readings. -/
def Call.elapsed (call : Call) : ℤ := (call.tsafter.toNs - call.tsbefore.toNs) / 1000000000

/-- The call succeeds, and sleeps more than `OKSECERR` seconds too long. -/
def Call.Overslept (call : Call) : Prop :=
  call.nanosleep = 0 ∧ call.elapsed - call.tvSec > okSecErr

instance (call : Call) : Decidable call.Overslept := inferInstanceAs (Decidable (_ ∧ _))

def InvalidRound.Refused (r : InvalidRound) : Prop := r.nanosleep = -1 ∧ r.errno = einval

instance (r : InvalidRound) : Decidable r.Refused := inferInstanceAs (Decidable (_ ∧ _))

/-- A run of the test: the readings are normalized, the clock does not go back, and the seconds of
no sleep exceed an `int`. -/
structure Run where
  valid : List Call
  invalid : List InvalidRound
  normalized : ∀ reading ∈ valid.flatMap Call.readings, reading.Normalized
  forward : (valid.flatMap Call.readings).Pairwise fun first second ↦ first.toNs ≤ second.toNs
  fits : ∀ call ∈ valid, call.nanosleep = 0 → call.elapsed < 2 ^ 31

def Run.code (run : Run) : ℕ := (main (run.valid.map Call.round) run.invalid).1

def Run.output (run : Run) : List Line := (main (run.valid.map Call.round) run.invalid).2

/-- Some request did what the test is there to find. -/
def Run.Violates (run : Run) : Prop :=
  (∃ call ∈ run.valid, call.nanosleep ≠ 0 ∨ call.Overslept) ∨ ∃ r ∈ run.invalid, ¬ r.Refused

/-- The test fails if there is a violation, and passes otherwise. -/
def Run.Correct (run : Run) : Prop :=
  (run.code = ptsFail ↔ run.Violates) ∧ (¬ run.Violates → run.code = ptsPass)

/-- A violation other than a sleep that is too long. -/
def Run.Noticed (run : Run) : Prop :=
  (∃ call ∈ run.valid, call.nanosleep ≠ 0) ∨ ∃ r ∈ run.invalid, ¬ r.Refused

instance (run : Run) : Decidable run.Noticed := inferInstanceAs (Decidable (_ ∨ _))

/-! ### The first loop -/

variable {call : Call} {calls : List Call} {vars : Vars}

/-- The line that is written after a call. -/
@[simp] def Call.line (call : Call) : Line :=
  let (slepts, sleptns) := slept call.tsbefore call.tsafter
  if call.nanosleep = 0 then
    if slepts - call.tvSec > okSecErr then
      .fail slepts sleptns (toInt call.tvSec) (toInt call.tvNsec)
    else
      .pass slepts sleptns (toInt call.tvSec) (toInt call.tvNsec)
  else
    .notZero

@[simp] def Call.lines (call : Call) : List Line :=
  [.sleep (toInt call.tvSec) (toInt call.tvNsec), call.line]

theorem validRound_round (vars : Vars) (call : Call) : validRound vars call.round =
      .ok ⟨vars.failure || decide (call.nanosleep ≠ 0), vars.output ++ call.lines⟩ := by
  by_cases hzero : call.nanosleep = 0
  · by_cases hlong : (slept call.tsbefore call.tsafter).1 - call.tvSec > okSecErr
    · simp [validRound, hzero, hlong]
    · simp [validRound, hzero, hlong]
  · simp [validRound, hzero]

theorem foldlM_validRound (calls : List Call) (vars : Vars) :
    (calls.map Call.round).foldlM validRound vars =
      .ok ⟨vars.failure || calls.any fun call ↦ call.nanosleep ≠ 0,
        vars.output ++ calls.flatMap Call.lines⟩ := by
  induction calls generalizing vars with
  | nil =>
    simp only [List.any_nil, Bool.or_false, List.flatMap_nil, List.append_nil]
    rfl
  | cons first rest ih =>
    rw [List.map_cons, List.foldlM_cons, validRound_round]
    refine (ih _).trans ?_
    simp [Bool.or_assoc]

/-! ### The second loop -/

theorem failure_invalidRound (vars : Vars) (r : InvalidRound) :
    (invalidRound vars r).failure = (vars.failure || decide (¬ r.Refused)) := by
  unfold invalidRound InvalidRound.Refused
  by_cases hresult : r.nanosleep = -1
  · by_cases herrno : r.errno = einval
    · simp [hresult, herrno]
    · simp [hresult, herrno, Ne.symm herrno]
  · simp [hresult]

theorem failure_foldl_invalidRound (rounds : List InvalidRound) (vars : Vars) :
    (rounds.foldl invalidRound vars).failure =
      (vars.failure || rounds.any fun r ↦ ¬ r.Refused) := by
  induction rounds generalizing vars with
  | nil => simp
  | cons first rest ih =>
    rw [List.foldl_cons, ih, failure_invalidRound, List.any_cons, Bool.or_assoc]

/-- The second loop never writes a line that starts with `FAIL`. -/
theorem fail_mem_invalidRound_iff {slepts sleptns sec nsec : ℤ} (r : InvalidRound) :
    Line.fail slepts sleptns sec nsec ∈ (invalidRound vars r).output ↔
      Line.fail slepts sleptns sec nsec ∈ vars.output := by
  unfold invalidRound
  split
  · split <;> simp
  · simp

theorem fail_mem_foldl_invalidRound_iff {slepts sleptns sec nsec : ℤ} (rounds : List InvalidRound)
    (vars : Vars) : Line.fail slepts sleptns sec nsec ∈ (rounds.foldl invalidRound vars).output ↔
      Line.fail slepts sleptns sec nsec ∈ vars.output := by
  induction rounds generalizing vars with
  | nil => rfl
  | cons first rest ih => rw [List.foldl_cons, ih, fail_mem_invalidRound_iff]

/-! ### The report -/

theorem Call.line_eq_fail_iff (hbefore : call.tsbefore.Normalized)
    (hafter : call.nanosleep = 0 → call.tsafter.Normalized)
    (hforward : call.nanosleep = 0 → call.tsbefore.toNs ≤ call.tsafter.toNs)
    (hfits : call.nanosleep = 0 → call.elapsed < 2 ^ 31) :
    (∃ slepts sleptns sec nsec, call.line = .fail slepts sleptns sec nsec) ↔ call.Overslept := by
  unfold Call.line Call.Overslept
  by_cases hzero : call.nanosleep = 0
  · have hnonneg : 0 ≤ call.elapsed :=
      Int.ediv_nonneg (Int.sub_nonneg.mpr (hforward hzero)) (by decide)
    have hint : toInt ((call.tsafter.toNs - call.tsbefore.toNs) / 1000000000) = call.elapsed :=
      toInt_eq_self (by unfold Call.elapsed at hnonneg; omega) (hfits hzero)
    simp only [slept_eq hbefore (hafter hzero), hint, if_pos hzero]
    by_cases hlong : call.elapsed - call.tvSec > okSecErr
    · simp [hlong, hzero]
    · simp [hlong, hzero]
  · simp [hzero]

theorem Run.mem_readings {run : Run} {reading : Timespec} (hcall : call ∈ run.valid)
    (hreading : reading ∈ call.readings) : reading ∈ run.valid.flatMap Call.readings :=
  List.mem_flatMap.mpr ⟨call, hcall, hreading⟩

theorem Call.tsbefore_mem (call : Call) : call.tsbefore ∈ call.readings := by
  unfold Call.readings
  split <;> simp

theorem Run.forward_of_mem {run : Run} (hcall : call ∈ run.valid) (hzero : call.nanosleep = 0) :
    call.tsbefore.toNs ≤ call.tsafter.toNs := by
  have hpairs := (List.pairwise_flatMap.mp run.forward).1 call hcall
  simpa [hzero] using hpairs

theorem Run.code_eq (run : Run) : run.code = if run.Noticed then ptsFail else ptsPass := by
  have hfailure : (run.invalid.foldl invalidRound
      ⟨run.valid.any fun call ↦ call.nanosleep ≠ 0, run.valid.flatMap Call.lines⟩).failure =
        decide run.Noticed := by
    rw [failure_foldl_invalidRound, Bool.eq_iff_iff, decide_eq_true_iff]
    simp [Run.Noticed]
  unfold Run.code main
  rw [foldlM_validRound]
  simp only [Bool.false_or, List.nil_append, hfailure, decide_eq_true_eq]
  split <;> rfl

/-- A line that starts with `FAIL` is written exactly when some call sleeps too long. -/
theorem Run.fail_mem_output_iff (run : Run) :
    (∃ slepts sleptns sec nsec, Line.fail slepts sleptns sec nsec ∈ run.output) ↔
      ∃ call ∈ run.valid, call.Overslept := by
  have hmem (slepts sleptns sec nsec : ℤ) : Line.fail slepts sleptns sec nsec ∈ run.output ↔
      ∃ call ∈ run.valid, call.line = .fail slepts sleptns sec nsec := by
    unfold Run.output main
    rw [foldlM_validRound]
    dsimp only
    split
    all_goals
      simp [fail_mem_foldl_invalidRound_iff, eq_comm]
  have hline (call : Call) (hcall : call ∈ run.valid) :
      (∃ slepts sleptns sec nsec, call.line = .fail slepts sleptns sec nsec) ↔ call.Overslept := by
    refine Call.line_eq_fail_iff (run.normalized _ (run.mem_readings hcall call.tsbefore_mem))
      (fun hzero ↦ run.normalized _ (run.mem_readings hcall ?_)) (run.forward_of_mem hcall)
      (run.fits call hcall)
    simp [hzero]
  simp only [hmem]
  constructor
  · rintro ⟨slepts, sleptns, sec, nsec, call, hcall, hfail⟩
    exact ⟨call, hcall, (hline call hcall).mp ⟨slepts, sleptns, sec, nsec, hfail⟩⟩
  · rintro ⟨call, hcall, hlong⟩
    obtain ⟨slepts, sleptns, sec, nsec, hfail⟩ := (hline call hcall).mpr hlong
    exact ⟨slepts, sleptns, sec, nsec, call, hcall, hfail⟩

/-! ### When the verdict is right -/

theorem Run.violates_iff (run : Run) :
    run.Violates ↔ run.Noticed ∨ ∃ call ∈ run.valid, call.Overslept := by
  constructor
  · rintro (⟨call, hcall, hresult | hlong⟩ | hinvalid)
    · exact .inl (.inl ⟨call, hcall, hresult⟩)
    · exact .inr ⟨call, hcall, hlong⟩
    · exact .inl (.inr hinvalid)
  · rintro ((⟨call, hcall, hresult⟩ | hinvalid) | ⟨call, hcall, hlong⟩)
    · exact .inl ⟨call, hcall, .inl hresult⟩
    · exact .inr hinvalid
    · exact .inl ⟨call, hcall, .inr hlong⟩

/-- The verdict is right exactly when no call sleeps too long, or something else is found too. -/
theorem verdict_correct_iff (run : Run) :
    run.Correct ↔ ((∃ call ∈ run.valid, call.Overslept) → run.Noticed) := by
  unfold Run.Correct
  rw [run.code_eq, run.violates_iff]
  by_cases hnoticed : run.Noticed
  · simp [hnoticed]
  · simp only [hnoticed, if_false, false_or, imp_false]
    constructor
    · rintro ⟨hfail, -⟩ hlong
      exact ptsPass_ne_ptsFail (hfail.mpr hlong)
    · intro hnone
      exact ⟨iff_of_false ptsPass_ne_ptsFail hnone, fun _ ↦ trivial⟩

/-- A request of one second that returns 0 after five. -/
def tooLong : Run where
  valid := [⟨1, 0, ⟨100, 0⟩, 0, ⟨105, 0⟩⟩]
  invalid := []
  normalized := by
    simp only [Call.readings, List.flatMap_cons, List.flatMap_nil, if_true, List.append_nil,
      List.forall_mem_cons]
    exact ⟨⟨by decide, by decide⟩, ⟨by decide, by decide⟩, fun _ h ↦ absurd h List.not_mem_nil⟩
  forward := by simp [Timespec.toNs]
  fits := by simp [Call.elapsed, Timespec.toNs]

theorem tooLong_passes : Line.fail 5 0 1 0 ∈ tooLong.output ∧ tooLong.Violates ∧
    tooLong.code = ptsPass ∧ ¬ tooLong.Correct := by
  have hviolates : tooLong.Violates := .inl ⟨_, List.mem_singleton.mpr rfl, .inr (by decide)⟩
  have hcode : tooLong.code = ptsPass := by decide
  refine ⟨by decide, hviolates, hcode, fun hcorrect ↦ ptsPass_ne_ptsFail ?_⟩
  exact hcode.symm.trans (hcorrect.1.mpr hviolates)

end OpenPosix.Verdicts.SleepInputs

import OpenPosix.Clock.Timespec
import OpenPosix.Verdicts.ChildVerdicts

/-!
# The intervals of `nanosleep/2-1.c`

`conformance/interfaces/nanosleep/2-1.c`. The test sleeps for a list of intervals and fails if one
of the calls returns too early. It reads the clock after each call, and once before the first one;
the time of every call is taken from that first reading, not from the one before the call. A call
that returns early is so not noticed once enough time has passed for its interval, and a first call
that sleeps exactly as long as it should is reported.

The seconds are an `int`, and the difference of two readings may not fit. `main_eq_fail_iff` says
what the test looks at, and `sleepVerdict_iff` when it finds exactly the calls that return early.
-/

namespace OpenPosix.Verdicts.SleepIntervals

open Clock

/-- One round of the loop: the interval, the result of `nanosleep`, and the reading of the clock
after it, if there is one. -/
structure Round where
  sleepnsec : ℤ
  nanosleep : ℤ
  clock : Option Timespec
  deriving DecidableEq, Repr

/-- The fields `slepts` and `sleptns`, from the reading before the loop and the one of a round. -/
def slept (tsbefore tsafter : Timespec) : ℤ × ℤ :=
  let slepts := toInt (tsafter.tvSec - tsbefore.tvSec)
  let sleptns := toInt (tsafter.tvNsec - tsbefore.tvNsec)
  if sleptns < 0 then (toInt (slepts - 1), toInt (sleptns + 1000000000)) else (slepts, sleptns)

/-- One round of the loop: the value of `failure`, or the code that `main` returns. -/
def round (tsbefore : Timespec) (failure : Bool) (r : Round) : Except ℕ Bool :=
  if r.nanosleep ≠ 0 then .error ptsUnresolved
  else
    match r.clock with
    | none => .error ptsUnresolved
    | some tsafter =>
      let (slepts, sleptns) := slept tsbefore tsafter
      .ok (if slepts ≥ 1 ∨ sleptns > r.sleepnsec then failure else true)

def main (clock : Option Timespec) (rounds : List Round) : ℕ :=
  match clock with
  | none => ptsUnresolved
  | some tsbefore =>
    match rounds.foldlM (round tsbefore) false with
    | .error code => code
    | .ok failure => if failure then ptsFail else ptsPass

/-! ### Calls that succeed -/

/-- A call of `nanosleep` that returns zero, and the reading of the clock after it. -/
structure Call where
  sleepnsec : ℤ
  tsafter : Timespec
  deriving DecidableEq, Repr

def Call.round (call : Call) : Round := ⟨call.sleepnsec, 0, some call.tsafter⟩

/-- The intervals are those of less than one second, and the readings are normalized. -/
structure Call.Valid (call : Call) : Prop where
  pos : 0 < call.sleepnsec
  lt : call.sleepnsec < 1000000000
  normalized : call.tsafter.Normalized

def Forward : Timespec → List Call → Prop
  | _, [] => True
  | before, call :: rest => before.toNs ≤ call.tsafter.toNs ∧ Forward call.tsafter rest

/-- Some call returns early: less than its interval is between the reading before it and the one
after it. -/
def ReturnsEarly : Timespec → List Call → Prop
  | _, [] => False
  | before, call :: rest =>
    call.tsafter.toNs - before.toNs < call.sleepnsec ∨ ReturnsEarly call.tsafter rest

/-- No more than the interval of the call has passed since the reading before the loop. -/
def Call.Within (tsbefore : Timespec) (call : Call) : Prop :=
  call.tsafter.toNs - tsbefore.toNs ≤ call.sleepnsec

/-- The seconds since the reading before the loop do not fit an `int` and come out as none, and the
nanoseconds are no more than the interval of the call. -/
def Call.Wraps (tsbefore : Timespec) (call : Call) : Prop :=
  2 ^ 31 ≤ (call.tsafter.toNs - tsbefore.toNs) / 1000000000 ∧
    toInt ((call.tsafter.toNs - tsbefore.toNs) / 1000000000) < 1 ∧
    (call.tsafter.toNs - tsbefore.toNs) % 1000000000 ≤ call.sleepnsec

instance (tsbefore : Timespec) (call : Call) : Decidable (call.Within tsbefore) :=
  inferInstanceAs (Decidable (_ ≤ _))

instance (tsbefore : Timespec) (call : Call) : Decidable (call.Wraps tsbefore) :=
  inferInstanceAs (Decidable (_ ∧ _ ∧ _))

/-! ### What the loop looks at -/

variable {tsbefore before : Timespec} {call : Call} {calls : List Call}

theorem slept_eq {tsafter : Timespec} (hbefore : tsbefore.Normalized)
    (hafter : tsafter.Normalized) :
    slept tsbefore tsafter = (toInt ((tsafter.toNs - tsbefore.toNs) / 1000000000),
        (tsafter.toNs - tsbefore.toNs) % 1000000000) := by
  have hbefore₀ := hbefore.nonneg
  have hbefore₁ := hbefore.lt
  have hafter₀ := hafter.nonneg
  have hafter₁ := hafter.lt
  have hfits : toInt (tsafter.tvNsec - tsbefore.tvNsec) = tsafter.tvNsec - tsbefore.tvNsec :=
    toInt_eq_self (by omega) (by omega)
  rw [ediv_toNs_sub hbefore hafter, emod_toNs_sub hbefore hafter, slept]
  simp only [hfits, toInt_toInt_sub]
  by_cases hborrow : tsafter.tvNsec - tsbefore.tvNsec < 0
  · have hfits' : toInt (tsafter.tvNsec - tsbefore.tvNsec + 1000000000) =
        tsafter.tvNsec - tsbefore.tvNsec + 1000000000 := toInt_eq_self (by omega) (by omega)
    simp only [if_pos hborrow, hfits']
  · simp only [if_neg hborrow]

/-- Assumes: a valid call, after the reading before the loop. The round reports it exactly when too
little time has passed since that reading, as the `int` variables have it. -/
theorem round_eq (hbefore : tsbefore.Normalized) (hcall : call.Valid)
    (hforward : tsbefore.toNs ≤ call.tsafter.toNs) (failure : Bool) :
    round tsbefore failure call.round =
      .ok (if call.Within tsbefore ∨ call.Wraps tsbefore then true else failure) := by
  have hlt := hcall.lt
  have hiff : (toInt ((call.tsafter.toNs - tsbefore.toNs) / 1000000000) ≥ 1 ∨
      (call.tsafter.toNs - tsbefore.toNs) % 1000000000 > call.sleepnsec) ↔
      ¬ (call.Within tsbefore ∨ call.Wraps tsbefore) := by
    unfold Call.Within Call.Wraps
    by_cases hsmall : (call.tsafter.toNs - tsbefore.toNs) / 1000000000 < 2 ^ 31
    · rw [toInt_eq_self (by omega) hsmall]
      omega
    · omega
  simp only [round, Call.round, slept_eq hbefore hcall.normalized, ne_eq, not_true_eq_false,
    if_false, hiff, ite_not]

theorem Forward.le_of_mem (h : Forward before calls) (hmem : call ∈ calls) :
    before.toNs ≤ call.tsafter.toNs := by
  induction calls generalizing before with
  | nil => exact absurd hmem List.not_mem_nil
  | cons first rest ih =>
    rcases List.mem_cons.mp hmem with rfl | hrest
    · exact h.1
    · exact le_trans h.1 (ih h.2 hrest)

theorem foldlM_round (hbefore : tsbefore.Normalized) (hvalid : ∀ call ∈ calls, call.Valid)
    (hforward : ∀ call ∈ calls, tsbefore.toNs ≤ call.tsafter.toNs) (failure : Bool) :
    (calls.map Call.round).foldlM (round tsbefore) failure =
      .ok (failure || calls.any fun call ↦ call.Within tsbefore ∨ call.Wraps tsbefore) := by
  induction calls generalizing failure with
  | nil =>
    rw [List.any_nil, Bool.or_false]
    rfl
  | cons first rest ih =>
    have hfirst := round_eq hbefore (hvalid first List.mem_cons_self)
      (hforward first List.mem_cons_self) failure
    have hrest := ih (fun call hcall ↦ hvalid call (List.mem_cons_of_mem first hcall))
      fun call hcall ↦ hforward call (List.mem_cons_of_mem first hcall)
    rw [List.map_cons, List.foldlM_cons, hfirst]
    refine (hrest _).trans ?_
    rw [List.any_cons]
    by_cases hseen : first.Within tsbefore ∨ first.Wraps tsbefore
    · simp [hseen]
    · simp [hseen]

/-- Assumes: valid calls and a clock that does not go back. The test fails exactly when at some call
too little time has passed since the reading before the loop, or so much that it does not fit. -/
theorem main_eq_fail_iff (hbefore : tsbefore.Normalized) (hvalid : ∀ call ∈ calls, call.Valid)
    (hforward : Forward tsbefore calls) :
    main (some tsbefore) (calls.map Call.round) = ptsFail ↔
      ∃ call ∈ calls, call.Within tsbefore ∨ call.Wraps tsbefore := by
  have hloop := foldlM_round hbefore hvalid (fun call hcall ↦ hforward.le_of_mem hcall) false
  rw [main, hloop, Bool.false_or]
  by_cases hseen : ∃ call ∈ calls, call.Within tsbefore ∨ call.Wraps tsbefore
  · have hany : (calls.any fun call ↦ call.Within tsbefore ∨ call.Wraps tsbefore) = true := by
      simpa using hseen
    exact iff_of_true (by simp only [hany, if_true]) hseen
  · have hany : (calls.any fun call ↦ call.Within tsbefore ∨ call.Wraps tsbefore) = false := by
      simpa using hseen
    simp only [hany]
    exact iff_of_false ptsPass_ne_ptsFail hseen

/-! ### When the verdict is right -/

/-- Assumes: no call returns early, and some time has passed before the first of them. At no call
the time since the reading before the loop is within its interval. -/
theorem not_within_of_lt (hvalid : ∀ call ∈ calls, call.Valid)
    (hearly : ¬ ReturnsEarly before calls) (hlt : tsbefore.toNs < before.toNs) :
    ∀ call ∈ calls, ¬ call.Within tsbefore := by
  induction calls generalizing before with
  | nil => exact fun call hcall ↦ absurd hcall List.not_mem_nil
  | cons first rest ih =>
    obtain ⟨hfirst, hrest⟩ := not_or.mp hearly
    have hpos := (hvalid first List.mem_cons_self).pos
    have htail := ih (fun call hcall ↦ hvalid call (List.mem_cons_of_mem first hcall)) hrest
      (by omega)
    intro call hcall
    rcases List.mem_cons.mp hcall with rfl | hmem
    · unfold Call.Within
      omega
    · exact htail call hmem

def FirstExact (tsbefore : Timespec) (calls : List Call) : Prop :=
  ∃ call ∈ calls.head?, call.tsafter.toNs - tsbefore.toNs = call.sleepnsec

/-- Assumes: no call returns early. Only a first call that sleeps exactly for its interval is within
it. -/
theorem within_iff_firstExact (hvalid : ∀ call ∈ calls, call.Valid)
    (hearly : ¬ ReturnsEarly tsbefore calls) :
    (∃ call ∈ calls, call.Within tsbefore) ↔ FirstExact tsbefore calls := by
  cases calls with
  | nil => simp [FirstExact]
  | cons first rest =>
    obtain ⟨hfirst, hrest⟩ := not_or.mp hearly
    have hpos := (hvalid first List.mem_cons_self).pos
    have htail : ∀ call ∈ rest, ¬ call.Within tsbefore :=
      not_within_of_lt (fun call hcall ↦ hvalid call (List.mem_cons_of_mem first hcall)) hrest
        (by omega)
    have hexact : FirstExact tsbefore (first :: rest) ↔
        first.tsafter.toNs - tsbefore.toNs = first.sleepnsec := by
      simp [FirstExact]
    rw [hexact]
    constructor
    · rintro ⟨call, hcall, hwithin⟩
      rcases List.mem_cons.mp hcall with rfl | hmem
      · unfold Call.Within at hwithin
        omega
      · exact absurd hwithin (htail call hmem)
    · intro heq
      exact ⟨first, List.mem_cons_self, le_of_eq heq⟩

/-- Assumes: intervals of less than one second, normalized readings of a clock that does not go
back, and calls of `nanosleep` that succeed. The test fails if and only if some call returns early,
under this condition exactly: if some call returns early, then at some call no more than its
interval has passed since the reading before the loop, or the seconds since then wrap around; and if
none does, the first call does not sleep exactly for its interval and no seconds wrap around. -/
theorem sleepVerdict_iff (tsbefore : Timespec) (calls : List Call) (hbefore : tsbefore.Normalized)
    (hvalid : ∀ call ∈ calls, call.Valid) (hforward : Forward tsbefore calls) :
    (main (some tsbefore) (calls.map Call.round) = ptsFail ↔ ReturnsEarly tsbefore calls) ↔
      (ReturnsEarly tsbefore calls →
        ∃ call ∈ calls, call.Within tsbefore ∨ call.Wraps tsbefore) ∧
      (¬ ReturnsEarly tsbefore calls →
        ¬ FirstExact tsbefore calls ∧ ∀ call ∈ calls, ¬ call.Wraps tsbefore) := by
  rw [main_eq_fail_iff hbefore hvalid hforward]
  by_cases hearly : ReturnsEarly tsbefore calls
  · simp [hearly]
  · have hsplit : (∃ call ∈ calls, call.Within tsbefore ∨ call.Wraps tsbefore) ↔
        (∃ call ∈ calls, call.Within tsbefore) ∨ ∃ call ∈ calls, call.Wraps tsbefore := by
      simp only [and_or_left, exists_or]
    rw [hsplit, within_iff_firstExact hvalid hearly]
    simp [hearly]

/-- The first two of three calls sleep long enough, the third does not and is reported. -/
theorem sleepVerdict_short : main (some ⟨0, 0⟩) [⟨1000, 0, some ⟨0, 1500⟩⟩,
    ⟨2000, 0, some ⟨0, 4000⟩⟩, ⟨500000000, 0, some ⟨0, 5000⟩⟩] = ptsFail := by
  have hiff := sleepVerdict_iff ⟨0, 0⟩
    [⟨1000, ⟨0, 1500⟩⟩, ⟨2000, ⟨0, 4000⟩⟩, ⟨500000000, ⟨0, 5000⟩⟩] ⟨by decide, by decide⟩
    (List.forall_mem_cons.mpr ⟨⟨by decide, by decide, by decide, by decide⟩,
      List.forall_mem_cons.mpr ⟨⟨by decide, by decide, by decide, by decide⟩,
        List.forall_mem_singleton.mpr ⟨by decide, by decide, by decide, by decide⟩⟩⟩)
    ⟨by decide, by decide, by decide, trivial⟩
  have hearly : ReturnsEarly ⟨0, 0⟩
      [⟨1000, ⟨0, 1500⟩⟩, ⟨2000, ⟨0, 4000⟩⟩, ⟨500000000, ⟨0, 5000⟩⟩] :=
    .inr (.inr (.inl (by decide)))
  exact (hiff.mpr ⟨fun _ ↦ ⟨_, .tail _ (.tail _ (.head _)), .inl (by decide)⟩,
    fun hnot ↦ absurd hearly hnot⟩).mpr hearly

/-- A second call that returns at once is not noticed after a first one of half a second, and a
first call that sleeps exactly for its interval is reported. -/
theorem misses_early_return :
    (ReturnsEarly ⟨0, 0⟩ [⟨500000000, ⟨0, 500000001⟩⟩, ⟨1000, ⟨0, 500000001⟩⟩] ∧
      main (some ⟨0, 0⟩) ([⟨500000000, ⟨0, 500000001⟩⟩, ⟨1000, ⟨0, 500000001⟩⟩].map Call.round) =
        ptsPass) ∧
    ¬ ReturnsEarly ⟨0, 0⟩ [⟨1000, ⟨0, 1000⟩⟩] ∧
      main (some ⟨0, 0⟩) ([⟨1000, ⟨0, 1000⟩⟩].map Call.round) = ptsFail := by
  refine ⟨⟨.inr (.inl (by decide)), by decide⟩, ?_, by decide⟩
  rintro (hearly | hearly)
  · exact absurd hearly (by decide)
  · exact hearly

end OpenPosix.Verdicts.SleepIntervals

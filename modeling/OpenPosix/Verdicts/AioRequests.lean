import Mathlib.Data.Int.Order.Basic
import Mathlib.Data.List.Induction
import OpenPosix.Verdicts.ChildVerdicts

/-!
# The verdicts on lists of asynchronous requests

Two kinds of loops over an array of requests, in `conformance/interfaces`.

The tests of `aio_suspend` and `lio_listio` look at the result of every request of a list when the
list has completed. A request is counted as wrong if `aio_error` reports an error and `aio_return`
does not report the whole buffer. A request with only one of the two goes unnoticed, and
`completionCheck_iff` says when the loop lets a test pass only if all its requests are right.

`aio_write/7-1.c` queues requests until one is refused, collects the results of the earlier ones,
and then looks at the `errno` of the refusal. By then `ret` is the result of the last `aio_return`,
which may have changed `errno` as well, and a refusal of the last request of the array cannot be
told from no refusal. `overflowVerdict_iff` says when the verdict is right.

Freeing the requests, closing the file and printing are left out.
-/

namespace OpenPosix.Verdicts.AioRequests

/-! ### Completed requests -/

/-- The tests with the loop, those of `aio_suspend` first. -/
inductive Test
  | suspend11 | suspend41 | suspend61 | suspend71 | suspend81 | suspend91
  | listio11 | listio21 | listio31 | listio41 | listio51 | listio71 | listio101 | listio111
  | listio121 | listio131 | listio141 | listio151
  deriving DecidableEq, Repr

def Test.bufSize : Test → ℤ
  | .suspend11 | .suspend41 | .suspend61 | .suspend71 | .suspend81 | .suspend91 | .listio11 =>
    1024 * 1024
  | _ => 1024

/-- The first index of the loop. `lio_listio/4-1.c` has no request at the ends of its array. -/
def Test.first : Test → ℕ
  | .listio41 => 1
  | _ => 0

/-- The index at which the loop ends. The last request of `lio_listio/5-1.c` does nothing. -/
def Test.bound (test : Test) (numAiocbs : ℕ) : ℕ :=
  match test with
  | .listio41 | .listio51 => numAiocbs - 1
  | _ => numAiocbs

/-- The indices that the loop leaves out by `continue`. -/
def Test.skips : Test → ℕ → Bool
  | .suspend81, i => i == 6
  | .listio41, i => i == 3
  | .listio71, i => i == 1 || i == 7
  | .listio111, i | .listio131, i | .listio141, i => i == 2
  | _, _ => false

/-- What `aio_error` and `aio_return` give for a request. -/
structure Result where
  err : ℤ
  ret : ℤ
  deriving DecidableEq, Repr

def Test.check (test : Test) (results : ℕ → Result) (errors i : ℕ) : ℕ :=
  if test.skips i then errors
  else if (results i).err ≠ 0 ∧ (results i).ret ≠ test.bufSize then errors + 1
  else errors

def Test.errors (test : Test) (numAiocbs : ℕ) (results : ℕ → Result) : ℕ :=
  (List.range' test.first (test.bound numAiocbs - test.first)).foldl (test.check results) 0

/-- The code with which the test exits after the loop, if it does. -/
def exits (errors : ℕ) : Option ℕ := if errors ≠ 0 then some ptsFail else none

/-- The requests that the loop looks at. -/
def Test.Visits (test : Test) (numAiocbs i : ℕ) : Prop :=
  test.first ≤ i ∧ i < test.bound numAiocbs ∧ test.skips i = false

/-- The request completed with the whole buffer. -/
def Result.Complete (bufSize : ℤ) (result : Result) : Prop := result.err = 0 ∧ result.ret = bufSize

/-- The request has an error and does not have the whole buffer. -/
def Result.Wrong (bufSize : ℤ) (result : Result) : Prop := result.err ≠ 0 ∧ result.ret ≠ bufSize

/-- The request has an error or does not have the whole buffer, but not both. -/
def Result.Half (bufSize : ℤ) (result : Result) : Prop :=
  (result.err = 0 ∧ result.ret ≠ bufSize) ∨ (result.err ≠ 0 ∧ result.ret = bufSize)

theorem Result.complete_of_not {bufSize : ℤ} {result : Result} (hwrong : ¬ result.Wrong bufSize)
    (hhalf : ¬ result.Half bufSize) : result.Complete bufSize := by
  unfold Result.Half at hhalf
  tauto

theorem Test.check_eq_zero_iff (test : Test) (results : ℕ → Result) (errors i : ℕ) :
    test.check results errors i = 0 ↔
      errors = 0 ∧ (test.skips i = false → ¬ (results i).Wrong test.bufSize) := by
  unfold Test.check Result.Wrong
  by_cases hskips : test.skips i = true
  · simp [hskips]
  · by_cases hwrong : (results i).err ≠ 0 ∧ (results i).ret ≠ test.bufSize
    · rw [if_neg hskips, if_pos hwrong]
      exact iff_of_false (by omega) fun h ↦ h.2 (by simpa using hskips) hwrong
    · rw [if_neg hskips, if_neg hwrong]
      exact ⟨fun h ↦ ⟨h, fun _ ↦ hwrong⟩, fun h ↦ h.1⟩

theorem Test.foldl_check_eq_zero_iff (test : Test) (results : ℕ → Result) (indices : List ℕ)
    (errors : ℕ) :
    indices.foldl (test.check results) errors = 0 ↔
      errors = 0 ∧ ∀ i ∈ indices, test.skips i = false → ¬ (results i).Wrong test.bufSize := by
  induction indices generalizing errors with
  | nil => simp
  | cons i rest ih =>
    rw [List.foldl_cons, ih, test.check_eq_zero_iff, List.forall_mem_cons, and_assoc]

/-- The loop leaves `errors` at zero exactly when no request that it looks at is wrong in both. -/
theorem Test.errors_eq_zero_iff (test : Test) (numAiocbs : ℕ) (results : ℕ → Result) :
    test.errors numAiocbs results = 0 ↔
      ∀ i, test.Visits numAiocbs i → ¬ (results i).Wrong test.bufSize := by
  rw [Test.errors, test.foldl_check_eq_zero_iff]
  have hmem : ∀ i, i ∈ List.range' test.first (test.bound numAiocbs - test.first) ↔
      test.first ≤ i ∧ i < test.bound numAiocbs := by
    intro i
    rw [List.mem_range'_1]
    omega
  simp only [hmem, true_and, Test.Visits, and_imp]

theorem exits_eq_none_iff {errors : ℕ} : exits errors = none ↔ errors = 0 := by
  unfold exits
  split_ifs with h <;> simpa using h

/-- The loop lets the test go on only if every request that it looks at has completed with the whole
buffer, if and only if none of them has only an error or only a short count, or another one has
both. -/
theorem completionCheck_iff (test : Test) (numAiocbs : ℕ) (results : ℕ → Result) :
    (exits (test.errors numAiocbs results) = none →
      ∀ i, test.Visits numAiocbs i → (results i).Complete test.bufSize) ↔
    (∀ i, test.Visits numAiocbs i → ¬ (results i).Half test.bufSize) ∨
      ∃ i, test.Visits numAiocbs i ∧ (results i).Wrong test.bufSize := by
  rw [exits_eq_none_iff, test.errors_eq_zero_iff]
  by_cases hwrong : ∃ i, test.Visits numAiocbs i ∧ (results i).Wrong test.bufSize
  · -- A request is counted, so the test does not go on.
    obtain ⟨i, hvisits, hi⟩ := hwrong
    exact iff_of_true (fun hnone ↦ absurd hi (hnone i hvisits)) (.inr ⟨i, hvisits, hi⟩)
  · have hnone : ∀ i, test.Visits numAiocbs i → ¬ (results i).Wrong test.bufSize :=
      fun i hvisits hi ↦ hwrong ⟨i, hvisits, hi⟩
    constructor
    · intro h
      refine .inl fun i hvisits hhalf ↦ ?_
      obtain ⟨herr, hret⟩ := h hnone i hvisits
      rcases hhalf with ⟨-, hshort⟩ | ⟨herror, -⟩
      · exact hshort hret
      · exact herror herr
    · rintro (hhalf | hfound)
      · exact fun _ i hvisits ↦ Result.complete_of_not (hnone i hvisits) (hhalf i hvisits)
      · exact absurd hfound hwrong

/-- A request that transferred nothing without an error, and one that has an error and a whole
buffer: the tests go on. -/
theorem half_goes_on :
    (Test.suspend41.Visits 10 0 ∧ Test.listio41.Visits 10 1) ∧
      exits (Test.suspend41.errors 10 fun _ ↦ ⟨0, 0⟩) = none ∧
      exits (Test.listio41.errors 10 fun _ ↦ ⟨5, 1024⟩) = none ∧
      ¬ (⟨0, 0⟩ : Result).Complete Test.suspend41.bufSize ∧
      ¬ (⟨5, 1024⟩ : Result).Complete Test.listio41.bufSize := by
  refine ⟨⟨⟨by decide, by decide, rfl⟩, by decide, by decide, rfl⟩, by decide, by decide, ?_, ?_⟩
  · exact fun h ↦ absurd h.2 (by decide)
  · exact fun h ↦ absurd h.1 (by decide)

/-! ### Refused requests -/

def eagain : ℤ := 11

/-- The result of `aio_return`, and the value of `errno` that a failed call leaves. -/
structure Returned where
  value : ℤ
  errno : ℤ
  deriving DecidableEq, Repr

def Returned.failed (returned : Returned) : Bool := returned.value == -1

/-- The variables of `main` that its verdict depends on. -/
structure Vars where
  lastReq : ℕ
  ret : ℤ
  errno : ℤ
  deriving DecidableEq, Repr

/-- The first loop of `main` from index `i`, with `left` requests left to queue; `writes` gives the
`errno` of the calls of `aio_write` that fail. -/
def queue (writes : ℕ → Option ℤ) : (left i : ℕ) → Vars → Vars
  | 0, _, vars => vars
  | left + 1, i, vars =>
    match writes i with
    | some errno => { lastReq := i + 1, ret := -1, errno := errno }
    | none => queue writes left (i + 1) { vars with lastReq := i + 1, ret := 0 }

/-- One round of the second loop. A successful `aio_return` leaves `errno` alone, and so does
`aio_error`. -/
def collect (vars : Vars) (returned : Returned) : Vars :=
  { vars with
    ret := returned.value
    errno := if returned.failed then returned.errno else vars.errno }

/-- The code of `main`, with `NUM_AIOCBS` requests. -/
def main (numAiocbs : ℕ) (writes : ℕ → Option ℤ) (returns : ℕ → Returned) (vars : Vars) : ℕ :=
  let vars := queue writes numAiocbs 0 vars
  let vars := ((List.range (vars.lastReq - 1)).map returns).foldl collect vars
  if vars.lastReq = numAiocbs then ptsUnresolved
  else if vars.ret ≠ -1 ∧ vars.errno ≠ eagain then ptsFail
  else ptsPass

structure Refused (numAiocbs : ℕ) (writes : ℕ → Option ℤ) (k : ℕ) (errno : ℤ) : Prop where
  lt : k < numAiocbs
  fails : writes k = some errno
  first : ∀ i < k, writes i = none

/-- The verdict that `main` should give: passed if a request is refused with `EAGAIN`, failed if one
is refused for another reason, and unresolved if none is. -/
structure Reports (numAiocbs : ℕ) (writes : ℕ → Option ℤ) (verdict : ℕ) : Prop where
  pass : verdict = ptsPass ↔ ∃ k, Refused numAiocbs writes k eagain
  fail : verdict = ptsFail ↔ ∃ k errno, Refused numAiocbs writes k errno ∧ errno ≠ eagain
  unresolved : verdict = ptsUnresolved ↔ ¬ ∃ k errno, Refused numAiocbs writes k errno

/-- The `errno` that the last failed call of a list leaves. -/
def lastErrno (errno : ℤ) (returned : List Returned) : ℤ :=
  ((returned.filter Returned.failed).getLast?.map Returned.errno).getD errno

/-- The last call failed: the last one of a list, and without one the refused `aio_write`. -/
def lastFailed (returned : List Returned) : Bool :=
  (returned.getLast?.map Returned.failed).getD true

/-! ### The first loop -/

variable {writes : ℕ → Option ℤ} {errno : ℤ}

/-- Assumes: no request from `i` on is refused. -/
theorem queue_of_none {left : ℕ} :
    ∀ {i : ℕ} {vars : Vars}, (∀ j < i + left, writes j = none) → vars.lastReq = i →
      (queue writes left i vars).lastReq = i + left := by
  induction left with
  | zero => exact fun _ hlast ↦ hlast
  | succ left ih =>
    intro i vars hnone _
    have hi : writes i = none := hnone i (by omega)
    have hnext := @ih (i + 1) { vars with lastReq := i + 1, ret := 0 }
      (fun j hj ↦ hnone j (by omega)) rfl
    simp only [queue, hi]
    omega

/-- Assumes: request `i + more` is refused, and no earlier one. -/
theorem queue_of_refused {more : ℕ} :
    ∀ {left i : ℕ} {vars : Vars}, more < left → writes (i + more) = some errno →
      (∀ j < i + more, writes j = none) → queue writes left i vars = ⟨i + more + 1, -1, errno⟩ := by
  induction more with
  | zero =>
    intro left i vars hleft hfails _
    obtain ⟨left, rfl⟩ := Nat.exists_eq_succ_of_ne_zero (Nat.ne_of_gt hleft)
    have hi : writes i = some errno := hfails
    simp only [queue, hi, Nat.add_zero]
  | succ more ih =>
    intro left i vars hleft hfails hfirst
    obtain ⟨left, rfl⟩ := Nat.exists_eq_succ_of_ne_zero (Nat.ne_of_gt (Nat.zero_lt_of_lt hleft))
    have hi : writes i = none := hfirst i (by omega)
    have hsum : i + 1 + more = i + (more + 1) := by omega
    simp only [queue, hi]
    rw [ih (by omega) (by rw [hsum]; exact hfails) (by rw [hsum]; exact hfirst), hsum]

/-! ### The second loop -/

theorem lastErrno_append (errno : ℤ) (returned : List Returned) (last : Returned) :
    lastErrno errno (returned ++ [last]) =
      if last.failed then last.errno else lastErrno errno returned := by
  unfold lastErrno
  by_cases hlast : last.failed = true
  · simp [hlast]
  · simp [hlast]

theorem foldl_collect_lastReq (returned : List Returned) (vars : Vars) :
    (returned.foldl collect vars).lastReq = vars.lastReq := by
  induction returned generalizing vars with
  | nil => rfl
  | cons first rest ih => exact ih _

theorem foldl_collect_errno (returned : List Returned) (vars : Vars) :
    (returned.foldl collect vars).errno = lastErrno vars.errno returned := by
  induction returned using List.reverseRecOn with
  | nil => rfl
  | append_singleton rest last ih =>
    rw [List.foldl_append, lastErrno_append, ← ih]
    rfl

/-- Assumes: `ret` was minus one before the loop. -/
theorem foldl_collect_ret_iff (returned : List Returned) {vars : Vars} (hret : vars.ret = -1) :
    (returned.foldl collect vars).ret = -1 ↔ lastFailed returned = true := by
  induction returned using List.reverseRecOn with
  | nil => simp [hret, lastFailed]
  | append_singleton rest last _ =>
    simp [collect, lastFailed, Returned.failed]

/-! ### The verdict -/

variable {numAiocbs k : ℕ}

theorem main_of_none (returns : ℕ → Returned) (vars : Vars) (hpos : 0 < numAiocbs)
    (hnone : ∀ i < numAiocbs, writes i = none) :
    main numAiocbs writes returns vars = ptsUnresolved := by
  obtain ⟨left, rfl⟩ := Nat.exists_eq_succ_of_ne_zero (Nat.ne_of_gt hpos)
  have hlast : (queue writes (left + 1) 0 vars).lastReq = left + 1 := by
    have hrest := @queue_of_none writes left 1 { vars with lastReq := 1, ret := 0 }
      (fun j hj ↦ hnone j (by omega)) rfl
    simp only [queue, hnone 0 hpos]
    exact hrest.trans (by omega)
  simp only [main, Nat.succ_eq_add_one]
  rw [if_pos (by rw [foldl_collect_lastReq, hlast])]

/-- Assumes: request `k` is the first one that is refused. What `main` makes of it. -/
theorem main_of_refused (returns : ℕ → Returned) (vars : Vars)
    (h : Refused numAiocbs writes k errno) : main numAiocbs writes returns vars =
      if k + 1 = numAiocbs then ptsUnresolved
      else if lastFailed ((List.range k).map returns) = false ∧
          lastErrno errno ((List.range k).map returns) ≠ eagain then ptsFail
      else ptsPass := by
  have hqueue : queue writes numAiocbs 0 vars = ⟨k + 1, -1, errno⟩ := by
    have hloop := @queue_of_refused writes errno k numAiocbs 0 vars h.lt
    rw [Nat.zero_add] at hloop
    exact hloop h.fails h.first
  have hret := @foldl_collect_ret_iff ((List.range k).map returns) ⟨k + 1, -1, errno⟩ rfl
  simp only [main, hqueue, Nat.add_sub_cancel, foldl_collect_lastReq, foldl_collect_errno, ne_eq,
    hret, Bool.not_eq_true]

theorem Refused.unique {k' : ℕ} {errno' : ℤ} (h : Refused numAiocbs writes k errno)
    (h' : Refused numAiocbs writes k' errno') : k' = k ∧ errno' = errno := by
  have hk : k' = k := by
    rcases Nat.lt_trichotomy k' k with hlt | heq | hgt
    · exact absurd ((h.first k' hlt).symm.trans h'.fails) (by simp)
    · exact heq
    · exact absurd ((h'.first k hgt).symm.trans h.fails) (by simp)
  subst hk
  exact ⟨rfl, Option.some.inj (h'.fails.symm.trans h.fails)⟩

/-- If no request is refused, none is on the way to the first refused one. -/
theorem none_of_not_refused (h : ¬ ∃ k errno, Refused numAiocbs writes k errno) :
    ∀ i < numAiocbs, writes i = none := by
  intro i
  induction i using Nat.strongRecOn with
  | _ i ih =>
    intro hi
    cases hwrite : writes i with
    | none => rfl
    | some errno =>
      exact absurd ⟨i, errno, hi, hwrite, fun j hj ↦ ih j hj (Nat.lt_trans hj hi)⟩ h

theorem reports_of_none (h : ¬ ∃ k errno, Refused numAiocbs writes k errno) :
    Reports numAiocbs writes ptsUnresolved where
  pass := iff_of_false ptsUnresolved_ne_ptsPass fun ⟨k, hk⟩ ↦ h ⟨k, eagain, hk⟩
  fail := iff_of_false ptsUnresolved_ne_ptsFail fun ⟨k, errno, hk, _⟩ ↦ h ⟨k, errno, hk⟩
  unresolved := iff_of_true rfl h

/-- The verdict that a refused request should give. -/
theorem reports_iff_of_refused {verdict : ℕ} (h : Refused numAiocbs writes k errno) :
    Reports numAiocbs writes verdict ↔ verdict = if errno = eagain then ptsPass else ptsFail := by
  by_cases heagain : errno = eagain
  · subst heagain
    constructor
    · exact fun hreports ↦ hreports.pass.mpr ⟨k, h⟩
    · rintro rfl
      refine ⟨iff_of_true rfl ⟨k, h⟩, iff_of_false ptsPass_ne_ptsFail ?_,
        iff_of_false ptsUnresolved_ne_ptsPass.symm fun hnone ↦ hnone ⟨k, _, h⟩⟩
      rintro ⟨k', errno', hk', hne⟩
      exact hne (h.unique hk').2
  · rw [if_neg heagain]
    constructor
    · exact fun hreports ↦ hreports.fail.mpr ⟨k, errno, h, heagain⟩
    · rintro rfl
      refine ⟨iff_of_false ptsFail_ne_ptsPass ?_, iff_of_true rfl ⟨k, errno, h, heagain⟩,
        iff_of_false ptsFail_ne_ptsUnresolved fun hnone ↦ hnone ⟨k, _, h⟩⟩
      rintro ⟨k', hk'⟩
      exact heagain (h.unique hk').2.symm

/-- The last call that failed left the `errno` that the refusal is judged by: a refusal with
`EAGAIN` is followed by a failed call, or by none that leaves another `errno`; any other refusal is
followed by calls of which the last one succeeded and none left `EAGAIN` behind. -/
def Judged (errno : ℤ) (returned : List Returned) : Prop :=
  if errno = eagain then lastFailed returned = true ∨ lastErrno errno returned = eagain
  else lastFailed returned = false ∧ lastErrno errno returned ≠ eagain

/-- Assumes: at least one request. The verdict on a refused request, or on none, is the right one
exactly when the refused one is not the last of the array and its `errno` is still there to be
judged. -/
theorem overflowVerdict_iff (numAiocbs : ℕ) (writes : ℕ → Option ℤ) (returns : ℕ → Returned)
    (vars : Vars) (hpos : 0 < numAiocbs) :
    Reports numAiocbs writes (main numAiocbs writes returns vars) ↔
      ∀ k errno, Refused numAiocbs writes k errno →
        k + 1 ≠ numAiocbs ∧ Judged errno ((List.range k).map returns) := by
  by_cases hrefused : ∃ k errno, Refused numAiocbs writes k errno
  · obtain ⟨k, errno, h⟩ := hrefused
    have hforall : (∀ k errno, Refused numAiocbs writes k errno →
        k + 1 ≠ numAiocbs ∧ Judged errno ((List.range k).map returns)) ↔
        k + 1 ≠ numAiocbs ∧ Judged errno ((List.range k).map returns) := by
      refine ⟨fun hall ↦ hall k errno h, fun hone k' errno' h' ↦ ?_⟩
      obtain ⟨rfl, rfl⟩ := h.unique h'
      exact hone
    rw [hforall, reports_iff_of_refused h, main_of_refused returns vars h]
    by_cases hend : k + 1 = numAiocbs
    · rw [if_pos hend]
      refine iff_of_false ?_ fun hboth ↦ hboth.1 hend
      split_ifs <;> simp
    · rw [if_neg hend, Judged, and_iff_right hend]
      by_cases heagain : errno = eagain
      · rw [if_pos heagain, if_pos heagain, ite_eq_right_iff, or_iff_not_imp_left]
        simp
      · rw [if_neg heagain, if_neg heagain, ite_eq_left_iff]
        simp
  · have hnone := none_of_not_refused hrefused
    rw [main_of_none returns vars hpos hnone]
    exact iff_of_true (reports_of_none hrefused) fun k errno h ↦ absurd ⟨k, errno, h⟩ hrefused

/-- The third of four requests is refused with `EAGAIN`, after two that wrote their buffers. -/
theorem overflowVerdict_third :
    main 4 (fun i ↦ if i = 2 then some eagain else none) (fun _ ↦ ⟨512, 0⟩) ⟨0, 0, 0⟩ =
      ptsPass := by
  have hreports := (overflowVerdict_iff 4 (fun i ↦ if i = 2 then some eagain else none)
    (fun _ ↦ ⟨512, 0⟩) ⟨0, 0, 0⟩ (by decide)).mpr fun k errno h ↦ by
      have hk : k = 2 := by
        by_contra hne
        exact absurd h.fails (by simp [hne])
      subst hk
      have herrno : errno = eagain := Option.some.inj (h.fails.symm.trans (if_pos rfl))
      subst herrno
      exact ⟨by decide, .inr rfl⟩
  exact hreports.pass.mpr ⟨2, by decide, if_pos rfl, fun i hi ↦ if_neg (Nat.ne_of_lt hi)⟩

/-- The last request is refused with `EAGAIN`, and the verdict is unresolved. The first request is
refused with another `errno`, and the test passes. -/
theorem misjudges_refusals :
    (main 2 (fun i ↦ if i = 1 then some eagain else none) (fun _ ↦ ⟨512, 0⟩) ⟨0, 0, 0⟩ =
        ptsUnresolved ∧
      ¬ Reports 2 (fun i ↦ if i = 1 then some eagain else none) ptsUnresolved) ∧
    main 2 (fun _ ↦ some 22) (fun _ ↦ ⟨512, 0⟩) ⟨0, 0, 0⟩ = ptsPass ∧
      ¬ Reports 2 (fun _ ↦ some 22) ptsPass := by
  refine ⟨⟨by decide, fun h ↦ ?_⟩, by decide, fun h ↦ ?_⟩
  · exact h.unresolved.mp rfl ⟨1, eagain, by decide, rfl, fun i hi ↦ if_neg (Nat.ne_of_lt hi)⟩
  · obtain ⟨k, hk⟩ := h.pass.mp rfl
    exact absurd hk.fails (by decide)

end OpenPosix.Verdicts.AioRequests

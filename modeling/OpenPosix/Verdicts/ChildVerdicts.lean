import Mathlib.Data.List.Basic

/-!
# The verdicts of the children of a test

The join loops of `pthread_cond_destroy/2-1.c`, `pthread_cond_broadcast/1-2.c` and `2-3.c` and
`pthread_cond_signal/1-2.c`. The parent of a scenario waits for its children one after the other and
combines their exit codes by a bitwise or into `ret`, which it leaves alone once it is `PTS_FAIL`. A
child that did not exit (it was killed by a signal) leaves `ret` alone as well. If `ret` is not zero
after the loop, the parent exits with it; otherwise it goes on to the next scenario.

The bitwise or depends on the order: `PTS_UNRESOLVED` followed by `PTS_FAIL` makes three, which is
no code of `posixtest.h`, and a killed child goes unnoticed when no other child reports a problem.
`verdict_eq_expected_iff` says exactly when the parent reports what its children reported.
-/

namespace OpenPosix.Verdicts

/-! ### The return codes of `posixtest.h` -/

def ptsPass : ℕ := 0
def ptsFail : ℕ := 1
def ptsUnresolved : ℕ := 2

@[simp] theorem ptsFail_ne_ptsPass : ptsFail ≠ ptsPass := by decide
@[simp] theorem ptsPass_ne_ptsFail : ptsPass ≠ ptsFail := by decide
@[simp] theorem ptsFail_ne_ptsUnresolved : ptsFail ≠ ptsUnresolved := by decide
@[simp] theorem ptsUnresolved_ne_ptsFail : ptsUnresolved ≠ ptsFail := by decide
@[simp] theorem ptsUnresolved_ne_ptsPass : ptsUnresolved ≠ ptsPass := by decide

namespace ChildVerdicts

/-! ### The join loops -/

/-- How a child process ended, as `waitpid` reports it. -/
inductive Status
  | exited (code : ℕ)
  | signaled (signal : ℕ)
  deriving DecidableEq, Repr

/-- What the parent gets when it joins a child: the result of `pthread_join` for a thread, and the
status for a process, if `waitpid` returned the child. -/
inductive Joined
  | thread (error : ℕ)
  | process (status : Option Status)
  deriving DecidableEq, Repr

inductive Program
  | condDestroy21
  | condBroadcast12
  | condBroadcast23
  | condSignal12
  deriving DecidableEq, Repr

/-- What happens after the join loop. -/
inductive Verdict
  | goesOn
  | exits (code : ℕ)
  deriving DecidableEq, Repr

/-- The order in which a program joins its children, given in the order of their creation. Only
`pthread_cond_broadcast/1-2.c` keeps them in a list and starts with the first one. -/
def Program.joinOrder {Child : Type*} (program : Program) (children : List Child) : List Child :=
  match program with
  | .condBroadcast12 => children
  | _ => children.reverse

/-- The join of one thread: `ret` after it, or the exit code of the parent. -/
def joinThread (program : Program) (ret error : ℕ) : Except ℕ ℕ :=
  match program with
  | .condBroadcast12 => .ok (ret ||| error)
  | _ => if error ≠ 0 then .error ptsUnresolved else .ok error

/-- The join of one process: `ret` after it, or the exit code of the parent. -/
def joinProcess (ret : ℕ) : Option Status → Except ℕ ℕ
  | none => .error ptsUnresolved
  | some (.exited code) => .ok (if ret ≠ ptsFail then ret ||| code else ret)
  | some (.signaled _) => .ok ret

def join (program : Program) (ret : ℕ) : Joined → Except ℕ ℕ
  | .thread error => joinThread program ret error
  | .process status => joinProcess ret status

def afterJoin (ret : ℕ) : Verdict := if ret ≠ 0 then .exits ret else .goesOn

/-- The join loop and the test after it; `ret` is zero before it. -/
def verdict (program : Program) (children : List Joined) : Verdict :=
  match (program.joinOrder children).foldlM (join program) 0 with
  | .ok ret => afterJoin ret
  | .error code => .exits code

/-! ### What the verdict should be -/

/-- The children end as the comment in the loops says: they pass, fail or are unresolved, or a
signal kills them. -/
def Status.Reports : Status → Prop
  | .exited code => code = ptsPass ∨ code = ptsFail ∨ code = ptsUnresolved
  | .signaled _ => True

/-- The verdict on children that ended with these statuses: on to the next scenario if all passed,
and otherwise failed if one failed and unresolved if none did. -/
def expected (statuses : List Status) : Verdict :=
  if ∀ status ∈ statuses, status = .exited ptsPass then .goesOn
  else if .exited ptsFail ∈ statuses then .exits ptsFail
  else .exits ptsUnresolved

/-- The order of the children does not matter for it. -/
theorem expected_congr {first second : List Status}
    (h : ∀ status, status ∈ first ↔ status ∈ second) : expected first = expected second := by
  simp only [expected, h]

/-! ### What the loop computes -/

variable {statuses : List Status}

/-- The value of `ret` after a loop over processes that `waitpid` returned. -/
def combine (ret : ℕ) (statuses : List Status) : ℕ :=
  statuses.foldl (fun ret status ↦
    match status with
    | .exited code => if ret ≠ ptsFail then ret ||| code else ret
    | .signaled _ => ret) ret

theorem foldlM_join (program : Program) (statuses : List Status) (ret : ℕ) :
    (statuses.map fun status ↦ Joined.process (some status)).foldlM (join program) ret =
      .ok (combine ret statuses) := by
  induction statuses generalizing ret with
  | nil => rfl
  | cons status rest ih =>
    cases status with
    | exited code => exact ih _
    | signaled signal => exact ih _

/-- The statuses up to the first child that failed. -/
def beforeFail (statuses : List Status) : List Status :=
  statuses.takeWhile fun status ↦ decide (status ≠ .exited ptsFail)

/-- A failed child is never forgotten. -/
theorem combine_fail (statuses : List Status) : combine ptsFail statuses = ptsFail := by
  induction statuses with
  | nil => rfl
  | cons status rest ih => cases status <;> exact ih

/-- Neither is the mixture of failed and unresolved. -/
theorem combine_mixed (h : ∀ status ∈ statuses, status.Reports) :
    combine (ptsUnresolved ||| ptsFail) statuses = ptsUnresolved ||| ptsFail := by
  induction statuses with
  | nil => rfl
  | cons status rest ih =>
    have hrest := ih fun other hother ↦ h other (List.mem_cons_of_mem status hother)
    cases status with
    | signaled signal => exact hrest
    | exited code =>
      obtain rfl | rfl | rfl := h (.exited code) List.mem_cons_self
      · exact hrest
      · exact hrest
      · exact hrest

/-- Once a child was unresolved. -/
theorem combine_unresolved (h : ∀ status ∈ statuses, status.Reports) :
    combine ptsUnresolved statuses =
      if .exited ptsFail ∈ statuses then ptsUnresolved ||| ptsFail else ptsUnresolved := by
  induction statuses with
  | nil => rfl
  | cons status rest ih =>
    have hreports : ∀ other ∈ rest, other.Reports :=
      fun other hother ↦ h other (List.mem_cons_of_mem status hother)
    by_cases hfail : status = .exited ptsFail
    · subst hfail
      rw [if_pos List.mem_cons_self]
      exact combine_mixed hreports
    · have hskip : combine ptsUnresolved (status :: rest) = combine ptsUnresolved rest := by
        cases status with
        | signaled signal => rfl
        | exited code =>
          obtain rfl | rfl | rfl := h (.exited code) List.mem_cons_self
          · rfl
          · exact absurd rfl hfail
          · rfl
      rw [hskip, ih hreports]
      simp [Ne.symm hfail]

/-- Assumes: children that pass, fail, are unresolved or killed. What the loop leaves in `ret`: if
none failed, whether one was unresolved; if one failed, that, mixed with an unresolved one before
it. -/
theorem combine_zero (h : ∀ status ∈ statuses, status.Reports) : combine 0 statuses =
      if .exited ptsFail ∈ statuses then
        if .exited ptsUnresolved ∈ beforeFail statuses then ptsUnresolved ||| ptsFail else ptsFail
      else if .exited ptsUnresolved ∈ statuses then ptsUnresolved else 0 := by
  induction statuses with
  | nil => rfl
  | cons status rest ih =>
    have hreports : ∀ other ∈ rest, other.Reports :=
      fun other hother ↦ h other (List.mem_cons_of_mem status hother)
    have hrest := ih hreports
    cases status with
    | signaled signal =>
      rw [show combine 0 (.signaled signal :: rest) = combine 0 rest from rfl, hrest]
      simp [beforeFail]
    | exited code =>
      obtain rfl | rfl | rfl := h (.exited code) List.mem_cons_self
      · rw [show combine 0 (.exited ptsPass :: rest) = combine 0 rest from rfl, hrest]
        simp [beforeFail]
      · rw [show combine 0 (.exited ptsFail :: rest) = combine ptsFail rest from rfl, combine_fail]
        simp [beforeFail]
      · rw [show combine 0 (.exited ptsUnresolved :: rest) = combine ptsUnresolved rest from rfl,
          combine_unresolved hreports]
        simp [beforeFail]

/-! ### When the verdict is the expected one -/

/-- A killed child has company: some child reports a problem. -/
def KilledNoticed (statuses : List Status) : Prop :=
  (∃ signal, .signaled signal ∈ statuses) → ∃ code, code ≠ ptsPass ∧ .exited code ∈ statuses

/-- If a child failed, no child that was joined before the first failed one was unresolved. -/
def FailFirst (statuses : List Status) : Prop :=
  .exited ptsFail ∈ statuses → .exited ptsUnresolved ∉ beforeFail statuses

/-- Assumes: children that pass, fail, are unresolved or killed. -/
theorem afterJoin_combine_iff (h : ∀ status ∈ statuses, status.Reports) :
    afterJoin (combine 0 statuses) = expected statuses ↔
      KilledNoticed statuses ∧ FailFirst statuses := by
  have hall : (.exited ptsFail ∈ statuses ∨ .exited ptsUnresolved ∈ statuses) →
      ¬ ∀ status ∈ statuses, status = .exited ptsPass := by
    rintro (hfail | hunresolved) hpass
    · exact absurd (hpass _ hfail) (by simp)
    · exact absurd (hpass _ hunresolved) (by simp)
  rw [combine_zero h]
  by_cases hfail : .exited ptsFail ∈ statuses
  · -- Some child failed: only the order matters.
    have hnoticed : KilledNoticed statuses := fun _ ↦ ⟨ptsFail, by simp, hfail⟩
    rw [if_pos hfail, expected, if_neg (hall (.inl hfail)), if_pos hfail]
    by_cases hbefore : .exited ptsUnresolved ∈ beforeFail statuses
    · rw [if_pos hbefore]
      refine iff_of_false (by decide) fun hboth ↦ hboth.2 hfail hbefore
    · rw [if_neg hbefore]
      exact iff_of_true (by decide) ⟨hnoticed, fun _ ↦ hbefore⟩
  · have hfirst : FailFirst statuses := fun hmem ↦ absurd hmem hfail
    rw [if_neg hfail]
    by_cases hunresolved : .exited ptsUnresolved ∈ statuses
    · have hnoticed : KilledNoticed statuses := fun _ ↦ ⟨ptsUnresolved, by simp, hunresolved⟩
      rw [if_pos hunresolved, expected, if_neg (hall (.inr hunresolved)), if_neg hfail]
      exact iff_of_true (by decide) ⟨hnoticed, hfirst⟩
    · -- All children that exited passed, so a killed one is the only problem.
      rw [if_neg hunresolved]
      have hcases : ∀ status ∈ statuses,
          status = .exited ptsPass ∨ ∃ signal, status = .signaled signal := by
        intro status hstatus
        cases status with
        | signaled signal => exact .inr ⟨signal, rfl⟩
        | exited code =>
          obtain rfl | rfl | rfl := h _ hstatus
          · exact .inl rfl
          · exact absurd hstatus hfail
          · exact absurd hstatus hunresolved
      by_cases hpass : ∀ status ∈ statuses, status = .exited ptsPass
      · rw [expected, if_pos hpass]
        refine iff_of_true (by decide) ⟨?_, hfirst⟩
        rintro ⟨signal, hsignal⟩
        exact absurd (hpass _ hsignal) (by simp)
      · rw [expected, if_neg hpass, if_neg hfail]
        refine iff_of_false (by decide) fun hboth ↦ ?_
        push Not at hpass
        obtain ⟨status, hstatus, hne⟩ := hpass
        obtain ⟨signal, rfl⟩ := (hcases status hstatus).resolve_left hne
        obtain ⟨code, hcode, hmem⟩ := hboth.1 ⟨signal, hstatus⟩
        rcases hcases _ hmem with heq | ⟨signal', heq⟩
        · exact hcode (Status.exited.inj heq)
        · exact absurd heq (by simp)

/-- The children of a scenario, all of them processes that `waitpid` returned. -/
def processes (statuses : List Status) : List Joined :=
  statuses.map fun status ↦ .process (some status)

theorem joinOrder_map {First Second : Type*} (program : Program) (f : First → Second)
    (children : List First) :
    program.joinOrder (children.map f) = (program.joinOrder children).map f := by
  cases program with
  | condBroadcast12 => rfl
  | _ => exact List.map_reverse.symm

theorem mem_joinOrder {Child : Type*} (program : Program) (children : List Child) (child : Child) :
    child ∈ program.joinOrder children ↔ child ∈ children := by
  cases program with
  | condBroadcast12 => rfl
  | _ => exact List.mem_reverse

theorem verdict_processes (program : Program) (statuses : List Status) :
    verdict program (processes statuses) = afterJoin (combine 0 (program.joinOrder statuses)) := by
  unfold verdict processes
  rw [joinOrder_map, foldlM_join]

/-- Assumes: the children of a scenario are processes that pass, fail, are unresolved or killed by a
signal. The parent goes on exactly when all passed, and otherwise exits with `PTS_FAIL` if one
failed and with `PTS_UNRESOLVED` if none did, if and only if a killed child is not the only problem,
and no unresolved child is joined before the first failed one. -/
theorem verdict_eq_expected_iff (program : Program) (statuses : List Status)
    (h : ∀ status ∈ statuses, status.Reports) :
    verdict program (processes statuses) = expected statuses ↔
      KilledNoticed (program.joinOrder statuses) ∧ FailFirst (program.joinOrder statuses) := by
  have hsame := mem_joinOrder program statuses
  rw [verdict_processes, expected_congr fun status ↦ (hsame status).symm]
  exact afterJoin_combine_iff fun status hstatus ↦ h status ((hsame status).mp hstatus)

/-- A child that failed, joined first, and an unresolved one: the parent reports the failure. -/
theorem verdict_eq_expected_failFirst :
    verdict .condBroadcast12 (processes [.exited ptsFail, .exited ptsUnresolved]) =
      .exits ptsFail := by
  have hreports : ∀ status ∈ [Status.exited ptsFail, .exited ptsUnresolved], status.Reports := by
    simp [Status.Reports]
  have hiff := verdict_eq_expected_iff .condBroadcast12 _ hreports
  exact (hiff.mpr ⟨fun _ ↦ ⟨ptsFail, by simp, by simp [Program.joinOrder]⟩,
    fun _ ↦ by simp [Program.joinOrder, beforeFail]⟩).trans rfl

/-- In every program an unresolved child that is joined before a failed one makes the parent exit
with three, and a killed child alone goes unnoticed. -/
theorem verdict_ne_expected : (∀ program : Program,
      verdict program (processes (program.joinOrder [.exited ptsUnresolved, .exited ptsFail])) =
        .exits 3 ∧
      verdict program (processes [.signaled 11]) = .goesOn) ∧
    expected [.exited ptsUnresolved, .exited ptsFail] = .exits ptsFail ∧
    expected [.signaled 11] = .exits ptsUnresolved := by
  refine ⟨fun program ↦ ?_, by decide, by decide⟩
  cases program <;> decide

end ChildVerdicts

end OpenPosix.Verdicts

import Mathlib.Data.Int.Order.Basic
import Mathlib.Tactic.Common

/-!
# The tests of `pthread_mutex_init` and `pthread_cond_init`

`stress/threads/pthread_mutex_init/s-c.c` and `stress/threads/pthread_cond_init/s-c.c` measure the
time of an iteration of their loop, and print the first four times and the last four. The times go
to `time_sav[8]`, of which the last four entries are shifted by one place for each further time.

`stress/threads/pthread_mutex_init/stress.c` and `stress/threads/pthread_cond_init/stress.c` create
a number of threads, and join those that they have created if a creation fails.

In both directories the two programs have the same code in these places.
-/

namespace OpenPosix.Mutexes.InitTests

open Function

/-! ### The report of the times -/

/-- A time in seconds and microseconds. -/
structure Timeval where
  tvSec : ℤ
  tvUsec : ℤ
  deriving DecidableEq, Repr

/-- The microseconds are those of less than one second. -/
structure Timeval.Normalized (t : Timeval) : Prop where
  nonneg : 0 ≤ t.tvUsec
  lt : t.tvUsec < 1000000

def Timeval.toUs (t : Timeval) : ℤ := t.tvSec * 1000000 + t.tvUsec

/-- `time_res`, from the readings `time_zero` before the operations and `time_cour` after them. -/
def timeRes (timeZero timeCour : Timeval) : Timeval :=
  let usec := timeCour.tvUsec + 1000000 - timeZero.tvUsec
  if usec < 1000000 then ⟨timeCour.tvSec - 1 - timeZero.tvSec, usec⟩
  else ⟨timeCour.tvSec - timeZero.tvSec, usec - 1000000⟩

/-- `time_sav` with the time of iteration `sav`. -/
def save (sav : ℕ) (timeSav : ℕ → Timeval) (res : Timeval) : ℕ → Timeval :=
  if 3 < sav then
    let timeSav := Function.update timeSav 4 (timeSav 5)
    let timeSav := Function.update timeSav 5 (timeSav 6)
    let timeSav := Function.update timeSav 6 (timeSav 7)
    Function.update timeSav 7 res
  else
    Function.update timeSav sav res

variable (zero cour timeSav : ℕ → Timeval)

/-- `time_sav` after a number of iterations. -/
def saved : ℕ → ℕ → Timeval
  | 0 => timeSav
  | n + 1 => save n (saved n) (timeRes (zero n) (cour n))

/-- The pairs of a number and a time that are printed after `sav` iterations. -/
def report (sav : ℕ) : List (ℕ × Timeval) :=
  let timeSav := saved zero cour timeSav sav
  if sav < 8 then []
  else [(0, timeSav 0), (1, timeSav 1), (2, timeSav 2), (3, timeSav 3), (sav - 3, timeSav 4),
    (sav - 2, timeSav 5), (sav - 1, timeSav 6), (sav, timeSav 7)]

/-- The time of an iteration with its number. -/
def iteration (i : ℕ) : ℕ × Timeval := (i, timeRes (zero i) (cour i))

theorem timeRes_spec {timeZero timeCour : Timeval} (hzero : timeZero.Normalized)
    (hcour : timeCour.Normalized) : (timeRes timeZero timeCour).Normalized ∧
      (timeRes timeZero timeCour).toUs = timeCour.toUs - timeZero.toUs := by
  obtain ⟨hzero₀, hzero₁⟩ := hzero
  obtain ⟨hcour₀, hcour₁⟩ := hcour
  simp only [timeRes]
  split_ifs with hborrow
  · refine ⟨⟨by simp only; omega, hborrow⟩, ?_⟩
    simp only [Timeval.toUs]
    omega
  · refine ⟨⟨by simp only; omega, by simp only; omega⟩, ?_⟩
    simp only [Timeval.toUs]
    omega

theorem saved_first (n i : ℕ) (hi : i < 4) (hn : i < n) :
    saved zero cour timeSav n i = timeRes (zero i) (cour i) := by
  induction n with
  | zero => omega
  | succ n ih =>
    unfold saved save
    split_ifs with hfull
    · simp only [update_of_ne (show i ≠ 4 by omega),
        update_of_ne (show i ≠ 5 by omega), update_of_ne (show i ≠ 6 by omega),
        update_of_ne (show i ≠ 7 by omega)]
      exact ih (by omega)
    · by_cases heq : i = n
      · rw [heq, update_self]
      · rw [update_of_ne heq]
        exact ih (by omega)

/-- Places 4 to 7 hold the times of the last four iterations, if these are not among the first. -/
theorem saved_last (n i place : ℕ) (hmin : 4 ≤ place) (hmax : place < 8)
    (hplace : i + 8 = n + place) (hi : 4 ≤ i) :
    saved zero cour timeSav n place = timeRes (zero i) (cour i) := by
  induction n generalizing place with
  | zero => omega
  | succ n ih =>
    unfold saved save
    rw [if_pos (by omega)]
    obtain rfl | hlt : place = 7 ∨ place < 7 := by omega
    · rw [update_self, show n = i by omega]
    · -- The place has the time that was in the next one.
      rw [← ih (place + 1) (by omega) (by omega) (by omega)]
      obtain rfl | rfl | rfl : place = 4 ∨ place = 5 ∨ place = 6 := by omega
      all_goals rfl

variable {zero cour timeSav}

/-- The times are exact. The first four are printed with the numbers of their iterations, and each
of the last four with the number of the iteration after its own, so that the report is never that
of the first four and the last four iterations. -/
theorem report_shifted {n : ℕ} (hn : 8 ≤ n) (hzero : ∀ i, (zero i).Normalized)
    (hcour : ∀ i, (cour i).Normalized) :
    (∀ i, (timeRes (zero i) (cour i)).Normalized ∧
      (timeRes (zero i) (cour i)).toUs = (cour i).toUs - (zero i).toUs) ∧
    report zero cour timeSav n = [0, 1, 2, 3].map (iteration zero cour) ++
      [n - 4, n - 3, n - 2, n - 1].map (fun i ↦ (i + 1, timeRes (zero i) (cour i))) ∧
    report zero cour timeSav n ≠
      [0, 1, 2, 3, n - 4, n - 3, n - 2, n - 1].map (iteration zero cour) := by
  have hfirst := fun i hi ↦ saved_first zero cour timeSav n i hi
  have hlast := fun i place hmin ↦ saved_last zero cour timeSav n i place hmin
  have hreport : report zero cour timeSav n = [0, 1, 2, 3].map (iteration zero cour) ++
      [n - 4, n - 3, n - 2, n - 1].map (fun i ↦ (i + 1, timeRes (zero i) (cour i))) := by
    have hnumber : n - 4 + 1 = n - 3 ∧ n - 3 + 1 = n - 2 ∧ n - 2 + 1 = n - 1 ∧ n - 1 + 1 = n := by
      omega
    obtain ⟨h₄, h₃, h₂, h₁⟩ := hnumber
    simp only [report, if_neg (Nat.not_lt.mpr hn), iteration, List.map_cons, List.map_nil, h₄, h₃,
      h₂, h₁]
    rw [hfirst 0 (by decide) (by omega), hfirst 1 (by decide) (by omega),
      hfirst 2 (by decide) (by omega), hfirst 3 (by decide) (by omega),
      hlast (n - 4) 4 (by decide) (by decide) (by omega) (by omega),
      hlast (n - 3) 5 (by decide) (by decide) (by omega) (by omega),
      hlast (n - 2) 6 (by decide) (by decide) (by omega) (by omega),
      hlast (n - 1) 7 (by decide) (by decide) (by omega) (by omega)]
    rfl
  refine ⟨fun i ↦ timeRes_spec (hzero i) (hcour i), hreport, ?_⟩
  rw [hreport]
  intro heq
  simp [iteration] at heq

/-- The iterations start at whole seconds, and iteration `i` takes `i` microseconds. -/
def starts (i : ℕ) : Timeval := ⟨i, 0⟩

def ends (i : ℕ) : Timeval := ⟨i, if i < 10 then i else 0⟩

theorem report_shifted_eight : report starts ends starts 8 ≠
    [0, 1, 2, 3, 8 - 4, 8 - 3, 8 - 2, 8 - 1].map (iteration starts ends) := by
  refine (report_shifted (Nat.le_refl 8) (fun i ↦ ⟨?_, ?_⟩) fun i ↦ ⟨?_, ?_⟩).2.2
  all_goals
    simp only [starts, ends]
    omega

/-- Of eight iterations the last one, number 7, is printed as number 8. -/
theorem last_printed_eight : (8, ⟨0, 7⟩) ∈ report starts ends starts 8 ∧
    report starts ends starts 8 ≠
      [(0, ⟨0, 0⟩), (1, ⟨0, 1⟩), (2, ⟨0, 2⟩), (3, ⟨0, 3⟩), (4, ⟨0, 4⟩), (5, ⟨0, 5⟩), (6, ⟨0, 6⟩),
        (7, ⟨0, 7⟩)] := by
  decide

/-! ### The threads that are joined -/

/-- The variables of `main` in its creation loop: `i`, whether `ret` is an error, and the entries of
`threads[]` that are set. -/
structure Creation where
  i : ℕ
  failed : Bool
  threads : ℕ → Option ℕ

/-- The creation loop with at most a number of iterations. `create i` is the identifier that the
call with number `i` stores, or `none` if it fails. -/
def createLoop (create : ℕ → Option ℕ) : ℕ → Creation → Creation
  | 0, s => s
  | left + 1, s =>
    if s.failed then s
    else createLoop create left
      ⟨s.i + 1, (create s.i).isNone, Function.update s.threads s.i (create s.i)⟩

/-- The entries of `threads[]` that are joined if the creation of `n` threads fails. -/
def joined (n : ℕ) (create : ℕ → Option ℕ) : List (Option ℕ) :=
  let s := createLoop create n ⟨0, false, fun _ ↦ none⟩
  if s.failed then (List.range s.i).reverse.map s.threads else []

variable {create : ℕ → Option ℕ} {k : ℕ}

/-- `threads[]` after the first `i` calls. -/
def created (create : ℕ → Option ℕ) (i j : ℕ) : Option ℕ := if j < i then create j else none

theorem created_succ (create : ℕ → Option ℕ) (i : ℕ) :
    update (created create i) i (create i) = created create (i + 1) := by
  refine update_eq_iff.mpr ⟨by simp [created], fun j hj ↦ ?_⟩
  exact if_congr (by omega) rfl rfl

theorem createLoop_of_fails (hok : ∀ i < k, (create i).isSome = true) (hfail : create k = none)
    (left i : ℕ) (hi : i ≤ k) (hleft : k < i + left) :
    createLoop create left ⟨i, false, created create i⟩ =
      ⟨k + 1, true, created create (k + 1)⟩ := by
  induction left generalizing i with
  | zero => omega
  | succ left ih =>
    rw [createLoop, if_neg (by simp), created_succ]
    rcases Nat.lt_or_ge i k with hlt | hge
    · rw [← Option.not_isSome, hok i hlt]
      exact ih (i + 1) (by omega) (by omega)
    · obtain rfl : i = k := by omega
      rw [hfail]
      cases left <;> simp [createLoop]

/-- The entry of the creation that failed is joined too, and it was not set. -/
theorem joins_unset {n : ℕ} (hk : k < n) (hok : ∀ i < k, (create i).isSome = true)
    (hfail : create k = none) :
    joined n create = none :: (List.range k).reverse.map create ∧
      ¬ (joined n create).Perm ((List.range k).map create) := by
  have hloop := createLoop_of_fails hok hfail n 0 (by omega) (by omega)
  have hjoined : joined n create = none :: (List.range k).reverse.map create := by
    unfold joined
    rw [show (fun _ ↦ none) = created create 0 from rfl, hloop]
    have hunset : created create (k + 1) k = none := by simp [created, hfail]
    simp only [if_true, List.range_succ, List.reverse_concat, List.map_cons, hunset]
    refine congrArg (none :: ·) (List.map_congr_left fun j hj ↦ if_pos ?_)
    have hlt : j < k := by simpa using hj
    omega
  refine ⟨hjoined, fun hperm ↦ ?_⟩
  have hlength := hperm.length_eq
  simp [hjoined] at hlength

def secondFails (i : ℕ) : Option ℕ := if i = 1 then none else some i

theorem joins_unset_second : joined 20 secondFails = [none, some 0] ∧
    ¬ (joined 20 secondFails).Perm ((List.range 1).map secondFails) :=
  joins_unset (n := 20) (k := 1) (by decide) (by decide) rfl

/-- The first creation fails: no thread was created, and `threads[0]` is joined. -/
theorem joined_first : joined 20 (fun _ ↦ none) = [none] ∧
    ¬ (joined 20 (fun _ ↦ none)).Perm ((List.range 0).map fun _ ↦ none) := by
  decide

end OpenPosix.Mutexes.InitTests

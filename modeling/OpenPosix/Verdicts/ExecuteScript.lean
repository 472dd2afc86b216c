import Mathlib.Data.List.Basic
import Mathlib.Data.List.GetD
import Mathlib.Logic.Function.Iterate

/-!
# The main loop of `execute.sh`

`execute.sh` keeps the names of the tests in one line of words and takes word number `count` out of
it by `cut -f$count -d" "` in every round of its loop, until the word is empty. A word that is the
name of an executable file is run, and its return value is counted in one of nine classes by a
`case`.

A line that has no blank is printed by `cut` as it is, whatever the number of the field, so with a
single test the loop never sees an empty word and runs that test for ever. And the `case` has an
empty arm for the return value `3`, which is counted in `TOTAL` and in no class. `runs_once_iff`
says that these are the only two exceptions. The counters are integers through `declare -i`, and
they do not overflow. The dates and the layout of the table that is printed at the end are left out;
the variable `INTR_VAL` is written and never read.
-/

namespace OpenPosix.Verdicts.ExecuteScript

/-! ### Words and lines -/

/-- `echo` of a list of words: the words with one blank between any two. -/
def echo (words : List (List Char)) : List Char := [' '].intercalate words

/-- `cut -f$count -d" "` of a line, without `-s`. -/
def cut (count : ℕ) (line : List Char) : List Char :=
  if ' ' ∈ line then (line.splitOn ' ').getD (count - 1) [] else line

/-- `cut -b3-80` of a line of single byte characters. -/
def cutBytes (line : List Char) : List Char := (line.take 80).drop 2

/-! ### The classes -/

/-- The classes of return values. -/
inductive Class
  | pass
  | fail
  | unres
  | unsup
  | untest
  | intr
  | hung
  | segv
  | oth
  deriving DecidableEq, Repr

/-- The counters: `TOTAL`, and one for every class. -/
structure Counters where
  total : ℕ
  count : Class → ℕ

/-- The sum of the counters of the classes. -/
def Counters.sum (c : Counters) : ℕ :=
  c.count .pass + c.count .fail + c.count .unres + c.count .unsup + c.count .untest +
    c.count .intr + c.count .hung + c.count .segv + c.count .oth

/-- The arm of the `case` that a return value takes; the arm of `3` is empty. -/
def classOf (timevalRet retVal : ℕ) : Option Class :=
  if retVal = 0 then some .pass
  else if retVal = 1 then some .fail
  else if retVal = 255 then some .fail
  else if retVal = 2 then some .unres
  else if retVal = 3 then none
  else if retVal = 4 then some .unsup
  else if retVal = 5 then some .untest
  else if retVal = 10 then some .intr
  else if retVal = timevalRet then some .hung
  else if retVal = 139 then some .segv
  else some .oth

def message (file : List Char) (retVal : ℕ) : Class → String
  | .pass => String.ofList (cutBytes file) ++ ":execution:PASS "
  | .fail => String.ofList (cutBytes file) ++ ":execution:FAIL "
  | .unres => String.ofList (cutBytes file) ++ ":execution:UNRESOLVED "
  | .unsup => String.ofList (cutBytes file) ++ ":execution:UNSUPPORTED "
  | .untest => String.ofList (cutBytes file) ++ ":execution:UNTESTED "
  | .intr => String.ofList (cutBytes file) ++ ":execution:INTERRUPTED "
  | .hung => String.ofList (cutBytes file) ++ ":execution:HUNG "
  | .segv => String.ofList (cutBytes file) ++ ":execution:Segmentaion Fault "
  | .oth => "OTHERS: RET_VAL for " ++ String.ofList file ++ " : " ++ toString retVal

/-! ### The loop -/

/-- What the script finds outside: the return value of `./t0 0`, which files are executable, and the
return value of the test that is run in a round. -/
structure Outside where
  timevalRet : ℕ
  executable : List Char → Bool
  retVal : ℕ → ℕ

/-- The state of the loop: the next field, the counters, the files that were run and the lines that
were printed, and whether the script has reached its `exit`. -/
structure State where
  count : ℕ
  counters : Counters
  ran : List (List Char)
  printed : List String
  stopped : Bool

def start : State := ⟨1, ⟨0, fun _ ↦ 0⟩, [], [], false⟩

def Counters.add (c : Counters) : Option Class → Counters
  | some k => { c with count := Function.update c.count k (c.count k + 1) }
  | none => c

/-- The run of an executable file, and the `case` on its return value. -/
def runFile (outside : Outside) (file : List Char) (s : State) : State :=
  let retVal := outside.retVal s.count
  let counters : Counters := { s.counters with total := s.counters.total + 1 }
  { s with
    counters := counters.add (classOf outside.timevalRet retVal)
    ran := s.ran ++ [file]
    printed := s.printed ++ ((classOf outside.timevalRet retVal).map (message file retVal)).toList }

def round (outside : Outside) (newstr : List Char) (s : State) : State :=
  if s.stopped then s
  else
    let file := cut s.count newstr
    if file = [] then { s with stopped := true }
    else
      let s' := if outside.executable file then runFile outside file s else s
      { s' with count := s.count + 1 }

/-- The state of the loop after a number of rounds. -/
def rounds (outside : Outside) (newstr : List Char) (n : ℕ) : State :=
  (round outside newstr)^[n] start

/-- A list of names of executable files, none of them empty and none with a blank. -/
structure Tests (outside : Outside) (files : List (List Char)) : Prop where
  nonempty : ∀ file ∈ files, file ≠ []
  blankless : ∀ file ∈ files, ' ' ∉ file
  executable : ∀ file ∈ files, outside.executable file = true

variable {outside : Outside} {files : List (List Char)}

/-! ### The words of the line -/

theorem mem_echo_of_two {first second : List Char} {rest : List (List Char)} :
    ' ' ∈ echo (first :: second :: rest) := by
  simp [echo, List.intercalate]

/-- Assumes: at least two words, none with a blank. Field `count` is word `count`, or empty. -/
theorem cut_echo (htwo : 2 ≤ files.length) (h : ∀ file ∈ files, ' ' ∉ file) (count : ℕ) :
    cut count (echo files) = files.getD (count - 1) [] := by
  have hblank : ' ' ∈ echo files := by
    match files, htwo with
    | _ :: _ :: _, _ => exact mem_echo_of_two
  have hne : files ≠ [] := by
    rintro rfl
    simp at htwo
  unfold cut
  rw [if_pos hblank, echo, List.splitOn_intercalate ' ' h hne]

/-- A single word is every field. -/
theorem cut_echo_single {file : List Char} (h : ' ' ∉ file) (count : ℕ) :
    cut count (echo [file]) = file := by
  have hecho : echo [file] = file := by simp [echo]
  rw [hecho, cut, if_neg h]

/-! ### The counters -/

theorem classOf_eq_none_iff (timevalRet retVal : ℕ) :
    classOf timevalRet retVal = none ↔ retVal = 3 := by
  fun_cases classOf timevalRet retVal <;> simp_all

@[simp] theorem add_total (c : Counters) (k : Option Class) : (c.add k).total = c.total := by
  cases k <;> rfl

/-- A class adds one to the sum, and the empty arm nothing. -/
theorem sum_add (c : Counters) (k : Option Class) : (c.add k).sum = c.sum + k.toList.length := by
  cases k with
  | none => rfl
  | some k =>
    have hadd : ∀ k', Function.update c.count k (c.count k + 1) k' =
        c.count k' + if k' = k then 1 else 0 := fun k' ↦ by
      by_cases heq : k' = k
      · simp [heq]
      · simp [heq]
    -- Exactly one of the nine summands is the class `k`.
    have hone : (Counters.sum ⟨0, fun k' ↦ if k' = k then 1 else 0⟩) = 1 := by cases k <;> rfl
    simp only [Counters.sum] at hone
    simp only [Counters.sum, Counters.add, hadd, Option.toList_some, List.length_singleton]
    omega

/-! ### The rounds -/

variable {newstr : List Char}

theorem rounds_succ (newstr : List Char) (n : ℕ) :
    rounds outside newstr (n + 1) = round outside newstr (rounds outside newstr n) :=
  Function.iterate_succ_apply' _ n start

/-- A stopped script does nothing more. -/
theorem rounds_stopped {n : ℕ} (h : (rounds outside newstr n).stopped = true) (extra : ℕ) :
    rounds outside newstr (n + extra) = rounds outside newstr n := by
  induction extra with
  | zero => rfl
  | succ extra ih =>
    rw [← Nat.add_assoc, rounds_succ, ih, round, if_pos h]

/-- There is one state in which the script stops. -/
theorem rounds_stopped_unique {m n : ℕ} (hm : (rounds outside newstr m).stopped = true)
    (hn : (rounds outside newstr n).stopped = true) :
    rounds outside newstr m = rounds outside newstr n := by
  rw [← rounds_stopped hm n, ← rounds_stopped hn m, Nat.add_comm]

/-- A round that finds an executable file. -/
theorem round_file {s : State} (hrunning : s.stopped = false) (hfile : cut s.count newstr ≠ [])
    (hexec : outside.executable (cut s.count newstr) = true) : round outside newstr s =
      { runFile outside (cut s.count newstr) s with count := s.count + 1 } := by
  unfold round
  rw [if_neg (by simp [hrunning])]
  simp only [if_neg hfile, hexec, if_true]

/-- Where the loop is after `k` of its rounds. -/
structure After (outside : Outside) (files : List (List Char)) (k : ℕ) (s : State) : Prop where
  count : s.count = k + 1
  running : s.stopped = false
  ran : s.ran = files.take k
  total : s.counters.total = k
  sum : s.counters.sum + (List.range k).countP (fun j ↦ outside.retVal (j + 1) = 3) = k

theorem after_start : After outside files 0 start := ⟨rfl, rfl, rfl, rfl, rfl⟩

/-- Assumes: at least two tests, and one of them is left. A round runs it. -/
theorem After.round {k : ℕ} {s : State} (h : After outside files k s)
    (hfiles : Tests outside files) (htwo : 2 ≤ files.length) (hk : k < files.length) :
    After outside files (k + 1) (round outside (echo files) s) := by
  have hcut : cut s.count (echo files) = files[k] := by
    rw [cut_echo htwo hfiles.blankless, h.count, Nat.add_sub_cancel]
    exact List.getD_eq_getElem files [] hk
  have hmem : files[k] ∈ files := List.getElem_mem hk
  rw [round_file h.running (hcut ▸ hfiles.nonempty _ hmem) (hcut ▸ hfiles.executable _ hmem), hcut]
  constructor
  · show s.count + 1 = _
    rw [h.count]
  · exact h.running
  · show s.ran ++ [files[k]] = _
    rw [h.ran, List.take_succ_eq_append_getElem hk]
  · show (Counters.add _ _).total = _
    rw [add_total, h.total]
  · show (Counters.add _ _).sum + _ = _
    have hsum := h.sum
    rw [sum_add, List.range_succ, List.countP_append, List.countP_singleton, h.count]
    have hthree := classOf_eq_none_iff outside.timevalRet (outside.retVal (k + 1))
    show s.counters.sum + _ + _ = _
    by_cases heq : outside.retVal (k + 1) = 3
    · rw [hthree.mpr heq]
      simp only [heq, Option.toList_none, List.length_nil, decide_true, if_true]
      omega
    · obtain ⟨c, hc⟩ := Option.ne_none_iff_exists'.mp (fun hnone ↦ heq (hthree.mp hnone))
      rw [hc]
      simp only [heq, Option.toList_some, List.length_singleton, decide_false, Bool.false_eq_true,
        if_false]
      omega

theorem after_rounds (hfiles : Tests outside files) (htwo : 2 ≤ files.length) {k : ℕ}
    (hk : k ≤ files.length) : After outside files k (rounds outside (echo files) k) := by
  induction k with
  | zero => exact after_start
  | succ k ih =>
    rw [rounds_succ]
    exact (ih (by omega)).round hfiles htwo (by omega)

/-- Assumes: at least two tests. After the last one the script stops, with everything as it was. -/
theorem rounds_end (hfiles : Tests outside files) (htwo : 2 ≤ files.length) :
    rounds outside (echo files) (files.length + 1) =
      { rounds outside (echo files) files.length with stopped := true } := by
  have hafter := after_rounds hfiles htwo (Nat.le_refl _)
  have hempty : cut (rounds outside (echo files) files.length).count (echo files) = [] := by
    rw [cut_echo htwo hfiles.blankless, hafter.count, Nat.add_sub_cancel]
    exact List.getD_eq_default files [] (Nat.le_refl _)
  rw [rounds_succ]
  unfold round
  rw [if_neg (by simp [hafter.running])]
  simp only [hempty, if_true]

/-- A single test is run in every round. -/
theorem rounds_single {file : List Char} (hfiles : Tests outside [file]) (n : ℕ) :
    (rounds outside (echo [file]) n).stopped = false ∧
      (rounds outside (echo [file]) n).ran = List.replicate n file := by
  induction n with
  | zero => exact ⟨rfl, rfl⟩
  | succ n ih =>
    have hmem : file ∈ [file] := List.mem_singleton_self file
    have hcut := cut_echo_single (hfiles.blankless file hmem) (rounds outside (echo [file]) n).count
    rw [rounds_succ, round_file ih.1 (by rw [hcut]; exact hfiles.nonempty file hmem)
      (by rw [hcut]; exact hfiles.executable file hmem), hcut]
    refine ⟨ih.1, ?_⟩
    show (rounds outside (echo [file]) n).ran ++ [file] = _
    rw [ih.2, List.replicate_succ']

/-! ### The result -/

/-- The loop runs every listed file once and in order, stops, and reports as many tests as there
are, each of them in a class. -/
def RunsOnce (outside : Outside) (files : List (List Char)) : Prop :=
  ∃ n, (rounds outside (echo files) n).stopped = true ∧
    (rounds outside (echo files) n).ran = files ∧
    (rounds outside (echo files) n).counters.total = files.length ∧
    (rounds outside (echo files) n).counters.total =
      (rounds outside (echo files) n).counters.sum

/-- Assumes: a list of at least one executable file, the names not empty and without blanks. The
loop runs each of them once, in order, stops, and reports a `TOTAL` that is their number and the sum
of the classes, if and only if there are at least two files and none of them returns `3`. -/
theorem runs_once_iff (outside : Outside) (files : List (List Char)) (hone : 1 ≤ files.length)
    (hfiles : Tests outside files) :
    RunsOnce outside files ↔
      2 ≤ files.length ∧ ∀ k < files.length, outside.retVal (k + 1) ≠ 3 := by
  by_cases htwo : 2 ≤ files.length
  · have hafter := after_rounds hfiles htwo (Nat.le_refl _)
    have hend := rounds_end hfiles htwo
    have hsum := hafter.sum
    have hclassed : (rounds outside (echo files) files.length).counters.sum = files.length ↔
        ∀ k < files.length, outside.retVal (k + 1) ≠ 3 := by
      have hzero : (List.range files.length).countP
          (fun j ↦ decide (outside.retVal (j + 1) = 3)) = 0 ↔
            ∀ k < files.length, outside.retVal (k + 1) ≠ 3 := by
        simp [List.countP_eq_zero]
      rw [← hzero]
      omega
    constructor
    · rintro ⟨n, hstopped, -, htotal, hcounted⟩
      have hsame := rounds_stopped_unique hstopped
        (show (rounds outside (echo files) (files.length + 1)).stopped = true by rw [hend])
      rw [hsame, hend] at htotal hcounted
      exact ⟨htwo, hclassed.mp (hcounted.symm.trans htotal)⟩
    · rintro ⟨-, hcodes⟩
      refine ⟨files.length + 1, ?_⟩
      rw [hend]
      refine ⟨rfl, hafter.ran.trans List.take_length, hafter.total, ?_⟩
      exact hafter.total.trans (hclassed.mpr hcodes).symm
  · -- A single name: the line has no blank, and the loop does not stop.
    obtain ⟨file, rfl⟩ := List.length_eq_one_iff.mp (show files.length = 1 by omega)
    refine iff_of_false ?_ fun hboth ↦ htwo hboth.1
    rintro ⟨n, hstopped, -⟩
    rw [(rounds_single hfiles n).1] at hstopped
    exact absurd hstopped (by simp)

/-- An outside in which every file is executable, and the third round returns a given value. -/
def third (retVal : ℕ) : Outside := ⟨14, fun _ ↦ true, fun n ↦ if n = 3 then retVal else 0⟩

theorem tests_third (retVal : ℕ) :
    Tests (third retVal) ["a-1".toList, "b-1".toList, "c-1".toList] :=
  ⟨by decide, by decide, fun _ _ ↦ rfl⟩

/-- Three tests, the last of which fails: each is run once and all are counted. -/
theorem runs_once_third : RunsOnce (third 1) ["a-1".toList, "b-1".toList, "c-1".toList] :=
  (runs_once_iff (third 1) _ (by decide) (tests_third 1)).mpr ⟨by decide, by decide⟩

/-- A single test is run for ever, and a test that returns `3` is in no class. -/
theorem not_runs_once :
    (∀ n, (rounds (third 1) (echo ["a-1".toList]) n).stopped = false ∧
      (rounds (third 1) (echo ["a-1".toList]) n).ran = List.replicate n "a-1".toList) ∧
    (rounds (third 3) (echo ["a-1".toList, "b-1".toList, "c-1".toList]) 4).stopped = true ∧
    (rounds (third 3) (echo ["a-1".toList, "b-1".toList, "c-1".toList]) 4).counters.total = 3 ∧
    (rounds (third 3) (echo ["a-1".toList, "b-1".toList, "c-1".toList]) 4).counters.sum = 2 := by
  refine ⟨rounds_single ⟨by decide, by decide, fun _ _ ↦ rfl⟩, ?_⟩
  decide

end OpenPosix.Verdicts.ExecuteScript

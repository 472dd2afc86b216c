import Mathlib.Tactic.Common

/-!
# The thread attribute scenarios of `threads_scenarii.c`

`threads_scenarii.c` lists combinations of thread attributes, each with the outcome that
`pthread_create` is expected to have with them. The test programs that include it walk over the list
and create threads with each combination. Of a scenario the modelled programs read `detached`,
`result` and `bottom`; `scenar_init` gives `bottom` a value exactly for the scenarios with an
alternative stack, and only where the system has the two stack options.
-/

namespace OpenPosix.Threads

/-- The field `result`: the creation is expected to succeed (0), to fail (1), or not known (2). -/
inductive Expected
  | succeed
  | fail
  | unknown
  deriving DecidableEq, Repr

/-- What the `switch` over `result` lets through. Any other outcome ends the program with the
verdict `UNRESOLVED`. -/
def Expected.admits : Expected → Bool → Bool
  | .succeed, created => created
  | .fail, created => !created
  | .unknown, _ => true

theorem Expected.admits_true_iff {expected : Expected} :
    expected.admits true = true ↔ expected ≠ .fail := by
  cases expected <;> simp [admits]

/-- A scenario, with the fields that the modelled programs read. -/
structure Scenario where
  detached : Bool
  altstack : Bool
  result : Expected
  deriving DecidableEq, Repr

/-- Whether `bottom` is set after `scenar_init`. `stackOptions` says that `sysconf` reports both the
stack address and the stack size option. -/
def Scenario.bottom (stackOptions : Bool) (scenario : Scenario) : Bool :=
  stackOptions && scenario.altstack

/-- `CASE_POS`: a scenario that is expected to succeed. -/
def casePos (detached altstack : Bool) : Scenario := ⟨detached, altstack, .succeed⟩

/-- `CASE_UNK`: a scenario whose outcome is not known. -/
def caseUnk (detached altstack : Bool) : Scenario := ⟨detached, altstack, .unknown⟩

/-- The array `scenarii`: the unary tests, the stack play and the scheduling play. No scenario of it
uses `CASE_NEG`. -/
def scenarii : List Scenario :=
  [casePos false false, casePos true false, casePos false false, caseUnk false false,
    caseUnk false false, caseUnk false false, caseUnk false false, casePos false false,
    casePos false true, casePos false false, caseUnk false false, casePos false false,
    casePos false false, caseUnk false false, casePos true true, casePos true false,
    caseUnk true false] ++
  List.replicate 8 (caseUnk false false) ++ List.replicate 8 (caseUnk true false)

theorem result_ne_fail {scenario : Scenario} (hmem : scenario ∈ scenarii) :
    scenario.result ≠ .fail :=
  (show ∀ scenario ∈ scenarii, scenario.result ≠ .fail by decide) scenario hmem

end OpenPosix.Threads

import OpenPosix.Mutexes.StressModel

/-!
# The byte that `control` works with

`control` of `stress/threads/pthread_mutex_lock/stress.c` gets a pointer to the variable `loc` of
its caller, and is to store a new value of that variable in `ctrl` at each call. Its first statement
is `*loc++`, which moves the pointer, so that the rest of the function reads and writes the byte
behind the variable.

A call has the mutex, so that `ctrl` is zero at its start and nobody else changes it meanwhile. The
memory behind the variable may change between two calls.
-/

namespace OpenPosix.Mutexes.Stress

/-- The memory that a call can reach: `ctrl`, and the bytes from the address of `loc` on. -/
structure Memory where
  ctrl : BitVec 8
  byte : ℕ → BitVec 8

/-- A place that a call has read or written. -/
inductive Access
  | ctrl
  | byte (offset : ℕ)
  deriving DecidableEq, Repr

/-- What is seen of a call: the value it has stored in `ctrl`, the value that the variable of the
caller had then, and what the call has accessed. -/
structure Call where
  stored : BitVec 8
  current : BitVec 8
  accesses : List Access
  deriving DecidableEq, Repr

/-- `control(c, &loc)`. A call that fails has no outcome. -/
def controlCall (m : Memory) : Option (Memory × Call) :=
  let loc := 0
  -- `*loc++`
  let read := Access.byte loc
  let loc := loc + 1
  if m.ctrl ≠ 0#8 then none
  else
    let m := { m with ctrl := m.byte loc }
    let stored := m.ctrl
    let current := m.byte 0
    if m.ctrl ≠ m.byte loc then none
    else some (⟨0#8, Function.update m.byte loc (avoid (m.byte loc))⟩,
      ⟨stored, current, [read, .ctrl, .byte loc]⟩)

/-- The memory before a call, with what is behind the variable. -/
def before (loc : BitVec 8) (behind : ℕ → BitVec 8) : Memory where
  ctrl := 0#8
  byte
    | 0 => loc
    | k + 1 => behind k

/-- A sequence of calls that does what it is for: each call stores the value that the variable
has then, which is not zero and not the value that was stored before, and accesses nothing but
`ctrl` and the variable. -/
def Controls : Option (BitVec 8) → BitVec 8 → List (ℕ → BitVec 8) → Prop
  | _, _, [] => True
  | previous, loc, behind :: rest =>
    ∃ m call, controlCall (before loc behind) = some (m, call) ∧
      call.stored = call.current ∧ call.stored ≠ 0#8 ∧ previous ≠ some call.stored ∧
      (∀ access ∈ call.accesses, access = .ctrl ∨ access = .byte 0) ∧
      Controls (some call.stored) (m.byte 0) rest

/-- A call stores the byte behind the variable, and leaves the variable as it is. -/
theorem controlCall_before (loc : BitVec 8) (behind : ℕ → BitVec 8) :
    ∃ m, controlCall (before loc behind) = some (m, ⟨behind 0, loc, [.byte 0, .ctrl, .byte 1]⟩) ∧
      m.byte 0 = loc ∧ m.byte 1 = avoid (behind 0) := by
  refine ⟨⟨0#8, Function.update (before loc behind).byte 1 (avoid (behind 0))⟩, ?_, rfl, rfl⟩
  simp [controlCall, before]

/-- Every call accesses the byte behind the variable. -/
theorem controls_iff (loc : BitVec 8) (calls : List (ℕ → BitVec 8)) :
    Controls none loc calls ↔ calls = [] := by
  refine ⟨fun h ↦ ?_, fun h ↦ h ▸ trivial⟩
  cases calls with
  | nil => rfl
  | cons behind rest =>
    obtain ⟨m, call, hcall, -, -, -, haccess, -⟩ := h
    obtain ⟨m', hcall', -⟩ := controlCall_before loc behind
    cases hcall.symm.trans hcall'
    simpa using haccess (.byte 1) (by simp)

/-- The byte behind the variable is zero: the call stores zero, whatever the variable is. -/
theorem stores_zero : ¬ Controls none 1#8 [fun _ ↦ 0#8] ∧
    (controlCall (before 1#8 fun _ ↦ 0#8)).map (fun result ↦ result.2.stored) = some 0#8 := by
  refine ⟨fun h ↦ ?_, by decide⟩
  obtain ⟨m, call, hcall, hstored, -⟩ := h
  cases hcall
  revert hstored
  decide

end OpenPosix.Mutexes.Stress

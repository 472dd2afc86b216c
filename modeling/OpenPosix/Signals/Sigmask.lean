import OpenPosix.Signals.HarnessInvariant

/-!
# The receiver of `pthread_sigmask/18-1.c`

One thread, `test`. It unblocks the two user signals and then changes its mask in a loop, with a set
to which it adds and from which it removes other signals in turn. The set never has a user signal in
it, so whatever `pthread_sigmask` does with it the thread goes on to take both (`lawful`).
-/

namespace OpenPosix.Signals.Sigmask

/-- The signals that the thread handles masks of: the user signals and the array `signals`. -/
inductive Signal
  | user (sig : UserSig)
  | bus
  | kill
  | abrt
  | chld
  | hup
  deriving DecidableEq, Repr

def signals : ℕ → Signal
  | 0 => .bus
  | 1 => .kill
  | 2 => .abrt
  | 3 => .chld
  | _ => .hup

/-- The number of entries of `signals`, `NSIG` in the source. -/
def nsig : ℕ := 5

abbrev SigSet := Signal → Bool

def usersigs : SigSet
  | .user _ => true
  | _ => false

/-- The array `operation`, in the order in which one round of the loop uses it. -/
inductive Operation
  | setmask
  | block
  | unblock
  deriving DecidableEq, Repr

/-- `pthread_sigmask`: the mask after an operation with a set. -/
@[simp] def Operation.apply (set mask : SigSet) : Operation → SigSet
  | .setmask => set
  | .block => fun signal ↦ mask signal || set signal
  | .unblock => fun signal ↦ mask signal && !set signal

inductive Point
  | unborn
  | unblock
  | loop
  | ope (operation : Operation)
  | ret
  | exited
  deriving DecidableEq, Repr

/-- The point after an operation: the next one of the inner loop, or the test of `do_it`. -/
def Operation.next : Operation → Point
  | .setmask => .ope .block
  | .block => .ope .unblock
  | .unblock => .loop

/-- The thread: its point, its local variables `j` and `set`, and its signal mask. -/
structure World where
  point : Point
  j : ℕ
  set : SigSet
  mask : SigSet

/-- The update of `set` in one round of the inner loop. -/
def changeSet (j : ℕ) (set : SigSet) : SigSet :=
  if nsig ≤ j then Function.update set (signals (j - nsig)) false
  else Function.update set (signals j) true

def test (doIt : Bool) (w : World) : Option World :=
  match w.point with
  | .unborn => none
  | .unblock => some { w with mask := Operation.unblock.apply usersigs w.mask, point := .loop }
  | .loop => some { w with point := if doIt then .ope .setmask else .ret }
  | .ope operation =>
    let j := (w.j + 1) % (2 * nsig)
    let set := changeSet j w.set
    some { j := j, set := set, mask := operation.apply set w.mask, point := operation.next }
  | .ret => some { w with point := .exited }
  | .exited => none

/-- The thread exists and has not returned. -/
@[simp] def Point.alive : Point → Bool
  | .unborn | .exited => false
  | _ => true

/-- The receivers of the program. A thread starts with the mask of `main`. -/
def receivers : Receivers where
  World := World
  Id := Unit
  Act := Unit
  init := ⟨.unborn, 0, fun _ ↦ false, usersigs⟩
  threads := [()]
  create := fun _ _ ↦ ⟨.unblock, 0, fun _ ↦ false, usersigs⟩
  owner := fun _ ↦ ()
  step := fun doIt w _ ↦ test doIt w
  takes := fun w _ sig ↦ w.point.alive && !w.mask (.user sig)
  exited := fun w _ ↦ w.point = .exited
  served := fun _ w ↦ w.point ≠ .exited

/-- The points between the start of the thread and the test of `do_it` that ends its loop. -/
@[simp] def Point.masked : Point → Bool
  | .unborn | .unblock => true
  | _ => false

/-- The set has no user signal, the user signals are unblocked once the thread has unblocked them,
and the thread ends its loop on a cleared `do_it`. -/
structure Ok (doIt : Bool) (w : World) : Prop where
  set : ∀ sig, w.set (.user sig) = false
  mask : w.point.masked = false → ∀ sig, w.mask (.user sig) = false
  ends : w.point = .ret ∨ w.point = .exited → doIt = false

theorem signals_ne_user (index : ℕ) (sig : UserSig) : Signal.user sig ≠ signals index := by
  unfold signals
  split <;> simp

/-- Neither `sigaddset` nor `sigdelset` is called with a user signal. -/
theorem changeSet_user (j : ℕ) (set : SigSet) (sig : UserSig) :
    changeSet j set (.user sig) = set (.user sig) := by
  unfold changeSet
  split_ifs <;> exact Function.update_of_ne (signals_ne_user _ sig) ..

theorem apply_user {set mask : SigSet} {sig : UserSig} (hset : set (.user sig) = false)
    (hmask : mask (.user sig) = false) (operation : Operation) :
    operation.apply set mask (.user sig) = false := by
  cases operation <;> simp [hset, hmask]

theorem Ok.step {doIt : Bool} {w w' : World} (h : Ok doIt w) (hnext : test doIt w = some w') :
    Ok doIt w' := by
  unfold test at hnext
  cases hpoint : w.point <;> simp only [hpoint, reduceCtorEq] at hnext
  case unblock =>
    cases hnext
    exact ⟨h.set, fun _ sig ↦ by simp [usersigs], by simp⟩
  case loop =>
    cases hnext
    refine ⟨h.set, fun _ ↦ h.mask (by simp [hpoint]), ?_⟩
    cases doIt <;> simp
  case ope operation =>
    cases hnext
    have hset : ∀ sig, changeSet ((w.j + 1) % (2 * nsig)) w.set (.user sig) = false :=
      fun sig ↦ (changeSet_user _ _ sig).trans (h.set sig)
    have hmask := h.mask (by simp [hpoint])
    refine ⟨hset, fun _ sig ↦ apply_user (hset sig) (hmask sig) operation, ?_⟩
    cases operation <;> simp [Operation.next]
  case ret =>
    cases hnext
    exact ⟨h.set, fun _ ↦ h.mask (by simp [hpoint]), fun _ ↦ h.ends (.inl hpoint)⟩

theorem test_born {doIt : Bool} {w w' : World} (hnext : test doIt w = some w') :
    w'.point ≠ .unborn := by
  unfold test at hnext
  cases hpoint : w.point <;> simp only [hpoint, reduceCtorEq] at hnext
  case loop =>
    cases hnext
    cases doIt <;> simp
  case ope operation =>
    cases hnext
    cases operation <;> simp [Operation.next]
  case unblock | ret =>
    exact Option.some.inj hnext ▸ by simp

/-- A thread that has not returned has its signals unblocked, or unblocks them with its next step.
-/
theorem Ok.reaches {doIt : Bool} {w : World} (h : Ok doIt w) (hborn : w.point ≠ .unborn)
    (hlive : w.point ≠ .exited) : ∃ w',
      Relation.ReflTransGen (fun w w' ↦ ∃ _ : Unit, test doIt w = some w') w w' ∧
        ∀ sig, (w'.point.alive && !w'.mask (.user sig)) = true := by
  cases hpoint : w.point with
  | unborn => exact absurd hpoint hborn
  | unblock =>
    refine ⟨_, .single ⟨(), by rw [test, hpoint]⟩, fun sig ↦ ?_⟩
    simp [usersigs]
  | exited => exact absurd hpoint hlive
  | loop | ope | ret =>
    have hmask := h.mask (by simp [hpoint])
    exact ⟨w, .refl, fun sig ↦ by simp [hpoint, hmask sig]⟩

/-- The receivers keep what the harness relies on. -/
def lawful : Lawful receivers where
  Ok := Ok
  unborn := fun w _ ↦ w.point = .unborn
  ok_init := ⟨fun _ ↦ rfl, by simp [receivers], by simp [receivers]⟩
  ok_create := fun _ _ ↦ ⟨fun _ ↦ rfl, by simp [receivers], by simp [receivers]⟩
  ok_step := Ok.step
  ok_stop := fun h ↦ ⟨h.set, h.mask, fun _ ↦ rfl⟩
  born_create := by simp [receivers]
  born_step := fun hstep hunborn ↦ absurd hunborn (test_born hstep)
  served_of_doIt := fun {w} h ↦ by
    have hends := h.ends
    simp only [receivers, decide_eq_true_eq]
    intro hexited
    simpa using hends (.inr hexited)
  served_of_takes := by
    intro doIt w _ sig _ htakes
    cases hpoint : w.point <;> simp [receivers, hpoint] at htakes ⊢
  served_of_step := by
    intro w w' _ _ hstep _
    simp only [receivers, decide_eq_true_eq] at hstep ⊢
    intro hexited
    simp [test, hexited] at hstep
  reaches := by
    intro doIt w h hborn hserved
    obtain ⟨w', hsteps, htakes⟩ := h.reaches (hborn () List.mem_cons_self)
      (by simpa [receivers] using hserved)
    exact ⟨w', (), hsteps, htakes⟩

end OpenPosix.Signals.Sigmask

import OpenPosix.Signals.HarnessInvariant

/-!
# The receivers of `pthread_cond_wait/4-1.c`

Two threads. `waiter` unblocks the user signals and waits for a condition variable in a loop, until
it finds `do_it` cleared; `worker` blocks them and signals the condition until `waiter` has left its
loop. Only `waiter` takes signals, also while it is blocked in `pthread_cond_wait`. A wait may also
end without a signal of the condition, as POSIX allows; such a wake-up is a step of its own.
-/

namespace OpenPosix.Signals.CondWait

/-- The points of `waiter`. The call of `pthread_cond_wait` releases the mutex (`condWait`), waits
for the condition (`waiting`) and locks the mutex again (`relock`). -/
inductive WaiterPoint
  | unborn
  | unblock
  | lock
  | condWait
  | waiting
  | relock
  | test
  | incWoken
  | unlock
  | ret
  | exited
  deriving DecidableEq, Repr

inductive WorkerPoint
  | unborn
  | block
  | loop
  | signal
  | ret
  | exited
  deriving DecidableEq, Repr

inductive Id
  | waiter
  | worker
  deriving DecidableEq, Repr

inductive Act
  | waiter
  | worker
  | spurious
  deriving DecidableEq, Repr

/-- The threads, `data.mtx` and `woken`. -/
structure World where
  waiter : WaiterPoint
  worker : WorkerPoint
  locked : Bool
  woken : ℕ

def waiter (doIt : Bool) (w : World) : Option World :=
  match w.waiter with
  | .unborn => none
  | .unblock => some { w with waiter := .lock }
  | .lock => if w.locked then none else some { w with locked := true, waiter := .condWait }
  | .condWait => some { w with locked := false, waiter := .waiting }
  | .waiting => none
  | .relock => if w.locked then none else some { w with locked := true, waiter := .test }
  | .test => some { w with waiter := if doIt then .condWait else .incWoken }
  | .incWoken => some { w with woken := w.woken + 1, waiter := .unlock }
  | .unlock => some { w with locked := false, waiter := .ret }
  | .ret => some { w with waiter := .exited }
  | .exited => none

/-- A wake-up of `waiter`, if it waits for the condition. -/
def WaiterPoint.wake : WaiterPoint → WaiterPoint
  | .waiting => .relock
  | point => point

/-- One step of `worker`. A signal of the condition that `waiter` does not wait for is lost. -/
def worker (w : World) : Option World :=
  match w.worker with
  | .unborn => none
  | .block => some { w with worker := .loop }
  | .loop => some { w with worker := if w.woken = 0 then .signal else .ret }
  | .signal => some { w with waiter := w.waiter.wake, worker := .loop }
  | .ret => some { w with worker := .exited }
  | .exited => none

def step (doIt : Bool) (w : World) : Act → Option World
  | .waiter => waiter doIt w
  | .worker => worker w
  | .spurious => if w.waiter = .waiting then some { w with waiter := .relock } else none

/-- The thread has unblocked the signals and has not returned. -/
def WaiterPoint.unblocked : WaiterPoint → Bool
  | .unborn | .unblock | .exited => false
  | _ => true

def receivers : Receivers where
  World := World
  Id := Id
  Act := Act
  init := ⟨.unborn, .unborn, false, 0⟩
  threads := [.waiter, .worker]
  create := fun w id ↦
    match id with
    | .waiter => { w with waiter := .unblock }
    | .worker => { w with worker := .block }
  owner := fun act ↦
    match act with
    | .waiter | .spurious => .waiter
    | .worker => .worker
  step := step
  takes := fun w id _ ↦
    match id with
    | .waiter => w.waiter.unblocked
    | .worker => false
  exited := fun w id ↦
    match id with
    | .waiter => w.waiter = .exited
    | .worker => w.worker = .exited
  served := fun _ w ↦ w.waiter ≠ .exited

/-- The points of `waiter` after its loop. -/
@[simp] def WaiterPoint.ended : WaiterPoint → Bool
  | .incWoken | .unlock | .ret | .exited => true
  | _ => false

/-- `waiter` leaves its loop on a cleared `do_it`. -/
def Ok (doIt : Bool) (w : World) : Prop := w.waiter.ended = true → doIt = false

/-- A step that moves `waiter` finds it alive, leaves it created, and gets it out of its loop only
when `do_it` is cleared. -/
structure Moves (doIt : Bool) (point point' : WaiterPoint) : Prop where
  alive : point ≠ .exited
  born : point' ≠ .unborn
  ended : point'.ended = true → point.ended = true ∨ doIt = false

theorem moves_of_waiter {doIt : Bool} {w w' : World} (hnext : waiter doIt w = some w') :
    Moves doIt w.waiter w'.waiter := by
  unfold waiter at hnext
  cases hpoint : w.waiter <;> simp only [hpoint, reduceCtorEq] at hnext
  case lock | relock =>
    simp only [Option.ite_none_left_eq_some] at hnext
    exact Option.some.inj hnext.2 ▸ ⟨by simp, by simp, by simp⟩
  case test =>
    cases hnext
    cases doIt with
    | true => exact ⟨by simp, by simp, by simp⟩
    | false => exact ⟨by simp, by simp, fun _ ↦ .inr rfl⟩
  case unblock | condWait =>
    exact Option.some.inj hnext ▸ ⟨by simp, by simp, by simp⟩
  case incWoken | unlock | ret =>
    exact Option.some.inj hnext ▸ ⟨by simp, by simp, fun _ ↦ .inl rfl⟩

/-- `worker` leaves `waiter` where it is, or wakes it up. -/
theorem waiter_of_worker {w w' : World} (hnext : worker w = some w') :
    (w'.waiter = w.waiter ∨ w.waiter = .waiting ∧ w'.waiter = .relock) ∧ w'.worker ≠ .unborn := by
  unfold worker at hnext
  cases hpoint : w.worker <;> simp only [hpoint, reduceCtorEq] at hnext
  case loop =>
    exact Option.some.inj hnext ▸ ⟨.inl rfl, by dsimp only; split <;> simp⟩
  case signal =>
    cases hnext
    refine ⟨?_, by simp⟩
    cases w.waiter <;> simp [WaiterPoint.wake]
  case block | ret =>
    exact Option.some.inj hnext ▸ ⟨.inl rfl, by simp⟩

theorem moves_wake (doIt : Bool) : Moves doIt .waiting .relock :=
  ⟨by simp, by simp, by simp⟩

theorem moves_of_step {doIt : Bool} {w w' : World} {act : Act} (hnext : step doIt w act = some w') :
    w'.waiter = w.waiter ∨ Moves doIt w.waiter w'.waiter := by
  cases act with
  | waiter => exact .inr (moves_of_waiter hnext)
  | worker =>
    obtain ⟨hsame | ⟨hwaiting, hrelock⟩, -⟩ := waiter_of_worker hnext
    · exact .inl hsame
    · exact .inr (hwaiting ▸ hrelock ▸ moves_wake doIt)
  | spurious =>
    obtain ⟨hwaiting, rfl⟩ : w.waiter = .waiting ∧ { w with waiter := .relock } = w' := by
      simpa [step] using hnext
    exact .inr (hwaiting ▸ moves_wake doIt)

theorem Ok.step {doIt : Bool} {w w' : World} {act : Act} (h : Ok doIt w)
    (hnext : CondWait.step doIt w act = some w') : Ok doIt w' := by
  intro hended
  obtain hsame | hmoves := moves_of_step hnext
  · exact h (hsame ▸ hended)
  · exact (hmoves.ended hended).elim h id

def Unborn (w : World) : Id → Prop
  | .waiter => w.waiter = .unborn
  | .worker => w.worker = .unborn

theorem unborn_of_step {doIt : Bool} {w w' : World} {act : Act} {id : Id}
    (hnext : step doIt w act = some w') (hunborn : Unborn w' id) : Unborn w id := by
  cases id with
  | waiter =>
    obtain hsame | hmoves := moves_of_step hnext
    · exact hsame.symm.trans hunborn
    · exact absurd hunborn hmoves.born
  | worker =>
    cases act with
    | waiter =>
      have hsame : w'.worker = w.worker := by
        change waiter doIt w = some w' at hnext
        unfold waiter at hnext
        cases hpoint : w.waiter <;> simp [hpoint] at hnext <;> simp [← hnext]
      exact hsame.symm.trans hunborn
    | worker => exact absurd hunborn (waiter_of_worker hnext).2
    | spurious =>
      obtain ⟨-, rfl⟩ : w.waiter = .waiting ∧ { w with waiter := .relock } = w' := by
        simpa [step] using hnext
      exact hunborn

/-- The receivers keep what the harness relies on. -/
def lawful : Lawful receivers where
  Ok := Ok
  unborn := Unborn
  ok_init := by simp [receivers, Ok]
  ok_create := fun {doIt w} id h ↦ by
    cases id with
    | waiter => simp [receivers, Ok]
    | worker => exact h
  ok_step := Ok.step
  ok_stop := fun _ _ ↦ rfl
  born_create := fun {w id other} hunborn ↦ by
    cases id <;> cases other <;> simp_all [receivers, Unborn]
  born_step := unborn_of_step
  served_of_doIt := fun {w} h ↦ by
    simp only [receivers, decide_eq_true_eq]
    intro hexited
    simpa using h (by rw [hexited]; rfl)
  served_of_takes := fun {doIt w id sig} _ htakes ↦ by
    cases id with
    | waiter =>
      simp only [receivers, decide_eq_true_eq] at htakes ⊢
      rintro hexited
      simp [hexited, WaiterPoint.unblocked] at htakes
    | worker => simp [receivers] at htakes
  served_of_step := fun {w w' act} _ hstep hserved ↦ by
    simp only [receivers, decide_eq_true_eq] at hserved hstep ⊢
    obtain hsame | hmoves := moves_of_step hstep
    · exact hsame ▸ hserved
    · exact hmoves.alive
  reaches := fun {doIt w} _ hborn hserved ↦ by
    have hlive : w.waiter ≠ .exited := by simpa [receivers] using hserved
    have hborn : w.waiter ≠ .unborn := hborn .waiter List.mem_cons_self
    cases hpoint : w.waiter with
    | unborn => exact absurd hpoint hborn
    | exited => exact absurd hpoint hlive
    | unblock =>
      have hnext : step doIt w .waiter = some { w with waiter := .lock } := by
        simp [step, waiter, hpoint]
      exact ⟨_, .waiter, .single ⟨.waiter, hnext⟩, fun _ ↦ rfl⟩
    | _ => exact ⟨w, .waiter, .refl, fun _ ↦ by simp [receivers, hpoint, WaiterPoint.unblocked]⟩

end OpenPosix.Signals.CondWait

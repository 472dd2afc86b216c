import OpenPosix.Signals.HarnessInvariant
import OpenPosix.Threads.Scenarii

/-!
# The receivers of `pthread_detach/4-3.c`

`test` blocks the user signals and walks round and round over the scenarios of `threads_scenarii.c`.
For each it creates a thread with the attributes of the scenario and, if that succeeds, waits for
the semaphore of the scenario. The thread, `threaded`, unblocks the user signals, detaches itself,
posts that semaphore and returns. So the signals are taken only by the threads that `test` creates,
and there may be none between two of them.

A thread that has posted may stay alive for as long as it likes, and any number of them may be
alive. The outcome of `pthread_create` is one that the scenario lets through; with any other the
program ends with the verdict `UNRESOLVED`.
-/

namespace OpenPosix.Signals.Detach

open Interleaving Threads

/-- An array of scenarios. Not every creation in it is expected to fail. -/
structure Table where
  scenarios : List Scenario
  some_created : ∃ scenario ∈ scenarios, scenario.result ≠ .fail

/-- The array that the program is compiled with. -/
def table : Table := ⟨scenarii, casePos false false, List.mem_cons_self, by simp [casePos]⟩

inductive ChildPoint
  | unblock
  | detach
  | post
  | ret
  | exited
  deriving DecidableEq, Repr

inductive TestPoint
  | unborn
  | block
  | loop
  | create
  | wait
  | advance
  | ret
  | exited
  deriving DecidableEq, Repr

/-- The threads under test: `test`, and those that it creates, in order. -/
inductive Id
  | test
  | child (n : ℕ)
  deriving DecidableEq, Repr

/-- Their steps. The creation has one step for either outcome. -/
inductive Act
  | test
  | create (created : Bool)
  | child (n : ℕ)
  deriving DecidableEq, Repr

/-- The threads, the index `sc`, and the semaphores of the scenarios. -/
structure World where
  test : TestPoint
  sc : ℕ
  children : List ChildPoint
  sem : ℕ → ℕ

variable (T : Table)

/-- One step of `test` other than the creation. -/
def test (doIt : Bool) (w : World) : Option World :=
  match w.test with
  | .unborn => none
  | .block => some { w with sc := 0, test := .loop }
  | .loop => some { w with test := if doIt then .create else .ret }
  | .create => none
  | .wait => (semWait (w.sem w.sc)).map fun value ↦
      { w with sem := Function.update w.sem w.sc value, test := .advance }
  | .advance => some { w with sc := (w.sc + 1) % T.scenarios.length, test := .loop }
  | .ret => some { w with test := .exited }
  | .exited => none

/-- `pthread_create` in `test`, with an outcome that the scenario lets through. -/
def create (created : Bool) (w : World) : Option World :=
  match w.test, T.scenarios[w.sc]? with
  | .create, some scenario =>
    if scenario.result.admits created then
      some (if created then { w with children := w.children ++ [.unblock], test := .wait }
        else { w with test := .advance })
    else none
  | _, _ => none

def threaded (n : ℕ) (w : World) : Option World :=
  match w.children[n]? with
  | none | some .exited => none
  | some .unblock => some { w with children := w.children.set n .detach }
  | some .detach => some { w with children := w.children.set n .post }
  | some .post => some { w with
      sem := Function.update w.sem w.sc (semPost (w.sem w.sc))
      children := w.children.set n .ret }
  | some .ret => some { w with children := w.children.set n .exited }

def step (doIt : Bool) (w : World) : Act → Option World
  | .test => test T doIt w
  | .create created => create T created w
  | .child n => threaded n w

/-- The thread has unblocked the signals and has not returned. -/
@[simp] def ChildPoint.unblocked : ChildPoint → Bool
  | .detach | .post | .ret => true
  | .unblock | .exited => false

/-- `test` can still create a thread: it is about to, with a scenario that allows it, or `do_it` is
set and it gets to such a scenario. -/
def canCreate (doIt : Bool) (w : World) : Bool :=
  match w.test with
  | .create => doIt || (T.scenarios[w.sc]?).any fun scenario ↦ scenario.result ≠ .fail
  | .ret | .exited => false
  | _ => doIt

def receivers : Receivers where
  World := World
  Id := Id
  Act := Act
  init := ⟨.unborn, 0, [], fun _ ↦ 0⟩
  threads := [.test]
  create := fun w id ↦
    match id with
    | .test => { w with test := .block }
    | .child _ => w
  owner := fun act ↦
    match act with
    | .test | .create _ => .test
    | .child n => .child n
  step := step T
  takes := fun w id _ ↦
    match id with
    | .test => false
    | .child n => (w.children[n]?).any ChildPoint.unblocked
  exited := fun w id ↦
    match id with
    | .test => w.test = .exited
    | .child n => w.children[n]? = some .exited
  served := fun doIt w ↦ w.children.any (fun child ↦ child ≠ .exited) || canCreate T doIt w

/-- The thread has not posted the semaphore of its scenario yet. -/
def ChildPoint.posts : ChildPoint → Bool
  | .unblock | .detach | .post => true
  | .ret | .exited => false

/-- `sc` is an index of the array, `test` leaves its loop on a cleared `do_it`, and what it waits
for has been posted or will be by a thread that is alive. -/
structure Ok (doIt : Bool) (w : World) : Prop where
  sc : w.sc < T.scenarios.length
  ends : w.test = .ret ∨ w.test = .exited → doIt = false
  wait : w.test = .wait → (∃ child ∈ w.children, child.posts = true) ∨ 0 < w.sem w.sc

variable {T} {doIt : Bool} {w w' : World}

theorem Table.length_pos (T : Table) : 0 < T.scenarios.length := by
  obtain ⟨scenario, hmem, -⟩ := T.some_created
  exact List.length_pos_of_mem hmem

/-! ### Steps -/

theorem create_eq_some_iff {created : Bool} : create T created w = some w' ↔
    w.test = .create ∧ (∃ scenario, T.scenarios[w.sc]? = some scenario ∧
      scenario.result.admits created = true) ∧
      (if created then { w with children := w.children ++ [.unblock], test := .wait }
        else { w with test := .advance }) = w' := by
  unfold create
  split
  case h_1 scenario htest hscenario => simp [htest, hscenario]
  case h_2 hother =>
    refine iff_of_false (by simp) ?_
    rintro ⟨htest, ⟨scenario, hscenario, -⟩, -⟩
    exact hother scenario htest hscenario

/-- What a step of a created thread does: the thread was alive and goes on, and it posts the
semaphore of the scenario if it was about to. -/
structure ChildStep (n : ℕ) (w w' : World) (child child' : ChildPoint) : Prop where
  before : w.children[n]? = some child
  alive : child ≠ .exited
  after : w'.children = w.children.set n child'
  test : w'.test = w.test
  sc : w'.sc = w.sc
  posts : child.posts = true → child'.posts = true ∨ 0 < w'.sem w'.sc
  sem : w.sem w.sc ≤ w'.sem w'.sc

theorem childStep_of_threaded {n : ℕ} (hnext : threaded n w = some w') :
    ∃ child child', ChildStep n w w' child child' := by
  unfold threaded at hnext
  cases hchild : w.children[n]? with
  | none => simp [hchild] at hnext
  | some child =>
    cases child with
    | exited => simp [hchild] at hnext
    | post =>
      rw [hchild] at hnext
      cases hnext
      exact ⟨.post, .ret, hchild, by simp, rfl, rfl, rfl, by simp, by simp⟩
    | unblock | detach | ret =>
      rw [hchild] at hnext
      cases hnext
      exact ⟨_, _, hchild, by simp, rfl, rfl, rfl, by simp [ChildPoint.posts], Nat.le_refl _⟩

theorem children_of_test (hnext : test T doIt w = some w') : w'.children = w.children := by
  unfold test at hnext
  cases hpoint : w.test with
  | wait =>
    simp only [hpoint, Option.map_eq_some_iff] at hnext
    obtain ⟨value, -, rfl⟩ := hnext
    rfl
  | unborn | create | exited => simp [hpoint] at hnext
  | block | loop | advance | ret =>
    rw [hpoint] at hnext
    exact Option.some.inj hnext ▸ rfl

/-- Once `do_it` is cleared `test` gets to no further creation. -/
theorem test_point (hnext : test T doIt w = some w') :
    w'.test ≠ .unborn ∧ (doIt = false → w'.test ≠ .create) := by
  unfold test at hnext
  cases hpoint : w.test with
  | wait =>
    simp only [hpoint, Option.map_eq_some_iff] at hnext
    obtain ⟨value, -, rfl⟩ := hnext
    simp
  | loop =>
    rw [hpoint] at hnext
    cases hnext
    cases doIt <;> simp
  | unborn | create | exited => simp [hpoint] at hnext
  | block | advance | ret =>
    rw [hpoint] at hnext
    exact Option.some.inj hnext ▸ by simp

/-! ### The invariant -/

theorem Ok.test (h : Ok T doIt w) (hnext : Detach.test T doIt w = some w') : Ok T doIt w' := by
  unfold Detach.test at hnext
  cases hpoint : w.test <;> simp only [hpoint, reduceCtorEq] at hnext
  case block =>
    exact Option.some.inj hnext ▸ ⟨T.length_pos, by simp, by simp⟩
  case loop =>
    cases hnext
    cases doIt <;> exact ⟨h.sc, by simp, by simp⟩
  case wait =>
    simp only [Option.map_eq_some_iff] at hnext
    obtain ⟨value, -, rfl⟩ := hnext
    exact ⟨h.sc, by simp, by simp⟩
  case advance =>
    exact Option.some.inj hnext ▸ ⟨Nat.mod_lt _ T.length_pos, by simp, by simp⟩
  case ret =>
    exact Option.some.inj hnext ▸ ⟨h.sc, fun _ ↦ h.ends (.inl hpoint), by simp⟩

theorem Ok.create {created : Bool} (h : Ok T doIt w)
    (hnext : Detach.create T created w = some w') : Ok T doIt w' := by
  obtain ⟨-, -, rfl⟩ := create_eq_some_iff.mp hnext
  cases created with
  | true => exact ⟨h.sc, by simp, fun _ ↦ .inl ⟨.unblock, by simp, rfl⟩⟩
  | false => exact ⟨h.sc, by simp, by simp⟩

theorem Ok.threaded {n : ℕ} (h : Ok T doIt w) (hnext : Detach.threaded n w = some w') :
    Ok T doIt w' := by
  obtain ⟨child, child', hstep⟩ := childStep_of_threaded hnext
  refine ⟨hstep.sc ▸ h.sc, fun hends ↦ h.ends (hstep.test ▸ hends), fun hwait ↦ ?_⟩
  obtain ⟨other, hmem, hposts⟩ | hsem := h.wait (hstep.test ▸ hwait)
  · obtain ⟨m, hm⟩ := List.mem_iff_getElem?.mp hmem
    have hn : n < w.children.length := (List.getElem?_eq_some_iff.mp hstep.before).1
    by_cases hne : m = n
    · -- The thread that `test` waits for is the one that takes the step.
      subst hne
      obtain rfl : other = child := Option.some.inj (hm.symm.trans hstep.before)
      obtain hposts' | hsem := hstep.posts hposts
      · exact .inl ⟨child', hstep.after ▸ List.mem_set hn child', hposts'⟩
      · exact .inr hsem
    · refine .inl ⟨other, List.mem_iff_getElem?.mpr ⟨m, ?_⟩, hposts⟩
      rw [hstep.after, List.getElem?_set_ne (Ne.symm hne), hm]
  · exact .inr (Nat.lt_of_lt_of_le hsem hstep.sem)

theorem Ok.step {act : Act} (h : Ok T doIt w) (hnext : Detach.step T doIt w act = some w') :
    Ok T doIt w' := by
  cases act with
  | test => exact h.test hnext
  | create created => exact h.create hnext
  | child n => exact h.threaded hnext

/-! ### Threads to take the signals -/

/-- The receivers can get from one state to another. -/
abbrev Steps (T : Table) (doIt : Bool) : World → World → Prop :=
  Relation.ReflTransGen fun w w' ↦ ∃ act, step T doIt w act = some w'

theorem served_iff : (receivers T).served doIt w = true ↔
    (∃ child ∈ w.children, child ≠ .exited) ∨ canCreate T doIt w = true := by
  simp [receivers]

/-- A thread that is alive has the signals unblocked, or unblocks them with its next step. -/
theorem exists_taker_of_live (T : Table) (doIt : Bool) {child : ChildPoint}
    (hmem : child ∈ w.children) (hlive : child ≠ .exited) : ∃ w' id, Steps T doIt w w' ∧
      ∀ sig, (receivers T).takes w' id sig = true := by
  obtain ⟨n, hn⟩ := List.mem_iff_getElem?.mp hmem
  have hlength : n < w.children.length := (List.getElem?_eq_some_iff.mp hn).1
  cases child with
  | exited => exact absurd rfl hlive
  | unblock =>
    have hnext : step T doIt w (.child n) =
        some { w with children := w.children.set n .detach } := by
      simp [step, threaded, hn]
    refine ⟨_, .child n, .single ⟨.child n, hnext⟩, fun _ ↦ ?_⟩
    simp [receivers, hlength]
  | detach | post | ret =>
    exact ⟨w, .child n, .refl, fun _ ↦ by simp [receivers, hn]⟩

/-- A creation that may succeed gives a thread that takes the signals. -/
theorem exists_taker_of_create {scenario : Scenario} (htest : w.test = .create)
    (hscenario : T.scenarios[w.sc]? = some scenario) (hresult : scenario.result ≠ .fail) :
    ∃ w' id, Steps T doIt w w' ∧ ∀ sig, (receivers T).takes w' id sig = true := by
  have hnext : step T doIt w (.create true) =
      some { w with children := w.children ++ [.unblock], test := .wait } :=
    create_eq_some_iff.mpr ⟨htest, ⟨scenario, hscenario, Expected.admits_true_iff.mpr hresult⟩, rfl⟩
  have hmem : .unblock ∈ w.children ++ [ChildPoint.unblock] := by simp
  obtain ⟨w', id, hsteps, htakes⟩ := exists_taker_of_live T doIt
    (w := { w with children := w.children ++ [.unblock], test := .wait }) hmem (by simp)
  exact ⟨w', id, .head ⟨_, hnext⟩ hsteps, htakes⟩

/-- While `do_it` is set, `test` gets from one scenario to the `d`-th after it, past creations that
fail, unless it can create a thread before. -/
theorem exists_taker_of_distance {scenario : Scenario} (d : ℕ) (hresult : scenario.result ≠ .fail)
    (htest : w.test = .create) (hsc : w.sc < T.scenarios.length)
    (hscenario : T.scenarios[(w.sc + d) % T.scenarios.length]? = some scenario) :
    ∃ w' id, Steps T true w w' ∧ ∀ sig, (receivers T).takes w' id sig = true := by
  induction d generalizing w with
  | zero =>
    rw [Nat.add_zero, Nat.mod_eq_of_lt hsc] at hscenario
    exact exists_taker_of_create htest hscenario hresult
  | succ d ih =>
    obtain ⟨here, hhere⟩ : ∃ here, T.scenarios[w.sc]? = some here :=
      ⟨_, List.getElem?_eq_getElem hsc⟩
    by_cases hfail : here.result = .fail
    · have hfails : step T true w (.create false) = some { w with test := .advance } :=
        create_eq_some_iff.mpr ⟨htest, ⟨here, hhere, by simp [hfail, Expected.admits]⟩, rfl⟩
      let next := (w.sc + 1) % T.scenarios.length
      have hadvances : step T true { w with test := .advance } .test =
          some { w with sc := next, test := .loop } := rfl
      have hloops : step T true { w with sc := next, test := .loop } .test =
          some { w with sc := next, test := .create } := rfl
      have hdistance : (next + d) % T.scenarios.length = (w.sc + (d + 1)) % T.scenarios.length := by
        rw [Nat.mod_add_mod, Nat.add_assoc, Nat.add_comm 1 d]
      obtain ⟨w', id, hsteps, htakes⟩ := ih (w := { w with sc := next, test := .create }) rfl
        (Nat.mod_lt _ T.length_pos) (hdistance ▸ hscenario)
      exact ⟨w', id, .head ⟨_, hfails⟩ (.head ⟨_, hadvances⟩ (.head ⟨_, hloops⟩ hsteps)), htakes⟩
    · exact exists_taker_of_create htest hhere hfail

/-- While `do_it` is set, a `test` that is about to create a thread gets one to take the signals. -/
theorem exists_taker_of_doIt (htest : w.test = .create) (hsc : w.sc < T.scenarios.length) :
    ∃ w' id, Steps T true w w' ∧ ∀ sig, (receivers T).takes w' id sig = true := by
  obtain ⟨scenario, hmem, hresult⟩ := T.some_created
  obtain ⟨goal, hgoal⟩ := List.mem_iff_getElem?.mp hmem
  have hlength : goal < T.scenarios.length := (List.getElem?_eq_some_iff.mp hgoal).1
  refine exists_taker_of_distance (goal + T.scenarios.length - w.sc) hresult htest hsc ?_
  rw [show w.sc + (goal + T.scenarios.length - w.sc) = goal + T.scenarios.length by omega,
    Nat.add_mod_right, Nat.mod_eq_of_lt hlength]
  exact hgoal

/-- While `do_it` is set, `test` gets to a creation from the test of its loop. -/
theorem exists_taker_of_loop (htest : w.test = .loop) (hsc : w.sc < T.scenarios.length) :
    ∃ w' id, Steps T true w w' ∧ ∀ sig, (receivers T).takes w' id sig = true := by
  have hloops : step T true w .test = some { w with test := .create } := by
    simp [step, test, htest]
  obtain ⟨w', id, hsteps, htakes⟩ := exists_taker_of_doIt (w := { w with test := .create }) rfl hsc
  exact ⟨w', id, .head ⟨_, hloops⟩ hsteps, htakes⟩

theorem exists_taker_of_advance (htest : w.test = .advance) :
    ∃ w' id, Steps T true w w' ∧ ∀ sig, (receivers T).takes w' id sig = true := by
  let next := (w.sc + 1) % T.scenarios.length
  have hadvances : step T true w .test = some { w with sc := next, test := .loop } := by
    simp [step, test, htest, next]
  obtain ⟨w', id, hsteps, htakes⟩ := exists_taker_of_loop (T := T)
    (w := { w with sc := next, test := .loop }) rfl (Nat.mod_lt _ T.length_pos)
  exact ⟨w', id, .head ⟨_, hadvances⟩ hsteps, htakes⟩

/-- Assumes: `test` exists, and the signals are served. The receivers get to a thread that takes
them. -/
theorem exists_taker (h : Ok T doIt w) (hborn : w.test ≠ .unborn)
    (hserved : (receivers T).served doIt w = true) :
    ∃ w' id, Steps T doIt w w' ∧ ∀ sig, (receivers T).takes w' id sig = true := by
  by_cases hlive : ∃ child ∈ w.children, child ≠ .exited
  · obtain ⟨child, hmem, hchild⟩ := hlive
    exact exists_taker_of_live T doIt hmem hchild
  have hcreates := (served_iff.mp hserved).resolve_left hlive
  unfold canCreate at hcreates
  cases hpoint : w.test with
  | unborn => exact absurd hpoint hborn
  | ret | exited => simp [hpoint] at hcreates
  | create =>
    simp only [hpoint, Bool.or_eq_true] at hcreates
    obtain rfl | hresult := hcreates
    · exact exists_taker_of_doIt hpoint h.sc
    · obtain ⟨scenario, hscenario, hresult⟩ := (Option.any_eq_true _ _).mp hresult
      exact exists_taker_of_create hpoint hscenario (by simpa using hresult)
  | block =>
    obtain rfl : doIt = true := by simpa [hpoint] using hcreates
    have hblocks : step T true w .test = some { w with sc := 0, test := .loop } := by
      simp [step, test, hpoint]
    obtain ⟨w', id, hsteps, htakes⟩ := exists_taker_of_loop (T := T)
      (w := { w with sc := 0, test := .loop }) rfl T.length_pos
    exact ⟨w', id, .head ⟨_, hblocks⟩ hsteps, htakes⟩
  | loop =>
    obtain rfl : doIt = true := by simpa [hpoint] using hcreates
    exact exists_taker_of_loop hpoint h.sc
  | advance =>
    obtain rfl : doIt = true := by simpa [hpoint] using hcreates
    exact exists_taker_of_advance hpoint
  | wait =>
    obtain rfl : doIt = true := by simpa [hpoint] using hcreates
    -- No thread is left that could post, so the semaphore has been posted.
    have hsem : 0 < w.sem w.sc := by
      refine (h.wait hpoint).resolve_left ?_
      rintro ⟨child, hmem, hposts⟩
      refine hlive ⟨child, hmem, ?_⟩
      rintro rfl
      simp [ChildPoint.posts] at hposts
    obtain ⟨value, hvalue⟩ := Nat.exists_eq_add_of_lt hsem
    have hwaits : step T true w .test =
        some { w with sem := Function.update w.sem w.sc value, test := .advance } := by
      have htake : semWait (w.sem w.sc) = some value := semWait_eq_some_iff.mpr (by omega)
      simp [step, test, hpoint, htake]
    obtain ⟨w', id, hsteps, htakes⟩ := exists_taker_of_advance (T := T)
      (w := { w with sem := Function.update w.sem w.sc value, test := .advance }) rfl
    exact ⟨w', id, .head ⟨_, hwaits⟩ hsteps, htakes⟩

/-- Once `do_it` is cleared the signals do not get a new thread to serve them, other than from a
creation that `test` was about to make. -/
theorem served_of_step {act : Act} (hnext : step T false w act = some w')
    (hserved : (receivers T).served false w' = true) : (receivers T).served false w = true := by
  rw [served_iff] at hserved ⊢
  cases act with
  | test =>
    refine .inl ?_
    rw [← children_of_test hnext]
    refine hserved.resolve_right fun hcreates ↦ ?_
    have hpoint := (test_point hnext).2 rfl
    cases htest : w'.test <;> simp [canCreate, htest] at hcreates hpoint
  | create created =>
    obtain ⟨htest, ⟨scenario, hscenario, hadmits⟩, rfl⟩ := create_eq_some_iff.mp hnext
    cases created with
    | true =>
      refine .inr ?_
      simp [canCreate, htest, hscenario, Expected.admits_true_iff.mp hadmits]
    | false => exact .inl (hserved.resolve_right (by simp [canCreate]))
  | child n =>
    obtain ⟨child, child', hstep⟩ := childStep_of_threaded hnext
    exact .inl ⟨child, List.mem_of_getElem? hstep.before, hstep.alive⟩

theorem unborn_of_step {act : Act} (hnext : step T doIt w act = some w')
    (hunborn : w'.test = .unborn) : w.test = .unborn := by
  cases act with
  | test => exact absurd hunborn (test_point hnext).1
  | create created =>
    obtain ⟨-, -, rfl⟩ := create_eq_some_iff.mp hnext
    cases created <;> simp at hunborn
  | child n =>
    obtain ⟨child, child', hstep⟩ := childStep_of_threaded hnext
    exact hstep.test ▸ hunborn

/-- The receivers keep what the harness relies on. -/
def lawful (T : Table) : Lawful (receivers T) where
  Ok := Ok T
  unborn := fun w id ↦ id = .test ∧ w.test = .unborn
  ok_init := ⟨T.length_pos, by simp [receivers], by simp [receivers]⟩
  ok_create := fun {doIt w} id h ↦ by
    cases id with
    | test => exact ⟨h.sc, by simp [receivers], by simp [receivers]⟩
    | child n => exact h
  ok_step := Ok.step
  ok_stop := fun h ↦ ⟨h.sc, fun _ ↦ rfl, h.wait⟩
  born_create := fun {w id other} hunborn ↦ by
    obtain ⟨rfl, htest⟩ := hunborn
    cases id with
    | test => simp [receivers] at htest
    | child n => exact ⟨⟨rfl, htest⟩, Id.noConfusion⟩
  born_step := fun hstep hunborn ↦ ⟨hunborn.1, unborn_of_step hstep hunborn.2⟩
  served_of_doIt := fun {w} h ↦ by
    refine served_iff.mpr (.inr ?_)
    have hends := h.ends
    cases htest : w.test <;> simp [canCreate, htest] at hends ⊢
  served_of_takes := fun {doIt w id sig} _ htakes ↦ by
    cases id with
    | test => simp [receivers] at htakes
    | child n =>
      obtain ⟨child, hchild, hunblocked⟩ := (Option.any_eq_true _ _).mp htakes
      refine served_iff.mpr (.inl ⟨child, List.mem_of_getElem? hchild, ?_⟩)
      rintro rfl
      simp at hunblocked
  served_of_step := fun _ hstep hserved ↦ served_of_step hstep hserved
  reaches := fun h hborn hserved ↦
    exists_taker h (fun htest ↦ hborn .test List.mem_cons_self ⟨rfl, htest⟩) hserved

end OpenPosix.Signals.Detach

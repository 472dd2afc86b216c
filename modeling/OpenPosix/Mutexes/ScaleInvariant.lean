import OpenPosix.Mutexes.ScaleModel

/-!
# The start handshake and the test mutexes

Most of what `main` and the children agree on can be read off the points of the children
(`State.points`): who holds `m`, how many children have started, and that all of them are on their
way out once `main` has broadcast (`Sync`). What goes on between a child and its grandchild is local
to their element (`Element.Ok`).
-/

namespace OpenPosix.Mutexes.Scale

open Interleaving

variable {s s' t : State} {i ret : ℕ} {td td' : Element} {point point' : ChildPoint}
  {m : Option Owner} {counter : ℕ}

/-! ### Where the threads are -/

def ChildPoint.holds : ChildPoint → Bool
  | .count | .init | .lockMtx | .unlockFailed | .create | .test | .wait | .unlock => true
  | _ => false

/-- The child has tried to lock its mutex. -/
def ChildPoint.tried : ChildPoint → Bool
  | .lock | .count | .init | .lockMtx => false
  | _ => true

def ChildPoint.locks : ChildPoint → Bool
  | .create | .test | .wait | .blocked | .woken | .unlock | .unlockMtx => true
  | _ => false

def ChildPoint.early : ChildPoint → Bool
  | .lock | .count | .init | .lockMtx | .unlockFailed | .create => true
  | _ => false

/-- The child has started, and nothing stops it once `do_it` is cleared. -/
@[simp] def ChildPoint.leaving : ChildPoint → Bool
  | .woken | .test | .unlock | .unlockMtx | .join | .destroy | .returned => true
  | _ => false

def MainPoint.holds : MainPoint → Bool
  | .malloc | .create _ | .link | .setId | .setError | .unlock | .test | .stop | .broadcast
  | .unlockEnd => true
  | _ => false

/-- `main` fills in the element whose child it has just created. -/
def MainPoint.filling : MainPoint → Bool
  | .link | .setId | .setError => true
  | _ => false

/-- `main` has seen all children start. -/
def MainPoint.full : MainPoint → Bool
  | .lock | .malloc | .create _ | .stop | .broadcast => true
  | main => main.released

def MainPoint.stopped : MainPoint → Bool
  | .broadcast => true
  | main => main.released

def State.points (s : State) : List ChildPoint := s.elements.map Element.child

/-- The threads that hold `m`. -/
@[simp] def State.Holds (s : State) : Owner → Prop
  | .main => s.main.holds = true
  | .child i => (s.points[i]?).any ChildPoint.holds = true

/-- `main` and the children as long as the process has not ended with `UNRESOLVED`. -/
structure Sync (s : State) : Prop where
  owned : Owned s.m s.Holds
  counter : s.counter = s.points.countP ChildPoint.started
  doIt : s.doIt = !s.main.stopped
  full : s.main.full = true → s.counter = s.points.length
  filling : s.main.filling = true → s.points.getLast? = some .lock ∧ s.counter + 1 = s.points.length
  leaving : s.main.released = true → ∀ point ∈ s.points, point.leaving = true

/-- A child only starts while it holds `m`, it does not start twice, and once `do_it` is cleared it
stays on its way out. -/
def ChildPoint.Onward (doIt : Bool) (point point' : ChildPoint) : Prop :=
  (point.started = false → point'.started = true → point.holds = true) ∧
    (point.started = true → point'.started = true) ∧
    (doIt = false → point.leaving = true → point'.leaving = true)

instance (doIt : Bool) (point point' : ChildPoint) : Decidable (point.Onward doIt point') :=
  inferInstanceAs (Decidable (_ ∧ _))

structure PointStep (i : ℕ) (s s' : State) (point point' : ChildPoint) : Prop where
  before : s.points[i]? = some point
  points : s'.points = s.points.set i point'
  main : s'.main = s.main
  doIt : s'.doIt = s.doIt
  mutex : (s'.m = s.m ∧ point'.holds = point.holds) ∨
    (s.m = none ∧ s'.m = some (.child i) ∧ point'.holds = true) ∨
    (point.holds = true ∧ s'.m = none ∧ point'.holds = false)
  counter : s'.counter + point.started.toNat = s.counter + point'.started.toNat
  lock : point = .lock → point' = .lock ∨ s.m = none
  onward : point.Onward s.doIt point'

theorem PointStep.holds (h : PointStep i s s' point point') :
    s'.Holds = Function.update s.Holds (.child i) (point'.holds = true) := by
  have hlt : i < s.points.length := (List.getElem?_eq_some_iff.mp h.before).1
  funext owner
  cases owner with
  | main => simp [h.main]
  | child j =>
    by_cases heq : j = i
    · subst heq
      simp [h.points, hlt]
    · rw [Function.update_of_ne (by simpa using heq)]
      simp [h.points, List.getElem?_set_ne (Ne.symm heq)]

theorem PointStep.holds_before (h : PointStep i s s' point point') (hpoint : point.holds = true) :
    s.Holds (.child i) := by
  simp [h.before, hpoint]

theorem PointStep.owned (h : PointStep i s s' point point') (howned : Owned s.m s.Holds) :
    Owned s'.m s'.Holds := by
  have hbefore : s.Holds (.child i) ↔ point.holds = true := by simp [h.before]
  rw [h.holds]
  refine howned.pass hbefore ?_
  obtain ⟨hm, hsame⟩ | ⟨hfree, hm, hnow⟩ | ⟨hheld, hm, hnow⟩ := h.mutex <;> rw [hm]
  exacts [.keep hsame, .take hfree hnow, .drop hheld hnow]

/-- `main` holds `m`, so that the child does not start now. -/
theorem PointStep.started_eq (h : PointStep i s s' point point') (howned : Owned s.m s.Holds)
    (hmain : s.main.holds = true) : point'.started = point.started := by
  cases hbefore : point.started with
  | true => exact h.onward.2.1 hbefore
  | false =>
    by_contra hafter
    have hheld := h.holds_before (h.onward.1 hbefore (by simpa using hafter))
    have hheld' : s.Holds .main := hmain
    exact absurd (howned.unique hheld hheld') (by simp)

theorem MainPoint.holds_of_filling {main : MainPoint} (h : main.filling = true) :
    main.holds = true := by
  cases main <;> first | rfl | cases h

theorem MainPoint.stopped_of_released {main : MainPoint} (h : main.released = true) :
    main.stopped = true := by
  cases main <;> first | rfl | cases h

theorem Sync.doIt_of_released (h : Sync s) (hreleased : s.main.released = true) :
    s.doIt = false := by
  rw [h.doIt, MainPoint.stopped_of_released hreleased]
  rfl

theorem Sync.move (h : Sync s) (hstep : PointStep i s s' point point') : Sync s' := by
  have hcount := countP_set ChildPoint.started point' hstep.before
  have hcounter := hstep.counter
  have hlength : s'.points.length = s.points.length := by simp [hstep.points]
  refine ⟨hstep.owned h.owned, ?_, ?_, fun hfull ↦ ?_, fun hfilling ↦ ?_, fun hreleased ↦ ?_⟩
  · rw [hstep.points]
    have hbefore := h.counter
    omega
  · rw [hstep.doIt, hstep.main]
    exact h.doIt
  · rw [hstep.main] at hfull
    have hall := h.full hfull
    have hpoint : point.started = true :=
      List.countP_eq_length.mp (h.counter.symm.trans hall) point (List.mem_of_getElem? hstep.before)
    rw [hstep.onward.2.1 hpoint, hpoint] at hcounter
    omega
  · rw [hstep.main] at hfilling
    have hmain := MainPoint.holds_of_filling hfilling
    obtain ⟨hlast, hnumber⟩ := h.filling hfilling
    rw [hstep.started_eq h.owned hmain] at hcounter
    refine ⟨?_, by omega⟩
    rw [List.getLast?_eq_getElem?] at hlast
    rw [List.getLast?_eq_getElem?, hlength, hstep.points]
    by_cases heq : i = s.points.length - 1
    · -- the last child needs `m` for its next step
      subst heq
      have hpoint : point = .lock := Option.some.inj (hstep.before.symm.trans hlast)
      have hafter : point' = .lock := (hstep.lock hpoint).resolve_right fun hfree ↦
        h.owned.not_holds hfree .main hmain
      rw [hafter, List.getElem?_set_self (List.getElem?_eq_some_iff.mp hlast).1]
    · rw [List.getElem?_set_ne heq, hlast]
  · intro other hother
    rw [hstep.main] at hreleased
    rw [hstep.points] at hother
    obtain hmem | rfl := List.mem_or_eq_of_mem_set hother
    · exact h.leaving hreleased other hmem
    · exact hstep.onward.2.2 (h.doIt_of_released hreleased)
        (h.leaving hreleased point (List.mem_of_getElem? hstep.before))

/-! ### A child and its grandchild -/

/-- A lock of the test mutex has failed. -/
@[simp] def Element.failed (td : Element) : Bool := td.error.any (· ≠ 0)

/-- The child has tried to create the grandchild and not joined it. -/
def ChildPoint.hosts : ChildPoint → Bool
  | .test | .wait | .blocked | .woken | .unlock | .unlockMtx | .join => true
  | _ => false

/-- The error of an element is that of the child until the grandchild has locked the mutex. The
child that has created a grandchild does not end before it, and holds the mutex up to `unlockMtx`.
-/
structure Element.Ok (td : Element) : Prop where
  fresh : td.child.tried = false → td.failed = false
  tried : td.child.tried = true → td.error.isSome = true
  locked : td.child = .create → td.error = some 0
  early : td.child.early = true → td.sub = .unborn
  alive : td.sub = .lock ∨ td.sub = .unlock → td.child.hosts = true ∧ td.error = some 0
  created : td.child.hosts = true → (td.retCreate = 0 ↔ td.sub ≠ .unborn)
  join : td.child = .join → td.sub ≠ .unborn
  child : td.mtx = some .child → td.child.locks = true
  grandchild : td.mtx = some .grandchild → td.sub = .unlock

/-- There is no grandchild yet, or there will never be one. -/
theorem Element.Ok.of_unborn (hsub : td.sub = .unborn)
    (hfresh : td.child.tried = false → td.failed = false)
    (htried : td.child.tried = true → td.error.isSome = true)
    (hlocked : td.child = .create → td.error = some 0) (hhosts : td.child.hosts = false)
    (hchild : td.mtx = some .child → td.child.locks = true)
    (hgrandchild : td.mtx ≠ some .grandchild) : td.Ok where
  fresh := hfresh
  tried := htried
  locked := hlocked
  early _ := hsub
  alive halive := by simp [hsub] at halive
  created hpoint := absurd (hpoint.symm.trans hhosts) (by simp)
  join hpoint := by simp [hpoint, ChildPoint.hosts] at hhosts
  child := hchild
  grandchild hmtx := absurd hmtx hgrandchild

theorem newElement_ok (next : Link) : (newElement next).Ok :=
  .of_unborn rfl (fun _ ↦ rfl) nofun nofun rfl nofun nofun

theorem ChildPoint.early_of_hosts (h : point.hosts = true) :
    point.early = false ∧ point.tried = true := by
  cases point <;> first | exact ⟨rfl, rfl⟩ | cases h

theorem Element.Ok.done (h : td.Ok) (hreturned : td.child = .returned) : td.Done := by
  refine ⟨hreturned, ?_⟩
  cases hsub : td.sub with
  | unborn => exact .inl rfl
  | returned => exact .inr rfl
  | lock | unlock => simpa [hreturned, ChildPoint.hosts] using (h.alive (by simp [hsub])).1

/-- A step of a thread of element `i`, in which a lock of the test mutex fails or not. -/
structure ElementStep (i : ℕ) (fails : Bool) (s s' : State) (td td' : Element) : Prop where
  before : s.elements[i]? = some td
  elements : s'.elements = s.elements.set i td'
  step : PointStep i s s' td.child td'.child
  frame : s'.sentinelNext = s.sentinelNext ∧ s'.cur = s.cur ∧ s'.errors = s.errors
  same : td'.id = td.id ∧ td'.next = td.next ∧ td'.freed = td.freed
  alive : ¬ td.Done
  ok : td.Ok → td'.Ok
  failed : td.Ok → td'.failed = (td.failed || fails)

theorem of_checked {fails : Bool} (h : checked ret s s' = some t)
    (hstep : ∃ td td', ElementStep i fails s s' td td') :
    t.main = .unresolved ∨ ∃ td td', ElementStep i fails s t td td' := by
  unfold checked at h
  split_ifs at h <;> cases h
  exacts [.inr hstep, .inl rfl]

/-! ### The steps of the threads of an element -/

/-- The child goes on without a change to what it shares with the grandchild. -/
def ChildPoint.Quiet (point point' : ChildPoint) : Prop :=
  point'.tried = point.tried ∧ (point'.early = true → point.early = true) ∧
    (point.locks = true → point'.locks = true) ∧ point'.hosts = point.hosts ∧ point' ≠ .join ∧
    point' ≠ .create ∧ point ≠ .returned

instance (point point' : ChildPoint) : Decidable (point.Quiet point') :=
  inferInstanceAs (Decidable (_ ∧ _))

theorem Element.Ok.goto (h : td.Ok) (hquiet : td.child.Quiet point) :
    Element.Ok { td with child := point } := by
  obtain ⟨htried, hearly, hlocks, hhosts, hjoin, hcreate, -⟩ := hquiet
  exact
    { fresh := fun hfresh ↦ h.fresh (htried ▸ hfresh)
      tried := fun hpoint ↦ h.tried (htried ▸ hpoint)
      locked := fun hpoint ↦ absurd hpoint hcreate
      early := fun hpoint ↦ h.early (hearly hpoint)
      alive := fun halive ↦ ⟨hhosts.trans (h.alive halive).1, (h.alive halive).2⟩
      created := fun hpoint ↦ h.created (hhosts ▸ hpoint)
      join := fun hpoint ↦ absurd hpoint hjoin
      child := fun hmtx ↦ hlocks (h.child hmtx)
      grandchild := h.grandchild }

theorem Element.Ok.wake (h : td.Ok) : td.wake.Ok := by
  unfold Element.wake
  split_ifs with hblocked
  · exact h.goto (hblocked ▸ by decide)
  · exact h

theorem Element.Ok.init (h : td.Ok) (hpoint : td.child = .init) :
    Element.Ok { td with child := .lockMtx, mtx := none } :=
  .of_unborn (h.early (by rw [hpoint]; rfl)) (fun _ ↦ h.fresh (by rw [hpoint]; rfl)) nofun nofun rfl
    nofun nofun

theorem Element.Ok.lockMtx (h : td.Ok) (hpoint : td.child = .lockMtx) :
    Element.Ok { td with child := .create, error := some 0, mtx := some .child } :=
  .of_unborn (h.early (by rw [hpoint]; rfl)) nofun (fun _ ↦ rfl) (fun _ ↦ rfl) rfl (fun _ ↦ rfl)
    nofun

theorem Element.Ok.lockMtx_fails (h : td.Ok) (hpoint : td.child = .lockMtx) (ret : ℕ) :
    Element.Ok { td with child := .unlockFailed, error := some ret } := by
  have hsub : td.sub = .unborn := h.early (by rw [hpoint]; rfl)
  refine .of_unborn hsub nofun (fun _ ↦ rfl) nofun rfl (fun hmtx ↦ ?_) fun hmtx ↦ ?_
  · exact absurd (h.child hmtx) (by rw [hpoint]; decide)
  · exact absurd (hsub.symm.trans (h.grandchild hmtx)) (by decide)

theorem Element.Ok.create (h : td.Ok) (hpoint : td.child = .create) (ret : ℕ) : Element.Ok { td with
      child := .test, retCreate := ret, sub := if ret = 0 then .lock else .unborn } where
  fresh := nofun
  tried _ := h.tried (by rw [hpoint]; rfl)
  locked := nofun
  early := nofun
  alive _ := ⟨rfl, h.locked hpoint⟩
  created _ := by
    by_cases hret : ret = 0 <;> simp [hret]
  join := nofun
  child _ := rfl
  grandchild hmtx := by
    have hsub := h.early (by rw [hpoint]; rfl)
    exact absurd (hsub.symm.trans (h.grandchild hmtx)) (by decide)

/-- The child joins the grandchild if there is one. -/
theorem Element.Ok.unlockMtx (h : td.Ok) (hpoint : td.child = .unlockMtx) :
    Element.Ok { td with child := if td.retCreate = 0 then .join else .destroy, mtx := none } := by
  have herror := h.tried (by rw [hpoint]; rfl)
  have hcreated := h.created (by rw [hpoint]; rfl)
  split_ifs with hret
  · exact
      { fresh := nofun
        tried := fun _ ↦ herror
        locked := nofun
        early := nofun
        alive := fun halive ↦ ⟨rfl, (h.alive halive).2⟩
        created := fun _ ↦ hcreated
        join := fun _ ↦ hcreated.mp hret
        child := nofun
        grandchild := nofun }
  · have hsub : td.sub = .unborn := not_not.mp (mt hcreated.mpr hret)
    exact .of_unborn hsub nofun (fun _ ↦ herror) nofun rfl nofun nofun

theorem Element.Ok.join_returned (h : td.Ok) (hpoint : td.child = .join)
    (hsub : td.sub = .returned) : Element.Ok { td with child := .destroy } where
  fresh := nofun
  tried _ := h.tried (by rw [hpoint]; rfl)
  locked := nofun
  early := nofun
  alive halive := by simp [hsub] at halive
  created := nofun
  join := nofun
  child hmtx := absurd (h.child hmtx) (by rw [hpoint]; decide)
  grandchild := h.grandchild

theorem Element.Ok.grandchild_step (h : td.Ok) (hsub : td.sub = .lock ∨ td.sub = .unlock)
    {sub : SubPoint} {error : ℕ} {mtx : Option Level} (hborn : sub ≠ .unborn)
    (herror : sub = .lock ∨ sub = .unlock → error = 0)
    (hchild : mtx = some .child → td.mtx = some .child)
    (hgrandchild : mtx = some .grandchild → sub = .unlock) :
    Element.Ok { td with sub := sub, error := some error, mtx := mtx } := by
  have hhosts := (h.alive hsub).1
  obtain ⟨hearly, htried⟩ := ChildPoint.early_of_hosts hhosts
  have hbefore : td.sub ≠ .unborn := by
    rcases hsub with hsub | hsub <;> simp [hsub]
  exact
    { fresh := fun hpoint ↦ absurd (hpoint.symm.trans htried) (by decide)
      tried := fun _ ↦ rfl
      locked := fun hpoint ↦ by
        have hcreate : td.child = .create := hpoint
        simp [hcreate, ChildPoint.early] at hearly
      early := fun hpoint ↦ absurd (hpoint.symm.trans hearly) (by decide)
      alive := fun halive ↦ ⟨hhosts, congrArg some (herror halive)⟩
      created := fun _ ↦ (h.created hhosts).trans (iff_of_true hbefore hborn)
      join := fun _ ↦ hborn
      child := fun hmtx ↦ h.child (hchild hmtx)
      grandchild := hgrandchild }

theorem PointStep.of_put (hget : s.elements[i]? = some td) (m : Option Owner) (counter : ℕ)
    (hmutex : (m = s.m ∧ td'.child.holds = td.child.holds) ∨
      (s.m = none ∧ m = some (.child i) ∧ td'.child.holds = true) ∨
      (td.child.holds = true ∧ m = none ∧ td'.child.holds = false))
    (hcounter : counter + td.child.started.toNat = s.counter + td'.child.started.toNat)
    (hlock : td.child = .lock → td'.child = .lock ∨ s.m = none)
    (honward : td.child.Onward s.doIt td'.child) :
    PointStep i s { s.put i td' with m := m, counter := counter } td.child td'.child where
  before := by simp [State.points, hget]
  points := by simp [State.points, State.put, List.map_set]
  main := rfl
  doIt := rfl
  mutex := hmutex
  counter := hcounter
  lock := hlock
  onward := honward

theorem PointStep.take (point' : ChildPoint) (hget : s.elements[i]? = some td) (hfree : s.m = none)
    (hpoint : td.child = point) (hpoint' : td'.child = point') (hholds : point'.holds = true)
    (hstarted : point'.started = point.started) (honward : ∀ doIt, point.Onward doIt point') :
    PointStep i s { s.put i td' with m := some (.child i) } td.child td'.child := by
  subst hpoint hpoint'
  exact .of_put hget _ s.counter (.inr (.inl ⟨hfree, rfl, hholds⟩)) (by rw [hstarted])
    (fun _ ↦ .inr hfree) (honward s.doIt)

theorem PointStep.drop (point' : ChildPoint) (hget : s.elements[i]? = some td)
    (hpoint : td.child = point) (hpoint' : td'.child = point') (hheld : point.holds = true)
    (hholds : point'.holds = false) (hstarted : point'.started = point.started)
    (honward : ∀ doIt, point.Onward doIt point') :
    PointStep i s { s.put i td' with m := none } td.child td'.child := by
  subst hpoint hpoint'
  refine .of_put hget _ s.counter (.inr (.inr ⟨hheld, rfl, hholds⟩)) (by rw [hstarted])
    (fun hlock ↦ ?_) (honward s.doIt)
  simp [hlock, ChildPoint.holds] at hheld

/-- A step of the child that has nothing to do with `m`. -/
def ChildPoint.Stays (doIt : Bool) (point point' : ChildPoint) : Prop :=
  point'.holds = point.holds ∧ point'.started = point.started ∧ (point = .lock → point' = .lock) ∧
    point.Onward doIt point'

instance (doIt : Bool) (point point' : ChildPoint) : Decidable (point.Stays doIt point') :=
  inferInstanceAs (Decidable (_ ∧ _))

theorem PointStep.stay (point' : ChildPoint) (hget : s.elements[i]? = some td)
    (hpoint : td.child = point) (hpoint' : td'.child = point')
    (hstays : point.Stays s.doIt point') : PointStep i s (s.put i td') td.child td'.child := by
  subst hpoint hpoint'
  obtain ⟨hholds, hstarted, hlock, honward⟩ := hstays
  exact .of_put hget s.m s.counter (.inl ⟨rfl, hholds⟩) (by rw [hstarted])
    (fun h ↦ .inl (hlock h)) honward

/-- A step that leaves the child where it is. -/
theorem PointStep.refl (hget : s.elements[i]? = some td) (hsame : td'.child = td.child) :
    PointStep i s (s.put i td') td.child td'.child :=
  .stay td.child hget rfl hsame
    ⟨rfl, rfl, id, fun hnot h ↦ absurd (hnot.symm.trans h) (by decide), id, fun _ ↦ id⟩

/-- The child goes to another point, and the element stays as it is otherwise. -/
theorem ElementStep.goto (hget : s.elements[i]? = some td) (hquiet : td.child.Quiet point)
    (hstep : PointStep i s { s.put i { td with child := point } with m := m, counter := counter }
      td.child point) :
    ElementStep i false s { s.put i { td with child := point } with m := m, counter := counter }
      td { td with child := point } where
  before := hget
  elements := rfl
  step := hstep
  frame := ⟨rfl, rfl, rfl⟩
  same := ⟨rfl, rfl, rfl⟩
  alive hdone := hquiet.2.2.2.2.2.2 hdone.1
  ok hok := hok.goto hquiet
  failed _ := (Bool.or_false _).symm

theorem lockFails_threaded (hget : s.elements[i]? = some td) (ret : ℕ) :
    lockFails i (s, .threaded i ret) = decide (td.child = .lockMtx ∧ ret ≠ 0) := by
  simp [lockFails, hget]

theorem lockFails_sub (hget : s.elements[i]? = some td) (ret : ℕ) :
    lockFails i (s, .sub i ret) = decide (td.sub = .lock ∧ ret ≠ 0) := by
  simp [lockFails, hget]

/-- The child goes to another point and changes what it shares with the grandchild. -/
theorem ElementStep.child {fails : Bool} (point' : ChildPoint) (hget : s.elements[i]? = some td)
    (hpoint : td.child = point) (hpoint' : td'.child = point') (hstays : point.Stays s.doIt point')
    (hne : point ≠ .returned)
    (hsame : td'.id = td.id ∧ td'.next = td.next ∧ td'.freed = td.freed)
    (hok : td.Ok → td'.Ok) (hfailed : td.Ok → td'.failed = (td.failed || fails)) :
    ElementStep i fails s (s.put i td') td td' :=
  ⟨hget, rfl, .stay point' hget hpoint hpoint' hstays, ⟨rfl, rfl, rfl⟩, hsame,
    fun hdone ↦ hne (hpoint.symm.trans hdone.1), hok, hfailed⟩

theorem ElementStep.grandchild {fails : Bool} (hget : s.elements[i]? = some td)
    (hchild : td'.child = td.child)
    (hsame : td'.id = td.id ∧ td'.next = td.next ∧ td'.freed = td.freed) (halive : ¬ td.Done)
    (hok : td.Ok → td'.Ok) (hfailed : td.Ok → td'.failed = (td.failed || fails)) :
    ElementStep i fails s (s.put i td') td td' :=
  ⟨hget, rfl, .refl hget hchild, ⟨rfl, rfl, rfl⟩, hsame, halive, hok, hfailed⟩

theorem threaded_spec (h : threaded s i ret = some s') : s'.main = .unresolved ∨
    ∃ td td', ElementStep i (lockFails i (s, .threaded i ret)) s s' td td' := by
  unfold threaded at h
  cases hget : s.elements[i]? with
  | none => simp [hget] at h
  | some td =>
    rw [lockFails_threaded hget]
    simp only [hget] at h
    cases hpoint : td.child <;> simp only [hpoint, reduceCtorEq] at h
    case lock =>
      obtain ⟨hfree, rfl⟩ := map_mutexLock_eq_some_iff.mp h
      exact .inr ⟨td, _, .goto hget (hpoint ▸ by decide)
        (.take .count hget hfree hpoint rfl rfl rfl (by decide))⟩
    case woken =>
      obtain ⟨hfree, rfl⟩ := map_mutexLock_eq_some_iff.mp h
      exact .inr ⟨td, _, .goto hget (hpoint ▸ by decide)
        (.take .test hget hfree hpoint rfl rfl rfl (by decide))⟩
    case count =>
      cases h
      refine .inr ⟨td, _, .goto hget (hpoint ▸ by decide) (.of_put hget _ _ ?_ ?_ ?_ ?_)⟩
      · exact .inl ⟨rfl, hpoint ▸ rfl⟩
      · simp [hpoint, ChildPoint.started]
      · simp [hpoint]
      · simp [hpoint, ChildPoint.Onward, ChildPoint.holds, ChildPoint.started]
    case unlockFailed =>
      exact of_checked h ⟨td, _, .goto hget (hpoint ▸ by decide)
        (.drop .returned hget hpoint rfl rfl rfl rfl (by decide))⟩
    case unlock =>
      exact of_checked h ⟨td, _, .goto hget (hpoint ▸ by decide)
        (.drop .unlockMtx hget hpoint rfl rfl rfl rfl (by decide))⟩
    case wait =>
      cases h
      exact .inr ⟨td, _, .goto hget (hpoint ▸ by decide)
        (.drop .blocked hget hpoint rfl rfl rfl rfl (by decide))⟩
    case test =>
      cases h
      refine .inr ⟨td, _, .goto hget (hpoint ▸ ?_)
        (.stay (if s.doIt then .wait else .unlock) hget hpoint rfl ?_)⟩ <;>
        cases s.doIt <;> decide
    case destroy =>
      exact of_checked h ⟨td, _, .goto hget (hpoint ▸ by decide)
        (.stay .returned hget hpoint rfl (by cases s.doIt <;> decide))⟩
    case init =>
      exact of_checked h ⟨td, _, .child .lockMtx hget hpoint rfl (by cases s.doIt <;> decide)
        (by decide) ⟨rfl, rfl, rfl⟩ (fun hok ↦ hok.init hpoint) fun _ ↦ (Bool.or_false _).symm⟩
    case lockMtx =>
      split_ifs at h with hret
      · obtain ⟨hfree, rfl⟩ := map_mutexLock_eq_some_iff.mp h
        refine .inr ⟨td, _, .child .create hget hpoint rfl (by cases s.doIt <;> decide)
          (by decide) ⟨rfl, rfl, rfl⟩ (fun hok ↦ hok.lockMtx hpoint) fun hok ↦ ?_⟩
        rw [hok.fresh (by rw [hpoint]; rfl)]
        simp [hret]
      · cases h
        refine .inr ⟨td, _, .child .unlockFailed hget hpoint rfl (by cases s.doIt <;> decide)
          (by decide) ⟨rfl, rfl, rfl⟩ (fun hok ↦ hok.lockMtx_fails hpoint ret) fun hok ↦ ?_⟩
        simp [hret]
    case create =>
      cases h
      exact .inr ⟨td, _, .child .test hget hpoint rfl (by cases s.doIt <;> decide) (by decide)
        ⟨rfl, rfl, rfl⟩ (fun hok ↦ hok.create hpoint ret) fun _ ↦ (Bool.or_false _).symm⟩
    case unlockMtx =>
      refine of_checked h ⟨td, _, .child (if td.retCreate = 0 then .join else .destroy) hget hpoint
        rfl ?_ (by decide) ⟨rfl, rfl, rfl⟩ (fun hok ↦ hok.unlockMtx hpoint)
        fun _ ↦ (Bool.or_false _).symm⟩
      cases s.doIt <;> split_ifs <;> decide
    case join =>
      split_ifs at h with hsub
      exact of_checked h ⟨td, _, .child .destroy hget hpoint rfl (by cases s.doIt <;> decide)
        (by decide) ⟨rfl, rfl, rfl⟩ (fun hok ↦ hok.join_returned hpoint hsub)
        fun _ ↦ (Bool.or_false _).symm⟩

theorem sub_spec (h : sub s i ret = some s') : s'.main = .unresolved ∨
    ∃ td td', ElementStep i (lockFails i (s, .sub i ret)) s s' td td' := by
  unfold sub at h
  cases hget : s.elements[i]? with
  | none => simp [hget] at h
  | some td =>
    rw [lockFails_sub hget]
    simp only [hget] at h
    cases hpoint : td.sub with
    | unborn | returned => simp [hpoint] at h
    | lock =>
      have hnot : ¬ td.Done := by simp [Element.Done, hpoint]
      simp only [hpoint] at h
      split_ifs at h with hret
      · obtain ⟨hfree, rfl⟩ := map_mutexLock_eq_some_iff.mp h
        refine .inr ⟨td, _, .grandchild hget rfl ⟨rfl, rfl, rfl⟩ hnot
          (fun hok ↦ hok.grandchild_step (.inl hpoint) nofun (fun _ ↦ rfl) nofun fun _ ↦ rfl)
          fun hok ↦ ?_⟩
        simp [(hok.alive (.inl hpoint)).2, hret]
      · cases h
        refine .inr ⟨td, _, .grandchild hget rfl ⟨rfl, rfl, rfl⟩ hnot
          (fun hok ↦ hok.grandchild_step (.inl hpoint) nofun nofun id fun hmtx ↦ ?_) fun hok ↦ ?_⟩
        · exact absurd (hpoint.symm.trans (hok.grandchild hmtx)) (by decide)
        · simp [hret]
    | unlock =>
      have hnot : ¬ td.Done := by simp [Element.Done, hpoint]
      simp only [hpoint] at h
      refine of_checked h ⟨td, _, .grandchild hget rfl ⟨rfl, rfl, rfl⟩ hnot
        (fun hok ↦ hok.grandchild_step (.inr hpoint) nofun nofun nofun nofun) fun hok ↦ ?_⟩
      simp [(hok.alive (.inr hpoint)).2]

theorem spurious_spec (h : spurious s i = some s') : ∃ td td', ElementStep i false s s' td td' := by
  unfold spurious at h
  cases hget : s.elements[i]? with
  | none => simp [hget] at h
  | some td =>
    simp only [hget] at h
    split_ifs at h with hpoint
    cases h
    have hwake : td.wake = { td with child := .woken } := if_pos hpoint
    rw [hwake]
    exact ⟨td, _, .goto hget (hpoint ▸ by decide)
      (.stay .woken hget hpoint rfl (by cases s.doIt <;> decide))⟩

/-! ### The steps of `main` -/

/-- A step of `main` that leaves the children where they are. -/
theorem Sync.goes {main : MainPoint} (h : Sync s) (hmain : s.main = main) (main' : MainPoint)
    (hmain' : s'.main = main') (hpoints : s'.points = s.points) (hcounter : s'.counter = s.counter)
    (hpass : Passes .main s.m main.holds main'.holds s'.m)
    (hdoIt : s'.doIt = !main'.stopped)
    (hfull : main'.full = true → main.full = true ∨ s.counter = s.points.length)
    (hfilling : main'.filling = true → main.filling = true)
    (hreleased : main'.released = true → main.released = true) : Sync s' := by
  subst hmain hmain'
  have hholds : s'.Holds = Function.update s.Holds .main (s'.main.holds = true) := by
    funext owner
    cases owner with
    | main => simp
    | child j => simp [hpoints]
  refine ⟨?_, ?_, hdoIt, fun hmain ↦ ?_, fun hmain ↦ ?_, fun hmain ↦ ?_⟩
  · rw [hholds]
    exact h.owned.pass Iff.rfl hpass
  · rw [hcounter, hpoints]
    exact h.counter
  · rw [hcounter, hpoints]
    exact (hfull hmain).elim h.full id
  · rw [hcounter, hpoints]
    exact h.filling (hfilling hmain)
  · rw [hpoints]
    exact h.leaving (hreleased hmain)

theorem Sync.goes_on {main : MainPoint} (h : Sync s) (hmain : s.main = main) (main' : MainPoint)
    (hmain' : s'.main = main') (hpoints : s'.points = s.points) (hcounter : s'.counter = s.counter)
    (hpass : Passes .main s.m main.holds main'.holds s'.m)
    (hdoIt : s'.doIt = s.doIt) (hstopped : main'.stopped = main.stopped)
    (hfull : main'.full = true → main.full = true ∨ s.counter = s.points.length)
    (hfilling : main'.filling = true → main.filling = true)
    (hreleased : main'.released = true → main.released = true) : Sync s' := by
  refine h.goes hmain main' hmain' hpoints hcounter hpass ?_ hfull hfilling hreleased
  rw [hdoIt, h.doIt, hmain, hstopped]

theorem start_sync : Sync start where
  owned owner := by cases owner <;> simp [start, MainPoint.holds, State.points]
  counter := rfl
  doIt := rfl
  full _ := rfl
  filling := nofun
  leaving := nofun

theorem getElem?_concat_of_length_lt {α : Type*} {list : List α} (last : α)
    (h : list.length < i) : (list ++ [last])[i]? = none := by
  apply List.getElem?_eq_none
  rw [List.length_append]
  exact h

/-- The new child needs `m`, which `main` holds. -/
theorem Sync.create {next : Link} (h : Sync s) (hmain : s.main = .create next) :
    Sync { s with main := .link, elements := s.elements ++ [newElement next] } := by
  have hpoints : (s.elements ++ [newElement next]).map Element.child = s.points ++ [.lock] := by
    simp [State.points, newElement]
  refine ⟨h.owned.congr fun owner ↦ ?_, ?_, ?_, nofun, fun _ ↦ ⟨?_, ?_⟩, nofun⟩
  · cases owner with
    | main => simp [hmain, MainPoint.holds]
    | child j =>
      simp only [State.Holds, State.points] at hpoints ⊢
      rw [hpoints]
      rcases Nat.lt_trichotomy j s.elements.length with hlt | rfl | hgt
      · rw [List.getElem?_append_left (by simpa using hlt)]
      · simp [ChildPoint.holds]
      · rw [getElem?_concat_of_length_lt _ (by simpa using hgt),
          List.getElem?_eq_none (by simpa using hgt.le)]
  · rw [State.points, hpoints, List.countP_append, ← h.counter]
    rfl
  · have hdoIt := h.doIt
    rwa [hmain] at hdoIt
  · rw [State.points, hpoints, List.getLast?_concat]
  · rw [State.points, hpoints, List.length_append, ← h.full (by rw [hmain]; rfl)]
    rfl

def ChildPoint.wake (point : ChildPoint) : ChildPoint :=
  if point = .blocked then .woken else point

theorem Element.child_wake (td : Element) : td.wake.child = td.child.wake := by
  unfold Element.wake ChildPoint.wake
  split_ifs <;> rfl

theorem ChildPoint.holds_wake (point : ChildPoint) : point.wake.holds = point.holds := by
  cases point <;> rfl

theorem ChildPoint.started_wake (point : ChildPoint) : point.wake.started = point.started := by
  cases point <;> rfl

theorem ChildPoint.leaving_wake (hstarted : point.started = true) (hholds : point.holds = false) :
    point.wake.leaving = true := by
  revert hstarted hholds
  cases point <;> decide

/-- All children have started and do not hold `m`, so that the broadcast finds them in their wait or
past it. -/
theorem Sync.broadcast (h : Sync s) (hmain : s.main = .broadcast) :
    Sync { s with main := .unlockEnd, elements := s.elements.map Element.wake } := by
  have hpoints : (s.elements.map Element.wake).map Element.child =
      s.points.map ChildPoint.wake := by
    simp [State.points, Element.child_wake]
  have hfull := h.full (by rw [hmain]; rfl)
  refine ⟨h.owned.congr fun owner ↦ ?_, ?_, ?_, fun _ ↦ ?_, nofun, fun _ point hpoint ↦ ?_⟩
  · cases owner with
    | main => simp [hmain, MainPoint.holds]
    | child j =>
      simp only [State.Holds, State.points] at hpoints ⊢
      rw [hpoints, List.getElem?_map, Option.any_map]
      simp [ChildPoint.holds_wake]
  · rw [State.points, hpoints, List.countP_map]
    simp only [Function.comp_def, ChildPoint.started_wake]
    exact h.counter
  · have hdoIt := h.doIt
    rwa [hmain] at hdoIt
  · rw [State.points, hpoints, List.length_map]
    exact hfull
  · rw [State.points, hpoints] at hpoint
    obtain ⟨before, hbefore, rfl⟩ := List.mem_map.mp hpoint
    obtain ⟨j, hj⟩ := List.mem_iff_getElem?.mp hbefore
    refine ChildPoint.leaving_wake
      (List.countP_eq_length.mp (h.counter.symm.trans hfull) before hbefore) ?_
    by_contra hholds
    have hheld : s.Holds (.child j) := by simpa [hj] using hholds
    have hheld' : s.Holds .main := by simp [hmain, MainPoint.holds]
    exact absurd (h.owned.unique hheld hheld') nofun

/-- What a change of one entry does not change about any entry. -/
theorem map_modify_of_same {α β : Type*} {f : α → α} {g : α → β} (h : ∀ a, g (f a) = g a)
    (list : List α) (i : ℕ) : (list.modify i f).map g = list.map g := by
  ext1 j
  rw [List.getElem?_map, List.getElem?_modify, List.getElem?_map]
  cases list[j]? with
  | none => rfl
  | some a => by_cases heq : i = j <;> simp [heq, h]

/-- `main` writes to an element. -/
theorem points_of_modify {f : Element → Element} (helements : s'.elements = s.elements.modify i f)
    (hf : ∀ td, (f td).child = td.child) : s'.points = s.points := by
  rw [State.points, helements, map_modify_of_same hf]
  rfl

theorem points_setCurNext (s : State) (link : Link) : (s.setCurNext link).points = s.points := by
  unfold State.setCurNext
  split
  · rfl
  · exact points_of_modify rfl fun _ ↦ rfl

theorem setCurNext_frame (s : State) (link : Link) :
    (s.setCurNext link).counter = s.counter ∧ (s.setCurNext link).m = s.m ∧
      (s.setCurNext link).doIt = s.doIt ∧ (s.setCurNext link).cur = s.cur ∧
      (s.setCurNext link).errors = s.errors := by
  unfold State.setCurNext
  split <;> exact ⟨rfl, rfl, rfl, rfl, rfl⟩

def MainPoint.walking : MainPoint → Bool
  | .walk | .join _ | .count _ | .free _ | .ended | .undefined => true
  | _ => false

theorem MainPoint.of_walking {main : MainPoint} (h : main.walking = true) :
    main.holds = false ∧ main.stopped = true ∧ main.full = true ∧ main.filling = false ∧
      main.released = true := by
  revert h
  cases main <;> simp [walking, holds, stopped, full, filling, released]

theorem Sync.walks (h : Sync s) (hmain : s.main.walking = true) (hmain' : s'.main.walking = true)
    (hpoints : s'.points = s.points) (hcounter : s'.counter = s.counter) (hm : s'.m = s.m)
    (hdoIt : s'.doIt = s.doIt) : Sync s' := by
  obtain ⟨hholds, hstopped, hfull, hfilling, hreleased⟩ := MainPoint.of_walking hmain
  obtain ⟨hholds', hstopped', hfull', hfilling', hreleased'⟩ := MainPoint.of_walking hmain'
  refine h.goes rfl s'.main rfl hpoints hcounter (hm ▸ .keep (hholds'.trans hholds.symm)) ?_
    (fun _ ↦ .inl hfull) ?_ fun _ ↦ hreleased
  · rw [hdoIt, h.doIt, hstopped, hstopped']
  · simp [hfilling']

/-- What a step of the walk can do. -/
theorem walk_eq (hmain : s.main = .walk) (hnext : main s ret = some s') :
    ∃ main' link, s' = { s with main := main', sentinelNext := link } ∧
      (main' = .ended ∨ main' = .undefined ∨ ∃ i, main' = .join i) := by
  simp only [main, hmain] at hnext
  split at hnext
  case h_1 =>
    cases hnext
    exact ⟨_, _, rfl, .inl rfl⟩
  case h_2 =>
    cases hnext
    exact ⟨_, _, rfl, .inr (.inl rfl)⟩
  case h_3 i _ =>
    split at hnext
    case h_1 =>
      cases hnext
      exact ⟨_, _, rfl, .inr (.inl rfl)⟩
    case h_2 =>
      split_ifs at hnext
      · cases hnext
        exact ⟨_, _, rfl, .inr (.inl rfl)⟩
      · cases hnext
        exact ⟨_, _, rfl, .inr (.inr ⟨i, rfl⟩)⟩

theorem malloc_eq {block : Option Link} (hnext : malloc s block = some s') :
    s.main = .malloc ∧ s' = { s with main := block.elim .stop .create } := by
  unfold malloc at hnext
  split at hnext
  case h_1 hmain => exact ⟨hmain, (Option.some.inj hnext).symm⟩
  case h_2 => cases hnext

theorem Sync.malloc {block : Option Link} (h : Sync s) (hnext : malloc s block = some s') :
    Sync s' := by
  obtain ⟨hmain, rfl⟩ := malloc_eq hnext
  cases block <;>
    exact h.goes_on hmain _ rfl rfl rfl (.keep rfl) rfl rfl (fun _ ↦ .inl rfl) nofun nofun

inductive MainStep (s : State) : State → Prop
  | unresolved : MainStep s { s with main := .unresolved }
  | lock (hmain : s.main = .lock) (hfree : s.m = none) :
    MainStep s { s with main := .malloc, m := some .main }
  | create {next : Link} (hmain : s.main = .create next) :
    MainStep s { s with main := .link, elements := s.elements ++ [newElement next] }
  | refused {next : Link} (hmain : s.main = .create next) : MainStep s { s with main := .stop }
  | link (hmain : s.main = .link) :
    MainStep s { s.setCurNext (.element s.last) with main := .setId }
  | setId (hmain : s.main = .setId) : MainStep s { s with
      main := .setError
      elements := s.elements.modify s.last fun tmp ↦ { tmp with id := s.curId.map (· + 1) } }
  | setError (hmain : s.main = .setError) : MainStep s { s with
      main := .unlock
      elements := s.elements.modify s.last fun tmp ↦ { tmp with error := some 0 }
      cur := some s.last }
  | unlock (hmain : s.main = .unlock) : MainStep s { s with main := .relock, m := none }
  | relock (hmain : s.main = .relock) (hfree : s.m = none) :
    MainStep s { s with main := .test, m := some .main }
  | test (hmain : s.main = .test) :
    MainStep s { s with main := if s.curId = some s.counter then .malloc else .unlock }
  | stop (hmain : s.main = .stop) : MainStep s { s with main := .broadcast, doIt := false }
  | broadcast (hmain : s.main = .broadcast) :
    MainStep s { s with main := .unlockEnd, elements := s.elements.map Element.wake }
  | unlockEnd (hmain : s.main = .unlockEnd) :
    MainStep s { s with main := .walk, m := none, cur := none }
  | walk {main' : MainPoint} {link : Link} (hmain : s.main = .walk)
    (hends : main' = .ended ∨ main' = .undefined ∨ ∃ i, main' = .join i) :
    MainStep s { s with main := main', sentinelNext := link }
  | join {i : ℕ} (hmain : s.main = .join i)
    (hjoined : (s.elements[i]?).map Element.child = some .returned) :
    MainStep s { s with main := .count i }
  | count {i : ℕ} (hmain : s.main = .count i) : MainStep s { s with
      main := .free i
      errors := s.errors + if (s.elements[i]?).bind Element.error = some 0 then 0 else 1 }
  | free {i : ℕ} (hmain : s.main = .free i) : MainStep s { s with
      main := .walk
      elements := s.elements.modify i fun tmp ↦ { tmp with freed := true } }

theorem mainStep (hnext : main s ret = some s') : MainStep s s' := by
  have hchecked {t : State} (ht : MainStep s t) (hnext : checked ret s t = some s') :
      MainStep s s' := by
    unfold checked at hnext
    split_ifs at hnext <;> cases hnext
    exacts [ht, .unresolved]
  cases hmain : s.main with
  | malloc | ended | unresolved | undefined => simp [main, hmain] at hnext
  | walk =>
    obtain ⟨main', link, rfl, hends⟩ := walk_eq hmain hnext
    exact .walk hmain hends
  | lock | relock =>
    simp only [main, hmain] at hnext
    obtain ⟨hfree, rfl⟩ := map_mutexLock_eq_some_iff.mp hnext
    constructor <;> assumption
  | create next =>
    simp only [main, hmain] at hnext
    split_ifs at hnext <;> cases hnext
    exacts [.create hmain, .refused hmain]
  | unlock =>
    simp only [main, hmain] at hnext
    exact hchecked (.unlock hmain) hnext
  | unlockEnd =>
    simp only [main, hmain] at hnext
    exact hchecked (.unlockEnd hmain) hnext
  | join i =>
    simp only [main, hmain] at hnext
    split_ifs at hnext with hjoined
    exact hchecked (.join hmain hjoined) hnext
  | _ =>
    simp only [main, hmain] at hnext
    cases hnext
    constructor
    exact hmain

/-- Who moves: `malloc` returns, `main` makes a step, or a thread of an element does. -/
inductive Step (s s' : State) : Move → Prop
  | malloc {block : Option Link} (hnext : Scale.malloc s block = some s') :
    Step s s' (.malloc block)
  | main {ret : ℕ} (hnext : Scale.main s ret = some s') : Step s s' (.main ret)
  | element {move : Move} {i : ℕ} {td td' : Element}
    (hstep : ElementStep i (lockFails i (s, move)) s s' td td')
    (hothers : ∀ j, j ≠ i → lockFails j (s, move) = false) : Step s s' move

theorem step_of_next {move : Move} (hnext : next s move = some s') :
    s'.main = .unresolved ∨ Step s s' move := by
  unfold next at hnext
  split_ifs at hnext
  cases move with
  | malloc block => exact .inr (.malloc hnext)
  | main ret => exact .inr (.main hnext)
  | threaded i ret =>
    obtain hended | ⟨td, td', hstep⟩ := threaded_spec hnext
    · exact .inl hended
    · exact .inr (.element hstep fun j hj ↦ by simp [lockFails, hj.symm])
  | sub i ret =>
    obtain hended | ⟨td, td', hstep⟩ := sub_spec hnext
    · exact .inl hended
    · exact .inr (.element hstep fun j hj ↦ by simp [lockFails, hj.symm])
  | spurious i =>
    obtain ⟨td, td', hstep⟩ := spurious_spec hnext
    exact .inr (.element hstep fun _ _ ↦ rfl)

/-- Assumes: `main` compares the counter with the number of children. -/
theorem Sync.main (h : Sync s) (hcur : s.main = .test → s.curId = some s.points.length)
    (hnext : main s ret = some s') : s'.main = .unresolved ∨ Sync s' := by
  cases mainStep hnext with
  | unresolved => exact .inl rfl
  | lock hmain hfree =>
    exact .inr (h.goes_on hmain .malloc rfl rfl rfl (.take hfree rfl) rfl rfl (fun _ ↦ .inl rfl)
      nofun nofun)
  | relock hmain hfree =>
    exact .inr (h.goes_on hmain .test rfl rfl rfl (.take hfree rfl) rfl rfl nofun nofun nofun)
  | create hmain => exact .inr (h.create hmain)
  | refused hmain =>
    exact .inr (h.goes_on hmain .stop rfl rfl rfl (.keep rfl) rfl rfl (fun _ ↦ .inl rfl)
      nofun nofun)
  | link hmain =>
    obtain ⟨hcounter, hm, hsame, -, -⟩ := setCurNext_frame s (.element s.last)
    exact .inr (h.goes_on hmain .setId rfl (points_setCurNext s _) hcounter (hm ▸ .keep rfl) hsame
      rfl nofun id nofun)
  | setId hmain =>
    exact .inr (h.goes_on hmain .setError rfl (points_of_modify rfl fun _ ↦ rfl) rfl
      (.keep rfl) rfl rfl nofun id nofun)
  | setError hmain =>
    exact .inr (h.goes_on hmain .unlock rfl (points_of_modify rfl fun _ ↦ rfl) rfl
      (.keep rfl) rfl rfl nofun nofun nofun)
  | unlock hmain =>
    exact .inr (h.goes_on hmain .relock rfl rfl rfl (.drop rfl rfl) rfl rfl nofun nofun nofun)
  | test hmain =>
    rw [hcur hmain]
    by_cases hall : s.points.length = s.counter
    · rw [if_pos (congrArg some hall)]
      exact .inr (h.goes_on hmain .malloc rfl rfl rfl (.keep rfl) rfl rfl
        (fun _ ↦ .inr hall.symm) nofun nofun)
    · rw [if_neg (fun heq ↦ hall (Option.some.inj heq))]
      exact .inr (h.goes_on hmain .unlock rfl rfl rfl (.keep rfl) rfl rfl nofun nofun nofun)
  | stop hmain =>
    exact .inr (h.goes hmain .broadcast rfl rfl rfl (.keep rfl) rfl (fun _ ↦ .inl rfl) nofun
      nofun)
  | broadcast hmain => exact .inr (h.broadcast hmain)
  | unlockEnd hmain =>
    exact .inr (h.goes_on hmain .walk rfl rfl rfl (.drop rfl rfl) rfl rfl (fun _ ↦ .inl rfl) nofun
      fun _ ↦ rfl)
  | walk hmain hends =>
    refine .inr (h.walks (by rw [hmain]; rfl) ?_ rfl rfl rfl rfl)
    obtain rfl | rfl | ⟨i, rfl⟩ := hends <;> rfl
  | join hmain _ | count hmain => exact .inr (h.walks (by rw [hmain]; rfl) rfl rfl rfl rfl rfl)
  | free hmain =>
    exact .inr (h.walks (by rw [hmain]; rfl) rfl (points_of_modify rfl fun _ ↦ rfl) rfl rfl rfl)

end OpenPosix.Mutexes.Scale

import OpenPosix.Semaphores.SleepingBarberModel

/-!
# The accounts of the sleeping barber

The invariant of the barber and its customers over every run (`Inv`). `waiting` is the number of
customers that have announced themselves and have not been called: a customer is announced by the
write of `waiting` and known to the barber by its post of `customer`, and it is called by the
barber's return from `sem_wait(&customer)` and taken off by the barber's write of `waiting`. The
other accounts count over the whole run: the customers that sat down are the units of `customer` and
the rounds of the barber, the haircuts are the units of `barber` and the customers that passed it.

`barberStep_of_barbers` and `customerStep_of_customers` say what one step changes, and every part of
`Inv` follows from them by `total_update`.
-/

namespace OpenPosix.Semaphores.SleepingBarber

open Interleaving Function

variable {chairNum cusNum loopNum : ℕ} {s s' : State cusNum}
  {trace : List (State cusNum × Thread cusNum)}

attribute [simp] State.setBar

/-! ### What a thread has -/

@[simp] def Barber.holdsLock (b : Barber) : ℕ :=
  match b.point with
  | .testWaiting | .print _ _ | .postLock => 1
  | .testGuard | .decRead | .decWrite | .postLockAgain => 1
  | _ => 0

@[simp] def Barber.holdsPrint (b : Barber) : ℕ :=
  match b.point with
  | .print _ .post => 1
  | _ => 0

/-- The number of times the barber has returned from `sem_wait(&customer)`. -/
def Barber.taken (b : Barber) : ℕ :=
  match b.point with
  | .unborn => 0
  | .waitLockAgain | .testGuard | .decRead | .decWrite => b.i + 1
  | .print .cut _ | .postLockAgain | .postBarber => b.i + 1
  | _ => b.i

/-- The number of times the barber has posted `barber`. -/
def Barber.given (b : Barber) : ℕ :=
  match b.point with
  | .unborn => 0
  | _ => b.i

/-- What the barber knows about the value of `waiting`. -/
def Barber.Sees (waiting : ℤ) (b : Barber) : Prop :=
  match b.point with
  | .decWrite => waiting = b.register
  | _ => True

@[simp] def Customer.holdsLock (c : Customer) : ℕ :=
  match c.point with
  | .testChairs | .incRead | .incWrite | .postCustomer | .postLock | .postLockNoChair => 1
  | .print .sit _ | .print .noChair _ => 1
  | _ => 0

@[simp] def Customer.holdsPrint (c : Customer) : ℕ :=
  match c.point with
  | .print _ .post => 1
  | _ => 0

/-- The customer is between its `waiting = waiting + 1` and its `sem_post(&customer)`. -/
def Customer.announced (c : Customer) : ℕ :=
  match c.point with
  | .postCustomer => 1
  | _ => 0

/-- The customer has posted `customer` and has not passed `barber`. -/
def Customer.seated (c : Customer) : ℕ :=
  match c.point with
  | .print .sit _ | .postLock | .waitBarber => 1
  | _ => 0

def Customer.coming (c : Customer) : ℕ :=
  match c.point with
  | .unborn | .print .enter _ | .waitLock => 1
  | .testChairs | .incRead | .incWrite | .postCustomer => 1
  | _ => 0

/-- What a customer knows about the value of `waiting`. -/
def Customer.Sees (chairNum : ℕ) (waiting : ℤ) (c : Customer) : Prop :=
  match c.point with
  | .incRead => waiting < chairNum
  | .incWrite => waiting = c.register ∧ waiting < chairNum
  | _ => True

theorem Barber.sees_of_holdsLock_eq_zero {b : Barber} (h : b.holdsLock = 0) (waiting : ℤ) :
    b.Sees waiting := by
  obtain ⟨point, i, register⟩ := b
  cases point <;> simp at h <;> trivial

theorem Customer.sees_of_holdsLock_eq_zero {c : Customer} (h : c.holdsLock = 0) (waiting : ℤ) :
    c.Sees chairNum waiting := by
  obtain ⟨point, register⟩ := c
  cases point <;> simp at h <;> trivial

theorem Customer.announced_le_holdsLock (c : Customer) : c.announced ≤ c.holdsLock := by
  obtain ⟨point, register⟩ := c
  cases point <;> simp [Customer.announced]

/-- The step is a customer's `sem_post(&customer)`. -/
def isSit (step : State cusNum × Thread cusNum) : Bool :=
  match step.2 with
  | .customers ID => decide ((step.1.cus ID).point = .postCustomer)
  | _ => false

/-- The number of customers that have sat down in a run. -/
def sits (trace : List (State cusNum × Thread cusNum)) : ℕ := trace.countP isSit

theorem sits_append (trace : List (State cusNum × Thread cusNum))
    (step : State cusNum × Thread cusNum) :
    sits (trace ++ [step]) = sits trace + (isSit step).toNat := by
  cases h : isSit step <;> simp [sits, h]

theorem haircuts_append (trace : List (State cusNum × Thread cusNum))
    (step : State cusNum × Thread cusNum) :
    haircuts (trace ++ [step]) = haircuts trace + (isHaircut step).toNat := by
  cases h : isHaircut step <;> simp [haircuts, h]

theorem passes_append (trace : List (State cusNum × Thread cusNum))
    (step : State cusNum × Thread cusNum) :
    passes (trace ++ [step]) = passes trace + (isPass step).toNat := by
  cases h : isPass step <;> simp [passes, h]

/-! ### What a step changes -/

/-- What a step of the barber changes: `lock` and `print` balance what it holds, `waiting` and
`customer` balance whether it has called a customer, and `barber` counts its haircuts. -/
structure BarberStep (loopNum : ℕ) (s s' : State cusNum) : Prop where
  cus : s'.cus = s.cus
  main : s'.main = s.main
  born : s'.bar.point ≠ .unborn
  was : s.bar.point ≠ .unborn
  sees : s'.bar.Sees s'.waiting
  owner : s'.waiting ≠ s.waiting → s.bar.holdsLock = 1
  le : s'.waiting ≤ s.waiting
  lock : s'.lock + s'.bar.holdsLock = s.lock + s.bar.holdsLock
  print : s'.print + s'.bar.holdsPrint = s.print + s.bar.holdsPrint
  balance : (s'.customer : ℤ) + s'.bar.called + s.waiting = s.customer + s.bar.called + s'.waiting
  taken : s'.customer + s'.bar.taken = s.customer + s.bar.taken
  given : s'.barber + s.bar.given = s.barber + s'.bar.given
  haircut : s'.bar.given = s.bar.given + (isHaircut (s, .barbers)).toNat
  rounds : s'.bar.point = .exited → loopNum ≤ s'.bar.i

/-- What a step of customer `ID` changes: `lock` and `print` balance what it holds, `waiting`
balances whether it is announced, and `customer` and `barber` count the sits and the passes. -/
structure CustomerStep (chairNum : ℕ) (ID : Fin cusNum) (s s' : State cusNum) (c : Customer) :
    Prop where
  cus : s'.cus = Function.update s.cus ID c
  bar : s'.bar = s.bar
  main : s'.main = s.main
  born : c.point ≠ .unborn
  was : (s.cus ID).point ≠ .unborn
  sees : c.Sees chairNum s'.waiting
  owner : s'.waiting ≠ s.waiting → (s.cus ID).holdsLock = 1
  room : s.waiting ≤ chairNum → s'.waiting ≤ chairNum
  lock : s'.lock + c.holdsLock = s.lock + (s.cus ID).holdsLock
  print : s'.print + c.holdsPrint = s.print + (s.cus ID).holdsPrint
  balance : (s'.customer : ℤ) + c.announced + s.waiting =
    s.customer + (s.cus ID).announced + s'.waiting
  sit : s'.customer = s.customer + (isSit (s, .customers ID)).toNat
  pass : s'.barber + (isPass (s, .customers ID)).toNat = s.barber
  seated : c.seated + (isPass (s, .customers ID)).toNat =
    (s.cus ID).seated + (isSit (s, .customers ID)).toNat
  coming : (isSit (s, .customers ID)).toNat + c.coming ≤ (s.cus ID).coming

section Moves

attribute [local simp] State.setBar Barber.Sees Barber.holdsLock Barber.holdsPrint Barber.called
  Barber.taken Barber.given isHaircut State.setCus Customer.Sees Customer.holdsLock
  Customer.holdsPrint Customer.announced Customer.seated Customer.coming isSit isPass

theorem barberStep_of_barbers (h : barbers loopNum s = some s') (hsees : s.bar.Sees s.waiting)
    (hcalled : (s.bar.called : ℤ) ≤ s.waiting) : BarberStep loopNum s s' := by
  cases hb : s.bar with
  | mk point i register =>
  rw [hb] at hsees hcalled
  cases point with
  | unborn | exited => simp [barbers, hb] at h
  | loop =>
    simp only [barbers, hb] at h
    cases h
    by_cases hround : i < loopNum
    · constructor <;> simp [hb, hround]
    · constructor <;> simp [hb, hround]
      omega
  | waitLock | waitLockAgain =>
    simp only [barbers, hb, map_semWait_eq_some_iff] at h
    obtain ⟨value, hlock, rfl⟩ := h
    constructor <;> simp [hb, hlock]
  | testWaiting =>
    simp only [barbers, hb] at h
    cases h
    by_cases hzero : s.waiting = 0
    · constructor <;> simp [hb, hzero]
    · constructor <;> simp [hb, hzero]
  | print line point =>
    cases point with
    | wait =>
      simp only [barbers, hb, map_semWait_eq_some_iff] at h
      obtain ⟨value, hprint, rfl⟩ := h
      cases line <;> constructor <;> simp [hb, hprint]
    | post =>
      simp only [barbers, hb] at h
      cases h
      cases line <;> constructor <;> simp [BarberLine.next, hb]
  | postLock | decRead | postLockAgain =>
    simp only [barbers, hb] at h
    cases h
    constructor <;> simp [hb]
  | waitCustomer =>
    simp only [barbers, hb, map_semWait_eq_some_iff] at h
    obtain ⟨value, hcustomer, rfl⟩ := h
    constructor <;> simp [hb, hcustomer]
    omega
  | testGuard =>
    simp only [barbers, hb] at h
    cases h
    have hguard : 1 ≤ s.waiting := by simpa [Barber.called] using hcalled
    constructor <;> simp [hb, hguard]
  | decWrite =>
    simp only [barbers, hb] at h
    cases h
    simp only [Barber.Sees] at hsees
    constructor <;> simp [hb, hsees]
  | postBarber =>
    simp only [barbers, hb] at h
    cases h
    constructor <;> simp [hb]
    omega

theorem customerStep_of_customers {ID : Fin cusNum} (h : customers chairNum s ID = some s')
    (hsees : (s.cus ID).Sees chairNum s.waiting) : ∃ c, CustomerStep chairNum ID s s' c := by
  cases hc : s.cus ID with
  | mk point register =>
  rw [hc] at hsees
  cases point with
  | unborn | exited => simp [customers, hc] at h
  | print line point =>
    cases point with
    | wait =>
      simp only [customers, hc, map_semWait_eq_some_iff] at h
      obtain ⟨value, hprint, rfl⟩ := h
      refine ⟨⟨.print line .post, register⟩, ?_⟩
      cases line <;> constructor <;> simp [hc, hprint]
    | post =>
      simp only [customers, hc] at h
      cases h
      refine ⟨⟨line.next, register⟩, ?_⟩
      cases line <;> constructor <;> simp [CustomerLine.next, hc]
  | waitLock =>
    simp only [customers, hc, map_semWait_eq_some_iff] at h
    obtain ⟨value, hlock, rfl⟩ := h
    refine ⟨⟨.testChairs, register⟩, ?_⟩
    constructor <;> simp [hc, hlock]
  | testChairs =>
    simp only [customers, hc] at h
    cases h
    by_cases hfree : s.waiting < chairNum
    · refine ⟨⟨.incRead, register⟩, ?_⟩
      constructor <;> simp [hc, hfree]
    · refine ⟨⟨.print .noChair .wait, register⟩, ?_⟩
      constructor <;> simp [hc, hfree]
  | incRead =>
    simp only [customers, hc] at h
    cases h
    refine ⟨⟨.incWrite, s.waiting⟩, ?_⟩
    constructor <;> simp [hc]
    exact hsees
  | incWrite =>
    simp only [customers, hc] at h
    cases h
    simp only [Customer.Sees] at hsees
    refine ⟨⟨.postCustomer, register⟩, ?_⟩
    constructor <;> simp [hc, hsees.1]
    · omega
    · omega
  | postCustomer =>
    simp only [customers, hc] at h
    cases h
    refine ⟨⟨.print .sit .wait, register⟩, ?_⟩
    constructor <;> simp [hc]
  | postLock =>
    simp only [customers, hc] at h
    cases h
    refine ⟨⟨.waitBarber, register⟩, ?_⟩
    constructor <;> simp [hc]
  | waitBarber =>
    simp only [customers, hc, map_semWait_eq_some_iff] at h
    obtain ⟨value, hbarber, rfl⟩ := h
    refine ⟨⟨.print .hair .wait, register⟩, ?_⟩
    constructor <;> simp [hc, hbarber]
  | postLockNoChair =>
    simp only [customers, hc] at h
    cases h
    refine ⟨⟨.exited, register⟩, ?_⟩
    constructor <;> simp [hc]

end Moves

/-! ### The invariant -/

def Unborn (s : State cusNum) : Thread cusNum → Prop
  | .main => False
  | .barbers => s.bar.point = .unborn
  | .customers ID => (s.cus ID).point = .unborn

/-- What holds between any two steps of a run. -/
structure Inv (chairNum loopNum : ℕ) (trace : List (State cusNum × Thread cusNum))
    (s : State cusNum) : Prop where
  launched : s.main.Covers (Unborn s)
  lock : s.lock + s.bar.holdsLock + total Customer.holdsLock s.cus = 1
  print : s.print + s.bar.holdsPrint + total Customer.holdsPrint s.cus = 1
  barSees : s.bar.Sees s.waiting
  cusSees : ∀ ID, (s.cus ID).Sees chairNum s.waiting
  balance : (s.customer : ℤ) + s.bar.called + total Customer.announced s.cus = s.waiting
  room : s.waiting ≤ chairNum
  taken : s.customer + s.bar.taken = sits trace
  given : s.barber + passes trace = s.bar.given
  haircut : haircuts trace = s.bar.given
  seated : total Customer.seated s.cus + passes trace = sits trace
  coming : sits trace + total Customer.coming s.cus ≤ cusNum
  rounds : s.bar.point = .exited → loopNum ≤ s.bar.i

theorem Inv.called_le (h : Inv chairNum loopNum trace s) : (s.bar.called : ℤ) ≤ s.waiting := by
  have hbalance := h.balance
  omega

theorem inv_barbers (h : Inv chairNum loopNum trace s) (hnext : barbers loopNum s = some s') :
    Inv chairNum loopNum (trace ++ [(s, .barbers)]) s' := by
  have hstep := barberStep_of_barbers hnext h.barSees h.called_le
  have hsits : sits (trace ++ [(s, .barbers)]) = sits trace := by simp [sits_append, isSit]
  have hpasses : passes (trace ++ [(s, .barbers)]) = passes trace := by
    simp [passes_append, isPass]
  constructor
  · rw [hstep.main]
    refine h.launched.congr fun thread ↦ ?_
    cases thread with
    | main => rfl
    | barbers => exact iff_of_false hstep.born hstep.was
    | customers ID => simp only [Unborn, hstep.cus]
  · have hlock := h.lock
    have hmove := hstep.lock
    rw [hstep.cus]
    omega
  · have hprint := h.print
    have hmove := hstep.print
    rw [hstep.cus]
    omega
  · exact hstep.sees
  · intro ID
    rw [hstep.cus]
    by_cases hsame : s'.waiting = s.waiting
    · rw [hsame]
      exact h.cusSees ID
    · have hlock := h.lock
      have howner := hstep.owner hsame
      have hle := le_total Customer.holdsLock s.cus ID
      exact Customer.sees_of_holdsLock_eq_zero (by omega) _
  · have hbalance := h.balance
    have hmove := hstep.balance
    rw [hstep.cus]
    omega
  · exact hstep.le.trans h.room
  · rw [hsits, hstep.taken]
    exact h.taken
  · have hgiven := h.given
    have hmove := hstep.given
    omega
  · rw [haircuts_append, h.haircut, hstep.haircut]
  · rw [hsits, hpasses, hstep.cus]
    exact h.seated
  · rw [hsits, hstep.cus]
    exact h.coming
  · exact hstep.rounds

section Customers

variable {ID : Fin cusNum} {c : Customer}

theorem CustomerStep.total (h : CustomerStep chairNum ID s s' c) (weight : Customer → ℕ) :
    total weight s'.cus + weight (s.cus ID) = total weight s.cus + weight c := by
  rw [h.cus]
  exact total_update weight s.cus ID c

theorem CustomerStep.unborn_iff (h : CustomerStep chairNum ID s s' c) (thread : Thread cusNum) :
    Unborn s' thread ↔ Unborn s thread := by
  cases thread with
  | main => rfl
  | barbers => simp only [Unborn, h.bar]
  | customers ID' =>
    simp only [Unborn, h.cus]
    by_cases heq : ID' = ID
    · subst heq
      rw [update_self]
      exact iff_of_false h.born h.was
    · rw [update_of_ne heq]

/-- Whoever has read `waiting` for an update holds `lock`, and so does the customer that writes. -/
theorem Inv.sees_customers (h : Inv chairNum loopNum trace s)
    (hstep : CustomerStep chairNum ID s s' c) :
    s'.bar.Sees s'.waiting ∧ ∀ ID', (s'.cus ID').Sees chairNum s'.waiting := by
  have hlock := h.lock
  have hle := le_total Customer.holdsLock s.cus ID
  rw [hstep.bar, hstep.cus]
  by_cases hsame : s'.waiting = s.waiting
  · rw [hsame]
    exact ⟨h.barSees, (forall_update_iff s.cus fun _ c ↦ c.Sees chairNum s.waiting).mpr
      ⟨hsame ▸ hstep.sees, fun ID' _ ↦ h.cusSees ID'⟩⟩
  · have howner := hstep.owner hsame
    refine ⟨Barber.sees_of_holdsLock_eq_zero (by omega) _,
      (forall_update_iff s.cus fun _ c ↦ c.Sees chairNum s'.waiting).mpr
        ⟨hstep.sees, fun ID' hne ↦ ?_⟩⟩
    have hpair := pair_le_total Customer.holdsLock s.cus hne
    exact Customer.sees_of_holdsLock_eq_zero (by omega) _

theorem inv_customers (h : Inv chairNum loopNum trace s)
    (hnext : customers chairNum s ID = some s') :
    Inv chairNum loopNum (trace ++ [(s, .customers ID)]) s' := by
  obtain ⟨c, hstep⟩ := customerStep_of_customers hnext (h.cusSees ID)
  obtain ⟨hbarSees, hcusSees⟩ := h.sees_customers hstep
  have hsits := sits_append trace (s, .customers ID)
  have hpasses := passes_append trace (s, .customers ID)
  have hhaircuts : haircuts (trace ++ [(s, .customers ID)]) = haircuts trace := by
    simp [haircuts_append, isHaircut]
  obtain ⟨hlaunched, hlock, hprint, -, -, hbalance, hroom, htaken, hgiven, hhaircut, hseated,
    hcoming, hrounds⟩ := h
  refine ⟨by rw [hstep.main]; exact hlaunched.congr hstep.unborn_iff, ?_, ?_, hbarSees, hcusSees,
    ?_, hstep.room hroom, ?_, ?_, by rwa [hhaircuts, hstep.bar], ?_, ?_, by rwa [hstep.bar]⟩
  · have hmove := hstep.lock
    have htotal := hstep.total Customer.holdsLock
    rw [hstep.bar]
    omega
  · have hmove := hstep.print
    have htotal := hstep.total Customer.holdsPrint
    rw [hstep.bar]
    omega
  · have hmove := hstep.balance
    have htotal := hstep.total Customer.announced
    rw [hstep.bar]
    omega
  · have hsit := hstep.sit
    rw [hstep.bar]
    omega
  · have hpass := hstep.pass
    rw [hstep.bar]
    omega
  · have hmove := hstep.seated
    have htotal := hstep.total Customer.seated
    omega
  · have hmove := hstep.coming
    have htotal := hstep.total Customer.coming
    omega

end Customers

/-- A step of `main` is nothing that the trace counts. -/
theorem counts_main (trace : List (State cusNum × Thread cusNum)) (s : State cusNum) :
    sits (trace ++ [(s, .main)]) = sits trace ∧ passes (trace ++ [(s, .main)]) = passes trace ∧
      haircuts (trace ++ [(s, .main)]) = haircuts trace := by
  simp [sits_append, isSit, passes_append, isPass, haircuts_append, isHaircut]

/-- A new customer has nothing, and may still sit down. -/
theorem inv_create_customers {ID : Fin cusNum} {rest : List (Thread cusNum)}
    (h : Inv chairNum loopNum trace s) (hcreates : s.main.creates = .customers ID :: rest) :
    Inv chairNum loopNum (trace ++ [(s, .main)])
      (create { s with main := ⟨rest, s.main.joins⟩ } (.customers ID)) := by
  have hpoint : (s.cus ID).point = .unborn :=
    (h.launched.unborn_iff (.customers ID)).mpr (by simp [hcreates])
  obtain ⟨hsits, hpasses, hhaircuts⟩ := counts_main trace s
  have htotal {weight : Customer → ℕ}
      (hsame : weight { s.cus ID with point := .print .enter .wait } = weight (s.cus ID)) :
      total weight (create { s with main := ⟨rest, s.main.joins⟩ } (.customers ID)).cus =
        total weight s.cus := total_update_of_eq hsame
  constructor
  · refine h.launched.create hcreates (by simp [Unborn, create, State.setCus]) ?_ _
    intro other hother
    cases other with
    | customers ID' =>
      have hne : ID' ≠ ID := fun heq ↦ hother (heq ▸ rfl)
      simp [Unborn, create, State.setCus, update_of_ne hne]
    | _ => rfl
  · rw [htotal (by simp [hpoint])]
    exact h.lock
  · rw [htotal (by simp [hpoint])]
    exact h.print
  · exact h.barSees
  · intro ID'
    show Customer.Sees chairNum s.waiting (update s.cus ID _ ID')
    by_cases heq : ID' = ID
    · subst heq
      rw [update_self]
      trivial
    · rw [update_of_ne heq]
      exact h.cusSees ID'
  · rw [htotal (by simp [Customer.announced, hpoint])]
    exact h.balance
  · exact h.room
  · exact hsits ▸ h.taken
  · exact hpasses ▸ h.given
  · exact hhaircuts ▸ h.haircut
  · rw [htotal (by simp [Customer.seated, hpoint]), hpasses, hsits]
    exact h.seated
  · rw [htotal (by simp [Customer.coming, hpoint]), hsits]
    exact h.coming
  · exact h.rounds

/-- The new barber has nothing. -/
theorem inv_create_barbers {rest : List (Thread cusNum)} (h : Inv chairNum loopNum trace s)
    (hcreates : s.main.creates = .barbers :: rest) :
    Inv chairNum loopNum (trace ++ [(s, .main)])
      (create { s with main := ⟨rest, s.main.joins⟩ } .barbers) := by
  have hpoint : s.bar.point = .unborn := (h.launched.unborn_iff .barbers).mpr (by simp [hcreates])
  obtain ⟨hsits, hpasses, hhaircuts⟩ := counts_main trace s
  constructor
  · refine h.launched.create hcreates (by simp [Unborn, create]) ?_ _
    intro other hother
    cases other with
    | barbers => exact absurd rfl hother
    | _ => rfl
  · simpa [create, hpoint] using h.lock
  · simpa [create, hpoint] using h.print
  · trivial
  · exact h.cusSees
  · simpa [create, Barber.called, hpoint] using h.balance
  · exact h.room
  · rw [hsits]
    simpa [create, Barber.taken, hpoint] using h.taken
  · rw [hpasses]
    simpa [create, Barber.given, hpoint] using h.given
  · rw [hhaircuts]
    simpa [create, Barber.given, hpoint] using h.haircut
  · rw [hpasses, hsits]
    exact h.seated
  · rw [hsits]
    exact h.coming
  · simp [create]

theorem inv_main (h : Inv chairNum loopNum trace s) (hnext : main s = some s') :
    Inv chairNum loopNum (trace ++ [(s, .main)]) s' := by
  obtain ⟨thread, rest, hcreates, rfl⟩ | ⟨hcreates, thread, joins, -, -, rfl⟩ :=
    Launcher.next_cases hnext
  · cases thread with
    | main => exact absurd ((h.launched.unborn_iff .main).mpr (by simp [hcreates])) id
    | barbers => exact inv_create_barbers h hcreates
    | customers ID => exact inv_create_customers h hcreates
  · obtain ⟨hsits, hpasses, hhaircuts⟩ := counts_main trace s
    exact ⟨h.launched.join hcreates joins, h.lock, h.print, h.barSees, h.cusSees, h.balance, h.room,
      hsits ▸ h.taken, hpasses ▸ h.given, hhaircuts ▸ h.haircut,
      by rw [hpasses, hsits]; exact h.seated, hsits ▸ h.coming, h.rounds⟩

theorem inv_start (chairNum cusNum loopNum : ℕ) : Inv chairNum loopNum [] (start cusNum) := by
  have htotal {weight : Customer → ℕ} (hzero : weight ⟨.unborn, 0⟩ = 0) :
      total weight (start cusNum).cus = 0 := total_eq_zero fun _ ↦ hzero
  constructor
  · refine ⟨fun thread ↦ ?_, ?_⟩
    · cases thread <;> simp [Unborn, start]
    · have hcus : Function.Injective (Thread.customers : Fin cusNum → Thread cusNum) :=
        fun _ _ h ↦ Thread.customers.inj h
      refine List.Nodup.append ((List.nodup_finRange cusNum).map hcus) (List.nodup_singleton _) ?_
      intro thread hfirst hsecond
      obtain ⟨ID, -, rfl⟩ := List.mem_map.mp hfirst
      simp at hsecond
  · rw [htotal rfl]
    rfl
  · rw [htotal rfl]
    rfl
  · trivial
  · exact fun _ ↦ trivial
  · rw [htotal rfl]
    rfl
  · exact Int.natCast_nonneg chairNum
  · rfl
  · rfl
  · rfl
  · rw [htotal rfl]
    rfl
  · have hcoming : total Customer.coming (start cusNum).cus = cusNum :=
      (total_eq_card fun _ ↦ rfl).trans (Fintype.card_fin cusNum)
    rw [hcoming]
    exact le_of_eq (Nat.zero_add cusNum)
  · simp [start]

theorem inv_of_exec (h : (program chairNum cusNum loopNum).Exec trace s) :
    Inv chairNum loopNum trace s := by
  induction h with
  | start hs => exact hs ▸ inv_start chairNum cusNum loopNum
  | @step trace s s' thread hrun hnext ih =>
    cases thread with
    | main => exact inv_main ih hnext
    | barbers => exact inv_barbers ih hnext
    | customers ID => exact inv_customers ih hnext

end OpenPosix.Semaphores.SleepingBarber

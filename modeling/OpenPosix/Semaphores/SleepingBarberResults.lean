import OpenPosix.Semaphores.SleepingBarberInvariant

/-!
# Nobody is forgotten in the barber shop

`waiting_balanced` is about every run of every number of customers and chairs, and of a barber with
at least as many rounds as there are customers: `waiting` is exact and within the chairs, the guard
of `waiting--` never fails, no customer passes `barber` without a haircut, and no customer is left
waiting for ever. Only the last of these needs a round for every customer.
-/

namespace OpenPosix.Semaphores.SleepingBarber

open Interleaving

variable {chairNum cusNum loopNum : ℕ} {s : State cusNum}
  {trace : List (State cusNum × Thread cusNum)}

/-! ### The announced customer -/

/-- At most one customer is announced and not known to the barber, since it holds `lock`. -/
theorem Inv.announced_eq (h : Inv chairNum loopNum trace s) : total Customer.announced s.cus =
      if ∃ ID, (s.cus ID).point = .postCustomer then 1 else 0 := by
  have hle := total_mono fun ID ↦ Customer.announced_le_holdsLock (s.cus ID)
  have hlock := h.lock
  by_cases hsome : ∃ ID, (s.cus ID).point = .postCustomer
  · rw [if_pos hsome]
    obtain ⟨ID, hID⟩ := hsome
    have hone := le_total Customer.announced s.cus ID
    simp only [Customer.announced, hID] at hone
    omega
  · rw [if_neg hsome]
    apply total_eq_zero
    intro ID
    have hne : (s.cus ID).point ≠ .postCustomer := fun hID ↦ hsome ⟨ID, hID⟩
    unfold Customer.announced
    split
    · next hID => exact absurd hID hne
    · rfl

/-! ### Progress -/

/-- The barber at none of its waits has a step. -/
theorem barbers_isSome_iff : (barbers loopNum s).isSome ↔ match s.bar.point with
    | .unborn | .exited => False
    | .waitLock | .waitLockAgain => 0 < s.lock
    | .print _ .wait => 0 < s.print
    | .waitCustomer => 0 < s.customer
    | _ => True := by
  cases hpoint : s.bar.point with
  | print line point => cases point <;> simp [barbers, hpoint]
  | _ => simp [barbers, hpoint]

/-- A customer at none of its waits has a step. -/
theorem customers_isSome_iff {ID : Fin cusNum} : (customers chairNum s ID).isSome ↔
    match (s.cus ID).point with
    | .unborn | .exited => False
    | .waitLock => 0 < s.lock
    | .print _ .wait => 0 < s.print
    | .waitBarber => 0 < s.barber
    | _ => True := by
  cases hpoint : (s.cus ID).point with
  | print line point => cases point <;> simp [customers, hpoint]
  | _ => simp [customers, hpoint]

/-- All threads exist, and neither the barber nor a customer has a step. -/
structure Blocked (chairNum loopNum : ℕ) (s : State cusNum) : Prop where
  bar : ¬ (barbers loopNum s).isSome
  cus : ∀ ID, ¬ (customers chairNum s ID).isSome
  born : ∀ thread, ¬ Unborn s thread

/-- Assumes: no thread has a step. `print` is free, since its holder would have one. -/
theorem Blocked.print_pos (h : Blocked chairNum loopNum s) (hinv : Inv chairNum loopNum trace s) :
    0 < s.print := by
  by_contra hzero
  have hprint := hinv.print
  have hholds : 0 < s.bar.holdsPrint ∨ 0 < total Customer.holdsPrint s.cus := by omega
  rcases hholds with hholds | hholds
  · have hstep := h.bar
    rw [barbers_isSome_iff] at hstep
    cases hpoint : s.bar.point with
    | print line point => cases point <;> simp [hpoint] at hholds hstep
    | _ => simp [hpoint] at hholds
  · obtain ⟨ID, hID⟩ := exists_pos_of_total_pos hholds
    have hstep := h.cus ID
    rw [customers_isSome_iff] at hstep
    cases hpoint : (s.cus ID).point with
    | print line point => cases point <;> simp [hpoint] at hID hstep
    | _ => simp [hpoint] at hID

/-- Assumes: no thread has a step. `lock` is free: its holder waits for nothing but `print`. -/
theorem Blocked.lock_pos (h : Blocked chairNum loopNum s) (hinv : Inv chairNum loopNum trace s) :
    0 < s.lock := by
  by_contra hzero
  have hprint := h.print_pos hinv
  have hlock := hinv.lock
  have hholds : 0 < s.bar.holdsLock ∨ 0 < total Customer.holdsLock s.cus := by omega
  rcases hholds with hholds | hholds
  · have hstep := h.bar
    rw [barbers_isSome_iff] at hstep
    cases hpoint : s.bar.point with
    | print line point => cases point <;> simp [hpoint, hprint] at hstep
    | _ => simp [hpoint] at hholds hstep
  · obtain ⟨ID, hID⟩ := exists_pos_of_total_pos hholds
    have hstep := h.cus ID
    rw [customers_isSome_iff] at hstep
    cases hpoint : (s.cus ID).point with
    | print line point => cases point <;> simp [hpoint, hprint] at hstep
    | _ => simp [hpoint] at hID hstep

/-- Assumes: no thread has a step. The barber has ended, or waits for a customer. -/
theorem Blocked.barber_cases (h : Blocked chairNum loopNum s)
    (hinv : Inv chairNum loopNum trace s) :
    s.bar.point = .exited ∨ s.bar.point = .waitCustomer ∧ s.customer = 0 := by
  have hprint := h.print_pos hinv
  have hlock := h.lock_pos hinv
  have hborn : s.bar.point ≠ .unborn := h.born .barbers
  have hstep := h.bar
  rw [barbers_isSome_iff] at hstep
  cases hpoint : s.bar.point with
  | unborn => exact absurd hpoint hborn
  | exited => exact .inl rfl
  | waitCustomer =>
    simp only [hpoint] at hstep
    exact .inr ⟨rfl, by omega⟩
  | print line point => cases point <;> simp [hpoint, hprint] at hstep
  | waitLock | waitLockAgain => simp [hpoint, hlock] at hstep
  | _ => simp [hpoint] at hstep

/-- Assumes: no thread has a step. A customer has left, or waits for the barber. -/
theorem Blocked.customer_cases (h : Blocked chairNum loopNum s)
    (hinv : Inv chairNum loopNum trace s) (ID : Fin cusNum) :
    (s.cus ID).point = .exited ∨ (s.cus ID).point = .waitBarber ∧ s.barber = 0 := by
  have hprint := h.print_pos hinv
  have hlock := h.lock_pos hinv
  have hborn : (s.cus ID).point ≠ .unborn := h.born (.customers ID)
  have hstep := h.cus ID
  rw [customers_isSome_iff] at hstep
  cases hpoint : (s.cus ID).point with
  | unborn => exact absurd hpoint hborn
  | exited => exact .inl rfl
  | waitBarber =>
    simp only [hpoint] at hstep
    exact .inr ⟨rfl, by omega⟩
  | print line point => cases point <;> simp [hpoint, hprint] at hstep
  | waitLock => simp [hpoint, hlock] at hstep
  | _ => simp [hpoint] at hstep

/-- Assumes: no thread has a step, and the barber has a round for every customer. Every customer has
left: a seated one would be a customer that sat down and was not served, so the barber would have a
unit of `customer` to take, or would have served all customers. -/
theorem Blocked.customers_exited (h : Blocked chairNum loopNum s)
    (hinv : Inv chairNum loopNum trace s) (hloop : cusNum ≤ loopNum) (ID : Fin cusNum) :
    (s.cus ID).point = .exited := by
  rcases h.customer_cases hinv ID with hexited | ⟨hpoint, hbarber⟩
  · exact hexited
  have hseated := hinv.seated
  have hone : 1 ≤ total Customer.seated s.cus := by
    have hle := le_total Customer.seated s.cus ID
    simpa [Customer.seated, hpoint] using hle
  have htaken := hinv.taken
  have hgiven := hinv.given
  have hcoming := hinv.coming
  rcases h.barber_cases hinv with hend | ⟨hwait, hcustomer⟩
  · have hrounds := hinv.rounds hend
    simp only [Barber.given, hend] at hgiven
    omega
  · simp only [Barber.taken, Barber.given, hwait] at htaken hgiven
    omega

/-- Assumes: a run, and a round of the barber for every customer. `waiting` is between zero and the
number of chairs, and is the value of `customer`, plus one while the barber has called a customer
and not taken it off, plus one while a customer has added itself and not posted `customer`. The
barber finds `waiting` positive at the guarded `waiting--`. No more customers have passed `barber`
than haircuts were given. If a customer has not left, the barber or a customer has a step, or `main`
has a thread to create and can create it. -/
theorem waiting_balanced (chairNum cusNum loopNum : ℕ) (hloop : cusNum ≤ loopNum)
    (trace : List (State cusNum × Thread cusNum)) (s : State cusNum)
    (h : (program chairNum cusNum loopNum).Exec trace s) :
    (0 ≤ s.waiting ∧ s.waiting ≤ chairNum) ∧
    (s.customer : ℤ) + s.bar.called +
      (if ∃ ID, (s.cus ID).point = .postCustomer then 1 else 0) = s.waiting ∧
    (s.bar.point = .testGuard ∨ s.bar.point = .decRead ∨ s.bar.point = .decWrite →
      1 ≤ s.waiting) ∧
    passes trace ≤ haircuts trace ∧
    ((∃ ID, (s.cus ID).point ≠ .exited) →
      (program chairNum cusNum loopNum).Enabled s .barbers ∨
      (∃ ID, (program chairNum cusNum loopNum).Enabled s (.customers ID)) ∨
      s.main.creates ≠ [] ∧ (program chairNum cusNum loopNum).Enabled s .main) := by
  have hinv := inv_of_exec h
  have hbalance := hinv.balance
  refine ⟨⟨by omega, hinv.room⟩, ?_, ?_, ?_, ?_⟩
  · rw [← hbalance, hinv.announced_eq]
    push_cast
    rfl
  · rintro (hpoint | hpoint | hpoint) <;> simpa [Barber.called, hpoint] using hinv.called_le
  · have hgiven := hinv.given
    have hhaircut := hinv.haircut
    omega
  · rintro ⟨ID, hunfinished⟩
    by_cases hcreates : s.main.creates = []
    · by_contra hnone
      push Not at hnone
      have hblocked : Blocked chairNum loopNum s := by
        refine ⟨fun hbar ↦ hnone.1 hbar, fun ID hID ↦ hnone.2.1 ID hID, fun thread hborn ↦ ?_⟩
        simpa [hcreates] using (hinv.launched.unborn_iff thread).mp hborn
      exact hunfinished (hblocked.customers_exited hinv hloop ID)
    · refine .inr (.inr ⟨hcreates, ?_⟩)
      show (main s).isSome = true
      exact Launcher.next_isSome hcreates

/-- One customer sits down, and the barber calls it. -/
def calls : List (Thread 1) :=
  [.main, .main] ++ List.replicate 10 (.customers ⟨0, Nat.one_pos⟩) ++ List.replicate 6 .barbers

/-- The customer is blocked and the barber at its guard finds it in `waiting`. -/
theorem waiting_balanced_calls :
    ∃ s, (program 1 1 1).runSchedule (start 1) calls = some s ∧ customers 1 s 0 = none ∧
      s.bar.point = .testGuard ∧ 1 ≤ s.waiting ∧
      ((program 1 1 1).Enabled s .barbers ∨ ∃ ID, (program 1 1 1).Enabled s (.customers ID)) := by
  obtain ⟨s, hrun, hblocked, hguard, hpoint, hcreates⟩ :
      ∃ s, (program 1 1 1).runSchedule (start 1) calls = some s ∧ customers 1 s 0 = none ∧
        s.bar.point = .testGuard ∧ (s.cus 0).point = .waitBarber ∧ s.main.creates = [] :=
    ⟨_, rfl, rfl, rfl, rfl, rfl⟩
  have hexec : (program 1 1 1).Exec ((program 1 1 1).traceOf (start 1) calls) s :=
    (System.Exec.start (P := program 1 1 1) rfl).runSchedule hrun
  obtain ⟨-, -, hwaiting, -, hprogress⟩ := waiting_balanced 1 1 1 le_rfl _ s hexec
  refine ⟨s, hrun, hblocked, hguard, hwaiting (.inl hguard), ?_⟩
  rcases hprogress ⟨0, by simp [hpoint]⟩ with hbar | hcus | ⟨hmain, -⟩
  · exact .inl hbar
  · exact .inr hcus
  · exact absurd hcreates hmain

end OpenPosix.Semaphores.SleepingBarber

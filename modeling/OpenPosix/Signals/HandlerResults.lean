import OpenPosix.Signals.HandlerModel

/-!
# When a signal can be sent before its handler is installed

`main` creates the sender of a signal without waiting for the thread that installs the handler. What
matters is the state in which it does so: if the handler is installed by then, or `do_it` was
cleared before, no continuation sends the signal too early and the default action is never taken for
it (`handler_first_iff`). Otherwise the sender can run at once, whatever it waits for: a flooder and
`sync_send` do not wait at all, and the semaphore of a sender is 1 until the sender itself takes the
unit. None of the five signals of the two tests is safe (`early_signals`).

Two facts about the tests are used: no two threads send the same signal, and `main` does nothing
twice (`Proper`).
-/

namespace OpenPosix.Signals.Handlers

open Interleaving Function

variable {plan : Plan} {s s' : State} {sig : Sig} {j k : ℕ} {pace : Pace} {rest : List Action}

/-- The thread sends the signal. -/
def SenderOf (plan : Plan) (k : ℕ) (sig : Sig) : Prop :=
  ∃ pace, plan.roles[k]? = some (.sender sig pace)

/-- A state in which the signal is sent next, and its handler is not installed. -/
def SendsEarly (plan : Plan) (sig : Sig) (s : State) : Prop :=
  s.installed sig = false ∧
    ∃ k, SenderOf plan k sig ∧ s.point k = .kill ∧ (program plan).Enabled s (.thread k)

/-- Whatever happens from here on, the signal is not sent before its handler is installed, and the
process is not terminated by it. -/
def HandlerFirst (plan : Plan) (sig : Sig) (s : State) : Prop :=
  ∀ t, (program plan).Leads s t → ¬ SendsEarly plan sig t ∧ t.status ≠ .terminated sig

/-! ### The two tests -/

/-- Every signal has one sender, and `main` does nothing twice. -/
structure Proper (plan : Plan) : Prop where
  sender_unique : ∀ {j k sig}, SenderOf plan j sig → SenderOf plan k sig → j = k
  nodup : plan.script.Nodup

/-- Assumes: the sender of a signal can be told from the signal. -/
theorem Proper.of_sender (sender : Sig → ℕ) (hnodup : plan.script.Nodup)
    (hsender : ∀ k sig, SenderOf plan k sig → k = sender sig) : Proper plan where
  sender_unique hj hk := (hsender _ _ hj).trans (hsender _ _ hk).symm
  nodup := hnodup

theorem killStress_proper : Proper killStress := by
  refine .of_sender (fun sig ↦ if sig = .abrt then 1 else if sig = .bus then 2 else 4)
    (by decide) ?_
  rintro k sig ⟨pace, hrole⟩
  match k, hrole with
  | 0, hrole | 3, hrole => cases hrole
  | 1, hrole | 2, hrole | 4, hrole => cases hrole; rfl

theorem mutexLock31_proper : Proper mutexLock31 := by
  refine .of_sender (fun sig ↦ if sig = .usr1 then 1 else 2) (by decide) ?_
  rintro k sig ⟨pace, hrole⟩
  match k, hrole with
  | 0, hrole => cases hrole
  | 1, hrole | 2, hrole => cases hrole; rfl

theorem proper_of_mem_tests (h : plan ∈ tests) : Proper plan := by
  obtain rfl | rfl : plan = killStress ∨ plan = mutexLock31 := by simpa [tests] using h
  · exact killStress_proper
  · exact mutexLock31_proper

/-! ### What a step of a thread can do -/

/-- A step of a thread changes where this thread is and nothing about the others, it uninstalls no
handler, and it only sends the signal and takes the units of a signal that is its own. A sender that
finds `do_it` cleared returns. -/
structure ThreadStep (plan : Plan) (k : ℕ) (s s' : State) : Prop where
  main : s'.main = s.main
  doIt : s'.doIt = s.doIt
  status : s'.status = s.status ∨ s'.status = .failed
  born : s.point k ≠ .unborn
  stays_born : s'.point k ≠ .unborn
  others : ∀ j, j ≠ k → s'.point j = s.point j
  installed : ∀ sig, s.installed sig = true → s'.installed sig = true
  own : ∀ sig, ¬ SenderOf plan k sig → s'.sem sig = s.sem sig ∧ s'.pending sig = s.pending sig
  stopped : ∀ sig, SenderOf plan k sig → s.doIt = false →
    s.point k = .test ∨ s.point k = .returned →
    s'.point k = .returned ∧ s'.pending sig = s.pending sig

/-- Assumes: the thread exists, and a sender that finds `do_it` cleared returns. -/
theorem ThreadStep.goto {point : Point} (hborn : s.point k ≠ .unborn) (hne : point ≠ .unborn)
    (hstopped : ∀ sig, SenderOf plan k sig → s.doIt = false →
      s.point k = .test ∨ s.point k = .returned → point = .returned) :
    ThreadStep plan k s (s.goto k point) where
  main := rfl
  doIt := rfl
  status := .inl rfl
  born := hborn
  stays_born := by simpa [State.goto] using hne
  others j hj := update_of_ne hj _ _
  installed _ hsig := hsig
  own _ _ := ⟨rfl, rfl⟩
  stopped sig hsender hdoIt hpoint :=
    ⟨by simpa [State.goto] using hstopped sig hsender hdoIt hpoint, rfl⟩

theorem not_senderOf_of_receiver {installs : List Sig}
    (hrole : plan.roles[k]? = some (.receiver installs)) : ¬ SenderOf plan k sig := by
  rintro ⟨pace, hsender⟩
  simp [hrole] at hsender

theorem receiver_step {installs : List Sig} (hrole : plan.roles[k]? = some (.receiver installs))
    (h : receiver s k = some s') : ThreadStep plan k s s' := by
  have hgoto (point : Point) (hborn : s.point k ≠ .unborn) (hne : point ≠ .unborn) :
      ThreadStep plan k s (s.goto k point) :=
    .goto hborn hne fun _ hsender ↦ absurd hsender (not_senderOf_of_receiver hrole)
  unfold receiver at h
  split at h
  case h_1 first rest hpoint =>
    cases h
    have hstep := hgoto (.install rest) (by simp [hpoint]) (by simp)
    refine { hstep with installed := fun sig hsig ↦ ?_ }
    by_cases heq : sig = first
    · simp [heq]
    · simp [heq, hsig]
  case h_2 hpoint =>
    cases h
    exact hgoto _ (by simp [hpoint]) (by simp)
  case h_3 hpoint =>
    split_ifs at h
    cases h
    exact hgoto _ (by simp [hpoint]) (by simp)
  case h_4 => cases h

theorem sender_step (hrole : plan.roles[k]? = some (.sender sig pace))
    (h : sender sig pace s k = some s') : ThreadStep plan k s s' := by
  -- the sender is not at its test, so nothing is asked about a cleared `do_it`
  have hgoto (point : Point) (hborn : s.point k ≠ .unborn) (hne : point ≠ .unborn)
      (htest : s.point k ≠ .test) (hreturned : s.point k ≠ .returned) :
      ThreadStep plan k s (s.goto k point) :=
    .goto hborn hne fun _ _ _ hpoint ↦ (hpoint.elim htest hreturned).elim
  have hother {other : Sig} (hsender : ¬ SenderOf plan k other) : other ≠ sig := by
    rintro rfl
    exact hsender ⟨pace, hrole⟩
  unfold sender at h
  split at h
  case h_1 hpoint =>
    split_ifs at h with hdoIt
    · have hgoes (point : Point) (hne : point ≠ .unborn) : ThreadStep plan k s (s.goto k point) :=
        .goto (by simp [hpoint]) hne (by simp [hdoIt])
      cases pace <;> obtain rfl := Option.some.inj h <;> exact hgoes _ (by simp)
    · cases h
      exact .goto (by simp [hpoint]) (by simp) (by simp)
  case h_2 hpoint =>
    obtain ⟨value, -, rfl⟩ := Option.map_eq_some_iff.mp h
    have hstep := hgoto .kill (by simp [hpoint]) (by simp) (by simp [hpoint]) (by simp [hpoint])
    exact { hstep with own := fun other hsender ↦
      ⟨update_of_ne (hother hsender) _ _, rfl⟩ }
  case h_3 hpoint =>
    cases h
    have hstep := hgoto .kill (by simp [hpoint]) (by simp) (by simp [hpoint]) (by simp [hpoint])
    exact { hstep with }
  case h_4 hpoint =>
    cases h
    have hstep := hgoto (if pace = .flag then .sleep 0 else .test) (by simp [hpoint])
      (by split_ifs <;> simp) (by simp [hpoint]) (by simp [hpoint])
    exact { hstep with
      own := fun other hsender ↦ ⟨rfl, update_of_ne (hother hsender) _ _⟩
      stopped := fun _ _ _ hreturns ↦ by simp [hpoint] at hreturns }
  case h_5 hpoint =>
    cases h
    exact hgoto _ (by simp [hpoint]) (by split_ifs <;> simp) (by simp [hpoint]) (by simp [hpoint])
  case h_6 hpoint =>
    split_ifs at h
    · cases h
      exact hgoto _ (by simp [hpoint]) (by simp) (by simp [hpoint]) (by simp [hpoint])
    · cases h
      exact ⟨rfl, rfl, .inr rfl, by simp [hpoint], by simp [hpoint], fun _ _ ↦ rfl,
        fun _ hsig ↦ hsig, fun _ _ ↦ ⟨rfl, rfl⟩,
        fun _ _ _ hreturns ↦ by simp [hpoint] at hreturns⟩
  case h_7 => cases h

theorem thread_step (h : thread plan s k = some s') : ThreadStep plan k s s' := by
  unfold thread at h
  split at h
  case h_1 => cases h
  case h_2 hrole => exact receiver_step hrole h
  case h_3 hrole => exact sender_step hrole h

/-! ### What a delivery can do -/

/-- A delivery runs the handler, which at most sets the flag or posts a semaphore, or it terminates
the process by a signal that was sent and has no handler. -/
structure Delivered (s s' : State) : Prop where
  main : s'.main = s.main
  doIt : s'.doIt = s.doIt
  point : s'.point = s.point
  installed : s'.installed = s.installed
  sem : ∀ sig, s.sem sig ≤ s'.sem sig
  pending : ∀ sig, s.pending sig = false → s'.pending sig = false
  status : s'.status = s.status ∨
    ∃ sig, s'.status = .terminated sig ∧ s.pending sig = true ∧ s.installed sig = false

theorem le_update_semPost (sem : Sig → ℕ) (sig other : Sig) :
    sem other ≤ update sem sig (semPost (sem sig)) other := by
  rw [update_apply]
  split_ifs with heq
  · exact heq ▸ Nat.le_succ _
  · exact le_rfl

theorem le_sem_handler (s : State) (sig other : Sig) : s.sem other ≤ (handler s sig).sem other := by
  cases sig with
  | abrt | bus | ill => exact le_rfl
  | usr1 | usr2 => exact le_update_semPost _ _ _

theorem deliver_delivered (h : deliver plan s sig = some s') : Delivered s s' := by
  unfold deliver at h
  split_ifs at h with hsent hinstalled
  · cases h
    have hpending : ∀ other, s.pending other = false →
        update s.pending sig false other = false := fun other hother ↦ by
      rw [update_apply]
      split_ifs <;> simp [hother]
    have hsem := le_sem_handler { s with pending := update s.pending sig false } sig
    cases sig <;> exact ⟨rfl, rfl, rfl, rfl, hsem, hpending, .inl rfl⟩
  · cases h
    exact ⟨rfl, rfl, rfl, rfl, fun _ ↦ le_rfl, fun _ hother ↦ hother,
      .inr ⟨sig, rfl, hsent.1, by simpa using hinstalled⟩⟩

/-! ### What holds until a sender is created -/

/-- A thread that `main` will create does not exist, and as long as the sender of a signal does not
exist, the signal was not sent and its semaphore has the unit it had at the start. -/
structure Inv (plan : Plan) (s : State) : Prop where
  nodup : s.main.Nodup
  unborn : ∀ k, .create k ∈ s.main → s.point k = .unborn
  unsent : ∀ k sig, SenderOf plan k sig → s.point k = .unborn →
    0 < s.sem sig ∧ s.pending sig = false

theorem start_inv (hplan : Proper plan) : Inv plan (start plan) where
  nodup := hplan.nodup
  unborn _ _ := rfl
  unsent _ _ _ _ := ⟨Nat.one_pos, rfl⟩

/-- Assumes: `main` leaves the threads and the signals alone. -/
theorem Inv.main_rest (h : Inv plan s) {action : Action} (hmain : s.main = action :: rest)
    (hrest : s'.main = rest) (hpoint : s'.point = s.point) (hsem : s'.sem = s.sem)
    (hpending : s'.pending = s.pending) : Inv plan s' where
  nodup := by
    rw [hrest]
    exact (List.nodup_cons.mp (hmain ▸ h.nodup)).2
  unborn k hk := by
    rw [hpoint]
    exact h.unborn k (hmain ▸ List.mem_cons_of_mem _ (hrest ▸ hk))
  unsent k sig hsender hk := by
    rw [hsem, hpending]
    exact h.unsent k sig hsender (hpoint ▸ hk)

theorem Role.start_ne_unborn (role : Role) : role.start ≠ .unborn := by
  cases role <;> simp [Role.start]

theorem Inv.create (h : Inv plan s) (hmain : s.main = .create k :: rest) (role : Role) :
    Inv plan { s.goto k role.start with main := rest } := by
  obtain ⟨hfirst, hrest⟩ := List.nodup_cons.mp (hmain ▸ h.nodup)
  refine ⟨hrest, fun j hj ↦ ?_, fun j sig hsender hj ↦ ?_⟩
  · have hne : j ≠ k := by
      rintro rfl
      exact hfirst hj
    exact (update_of_ne hne _ _).trans (h.unborn j (hmain ▸ List.mem_cons_of_mem _ hj))
  · have hne : j ≠ k := by
      rintro rfl
      exact role.start_ne_unborn ((update_self ..).symm.trans hj)
    exact h.unsent j sig hsender ((update_of_ne hne _ _).symm.trans hj)

theorem Inv.main (h : Inv plan s) (hnext : main plan s = some s') : Inv plan s' := by
  unfold Handlers.main at hnext
  split at hnext
  case h_1 hmain =>
    cases hnext
    exact ⟨h.nodup, h.unborn, h.unsent⟩
  case h_2 j rest hmain =>
    obtain ⟨role, -, rfl⟩ := Option.map_eq_some_iff.mp hnext
    exact h.create hmain role
  case h_3 rest hmain | h_5 j rest hmain =>
    cases hnext
    exact h.main_rest hmain rfl rfl rfl rfl
  case h_4 j rest hmain =>
    split_ifs at hnext
    cases hnext
    exact h.main_rest hmain rfl rfl rfl rfl

/-- A thread that does not exist is not the one that moves, and its signal has no other sender. -/
theorem Inv.thread (hplan : Proper plan) (h : Inv plan s) (hstep : ThreadStep plan k s s') :
    Inv plan s' := by
  have hne {j : ℕ} (hj : s'.point j = .unborn) : j ≠ k := by
    rintro rfl
    exact hstep.stays_born hj
  refine ⟨hstep.main ▸ h.nodup, fun j hj ↦ ?_, fun j sig hsender hj ↦ ?_⟩
  · have hunborn := h.unborn j (hstep.main ▸ hj)
    have hjk : j ≠ k := by
      rintro rfl
      exact hstep.born hunborn
    rw [hstep.others j hjk, hunborn]
  · obtain ⟨hsem, hpending⟩ := hstep.own sig fun hk ↦ hne hj (hplan.sender_unique hsender hk)
    rw [hsem, hpending]
    exact h.unsent j sig hsender (hstep.others j (hne hj) ▸ hj)

theorem Inv.deliver (h : Inv plan s) (hstep : Delivered s s') : Inv plan s' where
  nodup := hstep.main ▸ h.nodup
  unborn k hk := hstep.point ▸ h.unborn k (hstep.main ▸ hk)
  unsent k sig hsender hk :=
    have ⟨hsem, hpending⟩ := h.unsent k sig hsender (hstep.point ▸ hk)
    ⟨hsem.trans_le (hstep.sem sig), hstep.pending sig hpending⟩

theorem inv_of_reachable (hplan : Proper plan) (h : (program plan).Reachable s) : Inv plan s := by
  refine h.invariant (fun s hs ↦ ?_) fun s move s' _ hinv hnext ↦ ?_
  · obtain rfl : s = start plan := hs
    exact start_inv hplan
  · obtain ⟨-, hnext⟩ := Option.ite_none_right_eq_some.mp hnext
    cases move with
    | main => exact hinv.main hnext
    | thread k => exact hinv.thread hplan (thread_step hnext)
    | deliver sig => exact hinv.deliver (deliver_delivered hnext)
    | stop =>
      split_ifs at hnext
      cases hnext
      exact ⟨hinv.nodup, hinv.unborn, hinv.unsent⟩

/-! ### When it is safe to create a sender -/

structure Installed (sig : Sig) (s : State) : Prop where
  installed : s.installed sig = true
  status : s.status ≠ .terminated sig

/-- The signal was not sent, and its sender has not got past a test of `do_it`, which is cleared. -/
structure Silent (k : ℕ) (sig : Sig) (s : State) : Prop where
  doIt : s.doIt = false
  pending : s.pending sig = false
  point : s.point k = .unborn ∨ s.point k = .test ∨ s.point k = .returned
  status : s.status ≠ .terminated sig

theorem Delivered.status_ne (hstep : Delivered s s') (hstatus : s.status ≠ .terminated sig)
    (hsafe : s.installed sig = true ∨ s.pending sig = false) : s'.status ≠ .terminated sig := by
  obtain hsame | ⟨other, hother, hpending, hinstalled⟩ := hstep.status
  · rwa [hsame]
  · intro hsig
    obtain rfl : other = sig := Status.terminated.inj (hother.symm.trans hsig)
    obtain hsafe | hsafe := hsafe
    · simp [hinstalled] at hsafe
    · simp [hpending] at hsafe

theorem ThreadStep.status_ne (hstep : ThreadStep plan k s s')
    (hstatus : s.status ≠ .terminated sig) : s'.status ≠ .terminated sig := by
  obtain hsame | hfailed := hstep.status
  · rwa [hsame]
  · simp [hfailed]

/-- `main` only creates threads and clears `do_it`. -/
theorem main_keeps (hnext : main plan s = some s') :
    s'.installed = s.installed ∧ s'.pending = s.pending ∧ (s.doIt = false → s'.doIt = false) ∧
      (s'.status = s.status ∨ s'.status = .passed) ∧
      ∀ k, s'.point k = s.point k ∨
        ∃ role, plan.roles[k]? = some role ∧ s'.point k = role.start := by
  unfold main at hnext
  split at hnext
  case h_2 j rest hmain =>
    obtain ⟨role, hrole, rfl⟩ := Option.map_eq_some_iff.mp hnext
    refine ⟨rfl, rfl, id, .inl rfl, fun k ↦ ?_⟩
    by_cases heq : k = j
    · subst heq
      exact .inr ⟨role, hrole, update_self ..⟩
    · exact .inl (update_of_ne heq _ _)
  case h_4 j rest hmain =>
    split_ifs at hnext
    cases hnext
    exact ⟨rfl, rfl, id, .inl rfl, fun _ ↦ .inl rfl⟩
  case h_1 =>
    cases hnext
    exact ⟨rfl, rfl, id, .inr rfl, fun _ ↦ .inl rfl⟩
  case h_3 =>
    cases hnext
    exact ⟨rfl, rfl, fun _ ↦ rfl, .inl rfl, fun _ ↦ .inl rfl⟩
  case h_5 =>
    cases hnext
    exact ⟨rfl, rfl, id, .inl rfl, fun _ ↦ .inl rfl⟩

theorem Installed.next {move : Move} (h : Installed sig s) (hnext : next plan s move = some s') :
    Installed sig s' := by
  obtain ⟨-, hnext⟩ := Option.ite_none_right_eq_some.mp hnext
  cases move with
  | main =>
    obtain ⟨hinstalled, -, -, hstatus, -⟩ := main_keeps hnext
    refine ⟨hinstalled ▸ h.installed, ?_⟩
    obtain hsame | hpassed := hstatus
    · exact hsame ▸ h.status
    · simp [hpassed]
  | thread k =>
    have hstep := thread_step hnext
    exact ⟨hstep.installed sig h.installed, hstep.status_ne h.status⟩
  | deliver other =>
    have hstep := deliver_delivered hnext
    exact ⟨hstep.installed ▸ h.installed, hstep.status_ne h.status (.inl h.installed)⟩
  | stop =>
    split_ifs at hnext
    cases hnext
    exact ⟨h.installed, h.status⟩

/-- The sender itself can only find `do_it` cleared and return, and no other thread sends the
signal. -/
theorem Silent.thread (hplan : Proper plan) (hsender : SenderOf plan k sig) (h : Silent k sig s)
    (hstep : ThreadStep plan j s s') : Silent k sig s' := by
  by_cases heq : k = j
  · subst heq
    obtain ⟨hreturned, hpending⟩ :=
      hstep.stopped sig hsender h.doIt (h.point.resolve_left hstep.born)
    exact ⟨hstep.doIt.trans h.doIt, hpending.trans h.pending, .inr (.inr hreturned),
      hstep.status_ne h.status⟩
  · obtain ⟨-, hpending⟩ := hstep.own sig fun hj ↦ heq (hplan.sender_unique hsender hj)
    exact ⟨hstep.doIt.trans h.doIt, hpending.trans h.pending, hstep.others k heq ▸ h.point,
      hstep.status_ne h.status⟩

theorem Silent.next {move : Move} (hplan : Proper plan) (hsender : SenderOf plan k sig)
    (h : Silent k sig s) (hnext : next plan s move = some s') : Silent k sig s' := by
  obtain ⟨-, hnext⟩ := Option.ite_none_right_eq_some.mp hnext
  cases move with
  | main =>
    obtain ⟨-, hpending, hdoIt, hstatus, hpoint⟩ := main_keeps hnext
    refine ⟨hdoIt h.doIt, hpending ▸ h.pending, ?_, ?_⟩
    · obtain hsame | ⟨role, hrole, hstarts⟩ := hpoint k
      · exact hsame ▸ h.point
      · obtain ⟨pace, hsender⟩ := hsender
        obtain rfl := Option.some.inj (hrole.symm.trans hsender)
        exact .inr (.inl hstarts)
    · obtain hsame | hpassed := hstatus
      · exact hsame ▸ h.status
      · simp [hpassed]
  | thread j => exact h.thread hplan hsender (thread_step hnext)
  | deliver other =>
    have hstep := deliver_delivered hnext
    exact ⟨hstep.doIt.trans h.doIt, hstep.pending sig h.pending, hstep.point ▸ h.point,
      hstep.status_ne h.status (.inr h.pending)⟩
  | stop =>
    split_ifs at hnext
    cases hnext
    exact ⟨rfl, h.pending, h.point, h.status⟩

theorem Installed.handlerFirst (h : Installed sig s) : HandlerFirst plan sig s := by
  intro t hleads
  have hsafe : Installed sig t := hleads.keeps (fun _ _ _ hsafe hnext ↦ hsafe.next hnext) h
  refine ⟨fun hearly ↦ ?_, hsafe.status⟩
  exact Bool.false_ne_true (hearly.1.symm.trans hsafe.installed)

theorem Silent.handlerFirst (hplan : Proper plan) (hsender : SenderOf plan k sig)
    (h : Silent k sig s) : HandlerFirst plan sig s := by
  intro t hleads
  have hsafe : Silent k sig t :=
    hleads.keeps (fun _ _ _ hsafe hnext ↦ hsafe.next hplan hsender hnext) h
  refine ⟨fun hearly ↦ ?_, hsafe.status⟩
  obtain ⟨-, j, hj, hkill, -⟩ := hearly
  obtain rfl := hplan.sender_unique hsender hj
  simpa [hkill] using hsafe.point

/-- The moves of a sender from its creation to its first signal. -/
def toFirstKill (k : ℕ) : Pace → List Move
  | .flood => [.main, .thread k]
  | .flag | .semaphore => [.main, .thread k, .thread k]

/-- The sender runs at once: it finds `do_it` set and, if it waits for its semaphore, takes the unit
that is there. -/
theorem exists_first_kill (hinv : Inv plan s) (hrunning : s.status = .running)
    (hmain : s.main = .create k :: rest) (hrole : plan.roles[k]? = some (.sender sig pace))
    (hdoIt : s.doIt = true) :
    ∃ t, (program plan).runSchedule s (toFirstKill k pace) = some t ∧ t.point k = .kill ∧
      t.status = .running ∧ t.installed = s.installed := by
  have hunborn := hinv.unborn k (hmain ▸ List.mem_cons_self)
  obtain ⟨value, hvalue⟩ := Nat.exists_eq_succ_of_ne_zero
    (hinv.unsent k sig ⟨pace, hrole⟩ hunborn).1.ne'
  cases pace <;>
    simp [toFirstKill, System.runSchedule, program, next, main, thread, sender, State.goto,
      Role.start, hrunning, hmain, hrole, hdoIt, hvalue, semWait]

theorem enabled_kill (hsender : SenderOf plan k sig) (hpoint : s.point k = .kill)
    (hrunning : s.status = .running) : (program plan).Enabled s (.thread k) := by
  obtain ⟨pace, hrole⟩ := hsender
  simp [System.Enabled, program, next, thread, sender, hrole, hpoint, hrunning]

/-- For a signal of the two tests, from a state in which `main` is about to create its sender: the
signal is never sent before its handler is installed and never terminates the process, in any
continuation, exactly if its handler is installed by now or `do_it` was cleared. -/
theorem handler_first_iff (hplan : plan ∈ tests) (hreach : (program plan).Reachable s)
    (hrunning : s.status = .running) (hmain : s.main = .create k :: rest)
    (hsender : SenderOf plan k sig) :
    HandlerFirst plan sig s ↔ s.installed sig = true ∨ s.doIt = false := by
  have hproper := proper_of_mem_tests hplan
  have hinv := inv_of_reachable hproper hreach
  have hstatus : s.status ≠ .terminated sig := by simp [hrunning]
  constructor
  · intro hfirst
    by_contra hnot
    obtain ⟨hinstalled, hdoIt⟩ := not_or.mp hnot
    obtain ⟨pace, hrole⟩ := hsender
    obtain ⟨t, hrun, hkill, ht, hsame⟩ :=
      exists_first_kill hinv hrunning hmain hrole (by simpa using hdoIt)
    refine (hfirst t (System.leads_of_runSchedule hrun)).1 ⟨?_, k, ⟨pace, hrole⟩, hkill, ?_⟩
    · rw [hsame]
      simpa using hinstalled
    · exact enabled_kill ⟨pace, hrole⟩ hkill ht
  · rintro (hinstalled | hdoIt)
    · exact Installed.handlerFirst ⟨hinstalled, hstatus⟩
    · have hunborn := hinv.unborn k (hmain ▸ List.mem_cons_self)
      exact Silent.handlerFirst hproper hsender
        ⟨hdoIt, (hinv.unsent k sig hsender hunborn).2, .inl hunborn, hstatus⟩

/-- The receiver of the stress test installs both handlers before `main` creates the first flooder.
-/
theorem handler_first_flooder1 : ∃ s, (program killStress).Reachable s ∧
    s.main.head? = some (.create 1) ∧ HandlerFirst killStress .abrt s := by
  obtain ⟨s, hreach, hrunning, hhead, hinstalled⟩ : ∃ s, (program killStress).Reachable s ∧
      s.status = .running ∧ s.main.head? = some (.create 1) ∧ s.installed .abrt = true :=
    System.exists_reachable [.main, .thread 0, .thread 0] rfl (by decide +kernel)
  obtain ⟨rest, hmain⟩ := List.head?_eq_some_iff.mp hhead
  exact ⟨s, hreach, hhead, (handler_first_iff (by simp [tests]) hreach hrunning hmain
    ⟨.flood, rfl⟩).mpr (.inl hinstalled)⟩

/-- A run in which the signal is sent before its handler is installed, and terminates the process.
-/
def Dies (plan : Plan) (sig : Sig) : Prop :=
  ∃ s t, (program plan).Reachable s ∧ SendsEarly plan sig s ∧ (program plan).Leads s t ∧
    t.status = .terminated sig

/-- Assumes: a schedule that ends just before the thread sends its signal, with no handler. -/
theorem dies_of_schedule (schedule : List Move) (hsender : SenderOf plan k sig)
    (h : ((program plan).runSchedule (start plan) schedule).any (fun s ↦ decide
      (s.installed sig = false ∧ s.point k = .kill ∧ s.status = .running ∧
        ((program plan).runSchedule s [.thread k, .deliver sig]).any
          (fun t ↦ t.status = .terminated sig) = true)) = true) : Dies plan sig := by
  obtain ⟨s, hreach, hinstalled, hkill, hrunning, hlast⟩ := System.exists_reachable schedule rfl h
  obtain ⟨t, hends, hdies⟩ := System.exists_of_replay hlast
  exact ⟨s, t, hreach, ⟨hinstalled, k, hsender, hkill, enabled_kill hsender hkill hrunning⟩,
    System.leads_of_runSchedule hends, hdies⟩

/-- Each of the five signals can be sent before its handler is installed, and then terminates the
process. -/
theorem early_signals : (∀ sig ∈ [Sig.abrt, .bus, .ill], Dies killStress sig) ∧
    ∀ sig ∈ [Sig.usr1, .usr2], Dies mutexLock31 sig := by
  simp only [List.forall_mem_cons, List.not_mem_nil, false_imp_iff, implies_true, and_true]
  refine ⟨⟨?_, ?_, ?_⟩, ?_, ?_⟩
  · exact dies_of_schedule (k := 1) [.main, .main, .thread 1] ⟨.flood, rfl⟩ (by decide +kernel)
  · exact dies_of_schedule (k := 2) [.main, .main, .main, .thread 2] ⟨.flood, rfl⟩
      (by decide +kernel)
  · exact dies_of_schedule (k := 4) (.replicate 5 .main ++ [.thread 4, .thread 4]) ⟨.flag, rfl⟩
      (by decide +kernel)
  · exact dies_of_schedule (k := 1) [.main, .main, .thread 1, .thread 1] ⟨.semaphore, rfl⟩
      (by decide +kernel)
  · exact dies_of_schedule (k := 2) [.main, .main, .main, .thread 2, .thread 2] ⟨.semaphore, rfl⟩
      (by decide +kernel)

end OpenPosix.Signals.Handlers

import OpenPosix.Signals.HarnessInvariant

/-!
# Senders that wait for ever

A sender is stuck when it waits for its semaphore and no continuation of the run has a thread in the
handler that posts it. In a reachable state this happens in one way only: the signal is pending, and
no thread that unblocks it is alive or can still be created (`stuck_iff`). In every other state both
senders can still end (`sendersCanEnd_iff`). No sender gets stuck exactly in the runs in which no
step takes away the last thread that serves the signals while a sender waits for a pending one
(`forall_leavesServed_iff`). All of it is for any lawful receivers.
-/

namespace OpenPosix.Signals

open Interleaving Function

variable {R : Receivers} {s s' : State R} {sig : UserSig} {id : R.Id}

def Blocked (s : State R) (sig : UserSig) : Prop := s.sender sig = .wait ∧ s.sem sig = 0

/-- In some continuation a thread runs the handler of the signal. -/
def HandlerCanRun (s : State R) (sig : UserSig) : Prop :=
  ∃ s', (program R).Leads s s' ∧ ∃ id, sig ∈ s'.handlers id

/-- The sender is blocked, and no thread can ever run the handler that posts its semaphore. -/
def Stuck (s : State R) (sig : UserSig) : Prop := Blocked s sig ∧ ¬ HandlerCanRun s sig

/-- In some continuation both senders have returned. -/
def SendersCanEnd (s : State R) : Prop :=
  ∃ s', (program R).Leads s s' ∧ ∀ sig, s'.sender sig = .exited

/-- The sender waits, its signal is pending, and there is no thread left to take it. -/
structure Lost (s : State R) (sig : UserSig) : Prop where
  wait : s.sender sig = .wait
  pending : s.pending sig = true
  unserved : s.served = false

instance (s : State R) (sig : UserSig) : Decidable (Lost s sig) :=
  decidable_of_iff (s.sender sig = .wait ∧ s.pending sig = true ∧ s.served = false)
    ⟨fun h ↦ ⟨h.1, h.2.1, h.2.2⟩, fun h ↦ ⟨h.wait, h.pending, h.unserved⟩⟩

/-! ### A lost signal stays lost -/

theorem Inv.doIt_of_unserved {L : Lawful R} (h : Inv L s) (hunserved : s.served = false) :
    s.doIt = false := by
  by_contra hne
  have hdoIt : s.doIt = true := by simpa using hne
  have hserved := L.served_of_doIt (hdoIt ▸ h.ok)
  rw [State.served, hdoIt, hserved] at hunserved
  exact absurd hunserved (by simp)

/-- Once `do_it` is cleared it stays so. -/
theorem MainStep.doIt (hstep : MainStep s s') (hdoIt : s.doIt = false) : s'.doIt = false := by
  cases hstep with
  | stop => rfl
  | create | createSig1 | createSig2 | join => exact hdoIt

/-- The steps of `main` from the one that clears `do_it` on create no thread. -/
theorem Inv.main_stopped {L : Lawful R} (h : Inv L s) (hstep : MainStep s s')
    (hdoIt : s'.doIt = false) :
    s'.world = s.world ∧ s'.sender = s.sender ∧ s'.pending = s.pending := by
  cases hstep with
  | create hmain | createSig1 hmain | createSig2 hmain =>
    have hrunning : s.doIt = true := by rw [h.running, hmain]; rfl
    exact absurd (hrunning.symm.trans hdoIt) (by simp)
  | stop | join => exact ⟨rfl, rfl, rfl⟩

theorem Inv.unserved_step {L : Lawful R} {thread : Thread R} (h : Inv L s)
    (hunserved : s.served = false) (hnext : next s thread = some s') : s'.served = false := by
  have hdoIt := h.doIt_of_unserved hunserved
  cases thread with
  | main =>
    have hstep := mainStep_of_main hnext
    have hdoIt' := hstep.doIt hdoIt
    obtain ⟨hworld, -⟩ := h.main_stopped hstep hdoIt'
    rw [State.served, hdoIt] at hunserved
    rw [State.served, hdoIt', hworld, hunserved]
  | sendsig sig => cases senderStep_of_sendsig hnext <;> exact hunserved
  | deliver id sig =>
    obtain ⟨-, -, -, rfl⟩ := deliver_eq_some_iff.mp hnext
    exact hunserved
  | sighdl id =>
    obtain ⟨sig, rest, -, rfl⟩ := sighdl_eq_some_iff.mp hnext
    exact hunserved
  | receiver act =>
    obtain ⟨-, world, hstep, rfl⟩ := receiver_eq_some_iff.mp hnext
    by_contra hserved
    rw [hdoIt] at hstep
    have hok := h.ok
    simp only [State.served, hdoIt, Bool.not_eq_false] at hok hserved hunserved
    rw [L.served_of_step hok hstep hserved] at hunserved
    exact absurd hunserved (by simp)

theorem Inv.place_pending {L : Lawful R} (h : Inv L s) (hpending : s.pending sig = true) :
    s.sem sig = 0 ∧ ∀ id, sig ∉ s.handlers id := by
  obtain ⟨place, hplace⟩ := h.token sig
  obtain rfl := hplace.pending.mp hpending
  exact ⟨by simpa using hplace.sem, fun id ↦
    List.count_eq_zero.mp (by simpa using hplace.handler id)⟩

/-- Every step keeps a lost signal lost: no thread takes it, and its sender has no step. -/
theorem Inv.lost_step {L : Lawful R} {thread : Thread R} (h : Inv L s) (hlost : Lost s sig)
    (hnext : next s thread = some s') : Lost s' sig := by
  have hserved := h.unserved_step hlost.unserved hnext
  cases thread with
  | main =>
    have hstep := mainStep_of_main hnext
    obtain ⟨-, hsender, hpending⟩ :=
      h.main_stopped hstep (hstep.doIt (h.doIt_of_unserved hlost.unserved))
    exact ⟨hsender ▸ hlost.wait, hpending ▸ hlost.pending, hserved⟩
  | sendsig other =>
    have hstep := senderStep_of_sendsig hnext
    by_cases hne : sig = other
    · subst hne
      have hsem := (h.place_pending hlost.pending).1
      have hwait := hlost.wait
      cases hstep with
      | wait hpoint hvalue => omega
      | mask hpoint | test hpoint | kill hpoint => simp [hpoint] at hwait
    · cases hstep with
      | mask | test | wait =>
        exact ⟨(goto_sender_of_ne _ hne).trans hlost.wait, hlost.pending, hserved⟩
      | kill =>
        exact ⟨(goto_sender_of_ne _ hne).trans hlost.wait,
          (update_of_ne hne ..).trans hlost.pending, hserved⟩
  | deliver id other =>
    obtain ⟨-, htakes, -, rfl⟩ := deliver_eq_some_iff.mp hnext
    have hunserved := hlost.unserved
    rw [State.served, L.served_of_takes h.ok htakes] at hunserved
    exact absurd hunserved (by simp)
  | sighdl id =>
    obtain ⟨other, rest, -, rfl⟩ := sighdl_eq_some_iff.mp hnext
    exact ⟨hlost.wait, hlost.pending, hserved⟩
  | receiver act =>
    obtain ⟨-, world, -, rfl⟩ := receiver_eq_some_iff.mp hnext
    exact ⟨hlost.wait, hlost.pending, hserved⟩

/-- Assumes: lawful receivers, and a reachable state. A lost signal is lost in every continuation.
-/
theorem lost_of_leads (L : Lawful R) (hreach : (program R).Reachable s) (hlost : Lost s sig)
    (hleads : (program R).Leads s s') : (program R).Reachable s' ∧ Lost s' sig :=
  hleads.invariant
    (fun _ _ _ hreach hlost hnext ↦ (inv_of_reachable L hreach).lost_step hlost hnext) hreach hlost

theorem stuck_of_lost (L : Lawful R) (hreach : (program R).Reachable s) (hlost : Lost s sig) :
    Stuck s sig := by
  refine ⟨⟨hlost.wait, ((inv_of_reachable L hreach).place_pending hlost.pending).1⟩, ?_⟩
  rintro ⟨s', hleads, id, hmem⟩
  obtain ⟨hreach', hlost'⟩ := lost_of_leads L hreach hlost hleads
  exact ((inv_of_reachable L hreach').place_pending hlost'.pending).2 id hmem

/-! ### A served signal is taken -/

theorem leads_step (thread : Thread R) (hnext : next s thread = some s') : (program R).Leads s s' :=
  System.leads_of_next (P := program R) hnext

/-- A thread runs the handlers it is in to their end. -/
@[simp] def State.drain (s : State R) (id : R.Id) : State R :=
  { s with
    sem := fun sig ↦ s.sem sig + (s.handlers id).count sig
    handlers := Function.update s.handlers id [] }

theorem leads_drain (s : State R) (id : R.Id) : (program R).Leads s (s.drain id) := by
  induction hstack : s.handlers id generalizing s with
  | nil =>
    have hsame : s.drain id = s := by
      have hhandlers : update s.handlers id [] = s.handlers := by
        rw [← hstack, update_eq_self]
      simp [hstack, hhandlers]
    rw [hsame]
    exact .refl s
  | cons sig rest ih =>
    let s' : State R := { s with
      sem := update s.sem sig (s.sem sig + 1)
      handlers := update s.handlers id rest }
    have hnext : next s (.sighdl id) = some s' := sighdl_eq_some_iff.mpr ⟨sig, rest, hstack, rfl⟩
    have hrest : s'.handlers id = rest := update_self ..
    have hsame : s'.drain id = s.drain id := by
      have hsem : (s'.drain id).sem = (s.drain id).sem := by
        funext other
        by_cases hne : other = sig
        · subst hne
          simp [hstack, s']
          omega
        · simp [hstack, s', hne, Ne.symm hne]
      have hhandlers : (s'.drain id).handlers = (s.drain id).handlers := by
        simp [s']
      exact congrArg₂ (fun sem handlers ↦ { s with sem := sem, handlers := handlers })
        hsem hhandlers
    rw [← hsame]
    exact (leads_step _ hnext).trans (ih s' hrest)

/-- What the handlers and the receivers leave alone. -/
structure Keeps (s s' : State R) : Prop where
  doIt : s'.doIt = s.doIt
  pending : s'.pending = s.pending
  sender : s'.sender = s.sender
  main : s'.main = s.main

/-- The receivers can take their steps: a thread that is in a handler first leaves it. -/
theorem leads_world {world : R.World}
    (hsteps : Relation.ReflTransGen (fun w w' ↦ ∃ act, R.step s.doIt w act = some w') s.world
      world) :
    ∃ s', (program R).Leads s s' ∧ Keeps s s' ∧ s'.world = world := by
  induction hsteps with
  | refl => exact ⟨s, .refl s, ⟨rfl, rfl, rfl, rfl⟩, rfl⟩
  | @tail _ world _ hstep ih =>
    obtain ⟨s₁, hleads, hkeeps, rfl⟩ := ih
    obtain ⟨act, hact⟩ := hstep
    let s₂ := s₁.drain (R.owner act)
    have hnext : next s₂ (.receiver act) = some { s₂ with world := world } := by
      refine receiver_eq_some_iff.mpr ⟨update_self .., world, ?_, rfl⟩
      exact hkeeps.doIt ▸ hact
    exact ⟨_, (hleads.trans (leads_drain s₁ _)).trans (leads_step _ hnext),
      ⟨hkeeps.doIt, hkeeps.pending, hkeeps.sender, hkeeps.main⟩, rfl⟩

/-- Assumes: a sender exists, and the signals are served. The receivers can get to a thread that
takes both signals. -/
theorem Inv.exists_taker {L : Lawful R} (h : Inv L s) (hborn : s.sender sig ≠ .unborn)
    (hserved : s.served = true) : ∃ s' id, (program R).Leads s s' ∧ Keeps s s' ∧
      ∀ sig, R.takes s'.world id sig = true := by
  have hcreated : ∀ id ∈ R.threads, ¬ L.unborn s.world id := by
    intro id hid hunborn
    have hleft := h.born id hid hunborn
    have hcreates : s.main.creates sig ≠ true := fun hcreates ↦ hborn ((h.unborn sig).mpr hcreates)
    cases hmain : s.main with
    | creating left => simp [hmain] at hcreates
    | _ => simp [hmain] at hleft
  obtain ⟨world, id, hsteps, htakes⟩ := L.reaches h.ok hcreated hserved
  obtain ⟨s', hleads, hkeeps, rfl⟩ := leads_world hsteps
  exact ⟨s', id, hleads, hkeeps, htakes⟩

/-- Assumes: a pending signal that is served, and its sender exists. A thread can take the signal.
-/
theorem exists_deliver (L : Lawful R) (hreach : (program R).Reachable s)
    (hborn : s.sender sig ≠ .unborn) (hpending : s.pending sig = true)
    (hserved : s.served = true) : ∃ s₁ s' id, (program R).Leads s s₁ ∧ Keeps s s₁ ∧
      deliver s₁ id sig = some s' := by
  obtain ⟨s₁, id, hleads, hkeeps, htakes⟩ :=
    (inv_of_reachable L hreach).exists_taker hborn hserved
  have hinv := inv_of_reachable L (hreach.leads hleads)
  have hpending' : s₁.pending sig = true := hkeeps.pending ▸ hpending
  exact ⟨s₁, _, id, hleads, hkeeps, deliver_eq_some_iff.mpr
    ⟨hpending', htakes sig, (hinv.place_pending hpending').2 id, rfl⟩⟩

/-- A blocked sender has its token in the pending signal or in a handler. -/
theorem Inv.place_blocked {L : Lawful R} (h : Inv L s) (hblocked : Blocked s sig) :
    s.pending sig = true ∨ ∃ id, (s.handlers id).count sig = 1 := by
  obtain ⟨place, hplace⟩ := h.token sig
  cases place with
  | sem =>
    have hsem := hplace.sem
    rw [if_pos rfl, hblocked.2] at hsem
    exact absurd hsem (by simp)
  | kill => exact absurd (hplace.kill.mpr rfl) (by simp [hblocked.1])
  | pending => exact .inl (hplace.pending.mpr rfl)
  | handler id => exact .inr ⟨id, by simpa using hplace.handler id⟩

/-- Assumes: lawful receivers, and a reachable state. A sender is stuck exactly when it waits for a
pending signal that no thread serves. -/
theorem stuck_iff (L : Lawful R) (hreach : (program R).Reachable s) : Stuck s sig ↔ Lost s sig := by
  refine ⟨fun hstuck ↦ ?_, stuck_of_lost L hreach⟩
  obtain ⟨hblocked, hnever⟩ := hstuck
  obtain hpending | ⟨id, hcount⟩ := (inv_of_reachable L hreach).place_blocked hblocked
  · refine ⟨hblocked.1, hpending, ?_⟩
    by_contra hserved
    obtain ⟨s₁, s', id, hleads, -, hnext⟩ := exists_deliver L hreach (by simp [hblocked.1])
      hpending (by simpa using hserved)
    obtain ⟨-, -, -, rfl⟩ := deliver_eq_some_iff.mp hnext
    exact hnever ⟨_, hleads.trans (leads_step (.deliver id sig) hnext), id, by simp⟩
  · exact absurd ⟨s, .refl s, id, List.count_pos_iff.mp (by omega)⟩ hnever

/-! ### Senders that are not stuck can end -/

/-- A continuation that is about the sender of one signal: it leaves `do_it`, `main` and the other
signal alone, and the signals stay served. -/
structure Spares (sig : UserSig) (s s' : State R) : Prop where
  leads : (program R).Leads s s'
  doIt : s'.doIt = s.doIt
  main : s'.main = s.main
  others : ∀ other, other ≠ sig →
    s'.sender other = s.sender other ∧ s'.pending other = s.pending other
  served : s.served = true → s'.served = true

theorem Spares.trans {s₁ s₂ s₃ : State R} (h : Spares sig s₁ s₂) (h' : Spares sig s₂ s₃) :
    Spares sig s₁ s₃ where
  leads := h.leads.trans h'.leads
  doIt := h'.doIt.trans h.doIt
  main := h'.main.trans h.main
  others := fun other hne ↦ ⟨(h'.others other hne).1.trans (h.others other hne).1,
    (h'.others other hne).2.trans (h.others other hne).2⟩
  served := fun hserved ↦ h'.served (h.served hserved)

theorem Spares.not_lost {other : UserSig} (h : Spares sig s s') (hne : other ≠ sig)
    (hlost : ¬ Lost s other) : ¬ Lost s' other := by
  intro hlost'
  obtain ⟨hsender, hpending⟩ := h.others other hne
  refine hlost ⟨hsender ▸ hlost'.wait, hpending ▸ hlost'.pending, ?_⟩
  by_contra hserved
  have hserved' := h.served (by simpa using hserved)
  exact absurd (hserved'.symm.trans hlost'.unserved) (by simp)

/-- The sender is neither waiting nor about to send. -/
def Parked (s : State R) (sig : UserSig) : Prop := s.sender sig ≠ .wait ∧ s.sender sig ≠ .kill

/-- A sender that has its token sends the signal, and is back at the test of `do_it`. -/
theorem exists_parked_of_kill (hkill : s.sender sig = .kill) :
    ∃ s', Spares sig s s' ∧ Parked s' sig := by
  let s' := ({ s with pending := update s.pending sig true } : State R).goto sig .loop
  have hnext : next s (.sendsig sig) = some s' := by simp [next, sendsig, hkill, s']
  refine ⟨s', ⟨leads_step _ hnext, rfl, rfl, fun other hne ↦ ?_, id⟩, by simp [Parked, s']⟩
  exact ⟨goto_sender_of_ne _ hne, update_of_ne hne ..⟩

theorem exists_parked_of_sem (hwait : s.sender sig = .wait) (hsem : 0 < s.sem sig) :
    ∃ s', Spares sig s s' ∧ Parked s' sig := by
  obtain ⟨value, hvalue⟩ := Nat.exists_eq_add_of_lt hsem
  let s₁ := ({ s with sem := update s.sem sig value } : State R).goto sig .kill
  have hnext : next s (.sendsig sig) = some s₁ := by
    have htake : semWait (s.sem sig) = some value := semWait_eq_some_iff.mpr (by omega)
    simp [next, sendsig, hwait, htake, s₁]
  have hspares : Spares sig s s₁ :=
    ⟨leads_step _ hnext, rfl, rfl, fun other hne ↦ ⟨goto_sender_of_ne _ hne, rfl⟩, id⟩
  obtain ⟨s', hspares', hparked⟩ := exists_parked_of_kill (s := s₁) (goto_sender_self _)
  exact ⟨s', hspares.trans hspares', hparked⟩

/-- Assumes: a sender that waits for its pending signal, which is served. A handler can post the
semaphore. -/
theorem exists_posted (L : Lawful R) (hreach : (program R).Reachable s)
    (hwait : s.sender sig = .wait) (hpending : s.pending sig = true) (hserved : s.served = true) :
    ∃ s', Spares sig s s' ∧ s'.sender sig = .wait ∧ 0 < s'.sem sig := by
  obtain ⟨s₁, s₂, id, hleads, hkeeps, hnext⟩ :=
    exists_deliver L hreach (by simp [hwait]) hpending hserved
  obtain ⟨-, htakes, -, rfl⟩ := deliver_eq_some_iff.mp hnext
  have hok := (inv_of_reachable L (hreach.leads hleads)).ok
  refine ⟨_, ⟨(hleads.trans (leads_step (.deliver id sig) hnext)).trans (leads_drain _ id),
    hkeeps.doIt, hkeeps.main, fun other hne ↦ ⟨by rw [← hkeeps.sender]; rfl, ?_⟩,
    fun _ ↦ L.served_of_takes hok htakes⟩, ?_, ?_⟩
  · rw [← hkeeps.pending]
    exact update_of_ne hne ..
  · rw [← hwait, ← hkeeps.sender]
    rfl
  · simp only [State.drain, update_self, List.count_cons_self]
    omega

/-- Assumes: lawful receivers, and a reachable state in which the signal is not lost. The sender can
get to the test of `do_it` or stays where it is. -/
theorem exists_parked (L : Lawful R) (hreach : (program R).Reachable s) (hlost : ¬ Lost s sig) :
    ∃ s', Spares sig s s' ∧ Parked s' sig := by
  by_cases hkill : s.sender sig = .kill
  · exact exists_parked_of_kill hkill
  by_cases hwait : s.sender sig = .wait
  · obtain hsem | hsem := Nat.eq_zero_or_pos (s.sem sig)
    · obtain hpending | ⟨id, hcount⟩ := (inv_of_reachable L hreach).place_blocked ⟨hwait, hsem⟩
      · have hserved : s.served = true := by
          by_contra hserved
          exact hlost ⟨hwait, hpending, by simpa using hserved⟩
        obtain ⟨s₁, hspares, hwait₁, hsem₁⟩ := exists_posted L hreach hwait hpending hserved
        obtain ⟨s', hspares', hparked⟩ := exists_parked_of_sem hwait₁ hsem₁
        exact ⟨s', hspares.trans hspares', hparked⟩
      · have hdrain : Spares sig s (s.drain id) :=
          ⟨leads_drain s id, rfl, rfl, fun _ _ ↦ ⟨rfl, rfl⟩, fun hserved ↦ hserved⟩
        obtain ⟨s', hspares, hparked⟩ := exists_parked_of_sem (s := s.drain id) hwait
          (by simp [hcount])
        exact ⟨s', hdrain.trans hspares, hparked⟩
    · exact exists_parked_of_sem hwait hsem
  · exact ⟨s, ⟨.refl s, rfl, rfl, fun _ _ ↦ ⟨rfl, rfl⟩, id⟩, hwait, hkill⟩

theorem parked_goto_mask {other : UserSig} (hparked : Parked s other) :
    Parked (s.goto sig .mask) other := by
  by_cases hne : other = sig
  · simp [Parked, hne]
  · simpa [Parked, goto_sender_of_ne _ hne] using hparked

/-- A continuation in which `main` clears `do_it`, with both senders parked. -/
def CanStop (s : State R) : Prop :=
  ∃ s', (program R).Leads s s' ∧ s'.doIt = false ∧ ∀ sig, Parked s' sig

theorem CanStop.of_next (s' : State R) (hnext : next s .main = some s') (h : CanStop s') :
    CanStop s := by
  obtain ⟨s₁, hleads, hstopped⟩ := h
  exact ⟨s₁, (leads_step .main hnext).trans hleads, hstopped⟩

theorem canStop_of_stop (hmain : s.main = .stop) (hparked : ∀ sig, Parked s sig) : CanStop s :=
  .of_next { s with doIt := false, main := .joinSig1 }
    (by simp [next, main, hmain]) ⟨_, .refl _, rfl, hparked⟩

theorem canStop_of_createSig2 (hmain : s.main = .createSig2) (hparked : ∀ sig, Parked s sig) :
    CanStop s :=
  .of_next { s.goto .usr2 .mask with main := .stop } (by simp [next, main, hmain])
    (canStop_of_stop rfl fun sig ↦ parked_goto_mask (hparked sig))

theorem canStop_of_creating {left : List R.Id} (hmain : s.main = .creating left)
    (hparked : ∀ sig, Parked s sig) : CanStop s := by
  induction left generalizing s with
  | nil =>
    exact .of_next { s.goto .usr1 .mask with main := .createSig2 } (by simp [next, main, hmain])
      (canStop_of_createSig2 rfl fun sig ↦ parked_goto_mask (hparked sig))
  | cons id left ih =>
    exact .of_next { s with world := R.create s.world id, main := .creating left }
      (by simp [next, main, hmain]) (ih rfl hparked)

theorem Inv.canStop {L : Lawful R} (h : Inv L s) (hparked : ∀ sig, Parked s sig) : CanStop s := by
  cases hmain : s.main with
  | creating left => exact canStop_of_creating hmain hparked
  | createSig2 => exact canStop_of_createSig2 hmain hparked
  | stop => exact canStop_of_stop hmain hparked
  | _ => exact ⟨s, .refl s, by rw [h.running, hmain]; rfl, hparked⟩

/-- A parked sender returns once `do_it` is cleared. -/
theorem exists_exited (hdoIt : s.doIt = false) (hparked : Parked s sig)
    (hborn : s.sender sig ≠ .unborn) : ∃ s', (program R).Leads s s' ∧ s'.doIt = false ∧
      s'.sender sig = .exited ∧ ∀ other, other ≠ sig → s'.sender other = s.sender other := by
  have hlast : ∀ {s : State R}, s.doIt = false → s.sender sig = .loop →
      next s (.sendsig sig) = some (s.goto sig .exited) := fun hdoIt hloop ↦ by
    simp [next, sendsig, hloop, hdoIt]
  cases hpoint : s.sender sig with
  | unborn => exact absurd hpoint hborn
  | mask =>
    have hfirst : next s (.sendsig sig) = some (s.goto sig .loop) := by
      simp [next, sendsig, hpoint]
    have hnext := hlast (s := s.goto sig .loop) hdoIt (goto_sender_self _)
    refine ⟨_, (leads_step _ hfirst).trans (leads_step _ hnext), hdoIt, goto_sender_self _,
      fun other hne ↦ ?_⟩
    rw [goto_sender_of_ne _ hne, goto_sender_of_ne _ hne]
  | loop =>
    exact ⟨_, leads_step _ (hlast hdoIt hpoint), hdoIt, goto_sender_self _,
      fun other hne ↦ goto_sender_of_ne _ hne⟩
  | wait => exact absurd hpoint hparked.1
  | kill => exact absurd hpoint hparked.2
  | exited => exact ⟨s, .refl s, hdoIt, hpoint, fun _ _ ↦ rfl⟩

/-- Assumes: lawful receivers, and a reachable state in which no signal is lost. Both senders can
end. -/
theorem sendersCanEnd_of_not_lost (L : Lawful R) (hreach : (program R).Reachable s)
    (hlost : ∀ sig, ¬ Lost s sig) : SendersCanEnd s := by
  -- Both senders get to where they do not wait, one after the other, and `main` clears `do_it`.
  obtain ⟨s₁, hspares₁, hparked₁⟩ := exists_parked L hreach (hlost .usr1)
  obtain ⟨s₂, hspares₂, hparked₂⟩ := exists_parked L (hreach.leads hspares₁.leads)
    (hspares₁.not_lost (by simp) (hlost .usr2))
  have hreach₂ := (hreach.leads hspares₁.leads).leads hspares₂.leads
  have hparked : ∀ sig, Parked s₂ sig := fun sig ↦ by
    cases sig with
    | usr1 => rwa [Parked, (hspares₂.others .usr1 (by simp)).1]
    | usr2 => exact hparked₂
  obtain ⟨s₃, hleads₃, hdoIt₃, hparked₃⟩ := (inv_of_reachable L hreach₂).canStop hparked
  have hinv₃ := inv_of_reachable L (hreach₂.leads hleads₃)
  have hborn : ∀ sig, s₃.sender sig ≠ .unborn := fun sig hunborn ↦ by
    have hcreates := (hinv₃.unborn sig).mp hunborn
    have hrunning := hinv₃.running
    rw [hdoIt₃] at hrunning
    cases hmain : s₃.main <;> cases sig <;>
      simp [hmain, MainPoint.running] at hcreates hrunning
  obtain ⟨s₄, hleads₄, hdoIt₄, hexited₄, hothers₄⟩ :=
    exists_exited hdoIt₃ (hparked₃ .usr1) (hborn .usr1)
  have hsame := hothers₄ .usr2 (by simp)
  obtain ⟨s₅, hleads₅, -, hexited₅, hothers₅⟩ := exists_exited hdoIt₄
    (show Parked s₄ .usr2 by rw [Parked, hsame]; exact hparked₃ .usr2)
    (by rw [hsame]; exact hborn .usr2)
  refine ⟨s₅, (((hspares₁.leads.trans hspares₂.leads).trans hleads₃).trans hleads₄).trans hleads₅,
    fun sig ↦ ?_⟩
  cases sig with
  | usr1 => rw [hothers₅ .usr1 (by simp), hexited₄]
  | usr2 => exact hexited₅

/-- Assumes: lawful receivers, and a reachable state. Both senders can end exactly when none is
stuck. -/
theorem sendersCanEnd_iff (L : Lawful R) (hreach : (program R).Reachable s) :
    SendersCanEnd s ↔ ∀ sig, ¬ Stuck s sig := by
  simp only [stuck_iff L hreach]
  refine ⟨?_, sendersCanEnd_of_not_lost L hreach⟩
  rintro ⟨s', hleads, hexited⟩ sig hlost
  have hwait := (lost_of_leads L hreach hlost hleads).2.wait
  simp [hexited] at hwait

/-! ### Runs without a stuck sender -/

/-- A step does not take away the last thread that serves the signals while a sender waits for one
that is pending. -/
def LeavesServed (s : State R) (thread : Thread R) : Prop :=
  ∀ s', next s thread = some s' → s.served = true → s'.served = false →
    ∀ sig, ¬ (s.sender sig = .wait ∧ s.pending sig = true)

/-- The condition on a step, computed. -/
def leavesServed (s : State R) (thread : Thread R) : Bool :=
  match next s thread with
  | none => true
  | some s' => !s.served || s'.served ||
      [UserSig.usr1, .usr2].all fun sig ↦ !(s.sender sig = .wait && s.pending sig)

theorem leavesServed_eq_true_iff {thread : Thread R} :
    leavesServed s thread = true ↔ LeavesServed s thread := by
  unfold leavesServed LeavesServed
  cases next s thread with
  | none => simp
  | some s' =>
    have hsig : ∀ {p : UserSig → Prop}, (∀ sig, p sig) ↔ p .usr1 ∧ p .usr2 :=
      ⟨fun h ↦ ⟨h _, h _⟩, fun h sig ↦ by cases sig; exacts [h.1, h.2]⟩
    cases s.served <;> cases hserved : s'.served <;> simp [hserved, hsig]
    exact and_congr imp_iff_not_or.symm imp_iff_not_or.symm

instance (s : State R) (thread : Thread R) : Decidable (LeavesServed s thread) :=
  decidable_of_iff _ leavesServed_eq_true_iff

/-- A step after which a sender waits for a pending signal found it so, if `do_it` is cleared. -/
theorem Inv.waits_of_next {L : Lawful R} {thread : Thread R} (h : Inv L s)
    (hnext : next s thread = some s') (hdoIt : s'.doIt = false) (hwait : s'.sender sig = .wait)
    (hpending : s'.pending sig = true) : s.sender sig = .wait ∧ s.pending sig = true := by
  cases thread with
  | main =>
    obtain ⟨-, hsender, hsame⟩ := h.main_stopped (mainStep_of_main hnext) hdoIt
    exact ⟨hsender ▸ hwait, hsame ▸ hpending⟩
  | sendsig other =>
    have hstep := senderStep_of_sendsig hnext
    by_cases hne : sig = other
    · subst hne
      cases hstep with
      | test => simp [show s.doIt = false from hdoIt] at hwait
      | mask | wait | kill => simp at hwait
    · cases hstep with
      | mask | test | wait =>
        exact ⟨(goto_sender_of_ne _ hne).symm.trans hwait, hpending⟩
      | kill =>
        exact ⟨(goto_sender_of_ne _ hne).symm.trans hwait,
          (update_of_ne hne ..).symm.trans hpending⟩
  | deliver id other =>
    obtain ⟨hother, -, -, rfl⟩ := deliver_eq_some_iff.mp hnext
    refine ⟨hwait, ?_⟩
    by_cases hne : sig = other
    · exact hne ▸ hother
    · exact (update_of_ne hne ..).symm.trans hpending
  | sighdl id =>
    obtain ⟨other, rest, -, rfl⟩ := sighdl_eq_some_iff.mp hnext
    exact ⟨hwait, hpending⟩
  | receiver act =>
    obtain ⟨-, world, -, rfl⟩ := receiver_eq_some_iff.mp hnext
    exact ⟨hwait, hpending⟩

/-- A step that takes away the last thread that serves the signals is one of the receivers, or it
clears `do_it`: the senders and the pending signals are as before. -/
theorem Inv.same_of_unserved {L : Lawful R} {thread : Thread R} (h : Inv L s) (h' : Inv L s')
    (hnext : next s thread = some s') (hserved : s.served = true) (hunserved : s'.served = false) :
    s'.sender = s.sender ∧ s'.pending = s.pending := by
  have hcontra : s'.served = s.served → False := fun hsame ↦ by simp [hsame, hserved] at hunserved
  cases thread with
  | main => exact (h.main_stopped (mainStep_of_main hnext) (h'.doIt_of_unserved hunserved)).2
  | sendsig sig => cases senderStep_of_sendsig hnext <;> exact (hcontra rfl).elim
  | deliver id sig =>
    obtain ⟨-, -, -, rfl⟩ := deliver_eq_some_iff.mp hnext
    exact (hcontra rfl).elim
  | sighdl id =>
    obtain ⟨sig, rest, -, rfl⟩ := sighdl_eq_some_iff.mp hnext
    exact (hcontra rfl).elim
  | receiver act =>
    obtain ⟨-, world, -, rfl⟩ := receiver_eq_some_iff.mp hnext
    exact ⟨rfl, rfl⟩

/-- Assumes: a step of a run, taken while no signal was lost. The step loses a signal exactly when
it takes away the last thread that serves the signals while a sender waits for a pending one. -/
theorem leavesServed_iff (L : Lawful R) {thread : Thread R} (hreach : (program R).Reachable s)
    (hnext : next s thread = some s') (hbefore : ∀ sig, ¬ Lost s sig) :
    LeavesServed s thread ↔ ∀ sig, ¬ Lost s' sig := by
  have hinv := inv_of_reachable L hreach
  have hinv' := inv_of_reachable L (hreach.step hnext)
  constructor
  · intro hmeets sig hlost
    obtain ⟨hwait, hpending⟩ := hinv.waits_of_next hnext (hinv'.doIt_of_unserved hlost.unserved)
      hlost.wait hlost.pending
    by_cases hserved : s.served = true
    · exact hmeets s' hnext hserved hlost.unserved sig ⟨hwait, hpending⟩
    · exact hbefore sig ⟨hwait, hpending, by simpa using hserved⟩
  · rintro hafter s₁ hnext₁ hserved hunserved sig ⟨hwait, hpending⟩
    obtain rfl : s' = s₁ := Option.some.inj (hnext.symm.trans hnext₁)
    obtain ⟨hsender, hsame⟩ := hinv.same_of_unserved hinv' hnext hserved hunserved
    exact hafter sig ⟨hsender ▸ hwait, hsame ▸ hpending, hunserved⟩

/-- Assumes: lawful receivers, and a run. Its steps leave the signals served while they are needed
exactly when no signal is lost in any of its states. -/
theorem forall_leavesServed_iff (L : Lawful R) {trace : List (State R × Thread R)}
    (hrun : (program R).Exec trace s) : (∀ step ∈ trace, LeavesServed step.1 step.2) ↔
      ∀ state, System.Visits trace s state → ∀ sig, ¬ Lost state sig := by
  induction hrun with
  | start hinitial =>
    refine iff_of_true (by simp) fun state hvisits sig hlost ↦ ?_
    obtain rfl : state = _ := by simpa [System.Visits] using hvisits
    rw [show state = start R from hinitial] at hlost
    exact absurd hlost.wait (by simp [start])
  | @step trace s s' thread hrun hnext ih =>
    have hstep := leavesServed_iff L ⟨trace, hrun⟩ hnext
    constructor
    · intro hall
      have hbefore := ih.mp fun step hmem ↦ hall step (by simp [hmem])
      rintro state (rfl | ⟨other, hmem⟩)
      · exact (hstep (hbefore s (.inl rfl))).mp (hall (s, thread) (by simp))
      · obtain hmem | hmem := List.mem_append.mp hmem
        · exact hbefore state (.inr ⟨other, hmem⟩)
        · obtain ⟨rfl, -⟩ : state = s ∧ other = thread := by simpa using hmem
          exact hbefore state (.inl rfl)
    · intro hall
      have hlast : ∀ sig, ¬ Lost s sig := hall s (.inr ⟨thread, by simp⟩)
      have hbefore := ih.mpr fun state hvisits ↦ by
        obtain rfl | ⟨other, hmem⟩ := hvisits
        · exact hlast
        · exact hall state (.inr ⟨other, by simp [hmem]⟩)
      intro step hmem
      obtain hmem | hmem := List.mem_append.mp hmem
      · exact hbefore step hmem
      · obtain rfl : step = (s, thread) := by simpa using hmem
        exact (hstep hlast).mpr (hall s' (.inl rfl))

end OpenPosix.Signals

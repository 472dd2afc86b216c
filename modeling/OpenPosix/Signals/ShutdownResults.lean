import OpenPosix.Interleaving.ThreadPool
import OpenPosix.Signals.ShutdownModel

/-!
# The senders and the worker come to an end

For each signal one unit goes round: from its semaphore to its sender, then to the pending signal,
to the handler and back to the semaphore. `Inv` says so, together with how far `main` has come. A
sender that waits in vain therefore has its unit in a pending signal, which can be delivered because
the worker returns only after `main` has joined both senders, or in a handler, which is on the stack
of the worker and can go on.

`shutdown` is the result. It needs the handlers to be installed when a signal is sent: a signal that
finds no handler ends the process. Once `do_it` is 0, every step leaves less to do
(`State.weight`): no sender sends more than one further signal.
-/

namespace OpenPosix.Signals.Shutdown

open Interleaving Function

variable {s s' : State} {move : Move} {sig other : Sig} {rest : List Sig} {eintr : Bool}
  {trace : List (State × Move)}

attribute [simp] State.tokens SenderPoint.carries

/-! ### Where `main` is -/

/-- `main` has still to start the sender. -/
def MainPoint.creates : MainPoint → Sig → Bool
  | .createWork, _ | .createSig .usr1, _ | .createSig .usr2, .usr2 => true
  | _, _ => false

def MainPoint.stopped : MainPoint → Bool
  | .joinSig _ | .post | .joinWork => true
  | _ => false

def MainPoint.joined : MainPoint → Sig → Bool
  | .joinSig .usr2, .usr1 | .post, _ | .joinWork, _ => true
  | _, _ => false

def MainPoint.posted : MainPoint → Bool
  | .joinWork => true
  | _ => false

def WorkerPoint.ended : WorkerPoint → Bool
  | .returned => true
  | _ => false

@[simp] def WorkerPoint.Alive (point : WorkerPoint) : Prop := point ≠ .unborn ∧ point ≠ .returned

theorem WorkerPoint.ended_eq_true_iff {point : WorkerPoint} :
    point.ended = true ↔ point = .returned := by
  cases point <;> simp [WorkerPoint.ended]

/-! ### The invariant -/

structure Inv (s : State) : Prop where
  token : ∀ sig, s.tokens sig = 1
  entered : ∀ sig, s.handler sig ≠ .idle ↔ sig ∈ s.stack
  nodup : s.stack.Nodup
  worker_unborn : s.worker = .unborn ↔ s.main = .createWork
  sender_unborn : ∀ sig, s.sender sig = .unborn ↔ s.main.creates sig = true
  stopped : s.doIt = !s.main.stopped
  joined : ∀ sig, s.main.joined sig = true → s.sender sig = .returned
  sync : s.semsync + s.worker.ended.toNat = s.main.posted.toNat
  idle : s.worker = .returned → s.stack = []
  passed : s.status = .passed → s.worker = .returned

theorem inv_start : Inv start where
  token _ := rfl
  entered _ := iff_of_false (not_not_intro rfl) List.not_mem_nil
  nodup := List.nodup_nil
  worker_unborn := iff_of_true rfl rfl
  sender_unborn _ := iff_of_true rfl rfl
  stopped := rfl
  joined _ hjoined := absurd hjoined Bool.false_ne_true
  sync := rfl
  idle _ := rfl
  passed hpassed := absurd hpassed (by decide)

/-- Whoever has returned was joined, or can be. -/
theorem Inv.posted_of_returned (h : Inv s) (hreturned : s.worker = .returned) :
    s.main.posted = true := by
  have hsync := h.sync
  rw [hreturned] at hsync
  cases hposted : s.main.posted with
  | true => rfl
  | false =>
    rw [hposted] at hsync
    exact absurd hsync (Nat.succ_ne_zero s.semsync)

theorem MainPoint.joined_of_posted {point : MainPoint} (h : point.posted = true) :
    point.joined sig = true := by
  cases point with
  | joinWork => rfl
  | _ => exact absurd h Bool.false_ne_true

theorem MainPoint.creates_of_stopped {point : MainPoint} (h : point.stopped = true) :
    point.creates sig = false := by
  cases point with
  | joinSig | post | joinWork => rfl
  | _ => exact absurd h Bool.false_ne_true

theorem Inv.stopped_of_doIt (h : Inv s) (hdoIt : s.doIt = false) : s.main.stopped = true := by
  have hstopped := h.stopped
  rwa [hdoIt, eq_comm, Bool.not_eq_false_eq_eq_true] at hstopped

/-- The worker outlives the senders. -/
theorem Inv.alive (h : Inv s) (hborn : s.sender sig ≠ .unborn) (hrun : s.sender sig ≠ .returned) :
    s.worker.Alive := by
  refine ⟨fun hunborn ↦ hborn ?_, fun hreturned ↦ hrun ?_⟩
  · rw [h.sender_unborn, h.worker_unborn.mp hunborn]
    rfl
  · exact h.joined sig (MainPoint.joined_of_posted (h.posted_of_returned hreturned))

/-- A step of a sender that neither takes nor gives the unit. -/
theorem carries_update {new : SenderPoint} {sender : Sig → SenderPoint}
    (h : new.carries = (sender sig).carries) (other : Sig) :
    (update sender sig new other).carries = (sender other).carries := by
  by_cases heq : other = sig
  · rw [heq, update_self, h]
  · rw [update_of_ne heq]

theorem Inv.main (h : Inv s) (hrun : s.status = .running) (hnext : main s = some s') : Inv s' := by
  have hpassed : s.status ≠ .passed := by
    rw [hrun]
    decide
  obtain ⟨htoken, hentered, hnodup, hworker, hsender, hstopped, hjoined, hsync, hidle, -⟩ := h
  unfold Shutdown.main at hnext
  split at hnext
  case h_1 hmain =>
    cases hnext
    rw [hmain] at hsender hstopped hsync
    exact ⟨htoken, hentered, hnodup, by simp, hsender, hstopped,
      fun _ h ↦ absurd h Bool.false_ne_true, Nat.eq_zero_of_add_eq_zero_right hsync, by simp,
      fun h ↦ absurd h hpassed⟩
  case h_2 sig hmain =>
    cases hnext
    rw [hmain] at hworker hsender hstopped hjoined hsync
    have hunborn : s.sender sig = .unborn := (hsender sig).mpr (by cases sig <;> rfl)
    refine ⟨fun other ↦ ?_, hentered, hnodup, ?_, fun other ↦ ?_, ?_, fun other h ↦ ?_, ?_, hidle,
      fun h ↦ absurd h hpassed⟩
    · rw [← htoken other]
      unfold State.tokens
      rw [carries_update (by rw [hunborn]; rfl)]
    · cases sig <;> simpa using hworker
    · cases sig <;> cases other <;> simp_all [MainPoint.creates]
    · cases sig <;> exact hstopped
    · cases sig <;> cases other <;> simp [MainPoint.joined] at h
    · cases sig <;> exact hsync
  case h_3 hmain =>
    cases hnext
    rw [hmain] at hworker hsender hstopped hsync
    exact ⟨htoken, hentered, hnodup, by simpa using hworker, hsender, hstopped,
      fun _ h ↦ absurd h Bool.false_ne_true, hsync, hidle, fun h ↦ absurd h hpassed⟩
  case h_4 hmain =>
    cases hnext
    rw [hmain] at hworker hsender hsync
    exact ⟨htoken, hentered, hnodup, by simpa using hworker, hsender, rfl,
      fun _ h ↦ absurd h Bool.false_ne_true, hsync, hidle, fun h ↦ absurd h hpassed⟩
  case h_5 sig hmain =>
    split_ifs at hnext with hreturned
    cases hnext
    rw [hmain] at hworker hsender hstopped hjoined hsync
    refine ⟨htoken, hentered, hnodup, ?_, fun other ↦ ?_, ?_, fun other _ ↦ ?_, ?_, hidle,
      fun h ↦ absurd h hpassed⟩
    · cases sig <;> simpa using hworker
    · cases sig <;> exact hsender other
    · cases sig <;> exact hstopped
    · cases sig <;> cases other
      case usr1.usr1 | usr2.usr2 => exact hreturned
      case usr2.usr1 => exact hjoined .usr1 rfl
      case usr1.usr2 h => exact absurd h Bool.false_ne_true
    · cases sig <;> exact hsync
  case h_6 hmain =>
    cases hnext
    rw [hmain] at hworker hsender hstopped hjoined hsync
    obtain ⟨hzero, hended⟩ := Nat.add_eq_zero_iff.mp hsync
    refine ⟨htoken, hentered, hnodup, by simpa using hworker, hsender, hstopped, hjoined, ?_, hidle,
      fun h ↦ absurd h hpassed⟩
    rw [hzero, hended]
    rfl
  case h_7 hmain =>
    split_ifs at hnext with hreturned
    cases hnext
    exact ⟨htoken, hentered, hnodup, hworker, hsender, hstopped, hjoined, hsync, hidle,
      fun _ ↦ hreturned⟩

/-- The worker goes on, without waiting for `semsync`. -/
theorem Inv.work {point : WorkerPoint} (h : Inv s) (hrun : s.status = .running)
    (hold : s.worker.Alive) (hnew : point.Alive) (installed : Sig → Bool) :
    Inv { s with worker := point, installed := installed } := by
  have hended : s.worker.ended = false := by
    rw [Bool.eq_false_iff, Ne, WorkerPoint.ended_eq_true_iff]
    exact hold.2
  have hended' : point.ended = false := by
    rw [Bool.eq_false_iff, Ne, WorkerPoint.ended_eq_true_iff]
    exact hnew.2
  have hsync := h.sync
  rw [hended] at hsync
  refine { h with
    worker_unborn := iff_of_false hnew.1 fun hmain ↦ hold.1 (h.worker_unborn.mpr hmain)
    sync := ?_
    idle := fun hreturned ↦ absurd hreturned hnew.2
    passed := fun hpassed ↦ absurd (hrun.symm.trans hpassed) (by decide) }
  rw [hended']
  exact hsync

theorem alive_loop {size : ℕ} {point : ℕ → WorkerPoint} {after : WorkerPoint} (i : ℕ)
    (hpoint : ∀ j, (point j).Alive) (hafter : after.Alive) : (loop size point after i).Alive := by
  unfold loop
  split
  · exact hpoint _
  · exact hafter

theorem Inv.threaded (h : Inv s) (hrun : s.status = .running) (hstack : s.stack = [])
    (hnext : threaded s = some s') : Inv s' := by
  unfold Shutdown.threaded at hnext
  split at hnext
  case h_1 | h_16 => cases hnext
  case h_2 sig hworker =>
    cases hnext
    refine h.work hrun (by rw [hworker]; simp) ?_ _
    cases sig <;> simp
  case h_6 hworker =>
    cases hnext
    refine h.work hrun (by rw [hworker]; simp) ?_ _
    cases s.doIt <;> simp
  case h_3 | h_4 | h_5 | h_8 | h_12 | h_13 =>
    rename_i i hworker
    cases hnext
    refine h.work hrun (by rw [hworker]; simp) (alive_loop i ?_ ?_) _
    · simp
    · simp
  case h_7 | h_9 | h_10 | h_11 | h_15 =>
    rename_i hworker
    cases hnext
    refine h.work hrun (by rw [hworker]; simp) ?_ _
    simp
  case h_14 hworker =>
    obtain ⟨value, hwait, rfl⟩ := Option.map_eq_some_iff.mp hnext
    have hvalue := semWait_eq_some_iff.mp hwait
    have hsync := h.sync
    rw [hworker, hvalue] at hsync
    refine { h with
      worker_unborn := iff_of_false (by simp) fun hmain ↦ ?_
      sync := hsync
      idle := fun _ ↦ hstack
      passed := fun _ ↦ rfl }
    have hunborn := h.worker_unborn.mpr hmain
    rw [hworker] at hunborn
    cases hunborn

theorem Inv.sighdl (h : Inv s) (hstack : s.stack = sig :: rest)
    (hnext : sighdl s sig rest = some s') : Inv s' := by
  have hnodup := h.nodup
  rw [hstack] at hnodup
  unfold Shutdown.sighdl at hnext
  split at hnext
  case h_1 => cases hnext
  case h_2 hhandler =>
    cases hnext
    refine { h with token := fun other ↦ ?_, entered := fun other ↦ ?_ }
    · rw [← h.token other]
      by_cases heq : other = sig
      · simp only [State.tokens, heq, hhandler, HandlerPoint.unposted, update_self,
          semPost_eq, Bool.toNat_true, Bool.toNat_false]
        omega
      · simp [heq]
    · rw [← h.entered other]
      by_cases heq : other = sig
      · simp [heq, hhandler]
      · simp [heq]
  case h_3 hhandler =>
    cases hnext
    refine { h with
      token := fun other ↦ ?_
      entered := fun other ↦ ?_
      nodup := hnodup.of_cons
      idle := fun hreturned ↦ ?_ }
    · rw [← h.token other]
      by_cases heq : other = sig
      · simp [heq, hhandler, HandlerPoint.unposted]
      · simp [heq]
    · by_cases heq : other = sig
      · rw [heq]
        simpa using (List.nodup_cons.mp hnodup).1
      · simpa [heq, hstack] using h.entered other
    · rw [h.idle hreturned] at hstack
      cases hstack

/-- A sender that has started and has not returned goes on. Assumes: its unit is still there. -/
theorem Inv.send {new : SenderPoint} {sem : Sig → ℕ} {pending : Sig → Bool} (h : Inv s)
    (hborn : s.sender sig ≠ .unborn) (hrun : s.sender sig ≠ .returned) (hnew : new ≠ .unborn)
    (htoken : State.tokens { s with
      sender := update s.sender sig new, sem := sem, pending := pending } sig = s.tokens sig)
    (hothers : ∀ other, other ≠ sig → sem other = s.sem other ∧ pending other = s.pending other) :
    Inv { s with sender := update s.sender sig new, sem := sem, pending := pending } := by
  refine { h with
    token := fun other ↦ ?_
    sender_unborn := fun other ↦ ?_
    joined := fun other hjoined ↦ ?_ }
  · rw [← h.token other]
    by_cases heq : other = sig
    · exact heq ▸ htoken
    · simp [heq, hothers other heq]
  · rw [← h.sender_unborn other]
    by_cases heq : other = sig
    · simp [heq, hborn, hnew]
    · simp [heq]
  · by_cases heq : other = sig
    · exact absurd (h.joined sig (heq ▸ hjoined)) hrun
    · simpa [heq] using h.joined other hjoined

theorem Inv.sendsig (h : Inv s) (hnext : sendsig s sig = some s') : Inv s' := by
  have htoken := h.token sig
  unfold Shutdown.sendsig at hnext
  split at hnext
  case h_1 | h_6 => cases hnext
  case h_2 hsender =>
    cases hnext
    refine h.send (by simp [hsender]) (by simp [hsender]) (by cases s.doIt <;> simp) ?_ (by simp)
    cases s.doIt <;> simp [hsender]
  case h_3 hsender =>
    obtain ⟨value, hwait, rfl⟩ := Option.map_eq_some_iff.mp hnext
    have hvalue := semWait_eq_some_iff.mp hwait
    refine h.send (by simp [hsender]) (by simp [hsender]) (by simp) ?_ fun _ hne ↦ by simp [hne]
    simp [hsender, hvalue]
    omega
  case h_4 hsender =>
    cases hnext
    exact h.send (by simp [hsender]) (by simp [hsender]) (by simp) (by simp [hsender]) (by simp)
  case h_5 hsender =>
    cases hnext
    refine h.send (by simp [hsender]) (by simp [hsender]) (by simp) ?_ fun _ hne ↦ by simp [hne]
    simp only [State.tokens, hsender, SenderPoint.carries, update_self, Bool.toNat_true,
      Bool.toNat_false] at htoken ⊢
    omega

theorem Inv.deliver (h : Inv s) (hrun : s.status = .running)
    (hnext : deliver s sig eintr = some s') : Inv s' := by
  obtain ⟨⟨hpending, hidle, hborn, hlive, heintr⟩, hnext⟩ := Option.ite_none_right_eq_some.mp hnext
  split at hnext
  · cases hnext
    have hworker : WorkerPoint.Alive (if eintr then .interrupted else s.worker) := by
      cases eintr with
      | false => exact ⟨hborn, hlive⟩
      | true => simp
    have hinv := h.work hrun ⟨hborn, hlive⟩ hworker s.installed
    have hfresh : sig ∉ s.stack := fun hmem ↦ (h.entered sig).mpr hmem hidle
    refine { hinv with
      token := fun other ↦ ?_
      entered := fun other ↦ ?_
      nodup := List.nodup_cons.mpr ⟨hfresh, h.nodup⟩
      idle := fun hreturned ↦ absurd hreturned hworker.2 }
    · rw [← h.token other]
      by_cases heq : other = sig
      · simp [heq, hpending, hidle, HandlerPoint.unposted]
      · simp [heq]
    · by_cases heq : other = sig
      · simp [heq]
      · simpa [heq] using h.entered other
  · cases hnext
    exact { h with passed := fun hpassed ↦ by cases hpassed }

theorem Inv.next (h : Inv s) (hnext : next s move = some s') : Inv s' := by
  obtain ⟨hrun, hnext⟩ := Option.ite_none_right_eq_some.mp hnext
  cases move with
  | main => exact h.main hrun hnext
  | worker =>
    split_ifs at hnext with hstack
    exact h.threaded hrun hstack hnext
  | handler =>
    cases hstack : s.stack with
    | nil => simp [hstack] at hnext
    | cons sig rest =>
      simp only [hstack] at hnext
      exact h.sighdl hstack hnext
  | sender sig => exact h.sendsig hnext
  | deliver sig eintr => exact h.deliver hrun hnext

theorem inv_of_reachable (h : program.Reachable s) : Inv s :=
  h.invariant (fun _ hs ↦ hs ▸ inv_start) fun _ _ _ _ hinv hnext ↦ hinv.next hnext

/-! ### Installed handlers -/

/-- The handlers are installed when a signal is pending, and no signal has ended the process. -/
structure Armed (s : State) : Prop where
  installed : ∀ sig, s.pending sig = true → ∀ other, s.installed other = true
  status : ∀ sig, s.status ≠ .terminated sig

theorem Armed.main (h : Armed s) (hnext : main s = some s') : Armed s' := by
  unfold Shutdown.main at hnext
  split at hnext
  case h_5 =>
    split_ifs at hnext
    cases hnext
    exact ⟨h.installed, h.status⟩
  case h_7 =>
    split_ifs at hnext
    cases hnext
    exact ⟨h.installed, fun _ hstatus ↦ by cases hstatus⟩
  all_goals
    cases hnext
    exact ⟨h.installed, h.status⟩

theorem Armed.threaded (h : Armed s) (hnext : threaded s = some s') : Armed s' := by
  unfold Shutdown.threaded at hnext
  split at hnext
  case h_1 | h_16 => cases hnext
  case h_2 sig hworker =>
    cases hnext
    refine ⟨fun pending hpending other ↦ ?_, h.status⟩
    by_cases heq : other = sig
    · simp [heq]
    · simpa [heq] using h.installed pending hpending other
  case h_14 =>
    obtain ⟨value, -, rfl⟩ := Option.map_eq_some_iff.mp hnext
    exact ⟨h.installed, h.status⟩
  all_goals
    cases hnext
    exact ⟨h.installed, h.status⟩

theorem Armed.sighdl (h : Armed s) (hnext : sighdl s sig rest = some s') : Armed s' := by
  unfold Shutdown.sighdl at hnext
  split at hnext
  case h_1 => cases hnext
  all_goals
    cases hnext
    exact ⟨h.installed, h.status⟩

theorem Armed.sendsig (h : Armed s)
    (hfirst : s.sender sig = .kill → ∀ other, s.installed other = true)
    (hnext : sendsig s sig = some s') : Armed s' := by
  unfold Shutdown.sendsig at hnext
  split at hnext
  case h_1 | h_6 => cases hnext
  case h_3 =>
    obtain ⟨value, -, rfl⟩ := Option.map_eq_some_iff.mp hnext
    exact ⟨h.installed, h.status⟩
  case h_5 hsender =>
    cases hnext
    exact ⟨fun _ _ ↦ hfirst hsender, h.status⟩
  all_goals
    cases hnext
    exact ⟨h.installed, h.status⟩

theorem Armed.deliver (h : Armed s) (hnext : deliver s sig eintr = some s') : Armed s' := by
  obtain ⟨⟨hpending, -⟩, hnext⟩ := Option.ite_none_right_eq_some.mp hnext
  have hinstalled := h.installed sig hpending
  rw [if_pos (hinstalled sig)] at hnext
  cases hnext
  exact ⟨fun _ _ ↦ hinstalled, h.status⟩

theorem Armed.next (h : Armed s) (hfirst : sends (s, move) = true → ∀ sig, s.installed sig = true)
    (hnext : next s move = some s') : Armed s' := by
  obtain ⟨-, hnext⟩ := Option.ite_none_right_eq_some.mp hnext
  cases move with
  | main => exact h.main hnext
  | worker =>
    split_ifs at hnext
    exact h.threaded hnext
  | handler =>
    cases hstack : s.stack with
    | nil => simp [hstack] at hnext
    | cons sig rest =>
      simp only [hstack] at hnext
      exact h.sighdl hnext
  | sender sig => exact h.sendsig (fun hkill ↦ hfirst (decide_eq_true hkill)) hnext
  | deliver sig eintr => exact h.deliver hnext

theorem armed_of_exec (h : program.Exec trace s) (hfirst : HandlersFirst trace) : Armed s := by
  induction h with
  | start hinit =>
    subst hinit
    exact ⟨fun _ hpending ↦ absurd hpending Bool.false_ne_true, fun _ hstatus ↦ by cases hstatus⟩
  | step _ hnext ih =>
    obtain ⟨hbefore, hlast⟩ := List.forall_mem_append.mp hfirst
    exact (ih hbefore).next (hlast _ (List.mem_singleton.mpr rfl)) hnext

/-! ### Nobody is stuck -/

/-- The last handler that was entered can go on. -/
theorem Inv.enabled_handler (h : Inv s) (hrun : s.status = .running) (hstack : s.stack ≠ []) :
    program.Enabled s .handler := by
  obtain ⟨sig, rest, hcons⟩ := List.exists_cons_of_ne_nil hstack
  have hentered : s.handler sig ≠ .idle := (h.entered sig).mpr (hcons ▸ List.mem_cons_self)
  simp only [System.Enabled, program, Shutdown.next, if_pos hrun, hcons, Shutdown.sighdl]
  cases hhandler : s.handler sig with
  | idle => exact absurd hhandler hentered
  | entered | posted => rfl

/-- A sender that waits while no handler is entered finds its unit in its semaphore or in a pending
signal. -/
theorem Inv.exists_enabled_of_sender (h : Inv s) (hrun : s.status = .running)
    (hstack : s.stack = []) (hborn : s.sender sig ≠ .unborn) (hlive : s.sender sig ≠ .returned) :
    ∃ move, program.Enabled s move := by
  obtain ⟨hworker, hworker'⟩ := h.alive hborn hlive
  have hidle : s.handler sig = .idle := by
    by_contra hentered
    simpa [hstack] using (h.entered sig).mp hentered
  cases hsender : s.sender sig with
  | unborn => exact absurd hsender hborn
  | returned => exact absurd hsender hlive
  | test | count | kill =>
    refine ⟨.sender sig, ?_⟩
    simp only [System.Enabled, program, Shutdown.next, if_pos hrun, Shutdown.sendsig, hsender]
    rfl
  | wait =>
    have htoken := h.token sig
    simp only [State.tokens, hidle, hsender, HandlerPoint.unposted, SenderPoint.carries,
      Bool.toNat_false, Nat.add_zero] at htoken
    cases hpending : s.pending sig with
    | true =>
      refine ⟨.deliver sig false, ?_⟩
      have hguard : s.pending sig = true ∧ s.handler sig = .idle ∧ s.worker ≠ .unborn ∧
          s.worker ≠ .returned ∧ (false = true → s.worker = .semWait ∧ s.stack = []) :=
        ⟨hpending, hidle, hworker, hworker', fun hfalse ↦ by cases hfalse⟩
      simp only [System.Enabled, program, Shutdown.next, if_pos hrun, Shutdown.deliver,
        if_pos hguard]
      split <;> rfl
    | false =>
      rw [hpending] at htoken
      refine ⟨.sender sig, ?_⟩
      simp only [System.Enabled, program, Shutdown.next, if_pos hrun, Shutdown.sendsig,
        hsender, Option.isSome_map]
      rw [show s.sem sig = 1 from htoken]
      rfl

/-- Once the senders have returned, `main` posts `semsync` or the worker goes on. -/
theorem Inv.exists_enabled_of_worker (h : Inv s) (hrun : s.status = .running)
    (hstack : s.stack = []) (hdoIt : s.doIt = false) (hsenders : ∀ sig, s.sender sig = .returned)
    (hlive : s.worker ≠ .returned) : ∃ move, program.Enabled s move := by
  have hstopped := h.stopped_of_doIt hdoIt
  by_cases hposted : s.main.posted = true
  · have hsync := h.sync
    have hended : s.worker.ended = false := by
      rw [Bool.eq_false_iff, Ne, WorkerPoint.ended_eq_true_iff]
      exact hlive
    rw [hposted, hended] at hsync
    refine ⟨.worker, ?_⟩
    simp only [System.Enabled, program, Shutdown.next, if_pos hrun, if_pos hstack,
      Shutdown.threaded]
    cases hworker : s.worker with
    | returned => exact absurd hworker hlive
    | unborn =>
      rw [h.worker_unborn.mp hworker] at hposted
      exact absurd hposted Bool.false_ne_true
    | semWait =>
      rw [show s.semsync = 1 from hsync]
      rfl
    | _ => rfl
  · refine ⟨.main, ?_⟩
    simp only [System.Enabled, program, Shutdown.next, if_pos hrun, Shutdown.main]
    cases hmain : s.main with
    | joinSig sig => simp [hsenders]
    | post => rfl
    | joinWork => exact absurd (congrArg MainPoint.posted hmain) hposted
    | _ =>
      rw [hmain] at hstopped
      exact absurd hstopped Bool.false_ne_true

theorem Inv.exists_enabled (h : Inv s) (harmed : Armed s) (hdoIt : s.doIt = false)
    (hunfinished : ¬ s.Finished) : ∃ move, program.Enabled s move := by
  have hstopped := h.stopped_of_doIt hdoIt
  have hborn (sig : Sig) : s.sender sig ≠ .unborn := by
    intro hunborn
    have hcreates := (h.sender_unborn sig).mp hunborn
    rw [MainPoint.creates_of_stopped hstopped] at hcreates
    cases hcreates
  have hsenders (hreturned : s.worker = .returned) (sig : Sig) : s.sender sig = .returned :=
    h.joined sig (MainPoint.joined_of_posted (h.posted_of_returned hreturned))
  have hrun : s.status = .running := by
    cases hstatus : s.status with
    | running => rfl
    | terminated sig => exact absurd hstatus (harmed.status sig)
    | passed =>
      have hreturned := h.passed hstatus
      exact absurd ⟨hsenders hreturned, hreturned⟩ hunfinished
  by_cases hstack : s.stack = []
  · by_cases hall : ∀ sig, s.sender sig = .returned
    · exact h.exists_enabled_of_worker hrun hstack hdoIt hall fun hreturned ↦
        hunfinished ⟨hall, hreturned⟩
    · obtain ⟨sig, hlive⟩ := not_forall.mp hall
      exact h.exists_enabled_of_sender hrun hstack (hborn sig) hlive
  · exact ⟨.handler, h.enabled_handler hrun hstack⟩

/-! ### What is left to do -/

def MainPoint.weight : MainPoint → ℕ
  | .joinSig .usr1 => 4
  | .joinSig .usr2 => 3
  | .post => 2
  | .joinWork => 1
  | _ => 0

/-- The steps the worker has left, when `do_it` is 0 and no handler interrupts `sem_wait`. -/
@[simp] def WorkerPoint.weight : WorkerPoint → ℕ
  | .unborn | .returned => 0
  | .semWait => 1
  | .interrupted => 2
  | .mutexDestroy i => 2 + (5 - i)
  | .attrDestroy i => 8 + (4 - i)
  | .test => 13
  | .unlockCount => 14
  | .count => 15
  | .lockCount => 16
  | .unlock i => 17 + 2 * (5 - i)
  | .lock i => 18 + 2 * (5 - i)
  | .mutexInit i => 14 + (5 - i)
  | .setType i => 20 + (4 - i)
  | .attrInit i => 25 + (4 - i)
  | .sigaction .usr2 => 30
  | .sigaction .usr1 => 31

def HandlerPoint.weight : HandlerPoint → ℕ
  | .idle => 0
  | .posted => 1
  | .entered => 2

/-- A pending signal becomes a handler, and may make the worker call `sem_wait` again. -/
def pendingWeight (pending : Bool) : ℕ := if pending then 4 else 0

def SenderPoint.weight : SenderPoint → ℕ
  | .unborn | .returned => 0
  | .test => 1
  | .kill => 6
  | .count => 7
  | .wait => 8

def Status.weight : Status → ℕ
  | .running => 1
  | _ => 0

def State.weight (s : State) : ℕ :=
  s.status.weight + s.main.weight + s.worker.weight + total HandlerPoint.weight s.handler +
    total pendingWeight s.pending + total SenderPoint.weight s.sender

theorem weight_main (hmain : s.main.stopped = true) (hrun : s.status = .running)
    (hnext : main s = some s') : s'.doIt = s.doIt ∧ s'.weight < s.weight := by
  unfold main at hnext
  split at hnext
  case h_5 sig hpoint =>
    split_ifs at hnext
    cases hnext
    refine ⟨rfl, ?_⟩
    unfold State.weight
    rw [hpoint]
    cases sig <;> simp [MainPoint.weight]
  case h_6 hpoint =>
    cases hnext
    refine ⟨rfl, ?_⟩
    unfold State.weight
    rw [hpoint]
    simp [MainPoint.weight]
  case h_7 =>
    split_ifs at hnext
    cases hnext
    refine ⟨rfl, ?_⟩
    unfold State.weight
    rw [hrun]
    simp [Status.weight]
  all_goals
    rename_i hpoint
    rw [hpoint] at hmain
    cases hmain

theorem weight_worker (hdoIt : s.doIt = false) (hnext : threaded s = some s') :
    s'.doIt = s.doIt ∧ s'.weight < s.weight := by
  suffices hworker : s'.doIt = s.doIt ∧ s'.status = s.status ∧ s'.main = s.main ∧
      s'.handler = s.handler ∧ s'.pending = s.pending ∧ s'.sender = s.sender ∧
      s'.worker.weight < s.worker.weight by
    obtain ⟨hsame, hstatus, hmain, hhandler, hpending, hsender, hless⟩ := hworker
    refine ⟨hsame, ?_⟩
    unfold State.weight
    rw [hstatus, hmain, hhandler, hpending, hsender]
    omega
  unfold threaded at hnext
  split at hnext
  case h_1 | h_16 => cases hnext
  case h_14 hpoint =>
    obtain ⟨value, -, rfl⟩ := Option.map_eq_some_iff.mp hnext
    rw [hpoint]
    simp
  case h_2 sig hpoint =>
    cases hnext
    rw [hpoint]
    cases sig <;> simp
  case h_6 hpoint =>
    cases hnext
    rw [hpoint]
    simp [hdoIt]
  case h_3 | h_4 | h_5 | h_8 | h_12 | h_13 =>
    rename_i i hpoint
    cases hnext
    refine ⟨rfl, rfl, rfl, rfl, rfl, rfl, ?_⟩
    rw [hpoint]
    unfold loop
    split <;> simp only [WorkerPoint.weight] <;> omega
  all_goals
    rename_i hpoint
    cases hnext
    rw [hpoint]
    simp

theorem weight_handler (hnext : sighdl s sig rest = some s') :
    s'.doIt = s.doIt ∧ s'.weight < s.weight := by
  unfold sighdl at hnext
  split at hnext
  case h_1 => cases hnext
  all_goals
    rename_i hpoint
    cases hnext
    refine ⟨rfl, ?_⟩
    simp only [State.weight, Nat.add_lt_add_iff_right, Nat.add_lt_add_iff_left]
    refine total_lt_total (i := sig) ?_ fun other hne ↦ ?_
    · simp [hpoint, HandlerPoint.weight]
    · simp [hne]

theorem weight_sender (hdoIt : s.doIt = false) (hnext : sendsig s sig = some s') :
    s'.doIt = s.doIt ∧ s'.weight < s.weight := by
  have hmove := total_update SenderPoint.weight s.sender sig
  unfold sendsig at hnext
  split at hnext
  case h_1 | h_6 => cases hnext
  case h_2 hpoint =>
    cases hnext
    have hreturned := hmove .returned
    refine ⟨rfl, ?_⟩
    simp only [State.weight, hdoIt, hpoint, SenderPoint.weight] at hreturned ⊢
    simp only [Bool.false_eq_true, if_false]
    omega
  case h_3 hpoint =>
    obtain ⟨value, -, rfl⟩ := Option.map_eq_some_iff.mp hnext
    have hcount := hmove .count
    refine ⟨rfl, ?_⟩
    simp only [State.weight, hpoint, SenderPoint.weight] at hcount ⊢
    omega
  case h_4 hpoint =>
    cases hnext
    have hkill := hmove .kill
    refine ⟨rfl, ?_⟩
    simp only [State.weight, hpoint, SenderPoint.weight] at hkill ⊢
    omega
  case h_5 hpoint =>
    cases hnext
    have htest := hmove .test
    have hpending : total pendingWeight (update s.pending sig true) ≤
        total pendingWeight s.pending + 4 := by
      have hsent := total_update pendingWeight s.pending sig true
      rw [show pendingWeight true = 4 from rfl] at hsent
      omega
    refine ⟨rfl, ?_⟩
    simp only [State.weight, hpoint, SenderPoint.weight] at htest ⊢
    omega

theorem weight_deliver (hrun : s.status = .running) (hnext : deliver s sig eintr = some s') :
    s'.doIt = s.doIt ∧ s'.weight < s.weight := by
  obtain ⟨⟨hpending, hidle, -, -, heintr⟩, hnext⟩ := Option.ite_none_right_eq_some.mp hnext
  split at hnext
  · cases hnext
    refine ⟨rfl, ?_⟩
    have hentered := total_update HandlerPoint.weight s.handler sig .entered
    have hreceived := total_update pendingWeight s.pending sig false
    rw [hpending] at hreceived
    have hworker : WorkerPoint.weight (if eintr = true then .interrupted else s.worker) ≤
        s.worker.weight + 1 := by
      cases eintr with
      | false => exact Nat.le_succ _
      | true =>
        rw [(heintr rfl).1]
        decide
    simp only [State.weight, HandlerPoint.weight, pendingWeight] at hentered hreceived ⊢
    simp only [if_true, Bool.false_eq_true, if_false] at hreceived
    omega
  · cases hnext
    refine ⟨rfl, ?_⟩
    simp only [State.weight, hrun, Status.weight]
    omega

/-- `do_it` is 0, and stays so. -/
structure Stopping (s : State) : Prop where
  inv : Inv s
  doIt : s.doIt = false

theorem Stopping.weight_lt (h : Stopping s) (hnext : next s move = some s') :
    s'.doIt = s.doIt ∧ s'.weight < s.weight := by
  obtain ⟨hrun, hnext⟩ := Option.ite_none_right_eq_some.mp hnext
  cases move with
  | main => exact weight_main (h.inv.stopped_of_doIt h.doIt) hrun hnext
  | worker =>
    split_ifs at hnext
    exact weight_worker h.doIt hnext
  | handler =>
    cases hstack : s.stack with
    | nil => simp [hstack] at hnext
    | cons sig rest =>
      simp only [hstack] at hnext
      exact weight_handler hnext
  | sender sig => exact weight_sender h.doIt hnext
  | deliver sig eintr => exact weight_deliver hrun hnext

theorem Stopping.next (h : Stopping s) (hnext : next s move = some s') :
    Stopping s' ∧ s'.weight < s.weight := by
  obtain ⟨hsame, hless⟩ := h.weight_lt hnext
  exact ⟨⟨h.inv.next hnext, hsame.trans h.doIt⟩, hless⟩

/-! ### The result -/

/-- Assumes: a run in which no signal was sent before both handlers were installed. One unit goes
round for each signal, a signal is sent only while the worker exists and has not returned, and when
`do_it` is 0 the run goes on until the senders and the worker have returned: until then some step
can be taken, and only so many steps can follow. -/
theorem shutdown (h : program.Exec trace s) (hfirst : HandlersFirst trace) :
    (∀ sig, s.tokens sig = 1) ∧
      (∀ sig, s.sender sig = .kill → s.worker ≠ .unborn ∧ s.worker ≠ .returned) ∧
      (s.doIt = false →
        (¬ s.Finished → ∃ move, program.Enabled s move) ∧
          ∃ bound, ∀ schedule last,
            program.runSchedule s schedule = some last → schedule.length ≤ bound) := by
  have hinv := inv_of_reachable ⟨trace, h⟩
  refine ⟨hinv.token, fun sig hkill ↦ ?_, fun hdoIt ↦ ⟨?_, s.weight, fun schedule last hrun ↦ ?_⟩⟩
  · have hborn : s.sender sig ≠ .unborn := by simp [hkill]
    have hlive : s.sender sig ≠ .returned := by simp [hkill]
    exact hinv.alive hborn hlive
  · exact hinv.exists_enabled (armed_of_exec h hfirst) hdoIt
  · exact System.length_le_of_measure State.weight (fun _ _ _ hstopping hnext ↦
      hstopping.next hnext) (Stopping.mk hinv hdoIt) hrun

/-- Both senders take their units, `main` clears `do_it`, and the worker comes to its last
`sem_wait`. The first signal interrupts it there, and the second one the handler of the first. -/
def nested : List Move :=
  List.flatten [.replicate 4 .main, .replicate 15 .worker, .replicate 3 (.sender .usr1),
    .replicate 3 (.sender .usr2), [.main], .replicate 10 .worker,
    [.sender .usr1, .deliver .usr1 true, .sender .usr2, .deliver .usr2 false]]

instance : DecidablePred HandlersFirst := fun trace ↦
  inferInstanceAs (Decidable (∀ step ∈ trace, sends step = true → ∀ sig,
    step.1.installed sig = true))

theorem shutdown_nested : ∃ trace s, program.Exec trace s ∧ HandlersFirst trace ∧
    s.doIt = false ∧ s.stack = [.usr2, .usr1] ∧ s.worker = .interrupted ∧
      (∀ sig, s.tokens sig = 1) ∧ ∃ move, program.Enabled s move := by
  obtain ⟨s, hrun, hdoIt, hstack, hworker⟩ : ∃ s, program.runSchedule start nested = some s ∧
      s.doIt = false ∧ s.stack = [.usr2, .usr1] ∧ s.worker = .interrupted :=
    System.exists_of_replay (by decide +kernel)
  have hexec : program.Exec ([] ++ program.traceOf start nested) s :=
    System.Exec.runSchedule (.start rfl) hrun
  have hfirst : HandlersFirst ([] ++ program.traceOf start nested) := by decide +kernel
  obtain ⟨htokens, -, hstop⟩ := shutdown hexec hfirst
  have hunfinished : ¬ s.Finished := fun hfinished ↦ by
    rw [hfinished.2] at hworker
    cases hworker
  exact ⟨_, s, hexec, hfirst, hdoIt, hstack, hworker, htokens, (hstop hdoIt).1 hunfinished⟩

end OpenPosix.Signals.Shutdown

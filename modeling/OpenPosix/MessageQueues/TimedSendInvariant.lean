import OpenPosix.MessageQueues.TimedSendModel

/-!
# Where the threads of the interrupted `mq_timedsend` can be

For given results of the calls, the point of the thread says which of its calls were made and how
`sem` and the flags stand (`ThreadOk`), and the point of `main` what it has seen of them (`MainOk`).
The steps of either thread are inverted once, into `ThreadStep` and `MainStep`, and
`inv_of_reachable` says that both hold in every reachable state.
-/

namespace OpenPosix.MessageQueues.TimedSend

open Interleaving Verdicts

variable {c : Calls} {s s' : State}

attribute [simp] ThreadPoint.alive

/-! ### The invariant -/

/-- What the point of the thread says about the results of its calls and the variables it sets. -/
def ThreadOk (c : Calls) (s : State) : Prop :=
  match s.thread with
  | .unborn | .sigaction | .mqOpen => s.sem = .inThread ∧ s.errnoEintr = false
  | .setInMain => c.mqOpen = true ∧ s.sem = .inThread ∧ s.errnoEintr = false
  | .send i => c.mqOpen = true ∧ s.sem = .inMain ∧ s.errnoEintr = false ∧ i ≤ maxmsg + 1 ∧
      ∀ j < i, c.mqTimedsend j = .success
  | .unlink | .setEintr => c.mqOpen = true ∧ s.sem = .inMain ∧ s.errnoEintr = false ∧
      s.inHandler = true ∧ c.FirstFailure .eintr
  | .setInThread => c.mqOpen = true ∧ s.sem = .inMain ∧ s.errnoEintr = false ∧ c.NeverBlocks
  | .exited =>
    (c.mqOpen = false ∧ s.sem = .inThread ∧ s.errnoEintr = false) ∨
    (c.mqOpen = true ∧ s.sem = .inMain ∧ s.inHandler = true ∧ c.FirstFailure .eintr) ∨
    (c.mqOpen = true ∧ s.sem = .inMain ∧ s.errnoEintr = false ∧ c.FirstFailure .error) ∨
    (c.mqOpen = true ∧ s.sem = .inThread ∧ s.errnoEintr = false ∧ c.NeverBlocks)

/-- The calls of `pthread_kill` so far have succeeded. -/
def Calls.Kills (c : Calls) (count : ℕ) : Prop := ∀ j < count, c.pthreadKill j = true

/-- The thread has set `sem`, and has not reset it unless none of its calls has blocked. -/
def HandedOver (c : Calls) (s : State) : Prop :=
  c.mqOpen = true ∧ (s.sem = .inMain ∨ c.NeverBlocks)

def MainOk (c : Calls) (s : State) : Prop :=
  match s.main with
  | .create => s.thread = .unborn ∧ s.i = 0
  | .wait => s.thread ≠ .unborn ∧ s.i = 0
  | .loop => s.thread ≠ .unborn ∧ HandedOver c s ∧ s.i ≤ 10 ∧ c.Kills s.i
  | .kill => s.thread ≠ .unborn ∧ HandedOver c s ∧ s.i < 10 ∧ c.Kills s.i
  | .join => s.thread ≠ .unborn ∧ (c.Kills 10 ∨ c.NeverBlocks)
  | .check => s.thread = .exited ∧ c.pthreadJoin = true ∧ (c.Kills 10 ∨ c.NeverBlocks)
  | .returned code => code = ptsPass → s.errnoEintr = true ∨
      (c.FirstFailure .error ∧ c.Kills 10 ∧ c.pthreadJoin = true)

structure Inv (c : Calls) (s : State) : Prop where
  thread : ThreadOk c s
  main : MainOk c s

theorem inv_start : Inv c start := ⟨⟨rfl, rfl⟩, rfl, rfl⟩

/-! ### Steps of the thread -/

inductive ThreadStep (c : Calls) (s : State) : State → Prop
  | sigaction (hpoint : s.thread = .sigaction) : ThreadStep c s { s with thread := .mqOpen }
  | opens (hpoint : s.thread = .mqOpen) (hopen : c.mqOpen = true) :
    ThreadStep c s { s with thread := .setInMain }
  | openFails (hpoint : s.thread = .mqOpen) (hopen : c.mqOpen = false) :
    ThreadStep c s { s with thread := .exited }
  | setInMain (hpoint : s.thread = .setInMain) :
    ThreadStep c s { s with sem := .inMain, thread := .send 0 }
  | send {i : ℕ} (hpoint : s.thread = .send i) (hlt : i < maxmsg + 1)
      (hsend : c.mqTimedsend i = .success) : ThreadStep c s { s with thread := .send (i + 1) }
  | interrupted {i : ℕ} (hpoint : s.thread = .send i) (hlt : i < maxmsg + 1)
      (hsend : c.mqTimedsend i = .eintr) :
    ThreadStep c s { s with inHandler := true, pending := false, thread := .unlink }
  | sendFails {i : ℕ} (hpoint : s.thread = .send i) (hlt : i < maxmsg + 1)
      (hsend : c.mqTimedsend i = .error) : ThreadStep c s { s with thread := .exited }
  | sentAll {i : ℕ} (hpoint : s.thread = .send i) (hlt : ¬ i < maxmsg + 1) :
    ThreadStep c s { s with thread := .setInThread }
  | unlink (hpoint : s.thread = .unlink) : ThreadStep c s { s with thread := .setEintr }
  | unlinkFails (hpoint : s.thread = .unlink) : ThreadStep c s { s with thread := .exited }
  | setEintr (hpoint : s.thread = .setEintr) :
    ThreadStep c s { s with errnoEintr := true, thread := .exited }
  | setInThread (hpoint : s.thread = .setInThread) :
    ThreadStep c s { s with sem := .inThread, thread := .exited }

theorem threadStep_of_aThreadFunc (hnext : aThreadFunc c s = some s') : ThreadStep c s s' := by
  unfold aThreadFunc at hnext
  cases hpoint : s.thread with
  | unborn | exited => simp [hpoint] at hnext
  | sigaction =>
    rw [hpoint] at hnext
    exact Option.some.inj hnext ▸ .sigaction hpoint
  | mqOpen =>
    rw [hpoint] at hnext
    cases hnext
    cases hopen : c.mqOpen with
    | true => exact .opens hpoint hopen
    | false => exact .openFails hpoint hopen
  | setInMain =>
    rw [hpoint] at hnext
    exact Option.some.inj hnext ▸ .setInMain hpoint
  | send i =>
    simp only [hpoint] at hnext
    by_cases hlt : i < maxmsg + 1
    · rw [if_pos hlt] at hnext
      cases hsend : c.mqTimedsend i <;> simp only [hsend] at hnext
      case success =>
        exact Option.some.inj hnext ▸ .send hpoint hlt hsend
      case eintr =>
        exact Option.some.inj hnext ▸ .interrupted hpoint hlt hsend
      case error =>
        exact Option.some.inj hnext ▸ .sendFails hpoint hlt hsend
    · rw [if_neg hlt] at hnext
      exact Option.some.inj hnext ▸ .sentAll hpoint hlt
  | unlink =>
    rw [hpoint] at hnext
    cases hnext
    cases c.mqUnlink with
    | true => exact .unlink hpoint
    | false => exact .unlinkFails hpoint
  | setEintr =>
    rw [hpoint] at hnext
    exact Option.some.inj hnext ▸ .setEintr hpoint
  | setInThread =>
    rw [hpoint] at hnext
    exact Option.some.inj hnext ▸ .setInThread hpoint

theorem ThreadStep.threadOk (hstep : ThreadStep c s s') (h : ThreadOk c s) : ThreadOk c s' := by
  unfold ThreadOk at h
  cases hstep with
  | sigaction hpoint | unlink hpoint =>
    rw [hpoint] at h
    exact h
  | opens hpoint hopen =>
    rw [hpoint] at h
    exact ⟨hopen, h⟩
  | openFails hpoint hopen =>
    rw [hpoint] at h
    exact .inl ⟨hopen, h⟩
  | setInMain hpoint =>
    rw [hpoint] at h
    exact ⟨h.1, rfl, h.2.2, Nat.zero_le _, fun j hj ↦ absurd hj (Nat.not_lt_zero j)⟩
  | @send i hpoint hlt hsend =>
    rw [hpoint] at h
    obtain ⟨hopen, hsem, herrno, -, hbefore⟩ := h
    refine ⟨hopen, hsem, herrno, hlt, fun j hj ↦ ?_⟩
    rcases Nat.lt_succ_iff_lt_or_eq.mp hj with hj | rfl
    · exact hbefore j hj
    · exact hsend
  | @interrupted i hpoint hlt hsend =>
    rw [hpoint] at h
    obtain ⟨hopen, hsem, herrno, -, hbefore⟩ := h
    exact ⟨hopen, hsem, herrno, rfl, i, hlt, hbefore, hsend⟩
  | @sendFails i hpoint hlt hsend =>
    rw [hpoint] at h
    obtain ⟨hopen, hsem, herrno, -, hbefore⟩ := h
    exact .inr (.inr (.inl ⟨hopen, hsem, herrno, i, hlt, hbefore, hsend⟩))
  | @sentAll i hpoint hlt =>
    rw [hpoint] at h
    obtain ⟨hopen, hsem, herrno, hle, hbefore⟩ := h
    exact ⟨hopen, hsem, herrno, fun j hj ↦ hbefore j (by omega)⟩
  | unlinkFails hpoint | setEintr hpoint =>
    rw [hpoint] at h
    obtain ⟨hopen, hsem, -, hhandler, hfirst⟩ := h
    exact .inr (.inl ⟨hopen, hsem, hhandler, hfirst⟩)
  | setInThread hpoint =>
    rw [hpoint] at h
    exact .inr (.inr (.inr ⟨h.1, rfl, h.2.2⟩))

/-- The thread is alive before its steps, exists after them, and only resets `sem` when none of its
calls has blocked. -/
theorem ThreadStep.handsOver (hstep : ThreadStep c s s') (h : ThreadOk c s) :
    s.thread.alive = true ∧ s'.thread ≠ .unborn ∧ s'.main = s.main ∧ s'.i = s.i ∧
      (HandedOver c s → HandedOver c s') := by
  unfold ThreadOk at h
  cases hstep with
  | setInMain hpoint =>
    exact ⟨by rw [hpoint]; rfl, by simp, rfl, rfl, fun hover ↦ ⟨hover.1, .inl rfl⟩⟩
  | setInThread hpoint =>
    rw [hpoint] at h
    exact ⟨by rw [hpoint]; rfl, by simp, rfl, rfl, fun hover ↦ ⟨hover.1, .inr h.2.2.2⟩⟩
  | sigaction hpoint | opens hpoint | openFails hpoint | send hpoint | interrupted hpoint
  | sendFails hpoint | sentAll hpoint | unlink hpoint | unlinkFails hpoint | setEintr hpoint =>
    exact ⟨by rw [hpoint]; rfl, by simp, rfl, rfl, id⟩

/-- Assumes: `main` has not returned. -/
theorem ThreadStep.mainOk (hstep : ThreadStep c s s') (h : Inv c s) (hended : s.ended = false) :
    MainOk c s' := by
  obtain ⟨halive, hborn, hmain, hi, hover⟩ := hstep.handsOver h.thread
  have hold := h.main
  unfold MainOk at hold ⊢
  rw [hmain, hi]
  cases hpoint : s.main with
  | create | check =>
    rw [hpoint] at hold
    simp [hold.1] at halive
  | wait | join =>
    rw [hpoint] at hold
    exact ⟨hborn, hold.2⟩
  | loop | kill =>
    rw [hpoint] at hold
    exact ⟨hborn, hover hold.2.1, hold.2.2⟩
  | returned code => simp [State.ended, hpoint] at hended

theorem Inv.handler (h : Inv c s) : Inv c { s with inHandler := true, pending := false } := by
  obtain ⟨hthread, hmain⟩ := h
  refine ⟨?_, hmain⟩
  unfold ThreadOk at hthread ⊢
  cases hpoint : s.thread with
  | exited =>
    simp only [hpoint] at hthread ⊢
    rcases hthread with hopen | ⟨hopen, hsem, -, hfirst⟩ | hrest
    · exact .inl hopen
    · exact .inr (.inl ⟨hopen, hsem, trivial, hfirst⟩)
    · exact .inr (.inr hrest)
  | unlink | setEintr =>
    simp only [hpoint] at hthread ⊢
    obtain ⟨hopen, hsem, herrno, -, hfirst⟩ := hthread
    exact ⟨hopen, hsem, herrno, trivial, hfirst⟩
  | _ => simpa only [hpoint] using hthread

/-! ### Steps of `main` -/

inductive MainStep (c : Calls) (s : State) : State → Prop
  | create (hpoint : s.main = .create) (hcreate : c.pthreadCreate = true) :
    MainStep c s { s with thread := .sigaction, main := .wait }
  | createFails (hpoint : s.main = .create) (hcreate : c.pthreadCreate = false) :
    MainStep c s { s with main := .returned ptsUnresolved }
  | spin (hpoint : s.main = .wait) (hsem : s.sem = .inThread) : MainStep c s s
  | goOn (hpoint : s.main = .wait) (hsem : s.sem = .inMain) : MainStep c s { s with main := .loop }
  | toKill (hpoint : s.main = .loop) (hi : s.i ≠ 10) (hsem : s.sem = .inMain) :
    MainStep c s { s with main := .kill }
  | toJoin (hpoint : s.main = .loop) (hend : s.i = 10 ∨ s.sem = .inThread) :
    MainStep c s { s with main := .join }
  | kill (hpoint : s.main = .kill) (hkill : c.pthreadKill s.i = true) :
    MainStep c s { s with pending := s.pending || s.thread.alive, i := s.i + 1, main := .loop }
  | killFails (hpoint : s.main = .kill) (hkill : c.pthreadKill s.i = false) :
    MainStep c s { s with main := .returned ptsUnresolved }
  | join (hpoint : s.main = .join) (hexited : s.thread = .exited) (hjoin : c.pthreadJoin = true) :
    MainStep c s { s with main := .check }
  | joinFails (hpoint : s.main = .join) (hexited : s.thread = .exited)
      (hjoin : c.pthreadJoin = false) : MainStep c s { s with main := .returned ptsUnresolved }
  | check (hpoint : s.main = .check) : MainStep c s { s with main := .returned (verdict s) }

theorem Turn.eq_inMain {turn : Turn} (h : turn ≠ .inThread) : turn = .inMain := by
  cases turn with
  | inThread => exact absurd rfl h
  | inMain => rfl

theorem mainStep_of_main (hnext : main c s = some s') : MainStep c s s' := by
  unfold main at hnext
  cases hpoint : s.main with
  | create =>
    simp only [hpoint] at hnext
    cases hcreate : c.pthreadCreate with
    | true =>
      rw [hcreate] at hnext
      exact Option.some.inj hnext ▸ .create hpoint hcreate
    | false =>
      rw [hcreate] at hnext
      exact Option.some.inj hnext ▸ .createFails hpoint hcreate
  | wait =>
    simp only [hpoint] at hnext
    by_cases hsem : s.sem = .inThread
    · rw [if_pos hsem] at hnext
      exact Option.some.inj hnext ▸ .spin hpoint hsem
    · rw [if_neg hsem] at hnext
      exact Option.some.inj hnext ▸ .goOn hpoint (Turn.eq_inMain hsem)
  | loop =>
    simp only [hpoint] at hnext
    cases hnext
    by_cases hgo : s.i ≠ 10 ∧ s.sem = .inMain
    · rw [if_pos hgo]
      exact .toKill hpoint hgo.1 hgo.2
    · rw [if_neg hgo]
      refine .toJoin hpoint (or_iff_not_imp_right.mpr fun hsem ↦ ?_)
      exact by_contra fun hi ↦ hgo ⟨hi, Turn.eq_inMain hsem⟩
  | kill =>
    simp only [hpoint] at hnext
    cases hkill : c.pthreadKill s.i with
    | true =>
      rw [hkill] at hnext
      exact Option.some.inj hnext ▸ .kill hpoint hkill
    | false =>
      rw [hkill] at hnext
      exact Option.some.inj hnext ▸ .killFails hpoint hkill
  | join =>
    simp only [hpoint, Option.ite_none_right_eq_some] at hnext
    obtain ⟨hexited, hnext⟩ := hnext
    cases hnext
    cases hjoin : c.pthreadJoin with
    | true => exact .join hpoint hexited hjoin
    | false => exact .joinFails hpoint hexited hjoin
  | check =>
    rw [hpoint] at hnext
    exact Option.some.inj hnext ▸ .check hpoint
  | returned code => simp [hpoint] at hnext

/-- The test passes without `EINTR` only if `sem` is set and no handler has run. -/
theorem errnoEintr_of_verdict (hpass : verdict s = ptsPass) :
    s.errnoEintr = true ∨ (s.sem = .inMain ∧ s.inHandler = false) := by
  unfold verdict at hpass
  split_ifs at hpass with herrno hsem hhandler
  · exact .inl herrno
  · exact absurd hpass ptsFail_ne_ptsPass
  · exact absurd hpass ptsUnresolved_ne_ptsPass
  · exact .inr ⟨Turn.eq_inMain hsem, by simpa using hhandler⟩

/-- A thread that has exited with `sem` set and without a run of the handler has seen another error
than `EINTR`. -/
theorem ThreadOk.firstFailure (h : ThreadOk c s) (hexited : s.thread = .exited)
    (hsem : s.sem = .inMain) (hhandler : s.inHandler = false) : c.FirstFailure .error := by
  unfold ThreadOk at h
  rw [hexited] at h
  rcases h with ⟨-, hturn, -⟩ | ⟨-, -, hran, -⟩ | ⟨-, -, -, hfirst⟩ | ⟨-, hturn, -⟩
  · exact absurd (hturn.symm.trans hsem) (by simp)
  · exact absurd (hran.symm.trans hhandler) (by simp)
  · exact hfirst
  · exact absurd (hturn.symm.trans hsem) (by simp)

/-- Assumes: the thread exists. A set `sem` says that it has handed over. -/
theorem ThreadOk.handedOver (h : ThreadOk c s) (hsem : s.sem = .inMain) : HandedOver c s := by
  refine ⟨?_, .inl hsem⟩
  unfold ThreadOk at h
  cases hpoint : s.thread <;> simp only [hpoint] at h
  case unborn | sigaction | mqOpen =>
    exact absurd (h.1.symm.trans hsem) (by simp)
  case setInMain | send | unlink | setEintr | setInThread =>
    exact h.1
  case exited =>
    rcases h with ⟨-, hturn, -⟩ | hrest | hrest | hrest
    · exact absurd (hturn.symm.trans hsem) (by simp)
    · exact hrest.1
    · exact hrest.1
    · exact hrest.1

theorem Inv.main_step (h : Inv c s) (hstep : MainStep c s s') : Inv c s' := by
  obtain ⟨hthread, hmain⟩ := h
  unfold MainOk at hmain
  cases hstep with
  | create hpoint hcreate =>
    rw [hpoint] at hmain
    have hold : s.sem = .inThread ∧ s.errnoEintr = false := by
      unfold ThreadOk at hthread
      rw [hmain.1] at hthread
      exact hthread
    exact ⟨hold, by simp, hmain.2⟩
  | createFails | killFails | joinFails =>
    exact ⟨hthread, fun hpass ↦ absurd hpass ptsUnresolved_ne_ptsPass⟩
  | spin hpoint hsem => exact ⟨hthread, by unfold MainOk; rw [hpoint] at hmain ⊢; exact hmain⟩
  | goOn hpoint hsem =>
    rw [hpoint] at hmain
    have hzero : c.Kills s.i := fun j hj ↦ absurd (hmain.2 ▸ hj) (Nat.not_lt_zero j)
    exact ⟨hthread, hmain.1, hthread.handedOver hsem, by simp [hmain.2], hzero⟩
  | toKill hpoint hi hsem =>
    rw [hpoint] at hmain
    obtain ⟨hborn, hover, hle, hkills⟩ := hmain
    exact ⟨hthread, hborn, hover, by simp; omega, hkills⟩
  | toJoin hpoint hend =>
    rw [hpoint] at hmain
    obtain ⟨hborn, hover, hle, hkills⟩ := hmain
    refine ⟨hthread, hborn, ?_⟩
    rcases hend with hi | hsem
    · exact .inl (hi ▸ hkills)
    · exact .inr (hover.2.resolve_left (by simp [hsem]))
  | kill hpoint hkill =>
    rw [hpoint] at hmain
    obtain ⟨hborn, hover, hlt, hkills⟩ := hmain
    refine ⟨hthread, hborn, hover, hlt, fun j hj ↦ ?_⟩
    rcases Nat.lt_succ_iff_lt_or_eq.mp hj with hj | rfl
    · exact hkills j hj
    · exact hkill
  | join hpoint hexited hjoin =>
    rw [hpoint] at hmain
    exact ⟨hthread, hexited, hjoin, hmain.2⟩
  | check hpoint =>
    rw [hpoint] at hmain
    obtain ⟨hexited, hjoin, hkills⟩ := hmain
    refine ⟨hthread, fun hpass ↦ ?_⟩
    rcases errnoEintr_of_verdict hpass with herrno | ⟨hsem, hhandler⟩
    · exact .inl herrno
    · have hfirst := hthread.firstFailure hexited hsem hhandler
      exact .inr ⟨hfirst, hkills.resolve_right (hfirst.not_neverBlocks (by simp)), hjoin⟩

/-- Assumes: a reachable state. The invariant holds. -/
theorem inv_of_reachable (h : (program c).Reachable s) : Inv c s := by
  refine h.invariant (fun s hs ↦ hs ▸ inv_start) fun s who s' _ hinv hnext ↦ ?_
  cases who with
  | main => exact hinv.main_step (mainStep_of_main hnext)
  | thread =>
    obtain ⟨hended, hnext⟩ : s.ended = false ∧ aThreadFunc c s = some s' := by
      simpa [program, next] using hnext
    have hstep := threadStep_of_aThreadFunc hnext
    exact ⟨hstep.threadOk hinv.thread, hstep.mainOk hinv hended⟩
  | handler =>
    obtain ⟨-, -, rfl⟩ : s.ended = false ∧ (s.thread.alive = true ∧ s.pending = true) ∧
        { s with inHandler := true, pending := false } = s' := by
      simpa [program, next, justreturnHandler] using hnext
    exact hinv.handler

end OpenPosix.MessageQueues.TimedSend

import OpenPosix.CondVars.KillAllModel

/-!
# Which exits of `pthread_cond_broadcast/2-3.c` clean up

The process ends by `UNRESOLVED_KILLALL` in `main`, after a call that fails, or by `FAILED_KILLALL`
in the timeout thread. `cleansUp_iff` says at which of these exits `SIGKILL` has gone to every child
that is there and to no other process: always after a failing lock, unlock, broadcast or creation of
the timeout thread, and after a failing `fork` if that was the first one. Otherwise the schedule of
the two loops decides: the timeout thread must have sent each signal before `main` reaps the child,
and it must have looked at the child that `main` waits for before `main` decremented the counter.
-/

namespace OpenPosix.CondVars.KillAll

open Interleaving

variable {nchildren : ℕ} {s s' : State} {move : Move}

/-! ### The exits -/

variable {point : MacroPoint}

/-- A process that has ended stands at the exit of a macro. -/
structure Ended (s : State) : Prop where
  unresolved : ∀ call, s.exit = some (.unresolved call) →
    ∃ nch, s.main = .killAll call (.leave nch)
  failed : s.exit = some .failed → ∃ nch, s.timer = .killAll (.leave nch)

theorem Ended.of_none (h : s.exit = none) : Ended s := by
  constructor
  · intro call hexit
    rw [h] at hexit
    cases hexit
  · intro hexit
    rw [h] at hexit
    cases hexit

theorem Ended.killAllMain {call : Call} (h : s.exit = none) (hmain : s.main = .killAll call point) :
    Ended (killAll (.unresolved call) (fun s point ↦ s.setMain (.killAll call point)) s point) := by
  cases point with
  | test | kill => exact .of_none h
  | leave nch =>
    constructor
    · intro other hexit
      cases hexit
      exact ⟨nch, hmain⟩
    · intro hexit
      cases hexit

theorem Ended.killAllTimer (h : s.exit = none) (htimer : s.timer = .killAll point) :
    Ended (killAll .failed (fun s point ↦ s.setTimer (.killAll point)) s point) := by
  cases point with
  | test | kill => exact .of_none h
  | leave nch =>
    constructor
    · intro other hexit
      cases hexit
    · exact fun _ ↦ ⟨nch, htimer⟩

theorem Ended.next_main (h : s.exit = none) (hnext : main nchildren s = some s') : Ended s' := by
  unfold main at hnext
  split at hnext
  case h_1 =>
    cases hnext
    split <;> exact .of_none h
  case h_10 =>
    split_ifs at hnext
    cases hnext
    exact .of_none h
  case h_13 =>
    split at hnext <;> cases hnext
    exact .of_none h
  case h_14 => cases hnext
  case h_15 call point hmain =>
    cases hnext
    exact .killAllMain h hmain
  all_goals
    cases hnext
    exact .of_none h

theorem Ended.next_fail (h : s.exit = none) (hnext : fail nchildren s = some s') : Ended s' := by
  unfold fail at hnext
  split at hnext
  case h_1 =>
    split_ifs at hnext
    cases hnext
    exact .of_none h
  case h_8 => cases hnext
  all_goals
    cases hnext
    exact .of_none h

theorem Ended.next_timer (h : s.exit = none) (hnext : timer s = some s') : Ended s' := by
  unfold timer at hnext
  split at hnext
  case h_1 | h_4 => cases hnext
  case h_2 =>
    cases hnext
    exact .of_none h
  case h_3 point htimer =>
    cases hnext
    exact .killAllTimer h htimer

theorem Ended.next_cancelled (h : s.exit = none) (hnext : cancelled s = some s') : Ended s' := by
  unfold cancelled at hnext
  split_ifs at hnext
  split at hnext
  case h_3 => cases hnext
  all_goals
    cases hnext
    exact .of_none h

theorem Ended.next (hnext : KillAll.next nchildren s move = some s') : Ended s' := by
  obtain ⟨h, hnext⟩ := Option.ite_none_right_eq_some.mp hnext
  cases move with
  | main => exact .next_main h hnext
  | fail => exact .next_fail h hnext
  | timer => exact .next_timer h hnext
  | cancelled => exact .next_cancelled h hnext
  | count k | ends k =>
    obtain ⟨-, ⟨⟩⟩ := Option.ite_none_right_eq_some.mp hnext
    exact .of_none h

theorem ended_of_reachable (hs : (program nchildren).Reachable s) : Ended s := by
  refine hs.invariant (fun s hinit ↦ ?_) fun s move s' _ _ hnext ↦ .next hnext
  rw [hinit]
  exact .of_none rfl

/-- A signal found its child reaped: its identifier was no process of the test any more. -/
def State.Stale (s : State) : Prop := ∃ i, (i, ChildPoint.reaped) ∈ s.kills

/-! ### The loop of `timer` in the schedule -/

variable {trace : List (State × Move)} {i : ℕ}

/-- `waitpid` has returned for the child, in the join loop of `main`. -/
def State.Past (s : State) (i : ℕ) : Prop := s.nb < i ∨ s.nb = i ∧ s.main = .waited

/-- `timer` sends every signal before `main` has got past the child. -/
def InTime (trace : List (State × Move)) : Prop :=
  ∀ step ∈ trace, ∀ i, step.2 = .timer → step.1.timer = .killAll (.kill i) → ¬ step.1.Past i

/-- `timer` has looked at the child before `main` decremented the counter to its index, and has made
the step after that. -/
def Overtakes (trace : List (State × Move)) (s : State) (i : ℕ) : Prop :=
  (∃ step ∈ trace, step.2 = .timer ∧ step.1.timer = .killAll (.test i) ∧ i < step.1.nb) ∧
    s.timer ≠ .killAll (.kill i)

/-- When an exit cleans up. After a failing `fork` the decrement drops the last child that was
created. After a failing `waitpid`, and for `timer` while `main` waits, the child that is waited for
is above the counter: it gets a signal only if `timer` has overtaken `main`. -/
def Clean (trace : List (State × Move)) (s : State) : Exit → Prop
  | .unresolved .fork => s.child 0 = .unborn
  | .unresolved .waitpid | .failed =>
    InTime trace ∧ (s.main.uncounted = 1 → 0 ≤ s.nb → Overtakes trace s s.nb.toNat)
  | .unresolved _ => True

/-- A step that is none of `timer`: its loop stays where it is, and no signal goes to a reaped
child. -/
structure Aside (s s' : State) : Prop where
  sent : s'.timer.sent = s.timer.sent
  kill : ∀ i, s'.timer = .killAll (.kill i) ↔ s.timer = .killAll (.kill i)
  stale : s'.Stale ↔ s.Stale

theorem Aside.of_eq (htimer : s'.timer = s.timer) (hkills : s'.kills = s.kills) : Aside s s' where
  sent := by rw [htimer]
  kill i := by rw [htimer]
  stale := by rw [State.Stale, hkills, State.Stale]

theorem Inv.aside_main (h : Inv s) (hnext : KillAll.main nchildren s = some s') : Aside s s' := by
  unfold KillAll.main at hnext
  split at hnext
  case h_1 =>
    cases hnext
    split <;> exact .of_eq rfl rfl
  case h_5 hmain =>
    cases hnext
    have habsent := h.alone (by rw [hmain]; rfl)
    exact ⟨by rw [habsent]; rfl, fun i ↦ by simp [State.setTimer, State.setMain, habsent], .rfl⟩
  case h_10 =>
    split_ifs at hnext
    cases hnext
    exact .of_eq rfl rfl
  case h_13 =>
    split at hnext <;> cases hnext
    exact .of_eq rfl rfl
  case h_14 => cases hnext
  case h_15 call point hmain =>
    cases hnext
    have hfits := h.main
    rw [hmain] at hfits
    cases point with
    | test | leave => exact .of_eq rfl rfl
    | kill nch =>
      have hlive := ChildPoint.ne_reaped_of_live (h.live_of_lt hfits)
      refine ⟨rfl, fun _ ↦ .rfl, ?_⟩
      simp [State.Stale, killAll, State.setMain, hlive.symm]
  all_goals
    cases hnext
    exact .of_eq rfl rfl

theorem aside_fail (hnext : fail nchildren s = some s') : Aside s s' := by
  unfold fail at hnext
  split at hnext
  case h_1 =>
    split_ifs at hnext
    cases hnext
    exact .of_eq rfl rfl
  case h_8 => cases hnext
  all_goals
    cases hnext
    exact .of_eq rfl rfl

theorem aside_cancelled (hnext : cancelled s = some s') : Aside s s' := by
  obtain ⟨-, hnext⟩ := Option.ite_none_right_eq_some.mp hnext
  split at hnext
  case h_3 => cases hnext
  all_goals
    rename_i htimer
    cases hnext
    exact ⟨by rw [htimer]; rfl, fun i ↦ by simp [State.setTimer, htimer], .rfl⟩

/-- A step of `timer` tests the counter, or sends a signal. -/
theorem timer_spec (hnext : timer s = some s') :
    (∀ i, i < s'.timer.sent ∨ s'.timer = .killAll (.kill i) ↔
      (i < s.timer.sent ∨ s.timer = .killAll (.kill i)) ∨
        s.timer = .killAll (.test i) ∧ i < s.nb) ∧
      (s'.Stale ↔ s.Stale ∨ ∃ i, s.timer = .killAll (.kill i) ∧ s.child i = .reaped) := by
  unfold timer at hnext
  split at hnext
  case h_1 | h_4 => cases hnext
  case h_2 htimer =>
    cases hnext
    simp [htimer, State.setTimer, TimerPoint.sent, MacroPoint.nch, State.Stale]
  case h_3 point htimer =>
    cases hnext
    cases point with
    | test nch =>
      refine ⟨fun i ↦ ?_, by simp [State.Stale, htimer, killAll, State.setTimer]⟩
      simp only [killAll, State.setTimer, htimer]
      split_ifs with hlt
      all_goals
        simp [TimerPoint.sent, MacroPoint.nch]
        omega
    | kill nch =>
      refine ⟨fun i ↦ ?_, ?_⟩
      · simp [killAll, State.setTimer, htimer, TimerPoint.sent, MacroPoint.nch]
        omega
      · simp [killAll, State.setTimer, htimer, State.Stale, exists_or, eq_comm, or_comm]
    | leave nch => simp [killAll, htimer, State.Stale]

theorem next_cases (h : Inv s) (hnext : KillAll.next nchildren s move = some s') :
    move = .timer ∧ timer s = some s' ∨ move ≠ .timer ∧ Aside s s' := by
  obtain ⟨-, hnext⟩ := Option.ite_none_right_eq_some.mp hnext
  cases move with
  | main => exact .inr ⟨by simp, h.aside_main hnext⟩
  | fail => exact .inr ⟨by simp, aside_fail hnext⟩
  | timer => exact .inl ⟨rfl, hnext⟩
  | cancelled => exact .inr ⟨by simp, aside_cancelled hnext⟩
  | count k | ends k =>
    obtain ⟨-, ⟨⟩⟩ := Option.ite_none_right_eq_some.mp hnext
    exact .inr ⟨by simp, .of_eq rfl rfl⟩

theorem exists_mem_snoc_iff {P : State × Move → Prop} {step : State × Move} :
    (∃ other ∈ trace ++ [step], P other) ↔ (∃ other ∈ trace, P other) ∨ P step := by
  simp only [List.mem_append, List.mem_singleton, or_and_right, exists_or, exists_eq_left]

/-- The children that `timer` has gone through, or is about to send a signal to, are those that it
has found below the counter. -/
theorem tested_iff (hrun : (program nchildren).Exec trace s) (i : ℕ) :
    (∃ step ∈ trace, step.2 = .timer ∧ step.1.timer = .killAll (.test i) ∧ i < step.1.nb) ↔
      i < s.timer.sent ∨ s.timer = .killAll (.kill i) := by
  induction hrun with
  | start hinitial =>
    obtain rfl := hinitial
    simp [start, TimerPoint.sent]
  | step hbefore hnext ih =>
    rw [exists_mem_snoc_iff, ih]
    obtain ⟨rfl, htimer⟩ | ⟨hmove, haside⟩ := next_cases (inv_of_reachable ⟨_, hbefore⟩) hnext
    · rw [(timer_spec htimer).1 i]
      simp
    · rw [haside.sent, haside.kill]
      exact or_iff_left fun hstep ↦ hmove hstep.1

theorem MainPoint.uncounted_cases (point : MainPoint) :
    point.uncounted = 1 ∨ point.uncounted = 0 ∧ (point.early = true ∨ point = .waited) := by
  cases point with
  | killAll call => cases call <;> simp [MainPoint.uncounted, MainPoint.early]
  | _ => decide

/-- A child that `timer` is about to send a signal to. -/
theorem Inv.reaped_iff (h : Inv s) (htimer : s.timer = .killAll (.kill i)) :
    s.child i = .reaped ↔ s.Past i := by
  have hborn : s.child i ≠ .unborn := by
    have hfits := h.timer
    rwa [htimer] at hfits
  have hlive := h.live i
  rw [ChildPoint.live_iff] at hlive
  unfold State.Past
  obtain hone | ⟨hzero, hearly | hwaited⟩ := s.main.uncounted_cases
  · have hne : s.main ≠ .waited := by
      intro hwaited
      simp [hwaited, MainPoint.uncounted] at hone
    grind
  · have hreaped := (h.early hearly).1 i
    grind
  · grind

/-- A signal of `timer` has found its child reaped if it was not in time. -/
theorem not_stale_iff (hrun : (program nchildren).Exec trace s) : ¬ s.Stale ↔ InTime trace := by
  have hlate : s.Stale ↔ ∃ step ∈ trace, ∃ i, step.2 = .timer ∧
      step.1.timer = .killAll (.kill i) ∧ step.1.Past i := by
    induction hrun with
    | start hinitial =>
      obtain rfl := hinitial
      simp [State.Stale, start]
    | step hbefore hnext ih =>
      have hinv := inv_of_reachable ⟨_, hbefore⟩
      rw [exists_mem_snoc_iff, ← ih]
      obtain ⟨rfl, htimer⟩ | ⟨hmove, haside⟩ := next_cases hinv hnext
      · rw [(timer_spec htimer).2]
        refine or_congr_right (exists_congr fun i ↦ ?_)
        simpa using and_congr_right hinv.reaped_iff
      · rw [haside.stale]
        exact (or_iff_left fun hstep ↦ hmove hstep.choose_spec.1).symm
  simp only [hlate, InTime, not_exists, not_and]

theorem overtakes_iff (hrun : (program nchildren).Exec trace s) (i : ℕ) :
    Overtakes trace s i ↔ i < s.timer.sent := by
  rw [Overtakes, tested_iff hrun]
  constructor
  · rintro ⟨hsent | hkill, hnot⟩
    · exact hsent
    · exact absurd hkill hnot
  · intro hsent
    refine ⟨.inl hsent, fun hkill ↦ ?_⟩
    rw [hkill] at hsent
    exact absurd hsent (lt_irrefl i)

/-! ### Which exits clean up -/

/-- Every signal went to a child that was there, but for those to reaped children. -/
theorem Inv.kills_live_iff (h : Inv s) : (∀ kill ∈ s.kills, kill.2.live = true) ↔ ¬ s.Stale := by
  constructor
  · rintro hlive ⟨i, hi⟩
    exact absurd (hlive _ hi) Bool.false_ne_true
  · intro hstale kill hkill
    refine ChildPoint.live_iff.mpr ⟨h.born kill hkill, fun hreaped ↦ hstale ⟨kill.1, ?_⟩⟩
    rwa [← hreaped]

/-- The macro that has ended the process has gone through every child below the counter. -/
theorem Inv.nb_le_sent {exit : Exit} (h : Inv s) (hended : Ended s) (hexit : s.exit = some exit) :
    s.nb ≤ s.timer.sent ∨ s.nb ≤ s.main.sent := by
  cases exit with
  | unresolved call =>
    obtain ⟨nch, hmain⟩ := hended.unresolved call hexit
    have hfits := h.main
    rw [hmain] at hfits ⊢
    exact Or.inr hfits.2
  | failed =>
    obtain ⟨nch, htimer⟩ := hended.failed hexit
    have hfits := h.timer
    rw [htimer] at hfits ⊢
    exact Or.inl hfits

/-- `main` never sends a signal beyond the counter. -/
theorem Inv.sent_main_le (h : Inv s) : s.main.sent = 0 ∨ (s.main.sent : ℤ) ≤ s.nb := by
  have hfits := h.main
  cases hmain : s.main with
  | killAll call point =>
    rw [hmain] at hfits
    cases point with
    | test nch => exact hfits
    | kill nch => exact Or.inr (Int.le_of_lt hfits)
    | leave nch => exact hfits.1
  | _ => exact Or.inl rfl

/-- At an exit the children that are there have got a signal, but for the one that the counter does
not count. -/
theorem Inv.live_killed_iff {exit : Exit} (h : Inv s) (hended : Ended s)
    (hexit : s.exit = some exit) :
    (∀ i, (s.child i).live = true → ∃ point, (i, point) ∈ s.kills) ↔
      (s.main.uncounted = 1 → s.nb < s.timer.sent) := by
  have hpassed := h.nb_le_sent hended hexit
  have hmain := h.sent_main_le
  have huncounted : s.main.uncounted = 0 ∨ s.main.uncounted = 1 := by
    unfold MainPoint.uncounted
    split <;> simp
  constructor
  · intro hkilled hone
    by_contra hge
    have hlive : (s.child s.nb.toNat).live = true := by
      rw [h.live, hone]
      omega
    have hsent := (h.sent _).mp (hkilled _ hlive)
    omega
  · intro hcounted i hlive
    rw [h.live] at hlive
    rw [h.sent]
    rcases huncounted with hzero | hone
    · rw [hzero] at hlive
      omega
    · have hlt := hcounted hone
      omega

theorem Inv.not_stale (h : Inv s) (hearly : s.main.early = true) : ¬ s.Stale := by
  rintro ⟨i, hi⟩
  exact (h.early hearly).2 _ hi rfl

/-- While `main` is after a failing `fork`, the counter is below every signal if no child was
created. -/
theorem Inv.unborn_iff (h : Inv s) (hmain : s.main = .killAll .fork point) :
    s.child 0 = .unborn ↔ s.nb < s.timer.sent := by
  have hlive := h.live 0
  have hreaped := (h.early (by rw [hmain]; rfl)).1 0
  rw [h.alone (by rw [hmain]; rfl)]
  rw [hmain, ChildPoint.live_iff] at hlive
  change _ ↔ s.nb < 0
  change _ ↔ 0 < s.nb + 1 at hlive
  constructor
  · intro hunborn
    have : ¬ (0 < s.nb + 1) := fun hpos ↦ (hlive.mpr hpos).1 hunborn
    omega
  · intro hneg
    by_contra hborn
    have := hlive.mp ⟨hborn, hreaped⟩
    omega

/-- The exits by `UNRESOLVED_KILLALL` and `FAILED_KILLALL`, for every number of children, every
failing call and every interleaving: the signals go to the children that are there and to no other
process exactly where `Clean` says. -/
theorem cleansUp_iff {exit : Exit} (hrun : (program nchildren).Exec trace s)
    (hexit : s.exit = some exit) : s.CleansUp ↔ Clean trace s exit := by
  have h := inv_of_reachable ⟨trace, hrun⟩
  have hended := ended_of_reachable ⟨trace, hrun⟩
  rw [State.CleansUp, h.kills_live_iff, h.live_killed_iff hended hexit]
  -- the child that is waited for, at the exits that the schedule decides
  have hawaited : (s.main.uncounted = 1 → s.nb < s.timer.sent) ↔
      (s.main.uncounted = 1 → 0 ≤ s.nb → Overtakes trace s s.nb.toNat) := by
    rw [overtakes_iff hrun]
    refine imp_congr_right fun _ ↦ ?_
    omega
  cases exit with
  | failed => rw [not_stale_iff hrun, hawaited, and_comm, Clean]
  | unresolved call =>
    obtain ⟨nch, hmain⟩ := hended.unresolved call hexit
    cases call with
    | fork =>
      have hstale := h.not_stale (by rw [hmain]; rfl)
      change _ ↔ s.child 0 = .unborn
      rw [h.unborn_iff hmain, hmain]
      exact ⟨fun hclean ↦ hclean.1 rfl, fun hlt ↦ ⟨fun _ ↦ hlt, hstale⟩⟩
    | waitpid => rw [not_stale_iff hrun, hawaited, and_comm, Clean]
    | lock | unlock | createTimer | broadcast =>
      have hstale := h.not_stale (by rw [hmain]; rfl)
      change _ ↔ True
      rw [hmain, iff_true]
      exact ⟨fun hone ↦ absurd hone Int.zero_ne_one, hstale⟩

/-- The timeout is over before `main` starts to join its two children: `timer` has sent its signals
when `main` decrements the counter and waits for the second child. -/
def overtaken : List Move :=
  List.flatten [.replicate 4 .main, [.count 0, .count 1], .replicate 4 .main, .replicate 5 .timer,
    .replicate 2 .main, .replicate 2 .timer]

theorem cleansUp_overtaken : ∃ trace s, (program 2).Exec trace s ∧ s.exit = some .failed ∧
    s.main = .waitpid ∧ s.kills = [(1, .counted), (0, .counted)] ∧ s.CleansUp := by
  obtain ⟨s, ⟨trace, hrun⟩, hexit, hmain, hnb, htimer, hkills⟩ : ∃ s, (program 2).Reachable s ∧
      s.exit = some .failed ∧ s.main = .waitpid ∧ s.nb = 1 ∧ s.timer = .killAll (.leave 2) ∧
        s.kills = [(1, .counted), (0, .counted)] :=
    System.exists_reachable overtaken rfl (by decide +kernel)
  have hinTime : InTime trace := (not_stale_iff hrun).mp (by simp [State.Stale, hkills])
  have hovertakes : Overtakes trace s s.nb.toNat := by
    rw [overtakes_iff hrun, hnb, htimer]
    decide
  exact ⟨trace, s, hrun, hexit, hmain, hkills,
    (cleansUp_iff hrun hexit).mpr ⟨hinTime, fun _ _ ↦ hovertakes⟩⟩

def forkFails : List Move :=
  List.flatten [[.main, .fail], .replicate 2 .main]

/-- `main` waits for its only child, and the timeout is over. -/
def timesOut : List Move :=
  List.flatten [.replicate 3 .main, [.count 0], .replicate 6 .main, .replicate 3 .timer]

/-- A state in which the first child is there and has got no signal. -/
theorem not_cleansUp (hlive : (s.child 0).live = true) (hkills : s.kills = []) : ¬ s.CleansUp := by
  intro hclean
  obtain ⟨point, hmem⟩ := hclean.1 0 hlive
  rw [hkills] at hmem
  exact absurd hmem List.not_mem_nil

/-- No signal is sent where the second `fork` fails, and none where the timeout is over while the
only child is waited for. -/
theorem child_survives :
    (∃ s, (program 2).Reachable s ∧ s.exit = some (.unresolved .fork) ∧ ¬ s.CleansUp) ∧
      ∃ s, (program 1).Reachable s ∧ s.exit = some .failed ∧ ¬ s.CleansUp := by
  constructor
  · obtain ⟨s, hreach, hexit, hlive, hkills⟩ : ∃ s, (program 2).Reachable s ∧
        s.exit = some (.unresolved .fork) ∧ (s.child 0).live = true ∧ s.kills = [] :=
      System.exists_reachable forkFails rfl (by decide +kernel)
    exact ⟨s, hreach, hexit, not_cleansUp hlive hkills⟩
  · obtain ⟨s, hreach, hexit, hlive, hkills⟩ : ∃ s, (program 1).Reachable s ∧
        s.exit = some .failed ∧ (s.child 0).live = true ∧ s.kills = [] :=
      System.exists_reachable timesOut rfl (by decide +kernel)
    exact ⟨s, hreach, hexit, not_cleansUp hlive hkills⟩

end OpenPosix.CondVars.KillAll

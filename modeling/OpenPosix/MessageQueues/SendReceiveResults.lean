import OpenPosix.MessageQueues.SendReceiveModel

/-!
# What the senders and receivers have transferred

What a run transfers is computed from its steps: `outcome` is the call that a step makes, and
`transfers` are the messages of the calls of one thread that succeeded. The place of a thread in its
code says how many these are (`Progress`), and a thread that has exited has all of them exactly if
none of its calls has failed. `transfers_iff` says so for the runs that pass.
-/

namespace OpenPosix.MessageQueues.SendReceive

open Interleaving Verdicts Function

variable {layout : Layout} {maxMsg : ℕ} {mqOpen : ℕ → Bool} {s s' : State layout}

attribute [simp] State.goto

/-! ### What a run transfers -/

/-- The call of `mq_send` or `mq_receive` that a step makes, if it makes one: the thread, and the
message that it transfers if it succeeds. -/
def outcome (maxMsg : ℕ) (step : State layout × Thread layout.pairs) :
    Option (Worker layout.pairs × Option Message) :=
  match step.2 with
  | .main => none
  | .worker w =>
    match step.1.workers w with
    | .loop i =>
      if i < maxMsg then some (w, (call maxMsg w.role i (step.1.queue w)).map Prod.fst) else none
    | _ => none

def outcomes (maxMsg : ℕ) (trace : List (State layout × Thread layout.pairs)) :
    List (Worker layout.pairs × Option Message) :=
  trace.filterMap (outcome maxMsg)

/-- The messages that a thread has put into its queue or taken from it. -/
def transfers (maxMsg : ℕ) (trace : List (State layout × Thread layout.pairs))
    (w : Worker layout.pairs) : List Message :=
  (outcomes maxMsg trace).filterMap fun result ↦ if result.1 = w then result.2 else none

/-- A step that calls `mq_send` when the queue is full or `mq_receive` when it is empty. -/
def Refused (maxMsg : ℕ) (step : State layout × Thread layout.pairs) : Prop :=
  ∃ w i, step.2 = .worker w ∧ step.1.workers w = .loop i ∧ i < maxMsg ∧
    match w.role with
    | .send => maxMsg ≤ (step.1.queue w).length
    | .receive => step.1.queue w = []

theorem call_eq_none_iff (maxMsg : ℕ) (role : Role) (i : ℕ) (mq : List Message) :
    call maxMsg role i mq = none ↔ match role with
      | .send => maxMsg ≤ mq.length
      | .receive => mq = [] := by
  cases role with
  | send => simp [call, mqSend]
  | receive => cases mq <;> simp [call, mqReceive]

/-- A sender transfers the message of its round. -/
theorem message_of_call {i : ℕ} {mq mq' : List Message} {m : Message}
    (h : call maxMsg .send i mq = some (m, mq')) : m = message i := by
  simp only [call, Option.map_eq_some_iff, Prod.mk.injEq] at h
  obtain ⟨_, -, rfl, -⟩ := h
  rfl

/-- The calls that fail are those on a full or an empty queue. -/
theorem refused_iff {step : State layout × Thread layout.pairs} :
    Refused maxMsg step ↔ ∃ w, outcome maxMsg step = some (w, none) := by
  obtain ⟨state, thread⟩ := step
  constructor
  · rintro ⟨w, i, rfl, hpoint, hlt, hqueue⟩
    dsimp only at hpoint hqueue
    refine ⟨w, ?_⟩
    simp [outcome, hpoint, hlt, (call_eq_none_iff maxMsg w.role i _).mpr hqueue]
  · rintro ⟨w, hout⟩
    cases thread with
    | main => simp [outcome] at hout
    | worker w' =>
      cases hpoint : state.workers w' with
      | unborn | exited status => simp [outcome, hpoint] at hout
      | loop i =>
        simp only [outcome, hpoint, Option.ite_none_right_eq_some, Option.some.injEq,
          Prod.mk.injEq, Option.map_eq_none_iff] at hout
        obtain ⟨hlt, -, hcall⟩ := hout
        exact ⟨w', i, rfl, hpoint, hlt, (call_eq_none_iff maxMsg w'.role i _).mp hcall⟩

/-- A run has a refused call if one of its calls has failed. -/
theorem refused_mem_iff {trace : List (State layout × Thread layout.pairs)} :
    (∃ step ∈ trace, Refused maxMsg step) ↔ ∃ w, (w, none) ∈ outcomes maxMsg trace := by
  simp only [refused_iff, outcomes, List.mem_filterMap]
  exact ⟨fun ⟨step, hmem, w, hout⟩ ↦ ⟨w, step, hmem, hout⟩,
    fun ⟨w, step, hmem, hout⟩ ↦ ⟨step, hmem, w, hout⟩⟩

@[simp] theorem outcomes_append_singleton (trace : List (State layout × Thread layout.pairs))
    (step : State layout × Thread layout.pairs) :
    outcomes maxMsg (trace ++ [step]) = outcomes maxMsg trace ++ (outcome maxMsg step).toList := by
  unfold outcomes
  cases hout : outcome maxMsg step <;> simp [hout]

theorem transfers_append_singleton (trace : List (State layout × Thread layout.pairs))
    (step : State layout × Thread layout.pairs) (w : Worker layout.pairs) :
    transfers maxMsg (trace ++ [step]) w = transfers maxMsg trace w ++
      (outcome maxMsg step).toList.filterMap fun result ↦
        if result.1 = w then result.2 else none := by
  unfold transfers
  rw [outcomes_append_singleton, List.filterMap_append]

/-! ### The progress of a thread -/

/-- The place of a thread in its code says how many messages it has transferred, and whether one of
its calls has failed. -/
structure Progress (maxMsg : ℕ) (trace : List (State layout × Thread layout.pairs))
    (w : Worker layout.pairs) (point : Point) : Prop where
  unborn : point = .unborn → transfers maxMsg trace w = []
  loop : ∀ i, point = .loop i → i ≤ maxMsg ∧ (transfers maxMsg trace w).length = i
  exited : point.hasExited →
    ((transfers maxMsg trace w).length = maxMsg ↔ (w, none) ∉ outcomes maxMsg trace)
  running : ¬ point.hasExited → (w, none) ∉ outcomes maxMsg trace
  sent : w.role = .send → transfers maxMsg trace w =
    (List.range (transfers maxMsg trace w).length).map message

/-- A step that makes no call of the thread changes nothing for it. -/
theorem Progress.of_outcome {trace : List (State layout × Thread layout.pairs)}
    {w : Worker layout.pairs} {point : Point} {step : State layout × Thread layout.pairs}
    (h : Progress maxMsg trace w point) (hout : ∀ result, outcome maxMsg step ≠ some (w, result)) :
    Progress maxMsg (trace ++ [step]) w point := by
  have hmem : (w, none) ∈ outcomes maxMsg (trace ++ [step]) ↔
      (w, none) ∈ outcomes maxMsg trace := by
    simp [hout none]
  have hsame : transfers maxMsg (trace ++ [step]) w = transfers maxMsg trace w := by
    rw [transfers_append_singleton]
    cases houtcome : outcome maxMsg step with
    | none => simp
    | some result =>
      have hother : result.1 ≠ w := fun heq ↦ hout result.2 (by rw [houtcome, ← heq])
      simp [hother]
  constructor
  · rw [hsame]; exact h.unborn
  · rw [hsame]; exact h.loop
  · rw [hsame, hmem]; exact h.exited
  · rw [hmem]; exact h.running
  · rw [hsame]; exact h.sent

section Steps

variable {trace : List (State layout × Thread layout.pairs)} {w : Worker layout.pairs} {i : ℕ}

theorem Progress.create (h : Progress maxMsg trace w .unborn) :
    Progress maxMsg trace w (.loop 0) where
  unborn := nofun
  loop := by
    rintro _ ⟨⟩
    exact ⟨Nat.zero_le _, by simp [h.unborn rfl]⟩
  exited := nofun
  running := fun _ ↦ h.running nofun
  sent := h.sent

/-- The thread has made all its calls. -/
theorem Progress.finish (h : Progress maxMsg trace w (.loop i)) (hend : ¬ i < maxMsg) :
    Progress maxMsg trace w (.exited 0) where
  unborn := nofun
  loop := nofun
  exited := fun _ ↦ by
    obtain ⟨hle, hlength⟩ := h.loop i rfl
    exact iff_of_true (by omega) (h.running nofun)
  running := fun hnot ↦ absurd rfl hnot
  sent := h.sent

/-- The call of the thread succeeds. -/
theorem Progress.transfer {m : Message} {mq : List Message} (h : Progress maxMsg trace w (.loop i))
    (hpoint : s.workers w = .loop i) (hlt : i < maxMsg)
    (hcall : call maxMsg w.role i (s.queue w) = some (m, mq)) :
    Progress maxMsg (trace ++ [(s, .worker w)]) w (.loop (i + 1)) := by
  have hout : outcome maxMsg (s, .worker w) = some (w, some m) := by
    simp [outcome, hpoint, hlt, hcall]
  have htransfers : transfers maxMsg (trace ++ [(s, .worker w)]) w =
      transfers maxMsg trace w ++ [m] := by
    simp [transfers_append_singleton, hout]
  obtain ⟨-, hlength⟩ := h.loop i rfl
  constructor
  · nofun
  · rintro _ ⟨⟩
    exact ⟨hlt, by simp [htransfers, hlength]⟩
  · nofun
  · intro _
    simpa [hout] using h.running nofun
  · intro hsend
    have hm : m = message i := message_of_call (hsend ▸ hcall)
    rw [htransfers, List.length_append, List.length_singleton, hlength, List.range_succ,
      List.map_append, List.map_singleton, hm, ← hlength, ← h.sent hsend]

/-- The call of the thread fails. -/
theorem Progress.refuse (h : Progress maxMsg trace w (.loop i)) (hpoint : s.workers w = .loop i)
    (hlt : i < maxMsg) (hcall : call maxMsg w.role i (s.queue w) = none) :
    Progress maxMsg (trace ++ [(s, .worker w)]) w (.exited 1) := by
  have hout : outcome maxMsg (s, .worker w) = some (w, none) := by
    simp [outcome, hpoint, hlt, hcall]
  have htransfers : transfers maxMsg (trace ++ [(s, .worker w)]) w = transfers maxMsg trace w := by
    simp [transfers_append_singleton, hout]
  obtain ⟨-, hlength⟩ := h.loop i rfl
  constructor
  · nofun
  · nofun
  · intro _
    exact iff_of_false (by rw [htransfers, hlength]; omega) (by simp [hout])
  · exact fun hnot ↦ absurd rfl hnot
  · rw [htransfers]
    exact h.sent

end Steps

/-! ### Runs -/

/-- Where `main` is says which threads exist and which have ended. -/
def MainOk (s : State layout) : Prop :=
  match s.main with
  | .opens _ => ∀ w, s.workers w = .unborn
  | .launch launcher => launcher.Covers (fun w ↦ s.workers w = .unborn) ∧
      ∀ w, w ∈ launcher.joins ∨ (s.workers w).hasExited
  | .returned code => code = ptsPass → ∀ w, (s.workers w).hasExited

structure Inv (maxMsg : ℕ) (trace : List (State layout × Thread layout.pairs)) (s : State layout) :
    Prop where
  progress : ∀ w, Progress maxMsg trace w (s.workers w)
  main : MainOk s

theorem inv_start : Inv maxMsg [] (start layout) where
  progress := fun w ↦ ⟨fun _ ↦ rfl, nofun, nofun, fun _ ↦ by simp [outcomes], fun _ ↦ rfl⟩
  main := fun _ ↦ rfl

theorem outcome_main (result : Option Message) (w : Worker layout.pairs) :
    outcome maxMsg (s, .main) ≠ some (w, result) := nofun

theorem outcome_worker_ne {w w' : Worker layout.pairs} (hne : w' ≠ w) (result : Option Message) :
    outcome maxMsg (s, .worker w) ≠ some (w', result) := by
  intro hout
  cases hpoint : s.workers w with
  | unborn | exited status => simp [outcome, hpoint] at hout
  | loop i =>
    simp only [outcome, hpoint, Option.ite_none_right_eq_some, Option.some.injEq,
      Prod.mk.injEq] at hout
    exact hne hout.2.1.symm

section Runs

variable {trace : List (State layout × Thread layout.pairs)} {w : Worker layout.pairs}

/-- A step of a thread in its loop. -/
theorem MainOk.move {i : ℕ} {point : Point} (h : MainOk s) (hpoint : s.workers w = .loop i)
    (hborn : point ≠ .unborn) (hworkers : s'.workers = update s.workers w point)
    (hmain : s'.main = s.main) : MainOk s' := by
  have hunborn : ∀ w', s'.workers w' = .unborn ↔ s.workers w' = .unborn := by
    intro w'
    rw [hworkers]
    by_cases heq : w' = w
    · subst heq
      simp [hborn, hpoint]
    · rw [update_of_ne heq]
  have hexited : ∀ w', (s.workers w').hasExited → (s'.workers w').hasExited := by
    intro w' hexited
    have hne : w' ≠ w := by
      rintro rfl
      simp [hpoint, Point.hasExited] at hexited
    rwa [hworkers, update_of_ne hne]
  unfold MainOk at h ⊢
  rw [hmain]
  cases hs : s.main <;> simp only [hs] at h
  case opens k =>
    exact absurd (h w) (by simp [hpoint])
  case launch launcher =>
    exact ⟨h.1.congr hunborn, fun w' ↦ (h.2 w').imp_right (hexited w')⟩
  case returned code =>
    exact fun hpass w' ↦ hexited w' (h hpass w')

theorem Inv.worker (h : Inv maxMsg trace s) (hnext : SendReceive.worker maxMsg s w = some s') :
    Inv maxMsg (trace ++ [(s, .worker w)]) s' := by
  -- Whatever the step is, only the thread that takes it moves.
  have hstep : ∃ i point, s.workers w = .loop i ∧ point ≠ .unborn ∧
      s'.workers = update s.workers w point ∧ s'.main = s.main ∧
      Progress maxMsg (trace ++ [(s, .worker w)]) w point := by
    unfold SendReceive.worker at hnext
    cases hpoint : s.workers w with
    | unborn | exited status => simp [hpoint] at hnext
    | loop i =>
      have hloop : Progress maxMsg trace w (.loop i) := hpoint ▸ h.progress w
      simp only [hpoint] at hnext
      split_ifs at hnext with hlt
      · cases hcall : call maxMsg w.role i (s.queue w) with
        | none =>
          rw [hcall] at hnext
          cases hnext
          exact ⟨i, .exited 1, rfl, nofun, rfl, rfl, hloop.refuse hpoint hlt hcall⟩
        | some result =>
          rw [hcall] at hnext
          cases hnext
          exact ⟨i, .loop (i + 1), rfl, nofun, rfl, rfl, hloop.transfer hpoint hlt hcall⟩
      · cases hnext
        have hout : ∀ result, outcome maxMsg (s, .worker w) ≠ some (w, result) := by
          simp [outcome, hpoint, hlt]
        exact ⟨i, .exited 0, rfl, nofun, rfl, rfl, (hloop.finish hlt).of_outcome hout⟩
  obtain ⟨i, point, hpoint, hborn, hworkers, hmain, hprogress⟩ := hstep
  refine ⟨fun w' ↦ ?_, h.main.move hpoint hborn hworkers hmain⟩
  rw [hworkers]
  by_cases heq : w' = w
  · subst heq
    rwa [update_self]
  · rw [update_of_ne heq]
    exact (h.progress w').of_outcome (outcome_worker_ne heq)

theorem Inv.main_step (h : Inv maxMsg trace s) (hnext : SendReceive.main mqOpen s = some s') :
    Inv maxMsg (trace ++ [(s, .main)]) s' := by
  have hprogress : ∀ w, Progress maxMsg (trace ++ [(s, .main)]) w (s.workers w) :=
    fun w ↦ (h.progress w).of_outcome fun result ↦ outcome_main result w
  have hmain := h.main
  unfold MainOk at hmain
  unfold SendReceive.main at hnext
  split at hnext
  next k hs =>
    rw [hs] at hmain
    split_ifs at hnext with hlt hopen
    · cases hnext
      exact ⟨hprogress, hmain⟩
    · cases hnext
      exact ⟨hprogress, fun hpass ↦ absurd hpass (by decide)⟩
    · cases hnext
      refine ⟨hprogress, ⟨fun w ↦ ?_, layout.nodup⟩, fun w ↦ .inl (layout.complete w)⟩
      exact iff_of_true (hmain w) (layout.complete w)
  next w creates joins hs =>
    rw [hs] at hmain
    obtain ⟨hcovers, hjoins⟩ := hmain
    have hunborn : s.workers w = .unborn := (hcovers.unborn_iff w).mpr (by simp)
    cases hnext
    refine ⟨fun w' ↦ ?_, ?_, fun w' ↦ ?_⟩
    · by_cases heq : w' = w
      · subst heq
        simpa using (hunborn ▸ hprogress w').create
      · simpa [heq] using hprogress w'
    · refine hcovers.create rfl (by simp) (fun other hother ↦ ?_) joins
      simp [hother]
    · refine (hjoins w').imp_right fun hexited ↦ ?_
      have hne : w' ≠ w := by
        rintro rfl
        simp [hunborn, Point.hasExited] at hexited
      simpa [hne] using hexited
  next w joins hs =>
    rw [hs] at hmain
    obtain ⟨hcovers, hjoins⟩ := hmain
    split_ifs at hnext with hexited
    cases hnext
    refine ⟨hprogress, hcovers.join rfl joins, fun w' ↦ ?_⟩
    rcases hjoins w' with hmem | hgone
    · rcases List.mem_cons.mp hmem with rfl | hrest
      · exact .inr hexited
      · exact .inl hrest
    · exact .inr hgone
  next hs =>
    rw [hs] at hmain
    cases hnext
    exact ⟨hprogress, fun _ w ↦ (hmain.2 w).resolve_left (by simp)⟩
  next => exact absurd hnext nofun

theorem inv_of_exec (h : (program layout maxMsg mqOpen).Exec trace s) : Inv maxMsg trace s := by
  induction h with
  | start hinitial =>
    obtain rfl := hinitial
    exact inv_start
  | @step trace state state' thread _ hnext ih =>
    cases thread with
    | main => exact ih.main_step hnext
    | worker w => exact ih.worker hnext

/-- Assumes: `main` has returned `PTS_PASS`. A thread has transferred all its messages exactly if
none of its calls has failed. -/
theorem length_transfers_iff (h : (program layout maxMsg mqOpen).Exec trace s)
    (hpass : s.main = .returned ptsPass) (w : Worker layout.pairs) :
    (transfers maxMsg trace w).length = maxMsg ↔ (w, none) ∉ outcomes maxMsg trace := by
  have hinv := inv_of_exec h
  have hmain := hinv.main
  unfold MainOk at hmain
  rw [hpass] at hmain
  exact (hinv.progress w).exited (hmain rfl w)

end Runs

/-- Assumes: a run of one of the programs, in which `main` has returned `PTS_PASS`. Every sender has
put all its messages into its queue and every receiver has received as many, exactly if no step of
the run has called `mq_send` on a full queue or `mq_receive` on an empty one. -/
theorem transfers_iff (test : Test) (maxMsg : ℕ) (mqOpen : ℕ → Bool)
    (trace : List (State test.layout × Thread test.layout.pairs)) (s : State test.layout)
    (h : (program test.layout maxMsg mqOpen).Exec trace s) (hpass : s.main = .returned ptsPass) :
    (∀ pair, transfers maxMsg trace ⟨.send, pair⟩ = (List.range maxMsg).map message ∧
      (transfers maxMsg trace ⟨.receive, pair⟩).length = maxMsg) ↔
    ∀ step ∈ trace, ¬ Refused maxMsg step := by
  have hlength := length_transfers_iff h hpass
  constructor
  · intro hall step hmem hrefused
    obtain ⟨⟨role, pair⟩, hfailed⟩ := refused_mem_iff.mp ⟨step, hmem, hrefused⟩
    refine (hlength ⟨role, pair⟩).mp ?_ hfailed
    cases role with
    | send => simp [(hall pair).1]
    | receive => exact (hall pair).2
  · intro hnone pair
    have hfull : ∀ w, (transfers maxMsg trace w).length = maxMsg := fun w ↦
      (hlength w).mpr fun hfailed ↦ by
        obtain ⟨step, hmem, hrefused⟩ := refused_mem_iff.mpr ⟨w, hfailed⟩
        exact hnone step hmem hrefused
    refine ⟨?_, hfull _⟩
    rw [((inv_of_exec h).progress ⟨.send, pair⟩).sent rfl, hfull]

/-- Each receiver of `send_rev_2.c` starts when its sender is done. -/
def inTurn : List (Thread sendRev2.pairs) :=
  List.flatten [.replicate 7 .main, (List.finRange 2).flatMap fun pair ↦
    .replicate 3 (.worker ⟨.send, pair⟩) ++ .replicate 3 (.worker ⟨.receive, pair⟩),
    .replicate 5 .main]

theorem transfers_inTurn : ∃ trace s, (program sendRev2 2 fun _ ↦ true).Exec trace s ∧
    s.main = .returned ptsPass ∧ ∀ pair, transfers 2 trace ⟨.send, pair⟩ = [message 0, message 1] ∧
      (transfers 2 trace ⟨.receive, pair⟩).length = 2 := by
  have hreplay : (program sendRev2 2 fun _ ↦ true).runSchedule (start _) inTurn = some _ := rfl
  have hrun := (System.Exec.start rfl).runSchedule hreplay
  refine ⟨_, _, hrun, rfl,
    (transfers_iff .sendRev2 2 _ _ _ hrun rfl).mpr fun step hmem hrefused ↦ ?_⟩
  obtain ⟨w, hfailed⟩ := refused_mem_iff.mp ⟨step, hmem, hrefused⟩
  have hsome : (outcomes 2 ([] ++ (program sendRev2 2 fun _ ↦ true).traceOf (start _) inTurn)).all
      (fun result ↦ result.2.isSome) = true := rfl
  exact absurd (List.all_eq_true.mp hsome _ hfailed) Bool.false_ne_true

/-- `multi_send_rev_2.c` with a single pair. -/
abbrev onePair : Test := .multiSendRev2 1

def only (role : Role) : Worker onePair.layout.pairs := ⟨role, Fin.last 0⟩

/-- The receiver looks into the queue before the sender has sent anything. -/
def tooEarly : List (Thread onePair.layout.pairs) :=
  List.flatten [.replicate 4 .main, [.worker (only .receive)],
    .replicate 6 (.worker (only .send)), .replicate 3 .main]

/-- The test passes although the receiver has received nothing. -/
theorem passes_without_receiving : ∃ trace s,
    (program onePair.layout 5 fun _ ↦ true).Exec trace s ∧
      s.main = .returned ptsPass ∧ transfers 5 trace (only .receive) = [] := by
  have hreplay : (program onePair.layout 5 fun _ ↦ true).runSchedule (start _) tooEarly = some _ :=
    rfl
  exact ⟨_, _, (System.Exec.start rfl).runSchedule hreplay, rfl, rfl⟩

end OpenPosix.MessageQueues.SendReceive

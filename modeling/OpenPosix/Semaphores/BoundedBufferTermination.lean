import Mathlib.Tactic.Ring
import OpenPosix.Semaphores.BoundedBufferInvariant

/-!
# Every run of the producers and consumers is finite

The steps of a run are counted by what the threads have done: a producer takes ten steps for every
item, a consumer ten steps for every item that it takes, and `main` one step for every creation and
every join (`Clock`). A producer puts at most `Max_Num` items and no more items are taken than put,
so the length of a run is bounded (`exec_length_le`).
-/

namespace OpenPosix.Semaphores.BoundedBuffer

open Interleaving Function

variable {bufSize num maxNum : ℕ} {s s' : State bufSize num} {ID : Fin num}
  {trace : List (State bufSize num × Thread num)}

/-! ### The progress of a thread -/

/-- The number of steps from the start of the body of `producer` to a point of it. -/
@[simp] def PutPoint.index : PutPoint → ℕ
  | .waitFull => 0
  | .getValue => 1
  | .waitLock => 2
  | .readIn => 3
  | .store => 4
  | .readInAgain => 5
  | .advance => 6
  | .postLock => 7
  | .postEmpty => 8

@[simp] def Producer.steps (p : Producer bufSize) : ℕ :=
  match p.point with
  | .unborn => 0
  | .loop => 10 * p.i
  | .put _ point => 10 * p.i + 1 + point.index
  | .exited => 10 * p.i + 10

@[simp] def Producer.puts (p : Producer bufSize) : ℕ :=
  match p.point with
  | .unborn => 0
  | .loop => p.i
  | .put _ point => if point.index ≤ 4 then p.i else p.i + 1
  | .exited => p.i + 1

/-- The round of a producer is one of its `Max_Num - 1` rounds or the last one. -/
@[simp] def Producer.InRounds (maxNum : ℕ) (p : Producer bufSize) : Prop :=
  match p.point with
  | .unborn => True
  | .put false _ => p.i < maxNum - 1
  | _ => p.i ≤ maxNum - 1

/-- The number of steps that a consumer has taken since its last load, and six before its first
one. -/
@[simp] def Consumer.steps (c : Consumer bufSize) : ℕ :=
  match c.point with
  | .unborn | .waitEmpty => 6
  | .waitLock => 7
  | .readOut => 8
  | .load => 9
  | .readOutAgain => 0
  | .advance => 1
  | .postLock => 2
  | .postFull => 3
  | .getValue => 4
  | .test => 5
  | .exited => 6

theorem Producer.steps_le {p : Producer bufSize} (h : p.InRounds maxNum) :
    p.steps ≤ 10 * (maxNum - 1 + 1) := by
  obtain ⟨point, i, data, fullValue, slot⟩ := p
  rcases point with - | - | ⟨last, point⟩ | -
  · exact Nat.zero_le _
  · simp only [Producer.InRounds] at h
    simp only [Producer.steps]
    omega
  · have hindex : point.index ≤ 8 := by cases point <;> simp
    have hround : i ≤ maxNum - 1 := by
      cases last with
      | false => exact le_of_lt h
      | true => exact h
    simp only [Producer.steps]
    omega
  · simp only [Producer.InRounds] at h
    simp only [Producer.steps]
    omega

theorem Producer.puts_le {p : Producer bufSize} (h : p.InRounds maxNum) :
    p.puts ≤ maxNum - 1 + 1 := by
  obtain ⟨point, i, data, fullValue, slot⟩ := p
  rcases point with - | - | ⟨last, point⟩ | -
  · exact Nat.zero_le _
  · simp only [Producer.InRounds] at h
    simp only [Producer.puts]
    omega
  · have hround : i ≤ maxNum - 1 := by
      cases last with
      | false => exact le_of_lt h
      | true => exact h
    simp only [Producer.puts]
    split <;> omega
  · simp only [Producer.InRounds] at h
    simp only [Producer.puts]
    omega

theorem Consumer.steps_le (c : Consumer bufSize) : c.steps ≤ 9 := by
  unfold Consumer.steps
  split <;> simp

section Steps

variable [NeZero bufSize]

theorem PutMove.progress (hm : PutMove maxNum s ID s') (hround : (s.pro ID).InRounds maxNum) :
    ∃ p, s'.pro = update s.pro ID p ∧ p.InRounds maxNum ∧ p.steps = (s.pro ID).steps + 1 ∧
      p.puts = (s.pro ID).puts + (stored (s, .producer ID)).toList.length := by
  unfold Producer.InRounds at hround
  cases hm with
  | walk hwalk =>
    refine ⟨_, rfl, ?_⟩
    cases hwalk with
    | loop hpoint =>
      simp only [hpoint] at hround
      refine ⟨?_, by simp [hpoint], by simp [stored, hpoint]⟩
      by_cases hlast : (s.pro ID).i < maxNum - 1
      · simp [hlast]
      · simpa [hlast] using hround
    | @getValue last value hpoint =>
      simp only [hpoint] at hround
      exact ⟨by cases last <;> exact hround, by simp [hpoint], by simp [stored, hpoint]⟩
  | @takeFull last value hpoint | @takeLock last value hpoint | @store last hpoint
  | @advance last hpoint | @postLock last hpoint =>
    simp only [hpoint] at hround
    exact ⟨_, rfl, by cases last <;> exact hround, by simp [hpoint], by simp [stored, hpoint]⟩
  | @readIn last point point' hpoint hread =>
    simp only [hpoint] at hround
    refine ⟨_, rfl, by cases last <;> exact hround, ?_⟩
    cases hread <;> simp [stored, hpoint]
  | @postEmpty last hpoint =>
    simp only [hpoint] at hround
    refine ⟨_, rfl, ?_⟩
    cases last with
    | false =>
      refine ⟨hround, ?_, by simp [stored, hpoint]⟩
      simp only [Producer.done, Producer.steps, PutPoint.index, hpoint, Bool.false_eq_true,
        if_false]
      omega
    | true =>
      exact ⟨hround, by simp [hpoint], by simp [stored, hpoint]⟩

theorem TakeMove.progress (hm : TakeMove s ID s') : ∃ c, s'.con = update s.con ID c ∧
      c.steps + 10 * (loaded (s, .consumer ID)).toList.length = (s.con ID).steps + 1 := by
  cases hm with
  | walk hwalk =>
    refine ⟨_, rfl, ?_⟩
    cases hwalk with
    | getValue hpoint | again hpoint | stop hpoint => simp [loaded, hpoint]
  | takeEmpty hpoint | takeLock hpoint | load hpoint | advance hpoint | postLock hpoint
  | postFull hpoint => exact ⟨_, rfl, by simp [loaded, hpoint]⟩
  | readOut hread =>
    refine ⟨_, rfl, ?_⟩
    generalize hpoint : (s.con ID).point = point at hread
    cases hread <;> simp [loaded, hpoint]

end Steps

/-! ### The length of a run -/

/-- The length of a run, counted by what the threads have done. -/
structure Clock (maxNum : ℕ) (trace : List (State bufSize num × Thread num))
    (s : State bufSize num) : Prop where
  rounds : ∀ ID, (s.pro ID).InRounds maxNum
  puts : (writes trace).length = total Producer.puts s.pro
  length : trace.length + s.main.creates.length + s.main.joins.length + 6 * num =
    4 * num + total Producer.steps s.pro + 10 * (reads trace).length + total Consumer.steps s.con

theorem Producer.update_inRounds {p : Producer bufSize} {pool : Fin num → Producer bufSize}
    (h : ∀ ID, (pool ID).InRounds maxNum) (hp : p.InRounds maxNum) (ID ID' : Fin num) :
    (update pool ID p ID').InRounds maxNum := by
  by_cases heq : ID' = ID
  · subst heq
    rwa [update_self]
  · rw [update_of_ne heq]
    exact h ID'

theorem Clock.create {thread : Thread num} {rest : List (Thread num)} (h : Clock maxNum trace s)
    (hcreates : s.main.creates = thread :: rest) (hborn : Unborn s thread) :
    Clock maxNum (trace ++ [(s, .main)])
      (create { s with main := ⟨rest, s.main.joins⟩ } thread) := by
  have hwrites : writes (trace ++ [(s, .main)]) = writes trace := by simp
  have hreads : reads (trace ++ [(s, .main)]) = reads trace := by simp
  have hlength := h.length
  rw [hcreates, List.length_cons] at hlength
  cases thread with
  | main => exact absurd hborn id
  | producer ID =>
    have hpoint : (s.pro ID).point = .unborn := hborn
    refine ⟨Producer.update_inRounds h.rounds (Nat.zero_le _) ID, ?_, ?_⟩
    · show _ = total Producer.puts (update s.pro ID _)
      rw [hwrites, total_update_of_eq (by simp [hpoint])]
      exact h.puts
    · show _ + rest.length + s.main.joins.length + _ =
        _ + total Producer.steps (update s.pro ID _) + _ + total Consumer.steps s.con
      rw [hreads, total_update_of_eq (by simp [hpoint]), List.length_append, List.length_singleton]
      omega
  | consumer ID =>
    have hpoint : (s.con ID).point = .unborn := hborn
    refine ⟨h.rounds, hwrites ▸ h.puts, ?_⟩
    show _ + rest.length + s.main.joins.length + _ =
      _ + total Producer.steps s.pro + _ + total Consumer.steps (update s.con ID _)
    rw [hreads, total_update_of_eq (by simp [hpoint]), List.length_append, List.length_singleton]
    omega

theorem Clock.main_step (h : Clock maxNum trace s) (hlaunched : Launched s)
    (hnext : BoundedBuffer.main s = some s') : Clock maxNum (trace ++ [(s, .main)]) s' := by
  obtain ⟨thread, rest, hcreates, rfl⟩ | ⟨hcreates, thread, joins, hjoins, -, rfl⟩ :=
    Launcher.next_cases hnext
  · exact h.create hcreates ((hlaunched.unborn_iff thread).mpr (by simp [hcreates]))
  · have hwrites : writes (trace ++ [(s, .main)]) = writes trace := by simp
    have hreads : reads (trace ++ [(s, .main)]) = reads trace := by simp
    have hlength := h.length
    rw [hcreates, hjoins, List.length_cons, List.length_nil] at hlength
    refine ⟨h.rounds, hwrites ▸ h.puts, ?_⟩
    rw [hreads, List.length_append, List.length_singleton]
    show _ + 0 + joins.length + _ =
      _ + total Producer.steps s.pro + _ + total Consumer.steps s.con
    omega

section Runs

variable [NeZero bufSize]

theorem Clock.put_step (h : Clock maxNum trace s) (hm : PutMove maxNum s ID s') :
    Clock maxNum (trace ++ [(s, .producer ID)]) s' := by
  obtain ⟨p, hpro, hround, hsteps, hputs⟩ := hm.progress (h.rounds ID)
  obtain ⟨-, -, hcon, hmain, -⟩ := hm.account
  have hmoveSteps := total_update Producer.steps s.pro ID p
  have hmovePuts := total_update Producer.puts s.pro ID p
  have hwrites := length_writes_append trace (s, .producer ID)
  have hreads : reads (trace ++ [(s, .producer ID)]) = reads trace := by simp
  have hbefore := h.puts
  have hlength := h.length
  refine ⟨hpro ▸ Producer.update_inRounds h.rounds hround ID, ?_, ?_⟩
  · rw [hpro]
    omega
  · rw [hpro, hcon, hmain, hreads, List.length_append, List.length_singleton]
    omega

theorem Clock.take_step (h : Clock maxNum trace s) (hm : TakeMove s ID s') :
    Clock maxNum (trace ++ [(s, .consumer ID)]) s' := by
  obtain ⟨c, hcon, hsteps⟩ := hm.progress
  obtain ⟨-, -, hpro, hmain, -⟩ := hm.account
  have hmove := total_update Consumer.steps s.con ID c
  have hwrites : writes (trace ++ [(s, .consumer ID)]) = writes trace := by simp
  have hreads := length_reads_append trace (s, .consumer ID)
  have hlength := h.length
  refine ⟨hpro ▸ h.rounds, ?_, ?_⟩
  · rw [hwrites, hpro]
    exact h.puts
  · rw [hpro, hcon, hmain, List.length_append, List.length_singleton]
    omega

theorem clock_starts (h : Starts s) : Clock maxNum [] s := by
  refine ⟨fun ID ↦ by simp [h.pro ID], ?_, ?_⟩
  · rw [total_eq_zero fun ID ↦ by simp [h.pro ID]]
    rfl
  · have hcon : total Consumer.steps s.con = 6 * num := by
      unfold total
      rw [Finset.sum_congr rfl fun ID _ ↦ show (s.con ID).steps = 6 by
        simp [h.con ID]]
      simp [Nat.mul_comm]
    rw [total_eq_zero fun ID ↦ by simp [h.pro ID], hcon, h.main]
    simp only [threads, List.length_append, List.length_map, List.length_finRange, List.length_nil,
      reads_nil]
    omega

theorem clock_of_exec (h : (program bufSize maxNum num).Exec trace s) : Clock maxNum trace s := by
  induction h with
  | start hs => exact clock_starts hs
  | @step trace s s' thread hrun hnext ih =>
    cases thread with
    | main => exact ih.main_step (launched_of_reachable ⟨_, hrun⟩) hnext
    | producer ID => exact ih.put_step (putMove_of_producer hnext)
    | consumer ID => exact ih.take_step (takeMove_of_consumer hnext)

/-- Assumes: a run. Its length has a bound that does not depend on the schedule. -/
theorem exec_length_le (h : (program bufSize maxNum num).Exec trace s) :
    trace.length ≤ num * (20 * (maxNum - 1 + 1) + 7) := by
  have hclock := clock_of_exec h
  have hsteps : total Producer.steps s.pro ≤ num * (10 * (maxNum - 1 + 1)) :=
    total_le_mul fun ID ↦ Producer.steps_le (hclock.rounds ID)
  have hputs : total Producer.puts s.pro ≤ num * (maxNum - 1 + 1) :=
    total_le_mul fun ID ↦ Producer.puts_le (hclock.rounds ID)
  have hcon : total Consumer.steps s.con ≤ num * 9 := total_le_mul fun ID ↦ (s.con ID).steps_le
  have horder := (fifo_of_exec h).order.length_le
  have hwrites := hclock.puts
  have hlength := hclock.length
  have hbound : num * (20 * (maxNum - 1 + 1) + 7) + 6 * num = 4 * num +
      num * (10 * (maxNum - 1 + 1)) + 10 * (num * (maxNum - 1 + 1)) + num * 9 := by ring
  omega

end Runs

end OpenPosix.Semaphores.BoundedBuffer

import OpenPosix.Semaphores.BoundedBufferInvariant

/-!
# The end markers of the producers

A producer has put an end marker exactly when it is past its last store, and a consumer has taken
one exactly when its last item is one (`Producer.mark`, `Consumer.mark`). `Markers` is the invariant
over every run: the markers among the items put and taken are the marked producers and consumers,
and when all producers are marked the last item put is a marker. So nothing lies behind the last
marker, and the consumers stop when the array is empty.
-/

namespace OpenPosix.Semaphores.BoundedBuffer

open Interleaving Function

variable {bufSize num maxNum : ℕ} {s s' : State bufSize num} {ID : Fin num}
  {trace : List (State bufSize num × Thread num)}

/-! ### Marked threads -/

@[simp] def Producer.mark (p : Producer bufSize) : ℕ :=
  match p.point with
  | .put true .readInAgain | .put true .advance | .put true .postLock | .put true .postEmpty => 1
  | .exited => 1
  | _ => 0

@[simp] def Consumer.mark (c : Consumer bufSize) : ℕ :=
  match c.point with
  | .readOutAgain | .advance | .postLock | .postFull | .getValue | .test =>
    if c.data = -1 then 1 else 0
  | .exited => 1
  | _ => 0

theorem Producer.mark_le_one (p : Producer bufSize) : p.mark ≤ 1 := by
  unfold Producer.mark
  split <;> simp

theorem Consumer.mark_le_one (c : Consumer bufSize) : c.mark ≤ 1 := by
  have hif : (if c.data = -1 then 1 else 0) ≤ 1 := by split <;> simp
  unfold Consumer.mark
  split <;> first | exact hif | simp

theorem total_mark_pro (h : ∀ ID, (s.pro ID).point = .exited) :
    total Producer.mark s.pro = num := by
  rw [total_eq_card fun ID ↦ by simp [h ID], Fintype.card_fin]

theorem total_mark_con (h : ∀ ID, (s.con ID).point = .exited) :
    total Consumer.mark s.con = num := by
  rw [total_eq_card fun ID ↦ by simp [h ID], Fintype.card_fin]

/-- A producer about to store has the item of its round. -/
@[simp] def Producer.Ready (ID : Fin num) (p : Producer bufSize) : Prop :=
  match p.point with
  | .put last .readIn | .put last .store => p.data = item ID p.i last
  | _ => True

theorem item_eq_marker_iff (ID : Fin num) (i : ℕ) (last : Bool) :
    item ID i last = -1 ↔ last = true := by
  cases last with
  | false =>
    simp only [item, Bool.false_eq_true, if_false, iff_false]
    omega
  | true => simp [item]

section Steps

variable [NeZero bufSize]

/-- Assumes: the item of the producer is the one of its round. A step that stores the end marker
marks the producer, and no other step changes the mark. -/
theorem PutMove.mark (hm : PutMove maxNum s ID s') (hready : (s.pro ID).Ready ID) :
    ∃ p, s'.pro = update s.pro ID p ∧ s'.con = s.con ∧ p.Ready ID ∧
      (stored (s, .producer ID) = none ∧ p.mark = (s.pro ID).mark ∨
        ∃ slot data, stored (s, .producer ID) = some (slot, data) ∧ (s.pro ID).mark = 0 ∧
          p.mark = if data = -1 then 1 else 0) := by
  cases hm with
  | walk hwalk =>
    refine ⟨_, rfl, rfl, ?_⟩
    cases hwalk with
    | loop hpoint | getValue hpoint => simp [stored, hpoint]
  | takeFull hpoint | takeLock hpoint =>
    refine ⟨_, rfl, rfl, ?_⟩
    simp [stored, hpoint]
  | readIn hpoint hread =>
    refine ⟨_, rfl, rfl, ?_⟩
    cases hread with
    | first => simpa [stored, hpoint] using hready
    | @second =>
      rename_i last
      cases last <;> simp [stored, hpoint]
  | @store last hpoint =>
    refine ⟨_, rfl, rfl, trivial, .inr ⟨_, _, by simp only [stored, hpoint]; rfl, ?_, ?_⟩⟩
    · cases last <;> simp [hpoint]
    · simp only [Producer.Ready, hpoint] at hready
      simp only [hready, item_eq_marker_iff]
      cases last <;> rfl
  | @advance last hpoint | @postLock last hpoint =>
    refine ⟨_, rfl, rfl, ?_⟩
    cases last <;> simp [stored, hpoint]
  | @postEmpty last hpoint =>
    refine ⟨_, rfl, rfl, ?_⟩
    cases last <;> simp [stored, hpoint]

/-- A step that loads an end marker marks the consumer, and no other step changes the mark. -/
theorem TakeMove.mark (hm : TakeMove s ID s') : ∃ c, s'.con = update s.con ID c ∧ s'.pro = s.pro ∧
      c.mark = (s.con ID).mark + ((loaded (s, .consumer ID)).toList.map Prod.snd).count (-1) := by
  cases hm with
  | walk hwalk =>
    refine ⟨_, rfl, rfl, ?_⟩
    cases hwalk with
    | getValue hpoint => simp [loaded, hpoint]
    | again hpoint hdata | stop hpoint hdata => simp [loaded, hpoint, hdata]
  | takeEmpty hpoint | takeLock hpoint | advance hpoint | postLock hpoint | postFull hpoint =>
    exact ⟨_, rfl, rfl, by simp [loaded, hpoint]⟩
  | readOut hread =>
    refine ⟨_, rfl, rfl, ?_⟩
    generalize hpoint : (s.con ID).point = point at hread
    cases hread <;> simp [loaded, hpoint]
  | load hpoint =>
    exact ⟨_, rfl, rfl, by simp [loaded, hpoint, List.count_singleton]⟩

end Steps

/-! ### The invariant -/

/-- The markers among the items are the marked threads. -/
structure Markers (trace : List (State bufSize num × Thread num)) (s : State bufSize num) :
    Prop where
  ready : ∀ ID, (s.pro ID).Ready ID
  put : (puts trace).count (-1) = total Producer.mark s.pro
  take : (takes trace).count (-1) = total Consumer.mark s.con
  own : ∀ ID, (takesOf ID trace).count (-1) = (s.con ID).mark
  final : total Producer.mark s.pro = num →
    ∀ item, (puts trace).getLast? = some item → item = -1

theorem puts_append_singleton (trace : List (State bufSize num × Thread num))
    (step : State bufSize num × Thread num) :
    puts (trace ++ [step]) = puts trace ++ (stored step).toList.map Prod.snd := by
  rw [puts_eq, writes_append_singleton, List.map_append, ← puts_eq]

theorem takes_append_singleton (trace : List (State bufSize num × Thread num))
    (step : State bufSize num × Thread num) :
    takes (trace ++ [step]) = takes trace ++ (loaded step).toList.map Prod.snd := by
  rw [takes_eq, reads_append_singleton, List.map_append, ← takes_eq]

theorem takesOf_append_self (ID : Fin num) (trace : List (State bufSize num × Thread num))
    (s : State bufSize num) : takesOf ID (trace ++ [(s, .consumer ID)]) =
      takesOf ID trace ++ (loaded (s, .consumer ID)).toList.map Prod.snd := by
  unfold takesOf
  rw [List.filter_append, List.filter_cons_of_pos (by simp), List.filter_nil,
    takes_append_singleton]

theorem takesOf_append_other {ID : Fin num} {thread : Thread num} (hne : thread ≠ .consumer ID)
    (trace : List (State bufSize num × Thread num)) (s : State bufSize num) :
    takesOf ID (trace ++ [(s, thread)]) = takesOf ID trace := by
  unfold takesOf
  rw [List.filter_append, List.filter_cons_of_neg (by simpa using hne), List.filter_nil,
    List.append_nil]

/-- A step that moves one producer to a local state of the same mark, and stores and loads
nothing. -/
theorem Markers.quiet_put {thread : Thread num} {p : Producer bufSize} (h : Markers trace s)
    (hthread : ∀ ID, thread ≠ .consumer ID) (hstored : stored (s, thread) = none)
    (hloaded : loaded (s, thread) = none) (hpro : s'.pro = update s.pro ID p)
    (hcon : s'.con = s.con) (hready : p.Ready ID) (hmark : p.mark = (s.pro ID).mark) :
    Markers (trace ++ [(s, thread)]) s' := by
  have hputs : puts (trace ++ [(s, thread)]) = puts trace := by
    simp [puts_append_singleton, hstored]
  have htakes : takes (trace ++ [(s, thread)]) = takes trace := by
    simp [takes_append_singleton, hloaded]
  have htotal : total Producer.mark s'.pro = total Producer.mark s.pro := by
    rw [hpro, total_update_of_eq hmark]
  constructor
  · intro ID'
    rw [hpro]
    by_cases heq : ID' = ID
    · subst heq
      rwa [update_self]
    · rw [update_of_ne heq]
      exact h.ready ID'
  · rw [hputs, htotal]
    exact h.put
  · rw [htakes, hcon]
    exact h.take
  · intro ID'
    rw [takesOf_append_other (hthread ID'), hcon]
    exact h.own ID'
  · rw [htotal, hputs]
    exact h.final

theorem Markers.main_step (h : Markers trace s) (hlaunched : Launched s)
    (hnext : BoundedBuffer.main s = some s') : Markers (trace ++ [(s, .main)]) s' := by
  have hputs : puts (trace ++ [(s, .main)]) = puts trace := by simp [puts_append_singleton]
  have htakes : takes (trace ++ [(s, .main)]) = takes trace := by simp [takes_append_singleton]
  obtain ⟨thread, rest, hcreates, rfl⟩ | ⟨-, _, joins, -, -, rfl⟩ := Launcher.next_cases hnext
  · have hborn : Unborn s thread := (hlaunched.unborn_iff thread).mpr (by simp [hcreates])
    cases thread with
    | main => exact absurd hborn id
    | producer ID =>
      have hpoint : (s.pro ID).point = .unborn := hborn
      exact h.quiet_put (by simp) rfl rfl rfl rfl trivial (by simp [hpoint])
    | consumer ID =>
      have hpoint : (s.con ID).point = .unborn := hborn
      have hmark : (s.con ID).mark = 0 := by simp [hpoint]
      refine ⟨h.ready, hputs ▸ h.put, ?_, ?_, hputs ▸ h.final⟩
      · show _ = total Consumer.mark (update s.con ID _)
        rw [htakes, total_update_of_eq (by rw [hmark]; rfl)]
        exact h.take
      · intro ID'
        show _ = (update s.con ID _ ID').mark
        rw [takesOf_append_other (by simp), h.own]
        by_cases heq : ID' = ID
        · subst heq
          rw [update_self, hmark]
          rfl
        · rw [update_of_ne heq]
  · refine ⟨h.ready, hputs ▸ h.put, htakes ▸ h.take, fun ID ↦ ?_, hputs ▸ h.final⟩
    rw [takesOf_append_other (by simp)]
    exact h.own ID

section Runs

variable [NeZero bufSize]

theorem Markers.put_step (h : Markers trace s) (hm : PutMove maxNum s ID s') :
    Markers (trace ++ [(s, .producer ID)]) s' := by
  obtain ⟨p, hpro, hcon, hready, ⟨hstored, hmark⟩ | ⟨slot, data, hstored, hbefore, hmark⟩⟩ :=
    hm.mark (h.ready ID)
  · exact h.quiet_put (fun _ ↦ by simp) hstored rfl hpro hcon hready hmark
  have hputs : puts (trace ++ [(s, .producer ID)]) = puts trace ++ [data] := by
    simp [puts_append_singleton, hstored]
  have htakes : takes (trace ++ [(s, .producer ID)]) = takes trace := by
    simp [takes_append_singleton]
  have htotal := total_update Producer.mark s.pro ID p
  constructor
  · intro ID'
    rw [hpro]
    by_cases heq : ID' = ID
    · subst heq
      rwa [update_self]
    · rw [update_of_ne heq]
      exact h.ready ID'
  · have hput := h.put
    rw [hputs, List.count_append, List.count_singleton, hpro]
    simp only [beq_iff_eq]
    omega
  · rw [htakes, hcon]
    exact h.take
  · intro ID'
    rw [takesOf_append_other (by simp), hcon]
    exact h.own ID'
  · intro hall item hlast
    rw [hputs, List.getLast?_append_of_ne_nil _ (by simp), List.getLast?_singleton] at hlast
    obtain rfl : data = item := Option.some.inj hlast
    -- A producer that has just put a number is not marked.
    have hone := eq_one_of_total_eq_card (fun ID ↦ Producer.mark_le_one (s'.pro ID))
      (by rw [hall, Fintype.card_fin]) ID
    rw [hpro, update_self, hmark] at hone
    by_contra hne
    rw [if_neg hne] at hone
    exact absurd hone (by simp)

theorem Markers.take_step (h : Markers trace s) (hm : TakeMove s ID s') :
    Markers (trace ++ [(s, .consumer ID)]) s' := by
  obtain ⟨c, hcon, hpro, hmark⟩ := hm.mark
  have hputs : puts (trace ++ [(s, .consumer ID)]) = puts trace := by
    simp [puts_append_singleton]
  have htotal := total_update Consumer.mark s.con ID c
  constructor
  · rw [hpro]
    exact h.ready
  · rw [hputs, hpro]
    exact h.put
  · have htake := h.take
    rw [takes_append_singleton, List.count_append, hcon]
    omega
  · intro ID'
    rw [hcon]
    by_cases heq : ID' = ID
    · subst heq
      rw [takesOf_append_self, List.count_append, h.own, update_self, hmark]
    · rw [takesOf_append_other (by simpa using Ne.symm heq), update_of_ne heq]
      exact h.own ID'
  · rw [hpro, hputs]
    exact h.final

theorem markers_starts (h : Starts s) : Markers [] s := by
  refine ⟨fun ID ↦ by simp [h.pro ID], ?_, ?_, fun ID ↦ ?_, ?_⟩
  · rw [total_eq_zero fun ID ↦ by simp [h.pro ID]]
    rfl
  · rw [total_eq_zero fun ID ↦ by simp [h.con ID]]
    rfl
  · simp [takesOf, takes, h.con ID]
  · intro _ item hlast
    simp [puts] at hlast

theorem markers_of_exec (h : (program bufSize maxNum num).Exec trace s) : Markers trace s := by
  induction h with
  | start hs => exact markers_starts hs
  | @step trace s s' thread hrun hnext ih =>
    cases thread with
    | main => exact ih.main_step (launched_of_reachable ⟨_, hrun⟩) hnext
    | producer ID => exact ih.put_step (putMove_of_producer hnext)
    | consumer ID => exact ih.take_step (takeMove_of_consumer hnext)

end Runs

end OpenPosix.Semaphores.BoundedBuffer

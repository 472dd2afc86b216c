import OpenPosix.Semaphores.BoundedBufferMarkers
import OpenPosix.Semaphores.BoundedBufferTermination

/-!
# The bounded buffer is a queue that is emptied

`takes_prefix_of_puts` is about every run of every number of producers and consumers: the free
cells, the used cells and the cells in the hands of a thread are `BUF_SIZE` cells, a cell is not
written again before the item in it was read, and the items taken are a prefix of the items put.
`consumers_finish` is the end of the program: no thread is left waiting, every run is finite, every
consumer takes one end marker, and at the end the items taken are the items put.
-/

namespace OpenPosix.Semaphores.BoundedBuffer

open Interleaving

variable {bufSize num maxNum : ℕ} {s : State bufSize num}
  {trace : List (State bufSize num × Thread num)}

theorem total_between_pro (s : State bufSize num) : total Producer.between s.pro =
    total Producer.unwritten s.pro + total Producer.written s.pro := by
  rw [← total_add]
  exact Finset.sum_congr rfl fun ID _ ↦ Producer.between_eq (s.pro ID)

theorem total_between_con (s : State bufSize num) : total Consumer.between s.con =
    total Consumer.unread s.con + total Consumer.read s.con := by
  rw [← total_add]
  exact Finset.sum_congr rfl fun ID _ ↦ Consumer.between_eq (s.con ID)

/-- The free cells, the used cells and the cells in the hands of a thread. -/
theorem Account.cells (h : Account trace s) :
    s.full + s.empty + total Producer.between s.pro + total Consumer.between s.con = bufSize := by
  have hfree := h.free
  have hused := h.used
  rw [total_between_pro, total_between_con]
  omega

section Runs

variable [NeZero bufSize]

/-- Assumes: a step inside a run that stores an item. It goes to the cell of its number, and at
least as many items were read before it as the array has no room for. -/
theorem store_inside {first last : List (State bufSize num × Thread num)}
    {step : State bufSize num × Thread num} {slot : Fin bufSize} {item : ℤ}
    (h : (program bufSize maxNum num).Exec (first ++ step :: last) s)
    (hstored : stored step = some (slot, item)) :
    slot = slotOf bufSize (writes first).length ∧
      (writes first).length < (reads first).length + bufSize := by
  obtain ⟨before, thread⟩ := step
  obtain ⟨hrun, -⟩ := h.at
  have haccount := account_of_exec hrun
  obtain ⟨ID, last, rfl, hpoint, rfl, rfl⟩ := stored_eq_some_iff.mp hstored
  exact ⟨(fifo_of_exec hrun).store_slot haccount hpoint,
    haccount.room (show (before.pro ID).unwritten = 1 by simp [hpoint])⟩

/-- Assumes: a run with two stores into one cell. The item of the first one is read between them. -/
theorem read_between {first middle last : List (State bufSize num × Thread num)}
    {step step' : State bufSize num × Thread num} {slot : Fin bufSize} {item item' : ℤ}
    (h : (program bufSize maxNum num).Exec (first ++ step :: middle ++ step' :: last) s)
    (hstored : stored step = some (slot, item)) (hstored' : stored step' = some (slot, item')) :
    ∃ read ∈ middle, loaded read = some (slot, item) := by
  obtain ⟨state, hrun⟩ := h.take
  obtain ⟨hslot, -⟩ := store_inside hrun hstored
  obtain ⟨hslot', hroom⟩ := store_inside h hstored'
  obtain ⟨state₀, hrun₀⟩ := hrun.take
  have hloaded : loaded step = none := by
    obtain ⟨before, thread⟩ := step
    obtain ⟨ID, last, rfl, -⟩ := stored_eq_some_iff.mp hstored
    rfl
  have hwrites : writes (first ++ step :: middle) =
      writes first ++ (slot, item) :: writes middle := by
    simp [writes, hstored]
  have hreads : reads (first ++ step :: middle) = reads first ++ reads middle := by
    simp [reads, hloaded]
  -- The two stores have numbers at least `BUF_SIZE` apart, so the first item has been read.
  have hfar := add_size_le_of_slotOf_eq
    (show (writes first).length < (writes (first ++ step :: middle)).length by simp [hwrites])
    (hslot.symm.trans hslot')
  have hbefore := (fifo_of_exec hrun₀).order.length_le
  have horder := (fifo_of_exec hrun).order
  rw [hwrites, hreads] at horder
  rw [hreads, List.length_append] at hroom
  have hlt : (writes first).length < (reads first ++ reads middle).length := by
    rw [List.length_append]
    omega
  have hread := List.prefix_iff_getElem?.mp horder _ hlt
  rw [List.getElem?_append_right le_rfl, Nat.sub_self, List.getElem?_cons_zero, Option.some.injEq,
    List.getElem_append_right hbefore] at hread
  have hmem : (slot, item) ∈ reads middle := hread ▸ List.getElem_mem _
  exact List.mem_filterMap.mp hmem

/-- Assumes: a run. The values of `full` and `empty` and the threads between their two semaphores
add up to `BUF_SIZE`; between two stores into one cell the item of the first one is read; and the
items taken by all consumers are a prefix of the items put by all producers. -/
theorem takes_prefix_of_puts (bufSize maxNum num : ℕ) [NeZero bufSize]
    (trace : List (State bufSize num × Thread num)) (s : State bufSize num)
    (h : (program bufSize maxNum num).Exec trace s) :
    s.full + s.empty + total Producer.between s.pro + total Consumer.between s.con = bufSize ∧
    (∀ first step middle step' last slot item item',
      trace = first ++ step :: middle ++ step' :: last → stored step = some (slot, item) →
      stored step' = some (slot, item') → ∃ read ∈ middle, loaded read = some (slot, item)) ∧
    takes trace <+: puts trace := by
  refine ⟨(account_of_exec h).cells, ?_, (fifo_of_exec h).order.map Prod.snd⟩
  intro first step middle step' last slot item item' htrace hstored hstored'
  subst htrace
  exact read_between h hstored hstored'

end Runs

def oneCell : State 1 1 where
  full := 1
  empty := 0
  lock := 1
  buffer := fun _ ↦ 0
  inPos := 0
  outPos := 0
  pro := fun _ ↦ ⟨.unborn, 0, 0, 0, 0⟩
  con := fun _ ↦ ⟨.unborn, 0, 0, 0⟩
  main := ⟨threads 1, threads 1⟩

theorem starts_oneCell : Starts oneCell :=
  ⟨rfl, rfl, rfl, rfl, rfl, fun _ ↦ rfl, fun _ ↦ rfl, rfl⟩

/-- The producer fills the cell, the consumer takes the item, and the producer fills the cell
again. -/
def refill : List (Thread 1) :=
  [.main, .main] ++ List.replicate 10 (.producer 0) ++ List.replicate 8 (.consumer 0) ++
    List.replicate 6 (.producer 0)

/-- The cell is written twice in this run, and the first item is read in between. -/
theorem takes_prefix_of_puts_refill :
    puts ((program 1 2 1).traceOf oneCell refill) = [0, -1] ∧
    takes ((program 1 2 1).traceOf oneCell refill) <+: [0, -1] ∧
    ∃ read ∈ (((program 1 2 1).traceOf oneCell refill).take 25).drop 8,
      loaded read = some (0, 0) := by
  obtain ⟨s, hrun⟩ : ∃ s, (program 1 2 1).runSchedule oneCell refill = some s := ⟨_, rfl⟩
  have hexec : (program 1 2 1).Exec ((program 1 2 1).traceOf oneCell refill) s :=
    (System.Exec.start (P := program 1 2 1) starts_oneCell).runSchedule hrun
  obtain ⟨-, hcell, horder⟩ := takes_prefix_of_puts 1 2 1 _ s hexec
  refine ⟨rfl, horder, ?_⟩
  exact hcell (((program 1 2 1).traceOf oneCell refill).take 7) _ _ _ [] 0 0 (-1) rfl rfl rfl

/-! ### The end of the program -/

section Blocked

variable [NeZero bufSize] {ID : Fin num}

/-- A producer at none of its waits has a step. -/
theorem producer_isSome_iff : (producer maxNum s ID).isSome ↔ match (s.pro ID).point with
    | .unborn | .exited => False
    | .put _ .waitFull => 0 < s.full
    | .put _ .waitLock => 0 < s.lock
    | _ => True := by
  cases hpoint : (s.pro ID).point with
  | put last point => cases point <;> simp [producer, put, hpoint]
  | _ => simp [producer, hpoint]

/-- A consumer at none of its waits has a step. -/
theorem consumer_isSome_iff : (consumer s ID).isSome ↔ match (s.con ID).point with
    | .unborn | .exited => False
    | .waitEmpty => 0 < s.empty
    | .waitLock => 0 < s.lock
    | _ => True := by
  cases hpoint : (s.con ID).point <;> simp [consumer, hpoint]

structure Blocked (maxNum : ℕ) (s : State bufSize num) : Prop where
  pro : ∀ ID, ¬ (producer maxNum s ID).isSome
  con : ∀ ID, ¬ (consumer s ID).isSome
  born : ∀ thread, ¬ Unborn s thread

/-- Assumes: no thread has a step. `lock` is free, since its holder would have one. -/
theorem Blocked.lock_pos (h : Blocked maxNum s) (haccount : Account trace s) : 0 < s.lock := by
  by_contra hzero
  have hlock := haccount.lock
  have hholds : 0 < total Producer.holds s.pro ∨ 0 < total Consumer.holds s.con := by omega
  rcases hholds with hholds | hholds
  · obtain ⟨ID, hID⟩ := exists_pos_of_total_pos hholds
    have hstep := h.pro ID
    rw [producer_isSome_iff] at hstep
    cases hpoint : (s.pro ID).point with
    | put last point => cases point <;> simp [hpoint] at hID hstep
    | _ => simp [hpoint] at hID
  · obtain ⟨ID, hID⟩ := exists_pos_of_total_pos hholds
    have hstep := h.con ID
    rw [consumer_isSome_iff] at hstep
    cases hpoint : (s.con ID).point <;> simp [hpoint] at hID hstep

/-- Assumes: no thread has a step. A producer has exited, or waits for a free cell. -/
theorem Blocked.producer_cases (h : Blocked maxNum s) (haccount : Account trace s)
    (ID : Fin num) : (s.pro ID).point = .exited ∨
      s.full = 0 ∧ ∃ last, (s.pro ID).point = .put last .waitFull := by
  have hlock := h.lock_pos haccount
  have hstep := h.pro ID
  have hborn : (s.pro ID).point ≠ .unborn := h.born (.producer ID)
  rw [producer_isSome_iff] at hstep
  cases hpoint : (s.pro ID).point with
  | unborn => exact absurd hpoint hborn
  | loop => simp [hpoint] at hstep
  | exited => exact .inl rfl
  | put last point =>
    cases point with
    | waitFull =>
      simp only [hpoint] at hstep
      exact .inr ⟨by omega, last, rfl⟩
    | waitLock => simp [hpoint, hlock] at hstep
    | _ => simp [hpoint] at hstep

/-- Assumes: no thread has a step. A consumer has exited, or waits for an item. -/
theorem Blocked.consumer_cases (h : Blocked maxNum s) (haccount : Account trace s)
    (ID : Fin num) : (s.con ID).point = .exited ∨ s.empty = 0 ∧ (s.con ID).point = .waitEmpty := by
  have hlock := h.lock_pos haccount
  have hstep := h.con ID
  have hborn : (s.con ID).point ≠ .unborn := h.born (.consumer ID)
  rw [consumer_isSome_iff] at hstep
  cases hpoint : (s.con ID).point with
  | unborn => exact absurd hpoint hborn
  | exited => exact .inl rfl
  | waitEmpty =>
    simp only [hpoint] at hstep
    exact .inr ⟨by omega, rfl⟩
  | waitLock => simp [hpoint, hlock] at hstep
  | _ => simp [hpoint] at hstep

/-- Assumes: no thread has a step. No thread has a cell in its hands. -/
theorem Blocked.between_eq_zero (h : Blocked maxNum s) (haccount : Account trace s) :
    total Producer.between s.pro = 0 ∧ total Consumer.between s.con = 0 := by
  constructor
  · apply total_eq_zero
    intro ID
    rcases h.producer_cases haccount ID with hpoint | ⟨-, last, hpoint⟩ <;>
      simp [Producer.between, hpoint]
  · apply total_eq_zero
    intro ID
    rcases h.consumer_cases haccount ID with hpoint | ⟨-, hpoint⟩ <;>
      simp [Consumer.between, hpoint]

/-- Assumes: no thread has a step. No producer waits for a cell: the array would be full, so all
consumers would have taken an end marker, and the producer has not put its own. -/
theorem Blocked.producers_exited (h : Blocked maxNum s) (haccount : Account trace s)
    (hfifo : Fifo trace s) (hmarkers : Markers trace s) (ID : Fin num) :
    (s.pro ID).point = .exited := by
  rcases h.producer_cases haccount ID with hexited | ⟨hfull, last, hpoint⟩
  · exact hexited
  have hcells := haccount.cells
  obtain ⟨hpro, hcon⟩ := h.between_eq_zero haccount
  have hsize := Nat.pos_of_ne_zero (NeZero.ne bufSize)
  have hexited : ∀ ID, (s.con ID).point = .exited := by
    intro ID'
    rcases h.consumer_cases haccount ID' with hexited | ⟨hempty, -⟩
    · exact hexited
    · omega
  have hcount := (hfifo.order.map Prod.snd).sublist.count_le (-1)
  rw [← takes_eq, ← puts_eq, hmarkers.take, hmarkers.put, total_mark_con hexited] at hcount
  have hle := total_le_card fun ID ↦ Producer.mark_le_one (s.pro ID)
  rw [Fintype.card_fin] at hle
  have hone := eq_one_of_total_eq_card (fun ID ↦ Producer.mark_le_one (s.pro ID))
    (by rw [Fintype.card_fin]; omega) ID
  simp [hpoint] at hone

/-- Assumes: no thread has a step. No consumer waits for an item: all producers have put their end
marker and all items have been taken, so the consumer would have taken one. -/
theorem Blocked.consumers_exited (h : Blocked maxNum s) (haccount : Account trace s)
    (hfifo : Fifo trace s) (hmarkers : Markers trace s) (ID : Fin num) :
    (s.con ID).point = .exited := by
  rcases h.consumer_cases haccount ID with hexited | ⟨hempty, hpoint⟩
  · exact hexited
  obtain ⟨hpro, hcon⟩ := h.between_eq_zero haccount
  rw [total_between_pro] at hpro
  rw [total_between_con] at hcon
  have hused := haccount.used
  have hsame : reads trace = writes trace := hfifo.order.eq_of_length (by omega)
  have hmark : total Consumer.mark s.con = num := by
    rw [← hmarkers.take, takes_eq, hsame, ← puts_eq, hmarkers.put]
    exact total_mark_pro (h.producers_exited haccount hfifo hmarkers)
  have hone := eq_one_of_total_eq_card (fun ID ↦ Consumer.mark_le_one (s.con ID))
    (by rw [hmark, Fintype.card_fin]) ID
  simp [hpoint] at hone

/-- Assumes: all threads have exited. Everything that was put has been taken. -/
theorem Markers.takes_eq_puts (h : Markers trace s) (hfifo : Fifo trace s)
    (hpro : ∀ ID, (s.pro ID).point = .exited) (hcon : ∀ ID, (s.con ID).point = .exited) :
    takes trace = puts trace := by
  obtain ⟨rest, hrest⟩ : takes trace <+: puts trace := hfifo.order.map Prod.snd
  have hput := h.put
  rw [← hrest, List.count_append, h.take, total_mark_con hcon, total_mark_pro hpro] at hput
  -- The items behind the last one taken hold no marker, but the last item put is one.
  cases hlast : rest.getLast? with
  | none => rw [← hrest, List.getLast?_eq_none_iff.mp hlast, List.append_nil]
  | some item =>
    have hmem := List.mem_of_getLast? hlast
    have hitem : item = -1 := by
      refine h.final (total_mark_pro hpro) item ?_
      rw [← hrest, List.getLast?_append, hlast]
      rfl
    rw [hitem] at hmem
    have hpositive := List.count_pos_iff.mpr hmem
    omega

/-- Assumes: a run. If a producer or a consumer has not exited, then one of them has a step, or
`main` has a thread to create and can create it. No consumer takes two end markers, and one that has
exited has taken one. When all threads have exited, the items taken are the items put and the buffer
is empty. The length of the run is bounded, so every run comes to this end. -/
theorem consumers_finish (bufSize maxNum num : ℕ) [NeZero bufSize]
    (trace : List (State bufSize num × Thread num)) (s : State bufSize num)
    (h : (program bufSize maxNum num).Exec trace s) :
    ((∃ ID, (s.pro ID).point ≠ .exited ∨ (s.con ID).point ≠ .exited) →
      (∃ ID, (program bufSize maxNum num).Enabled s (.producer ID)) ∨
      (∃ ID, (program bufSize maxNum num).Enabled s (.consumer ID)) ∨
      s.main.creates ≠ [] ∧ (program bufSize maxNum num).Enabled s .main) ∧
    (∀ ID, (takesOf ID trace).count (-1) ≤ 1 ∧
      ((s.con ID).point = .exited → (takesOf ID trace).count (-1) = 1)) ∧
    ((∀ ID, (s.pro ID).point = .exited ∧ (s.con ID).point = .exited) →
      takes trace = puts trace ∧ s.empty = 0 ∧ s.full = bufSize) ∧
    trace.length ≤ num * (20 * (maxNum - 1 + 1) + 7) := by
  have haccount := account_of_exec h
  have hfifo := fifo_of_exec h
  have hmarkers := markers_of_exec h
  refine ⟨?_, fun ID ↦ ⟨?_, fun hexited ↦ ?_⟩, fun hexited ↦ ?_, exec_length_le h⟩
  · rintro ⟨ID, hunfinished⟩
    by_cases hcreates : s.main.creates = []
    · by_contra hnone
      push Not at hnone
      have hblocked : Blocked maxNum s := by
        refine ⟨fun ID hID ↦ hnone.1 ID hID, fun ID hID ↦ hnone.2.1 ID hID, fun thread hborn ↦ ?_⟩
        simpa [hcreates] using ((launched_of_reachable ⟨_, h⟩).unborn_iff thread).mp hborn
      rcases hunfinished with hpro | hcon
      · exact hpro (hblocked.producers_exited haccount hfifo hmarkers ID)
      · exact hcon (hblocked.consumers_exited haccount hfifo hmarkers ID)
    · refine .inr (.inr ⟨hcreates, ?_⟩)
      show (main s).isSome = true
      exact Launcher.next_isSome hcreates
  · rw [hmarkers.own]
    exact (s.con ID).mark_le_one
  · rw [hmarkers.own]
    simp [hexited]
  · have hsame := hmarkers.takes_eq_puts hfifo (fun ID ↦ (hexited ID).1) fun ID ↦ (hexited ID).2
    have hlength := congrArg List.length hsame
    rw [takes_eq, puts_eq, List.length_map, List.length_map] at hlength
    have hused := haccount.used
    have hcells := haccount.cells
    rw [total_eq_zero fun ID ↦ by simp [Producer.between, (hexited ID).1],
      total_eq_zero fun ID ↦ by simp [Consumer.between, (hexited ID).2]] at hcells
    exact ⟨hsame, by omega, by omega⟩

/-- The rest of the run after `refill`. -/
def drain : List (Thread 1) :=
  refill ++ List.replicate 4 (.producer 0) ++ List.replicate 12 (.consumer 0)

/-- At the end of this run the two items that were put have been taken, one of them a marker. -/
theorem consumers_finish_drain :
    takes ((program 1 2 1).traceOf oneCell drain) = [0, -1] ∧
    (takesOf 0 ((program 1 2 1).traceOf oneCell drain)).count (-1) = 1 := by
  obtain ⟨s, hrun, hpro, hcon⟩ : ∃ s, (program 1 2 1).runSchedule oneCell drain = some s ∧
      (s.pro 0).point = .exited ∧ (s.con 0).point = .exited := ⟨_, rfl, rfl, rfl⟩
  have hexec : (program 1 2 1).Exec ((program 1 2 1).traceOf oneCell drain) s :=
    (System.Exec.start (P := program 1 2 1) starts_oneCell).runSchedule hrun
  obtain ⟨-, hmarker, hend, -⟩ := consumers_finish 1 2 1 _ s hexec
  refine ⟨(hend fun ID ↦ ?_).1.trans rfl, (hmarker 0).2 hcon⟩
  obtain rfl : ID = 0 := Subsingleton.elim ID 0
  exact ⟨hpro, hcon⟩

end Blocked

end OpenPosix.Semaphores.BoundedBuffer

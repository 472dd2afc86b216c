import OpenPosix.Semaphores.BoundedBufferSteps

/-!
# The circular array holds a queue

Two invariants over every run, each about the steps taken so far and the state reached. `Account` is
the arithmetic: `lock` has one owner, and the values of `full` and `empty` with what the threads
carry are the numbers of free and of used cells, as the stores and the loads of the run count them.
`Fifo` is the contents: store number `k` went to cell `k mod BUF_SIZE`, the array holds every item
that was stored and not loaded, and the loads so far are a prefix of the stores. A store finds a
free cell and a load finds an item because the thread that is about to make it still carries one
(`Account.room`, `Account.available`).
-/

namespace OpenPosix.Semaphores.BoundedBuffer

open Interleaving Function

variable {bufSize num maxNum : ℕ} {s s' : State bufSize num} {ID : Fin num}
  {trace : List (State bufSize num × Thread num)}

/-! ### The stores and the loads of a run -/

/-- The cells and the items of the stores, in order. -/
def writes (trace : List (State bufSize num × Thread num)) : List (Fin bufSize × ℤ) :=
  trace.filterMap stored

/-- The cells and the items of the loads, in order. -/
def reads (trace : List (State bufSize num × Thread num)) : List (Fin bufSize × ℤ) :=
  trace.filterMap loaded

@[simp] theorem writes_nil : writes ([] : List (State bufSize num × Thread num)) = [] := rfl

@[simp] theorem reads_nil : reads ([] : List (State bufSize num × Thread num)) = [] := rfl

@[simp] theorem writes_append_singleton (trace : List (State bufSize num × Thread num))
    (step : State bufSize num × Thread num) :
    writes (trace ++ [step]) = writes trace ++ (stored step).toList := by
  unfold writes
  cases hstored : stored step <;> simp [hstored]

@[simp] theorem reads_append_singleton (trace : List (State bufSize num × Thread num))
    (step : State bufSize num × Thread num) :
    reads (trace ++ [step]) = reads trace ++ (loaded step).toList := by
  unfold reads
  cases hloaded : loaded step <;> simp [hloaded]

theorem length_writes_append (trace : List (State bufSize num × Thread num))
    (step : State bufSize num × Thread num) :
    (writes (trace ++ [step])).length = (writes trace).length + (stored step).toList.length := by
  rw [writes_append_singleton, List.length_append]

theorem length_reads_append (trace : List (State bufSize num × Thread num))
    (step : State bufSize num × Thread num) :
    (reads (trace ++ [step])).length = (reads trace).length + (loaded step).toList.length := by
  rw [reads_append_singleton, List.length_append]

theorem puts_eq : puts trace = (writes trace).map Prod.snd := rfl

theorem takes_eq : takes trace = (reads trace).map Prod.snd := rfl

/-! ### The arithmetic -/

/-- The semaphores count the free and the used cells. -/
structure Account (trace : List (State bufSize num × Thread num)) (s : State bufSize num) :
    Prop where
  lock : s.lock + total Producer.holds s.pro + total Consumer.holds s.con = 1
  free : s.full + total Producer.unwritten s.pro + total Consumer.read s.con +
    (writes trace).length = bufSize + (reads trace).length
  used : s.empty + total Producer.written s.pro + total Consumer.unread s.con +
    (reads trace).length = (writes trace).length

/-- A weight that counts no thread before its first wait. -/
theorem total_create_pro {weight : Producer bufSize → ℕ} {thread : Thread num}
    (hzero : ∀ p, p.point = .unborn ∨ p.point = .loop → weight p = 0) (hborn : Unborn s thread) :
    total weight (create s thread).pro = total weight s.pro := by
  cases thread with
  | main => rfl
  | consumer ID => rfl
  | producer ID =>
    apply total_update_of_eq
    rw [hzero _ (.inr rfl), hzero _ (.inl hborn)]

theorem total_create_con {weight : Consumer bufSize → ℕ} {thread : Thread num}
    (hzero : ∀ c, c.point = .unborn ∨ c.point = .waitEmpty → weight c = 0)
    (hborn : Unborn s thread) : total weight (create s thread).con = total weight s.con := by
  cases thread with
  | main => rfl
  | producer ID => rfl
  | consumer ID =>
    apply total_update_of_eq
    rw [hzero _ (.inr rfl), hzero _ (.inl hborn)]

@[simp] theorem create_lock (s : State bufSize num) (thread : Thread num) :
    (create s thread).lock = s.lock := by cases thread <;> rfl

@[simp] theorem create_full (s : State bufSize num) (thread : Thread num) :
    (create s thread).full = s.full := by cases thread <;> rfl

@[simp] theorem create_empty (s : State bufSize num) (thread : Thread num) :
    (create s thread).empty = s.empty := by cases thread <;> rfl

theorem Account.main (h : Account trace s) (hlaunched : Launched s)
    (hnext : BoundedBuffer.main s = some s') : Account (trace ++ [(s, .main)]) s' := by
  obtain ⟨thread, rest, hcreates, rfl⟩ | ⟨-, _, joins, -, -, rfl⟩ := Launcher.next_cases hnext
  · have hborn : Unborn s thread := (hlaunched.unborn_iff thread).mpr (by simp [hcreates])
    have hpro {weight : Producer bufSize → ℕ}
        (hzero : ∀ p, p.point = .unborn ∨ p.point = .loop → weight p = 0) :=
      total_create_pro (s := { s with main := ⟨rest, s.main.joins⟩ }) hzero hborn
    have hcon {weight : Consumer bufSize → ℕ}
        (hzero : ∀ c, c.point = .unborn ∨ c.point = .waitEmpty → weight c = 0) :=
      total_create_con (s := { s with main := ⟨rest, s.main.joins⟩ }) hzero hborn
    constructor
    · rw [hpro (by rintro p (hp | hp) <;> simp [hp]),
        hcon (by rintro c (hc | hc) <;> simp [hc]), create_lock]
      exact h.lock
    · rw [hpro (by rintro p (hp | hp) <;> simp [hp]),
        hcon (by rintro c (hc | hc) <;> simp [hc]), create_full]
      simpa using h.free
    · rw [hpro (by rintro p (hp | hp) <;> simp [hp]),
        hcon (by rintro c (hc | hc) <;> simp [hc]), create_empty]
      simpa using h.used
  · exact ⟨h.lock, by simpa using h.free, by simpa using h.used⟩

section Runs

variable [NeZero bufSize]

theorem Account.put (h : Account trace s) (hm : PutMove maxNum s ID s') :
    Account (trace ++ [(s, .producer ID)]) s' := by
  obtain ⟨p, hpro, hcon, -, -, -, -, hlock, hfull, hempty⟩ := hm.account
  have hwrites := length_writes_append trace (s, .producer ID)
  have hreads : reads (trace ++ [(s, .producer ID)]) = reads trace := by simp
  have hholds := total_update Producer.holds s.pro ID p
  have hunwritten := total_update Producer.unwritten s.pro ID p
  have hwritten := total_update Producer.written s.pro ID p
  obtain ⟨htoken, hfree, hused⟩ := h
  constructor
  · rw [hpro, hcon]
    omega
  · rw [hpro, hcon, hreads]
    omega
  · rw [hpro, hcon, hreads]
    omega

theorem Account.take (h : Account trace s) (hm : TakeMove s ID s') :
    Account (trace ++ [(s, .consumer ID)]) s' := by
  obtain ⟨c, hcon, hpro, -, -, -, -, -, hlock, hfull, hempty⟩ := hm.account
  have hreads := length_reads_append trace (s, .consumer ID)
  have hwrites : writes (trace ++ [(s, .consumer ID)]) = writes trace := by simp
  have hholds := total_update Consumer.holds s.con ID c
  have hunread := total_update Consumer.unread s.con ID c
  have hread := total_update Consumer.read s.con ID c
  obtain ⟨htoken, hfree, hused⟩ := h
  constructor
  · rw [hpro, hcon]
    omega
  · rw [hpro, hcon, hwrites]
    omega
  · rw [hpro, hcon, hwrites]
    omega

theorem account_starts (h : Starts s) : Account [] s := by
  constructor
  · rw [h.lock, total_eq_zero fun ID ↦ by simp [h.pro ID],
      total_eq_zero fun ID ↦ by simp [h.con ID]]
  · rw [h.full, total_eq_zero fun ID ↦ by simp [h.pro ID],
      total_eq_zero fun ID ↦ by simp [h.con ID]]
    rfl
  · rw [h.empty, total_eq_zero fun ID ↦ by simp [h.pro ID],
      total_eq_zero fun ID ↦ by simp [h.con ID]]
    rfl

theorem account_of_exec (h : (program bufSize maxNum num).Exec trace s) : Account trace s := by
  induction h with
  | start hs => exact account_starts hs
  | @step trace s s' thread hrun hnext ih =>
    cases thread with
    | main => exact ih.main (launched_of_reachable ⟨_, hrun⟩) hnext
    | producer ID => exact ih.put (putMove_of_producer hnext)
    | consumer ID => exact ih.take (takeMove_of_consumer hnext)

end Runs

/-- A producer that has not stored its item has room for it. -/
theorem Account.room (h : Account trace s) (hcell : (s.pro ID).unwritten = 1) :
    (writes trace).length < (reads trace).length + bufSize := by
  have hle := le_total Producer.unwritten s.pro ID
  have hfree := h.free
  omega

/-- A consumer that has not loaded its item finds one. -/
theorem Account.available (h : Account trace s) (hitem : (s.con ID).unread = 1) :
    (reads trace).length < (writes trace).length := by
  have hle := le_total Consumer.unread s.con ID
  have hused := h.used
  omega

/-- Two producers do not hold `lock` at once. -/
theorem Account.producers_le (h : Account trace s) : total Producer.holds s.pro ≤ 1 := by
  have hlock := h.lock
  omega

/-- Two consumers do not hold `lock` at once. -/
theorem Account.consumers_le (h : Account trace s) : total Consumer.holds s.con ≤ 1 := by
  have hlock := h.lock
  omega

/-! ### The contents -/

/-- The producer is about to use the value of `in` that it has read. -/
@[simp] def Producer.usesSlot (p : Producer bufSize) : Bool :=
  match p.point with
  | .put _ .store | .put _ .advance => true
  | _ => false

/-- The consumer is about to use the value of `out` that it has read. -/
@[simp] def Consumer.usesSlot (c : Consumer bufSize) : Bool :=
  match c.point with
  | .load | .advance => true
  | _ => false

theorem Producer.holds_of_usesSlot {p : Producer bufSize} (h : p.usesSlot = true) :
    p.holds = 1 := by
  obtain ⟨point, i, data, fullValue, slot⟩ := p
  rcases point with - | - | ⟨last, point⟩ | -
  · exact absurd h (by simp)
  · exact absurd h (by simp)
  · cases point <;> simp at h <;> rfl
  · exact absurd h (by simp)

theorem Consumer.holds_of_usesSlot {c : Consumer bufSize} (h : c.usesSlot = true) :
    c.holds = 1 := by
  obtain ⟨point, data, fullValue, slot⟩ := c
  cases point <;> simp at h <;> rfl

section Contents

variable [NeZero bufSize]

/-- The array holds the items that were stored and not loaded, in the order of the stores. -/
structure Fifo (trace : List (State bufSize num × Thread num)) (s : State bufSize num) :
    Prop where
  slots : ∀ k (h : k < (writes trace).length), ((writes trace)[k]).1 = slotOf bufSize k
  inAt : slotOf bufSize (writes trace).length =
    slotOf bufSize (s.inPos.val + total Producer.pending s.pro)
  outAt : slotOf bufSize (reads trace).length =
    slotOf bufSize (s.outPos.val + total Consumer.pending s.con)
  inRead : ∀ ID, (s.pro ID).usesSlot = true → (s.pro ID).slot = s.inPos
  outRead : ∀ ID, (s.con ID).usesSlot = true → (s.con ID).slot = s.outPos
  cells : Stores s.buffer (puts trace) (reads trace).length
  order : reads trace <+: writes trace

/-- Assumes: a producer about to store. It stores into the cell of the next item. -/
theorem Fifo.store_slot (h : Fifo trace s) (haccount : Account trace s) {last : Bool}
    (hpoint : (s.pro ID).point = .put last .store) :
    (s.pro ID).slot = slotOf bufSize (writes trace).length := by
  have hslot := h.inRead ID (by simp [hpoint])
  have hholds : (s.pro ID).holds = 1 := by simp [hpoint]
  have hpending := total_eq_of_token Producer.pending_le_holds haccount.producers_le hholds
  have hzero : (s.pro ID).pending = 0 := by simp [hpoint]
  rw [hslot, h.inAt, hpending, hzero, Nat.add_zero, slotOf_val]

/-- Assumes: a consumer about to load. It loads the cell of the oldest item. -/
theorem Fifo.load_slot (h : Fifo trace s) (haccount : Account trace s)
    (hpoint : (s.con ID).point = .load) :
    (s.con ID).slot = slotOf bufSize (reads trace).length := by
  have hslot := h.outRead ID (by simp [hpoint])
  have hholds : (s.con ID).holds = 1 := by simp [hpoint]
  have hpending := total_eq_of_token Consumer.pending_le_holds haccount.consumers_le hholds
  have hzero : (s.con ID).pending = 0 := by simp [hpoint]
  rw [hslot, h.outAt, hpending, hzero, Nat.add_zero, slotOf_val]

/-- A step that neither stores nor loads and leaves the indices alone. -/
theorem Fifo.quiet {step : State bufSize num × Thread num} (h : Fifo trace s)
    (hstored : stored step = none) (hloaded : loaded step = none) (hin : s'.inPos = s.inPos)
    (hout : s'.outPos = s.outPos) (hbuffer : s'.buffer = s.buffer)
    (hpro : total Producer.pending s'.pro = total Producer.pending s.pro)
    (hcon : total Consumer.pending s'.con = total Consumer.pending s.con)
    (hinRead : ∀ ID, (s'.pro ID).usesSlot = true → (s'.pro ID).slot = s.inPos)
    (houtRead : ∀ ID, (s'.con ID).usesSlot = true → (s'.con ID).slot = s.outPos) :
    Fifo (trace ++ [step]) s' := by
  have hwrites : writes (trace ++ [step]) = writes trace := by simp [hstored]
  have hreads : reads (trace ++ [step]) = reads trace := by simp [hloaded]
  constructor
  · rw [hwrites]
    exact h.slots
  · rw [hwrites, hin, hpro]
    exact h.inAt
  · rw [hreads, hout, hcon]
    exact h.outAt
  · rwa [hin]
  · rwa [hout]
  · rw [puts_eq, hwrites, hreads, hbuffer]
    exact h.cells
  · rw [hwrites, hreads]
    exact h.order

/-- A step that moves one producer, and neither stores nor advances `in`. -/
theorem Fifo.quiet_put {step : State bufSize num × Thread num} {p : Producer bufSize}
    (h : Fifo trace s) (hstored : stored step = none) (hloaded : loaded step = none)
    (hpro : s'.pro = update s.pro ID p) (hcon : s'.con = s.con)
    (hin : s'.inPos = s.inPos) (hout : s'.outPos = s.outPos) (hbuffer : s'.buffer = s.buffer)
    (hpending : p.pending = (s.pro ID).pending) (hslot : p.usesSlot = true → p.slot = s.inPos) :
    Fifo (trace ++ [step]) s' := by
  refine h.quiet hstored hloaded hin hout hbuffer ?_ ?_ ?_ ?_
  · rw [hpro, total_update_of_eq hpending]
  · rw [hcon]
  · rw [hpro]
    exact (forall_update_iff s.pro fun _ p ↦ p.usesSlot = true → p.slot = s.inPos).mpr
      ⟨hslot, fun ID' _ ↦ h.inRead ID'⟩
  · rw [hcon]
    exact h.outRead

/-- A step that moves one consumer, and neither loads nor advances `out`. -/
theorem Fifo.quiet_take {step : State bufSize num × Thread num} {c : Consumer bufSize}
    (h : Fifo trace s) (hstored : stored step = none) (hloaded : loaded step = none)
    (hcon : s'.con = update s.con ID c) (hpro : s'.pro = s.pro)
    (hin : s'.inPos = s.inPos) (hout : s'.outPos = s.outPos) (hbuffer : s'.buffer = s.buffer)
    (hpending : c.pending = (s.con ID).pending) (hslot : c.usesSlot = true → c.slot = s.outPos) :
    Fifo (trace ++ [step]) s' := by
  refine h.quiet hstored hloaded hin hout hbuffer ?_ ?_ ?_ ?_
  · rw [hpro]
  · rw [hcon, total_update_of_eq hpending]
  · rw [hpro]
    exact h.inRead
  · rw [hcon]
    exact (forall_update_iff s.con fun _ c ↦ c.usesSlot = true → c.slot = s.outPos).mpr
      ⟨hslot, fun ID' _ ↦ h.outRead ID'⟩

/-- A step of the producer that holds `lock` to a point where it does not use its value of `in`. -/
theorem Fifo.producer {p : Producer bufSize} (h : Fifo trace s) (haccount : Account trace s)
    (hholds : (s.pro ID).holds = 1) (huses : p.usesSlot = false)
    (hpro : s'.pro = update s.pro ID p) (hcon : s'.con = s.con)
    (hout : s'.outPos = s.outPos)
    (hslots : ∀ k (hk : k < (writes (trace ++ [(s, .producer ID)])).length),
      ((writes (trace ++ [(s, .producer ID)]))[k]).1 = slotOf bufSize k)
    (hin : slotOf bufSize (writes (trace ++ [(s, .producer ID)])).length =
      slotOf bufSize (s'.inPos.val + p.pending))
    (hcells : Stores s'.buffer (puts (trace ++ [(s, .producer ID)])) (reads trace).length)
    (horder : reads trace <+: writes (trace ++ [(s, .producer ID)])) :
    Fifo (trace ++ [(s, .producer ID)]) s' := by
  have hreads : reads (trace ++ [(s, .producer ID)]) = reads trace := by simp
  refine ⟨hslots, ?_, ?_, ?_, ?_, ?_, ?_⟩
  · rw [hpro, total_update_of_token Producer.pending_le_holds haccount.producers_le hholds]
    exact hin
  · rw [hreads, hout, hcon]
    exact h.outAt
  · rw [hpro]
    refine (forall_update_iff s.pro fun _ p ↦ p.usesSlot = true → p.slot = s'.inPos).mpr
      ⟨fun huses' ↦ absurd huses' (Bool.eq_false_iff.mp huses), fun ID' hne huses' ↦ ?_⟩
    have hzero := token_eq_zero haccount.producers_le hholds hne
    exact absurd (Producer.holds_of_usesSlot huses') (by omega)
  · rw [hcon, hout]
    exact h.outRead
  · rwa [hreads]
  · rwa [hreads]

theorem Fifo.store (h : Fifo trace s) (haccount : Account trace s) {last : Bool}
    (hpoint : (s.pro ID).point = .put last .store) :
    Fifo (trace ++ [(s, .producer ID)])
      ({ s with buffer := update s.buffer (s.pro ID).slot (s.pro ID).data }.setPro ID
        { s.pro ID with point := .put last .readInAgain }) := by
  have hslot := h.store_slot haccount hpoint
  have hwrites : writes (trace ++ [(s, .producer ID)]) =
      writes trace ++ [((s.pro ID).slot, (s.pro ID).data)] := by simp [stored, hpoint]
  refine h.producer haccount (by simp [hpoint]) rfl rfl rfl rfl ?_ ?_ ?_ ?_
  · rw [hwrites]
    intro k hk
    by_cases hlt : k < (writes trace).length
    · rw [List.getElem_append_left hlt]
      exact h.slots k hlt
    · obtain rfl : k = (writes trace).length := by
        rw [List.length_append, List.length_singleton] at hk
        omega
      simpa using hslot
  · have hin := h.inRead ID (by simp [hpoint])
    show _ = slotOf bufSize (s.inPos.val + 1)
    rw [hwrites, List.length_append, List.length_singleton, ← nextSlot_slotOf, ← nextSlot_slotOf,
      ← hslot, hin, slotOf_val]
  · have hroom := haccount.room (show (s.pro ID).unwritten = 1 by simp [hpoint])
    have hput := h.cells.put (by rwa [puts_eq, List.length_map]) (s.pro ID).data
    rw [puts_eq, List.length_map, ← hslot] at hput
    rw [puts_eq, hwrites, List.map_append]
    exact hput
  · rw [hwrites]
    exact h.order.trans (List.prefix_append _ _)

theorem Fifo.advance_in (h : Fifo trace s) (haccount : Account trace s) {last : Bool}
    (hpoint : (s.pro ID).point = .put last .advance) :
    Fifo (trace ++ [(s, .producer ID)]) ({ s with inPos := nextSlot (s.pro ID).slot }.setPro ID
        { s.pro ID with point := .put last .postLock }) := by
  have hholds : (s.pro ID).holds = 1 := by simp [hpoint]
  have hwrites : writes (trace ++ [(s, .producer ID)]) = writes trace := by simp [stored, hpoint]
  refine h.producer haccount hholds rfl rfl rfl rfl ?_ ?_ ?_ ?_
  · rw [hwrites]
    exact h.slots
  · have hin := h.inRead ID (by simp [hpoint])
    have hone : (s.pro ID).pending = 1 := by simp [hpoint]
    show _ = slotOf bufSize (nextSlot (s.pro ID).slot).val
    rw [hwrites, h.inAt, total_eq_of_token Producer.pending_le_holds haccount.producers_le hholds,
      hone, hin, slotOf_val, nextSlot]
  · rw [puts_eq, hwrites]
    exact h.cells
  · rw [hwrites]
    exact h.order

/-- Assumes: a consumer about to load. It loads the oldest item that was not loaded. -/
theorem Fifo.next_load (h : Fifo trace s) (haccount : Account trace s)
    (hpoint : (s.con ID).point = .load) :
    ∃ hlt : (reads trace).length < (writes trace).length,
      (writes trace)[(reads trace).length] = ((s.con ID).slot, s.buffer (s.con ID).slot) := by
  have hlt := haccount.available (show (s.con ID).unread = 1 by simp [hpoint])
  have hslot := h.load_slot haccount hpoint
  refine ⟨hlt, Prod.ext ?_ ?_⟩
  · rw [h.slots _ hlt]
    exact hslot.symm
  · have hcell := h.cells (reads trace).length le_rfl (by rwa [puts_eq, List.length_map])
    show _ = s.buffer (s.con ID).slot
    rw [hslot, hcell]
    simp only [puts_eq, List.getElem_map]

/-- A step of the consumer that holds `lock` to a point where it does not use its value of `out`. -/
theorem Fifo.consumer {c : Consumer bufSize} (h : Fifo trace s) (haccount : Account trace s)
    (hholds : (s.con ID).holds = 1) (huses : c.usesSlot = false)
    (hcon : s'.con = update s.con ID c) (hpro : s'.pro = s.pro)
    (hin : s'.inPos = s.inPos) (hbuffer : s'.buffer = s.buffer)
    (hout : slotOf bufSize (reads (trace ++ [(s, .consumer ID)])).length =
      slotOf bufSize (s'.outPos.val + c.pending))
    (hlength : (reads trace).length ≤ (reads (trace ++ [(s, .consumer ID)])).length)
    (horder : reads (trace ++ [(s, .consumer ID)]) <+: writes trace) :
    Fifo (trace ++ [(s, .consumer ID)]) s' := by
  have hwrites : writes (trace ++ [(s, .consumer ID)]) = writes trace := by simp
  refine ⟨?_, ?_, ?_, ?_, ?_, ?_, ?_⟩
  · rw [hwrites]
    exact h.slots
  · rw [hwrites, hin, hpro]
    exact h.inAt
  · rw [hcon, total_update_of_token Consumer.pending_le_holds haccount.consumers_le hholds]
    exact hout
  · rw [hpro, hin]
    exact h.inRead
  · rw [hcon]
    refine (forall_update_iff s.con fun _ c ↦ c.usesSlot = true → c.slot = s'.outPos).mpr
      ⟨fun huses' ↦ absurd huses' (Bool.eq_false_iff.mp huses), fun ID' hne huses' ↦ ?_⟩
    have hzero := token_eq_zero haccount.consumers_le hholds hne
    exact absurd (Consumer.holds_of_usesSlot huses') (by omega)
  · rw [puts_eq, hwrites, hbuffer]
    exact h.cells.drop hlength
  · rwa [hwrites]

theorem Fifo.load (h : Fifo trace s) (haccount : Account trace s)
    (hpoint : (s.con ID).point = .load) :
    Fifo (trace ++ [(s, .consumer ID)]) (s.setCon ID
      { s.con ID with point := .readOutAgain, data := s.buffer (s.con ID).slot }) := by
  have hreads : reads (trace ++ [(s, .consumer ID)]) =
      reads trace ++ [((s.con ID).slot, s.buffer (s.con ID).slot)] := by simp [loaded, hpoint]
  refine h.consumer haccount (by simp [hpoint]) rfl rfl rfl rfl rfl ?_ ?_ ?_
  · have hout := h.outRead ID (by simp [hpoint])
    show _ = slotOf bufSize (s.outPos.val + 1)
    rw [hreads, List.length_append, List.length_singleton, ← nextSlot_slotOf, ← nextSlot_slotOf,
      ← h.load_slot haccount hpoint, hout, slotOf_val]
  · rw [hreads, List.length_append]
    exact Nat.le_add_right _ _
  · obtain ⟨hlt, hnext⟩ := h.next_load haccount hpoint
    rw [hreads, ← hnext]
    exact List.prefix_iff_eq_take.mpr (by
      rw [List.length_append, List.length_singleton, List.take_succ_eq_append_getElem hlt,
        ← List.prefix_iff_eq_take.mp h.order])

theorem Fifo.advance_out (h : Fifo trace s) (haccount : Account trace s)
    (hpoint : (s.con ID).point = .advance) :
    Fifo (trace ++ [(s, .consumer ID)]) ({ s with outPos := nextSlot (s.con ID).slot }.setCon ID
        { s.con ID with point := .postLock }) := by
  have hholds : (s.con ID).holds = 1 := by simp [hpoint]
  have hreads : reads (trace ++ [(s, .consumer ID)]) = reads trace := by simp [loaded, hpoint]
  refine h.consumer haccount hholds rfl rfl rfl rfl rfl ?_ ?_ ?_
  · have hout := h.outRead ID (by simp [hpoint])
    have hone : (s.con ID).pending = 1 := by simp [hpoint]
    show _ = slotOf bufSize (nextSlot (s.con ID).slot).val
    rw [hreads, h.outAt, total_eq_of_token Consumer.pending_le_holds haccount.consumers_le hholds,
      hone, hout, slotOf_val, nextSlot]
  · rw [hreads]
  · rw [hreads]
    exact h.order

theorem Fifo.put (h : Fifo trace s) (haccount : Account trace s) (hm : PutMove maxNum s ID s') :
    Fifo (trace ++ [(s, .producer ID)]) s' := by
  cases hm with
  | walk hwalk =>
    cases hwalk with
    | loop hpoint | getValue hpoint =>
      refine h.quiet_put (by simp [stored, hpoint]) rfl rfl rfl rfl rfl rfl ?_ ?_ <;>
        simp [hpoint]
  | takeFull hpoint | takeLock hpoint | postLock hpoint =>
    refine h.quiet_put (by simp [stored, hpoint]) rfl rfl rfl rfl rfl rfl ?_ ?_ <;>
      simp [hpoint]
  | readIn hpoint hread =>
    cases hread with
    | first | second =>
      exact h.quiet_put (by simp [stored, hpoint]) rfl rfl rfl rfl rfl rfl
        (by simp [hpoint]) fun _ ↦ rfl
  | store hpoint => exact h.store haccount hpoint
  | advance hpoint => exact h.advance_in haccount hpoint
  | @postEmpty last hpoint =>
    refine h.quiet_put (by simp [stored, hpoint]) rfl rfl rfl rfl rfl rfl ?_ ?_ <;>
      cases last <;> simp [hpoint]

theorem Fifo.take (h : Fifo trace s) (haccount : Account trace s) (hm : TakeMove s ID s') :
    Fifo (trace ++ [(s, .consumer ID)]) s' := by
  cases hm with
  | walk hwalk =>
    have hpoint : (s.con ID).point = .getValue ∨ (s.con ID).point = .test := by
      cases hwalk with
      | getValue hpoint => exact .inl hpoint
      | again hpoint | stop hpoint => exact .inr hpoint
    refine h.quiet_take rfl ?_ rfl rfl rfl rfl rfl ?_ ?_
    · rcases hpoint with hpoint | hpoint <;> simp [loaded, hpoint]
    · cases hwalk <;> simp [*]
    · cases hwalk <;> simp
  | takeEmpty hpoint | takeLock hpoint | postLock hpoint | postFull hpoint =>
    refine h.quiet_take rfl (by simp [loaded, hpoint]) rfl rfl rfl rfl rfl ?_ ?_ <;>
      simp [hpoint]
  | readOut hread =>
    generalize hpoint : (s.con ID).point = point at hread
    cases hread with
    | first | second =>
      exact h.quiet_take rfl (by simp [loaded, hpoint]) rfl rfl rfl rfl rfl
        (by simp [hpoint]) fun _ ↦ rfl
  | load hpoint => exact h.load haccount hpoint
  | advance hpoint => exact h.advance_out haccount hpoint

theorem Fifo.main (h : Fifo trace s) (hlaunched : Launched s)
    (hnext : BoundedBuffer.main s = some s') : Fifo (trace ++ [(s, .main)]) s' := by
  obtain ⟨thread, rest, hcreates, rfl⟩ | ⟨-, _, joins, -, -, rfl⟩ := Launcher.next_cases hnext
  · have hborn : Unborn s thread := (hlaunched.unborn_iff thread).mpr (by simp [hcreates])
    cases thread with
    | main => exact absurd hborn id
    | producer ID =>
      have hpoint : (s.pro ID).point = .unborn := hborn
      refine h.quiet_put rfl rfl rfl rfl rfl rfl rfl ?_ ?_ <;>
        simp [hpoint]
    | consumer ID =>
      have hpoint : (s.con ID).point = .unborn := hborn
      refine h.quiet_take rfl rfl rfl rfl rfl rfl rfl ?_ ?_ <;>
        simp [hpoint]
  · exact h.quiet rfl rfl rfl rfl rfl rfl rfl h.inRead h.outRead

theorem fifo_starts (h : Starts s) : Fifo [] s := by
  constructor
  · simp
  · rw [total_eq_zero fun ID ↦ by simp [h.pro ID], h.inPos]
    simp
  · rw [total_eq_zero fun ID ↦ by simp [h.con ID], h.outPos]
    simp
  · intro ID huses
    simp [h.pro ID] at huses
  · intro ID huses
    simp [h.con ID] at huses
  · exact stores_nil s.buffer
  · exact List.prefix_rfl

theorem fifo_of_exec (h : (program bufSize maxNum num).Exec trace s) : Fifo trace s := by
  induction h with
  | start hs => exact fifo_starts hs
  | @step trace s s' thread hrun hnext ih =>
    cases thread with
    | main => exact ih.main (launched_of_reachable ⟨_, hrun⟩) hnext
    | producer ID => exact ih.put (account_of_exec hrun) (putMove_of_producer hnext)
    | consumer ID => exact ih.take (account_of_exec hrun) (takeMove_of_consumer hnext)

end Contents

end OpenPosix.Semaphores.BoundedBuffer

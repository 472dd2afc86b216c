import OpenPosix.Semaphores.BoundedBufferModel

/-!
# The steps of the producers and consumers

What one step of a producer and of a consumer can do (`PutMove`, `TakeMove`), and how it shows in
the counts: a producer carries a free cell from its wait on `full` to its store and an item from the
store to its post of `empty`; a consumer carries an item from its wait on `empty` to its load and a
free cell from the load to its post of `full`.
`PutMove.account` and `TakeMove.account` say that every step balances the semaphores against what
the thread carries and against the number of stores and loads.
-/

namespace OpenPosix.Semaphores.BoundedBuffer

open Interleaving Function

variable {bufSize num maxNum : ℕ} {s s' : State bufSize num} {ID : Fin num}

attribute [simp] State.setPro State.setCon

/-! ### What a step can do -/

section Moves

variable [NeZero bufSize]

/-- The steps of a producer that touch no shared variable: the test of the loop and the read of the
value of `full`. -/
inductive PutWalk (maxNum : ℕ) (p : Producer bufSize) : Producer bufSize → Prop
  | loop (hpoint : p.point = .loop) :
    PutWalk maxNum p { p with point := .put (decide ¬ p.i < maxNum - 1) .waitFull }
  | getValue {last : Bool} {value : ℕ} (hpoint : p.point = .put last .getValue) :
    PutWalk maxNum p { p with point := .put last .waitLock, fullValue := value }

/-- The two reads of `in`, with the points after them. -/
inductive ReadIn : PutPoint → PutPoint → Prop
  | first : ReadIn .readIn .store
  | second : ReadIn .readInAgain .advance

/-- The end of the body of `producer`, in the loop and after it. -/
@[simp] def Producer.done (p : Producer bufSize) (last : Bool) : Producer bufSize :=
  if last then { p with point := .exited } else { p with point := .loop, i := p.i + 1 }

inductive PutMove (maxNum : ℕ) (s : State bufSize num) (ID : Fin num) :
    State bufSize num → Prop
  | walk {p : Producer bufSize} (hwalk : PutWalk maxNum (s.pro ID) p) :
    PutMove maxNum s ID (s.setPro ID p)
  | takeFull {last : Bool} {value : ℕ} (hpoint : (s.pro ID).point = .put last .waitFull)
      (hfull : s.full = value + 1) :
    PutMove maxNum s ID
      ({ s with full := value }.setPro ID { s.pro ID with point := .put last .getValue })
  | takeLock {last : Bool} {value : ℕ} (hpoint : (s.pro ID).point = .put last .waitLock)
      (hlock : s.lock = value + 1) :
    PutMove maxNum s ID ({ s with lock := value }.setPro ID
      { s.pro ID with point := .put last .readIn, data := item ID (s.pro ID).i last })
  | readIn {last : Bool} {point point' : PutPoint} (hpoint : (s.pro ID).point = .put last point)
      (hread : ReadIn point point') :
    PutMove maxNum s ID (s.setPro ID { s.pro ID with point := .put last point', slot := s.inPos })
  | store {last : Bool} (hpoint : (s.pro ID).point = .put last .store) :
    PutMove maxNum s ID
      ({ s with buffer := Function.update s.buffer (s.pro ID).slot (s.pro ID).data }.setPro ID
        { s.pro ID with point := .put last .readInAgain })
  | advance {last : Bool} (hpoint : (s.pro ID).point = .put last .advance) :
    PutMove maxNum s ID ({ s with inPos := nextSlot (s.pro ID).slot }.setPro ID
      { s.pro ID with point := .put last .postLock })
  | postLock {last : Bool} (hpoint : (s.pro ID).point = .put last .postLock) :
    PutMove maxNum s ID ({ s with lock := s.lock + 1 }.setPro ID
      { s.pro ID with point := .put last .postEmpty })
  | postEmpty {last : Bool} (hpoint : (s.pro ID).point = .put last .postEmpty) :
    PutMove maxNum s ID
      ({ s with empty := s.empty + 1 }.setPro ID ((s.pro ID).done last))

theorem putMove_of_producer (h : producer maxNum s ID = some s') : PutMove maxNum s ID s' := by
  cases hpoint : (s.pro ID).point with
  | unborn | exited => simp [producer, hpoint] at h
  | loop =>
    simp only [producer, hpoint, Option.some.injEq] at h
    exact h ▸ .walk (.loop hpoint)
  | put last point =>
    cases point <;>
      simp only [producer, hpoint, put, Option.some.injEq, map_semWait_eq_some_iff] at h
    case waitFull =>
      obtain ⟨value, hfull, rfl⟩ := h
      exact .takeFull hpoint hfull
    case getValue => exact h ▸ .walk (.getValue hpoint)
    case waitLock =>
      obtain ⟨value, hlock, rfl⟩ := h
      exact .takeLock hpoint hlock
    case readIn => exact h ▸ .readIn hpoint .first
    case store => exact h ▸ .store hpoint
    case readInAgain => exact h ▸ .readIn hpoint .second
    case advance => exact h ▸ .advance hpoint
    case postLock => exact h ▸ .postLock hpoint
    case postEmpty => exact h ▸ .postEmpty hpoint

/-- The two reads of `out`, with the points after them. -/
inductive ReadOut : ConsumerPoint → ConsumerPoint → Prop
  | first : ReadOut .readOut .load
  | second : ReadOut .readOutAgain .advance

/-- The end of the body of `consumer`: the read of the value of `full`, and the test of the loop. -/
inductive TakeWalk (c : Consumer bufSize) : Consumer bufSize → Prop
  | getValue {value : ℕ} (hpoint : c.point = .getValue) :
    TakeWalk c { c with point := .test, fullValue := value }
  | again (hpoint : c.point = .test) (hdata : c.data ≠ -1) :
    TakeWalk c { c with point := .waitEmpty }
  | stop (hpoint : c.point = .test) (hdata : c.data = -1) : TakeWalk c { c with point := .exited }

inductive TakeMove (s : State bufSize num) (ID : Fin num) : State bufSize num → Prop
  | walk {c : Consumer bufSize} (hwalk : TakeWalk (s.con ID) c) : TakeMove s ID (s.setCon ID c)
  | takeEmpty {value : ℕ} (hpoint : (s.con ID).point = .waitEmpty) (hempty : s.empty = value + 1) :
    TakeMove s ID ({ s with empty := value }.setCon ID { s.con ID with point := .waitLock })
  | takeLock {value : ℕ} (hpoint : (s.con ID).point = .waitLock) (hlock : s.lock = value + 1) :
    TakeMove s ID ({ s with lock := value }.setCon ID { s.con ID with point := .readOut })
  | readOut {point : ConsumerPoint} (hread : ReadOut (s.con ID).point point) :
    TakeMove s ID (s.setCon ID { s.con ID with point := point, slot := s.outPos })
  | load (hpoint : (s.con ID).point = .load) :
    TakeMove s ID (s.setCon ID
      { s.con ID with point := .readOutAgain, data := s.buffer (s.con ID).slot })
  | advance (hpoint : (s.con ID).point = .advance) :
    TakeMove s ID ({ s with outPos := nextSlot (s.con ID).slot }.setCon ID
      { s.con ID with point := .postLock })
  | postLock (hpoint : (s.con ID).point = .postLock) :
    TakeMove s ID ({ s with lock := s.lock + 1 }.setCon ID { s.con ID with point := .postFull })
  | postFull (hpoint : (s.con ID).point = .postFull) :
    TakeMove s ID ({ s with full := s.full + 1 }.setCon ID { s.con ID with point := .getValue })

theorem takeMove_of_consumer (h : consumer s ID = some s') : TakeMove s ID s' := by
  cases hpoint : (s.con ID).point <;>
    simp only [consumer, hpoint, Option.some.injEq, map_semWait_eq_some_iff, reduceCtorEq] at h
  case waitEmpty =>
    obtain ⟨value, hempty, rfl⟩ := h
    exact .takeEmpty hpoint hempty
  case waitLock =>
    obtain ⟨value, hlock, rfl⟩ := h
    exact .takeLock hpoint hlock
  case readOut => exact h ▸ .readOut (hpoint ▸ .first)
  case load => exact h ▸ .load hpoint
  case readOutAgain => exact h ▸ .readOut (hpoint ▸ .second)
  case advance => exact h ▸ .advance hpoint
  case postLock => exact h ▸ .postLock hpoint
  case postFull => exact h ▸ .postFull hpoint
  case getValue => exact h ▸ .walk (.getValue hpoint)
  case test =>
    by_cases hdata : (s.con ID).data = -1
    · rw [if_neg (by simpa using hdata)] at h
      exact h ▸ .walk (.stop hpoint hdata)
    · rw [if_pos hdata] at h
      exact h ▸ .walk (.again hpoint hdata)

end Moves

/-! ### What a thread carries -/

@[simp] def Producer.holds (p : Producer bufSize) : ℕ :=
  match p.point with
  | .put _ .readIn | .put _ .store | .put _ .readInAgain | .put _ .advance | .put _ .postLock => 1
  | _ => 0

/-- The producer has a free cell for its item. -/
@[simp] def Producer.unwritten (p : Producer bufSize) : ℕ :=
  match p.point with
  | .put _ .getValue | .put _ .waitLock | .put _ .readIn | .put _ .store => 1
  | _ => 0

/-- The producer has stored an item that it has not announced. -/
@[simp] def Producer.written (p : Producer bufSize) : ℕ :=
  match p.point with
  | .put _ .readInAgain | .put _ .advance | .put _ .postLock | .put _ .postEmpty => 1
  | _ => 0

/-- The producer has stored an item and has not advanced `in`. -/
@[simp] def Producer.pending (p : Producer bufSize) : ℕ :=
  match p.point with
  | .put _ .readInAgain | .put _ .advance => 1
  | _ => 0

@[simp] def Consumer.holds (c : Consumer bufSize) : ℕ :=
  match c.point with
  | .readOut | .load | .readOutAgain | .advance | .postLock => 1
  | _ => 0

/-- The consumer has an item left to load. -/
@[simp] def Consumer.unread (c : Consumer bufSize) : ℕ :=
  match c.point with
  | .waitLock | .readOut | .load => 1
  | _ => 0

/-- The consumer has loaded an item and has not given its cell back. -/
@[simp] def Consumer.read (c : Consumer bufSize) : ℕ :=
  match c.point with
  | .readOutAgain | .advance | .postLock | .postFull => 1
  | _ => 0

/-- The consumer has loaded an item and has not advanced `out`. -/
@[simp] def Consumer.pending (c : Consumer bufSize) : ℕ :=
  match c.point with
  | .readOutAgain | .advance => 1
  | _ => 0

theorem Producer.between_eq (p : Producer bufSize) : p.between = p.unwritten + p.written := by
  obtain ⟨point, i, data, fullValue, slot⟩ := p
  rcases point with - | - | ⟨last, point⟩ | -
  · rfl
  · rfl
  · cases point <;> rfl
  · rfl

theorem Consumer.between_eq (c : Consumer bufSize) : c.between = c.unread + c.read := by
  obtain ⟨point, data, fullValue, slot⟩ := c
  cases point <;> rfl

theorem Producer.pending_le_holds (p : Producer bufSize) : p.pending ≤ p.holds := by
  obtain ⟨point, i, data, fullValue, slot⟩ := p
  rcases point with - | - | ⟨last, point⟩ | -
  · exact le_rfl
  · exact le_rfl
  · cases point <;> simp
  · exact le_rfl

theorem Consumer.pending_le_holds (c : Consumer bufSize) : c.pending ≤ c.holds := by
  obtain ⟨point, data, fullValue, slot⟩ := c
  cases point <;> simp

/-- The steps that store an item. -/
theorem stored_eq_some_iff {thread : Thread num} {slot : Fin bufSize} {data : ℤ} :
    stored (s, thread) = some (slot, data) ↔ ∃ ID last, thread = .producer ID ∧
      (s.pro ID).point = .put last .store ∧ (s.pro ID).slot = slot ∧ (s.pro ID).data = data := by
  constructor
  · intro h
    cases thread with
    | producer ID =>
      simp only [stored] at h
      split at h
      · next last hpoint =>
        obtain ⟨hslot, hdata⟩ := Prod.mk.inj (Option.some.inj h)
        exact ⟨ID, last, rfl, hpoint, hslot, hdata⟩
      · exact absurd h (by simp)
    | _ => exact absurd h (by simp [stored])
  · rintro ⟨ID, last, rfl, hpoint, rfl, rfl⟩
    simp [stored, hpoint]

@[simp] theorem loaded_producer (s : State bufSize num) (ID : Fin num) :
    loaded (s, .producer ID) = none := rfl

@[simp] theorem stored_consumer (s : State bufSize num) (ID : Fin num) :
    stored (s, .consumer ID) = none := rfl

@[simp] theorem stored_main (s : State bufSize num) : stored (s, .main) = none := rfl

@[simp] theorem loaded_main (s : State bufSize num) : loaded (s, .main) = none := rfl

section Account

variable [NeZero bufSize]

/-- How a step of a producer shows in the counts: one producer moves, and the semaphores balance
what it carries and whether it stores an item. -/
theorem PutMove.account (hm : PutMove maxNum s ID s') :
    ∃ p, s'.pro = update s.pro ID p ∧ s'.con = s.con ∧ s'.main = s.main ∧
      s'.outPos = s.outPos ∧ p.point ≠ .unborn ∧ (s.pro ID).point ≠ .unborn ∧
      s'.lock + p.holds = s.lock + (s.pro ID).holds ∧
      s'.full + p.unwritten + (stored (s, .producer ID)).toList.length =
        s.full + (s.pro ID).unwritten ∧
      s'.empty + p.written =
        s.empty + (s.pro ID).written + (stored (s, .producer ID)).toList.length := by
  cases hm with
  | walk hwalk =>
    refine ⟨_, rfl, rfl, rfl, rfl, ?_⟩
    cases hwalk with
    | loop hpoint | getValue hpoint =>
      simp [stored, hpoint]
  | takeFull hpoint hfull =>
    refine ⟨_, rfl, rfl, rfl, rfl, ?_⟩
    simp [stored, hpoint, hfull]
  | takeLock hpoint hlock =>
    refine ⟨_, rfl, rfl, rfl, rfl, ?_⟩
    simp [stored, hpoint, hlock]
  | readIn hpoint hread =>
    refine ⟨_, rfl, rfl, rfl, rfl, ?_⟩
    cases hread <;>
      simp [stored, hpoint]
  | store hpoint | advance hpoint | postLock hpoint =>
    refine ⟨_, rfl, rfl, rfl, rfl, ?_⟩
    simp [stored, hpoint]
  | postEmpty hpoint =>
    refine ⟨_, rfl, rfl, rfl, rfl, ?_⟩
    rename_i last
    cases last <;>
      simp [stored, hpoint]

/-- How a step of a consumer shows in the counts. -/
theorem TakeMove.account (hm : TakeMove s ID s') :
    ∃ c, s'.con = update s.con ID c ∧ s'.pro = s.pro ∧ s'.main = s.main ∧
      s'.inPos = s.inPos ∧ s'.buffer = s.buffer ∧ c.point ≠ .unborn ∧ (s.con ID).point ≠ .unborn ∧
      s'.lock + c.holds = s.lock + (s.con ID).holds ∧
      s'.full + c.read = s.full + (s.con ID).read + (loaded (s, .consumer ID)).toList.length ∧
      s'.empty + c.unread + (loaded (s, .consumer ID)).toList.length =
        s.empty + (s.con ID).unread := by
  cases hm with
  | walk hwalk =>
    refine ⟨_, rfl, rfl, rfl, rfl, rfl, ?_⟩
    cases hwalk with
    | getValue hpoint | again hpoint hdata | stop hpoint hdata =>
      simp [loaded, hpoint]
  | takeEmpty hpoint hempty =>
    refine ⟨_, rfl, rfl, rfl, rfl, rfl, ?_⟩
    simp [loaded, hpoint, hempty]
  | takeLock hpoint hlock =>
    refine ⟨_, rfl, rfl, rfl, rfl, rfl, ?_⟩
    simp [loaded, hpoint, hlock]
  | readOut hread =>
    refine ⟨_, rfl, rfl, rfl, rfl, rfl, ?_⟩
    generalize hpoint : (s.con ID).point = point at hread
    cases hread <;>
      simp [loaded, hpoint]
  | load hpoint | advance hpoint | postLock hpoint | postFull hpoint =>
    refine ⟨_, rfl, rfl, rfl, rfl, rfl, ?_⟩
    simp [loaded, hpoint]

end Account

/-! ### Creation -/

def Unborn (s : State bufSize num) : Thread num → Prop
  | .main => False
  | .producer ID => (s.pro ID).point = .unborn
  | .consumer ID => (s.con ID).point = .unborn

/-- `main` creates each thread once, and only an uncreated one. -/
def Launched (s : State bufSize num) : Prop := s.main.Covers (Unborn s)

theorem nodup_threads (num : ℕ) : (threads num).Nodup := by
  have hpro : Function.Injective (Thread.producer : Fin num → Thread num) :=
    fun _ _ h ↦ Thread.producer.inj h
  have hcon : Function.Injective (Thread.consumer : Fin num → Thread num) :=
    fun _ _ h ↦ Thread.consumer.inj h
  refine List.Nodup.append ((List.nodup_finRange num).map hcon)
    ((List.nodup_finRange num).map hpro) ?_
  intro thread hfirst hsecond
  obtain ⟨ID, -, rfl⟩ := List.mem_map.mp hfirst
  simp at hsecond

theorem launched_create {thread : Thread num} {rest joins : List (Thread num)} (h : Launched s)
    (hcreates : s.main.creates = thread :: rest) :
    Launched (create { s with main := ⟨rest, joins⟩ } thread) := by
  have hmain : (create { s with main := ⟨rest, joins⟩ } thread).main = ⟨rest, joins⟩ := by
    cases thread <;> rfl
  unfold Launched
  rw [hmain]
  refine Launcher.Covers.create h hcreates ?_ (fun other hother ↦ ?_) joins
  · cases thread <;> simp [Unborn, create]
  · cases thread with
    | main => cases other <;> rfl
    | producer ID =>
      cases other with
      | producer ID' =>
        have hne : ID' ≠ ID := fun heq ↦ hother (heq ▸ rfl)
        simp [Unborn, create, update_of_ne hne]
      | _ => rfl
    | consumer ID =>
      cases other with
      | consumer ID' =>
        have hne : ID' ≠ ID := fun heq ↦ hother (heq ▸ rfl)
        simp [Unborn, create, update_of_ne hne]
      | _ => rfl

variable [NeZero bufSize]

theorem launched_starts (h : Starts s) : Launched s := by
  refine ⟨fun thread ↦ ?_, h.main ▸ nodup_threads num⟩
  rw [h.main]
  cases thread with
  | main => simp [Unborn, threads]
  | producer ID => simp [Unborn, threads, h.pro ID]
  | consumer ID => simp [Unborn, threads, h.con ID]

theorem launched_of_reachable (h : (program bufSize maxNum num).Reachable s) : Launched s := by
  refine h.invariant (fun _ ↦ launched_starts) fun s thread s' _ hlaunched hnext ↦ ?_
  cases thread with
  | main =>
    obtain ⟨thread, rest, hcreates, rfl⟩ | ⟨hcreates, _, joins, -, -, rfl⟩ :=
      Launcher.next_cases (show main s = _ from hnext)
    · exact launched_create hlaunched hcreates
    · exact Launcher.Covers.join hlaunched hcreates joins
  | producer ID =>
    obtain ⟨p, hpro, hcon, hmain, -, hborn, hwas, -⟩ := (putMove_of_producer hnext).account
    unfold Launched
    rw [hmain]
    refine Launcher.Covers.congr hlaunched fun other ↦ ?_
    cases other with
    | main => rfl
    | consumer ID' => simp [Unborn, hcon]
    | producer ID' =>
      simp only [Unborn, hpro]
      by_cases heq : ID' = ID
      · subst heq
        simp [hborn, hwas]
      · rw [update_of_ne heq]
  | consumer ID =>
    obtain ⟨c, hcon, hpro, hmain, -, -, hborn, hwas, -⟩ := (takeMove_of_consumer hnext).account
    unfold Launched
    rw [hmain]
    refine Launcher.Covers.congr hlaunched fun other ↦ ?_
    cases other with
    | main => rfl
    | producer ID' => simp [Unborn, hpro]
    | consumer ID' =>
      simp only [Unborn, hcon]
      by_cases heq : ID' = ID
      · subst heq
        simp [hborn, hwas]
      · rw [update_of_ne heq]

end OpenPosix.Semaphores.BoundedBuffer

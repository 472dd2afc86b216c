import OpenPosix.Semaphores.ReaderWriterModel

/-!
# Who owns `w_lock`

The invariant of the readers and writers (`Inv`). `r_lock` has one owner, and `reader_count` is the
number of readers between their increment and their decrement. `w_lock` has one owner as well, but
the readers own it together: from the moment `reader_count` becomes positive to the moment it
becomes zero, except that the first reader still has to take it and the last one still has to post
it (`Reader.first`, `Reader.last`). Both of these hold `r_lock`, so what they have read of
`reader_count` is still so (`Reader.Sees`).
-/

namespace OpenPosix.Semaphores.ReaderWriter

open Interleaving Function

variable {readNum writeNum : ℕ} {s s' : State readNum writeNum}

/-! ### What a reader has -/

variable {count : ℤ} {r : Reader}

@[simp] def Reader.holds (r : Reader) : ℕ :=
  match r.point with
  | .incRead | .incWrite | .testFirst | .waitW | .postR => 1
  | .decRead | .decWrite | .testLast | .postW | .postRAgain => 1
  | _ => 0

/-- The first reader, before it has taken `w_lock`. -/
@[simp] def Reader.first (r : Reader) : ℕ :=
  match r.point with
  | .testFirst => if r.register = 0 then 1 else 0
  | .waitW => 1
  | _ => 0

/-- The last reader, before it has posted `w_lock`. -/
@[simp] def Reader.last (r : Reader) : ℕ :=
  match r.point with
  | .testLast => if r.register = 1 then 1 else 0
  | .postW => 1
  | _ => 0

/-- What a reader knows about the value of `reader_count`. -/
def Reader.Sees (count : ℤ) (r : Reader) : Prop :=
  match r.point with
  | .incWrite | .decWrite => count = r.register
  | .testFirst => count = r.register + 1
  | .waitW => count = 1
  | .testLast => count = r.register - 1
  | .postW => count = 0
  | _ => True

/-- There are readers between their increment and their decrement. -/
def active (count : ℤ) : ℕ := if 0 < count then 1 else 0

theorem active_add_one (h : 0 ≤ count) :
    active (count + 1) = active count + if count = 0 then 1 else 0 := by
  unfold active
  by_cases hzero : count = 0
  · simp [hzero]
  · rw [if_pos (by omega), if_pos (by omega), if_neg hzero]

theorem active_sub_one (h : 1 ≤ count) :
    active (count - 1) + (if count = 1 then 1 else 0) = active count := by
  unfold active
  by_cases hone : count = 1
  · simp [hone]
  · rw [if_pos (by omega), if_neg hone, if_pos (by omega)]

theorem Reader.sees_of_holds_eq_zero (h : r.holds = 0) (count : ℤ) : r.Sees count := by
  obtain ⟨point, register⟩ := r
  cases point <;> simp at h <;> trivial

theorem Reader.first_le_holds (r : Reader) : r.first ≤ r.holds := by
  obtain ⟨point, register⟩ := r
  cases point <;> simp only [Reader.first, Reader.holds] <;> try split
  all_goals simp

theorem Reader.last_le_holds (r : Reader) : r.last ≤ r.holds := by
  obtain ⟨point, register⟩ := r
  cases point <;> simp only [Reader.last, Reader.holds] <;> try split
  all_goals simp

/-- The first reader is counted, and is the only one. -/
theorem Reader.eq_one_of_first (h : 0 < r.first) (hsees : r.Sees count) :
    count = 1 ∧ r.counted = 1 ∧ r.inSection = false := by
  obtain ⟨point, register⟩ := r
  cases point with
  | testFirst =>
    simp only [Reader.first] at h
    split at h
    · next hzero =>
      simp only [Reader.Sees, hzero] at hsees
      exact ⟨by omega, rfl, rfl⟩
    · exact absurd h (lt_irrefl 0)
  | waitW => exact ⟨hsees, rfl, rfl⟩
  | _ => exact absurd h (lt_irrefl 0)

theorem Reader.counted_of_inSection (h : r.inSection = true) : r.counted = 1 := by
  obtain ⟨point, register⟩ := r
  cases point <;> simp [Reader.inSection] at h <;> rfl

/-! ### What a step changes -/

section ReaderSteps

attribute [local simp] State.setRea Reader.Sees Reader.holds Reader.counted Reader.first Reader.last

/-- Assumes: what the reader knows is so, and `reader_count` counts it. One reader moves; `r_lock`
and `w_lock` balance what it holds, and `reader_count` balances whether it is counted. -/
theorem reader_account {ID : Fin readNum} (h : reader s ID = some s')
    (hsees : (s.rea ID).Sees s.readerCount) (hcount : ((s.rea ID).counted : ℤ) ≤ s.readerCount) :
    ∃ r, s'.rea = update s.rea ID r ∧ s'.wri = s.wri ∧ s'.main = s.main ∧
      s'.data = s.data ∧ r.point ≠ .unborn ∧ (s.rea ID).point ≠ .unborn ∧
      r.Sees s'.readerCount ∧
      (s'.readerCount ≠ s.readerCount → (s.rea ID).holds = 1) ∧
      s'.rLock + r.holds = s.rLock + (s.rea ID).holds ∧
      s'.readerCount + (s.rea ID).counted = s.readerCount + r.counted ∧
      s'.wLock + active s'.readerCount + r.last + (s.rea ID).first =
        s.wLock + active s.readerCount + (s.rea ID).last + r.first := by
  cases hr : s.rea ID with
  | mk point register =>
  rw [hr] at hsees hcount
  cases point <;>
    simp only [reader, hr, Option.some.injEq, map_semWait_eq_some_iff, reduceCtorEq] at h
  case waitR | waitRAgain =>
    obtain ⟨value, hlock, rfl⟩ := h
    refine ⟨_, rfl, rfl, rfl, rfl, ?_⟩
    simp [hlock]
  case incWrite =>
    subst h
    refine ⟨_, rfl, rfl, rfl, rfl, by simp, by simp, ?_⟩
    simp only [Reader.Sees, Reader.counted] at hsees hcount
    have hactive := active_add_one (show 0 ≤ register by omega)
    simp only [State.setRea, Reader.Sees, Reader.holds, Reader.counted, Reader.first, Reader.last,
      hsees]
    refine ⟨trivial, fun _ ↦ trivial, trivial, by simp, ?_⟩
    omega
  case testFirst =>
    subst h
    simp only [Reader.Sees] at hsees
    refine ⟨_, rfl, rfl, rfl, rfl, ?_⟩
    by_cases hone : s.readerCount = 1
    · have hzero : register = 0 := by omega
      simp [hone, hzero]
    · have hne : register ≠ 0 := by omega
      simp [hone, hne]
  case waitW =>
    obtain ⟨value, hlock, rfl⟩ := h
    refine ⟨_, rfl, rfl, rfl, rfl, ?_⟩
    simp
    omega
  case incRead | postR | readBoard | decRead | postRAgain =>
    subst h
    refine ⟨_, rfl, rfl, rfl, rfl, ?_⟩
    simp
  case decWrite =>
    subst h
    refine ⟨_, rfl, rfl, rfl, rfl, by simp, by simp, ?_⟩
    simp only [Reader.Sees, Reader.counted] at hsees hcount
    have hactive := active_sub_one (show 1 ≤ register by omega)
    simp only [State.setRea, Reader.Sees, Reader.holds, Reader.counted, Reader.first, Reader.last,
      hsees]
    refine ⟨trivial, fun _ ↦ trivial, trivial, by simp, ?_⟩
    omega
  case testLast =>
    subst h
    simp only [Reader.Sees] at hsees
    refine ⟨_, rfl, rfl, rfl, rfl, ?_⟩
    by_cases hzero : s.readerCount = 0
    · have hone : register = 1 := by omega
      simp [hzero, hone]
    · have hne : register ≠ 1 := by omega
      simp [hzero, hne]
  case postW =>
    subst h
    refine ⟨_, rfl, rfl, rfl, rfl, ?_⟩
    simp
    omega

end ReaderSteps

/-- One writer moves, and `w_lock` balances whether it is in its section. Only a writer in its
section writes `data`. -/
theorem writer_account {ID : Fin writeNum} (h : writer s ID = some s') :
    ∃ point, s'.wri = update s.wri ID point ∧ s'.rea = s.rea ∧ s'.main = s.main ∧
      s'.rLock = s.rLock ∧ s'.readerCount = s.readerCount ∧ point ≠ .unborn ∧
      s.wri ID ≠ .unborn ∧ (s'.data ≠ s.data → (s.wri ID).inSection = 1) ∧
      s'.wLock + point.inSection = s.wLock + (s.wri ID).inSection := by
  cases hpoint : s.wri ID with
  | unborn | exited => simp [writer, hpoint] at h
  | waitW =>
    simp only [writer, hpoint, map_semWait_eq_some_iff] at h
    obtain ⟨value, hlock, rfl⟩ := h
    exact ⟨_, rfl, rfl, rfl, rfl, rfl, by simp, by simp, fun hne ↦ absurd rfl hne,
      by simp [State.setWri, WriterPoint.inSection, hlock]⟩
  | writeBoard =>
    simp only [writer, hpoint] at h
    cases h
    exact ⟨_, rfl, rfl, rfl, rfl, rfl, by simp, by simp, fun _ ↦ rfl, rfl⟩
  | postW =>
    simp only [writer, hpoint] at h
    cases h
    exact ⟨_, rfl, rfl, rfl, rfl, rfl, by simp, by simp, fun hne ↦ absurd rfl hne, rfl⟩

/-! ### The invariant -/

def Unborn (s : State readNum writeNum) : Thread readNum writeNum → Prop
  | .main => False
  | .reader ID => (s.rea ID).point = .unborn
  | .writer ID => s.wri ID = .unborn

/-- What holds between any two steps of the program. -/
structure Inv (s : State readNum writeNum) : Prop where
  launched : s.main.Covers (Unborn s)
  joins : Thread.main ∉ s.main.joins
  rToken : s.rLock + total Reader.holds s.rea = 1
  count : s.readerCount = total Reader.counted s.rea
  sees : ∀ ID, (s.rea ID).Sees s.readerCount
  wToken : s.wLock + total WriterPoint.inSection s.wri + active s.readerCount +
    total Reader.last s.rea = 1 + total Reader.first s.rea

theorem Inv.counted_le (h : Inv s) (ID : Fin readNum) :
    ((s.rea ID).counted : ℤ) ≤ s.readerCount := by
  rw [h.count]
  exact_mod_cast le_total Reader.counted s.rea ID

/-- Two readers do not hold `r_lock` at once. -/
theorem Inv.other_holds {ID ID' : Fin readNum} (h : Inv s) (hholds : (s.rea ID).holds = 1)
    (hne : ID' ≠ ID) : (s.rea ID').holds = 0 := by
  have hpair := pair_le_total Reader.holds s.rea hne
  have htoken := h.rToken
  omega

theorem inv_reader {ID : Fin readNum} (h : Inv s) (hnext : reader s ID = some s') : Inv s' := by
  obtain ⟨r, hrea, hwri, hmain, -, hborn, hwas, hsees, hchange, hrLock, hcount, hwLock⟩ :=
    reader_account hnext (h.sees ID) (h.counted_le ID)
  have hholds := total_update Reader.holds s.rea ID r
  have hcounted := total_update Reader.counted s.rea ID r
  have hfirst := total_update Reader.first s.rea ID r
  have hlast := total_update Reader.last s.rea ID r
  have hrToken := h.rToken
  have hwToken := h.wToken
  constructor
  · rw [hmain]
    refine h.launched.congr fun thread ↦ ?_
    cases thread with
    | main => rfl
    | writer ID' => simp only [Unborn, hwri]
    | reader ID' =>
      simp only [Unborn, hrea]
      by_cases heq : ID' = ID
      · subst heq
        simp [hborn, hwas]
      · rw [update_of_ne heq]
  · rw [hmain]
    exact h.joins
  · rw [hrea]
    omega
  · have hbefore := h.count
    rw [hrea]
    omega
  · intro ID'
    rw [hrea]
    by_cases heq : ID' = ID
    · subst heq
      rwa [update_self]
    · rw [update_of_ne heq]
      by_cases hsame : s'.readerCount = s.readerCount
      · rw [hsame]
        exact h.sees ID'
      · exact Reader.sees_of_holds_eq_zero (h.other_holds (hchange hsame) heq) _
  · rw [hrea, hwri]
    omega

theorem inv_writer {ID : Fin writeNum} (h : Inv s) (hnext : writer s ID = some s') : Inv s' := by
  obtain ⟨point, hwri, hrea, hmain, hrLock, hcount, hborn, hwas, -, hwLock⟩ := writer_account hnext
  have hsection := total_update WriterPoint.inSection s.wri ID point
  have hwToken := h.wToken
  constructor
  · rw [hmain]
    refine h.launched.congr fun thread ↦ ?_
    cases thread with
    | main => rfl
    | reader ID' => simp only [Unborn, hrea]
    | writer ID' =>
      simp only [Unborn, hwri]
      by_cases heq : ID' = ID
      · subst heq
        simp [hborn, hwas]
      · rw [update_of_ne heq]
  · rw [hmain]
    exact h.joins
  · rw [hrLock, hrea]
    exact h.rToken
  · rw [hcount, hrea]
    exact h.count
  · rw [hcount, hrea]
    exact h.sees
  · rw [hcount, hrea, hwri]
    omega

/-- A new thread has nothing. -/
theorem inv_create {thread : Thread readNum writeNum} {rest : List (Thread readNum writeNum)}
    (h : Inv s) (hcreates : s.main.creates = thread :: rest) :
    Inv (create { s with main := ⟨rest, s.main.joins⟩ } thread) := by
  have hborn : Unborn s thread := (h.launched.unborn_iff thread).mpr (by simp [hcreates])
  cases thread with
  | main => exact absurd hborn id
  | reader ID =>
    have hpoint : (s.rea ID).point = .unborn := hborn
    constructor
    · refine h.launched.create hcreates (by simp [Unborn, create, State.setRea]) ?_ _
      intro other hother
      cases other with
      | reader ID' =>
        have hne : ID' ≠ ID := fun heq ↦ hother (heq ▸ rfl)
        simp [Unborn, create, State.setRea, update_of_ne hne]
      | _ => rfl
    · exact h.joins
    · show s.rLock + total Reader.holds (update s.rea ID _) = 1
      rw [total_update_of_eq (by simp [hpoint])]
      exact h.rToken
    · show s.readerCount = (total Reader.counted (update s.rea ID _) : ℕ)
      rw [total_update_of_eq (by simp [Reader.counted, hpoint])]
      exact h.count
    · intro ID'
      show Reader.Sees s.readerCount (update s.rea ID _ ID')
      by_cases heq : ID' = ID
      · subst heq
        rw [update_self]
        trivial
      · rw [update_of_ne heq]
        exact h.sees ID'
    · show s.wLock + total WriterPoint.inSection s.wri + active s.readerCount +
        total Reader.last (update s.rea ID _) = 1 + total Reader.first (update s.rea ID _)
      rw [total_update_of_eq (by simp [hpoint]), total_update_of_eq (by simp [hpoint])]
      exact h.wToken
  | writer ID =>
    have hpoint : s.wri ID = .unborn := hborn
    refine ⟨?_, h.joins, h.rToken, h.count, h.sees, ?_⟩
    · refine h.launched.create hcreates (by simp [Unborn, create, State.setWri]) ?_ _
      intro other hother
      cases other with
      | writer ID' =>
        have hne : ID' ≠ ID := fun heq ↦ hother (heq ▸ rfl)
        simp [Unborn, create, State.setWri, update_of_ne hne]
      | _ => rfl
    · show s.wLock + total WriterPoint.inSection (update s.wri ID _) +
        active s.readerCount + total Reader.last s.rea = 1 + total Reader.first s.rea
      rw [total_update_of_eq (by rw [hpoint]; rfl)]
      exact h.wToken

theorem inv_main (h : Inv s) (hnext : main s = some s') : Inv s' := by
  obtain ⟨thread, rest, hcreates, rfl⟩ | ⟨hcreates, thread, joins, hjoins, -, rfl⟩ :=
    Launcher.next_cases hnext
  · exact inv_create h hcreates
  · have hrest : Thread.main ∉ joins := fun hmem ↦
      h.joins (hjoins ▸ List.mem_cons_of_mem thread hmem)
    exact ⟨h.launched.join hcreates joins, hrest, h.rToken, h.count, h.sees, h.wToken⟩

theorem inv_start (readNum writeNum : ℕ) : Inv (start readNum writeNum) := by
  constructor
  · refine ⟨fun thread ↦ ?_, ?_⟩
    · cases thread <;> simp [Unborn, start, readers, writers]
    · have hrea : Function.Injective (Thread.reader : Fin readNum → Thread readNum writeNum) :=
        fun _ _ h ↦ Thread.reader.inj h
      have hwri : Function.Injective (Thread.writer : Fin writeNum → Thread readNum writeNum) :=
        fun _ _ h ↦ Thread.writer.inj h
      refine List.Nodup.append ((List.nodup_finRange writeNum).map hwri)
        ((List.nodup_finRange readNum).map hrea) ?_
      intro thread hfirst hsecond
      obtain ⟨ID, -, rfl⟩ := List.mem_map.mp hfirst
      simp [readers] at hsecond
  · simp [start, readers, writers]
  · have hholds : total Reader.holds (start readNum writeNum).rea = 0 := total_eq_zero fun _ ↦ rfl
    rw [hholds]
    rfl
  · have hcounted : total Reader.counted (start readNum writeNum).rea = 0 :=
      total_eq_zero fun _ ↦ rfl
    rw [hcounted]
    rfl
  · intro ID
    trivial
  · have hsection : total WriterPoint.inSection (start readNum writeNum).wri = 0 :=
      total_eq_zero fun _ ↦ rfl
    have hfirst : total Reader.first (start readNum writeNum).rea = 0 := total_eq_zero fun _ ↦ rfl
    have hlast : total Reader.last (start readNum writeNum).rea = 0 := total_eq_zero fun _ ↦ rfl
    rw [hsection, hfirst, hlast]
    rfl

theorem inv_of_reachable (h : (program readNum writeNum).Reachable s) : Inv s := by
  refine h.invariant (fun s hs ↦ hs ▸ inv_start readNum writeNum) fun s thread s' _ hinv hnext ↦ ?_
  cases thread with
  | main => exact inv_main hinv hnext
  | reader ID => exact inv_reader hinv hnext
  | writer ID => exact inv_writer hinv hnext

end OpenPosix.Semaphores.ReaderWriter

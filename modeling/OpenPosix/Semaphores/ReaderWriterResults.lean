import OpenPosix.Semaphores.ReaderWriterInvariant

/-!
# Exclusion and progress of the readers and writers

`board_exclusive` is about every reachable state of every number of readers and writers: one writer
at a time, no writer while a reader is in its read section, `reader_count` is exact, the board does
not change under a reader, and no thread is left waiting for ever. The last reader to leave may be
another thread than the one that took `w_lock`; the argument is the balance of `Inv.wToken`.
-/

namespace OpenPosix.Semaphores.ReaderWriter

open Interleaving

variable {readNum writeNum : ℕ} {s : State readNum writeNum}

/-! ### Exclusion -/

variable {ID : Fin readNum}

/-- The first reader has announced itself in `reader_count`. -/
theorem Inv.first_le_active (h : Inv s) : total Reader.first s.rea ≤ active s.readerCount := by
  have hle := total_mono fun ID ↦ Reader.first_le_holds (s.rea ID)
  have hrToken := h.rToken
  by_cases hzero : total Reader.first s.rea = 0
  · omega
  · obtain ⟨ID, hID⟩ := exists_pos_of_total_pos (Nat.pos_of_ne_zero hzero)
    have hone := (Reader.eq_one_of_first hID (h.sees ID)).1
    rw [hone, show active 1 = 1 from rfl]
    omega

/-- At most one writer is in its section. -/
theorem Inv.writers_le_one (h : Inv s) : total WriterPoint.inSection s.wri ≤ 1 := by
  have hwToken := h.wToken
  have hfirst := h.first_le_active
  omega

/-- While a reader is in its read section no reader is still taking `w_lock`: such a one would be
the only one counted. -/
theorem Inv.first_eq_zero (h : Inv s) (hsection : (s.rea ID).inSection = true) :
    total Reader.first s.rea = 0 := by
  by_contra hne
  obtain ⟨ID', hfirst⟩ := exists_pos_of_total_pos (Nat.pos_of_ne_zero hne)
  obtain ⟨hone, hcounted', hsection'⟩ := Reader.eq_one_of_first hfirst (h.sees ID')
  have hdistinct : ID' ≠ ID := by
    intro heq
    rw [heq, hsection] at hsection'
    exact absurd hsection' (by simp)
  have hpair := pair_le_total Reader.counted s.rea hdistinct
  rw [Reader.counted_of_inSection hsection, hcounted'] at hpair
  have hcount := h.count
  omega

/-- While a reader is in its read section no writer is in its section. -/
theorem Inv.no_writer (h : Inv s) (hsection : (s.rea ID).inSection = true) :
    total WriterPoint.inSection s.wri = 0 := by
  have hle := h.counted_le ID
  rw [Reader.counted_of_inSection hsection] at hle
  have hactive : active s.readerCount = 1 := if_pos (by omega)
  have hfirst := h.first_eq_zero hsection
  have hwToken := h.wToken
  omega

/-! ### Progress -/

/-- A reader at none of its waits has a step. -/
theorem reader_isSome_iff : (reader s ID).isSome ↔ match (s.rea ID).point with
    | .unborn | .exited => False
    | .waitR | .waitRAgain => 0 < s.rLock
    | .waitW => 0 < s.wLock
    | _ => True := by
  cases hpoint : (s.rea ID).point <;> simp [reader, hpoint]

/-- A writer at none of its waits has a step. -/
theorem writer_isSome_iff {ID : Fin writeNum} : (writer s ID).isSome ↔ match s.wri ID with
    | .unborn | .exited => False
    | .waitW => 0 < s.wLock
    | _ => True := by
  cases hpoint : s.wri ID <;> simp [writer, hpoint]

/-- All threads exist, and no reader and no writer has a step. -/
structure Blocked (s : State readNum writeNum) : Prop where
  rea : ∀ ID, ¬ (reader s ID).isSome
  wri : ∀ ID, ¬ (writer s ID).isSome
  born : ∀ thread, ¬ Unborn s thread

theorem Blocked.no_writer (h : Blocked s) : total WriterPoint.inSection s.wri = 0 := by
  apply total_eq_zero
  intro ID
  have hstep := h.wri ID
  rw [writer_isSome_iff] at hstep
  cases hpoint : s.wri ID <;> simp [hpoint, WriterPoint.inSection] at hstep ⊢

/-- Assumes: no thread has a step. `r_lock` is free: its holder could only be the first reader at
its wait for `w_lock`, and then `w_lock` would be free. -/
theorem Blocked.rLock_pos (h : Blocked s) (hinv : Inv s) : 0 < s.rLock := by
  by_contra hzero
  have hrToken := hinv.rToken
  have hpositive : 0 < total Reader.holds s.rea := by omega
  obtain ⟨ID, hholds⟩ := exists_pos_of_total_pos hpositive
  have hstep := h.rea ID
  rw [reader_isSome_iff] at hstep
  have hpoint : (s.rea ID).point = .waitW ∧ s.wLock = 0 := by
    cases hpoint : (s.rea ID).point <;> simp [hpoint] at hholds hstep
    exact ⟨rfl, hstep⟩
  have hone : s.readerCount = 1 := by
    have hsees := hinv.sees ID
    simpa [Reader.Sees, hpoint.1] using hsees
  have hholder : (s.rea ID).holds = 1 := by simp [hpoint.1]
  have hlast : total Reader.last s.rea = 0 := by
    apply total_eq_zero
    intro ID'
    by_cases heq : ID' = ID
    · rw [heq]
      simp [hpoint.1]
    · have hle := Reader.last_le_holds (s.rea ID')
      have hother := hinv.other_holds hholder heq
      omega
  have hfirst : 1 ≤ total Reader.first s.rea := by
    have hle := le_total Reader.first s.rea ID
    simpa [hpoint.1] using hle
  have hwToken := hinv.wToken
  rw [hone, show active 1 = 1 from rfl, h.no_writer, hlast, hpoint.2] at hwToken
  omega

/-- Assumes: no thread has a step. All readers have exited. -/
theorem Blocked.readers_exited (h : Blocked s) (hinv : Inv s) (ID : Fin readNum) :
    (s.rea ID).point = .exited := by
  have hrLock := h.rLock_pos hinv
  have hrToken := hinv.rToken
  have hle := le_total Reader.holds s.rea ID
  have hholds : (s.rea ID).holds = 0 := by omega
  have hborn : (s.rea ID).point ≠ .unborn := h.born (.reader ID)
  have hstep := h.rea ID
  rw [reader_isSome_iff] at hstep
  cases hpoint : (s.rea ID).point with
  | exited => rfl
  | unborn => exact absurd hpoint hborn
  | waitW => simp [hpoint] at hholds
  | waitR | waitRAgain => simp [hpoint, hrLock] at hstep
  | _ => simp [hpoint] at hstep

/-- Assumes: no thread has a step. All writers have exited: without a reader `w_lock` is free. -/
theorem Blocked.writers_exited (h : Blocked s) (hinv : Inv s) (ID : Fin writeNum) :
    s.wri ID = .exited := by
  have hexited := h.readers_exited hinv
  have hfirst : total Reader.first s.rea = 0 :=
    total_eq_zero fun ID ↦ by simp [hexited ID]
  have hlast : total Reader.last s.rea = 0 :=
    total_eq_zero fun ID ↦ by simp [hexited ID]
  have hcounted : total Reader.counted s.rea = 0 :=
    total_eq_zero fun ID ↦ by simp [Reader.counted, hexited ID]
  have hwToken := hinv.wToken
  rw [hinv.count, hcounted, hfirst, hlast, h.no_writer, show active ((0 : ℕ) : ℤ) = 0 from rfl]
    at hwToken
  have hborn : s.wri ID ≠ .unborn := h.born (.writer ID)
  have hstep := h.wri ID
  rw [writer_isSome_iff] at hstep
  cases hpoint : s.wri ID with
  | exited => rfl
  | unborn => exact absurd hpoint hborn
  | waitW =>
    simp only [hpoint] at hstep
    omega
  | _ => simp [hpoint] at hstep

/-- A reader or a writer that has not exited: one of them has a step, or `main` has a thread to
create and can create it. -/
theorem Inv.progress (h : Inv s)
    (hunfinished : (∃ ID, (s.rea ID).point ≠ .exited) ∨ ∃ ID, s.wri ID ≠ .exited) :
    (∃ ID, (program readNum writeNum).Enabled s (.reader ID)) ∨
    (∃ ID, (program readNum writeNum).Enabled s (.writer ID)) ∨
    s.main.creates ≠ [] ∧ (program readNum writeNum).Enabled s .main := by
  by_cases hcreates : s.main.creates = []
  · by_contra hnone
    push Not at hnone
    have hblocked : Blocked s := by
      refine ⟨fun ID hID ↦ hnone.1 ID hID, fun ID hID ↦ hnone.2.1 ID hID, fun thread hborn ↦ ?_⟩
      simpa [hcreates] using (h.launched.unborn_iff thread).mp hborn
    rcases hunfinished with ⟨ID, hrea⟩ | ⟨ID, hwri⟩
    · exact hrea (hblocked.readers_exited h ID)
    · exact hwri (hblocked.writers_exited h ID)
  · refine .inr (.inr ⟨hcreates, ?_⟩)
    show (main s).isSome = true
    exact Launcher.next_isSome hcreates

/-- As long as `main` has threads to create or to join, some thread has a step. -/
theorem Inv.main_progress (h : Inv s) (hmain : s.main ≠ ⟨[], []⟩) :
    ∃ thread, (program readNum writeNum).Enabled s thread := by
  by_cases hunfinished : (∃ ID, (s.rea ID).point ≠ .exited) ∨ ∃ ID, s.wri ID ≠ .exited
  · rcases h.progress hunfinished with ⟨ID, hID⟩ | ⟨ID, hID⟩ | ⟨-, hmain⟩
    · exact ⟨_, hID⟩
    · exact ⟨_, hID⟩
    · exact ⟨_, hmain⟩
  · push Not at hunfinished
    have hjoins := h.joins
    refine ⟨.main, ?_⟩
    show (main s).isSome
    unfold main Launcher.next
    split
    · rfl
    · next thread rest heq =>
      have hexited : exited s thread = true := by
        cases thread with
        | main => exact absurd (by simp [heq]) hjoins
        | reader ID => simpa [exited] using hunfinished.1 ID
        | writer ID => simpa [exited] using hunfinished.2 ID
      rw [if_pos hexited]
      rfl
    · next heq => exact absurd heq hmain

/-- Assumes: a reachable state. Two writers are never both between `sem_wait(&w_lock)` and
`sem_post(&w_lock)`, and no writer is there while a reader is in its read section. `reader_count` is
the number of readers between their increment and their decrement. No step changes `data` while a
reader is in its read section. If a reader or a writer has not exited, one of them has a step or
`main` can create the next thread; and some thread has a step as long as `main` has not ended. -/
theorem board_exclusive (readNum writeNum : ℕ) (s : State readNum writeNum)
    (h : (program readNum writeNum).Reachable s) :
    (∀ ID ID', ID ≠ ID' → ¬ ((s.wri ID).inSection = 1 ∧ (s.wri ID').inSection = 1)) ∧
    (∀ ID ID', ¬ ((s.rea ID).inSection = true ∧ (s.wri ID').inSection = 1)) ∧
    s.readerCount = total Reader.counted s.rea ∧
    (∀ thread s', (program readNum writeNum).next s thread = some s' →
      (∃ ID, (s.rea ID).inSection = true) → s'.data = s.data) ∧
    ((∃ ID, (s.rea ID).point ≠ .exited) ∨ (∃ ID, s.wri ID ≠ .exited) →
      (∃ ID, (program readNum writeNum).Enabled s (.reader ID)) ∨
      (∃ ID, (program readNum writeNum).Enabled s (.writer ID)) ∨
      s.main.creates ≠ [] ∧ (program readNum writeNum).Enabled s .main) ∧
    (s.main ≠ ⟨[], []⟩ → ∃ thread, (program readNum writeNum).Enabled s thread) := by
  have hinv := inv_of_reachable h
  refine ⟨?_, ?_, hinv.count, ?_, hinv.progress, hinv.main_progress⟩
  · rintro ID ID' hne ⟨hfirst, hsecond⟩
    have hpair := pair_le_total WriterPoint.inSection s.wri hne
    have hle := hinv.writers_le_one
    omega
  · rintro ID ID' ⟨hread, hwrite⟩
    have hle := le_total WriterPoint.inSection s.wri ID'
    have hzero := hinv.no_writer hread
    omega
  · rintro thread s' hnext ⟨ID, hread⟩
    cases thread with
    | main =>
      obtain ⟨thread, rest, -, rfl⟩ | ⟨-, thread, joins, -, -, rfl⟩ :=
        Launcher.next_cases (show main s = _ from hnext)
      · cases thread <;> rfl
      · rfl
    | reader ID' =>
      obtain ⟨r, -, -, -, hdata, -⟩ :=
        reader_account hnext (hinv.sees ID') (hinv.counted_le ID')
      exact hdata
    | writer ID' =>
      obtain ⟨point, -, -, -, -, -, -, -, hdata, -⟩ := writer_account hnext
      by_contra hne
      have hle := le_total WriterPoint.inSection s.wri ID'
      have hzero := hinv.no_writer hread
      omega

/-- Two readers get to the board while a writer waits. -/
def bothRead : List (Thread 2 1) :=
  [.main, .main, .main] ++ List.replicate 6 (.reader ⟨0, Nat.zero_lt_two⟩) ++
    List.replicate 5 (.reader ⟨1, Nat.one_lt_two⟩)

/-- The writer is blocked outside its section, and `reader_count` is two. -/
theorem board_exclusive_bothRead :
    ∃ s, (program 2 1).runSchedule (start 2 1) bothRead = some s ∧ writer s 0 = none ∧
      (s.wri 0).inSection ≠ 1 ∧ s.readerCount = 2 ∧ ∃ thread, (program 2 1).Enabled s thread := by
  obtain ⟨s, hrun, hblocked, hread, hcounted, hjoins⟩ :
      ∃ s, (program 2 1).runSchedule (start 2 1) bothRead = some s ∧ writer s 0 = none ∧
        (s.rea 0).inSection = true ∧ (s.rea 0).counted + (s.rea 1).counted = 2 ∧
        s.main.joins.length = 3 :=
    ⟨_, rfl, rfl, rfl, rfl, rfl⟩
  have hreach := (System.reachable_of_initial (P := program 2 1) rfl).runSchedule hrun
  obtain ⟨-, hexclusive, hcount, -, -, hprogress⟩ := board_exclusive 2 1 s hreach
  have hmain : s.main ≠ ⟨[], []⟩ := by
    intro hend
    simp [hend] at hjoins
  refine ⟨s, hrun, hblocked, fun hwrite ↦ hexclusive 0 0 ⟨hread, hwrite⟩, ?_, hprogress hmain⟩
  rw [hcount, total, Fin.sum_univ_two, hcounted]
  rfl

end OpenPosix.Semaphores.ReaderWriter

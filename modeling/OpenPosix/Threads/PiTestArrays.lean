import Mathlib.Data.List.Basic
import Mathlib.Data.Set.Basic

/-!
# The arrays of the priority-inheritance tests

`functional/threads/pi_test/pitest-1.c` and `pitest-3.c`. `main` starts one thread `TF` for every
processor but one, and keeps their handles in the array `threads` and their parameters in the table
`tp`, after the entries of the other threads. At the end it sets the flag `stop` in the entries.
Another thread, the sampler, reads the field `progress` of the entries meanwhile.

The array `threads` has `cpus - 1` elements, but its declaration is reached while the global `cpus`
is still 0. The table has six entries for `TF` threads. The loop that stops the threads runs over
the indices of `threads`, not over those of the table, and starts at 2.

`main` and the sampler are modelled as the list of their accesses to the two arrays. For each of the
three problems there is a lemma that says from which number of processors on it appears, and
`arrays_correct_iff` puts them together: the programs are right with one processor only.
-/

namespace OpenPosix.Threads.PiTest

/-- The field `name` of an entry of the table. -/
inductive Name
  | TL
  | TP
  | TP1
  | TP2
  | TF
  deriving DecidableEq, Repr

inductive Access
  /-- `&threads[i]`, for the handle of a new thread -/
  | handle (i : ℤ)
  /-- `&tp[i]`, as the parameter of a new thread -/
  | start (i : ℤ)
  /-- `tp[i].stop = 1` -/
  | stop (i : ℤ)
  /-- `tp[i].progress` -/
  | sample (i : ℤ)
  deriving DecidableEq, Repr

/-- The value of the global `cpus` when `main` is entered. -/
def initialCpus : ℤ := 0

/-- The number of elements that `threads` is declared with. -/
def threadsSize : ℤ := initialCpus - 1

def forLoop (first bound : ℤ) (body : ℤ → List Access) : List Access :=
  ((List.range (bound - first).toNat).map fun k : ℕ ↦ first + (k : ℤ)).flatMap body

/-- What the two programs differ in: the table, the index of the first entry for a `TF` thread, the
entries of the `TP` threads, and the number of entries that the sampler reads. -/
structure Program where
  tp : List Name
  firstTF : ℤ
  tps : List ℤ
  sampled : ℤ → ℤ

def pitest1 : Program where
  tp := [.TL, .TP, .TF, .TF, .TF, .TF, .TF, .TF]
  firstTF := 2
  tps := [1]
  sampled := fun cpus ↦ cpus + 1

def pitest3 : Program where
  tp := [.TL, .TP1, .TP2, .TF, .TF, .TF, .TF, .TF, .TF]
  firstTF := 3
  tps := [1, 2]
  sampled := fun cpus ↦ cpus + 2

/-- The accesses of `main`: it starts the `TF` threads, the `TP` threads and `TL`, and stops them.
-/
@[simp] def Program.main (p : Program) (cpus : ℤ) : List Access :=
  forLoop 0 (cpus - 1) (fun i ↦ [.handle i, .start (i + p.firstTF)]) ++
    p.tps.map .start ++ [.start 0, .stop 0] ++ p.tps.map .stop ++
    forLoop 2 (cpus - 1) fun i ↦ [.stop i]

/-- The accesses of the sampler in one round. -/
def Program.threadSample (p : Program) (cpus : ℤ) : List Access :=
  forLoop 0 (p.sampled cpus) fun i ↦ [.sample i]

/-! ### What is asked -/

/-- The access is to an element that exists. -/
def Program.InBounds (p : Program) : Access → Prop
  | .handle i => 0 ≤ i ∧ i < threadsSize
  | .start i | .stop i | .sample i => 0 ≤ i ∧ i < p.tp.length

/-- The entries of the `TF` threads that `main` starts. -/
def Program.started (p : Program) (cpus : ℤ) : Set ℤ :=
  { i | p.firstTF ≤ i ∧ .start i ∈ p.main cpus }

/-- The entries for `TF` threads that `main` sets `stop` in. -/
def Program.stopped (p : Program) (cpus : ℤ) : Set ℤ :=
  { i | p.firstTF ≤ i ∧ .stop i ∈ p.main cpus }

/-- Every access is to an element that exists, and `main` stops the `TF` threads it has started. -/
def Program.Correct (p : Program) (cpus : ℤ) : Prop :=
  (∀ access ∈ p.main cpus ++ p.threadSample cpus, p.InBounds access) ∧
    p.stopped cpus = p.started cpus

/-! ### The accesses -/

variable {p : Program} {cpus i : ℤ} {access : Access}

theorem mem_forLoop_iff {first bound : ℤ} {body : ℤ → List Access} :
    access ∈ forLoop first bound body ↔ ∃ i, first ≤ i ∧ i < bound ∧ access ∈ body i := by
  simp only [forLoop, List.mem_flatMap, List.mem_map, List.mem_range]
  constructor
  · rintro ⟨_, ⟨k, hk, rfl⟩, hmem⟩
    exact ⟨first + k, by omega, by omega, hmem⟩
  · rintro ⟨i, hfirst, hbound, hmem⟩
    exact ⟨i, ⟨(i - first).toNat, by omega, by omega⟩, hmem⟩

/-- The programs with the two tables. -/
structure Program.Regular (p : Program) : Prop where
  /-- The entries for `TF` threads are the last six. -/
  length : (p.tp.length : ℤ) = p.firstTF + 6
  /-- The other entries are those of the `TP` threads and of `TL`. -/
  tps : ∀ i ∈ p.tps, 0 < i ∧ i < p.firstTF
  /-- The sampler reads as many entries as there are threads. -/
  sampled : ∀ cpus, p.sampled cpus = p.firstTF + (cpus - 1)
  pos : 0 < p.firstTF

theorem regular_pitest1 : pitest1.Regular where
  length := rfl
  tps := by decide
  sampled cpus := by
    simp only [pitest1]
    omega
  pos := by decide

theorem regular_pitest3 : pitest3.Regular where
  length := rfl
  tps := by decide
  sampled cpus := by
    simp only [pitest3]
    omega
  pos := by decide

/-- The handles are kept in `threads`, one for every `TF` thread. -/
theorem mem_main_handle_iff : .handle i ∈ p.main cpus ↔ 0 ≤ i ∧ i < cpus - 1 := by
  simp [mem_forLoop_iff]

theorem mem_main_start_iff : .start i ∈ p.main cpus ↔
    (p.firstTF ≤ i ∧ i < p.firstTF + (cpus - 1)) ∨ i ∈ p.tps ∨ i = 0 := by
  have hloop : .start i ∈ forLoop 0 (cpus - 1) (fun j ↦ [.handle j, .start (j + p.firstTF)]) ↔
      p.firstTF ≤ i ∧ i < p.firstTF + (cpus - 1) := by
    rw [mem_forLoop_iff]
    constructor
    · rintro ⟨j, hfirst, hbound, hmem⟩
      obtain rfl : i = j + p.firstTF := by simpa using hmem
      omega
    · rintro ⟨hfirst, hbound⟩
      exact ⟨i - p.firstTF, by omega, by omega, by simp⟩
  simp [hloop, mem_forLoop_iff]

/-- The loop at the end of `main` goes over other indices than the one at its start. -/
theorem mem_main_stop_iff : .stop i ∈ p.main cpus ↔ i = 0 ∨ i ∈ p.tps ∨ (2 ≤ i ∧ i < cpus - 1) := by
  simp [mem_forLoop_iff]

theorem mem_threadSample_iff :
    access ∈ p.threadSample cpus ↔ ∃ i, 0 ≤ i ∧ i < p.sampled cpus ∧ access = .sample i := by
  simp [Program.threadSample, mem_forLoop_iff]

/-! ### From which number of processors on -/

/-- The array of the handles has no element at all. -/
theorem handles_inBounds_iff :
    (∀ i, .handle i ∈ p.main cpus → p.InBounds (.handle i)) ↔ cpus ≤ 1 := by
  simp only [mem_main_handle_iff]
  constructor
  · intro h
    by_contra hcpus
    have hzero : 0 < threadsSize := (h 0 ⟨le_rfl, by omega⟩).2
    exact absurd hzero (by decide)
  · intro hcpus i hi
    omega

/-- The table is long enough for seven processors. -/
theorem Program.Regular.samples_inBounds_iff (h : p.Regular) :
    (∀ access ∈ p.threadSample cpus, p.InBounds access) ↔ cpus ≤ 7 := by
  have hlength := h.length
  have hsampled := h.sampled cpus
  simp only [mem_threadSample_iff]
  constructor
  · intro hall
    by_contra hcpus
    have hlast : p.firstTF + 6 < p.tp.length :=
      (hall (.sample (p.firstTF + 6)) ⟨_, by omega, by omega, rfl⟩).2
    omega
  · rintro hcpus _ ⟨i, hi, hbound, rfl⟩
    exact ⟨hi, by omega⟩

theorem Program.Regular.mem_started_iff (h : p.Regular) :
    i ∈ p.started cpus ↔ p.firstTF ≤ i ∧ i < p.firstTF + (cpus - 1) := by
  have hpos := h.pos
  simp only [Program.started, Set.mem_ofPred_eq, mem_main_start_iff]
  constructor
  · rintro ⟨hfirst, hloop | htp | rfl⟩
    · exact hloop
    · exact absurd hfirst (not_le.mpr (h.tps i htp).2)
    · omega
  · intro hloop
    exact ⟨hloop.1, .inl hloop⟩

theorem Program.Regular.mem_stopped_iff (h : p.Regular) :
    i ∈ p.stopped cpus ↔ p.firstTF ≤ i ∧ 2 ≤ i ∧ i < cpus - 1 := by
  have hpos := h.pos
  simp only [Program.stopped, Set.mem_ofPred_eq, mem_main_stop_iff]
  constructor
  · rintro ⟨hfirst, rfl | htp | hloop⟩
    · omega
    · exact absurd hfirst (not_le.mpr (h.tps i htp).2)
    · exact ⟨hfirst, hloop⟩
  · rintro ⟨hfirst, hloop⟩
    exact ⟨hfirst, .inr (.inr hloop)⟩

/-- The last `TF` thread is never stopped. -/
theorem Program.Regular.stopped_eq_started_iff (h : p.Regular) :
    p.stopped cpus = p.started cpus ↔ cpus ≤ 1 := by
  have hpos := h.pos
  constructor
  · intro heq
    by_contra hcpus
    have hlast : p.firstTF + (cpus - 2) ∈ p.started cpus :=
      h.mem_started_iff.mpr ⟨by omega, by omega⟩
    rw [← heq] at hlast
    have hstopped := h.mem_stopped_iff.mp hlast
    omega
  · intro hcpus
    ext i
    rw [h.mem_started_iff, h.mem_stopped_iff]
    omega

/-! ### Both programs -/

theorem Program.Regular.correct_iff_le_one (h : p.Regular) : p.Correct cpus ↔ cpus ≤ 1 := by
  constructor
  · rintro ⟨-, hstopped⟩
    exact h.stopped_eq_started_iff.mp hstopped
  · intro hcpus
    have hpos := h.pos
    have hlength := h.length
    refine ⟨fun access hmem ↦ ?_, h.stopped_eq_started_iff.mpr hcpus⟩
    rcases List.mem_append.mp hmem with hmain | hsample
    · have htp {i : ℤ} (hi : i ∈ p.tps) : 0 ≤ i ∧ i < p.tp.length := by
        obtain ⟨hlow, hhigh⟩ := h.tps i hi
        omega
      cases access with
      | handle i => exact handles_inBounds_iff.mpr hcpus i hmain
      | start i =>
        rcases mem_main_start_iff.mp hmain with hloop | hi | rfl
        · omega
        · exact htp hi
        · exact ⟨le_rfl, by omega⟩
      | stop i =>
        rcases mem_main_stop_iff.mp hmain with rfl | hi | hloop
        · exact ⟨le_rfl, by omega⟩
        · exact htp hi
        · omega
      | sample i => simp [mem_forLoop_iff] at hmain
    · exact h.samples_inBounds_iff.mpr (by omega) access hsample

/-- Assumes: there is a processor. The programs are right exactly when there is no other one. -/
theorem arrays_correct_iff (hcpus : 1 ≤ cpus) :
    (pitest1.Correct cpus ↔ cpus = 1) ∧ (pitest3.Correct cpus ↔ cpus = 1) := by
  rw [regular_pitest1.correct_iff_le_one, regular_pitest3.correct_iff_le_one]
  omega

/-- One processor, and four. -/
theorem arrays_correct_one : (pitest1.Correct 1 ∧ pitest3.Correct 1) ∧
    ¬ pitest1.Correct 4 ∧ ¬ pitest3.Correct 4 := by
  have hone := arrays_correct_iff (le_refl 1)
  have hfour := arrays_correct_iff (show (1 : ℤ) ≤ 4 by decide)
  exact ⟨⟨hone.1.mpr rfl, hone.2.mpr rfl⟩, fun h ↦ absurd (hfour.1.mp h) (by decide),
    fun h ↦ absurd (hfour.2.mp h) (by decide)⟩

/-- With two processors the handle of the one `TF` thread is written outside its array, and the
thread is not stopped. With eight processors the sampler reads behind the table. -/
theorem arrays_two :
    (.handle 0 ∈ pitest1.main 2 ∧ ¬ pitest1.InBounds (.handle 0)) ∧
      (2 ∈ pitest1.started 2 ∧ 2 ∉ pitest1.stopped 2) ∧
      (3 ∈ pitest3.started 2 ∧ 3 ∉ pitest3.stopped 2) ∧
      (.sample 8 ∈ pitest1.threadSample 8 ∧ ¬ pitest1.InBounds (.sample 8)) ∧
      ¬ pitest1.Correct 2 ∧ ¬ pitest3.Correct 2 := by
  refine ⟨⟨by decide, fun h ↦ absurd h.2 (by decide)⟩, ⟨⟨le_rfl, by decide⟩, ?_⟩,
    ⟨⟨le_rfl, by decide⟩, ?_⟩, ⟨by decide, fun h ↦ absurd h.2 (by decide)⟩, ?_, ?_⟩
  · exact fun h ↦ absurd h.2 (by decide)
  · exact fun h ↦ absurd h.2 (by decide)
  · exact fun h ↦ absurd (regular_pitest1.correct_iff_le_one.mp h) (by decide)
  · exact fun h ↦ absurd (regular_pitest3.correct_iff_le_one.mp h) (by decide)

end OpenPosix.Threads.PiTest

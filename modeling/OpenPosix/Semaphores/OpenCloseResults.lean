import OpenPosix.Semaphores.OpenCloseModel

/-!
# What the scalability test of `sem_open` gives back, and what it measures

The state after a number of full blocks is one function of that number (`reached`), so that an
iteration of the opening loop either leads to the next of these states or ends the loop in one of
three ways (`Shape`). The loop that closes the semaphores goes through the blocks in reverse
(`closeLoop_spec`); the measure it writes to is the one of the same block, or the one before if the
last block has no measure (`lag`).
-/

namespace OpenPosix.Semaphores.OpenClose

open Memory Threads.Measures

variable {c : Config} {s : State} {b m j : ℕ}

/-! ### The lists after a number of blocks -/

def semsOf (c : Config) : ℕ → List ℕ
  | 0 => []
  | k + 1 => List.range' (k * c.blockSize) c.blockSize

def openTime (c : Config) : ℕ → ℤ
  | 0 => 0
  | k + 1 => (c.opening (k + 1)).micros

def blockAt (c : Config) (k : ℕ) (next prev : Pointer) : Block := ⟨semsOf c k, next, prev⟩

def mesAt (c : Config) (k : ℕ) (next prev : Pointer) : Mes :=
  ⟨k * c.blockSize, openTime c k, 0, next, prev⟩

/-- The state with `b` full blocks and `m` measures. -/
def reached (c : Config) (b m : ℕ) : State where
  nsem := b * c.blockSize
  blocks := chain (blockAt c) b
  semsCur := some b
  mes := chain (mesAt c) m
  mCur := some m
  allocated := b
  opened := List.range' 0 (b * c.blockSize)
  closed := []
  unlinked := []
  freed := []

/-- The state after a block that could not be filled, with `j` semaphores in it. -/
def discarded (c : Config) (b j : ℕ) : State :=
  { reached c b b with
    nsem := b * c.blockSize + j
    allocated := b + 1
    opened := List.range' 0 (b * c.blockSize + j)
    closed := (List.range' (b * c.blockSize) j).reverse
    freed := [b + 1] }

theorem start_eq : start = reached c 0 0 := by
  have hblocks : start.blocks = chain (blockAt c) 0 := by
    ext1 k
    cases k <;> simp [start, chain, blockAt, semsOf, prevOf]
  have hmes : start.mes = chain (mesAt c) 0 := by
    ext1 k
    cases k <;> simp [start, chain, mesAt, openTime, prevOf]
  unfold reached
  rw [← hblocks, ← hmes]
  simp [start]

theorem range'_append (a j : ℕ) : List.range' 0 a ++ List.range' a j = List.range' 0 (a + j) := by
  simpa using List.range'_append_1 (s := 0) (m := a) (n := j)

/-! ### The opening loop -/

theorem fill_cases (c : Config) (left : ℕ) : ∀ (sems : List ℕ) (nsem : ℕ),
    fill c left sems nsem = .unresolved ∨
      (∃ j, fill c left sems nsem = .failed (sems ++ List.range' nsem j)) ∨
      (∃ j, fill c left sems nsem = .stopped (sems ++ List.range' nsem j)) ∨
      fill c left sems nsem = .full (sems ++ List.range' nsem left) := by
  induction left with
  | zero =>
    intro sems nsem
    simp [fill]
  | succ left ih =>
    intro sems nsem
    unfold fill
    split
    · exact .inl rfl
    · exact .inr (.inr (.inl ⟨0, by simp⟩))
    · split_ifs
      · exact .inr (.inl ⟨1, rfl⟩)
      · have hcons : ∀ j, sems ++ [nsem] ++ List.range' (nsem + 1) j =
            sems ++ List.range' nsem (j + 1) := by simp [List.range'_succ]
        rcases ih (sems ++ [nsem]) (nsem + 1) with h | ⟨j, h⟩ | ⟨j, h⟩ | h
        · exact .inl h
        · exact .inr (.inl ⟨j + 1, by rw [h, hcons]⟩)
        · exact .inr (.inr (.inl ⟨j + 1, by rw [h, hcons]⟩))
        · exact .inr (.inr (.inr (by rw [h, hcons])))

theorem link_reached (c : Config) (b : ℕ) :
    link { reached c b b with allocated := b + 1 } (b + 1) (semsOf c (b + 1)) =
      some (reached c (b + 1) b) := by
  have hchain := chain_succ (blockAt c) b
  simp only [blockAt] at hchain
  simp only [link, reached, Option.bind_eq_bind, Option.bind_some, chain_self, blockAt, hchain]
  simp [semsOf, Nat.succ_mul, range'_append]

theorem addMes_reached (c : Config) (b : ℕ) :
    addMes c (reached c (b + 1) b) (b + 1) = some (reached c (b + 1) (b + 1)) := by
  have hchain := chain_succ (mesAt c) b
  simp only [mesAt, openTime.eq_2] at hchain
  simp only [addMes, reached, Option.bind_eq_bind, Option.bind_some, chain_self, mesAt, hchain]

/-- What the opening loop can come to. -/
inductive Shape (c : Config) : Outcome → Prop
  | goesOn (b : ℕ) : Shape c (.goesOn (reached c b b))
  | limit (b : ℕ) : Shape c (.breaks .limit (reached c b b))
  | block (b : ℕ) : Shape c (.breaks .block (reached c b b))
  | semaphore (b j : ℕ) : Shape c (.breaks .semaphore (discarded c b j))
  | measure (b : ℕ) : Shape c (.breaks .measure (reached c (b + 1) b))
  | failed (opened : List ℕ) : Shape c (.failed opened)
  | unresolved : Shape c .unresolved

/-- An iteration that fills its block. -/
theorem openBlock_of_full (hmalloc : c.mallocBlock (b + 1) = true)
    (hfill : fill c c.blockSize [] (b * c.blockSize) = .full (semsOf c (b + 1))) :
    openBlock c (reached c b b) = if c.mallocMes (b + 1) then
        if c.limit.any (· ≤ (b + 1) * c.blockSize) then .breaks .limit (reached c (b + 1) (b + 1))
        else .goesOn (reached c (b + 1) (b + 1))
      else .breaks .measure (reached c (b + 1) b) := by
  have hlink := link_reached c b
  unfold openBlock
  simp only [reached, hmalloc, if_true, hfill] at hlink ⊢
  rw [hlink]
  have hadd := addMes_reached c b
  simp only [reached] at hadd
  simp only [hadd]

theorem openBlock_shape (c : Config) (b : ℕ) : Shape c (openBlock c (reached c b b)) := by
  cases hmalloc : c.mallocBlock (b + 1) with
  | false =>
    simp only [openBlock, reached, hmalloc]
    exact .block b
  | true =>
    obtain hfill | ⟨j, hfill⟩ | ⟨j, hfill⟩ | hfill := fill_cases c c.blockSize [] (b * c.blockSize)
    · simp only [openBlock, reached, hmalloc, hfill]
      exact .unresolved
    · simp only [openBlock, reached, hmalloc, hfill]
      exact .failed _
    · have hsame : openBlock c (reached c b b) = .breaks .semaphore (discarded c b j) := by
        simp [openBlock, reached, discarded, hmalloc, hfill, range'_append]
      rw [hsame]
      exact .semaphore b j
    · rw [openBlock_of_full hmalloc hfill]
      split_ifs
      · exact .limit (b + 1)
      · exact .goesOn (b + 1)
      · exact .measure b

theorem Shape.advance {outcome : Outcome} (h : Shape c outcome) : Shape c (advance c outcome) := by
  cases h with
  | goesOn b => exact openBlock_shape c b
  | limit b => exact .limit b
  | block b => exact .block b
  | semaphore b j => exact .semaphore b j
  | measure b => exact .measure b
  | failed opened => exact .failed opened
  | unresolved => exact .unresolved

theorem openLoop_shape (c : Config) (count : ℕ) : Shape c (openLoop c count) := by
  induction count with
  | zero =>
    unfold openLoop
    rw [start_eq (c := c)]
    exact .goesOn 0
  | succ count ih =>
    unfold openLoop
    rw [Function.iterate_succ_apply']
    exact ih.advance

/-! ### The closing loop -/

variable {lag : ℕ}

/-- The measure with the time to empty a block. -/
def Mes.close (c : Config) (block : ℕ) (mes : Mes) : Mes :=
  { mes with dataClose := (c.closing block).micros }

/-- What the closing loop leaves, if `left` blocks were full and the measures lag `lag` blocks
behind. -/
structure Closed (c : Config) (lag left : ℕ) (s final : State) : Prop where
  closed : final.closed.Perm (s.closed ++ List.range' 0 (left * c.blockSize))
  freed : final.freed.Perm (s.freed ++ List.range' 1 left)
  opened : final.opened = s.opened
  unlinked : final.unlinked = s.unlinked
  allocated : final.allocated = s.allocated
  mes : ∀ k, final.mes k =
    if 0 < k + lag ∧ k + lag ≤ left then (s.mes k).map (Mes.close c (k + lag)) else s.mes k

theorem empty_semsOf (c : Config) (left : ℕ) (next prev : Pointer) {i : ℕ}
    (hi : i ≤ c.blockSize) : empty ⟨semsOf c (left + 1), next, prev⟩ i =
      some (List.range' (left * c.blockSize) i) := by
  induction i with
  | zero => rfl
  | succ i ih =>
    have hget : (semsOf c (left + 1))[i]? = some (left * c.blockSize + i) := by
      rw [semsOf, List.getElem?_range' (by omega), Nat.one_mul]
    simp only [empty, ih (by omega), hget, Option.bind_eq_bind, Option.bind_some]
    rw [List.range'_1_concat]

/-- The state after an iteration of the closing loop, with `left` blocks left. -/
def emptied (c : Config) (s : State) (left element : ℕ) (mes : Mes) : State :=
  { s with
    closed := s.closed ++ semsOf c (left + 1)
    mes := Function.update s.mes element (some (mes.close c (left + 1)))
    mCur := mes.prev
    semsCur := some left
    freed := s.freed ++ [left + 1]
    blocks := chain (blockAt c) left }

theorem closeLoop_succ {left element : ℕ} {mes : Mes} (count : ℕ)
    (hblocks : s.blocks = chain (blockAt c) (left + 1)) (hcur : s.semsCur = some (left + 1))
    (hm : s.mCur = some element) (hmes : s.mes element = some mes) :
    closeLoop c (count + 1) s = closeLoop c count (emptied c s left element mes) := by
  have hchain := chain_pred (blockAt c) left
  simp only [blockAt] at hchain
  simp only [closeLoop, hcur, hm, hblocks, chain_self, chain_of_lt _ _ left.lt_succ_self, blockAt,
    prevOf_succ, hmes, empty_semsOf c left _ _ le_rfl, hchain, Option.bind_eq_bind,
    Option.bind_some]
  rw [if_neg (by simp)]
  rfl

/-- The closing loop ends at `&sems`, with no fault. -/
theorem closeLoop_spec (hlag : lag ≤ 1) (left : ℕ) : ∀ {s : State} (count : ℕ),
    left ≤ count → s.blocks = chain (blockAt c) left → s.semsCur = some left →
    (∀ k, k + lag = left → s.mCur = some k) →
    (∀ k, k + lag ≤ left → (s.mes k).map Mes.prev = some (prevOf k)) →
    ∃ final, closeLoop c count s = some final ∧ Closed c lag left s final := by
  induction left with
  | zero =>
    intro s count _ _ hcur _ _
    refine ⟨s, ?_, by simp, by simp, rfl, rfl, rfl, fun k ↦ (if_neg (by omega)).symm⟩
    cases count <;> simp [closeLoop, hcur]
  | succ left ih =>
    intro s count hcount hblocks hcur hm hmes
    obtain ⟨count, rfl⟩ : ∃ count', count = count' + 1 := ⟨count - 1, by omega⟩
    -- The measure of this block, or of the block before: `sentinel` at the end.
    obtain ⟨k, hk⟩ : ∃ k, k + lag = left + 1 := ⟨left + 1 - lag, by omega⟩
    obtain ⟨mes, hget, hprev⟩ := Option.map_eq_some_iff.mp (hmes k hk.le)
    have hother : ∀ i, i ≠ k → (emptied c s left k mes).mes i = s.mes i :=
      fun i hi ↦ Function.update_of_ne hi _ _
    obtain ⟨final, hfinal, h⟩ := ih (s := emptied c s left k mes) count (by omega) rfl rfl
      (fun i hi ↦ by
        obtain rfl : k = i + 1 := by omega
        exact hprev)
      (fun i hi ↦ by
        rw [hother i (by omega)]
        exact hmes i (by omega))
    refine ⟨final, ?_, ?_, ?_, h.opened, h.unlinked, h.allocated, fun i ↦ ?_⟩
    · rw [closeLoop_succ count hblocks hcur (hm k hk) hget]
      exact hfinal
    · refine h.closed.trans ?_
      rw [emptied, List.append_assoc, Nat.succ_mul, ← range'_append]
      exact List.perm_append_comm.append_left _
    · refine h.freed.trans ?_
      rw [emptied, List.append_assoc, List.range'_1_concat, Nat.add_comm 1 left]
      exact List.perm_append_comm.append_left _
    · rw [h.mes i]
      by_cases heq : i = k
      · subst heq
        rw [if_neg (by omega), if_pos (by omega), hget, hk]
        exact Function.update_self _ _ _
      · rw [hother i heq]
        congr 1
        rw [eq_iff_iff]
        omega

/-- The end of the opening loop: the measures lag one block behind if the last one could not be
allocated, and a block that could not be filled is given back already. -/
structure Broken (c : Config) (m lag : ℕ) (s : State) : Prop where
  blocks : s.blocks = chain (blockAt c) (m + lag)
  semsCur : s.semsCur = some (m + lag)
  mes : s.mes = chain (mesAt c) m
  mCur : s.mCur = some m
  opened : s.opened = List.range' 0 s.nsem
  closed : (s.closed ++ List.range' 0 ((m + lag) * c.blockSize)).Perm s.opened
  freed : (s.freed ++ List.range' 1 (m + lag)).Perm (List.range' 1 s.allocated)

theorem broken_reached (c : Config) (m lag : ℕ) : Broken c m lag (reached c (m + lag) m) :=
  ⟨rfl, rfl, rfl, rfl, rfl, .refl _, .refl _⟩

theorem broken_discarded (c : Config) (b j : ℕ) : Broken c b 0 (discarded c b j) := by
  refine ⟨rfl, rfl, rfl, rfl, rfl, ?_, ?_⟩
  · rw [discarded, ← range'_append]
    exact List.perm_append_comm.trans ((List.reverse_perm _).append_left _)
  · rw [discarded, List.range'_1_concat, Nat.add_comm 1 b]
    exact List.perm_append_comm

theorem Shape.broken {status : Status} (h : Shape c (.breaks status s)) :
    ∃ m, Broken c m 0 s ∧ status ≠ .measure ∨
      Broken c m 1 s ∧ status = .measure ∧ s.allocated = m + 1 := by
  cases h with
  | limit b | block b => exact ⟨b, .inl ⟨broken_reached c b 0, by simp⟩⟩
  | semaphore b j => exact ⟨b, .inl ⟨broken_discarded c b j, by simp⟩⟩
  | measure b => exact ⟨b, .inr ⟨broken_reached c b 1, rfl, rfl⟩⟩

/-- What is done before the closing loop does not touch the lists. -/
theorem Broken.unlink (h : Broken c m lag s) : Broken c m lag (unlink s) :=
  { h with }

theorem Broken.closes (h : Broken c m lag s) (hlag : lag ≤ 1) :
    ∃ final, closeLoop c s.allocated s = some final ∧ Closed c lag (m + lag) s final := by
  refine closeLoop_spec hlag (m + lag) _ ?_ h.blocks h.semsCur (fun k hk ↦ ?_) (fun k hk ↦ ?_)
  · have hlength := h.freed.length_eq
    simp only [List.length_append, List.length_range'] at hlength
    omega
  · rw [h.mCur, show k = m by omega]
  · simp [h.mes, chain, mesAt, show k ≤ m by omega]

/-! ### What is given back -/

/-- However the opening loop ends, the program comes to its evaluation with no access that is not
allowed: every semaphore is closed once, every name is unlinked, and every block is given back once.
-/
theorem resources_returned (c : Config) (count : ℕ) :
    openLoop c count ≠ .fault ∧ ∀ status s, openLoop c count = .breaks status s →
      ∃ final, semOpenEnd c s = some final ∧
        final.opened.Nodup ∧ final.closed.Perm final.opened ∧
        (∀ name ∈ final.opened, name ∈ final.unlinked) ∧
        final.freed.Perm (List.range' 1 final.allocated) := by
  have hshape := openLoop_shape c count
  refine ⟨fun hfault ↦ ?_, fun status s hbreaks ↦ ?_⟩
  · rw [hfault] at hshape
    cases hshape
  · rw [hbreaks] at hshape
    obtain ⟨m, lag, hlag, hbroken⟩ : ∃ m lag, lag ≤ 1 ∧ Broken c m lag s := by
      obtain ⟨m, h | h⟩ := hshape.broken
      · exact ⟨m, 0, by decide, h.1⟩
      · exact ⟨m, 1, le_rfl, h.1⟩
    obtain ⟨final, hfinal, h⟩ := hbroken.unlink.closes hlag
    refine ⟨final, hfinal, ?_, ?_, fun name hname ↦ ?_, ?_⟩
    · rw [h.opened, hbroken.unlink.opened]
      exact List.nodup_range'
    · rw [h.opened]
      exact h.closed.trans hbroken.unlink.closed
    · rw [h.opened, hbroken.unlink.opened, List.mem_range'_1] at hname
      rw [h.unlinked, unlink, List.mem_range]
      have hlt : name < s.nsem := by simpa [unlink] using hname.2
      omega
    · rw [h.allocated]
      exact h.freed.trans hbroken.unlink.freed

/-- Blocks of two semaphores, of which the fourth cannot be opened. -/
def sample : Config where
  blockSize := 2
  semMax := 1000
  limit := none
  mallocBlock := fun _ ↦ true
  semOpen := fun k ↦ if k = 3 then some .emfile else none
  mallocMes := fun _ ↦ true
  opening := fun _ ↦ ⟨⟨0, 0⟩, ⟨0, 0⟩⟩
  closing := fun k ↦ ⟨⟨0, 0⟩, ⟨k, 0⟩⟩

theorem resources_returned_sample : ∃ s, openLoop sample 2 = .breaks .semaphore s ∧
    ∃ final, semOpenEnd sample s = some final ∧ final.closed.Perm final.opened := by
  have hbreaks : ∃ s, openLoop sample 2 = .breaks .semaphore s := ⟨_, rfl⟩
  obtain ⟨s, hs⟩ := hbreaks
  obtain ⟨final, hfinal, -, hclosed, -⟩ := (resources_returned sample 2).2 .semaphore s hs
  exact ⟨s, hs, final, hfinal, hclosed⟩

/-! ### What is measured -/

/-- Every element of the list of measures has the two times of its block. -/
def Paired (c : Config) (s : State) : Prop :=
  ∀ k mes, 0 < k → s.mes k = some mes →
    mes.dataOpen = (c.opening k).micros ∧ mes.dataClose = (c.closing k).micros

theorem Closed.dataClose {final : State} (h : Closed c lag (m + lag) s final)
    (hmes : s.mes = chain (mesAt c) m) :
    Paired c final ↔ ∀ k, 0 < k → k ≤ m → (c.closing (k + lag)).micros = (c.closing k).micros := by
  have hfinal : ∀ k, 0 < k → final.mes k = (chain (mesAt c) m k).map (Mes.close c (k + lag)) := by
    intro k hk
    rw [h.mes k, hmes]
    by_cases hle : k ≤ m
    · rw [if_pos (by omega)]
    · simp [chain, hle]
  refine ⟨fun hpaired k hk hle ↦ ?_, fun hsame k mes hk hget ↦ ?_⟩
  · have hget := hfinal k hk
    simp only [chain, hle, if_true, Option.map_some] at hget
    exact (hpaired k _ hk hget).2
  · rw [hfinal k hk, chain] at hget
    by_cases hle : k ≤ m
    · rw [if_pos hle] at hget
      cases hget
      obtain ⟨i, rfl⟩ : ∃ i, k = i + 1 := ⟨k - 1, by omega⟩
      exact ⟨rfl, hsame _ hk hle⟩
    · simp [hle] at hget

theorem Broken.ends {ending : Config → State → Option State} (h : Broken c m lag s) (hlag : lag ≤ 1)
    (hending : ending = semOpenEnd ∨ ending = semInitEnd) :
    ∃ final, ending c s = some final ∧ (Paired c final ↔
      ∀ k, 0 < k → k ≤ m → (c.closing (k + lag)).micros = (c.closing k).micros) := by
  obtain rfl | rfl := hending
  · obtain ⟨final, hfinal, hclosed⟩ := h.unlink.closes hlag
    exact ⟨final, hfinal, hclosed.dataClose h.mes⟩
  · obtain ⟨final, hfinal, hclosed⟩ := h.closes hlag
    exact ⟨final, hfinal, hclosed.dataClose h.mes⟩

/-- The measures are those of their blocks, unless the loop ended because there was no memory for
the last one. In that case the time to empty a block goes to the block before it, and that makes no
difference only if the blocks take the same time. -/
theorem paired_iff {ending : Config → State → Option State}
    (hending : ending = semOpenEnd ∨ ending = semInitEnd) {count : ℕ} {status : Status}
    (hbreaks : openLoop c count = .breaks status s) :
    ∃ final, ending c s = some final ∧
      (Paired c final ↔ status ≠ .measure ∨
        ∀ k, 0 < k → k < s.allocated → (c.closing (k + 1)).micros = (c.closing k).micros) := by
  have hshape := openLoop_shape c count
  rw [hbreaks] at hshape
  obtain ⟨m, ⟨hbroken, hstatus⟩ | ⟨hbroken, rfl, hallocated⟩⟩ := hshape.broken
  · obtain ⟨final, hfinal, hpaired⟩ := hbroken.ends (by decide) hending
    exact ⟨final, hfinal, hpaired.trans (by simp [hstatus])⟩
  · obtain ⟨final, hfinal, hpaired⟩ := hbroken.ends le_rfl hending
    exact ⟨final, hfinal, hpaired.trans (by simp only [hallocated, Nat.lt_succ_iff,
      ne_eq, not_true_eq_false, false_or])⟩

/-- Blocks of one semaphore, and no memory for the second measure. -/
def noMeasure : Config :=
  { sample with blockSize := 1, mallocMes := fun k ↦ decide (k < 2) }

theorem paired_iff_noMeasure : ∃ s final, openLoop noMeasure 2 = .breaks .measure s ∧
    semOpenEnd noMeasure s = some final ∧
    (Paired noMeasure final ↔ Status.measure ≠ .measure ∨ ∀ k, 0 < k → k < s.allocated →
      (noMeasure.closing (k + 1)).micros = (noMeasure.closing k).micros) := by
  have hbreaks : ∃ s, openLoop noMeasure 2 = .breaks .measure s := ⟨_, rfl⟩
  obtain ⟨s, hs⟩ := hbreaks
  obtain ⟨final, hfinal, hpaired⟩ := paired_iff (.inl rfl) hs
  exact ⟨s, final, hs, hfinal, hpaired⟩

/-- The first block takes one second to empty and the second one two: the measure of the first block
says two. -/
theorem noMeasure_not_paired : ∃ s final, openLoop noMeasure 2 = .breaks .measure s ∧
    semOpenEnd noMeasure s = some final ∧ ¬ Paired noMeasure final := by
  refine ⟨_, _, rfl, rfl, fun hpaired ↦ ?_⟩
  have hclose := (hpaired 1 _ (by decide) rfl).2
  revert hclose
  decide

/-! ### The limit -/

/-- No call fails, and there is no `NSEM_LIMIT`. -/
structure Config.Succeeds (c : Config) : Prop where
  mallocBlock : ∀ k, c.mallocBlock k = true
  semOpen : ∀ k, c.semOpen k = none
  mallocMes : ∀ k, c.mallocMes k = true
  limit : c.limit = none

/-- The program calls `FAILED` when it has opened that many semaphores. -/
def FailsAfter (c : Config) (opened : ℕ) : Prop :=
  ∃ count sems, openLoop c count = .failed sems ∧ sems.length = opened

variable {M : ℕ}

/-- The count is compared with the limit before the semaphore that was just opened is counted. -/
theorem fill_of_succeeds (h : c.Succeeds) (hM : 0 < M) (hmax : c.semMax = M) (left : ℕ) :
    ∀ (sems : List ℕ) (nsem : ℕ), nsem ≤ M + 1 → fill c left sems nsem =
        if nsem + left ≤ M + 1 then .full (sems ++ List.range' nsem left)
        else .failed (sems ++ List.range' nsem (M + 2 - nsem)) := by
  induction left with
  | zero =>
    intro sems nsem hle
    simp [fill, hle]
  | succ left ih =>
    intro sems nsem hle
    simp only [fill, h.semOpen, hmax]
    rcases Nat.lt_or_ge M nsem with hlt | hge
    · obtain rfl : nsem = M + 1 := by omega
      rw [if_pos (by omega), if_neg (by omega), show M + 2 - (M + 1) = 1 by omega]
      rfl
    · have hcount : M + 2 - nsem = M + 2 - (nsem + 1) + 1 := by omega
      rw [if_neg (by omega), ih _ _ (by omega), hcount, List.range'_succ, List.range'_succ]
      simp [Nat.add_assoc, Nat.add_comm 1]

theorem openBlock_of_succeeds (h : c.Succeeds) (hM : 0 < M) (hmax : c.semMax = M)
    (hle : b * c.blockSize ≤ M + 1) :
    openBlock c (reached c b b) =
      if (b + 1) * c.blockSize ≤ M + 1 then .goesOn (reached c (b + 1) (b + 1))
      else .failed (List.range' 0 (M + 2)) := by
  have hfill := fill_of_succeeds h hM hmax c.blockSize [] (b * c.blockSize) hle
  rw [← Nat.succ_mul] at hfill
  split_ifs at hfill ⊢ with hfits
  · rw [openBlock_of_full (h.mallocBlock _) hfill]
    simp [h.mallocMes, h.limit]
  · have hrange := range'_append (b * c.blockSize) (M + 2 - b * c.blockSize)
    rw [Nat.add_sub_cancel' (by omega)] at hrange
    simp [openBlock, reached, h.mallocBlock, hfill, hrange]

/-- The opening loop goes on as long as the blocks fit in the limit and one more, and then fails. -/
theorem openLoop_of_succeeds (h : c.Succeeds) (hM : 0 < M) (hmax : c.semMax = M)
    (hsize : 0 < c.blockSize) (count : ℕ) :
    openLoop c count = if count * c.blockSize ≤ M + 1 then .goesOn (reached c count count)
      else .failed (List.range' 0 (M + 2)) := by
  induction count with
  | zero => simp [openLoop, ← start_eq]
  | succ count ih =>
    unfold openLoop at ih ⊢
    rw [Function.iterate_succ_apply', ih]
    split_ifs with hfits hnext hnext
    · simp [advance, openBlock_of_succeeds h hM hmax hfits, hnext]
    · simp [advance, openBlock_of_succeeds h hM hmax hfits, hnext]
    · rw [Nat.succ_mul] at hnext
      omega
    · rfl

theorem failsAfter_iff (h : c.Succeeds) (hM : 0 < M) (hmax : c.semMax = M)
    (hsize : 0 < c.blockSize) (opened : ℕ) : FailsAfter c opened ↔ opened = M + 2 := by
  constructor
  · rintro ⟨count, sems, hfailed, hlength⟩
    rw [openLoop_of_succeeds h hM hmax hsize count] at hfailed
    split_ifs at hfailed
    cases hfailed
    simpa using hlength.symm
  · rintro rfl
    refine ⟨M + 2, List.range' 0 (M + 2), ?_, by simp⟩
    rw [openLoop_of_succeeds h hM hmax hsize, if_neg]
    have hmul : M + 2 ≤ (M + 2) * c.blockSize := Nat.le_mul_of_pos_right _ hsize
    omega

/-- `FAILED` is not called for the semaphore that exceeds the limit, but for the one after it. -/
theorem limit_missed (h : c.Succeeds) (hM : 0 < M) (hmax : c.semMax = M)
    (hsize : 0 < c.blockSize) : ¬ FailsAfter c (M + 1) ∧ FailsAfter c (M + 2) := by
  simp [failsAfter_iff h hM hmax hsize]

def allowsOne : Config := { sample with blockSize := 1, semMax := 1, semOpen := fun _ ↦ none }

theorem allowsOne_succeeds : allowsOne.Succeeds :=
  ⟨fun _ ↦ rfl, fun _ ↦ rfl, fun _ ↦ rfl, rfl⟩

theorem limit_missed_allowsOne : ¬ FailsAfter allowsOne (1 + 1) ∧ FailsAfter allowsOne (1 + 2) :=
  limit_missed allowsOne_succeeds (by decide) rfl (by decide)

/-- Three semaphores are open when the program says that there are more than one. -/
theorem allowsOne_opens_three : openLoop allowsOne 3 = .failed [0, 1, 2] ∧
    ¬ FailsAfter allowsOne 2 := by
  refine ⟨rfl, ?_⟩
  rw [failsAfter_iff (M := 1) allowsOne_succeeds (by decide) rfl (by decide)]
  decide

end OpenPosix.Semaphores.OpenClose

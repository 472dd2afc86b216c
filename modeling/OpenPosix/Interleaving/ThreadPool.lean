import Mathlib.Algebra.BigOperators.Fin
import Mathlib.Algebra.Order.BigOperators.Group.Finset

/-!
# Counting the threads of a pool

The threads of a pool run the same code, and a pool is the map from a thread to its local state. How
many threads are in some part of the code is the total of a weight on local states (`total`); with
weights in `{0, 1}` it counts threads, and with larger weights it counts the tokens they carry.

One thread moves at a time, so every accounting argument is `total_update`: the total after the move
plus the weight before is the total before plus the weight after. Exclusion is `pair_le_total`, two
different threads with positive weight push the total to two.

A pool that grows is the list of its threads, and `listTotal` is its total weight.
-/

namespace OpenPosix.Interleaving

open Function

section Total

variable {Index Local : Type*} [Fintype Index]

/-- The total weight of a pool of threads. -/
def total (weight : Local → ℕ) (pool : Index → Local) : ℕ := ∑ i, weight (pool i)

/-- One thread moves, and no other thread changes its weight. -/
theorem total_move [DecidableEq Index] {weight : Local → ℕ} {pool pool' : Index → Local} {i : Index}
    (hothers : ∀ j, j ≠ i → weight (pool' j) = weight (pool j)) :
    total weight pool' + weight (pool i) = total weight pool + weight (pool' i) := by
  have hrest : ∑ j ∈ Finset.univ.erase i, weight (pool' j) =
      ∑ j ∈ Finset.univ.erase i, weight (pool j) :=
    Finset.sum_congr rfl fun j hj ↦ hothers j (Finset.ne_of_mem_erase hj)
  have hnew := Finset.sum_erase_add Finset.univ (fun j ↦ weight (pool' j)) (Finset.mem_univ i)
  have hold := Finset.sum_erase_add Finset.univ (fun j ↦ weight (pool j)) (Finset.mem_univ i)
  unfold total
  omega

/-- One thread moves to the local state `new`. -/
theorem total_update [DecidableEq Index] (weight : Local → ℕ) (pool : Index → Local) (i : Index)
    (new : Local) :
    total weight (update pool i new) + weight (pool i) = total weight pool + weight new := by
  have hmove : total weight (update pool i new) + weight (pool i) =
      total weight pool + weight (update pool i new i) :=
    total_move fun j hj ↦ by rw [update_of_ne hj]
  rwa [update_self] at hmove

/-- A move that keeps the weight of the thread keeps the total. -/
theorem total_update_of_eq [DecidableEq Index] {weight : Local → ℕ} {pool : Index → Local}
    {i : Index} {new : Local} (h : weight new = weight (pool i)) :
    total weight (update pool i new) = total weight pool := by
  have hmove := total_update weight pool i new
  omega

/-- One thread gets lighter, and no other gets heavier. -/
theorem total_lt_total {weight : Local → ℕ} {pool pool' : Index → Local} {i : Index}
    (hlt : weight (pool' i) < weight (pool i))
    (hothers : ∀ j, j ≠ i → weight (pool' j) ≤ weight (pool j)) :
    total weight pool' < total weight pool := by
  refine Finset.sum_lt_sum (fun j _ ↦ ?_) ⟨i, Finset.mem_univ i, hlt⟩
  by_cases heq : j = i
  · subst heq
    exact hlt.le
  · exact hothers j heq

theorem le_total (weight : Local → ℕ) (pool : Index → Local) (i : Index) :
    weight (pool i) ≤ total weight pool :=
  Finset.single_le_sum (f := fun j ↦ weight (pool j)) (fun _ _ ↦ Nat.zero_le _) (Finset.mem_univ i)

theorem pair_le_total [DecidableEq Index] (weight : Local → ℕ) (pool : Index → Local)
    {i j : Index} (hne : i ≠ j) : weight (pool i) + weight (pool j) ≤ total weight pool := by
  have hpair := Finset.sum_pair (f := fun k ↦ weight (pool k)) hne
  rw [← hpair]
  exact Finset.sum_le_sum_of_subset (Finset.subset_univ _)

/-- A pool of positive total has a thread of positive weight. -/
theorem exists_pos_of_total_pos {weight : Local → ℕ} {pool : Index → Local}
    (h : 0 < total weight pool) : ∃ i, 0 < weight (pool i) := by
  by_contra hnone
  push Not at hnone
  have hzero : total weight pool = 0 :=
    Finset.sum_eq_zero fun i _ ↦ Nat.le_zero.mp (hnone i)
  omega

theorem total_eq_zero {weight : Local → ℕ} {pool : Index → Local}
    (h : ∀ i, weight (pool i) = 0) : total weight pool = 0 :=
  Finset.sum_eq_zero fun i _ ↦ h i

/-! A token that one thread has at most, and a weight that only the thread with the token has. -/

section Token

variable [DecidableEq Index] {token weight : Local → ℕ} {pool : Index → Local} {i j : Index}

theorem token_eq_zero (hone : total token pool ≤ 1) (hi : token (pool i) = 1) (hne : j ≠ i) :
    token (pool j) = 0 := by
  have hpair := pair_le_total token pool hne
  omega

theorem total_eq_of_token (hle : ∀ thread, weight thread ≤ token thread)
    (hone : total token pool ≤ 1) (hi : token (pool i) = 1) :
    total weight pool = weight (pool i) :=
  Fintype.sum_eq_single i fun _ hne ↦
    Nat.le_zero.mp (token_eq_zero hone hi hne ▸ hle _)

theorem total_update_of_token (hle : ∀ thread, weight thread ≤ token thread)
    (hone : total token pool ≤ 1) (hi : token (pool i) = 1) (new : Local) :
    total weight (update pool i new) = weight new := by
  have hmove := total_update weight pool i new
  have hbefore := total_eq_of_token hle hone hi
  omega

end Token

theorem total_mono {first second : Local → ℕ} {pool : Index → Local}
    (h : ∀ i, first (pool i) ≤ second (pool i)) : total first pool ≤ total second pool :=
  Finset.sum_le_sum fun i _ ↦ h i

theorem total_add (first second : Local → ℕ) (pool : Index → Local) :
    total (fun k ↦ first k + second k) pool = total first pool + total second pool :=
  Finset.sum_add_distrib

/-- A bound on the weight of a thread. -/
theorem total_le_mul {size bound : ℕ} {weight : Local → ℕ} {pool : Fin size → Local}
    (h : ∀ i, weight (pool i) ≤ bound) : total weight pool ≤ size * bound := by
  calc total weight pool ≤ ∑ _i : Fin size, bound := Finset.sum_le_sum fun i _ ↦ h i
    _ = size * bound := by simp

/-- Weights in `{0, 1}` count at most all the threads. -/
theorem total_le_card {weight : Local → ℕ} {pool : Index → Local}
    (h : ∀ i, weight (pool i) ≤ 1) : total weight pool ≤ Fintype.card Index := by
  calc total weight pool ≤ ∑ _i : Index, 1 := Finset.sum_le_sum fun i _ ↦ h i
    _ = Fintype.card Index := by simp

/-- Weights in `{0, 1}` that count all the threads are one at every thread. -/
theorem eq_one_of_total_eq_card {weight : Local → ℕ} {pool : Index → Local}
    (h : ∀ i, weight (pool i) ≤ 1) (hall : total weight pool = Fintype.card Index) (i : Index) :
    weight (pool i) = 1 := by
  classical
  have hrest : ∑ j ∈ Finset.univ.erase i, weight (pool j) ≤ (Finset.univ.erase i).card := by
    calc ∑ j ∈ Finset.univ.erase i, weight (pool j)
        ≤ ∑ _j ∈ Finset.univ.erase i, 1 := Finset.sum_le_sum fun j _ ↦ h j
      _ = (Finset.univ.erase i).card := by simp
  have hsplit := Finset.sum_erase_add Finset.univ (fun j ↦ weight (pool j)) (Finset.mem_univ i)
  have hcard := Finset.card_erase_add_one (Finset.mem_univ i)
  rw [Finset.card_univ] at hcard
  have hi := h i
  unfold total at hall
  omega

/-- All the threads have weight one. -/
theorem total_eq_card {weight : Local → ℕ} {pool : Index → Local}
    (h : ∀ i, weight (pool i) = 1) : total weight pool = Fintype.card Index := by
  calc total weight pool = ∑ _i : Index, 1 := Finset.sum_congr rfl fun i _ ↦ h i
    _ = Fintype.card Index := by simp

end Total

section ListTotal

variable {Local : Type*} {weight : Local → ℕ} {threads : List Local} {i : ℕ} {old : Local}

/-- The total weight of a list of threads. -/
def listTotal (weight : Local → ℕ) (threads : List Local) : ℕ := (threads.map weight).sum

theorem listTotal_append_singleton (weight : Local → ℕ) (threads : List Local) (new : Local) :
    listTotal weight (threads ++ [new]) = listTotal weight threads + weight new := by
  simp [listTotal]

/-- One thread moves to the local state `new`. -/
theorem listTotal_set (weight : Local → ℕ) (new : Local) (hold : threads[i]? = some old) :
    listTotal weight (threads.set i new) + weight old = listTotal weight threads + weight new := by
  induction threads generalizing i with
  | nil => simp at hold
  | cons first rest ih =>
    cases i with
    | zero =>
      obtain rfl : first = old := by simpa using hold
      simp only [listTotal, List.set_cons_zero, List.map_cons, List.sum_cons]
      omega
    | succ i =>
      have hrest := ih (i := i) (by simpa using hold)
      simp only [listTotal, List.set_cons_succ, List.map_cons, List.sum_cons] at hrest ⊢
      omega

/-- The number of threads with a property is the total of its truth value. -/
theorem countP_eq_listTotal (p : Local → Bool) (threads : List Local) :
    threads.countP p = listTotal (fun thread ↦ (p thread).toNat) threads := by
  induction threads with
  | nil => rfl
  | cons first rest ih =>
    rw [List.countP_cons, ih, listTotal, listTotal, List.map_cons, List.sum_cons, Nat.add_comm]
    cases p first <;> rfl

/-- The number of threads with a property changes with the one that moves. -/
theorem countP_set (p : Local → Bool) (new : Local) (hold : threads[i]? = some old) :
    (threads.set i new).countP p + (p old).toNat = threads.countP p + (p new).toNat := by
  rw [countP_eq_listTotal, countP_eq_listTotal]
  exact listTotal_set (fun thread ↦ (p thread).toNat) new hold

theorem exists_pos_of_listTotal_pos (h : 0 < listTotal weight threads) :
    ∃ (i : ℕ) (thread : Local), threads[i]? = some thread ∧ 0 < weight thread := by
  obtain ⟨value, hmem, hpos⟩ := List.exists_mem_ne_zero_of_sum_ne_zero h.ne'
  obtain ⟨thread, hthread, rfl⟩ := List.mem_map.mp hmem
  obtain ⟨i, hi⟩ := List.mem_iff_getElem?.mp hthread
  exact ⟨i, thread, hi, Nat.pos_of_ne_zero hpos⟩

theorem le_listTotal (weight : Local → ℕ) (hold : threads[i]? = some old) :
    weight old ≤ listTotal weight threads :=
  List.single_le_sum (by simp) _ (List.mem_map_of_mem (List.mem_of_getElem? hold))

end ListTotal

end OpenPosix.Interleaving

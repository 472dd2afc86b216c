import OpenPosix.Threads.SelfModel

/-!
# Which threads can be alive

`main` joins the threads that are not detached before it starts the next round. As long as no
detached thread can be created, every thread has ended or is still to be joined (`Joins`), so that
all threads have ended when `main` starts a round.
-/

namespace OpenPosix.Threads.Self

open Interleaving Function

variable {n : ℕ} {scenarios : Fin n → Scenario} {s s' : State n} {k : ℕ} {child : Child n}

/-- The scenarios whose threads of this round exist and have not been joined. -/
@[simp] def MainPoint.Open : MainPoint n → Fin n → Prop
  | .create rest, sc => sc ∉ rest
  | .join rest, sc => sc ∈ rest
  | .loop, _ | .reset, _ | .ended, _ => False
  | _, _ => True

/-- The scenarios whose threads are left to create. -/
def MainPoint.rest : MainPoint n → List (Fin n)
  | .create rest => rest
  | _ => []

structure Joins (scenarios : Fin n → Scenario) (s : State n) : Prop where
  alive : ∀ k child, s.children[k]? = some child →
    child.point = .exited ∨ ∃ sc, s.creation sc = some k ∧ s.main.Open sc
  undetached : ∀ sc k, s.creation sc = some k → (scenarios sc).detached = false
  nodup : s.main.rest.Nodup

theorem getElem?_goto (hchild : s.children[k]? = some child) (point : ChildPoint) (j : ℕ) :
    (s.goto k child point).children[j]? =
      if j = k then some { child with point := point } else s.children[j]? := by
  have hlt : k < s.children.length := (List.getElem?_eq_some_iff.mp hchild).1
  unfold State.goto
  by_cases heq : j = k
  · subst heq
    simp [hlt]
  · simp [List.getElem?_set_ne (Ne.symm heq), heq]

theorem Joins.goto (h : Joins scenarios s) (hchild : s.children[k]? = some child)
    (hpoint : child.point ≠ .exited) (point : ChildPoint)
    (hsame : s'.children = (s.goto k child point).children) (hcreation : s'.creation = s.creation)
    (hmain : s'.main = s.main) : Joins scenarios s' := by
  refine ⟨fun j other hj ↦ ?_, fun sc j ↦ by rw [hcreation]; exact h.undetached sc j,
    by rw [hmain]; exact h.nodup⟩
  rw [hsame, getElem?_goto hchild] at hj
  rw [hcreation, hmain]
  split at hj
  · subst j
    exact .inr ((h.alive k child hchild).resolve_left hpoint)
  · exact h.alive j other hj

theorem Joins.threaded (h : Joins scenarios s) (hnext : threaded s k = some s') :
    Joins scenarios s' := by
  unfold Self.threaded at hnext
  cases hchild : s.children[k]? with
  | none => simp [hchild] at hnext
  | some child =>
    simp only [hchild] at hnext
    cases hpoint : child.point with
    | blocked | exited => simp [hpoint] at hnext
    | lock | woken =>
      rw [hpoint] at hnext
      obtain ⟨owner, -, rfl⟩ := Option.map_eq_some_iff.mp hnext
      exact h.goto hchild (by simp [hpoint]) _ rfl rfl rfl
    | store | post | test | wait | unlock =>
      rw [hpoint] at hnext
      cases hnext
      exact h.goto hchild (by simp [hpoint]) _ rfl rfl rfl

/-- `main` goes on, and no thread is closed that has not ended. -/
theorem Joins.goes (h : Joins scenarios s) (hchildren : s'.children = s.children)
    (hcreation : s'.creation = s.creation) (hnodup : s'.main.rest.Nodup)
    (hopen : ∀ sc k, s.creation sc = some k → s.main.Open sc →
      s'.main.Open sc ∨ ∀ child, s.children[k]? = some child → child.point = .exited) :
    Joins scenarios s' := by
  refine ⟨fun k child hchild ↦ ?_, fun sc k ↦ by rw [hcreation]; exact h.undetached sc k, hnodup⟩
  rw [hchildren] at hchild
  rw [hcreation]
  rcases h.alive k child hchild with hexited | ⟨sc, hsc, hmain⟩
  · exact .inl hexited
  · rcases hopen sc k hsc hmain with hopen' | hexited
    · exact .inr ⟨sc, hsc, hopen'⟩
    · exact .inl (hexited child hchild)

theorem Joins.main (h : Joins scenarios s) (hnext : main scenarios s = some s') :
    Joins scenarios s' := by
  unfold Self.main at hnext
  cases hmain : s.main <;> simp only [hmain, reduceCtorEq] at hnext
  case loop =>
    cases hnext
    refine h.goes rfl rfl ?_ (by simp [hmain])
    split <;> exact List.nodup_nil
  case reset =>
    cases hnext
    exact h.goes rfl rfl (List.nodup_finRange n) (by simp [hmain])
  case setBoolean | unlock =>
    cases hnext
    exact h.goes rfl rfl List.nodup_nil (by simp)
  case create rest =>
    rcases rest with - | ⟨sc, rest⟩
    · simp only at hnext
      cases hnext
      exact h.goes rfl rfl List.nodup_nil (by simp)
    · simp at hnext
  case waitSem rest =>
    rcases rest with - | ⟨sc, rest⟩
    · simp only at hnext
      cases hnext
      exact h.goes rfl rfl List.nodup_nil (by simp)
    · simp only at hnext
      split at hnext
      · cases hnext
        exact h.goes rfl rfl List.nodup_nil (by simp)
      · obtain ⟨value, -, rfl⟩ := Option.map_eq_some_iff.mp hnext
        exact h.goes rfl rfl List.nodup_nil (by simp)
  case lock =>
    obtain ⟨owner, -, rfl⟩ := Option.map_eq_some_iff.mp hnext
    exact h.goes rfl rfl List.nodup_nil (by simp)
  case check =>
    cases hnext
    refine h.goes rfl rfl ?_ fun _ _ _ _ ↦ .inl ?_ <;> dsimp only <;> split
    · exact List.nodup_nil
    · exact List.nodup_nil
    · trivial
    · trivial
  case broadcast =>
    cases hnext
    refine ⟨fun k child hchild ↦ ?_, h.undetached, List.nodup_nil⟩
    rw [List.getElem?_map] at hchild
    obtain ⟨before, hbefore, rfl⟩ := Option.map_eq_some_iff.mp hchild
    rcases h.alive k before hbefore with hexited | ⟨sc, hsc, -⟩
    · exact .inl (by simp [Child.wake, hexited])
    · exact .inr ⟨sc, hsc, List.mem_finRange sc⟩
  case join rest =>
    rcases rest with - | ⟨sc, rest⟩
    · simp only at hnext
      cases hnext
      exact h.goes rfl rfl List.nodup_nil (by simp [hmain])
    · simp only at hnext
      split at hnext
      · rename_i hnone
        cases hnext
        refine h.goes rfl rfl List.nodup_nil fun other k hother hmem ↦ .inl ?_
        rw [hmain] at hmem
        refine (List.mem_cons.mp hmem).resolve_left ?_
        rintro rfl
        simp [hnone] at hother
      · rename_i k hsc
        split at hnext
        · rename_i hjoined
          cases hnext
          refine h.goes rfl rfl List.nodup_nil fun other j hother hmem ↦ ?_
          rw [hmain] at hmem
          rcases List.mem_cons.mp hmem with rfl | hrest
          · obtain rfl := Option.some.inj (hsc.symm.trans hother)
            rw [h.undetached other k hsc] at hjoined
            refine .inr fun child hchild ↦ ?_
            simpa [hchild] using hjoined
          · exact .inl hrest
        · cases hnext

theorem Joins.create (h : Joins scenarios s)
    (hall : ∀ sc, (scenarios sc).detached = true → (scenarios sc).result = .fail) {created : Bool}
    (hnext : create scenarios s created = some s') : Joins scenarios s' := by
  unfold Self.create at hnext
  split at hnext
  · rename_i sc rest hmain
    have halive : ∀ k child, s.children[k]? = some child →
        child.point = .exited ∨ ∃ other, other ≠ sc ∧ s.creation other = some k ∧ other ∉ rest := by
      intro k child hchild
      rcases h.alive k child hchild with hexited | ⟨other, hother, hopen⟩
      · exact .inl hexited
      · rw [hmain] at hopen
        obtain ⟨hne, hnot⟩ := not_or.mp (mt List.mem_cons.mpr hopen)
        exact .inr ⟨other, hne, hother, hnot⟩
    have hrest : (sc :: rest).Nodup := by simpa [hmain, MainPoint.rest] using h.nodup
    obtain ⟨hsc, hnodup⟩ := List.nodup_cons.mp hrest
    split_ifs at hnext with hadmits hcreated <;> cases hnext
    · subst hcreated
      have hdetached : (scenarios sc).detached = false := by
        rw [← Bool.not_eq_true]
        exact fun hdetached ↦ Expected.admits_true_iff.mp hadmits (hall sc hdetached)
      refine ⟨fun k child hchild ↦ ?_, fun other k hother ↦ ?_, hnodup⟩
      · rcases Nat.lt_or_ge k s.children.length with hlt | hge
        · rw [List.getElem?_append_left hlt] at hchild
          rcases halive k child hchild with hexited | ⟨other, hne, hother, hnot⟩
          · exact .inl hexited
          · exact .inr ⟨other, by simpa [update_of_ne hne] using hother, hnot⟩
        · obtain rfl : k = s.children.length := by
            have hlt := (List.getElem?_eq_some_iff.mp hchild).1
            simp only [List.length_append, List.length_singleton] at hlt
            omega
          exact .inr ⟨sc, by simp, hsc⟩
      · by_cases heq : other = sc
        · rw [heq]
          exact hdetached
        · simp only [update_of_ne heq] at hother
          exact h.undetached other k hother
    · refine ⟨fun k child hchild ↦ ?_, fun other k hother ↦ ?_, hnodup⟩
      · rcases halive k child hchild with hexited | ⟨other, hne, hother, hnot⟩
        · exact .inl hexited
        · exact .inr ⟨other, by simpa [update_of_ne hne] using hother, hnot⟩
      · by_cases heq : other = sc
        · simp [heq] at hother
        · simp only [update_of_ne heq] at hother
          exact h.undetached other k hother
  · cases hnext

/-- Assumes: no detached thread can be created. Every thread that is alive will be joined. -/
theorem joins_of_reachable
    (hall : ∀ sc, (scenarios sc).detached = true → (scenarios sc).result = .fail)
    (h : (program scenarios).Reachable s) : Joins scenarios s := by
  refine h.invariant (fun s hs ↦ ?_) fun s move s' _ hjoins hnext ↦ ?_
  · rw [show s = start n from hs]
    exact ⟨by simp [start], by simp [start], List.nodup_nil⟩
  · simp only [program] at hnext
    split at hnext
    · cases hnext
    · cases move with
      | main => exact hjoins.main hnext
      | create created => exact hjoins.create hall hnext
      | threaded k => exact hjoins.threaded hnext
      | spurious k =>
        simp only [next, spurious] at hnext
        split at hnext
        · cases hnext
        · rename_i child hchild
          split at hnext
          · rename_i hblocked
            cases hnext
            exact hjoins.goto hchild (by simp [hblocked]) _ rfl rfl rfl
          · cases hnext
      | stop =>
        cases hnext
        exact ⟨hjoins.alive, hjoins.undetached, hjoins.nodup⟩

/-- All threads have ended when a round starts. -/
theorem Joins.exited (h : Joins scenarios s) (hmain : s.main = .reset) :
    ∀ child ∈ s.children, child.point = .exited := by
  intro child hmem
  obtain ⟨k, hk⟩ := List.mem_iff_getElem?.mp hmem
  refine (h.alive k child hk).resolve_right ?_
  rintro ⟨sc, -, hopen⟩
  rw [hmain] at hopen
  exact hopen

end OpenPosix.Threads.Self

import OpenPosix.CondVars.DestroyInvariant

/-!
# The stages of a scenario follow each other

The steps of `main` keep the invariant. It goes from one stage to the next when the counter of a
pass is complete, which puts every child into the wait (`Inv.full_of_count`), with the broadcast,
which takes every child out of it, and when the counter of the first pass is back at zero, so that
every child waits for the second mutex (`Inv.between_of_count`).
-/

namespace OpenPosix.CondVars.Destroy

open Interleaving

variable {n scenarios : ℕ} {s s' : State n} {i : Fin n} {p : Pass}

attribute [simp] MainPoint.holds MainPoint.stage MainPoint.toCreate

theorem counted_le_one (p : Pass) (point : ChildPoint) : point.counted p ≤ 1 := by
  unfold ChildPoint.counted
  split
  all_goals first | exact Nat.zero_le 1 | split_ifs <;> simp

/-- `main` has the mutex, so no child does. -/
theorem Inv.not_holds_of_main (h : Inv s) (hmain : s.main.holds p = true) (i : Fin n) :
    (s.child i).holds p = false := by
  by_contra hholds
  exact absurd ((h.owned p).unique (show Holds p s .main from hmain)
    (show Holds p s (.child i) by simpa [Holds] using hholds)) (by simp)

/-- The counter of the pass is complete: all the children are in the wait. -/
theorem Inv.full_of_count (h : Inv s) (hmain : s.main = .poll p) (hcount : ¬ s.count p < n)
    (i : Fin n) : (s.child i).fits (.full p) := by
  have htotal : total (ChildPoint.counted p) s.child = Fintype.card (Fin n) := by
    refine le_antisymm (total_le_card fun j ↦ counted_le_one p _) ?_
    rw [Fintype.card_fin, ← h.count]
    exact not_lt.mp hcount
  have hcounted := eq_one_of_total_eq_card (fun j ↦ counted_le_one p _) htotal i
  have hholds := h.not_holds_of_main (p := p) (by simp [hmain]) i
  have hfits := h.fits i
  cases hpoint : s.child i <;>
    simp_all

/-- The counter of the first pass is zero again: all the children are between the passes. -/
theorem Inv.between_of_count (h : Inv s) (hmain : s.main = .drain) (hcount : ¬ 0 < s.count .one)
    (i : Fin n) : (s.child i).fits .between := by
  have hzero : (s.child i).counted .one = 0 := by
    have hle := le_total (ChildPoint.counted .one) s.child i
    rw [← h.count] at hle
    omega
  have hholds := h.not_holds_of_main (p := .one) (by simp [hmain]) i
  have hfits := h.fits i
  cases hpoint : s.child i <;>
    simp_all

/-- What a step of `main` does to the mutex of a pass: nothing, or it takes it, or releases it. -/
def MutexStep (s s' : State n) (p : Pass) : Prop :=
  s'.mtx p = s.mtx p ∧ s'.main.holds p = s.main.holds p ∨
  s.mtx p = none ∧ s'.mtx p = some .main ∧ s'.main.holds p = true ∨
  s.main.holds p = true ∧ s'.mtx p = none ∧ s'.main.holds p = false

theorem MutexStep.owned (h : MutexStep s s' p) (howned : Owned (s.mtx p) (Holds p s))
    (hchild : s'.child = s.child) : Owned (s'.mtx p) (Holds p s') := by
  have hholds : Holds p s' = Function.update (Holds p s) .main (s'.main.holds p = true) := by
    ext1 thread
    cases thread <;> simp [Holds, hchild]
  rw [hholds]
  refine howned.pass Iff.rfl ?_
  rcases h with ⟨hmtx, hsame⟩ | ⟨hfree, hmtx, hnow⟩ | ⟨hheld, hmtx, hnow⟩ <;> rw [hmtx]
  exacts [.keep hsame, .take hfree hnow, .drop hheld hnow]

/-- A step of `main` that leaves the children and the counters alone. -/
theorem Inv.main_moves (h : Inv s) (hchild : s'.child = s.child) (hcount : s'.count = s.count)
    (hmtx : ∀ p, MutexStep s s' p) (hfits : ∀ i, (s.child i).fits s'.main.stage)
    (hcreate : s'.main.toCreate = []) (hborn : s'.main.stage ≠ .over → ∀ i, s.child i ≠ .unborn)
    (hpredicate : s'.main.stage ≠ .over → ∀ p, s'.predicate p = s'.main.hasSet p)
    (hcnd : s'.main.stage ≠ .over → s'.cnd = s'.main.live)
    (hjoined : ∀ rest, s'.main = .join rest → ∀ i, i ∈ rest ∨ s.child i = .returned) : Inv s' where
  owned := fun p ↦ (hmtx p).owned (h.owned p) hchild
  count := by
    rw [hcount, hchild]
    exact h.count
  fits := hchild ▸ hfits
  nodup := hcreate ▸ List.nodup_nil
  unborn := fun hstage i ↦ by
    rw [hcreate, hchild]
    exact iff_of_false (hborn hstage i) List.not_mem_nil
  predicate := hpredicate
  cnd := hcnd
  joined := hchild ▸ hjoined

theorem Inv.ne_unborn (h : Inv s) (hstage : s.main.stage ≠ .over) (hcreate : s.main.toCreate = [])
    (i : Fin n) : s.child i ≠ .unborn :=
  fun hunborn ↦ List.not_mem_nil (hcreate ▸ (h.unborn hstage i).mp hunborn)

/-- `main` goes on within a scenario. -/
theorem Inv.goes_on (h : Inv s) (hstage : s.main.stage ≠ .over) (hcreated : s.main.toCreate = [])
    (hchild : s'.child = s.child) (hcount : s'.count = s.count) (hmtx : ∀ p, MutexStep s s' p)
    (hfits : ∀ i, (s.child i).fits s'.main.stage) (hcreate : s'.main.toCreate = [])
    (hpredicate : ∀ p, s'.predicate p = s'.main.hasSet p) (hcnd : s'.cnd = s'.main.live)
    (hjoined : ∀ rest, s'.main = .join rest → ∀ i, i ∈ rest ∨ s.child i = .returned) : Inv s' :=
  h.main_moves hchild hcount hmtx hfits hcreate (fun _ ↦ h.ne_unborn hstage hcreated)
    (fun _ ↦ hpredicate) (fun _ ↦ hcnd) hjoined

theorem inv_start (n : ℕ) : Inv (start n) where
  owned := fun p thread ↦ by
    cases thread <;> simp [start, Holds]
  count := fun p ↦ (total_eq_zero fun _ ↦ rfl).symm
  fits := fun _ ↦ rfl
  nodup := List.nodup_nil
  unborn := fun h ↦ absurd rfl h
  predicate := fun h ↦ absurd rfl h
  cnd := fun h ↦ absurd rfl h
  joined := nofun

/-- The state in which `main` starts to create the children of a scenario. -/
theorem inv_setup (scenar : ℕ) : Inv (⟨scenar, .create (List.finRange n), fun _ ↦ .unborn,
    Function.update (fun _ ↦ none) .two (some .main), fun _ ↦ 0, fun _ ↦ false, true⟩ :
      State n) where
  owned := fun p thread ↦ by
    cases p <;> cases thread <;> simp [Holds]
  count := fun p ↦ (total_eq_zero fun _ ↦ rfl).symm
  fits := fun _ ↦ rfl
  nodup := List.nodup_finRange n
  unborn := fun _ i ↦ by simp
  predicate := fun _ p ↦ rfl
  cnd := fun _ ↦ rfl
  joined := nofun

theorem Inv.create {rest : List (Fin n)} (h : Inv s) (hmain : s.main = .create (i :: rest)) :
    Inv ({ s with main := .create rest }.goto i (.lock .one)) := by
  have hstage : s.main.stage ≠ .over := by simp [hmain]
  obtain ⟨hnotin, hnodup⟩ : i ∉ rest ∧ rest.Nodup := by
    simpa [hmain] using h.nodup
  have hunborn : s.child i = .unborn :=
    (h.unborn hstage i).mpr (by simp [hmain])
  refine ⟨fun p ↦ ?_, fun p ↦ ?_, fun j ↦ ?_, hnodup, fun _ j ↦ ?_, fun _ p ↦ ?_, fun _ ↦ ?_,
    by simp⟩
  · refine (h.owned p).congr fun thread ↦ ?_
    cases thread with
    | main => simp [Holds, hmain]
    | child j =>
      by_cases heq : j = i
      · subst heq
        simp [Holds, hunborn]
      · simp [Holds, heq]
  · have hsame : total (ChildPoint.counted p) (Function.update s.child i (.lock .one)) =
        total (ChildPoint.counted p) s.child :=
      total_update_of_eq (by simp [hunborn])
    exact (h.count p).trans hsame.symm
  · have hfits := h.fits j
    by_cases heq : j = i
    · subst heq
      simp
    · simpa [heq, hmain] using hfits
  · by_cases heq : j = i
    · subst heq
      simp [hnotin]
    · simpa [heq, hmain] using h.unborn hstage j
  · simpa [hmain] using h.predicate hstage p
  · simpa [hmain] using h.cnd hstage

/-- `main` broadcasts when all the children are in the wait: they leave it. -/
theorem Inv.broadcast (h : Inv s) (hmain : s.main = .broadcast p) :
    Inv { s with child := Interleaving.wakeUp ChildPoint.wake Finset.univ s.child,
                 main := .unlock p } := by
  have hwoken := h.wakeUp Finset.univ
  refine hwoken.goes_on (by simp [hmain]) (by simp [hmain]) rfl
    rfl (fun q ↦ .inl ⟨rfl, by simp [hmain]⟩) (fun i ↦ ?_) rfl (fun q ↦ ?_) ?_
    (by simp)
  · have hfits := h.fits i
    simp only [Interleaving.wakeUp, Finset.mem_univ, if_true]
    cases hpoint : s.child i <;>
      simp_all
  · simpa [hmain] using h.predicate (by simp [hmain]) q
  · simpa [hmain] using h.cnd (by simp [hmain])

/-- A step of `main` with which it only takes or releases a mutex, or sees a counter. -/
theorem Inv.moves_on {m : MainPoint n} {mtx : Pass → Option (Thread n)} (h : Inv s)
    (hstage : s.main.stage ≠ .over) (hcreated : s.main.toCreate = []) (hcreate : m.toCreate = [])
    (hjoin : ∀ rest, m ≠ .join rest) (hset : ∀ p, m.hasSet p = s.main.hasSet p)
    (hlive : m.live = s.main.live) (hmtx : ∀ p, MutexStep s { s with mtx := mtx, main := m } p)
    (hfits : ∀ i, (s.child i).fits m.stage) : Inv { s with mtx := mtx, main := m } :=
  h.goes_on hstage hcreated rfl rfl hmtx hfits hcreate
    (fun p ↦ (h.predicate hstage p).trans (hset p).symm) ((h.cnd hstage).trans hlive.symm)
    fun rest heq ↦ absurd heq (hjoin rest)

/-- Two points of `main` in the same stage that differ only in who has the mutex of a pass. -/
structure Alike (p : Pass) (m m' : MainPoint n) : Prop where
  stage : m'.stage = m.stage
  inside : m.stage ≠ .over
  created : m.toCreate = [] ∧ m'.toCreate = []
  join : ∀ rest, m' ≠ .join rest
  hasSet : ∀ q, m'.hasSet q = m.hasSet q
  live : m'.live = m.live
  holds : ∀ q, q ≠ p → m'.holds q = m.holds q

/-- The points between which `main` takes or releases the mutex of a pass. -/
inductive Turn : Pass → MainPoint n → MainPoint n → Prop
  | take (p : Pass) : Turn p (.lock p) (.poll p)
  | again (p : Pass) : Turn p (.poll p) (.lock p)
  | release (p : Pass) : Turn p (.unlock p) (.destroy p)
  | takeDrain : Turn .one .drainLock .drain
  | againDrain : Turn .one .drain .drainLock
  | releaseDrain : Turn .one .drainUnlock .init

theorem Turn.alike {m m' : MainPoint n} (h : Turn p m m') : Alike p m m' := by
  cases p <;> cases h <;>
    refine ⟨rfl, by simp, ⟨rfl, rfl⟩, by simp, fun q ↦ rfl, rfl, fun q hq ↦ ?_⟩
  all_goals cases q <;> simp_all

/-- `main` takes or releases a mutex. -/
theorem Inv.turn {m m' : MainPoint n} {owner : Option (Thread n)} (h : Inv s) (hmain : s.main = m')
    (hturn : Turn p m' m) (hpass : Passes .main (s.mtx p) (m'.holds p) (m.holds p) owner) :
    Inv { s.setMtx p owner with main := m } := by
  subst hmain
  have halike := hturn.alike
  refine h.moves_on halike.inside halike.created.1 halike.created.2 halike.join halike.hasSet
    halike.live (fun q ↦ ?_) (halike.stage ▸ h.fits)
  by_cases hq : q = p
  · subst hq
    cases hpass with
    | keep hsame => exact .inl ⟨by simp, hsame⟩
    | take hfree hnow => exact .inr (.inl ⟨hfree, by simp, hnow⟩)
    | drop hheld hnow => exact .inr (.inr ⟨hheld, by simp, hnow⟩)
  · exact .inl ⟨by simp [hq], halike.holds q hq⟩

theorem Inv.setPredicate (h : Inv s) (hmain : s.main = .setPredicate p) :
    Inv { s with predicate := Function.update s.predicate p true, main := .broadcast p } := by
  have hstage : s.main.stage ≠ .over := by simp [hmain]
  refine h.goes_on hstage (by simp [hmain]) rfl rfl
    (fun q ↦ .inl ⟨rfl, by simp [hmain]⟩)
    (by simpa [hmain] using h.fits) rfl (fun q ↦ ?_) ?_ (by simp)
  · have hpredicate := h.predicate hstage q
    cases p <;> cases q <;> simp_all
  · simpa [hmain] using h.cnd hstage

/-- `main` destroys the condition variable after the broadcast. -/
theorem Inv.destroy (h : Inv s) (hmain : s.main = .destroy p) :
    Inv { s with cnd := false, main := afterDestroy p } := by
  have hstage : s.main.stage ≠ .over := by simp [hmain]
  have hpredicate := h.predicate hstage
  refine h.goes_on hstage (by simp [hmain]) rfl rfl
    (fun q ↦ .inl ⟨rfl, ?_⟩) ?_ ?_ (fun q ↦ ?_) ?_ ?_
  · cases p <;> cases q <;> simp [hmain, afterDestroy]
  · cases p <;> simpa [hmain, afterDestroy] using h.fits
  · cases p <;> rfl
  · cases p <;> cases q <;> simp_all [afterDestroy]
  · cases p <;> rfl
  · intro rest heq i
    cases p with
    | one => simp [afterDestroy] at heq
    | two =>
      obtain rfl := MainPoint.join.inj heq
      simp

/-- `main` initialises the condition variable for the second pass. -/
theorem Inv.init (h : Inv s) (hmain : s.main = .init) :
    Inv { s with cnd := true, main := .poll .two } := by
  have hstage : s.main.stage ≠ .over := by simp [hmain]
  refine h.goes_on hstage (by simp [hmain]) rfl rfl
    (fun q ↦ .inl ⟨rfl, ?_⟩) (fun i ↦ ?_) rfl (fun q ↦ ?_) rfl (by simp)
  · cases q <;> simp [hmain]
  · have hfits := h.fits i
    cases hpoint : s.child i <;> simp_all
  · simpa [hmain] using h.predicate hstage q

theorem Inv.join {rest : List (Fin n)} (h : Inv s) (hmain : s.main = .join (i :: rest))
    (hreturned : s.child i = .returned) : Inv { s with main := .join rest } := by
  have hstage : s.main.stage ≠ .over := by simp [hmain]
  refine h.goes_on hstage (by simp [hmain]) rfl rfl
    (fun q ↦ .inl ⟨rfl, by simp [hmain]⟩)
    (by simpa [hmain] using h.fits) rfl (fun q ↦ ?_) ?_ ?_
  · simpa [hmain] using h.predicate hstage q
  · simpa [hmain] using h.cnd hstage
  · intro rest' heq j
    obtain rfl := MainPoint.join.inj heq
    rcases h.joined _ hmain j with hmem | hdone
    · rcases List.mem_cons.mp hmem with rfl | hrest
      · exact .inr hreturned
      · exact .inl hrest
    · exact .inr hdone

/-- All the children are joined. -/
theorem Inv.joined_all (h : Inv s) (hmain : s.main = .join []) :
    Inv { s with main := .cleanup } := by
  refine h.main_moves rfl rfl (fun p ↦ .inl ⟨rfl, by simp [hmain]⟩)
    (fun i ↦ ?_) rfl
    (fun hstage ↦ absurd rfl hstage) (fun hstage ↦ absurd rfl hstage)
    (fun hstage ↦ absurd rfl hstage) (by simp)
  rw [(h.joined [] hmain i).resolve_left (by simp)]
  rfl

theorem Inv.main_step (h : Inv s) (hnext : Destroy.main scenarios s = some s') : Inv s' := by
  unfold Destroy.main at hnext
  cases hmain : s.main <;> simp only [hmain, reduceCtorEq] at hnext
  case setup =>
    split_ifs at hnext with hlt
    · exact Option.some.inj hnext ▸ inv_setup s.scenar
    · cases hnext
      exact h.main_moves rfl rfl (fun p ↦ .inl ⟨rfl, by simp [hmain]⟩)
        (by simpa [hmain] using h.fits) rfl (fun hstage ↦ absurd rfl hstage)
        (fun hstage ↦ absurd rfl hstage) (fun hstage ↦ absurd rfl hstage) (by simp)
  case create rest =>
    have hstage : s.main.stage ≠ .over := by simp [hmain]
    cases rest with
    | nil =>
      cases hnext
      refine h.goes_on hstage (by simp [hmain]) rfl rfl
        (fun p ↦ .inl ⟨rfl, by simp [hmain]⟩)
        (by simpa [hmain] using h.fits) rfl (fun p ↦ ?_) ?_ (by simp)
      · simpa [hmain] using h.predicate hstage p
      · simpa [hmain] using h.cnd hstage
    | cons i rest =>
      cases hnext
      exact h.create hmain
  case broadcast p =>
    cases hnext
    exact h.broadcast hmain
  case lock p =>
    obtain ⟨hfree, rfl⟩ := map_mutexLock_eq_some_iff.mp hnext
    exact h.turn hmain (.take p) (.take hfree (by simp))
  case poll p =>
    split_ifs at hnext with hcount
    · cases hnext
      refine h.turn hmain (.again p) (.drop (by simp) ?_)
      cases p <;> simp
    · cases hnext
      exact h.moves_on (by simp [hmain]) (by simp [hmain]) rfl
        (by simp) (by simp [hmain]) (by simp [hmain])
        (fun q ↦ .inl ⟨rfl, by simp [hmain]⟩) (h.full_of_count hmain hcount)
  case setPredicate p =>
    cases hnext
    exact h.setPredicate hmain
  case unlock p =>
    cases hnext
    refine h.turn hmain (.release p) (.drop (by simp) ?_)
    cases p <;> simp
  case destroy p =>
    cases hnext
    exact h.destroy hmain
  case drainLock =>
    obtain ⟨hfree, rfl⟩ := map_mutexLock_eq_some_iff.mp hnext
    exact h.turn hmain .takeDrain (.take hfree rfl)
  case drain =>
    split_ifs at hnext with hcount
    · cases hnext
      exact h.turn hmain .againDrain (.drop rfl rfl)
    · cases hnext
      exact h.moves_on (by simp [hmain]) (by simp [hmain]) rfl
        (by simp) (by simp [hmain]) (by simp [hmain])
        (fun q ↦ .inl ⟨rfl, by simp [hmain]⟩) (h.between_of_count hmain hcount)
  case drainUnlock =>
    cases hnext
    exact h.turn hmain .releaseDrain (.drop rfl rfl)
  case init =>
    cases hnext
    exact h.init hmain
  case join rest =>
    cases rest with
    | nil =>
      cases hnext
      exact h.joined_all hmain
    | cons i rest =>
      obtain ⟨hreturned, ⟨⟩⟩ := Option.ite_none_right_eq_some.mp hnext
      exact h.join hmain hreturned
  case cleanup =>
    cases hnext
    exact h.main_moves rfl rfl (fun p ↦ .inl ⟨rfl, by simp [hmain]⟩)
      (by simpa [hmain] using h.fits) rfl (fun hstage ↦ absurd rfl hstage)
      (fun hstage ↦ absurd rfl hstage) (fun hstage ↦ absurd rfl hstage) (by simp)

theorem Inv.next {move : Move n} (h : Inv s) (hnext : (program n scenarios).next s move = some s') :
    Inv s' := by
  rcases move with (_ | i) | i
  · exact h.main_step hnext
  · obtain ⟨p, heffect⟩ := childEffect_of_child h hnext
    exact h.child heffect
  · obtain ⟨-, ⟨⟩⟩ := Option.ite_none_right_eq_some.mp hnext
    unfold State.goto
    rw [update_wake]
    exact h.wakeUp {i}

theorem inv_of_reachable (h : (program n scenarios).Reachable s) : Inv s :=
  h.invariant (fun _ hs ↦ hs ▸ inv_start n) fun _ _ _ _ hinv hnext ↦ hinv.next hnext

end OpenPosix.CondVars.Destroy

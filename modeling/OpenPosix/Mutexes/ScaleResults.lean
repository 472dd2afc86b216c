import OpenPosix.Mutexes.ScaleList

/-!
# What the scalability test counts

`main` holds `m` until the element of a new child is filled in, so a child finds its number, and
`counter` agrees with the number of the last child exactly when all have started. After the
broadcast every thread can end (`exists_over`). `errors` is the number of children with a failed
lock, provided that the walk comes to an end: nothing sets the `next` of the last element, and the
walk goes by whatever `malloc` left there. A run does what it is meant to do exactly if the last
block happens to hold `NULL` at that place (`correct_iff`); otherwise `main` walks past the last
element (`walks_past_end`).
-/

namespace OpenPosix.Mutexes.Scale

open Interleaving

variable {blocks : Link → Bool} {s s' : State} {i k ret : ℕ} {td td' : Element}
  {trace : List (State × Move)}

attribute [simp] MainPoint.released

/-! ### The errors -/

variable {move : Move}

/-- The elements with a failed lock, before and after a step of a thread. -/
theorem ElementStep.any_failed (h : Inv k s)
    (hstep : ElementStep i (lockFails i (s, move)) s s' td td')
    (hothers : ∀ j, j ≠ i → lockFails j (s, move) = false) (j : ℕ) :
    (s'.elements[j]?).any Element.failed =
      ((s.elements[j]?).any Element.failed || lockFails j (s, move)) := by
  rw [hstep.elements]
  by_cases heq : j = i
  · subst heq
    rw [List.getElem?_set_self (List.getElem?_eq_some_iff.mp hstep.before).1, hstep.before]
    exact hstep.failed (h.ok j td hstep.before)
  · rw [List.getElem?_set_ne (Ne.symm heq), hothers j heq, Bool.or_false]

theorem Inv.any_failed_main (h : Inv k s) (hnext : Scale.main s ret = some s') (i : ℕ) :
    (s'.elements[i]?).any Element.failed = (s.elements[i]?).any Element.failed := by
  obtain ⟨hlength, hkeeps⟩ | ⟨next, helements⟩ := h.main_keeps hnext
  · by_cases hlt : i < s.elements.length
    · have hget := List.getElem?_eq_getElem hlt
      have hget' := List.getElem?_eq_getElem (hlength ▸ hlt)
      rw [hget, hget']
      exact (hkeeps i _ _ hget hget').2
    · rw [List.getElem?_eq_none (not_lt.mp hlt), List.getElem?_eq_none (hlength ▸ not_lt.mp hlt)]
  · rw [helements]
    rcases Nat.lt_trichotomy i s.elements.length with hlt | rfl | hgt
    · rw [List.getElem?_append_left hlt]
    · simp [newElement]
    · rw [getElem?_concat_of_length_lt _ hgt, List.getElem?_eq_none hgt.le]

theorem Inv.any_failed (h : Inv k s) (hnext : Scale.next s move = some s') :
    s'.main = .unresolved ∨ ∀ i, (s'.elements[i]?).any Element.failed =
      ((s.elements[i]?).any Element.failed || lockFails i (s, move)) := by
  obtain hended | hstep := step_of_next hnext
  · exact .inl hended
  cases hstep with
  | malloc hmalloc =>
    obtain ⟨-, rfl⟩ := malloc_eq hmalloc
    exact .inr fun i ↦ (Bool.or_false _).symm
  | main hmain => exact .inr fun i ↦ (h.any_failed_main hmain i).trans (Bool.or_false _).symm
  | element hstep hothers => exact .inr (hstep.any_failed h hothers)

/-- The error of an element says whether a lock of its mutex has failed. -/
theorem any_lockFails (hexec : (program blocks).Exec trace s) (halive : s.main ≠ .unresolved)
    (i : ℕ) : trace.any (lockFails i) = (s.elements[i]?).any Element.failed := by
  induction hexec with
  | start hinitial =>
    obtain rfl : _ = start := hinitial
    simp [start]
  | @step trace s s' move hbefore hnext ih =>
    obtain ⟨-, hnext⟩ := Option.ite_none_right_eq_some.mp hnext
    have hrunning : s.main ≠ .unresolved := by
      intro hended
      simp [next, hended, MainPoint.over] at hnext
    obtain ⟨k, hinv⟩ := (sound_of_reachable ⟨trace, hbefore⟩).resolve_left hrunning
    rw [List.any_append, ih hrunning, (hinv.any_failed hnext).resolve_left halive i]
    simp

/-- Counting the places of a list is counting its entries. -/
theorem countP_range_any {α : Type*} (p : α → Bool) (list : List α) :
    (List.range list.length).countP (fun i ↦ (list[i]?).any p) = list.countP p := by
  induction list using List.reverseRecOn with
  | nil => rfl
  | append_singleton rest last ih =>
    rw [List.length_append, List.length_singleton, List.range_succ, List.countP_append,
      List.countP_append, ← ih]
    congr 1
    · refine List.countP_congr fun i hi ↦ ?_
      rw [List.getElem?_append_left (List.mem_range.mp hi)]
    · simp [List.countP_singleton]

theorem failures_eq (hexec : (program blocks).Exec trace s) (halive : s.main ≠ .unresolved) :
    failures trace s.elements.length = s.elements.countP Element.failed := by
  unfold failures
  simp only [any_lockFails hexec halive]
  exact countP_range_any Element.failed s.elements

/-! ### After the broadcast -/

/-- The steps that are left of a child that is on its way out. -/
@[simp] def ChildPoint.rank : ChildPoint → ℕ
  | .woken => 6
  | .test => 5
  | .unlock => 4
  | .unlockMtx => 3
  | .join => 2
  | .destroy => 1
  | _ => 0

def SubPoint.rank : SubPoint → ℕ
  | .lock => 2
  | .unlock => 1
  | .unborn | .returned => 0

@[simp] def Element.rank (td : Element) : ℕ :=
  td.child.rank + td.sub.rank + if td.freed then 0 else 4

@[simp] def MainPoint.rank : MainPoint → ℕ
  | .unlockEnd => 4
  | .walk => 3
  | .join _ => 2
  | .count _ => 1
  | _ => 0

def State.rank (s : State) : ℕ := listTotal Element.rank s.elements + s.main.rank

/-- A step that makes the rank smaller. -/
def Progress (blocks : Link → Bool) (s : State) : Prop :=
  ∃ move s', (program blocks).next s move = some s' ∧ s'.main.released = true ∧ s'.rank < s.rank

theorem progress_main (hover : s.main.over = false) (hnext : main s 0 = some s')
    (hreleased : s'.main.released = true) (hrank : s'.rank < s.rank) : Progress blocks s :=
  ⟨.main 0, s', by simp [program, Move.admitted, next, hover, hnext], hreleased, hrank⟩

/-- A thread of an element makes a step. -/
theorem progress_put (move : Move) (hadmitted : move.admitted blocks = true)
    (hreleased : s.main.released = true) (hget : s.elements[i]? = some td)
    (hnext : next s move = some s') (helements : s'.elements = s.elements.set i td')
    (hmain : s'.main = s.main) (hrank : td'.rank < td.rank) : Progress blocks s := by
  refine ⟨move, s', ?_, hmain ▸ hreleased, ?_⟩
  · simp [program, hadmitted, hnext]
  · have hset := listTotal_set Element.rank td' hget
    unfold State.rank
    rw [helements, hmain]
    omega

theorem progress_threaded (m : Option Owner) (td' : Element) (hover : s.main.over = false)
    (hreleased : s.main.released = true) (hget : s.elements[i]? = some td)
    (hnext : threaded s i 0 = some { s.put i td' with m := m }) (hrank : td'.rank < td.rank) :
    Progress blocks s := by
  have hstep : next s (.threaded i 0) = some { s.put i td' with m := m } := by
    simpa [next, hover] using hnext
  exact progress_put _ rfl hreleased hget hstep rfl rfl hrank

theorem progress_sub (td' : Element) (hover : s.main.over = false)
    (hreleased : s.main.released = true) (hget : s.elements[i]? = some td)
    (hnext : sub s i 0 = some (s.put i td')) (hrank : td'.rank < td.rank) : Progress blocks s := by
  have hstep : next s (.sub i 0) = some (s.put i td') := by
    simpa [next, hover] using hnext
  exact progress_put _ rfl hreleased hget hstep rfl rfl hrank

theorem Inv.leaving (h : Inv k s) (hreleased : s.main.released = true)
    (hget : s.elements[i]? = some td) : td.child.leaving = true :=
  h.sync.leaving hreleased td.child (List.mem_map_of_mem (List.mem_of_getElem? hget))

/-- A child that holds `m` goes on, as `do_it` is cleared. -/
theorem progress_holder (h : Inv k s) (hover : s.main.over = false)
    (hreleased : s.main.released = true) (hget : s.elements[i]? = some td)
    (hholds : td.child.holds = true) : Progress blocks s := by
  have hdoIt := h.sync.doIt_of_released hreleased
  have hleaving := h.leaving hreleased hget
  cases hpoint : td.child with
  | test =>
    refine progress_threaded s.m { td with child := .unlock } hover hreleased hget ?_ ?_
    · simp only [threaded, hget, hpoint, hdoIt]
      rfl
    · simp [hpoint]
  | unlock =>
    refine progress_threaded none { td with child := .unlockMtx } hover hreleased hget ?_ ?_
    · simp only [threaded, hget, hpoint]
      rfl
    · simp [hpoint]
  | _ => simp [hpoint, ChildPoint.holds] at hholds hleaving

/-- A grandchild that its child waits for goes on: the child has released the mutex. -/
theorem progress_grandchild (h : Inv k s) (hover : s.main.over = false)
    (hreleased : s.main.released = true) (hget : s.elements[i]? = some td)
    (hjoin : td.child = .join) (hsub : td.sub ≠ .returned) : Progress blocks s := by
  have hok := h.ok i td hget
  cases hpoint : td.sub with
  | unborn => exact absurd hpoint (hok.join hjoin)
  | returned => exact absurd hpoint hsub
  | lock =>
    have hfree : td.mtx = none := by
      cases hmtx : td.mtx with
      | none => rfl
      | some level =>
        cases level with
        | child => exact absurd (hok.child hmtx) (by rw [hjoin]; decide)
        | grandchild => exact absurd (hpoint.symm.trans (hok.grandchild hmtx)) (by decide)
    refine progress_sub { td with sub := .unlock, error := some 0, mtx := some .grandchild } hover
      hreleased hget ?_ ?_
    · simp only [sub, hget, hpoint, hfree]
      rfl
    · simp [hpoint, SubPoint.rank]
  | unlock =>
    refine progress_sub { td with sub := .returned, error := some 0, mtx := none } hover hreleased
      hget ?_ ?_
    · simp only [sub, hget, hpoint]
      rfl
    · simp [hpoint, SubPoint.rank]

/-- A child that has not ended goes on, or the thread that it waits for does. -/
theorem progress_child (h : Inv k s) (hover : s.main.over = false) (hmain : s.main.holds = false)
    (hreleased : s.main.released = true) (hget : s.elements[i]? = some td)
    (hchild : td.child ≠ .returned) : Progress blocks s := by
  cases hm : s.m with
  | some owner =>
    have hholds := (h.sync.owned owner).mp hm
    cases owner with
    | main => exact absurd (hmain.symm.trans hholds) (by decide)
    | child j =>
      obtain ⟨point, hpoint, hpoint'⟩ := (Option.any_eq_true _ _).mp hholds
      rw [State.points, List.getElem?_map] at hpoint
      obtain ⟨holder, hholder, rfl⟩ := Option.map_eq_some_iff.mp hpoint
      exact progress_holder h hover hreleased hholder hpoint'
  | none =>
    have hleaving := h.leaving hreleased hget
    cases hpoint : td.child with
    | woken =>
      refine progress_threaded (some (.child i)) { td with child := .test } hover hreleased hget
        ?_ ?_
      · simp only [threaded, hget, hpoint, hm]
        rfl
      · simp [hpoint]
    | test | unlock => exact progress_holder h hover hreleased hget (by rw [hpoint]; rfl)
    | unlockMtx =>
      refine progress_threaded s.m
        { td with child := if td.retCreate = 0 then .join else .destroy, mtx := none } hover
        hreleased hget ?_ ?_
      · simp only [threaded, hget, hpoint]
        rfl
      · unfold Element.rank
        rw [hpoint]
        split_ifs <;> simp
    | join =>
      by_cases hsub : td.sub = .returned
      · refine progress_threaded s.m { td with child := .destroy } hover hreleased hget ?_ ?_
        · simp only [threaded, hget, hpoint, hsub]
          rfl
        · simp [hpoint]
      · exact progress_grandchild h hover hreleased hget hpoint hsub
    | destroy =>
      refine progress_threaded s.m { td with child := .returned } hover hreleased hget ?_ ?_
      · simp only [threaded, hget, hpoint]
        rfl
      · simp [hpoint]
    | returned => exact absurd hpoint hchild
    | _ => simp [hpoint] at hleaving

theorem modify_eq_set {α : Type*} {list : List α} {a : α} (f : α → α) (hget : list[i]? = some a) :
    list.modify i f = list.set i (f a) := by
  rw [List.modify_eq_set_getElem?, hget]
  rfl

theorem progress_free (h : Inv k s) (hmain : s.main = .free i) : Progress blocks s := by
  have hat := h.chain.at_main
  rw [hmain] at hat
  obtain ⟨rfl, hlt, -⟩ := hat
  obtain ⟨td, hget⟩ := exists_getElem? hlt
  have hfreed : td.freed = false := by
    rw [← Bool.not_eq_true]
    exact fun hfreed ↦ lt_irrefl i ((h.chain.fits i _ (getElem?_records hget)).freed.mp hfreed)
  have hless : Element.rank { td with freed := true } + 4 = td.rank := by
    simp [hfreed]
  have hset := listTotal_set Element.rank { td with freed := true } hget
  refine progress_main (by rw [hmain]; rfl) (by rw [main, hmain]) rfl ?_
  show listTotal Element.rank (s.elements.modify i _) + 3 < s.rank
  rw [modify_eq_set _ hget, State.rank]
  omega

/-- `main` goes on and leaves the elements alone. -/
theorem progress_same (hover : s.main.over = false) (hnext : main s 0 = some s')
    (helements : s'.elements = s.elements) (hreleased : s'.main.released = true)
    (hrank : s'.main.rank < s.main.rank) : Progress blocks s := by
  refine progress_main hover hnext hreleased ?_
  unfold State.rank
  rw [helements]
  omega

theorem exists_walk_step (hmain : s.main = .walk) : ∃ s', main s 0 = some s' := by
  simp only [main, hmain]
  split
  case h_3 =>
    split
    case h_2 => split_ifs <;> exact ⟨_, rfl⟩
    case h_1 => exact ⟨_, rfl⟩
  all_goals exact ⟨_, rfl⟩

/-- After the broadcast the process can always go on, up to the end of `main`. -/
theorem progress_of_released (h : Inv k s) (hover : s.main.over = false)
    (hreleased : s.main.released = true) : Progress blocks s := by
  cases hmain : s.main with
  | unlockEnd =>
    have hnext : main s 0 = some { s with main := .walk, m := none, cur := none } := by
      simp [main, hmain, checked]
    refine progress_same hover hnext rfl rfl ?_
    simp [hmain]
  | walk =>
    obtain ⟨s', hnext⟩ := exists_walk_step hmain
    obtain ⟨main', link, rfl, hends⟩ := walk_eq hmain hnext
    refine progress_same hover hnext rfl ?_ ?_
    · obtain rfl | rfl | ⟨i, rfl⟩ := hends <;> rfl
    · rw [hmain]
      obtain rfl | rfl | ⟨i, rfl⟩ := hends <;> simp
  | join i =>
    have hat := h.chain.at_main
    rw [hmain] at hat
    obtain ⟨rfl, hlt, -⟩ := hat
    obtain ⟨td, hget⟩ := exists_getElem? hlt
    by_cases hchild : td.child = .returned
    · have hnext : main s 0 = some { s with main := .count i } := by
        simp [main, hmain, hget, hchild, checked]
      refine progress_same hover hnext rfl rfl ?_
      simp [hmain]
    · exact progress_child h hover (by rw [hmain]; rfl) hreleased hget hchild
  | count i =>
    have hnext : main s 0 = some { s with
        main := .free i
        errors := s.errors + if (s.elements[i]?).bind Element.error = some 0 then 0 else 1 } := by
      simp [main, hmain]
    refine progress_same hover hnext rfl rfl ?_
    simp [hmain]
  | free i => exact progress_free h hmain
  | ended | undefined => simp [hmain, MainPoint.over] at hover
  | _ => simp [hmain] at hreleased

/-- A run that has come to the broadcast and has not ended with `UNRESOLVED`. -/
def Released (blocks : Link → Bool) (s : State) : Prop :=
  (program blocks).Reachable s ∧ s.main.released = true

theorem inv_of_released (h : Released blocks s) : ∃ k, Inv k s := by
  obtain ⟨hreach, hreleased⟩ := h
  refine (sound_of_reachable hreach).resolve_left fun hended ↦ ?_
  simp [hended] at hreleased

/-- After the broadcast, `main` can come to its end. -/
theorem exists_over (h : Released blocks s) : ∃ t, (program blocks).Leads s t ∧
    Released blocks t ∧ t.main.over = true := by
  refine System.exists_leads_of_measure State.rank (fun s hs hover ↦ ?_) h
  obtain ⟨k, hinv⟩ := inv_of_released hs
  obtain ⟨move, s', hnext, hreleased, hrank⟩ : Progress blocks s :=
    progress_of_released hinv (by simpa using hover) hs.2
  exact ⟨move, s', hnext, ⟨hs.1.step hnext, hreleased⟩, hrank⟩

/-- At the end all children and grandchildren have ended. -/
theorem Inv.done (h : Inv k s) (hreleased : s.main.released = true) (hover : s.main.over = true)
    (td : Element) (hmem : td ∈ s.elements) : td.Done := by
  obtain ⟨i, hget⟩ := List.mem_iff_getElem?.mp hmem
  have hlt : i < s.records.length := (List.getElem?_eq_some_iff.mp (getElem?_records hget)).1
  have hat := h.chain.at_main
  have hreturned := h.tally.returned i td hget
  refine (h.ok i td hget).done ?_
  cases hmain : s.main with
  | ended | undefined =>
    rw [hmain] at hat hreturned
    exact hreturned (hat.1 ▸ hlt)
  | unresolved => simp [hmain] at hreleased
  | _ => simp [hmain, MainPoint.over] at hover

/-! ### The link that ends the list -/

theorem released_main (hreleased : s.main.released = true) (hnext : Scale.main s ret = some s') :
    s'.main = .unresolved ∨ s'.main.released = true := by
  cases mainStep hnext with
  | unresolved => exact .inl rfl
  | walk hmain hends => obtain rfl | rfl | ⟨i, rfl⟩ := hends <;> exact .inr rfl
  | unlockEnd | join | count | free => exact .inr rfl
  | _ hmain => simp [hmain] at hreleased

/-- Past the broadcast, with this link at the end of the list. -/
def PastWith (link : Link) (s : State) : Prop :=
  s.main = .unresolved ∨ s.main.released = true ∧ endLink s.records = link

theorem Inv.pastWith (h : Inv k s) (hreleased : s.main.released = true)
    (hnext : Scale.next s move = some s') : PastWith (endLink s.records) s' := by
  obtain hended | hstep := step_of_next hnext
  · exact .inl hended
  cases hstep with
  | malloc hmalloc => simp [(malloc_eq hmalloc).1] at hreleased
  | main hmain =>
    obtain hended | ⟨k', -, -, hkept⟩ := h.list_main hmain
    · exact .inl hended
    refine (released_main hreleased hmain).imp_right fun hreleased' ↦ ⟨hreleased', ?_⟩
    refine hkept.resolve_right fun hcreate ↦ ?_
    simp [hcreate] at hreleased
  | element hstep =>
    exact .inr ⟨hstep.step.main ▸ hreleased, congrArg endLink hstep.records_eq⟩

theorem Released.pastWith {t : State} (h : Released blocks s)
    (hleads : (program blocks).Leads s t) : PastWith (endLink s.records) t := by
  refine (hleads.invariant (fun u move u' hreach hu hnext ↦ ?_) h.1 (.inr ⟨h.2, rfl⟩)).2
  obtain ⟨-, hnext⟩ := Option.ite_none_right_eq_some.mp hnext
  obtain hended | ⟨hreleased, hlink⟩ := hu
  · simp [next, hended, MainPoint.over] at hnext
  · obtain ⟨k, hinv⟩ := inv_of_released ⟨hreach, hreleased⟩
    exact hlink ▸ hinv.pastWith hreleased hnext

/-- The last link is one that `malloc` may leave in a block. -/
def EndsIn (blocks : Link → Bool) (s : State) : Prop :=
  (∀ link, s.main = .create link → blocks link = true) ∧
    (endLink s.records ≠ .null → blocks (endLink s.records) = true)

theorem EndsIn.next (h : EndsIn blocks s) (hinv : Inv k s) (hadmitted : move.admitted blocks = true)
    (hnext : Scale.next s move = some s') : s'.main = .unresolved ∨ EndsIn blocks s' := by
  obtain hended | hstep := step_of_next hnext
  · exact .inl hended
  cases hstep with
  | @malloc block hmalloc =>
    obtain ⟨-, rfl⟩ := malloc_eq hmalloc
    refine .inr ⟨fun link hlink ↦ ?_, h.2⟩
    cases block with
    | none => cases hlink
    | some next =>
      obtain rfl : next = link := MainPoint.create.inj hlink
      exact hadmitted
  | main hnext' =>
    obtain hended | ⟨k', -, hcreate, hkept⟩ := hinv.list_main hnext'
    · exact .inl hended
    refine .inr ⟨fun link hlink ↦ absurd hlink (hcreate link), fun hne ↦ ?_⟩
    obtain hsame | hmain := hkept
    · rw [hsame] at hne ⊢
      exact h.2 hne
    · exact h.1 _ hmain
  | element hstep =>
    unfold EndsIn
    rw [hstep.step.main, hstep.records_eq]
    exact .inr h

/-- The process has ended with `UNRESOLVED`, or the last link comes from `malloc`. -/
def EndsSound (blocks : Link → Bool) (s : State) : Prop :=
  s.main = .unresolved ∨ EndsIn blocks s

theorem endsSound_of_reachable (h : (program blocks).Reachable s) : EndsSound blocks s := by
  refine h.invariant (fun s hs ↦ ?_) fun s move s' hreach hends hnext ↦ ?_
  · obtain rfl : s = start := hs
    exact .inr ⟨nofun, fun hne ↦ absurd rfl hne⟩
  · obtain ⟨hadmitted, hnext⟩ := Option.ite_none_right_eq_some.mp hnext
    have hrunning : s.main ≠ .unresolved := by
      intro hended
      simp [next, hended, MainPoint.over] at hnext
    obtain ⟨k, hinv⟩ := (sound_of_reachable hreach).resolve_left hrunning
    exact (hends.resolve_left hrunning).next hinv hadmitted hnext

/-! ### The test as a whole -/

variable {link : Link}

/-- What the test relies on, at the end of a run. A child reads its number at `init`, and a
grandchild when its lock has failed. -/
structure Correct (blocks : Link → Bool) (trace : List (State × Move)) (s : State) : Prop where
  idSet : ∀ (i : ℕ) (td : Element), s.elements[i]? = some td →
    td.child = .init ∨ td.sub = .lock → td.id = some (i + 1)
  counter : ∀ last id, s.elements.getLast? = some last → last.id = some id →
    s.counter ≤ id ∧ (s.counter = id → ∀ td ∈ s.elements, td.child.started = true)
  terminates : s.main.released = true →
    ∃ t, (program blocks).Leads s t ∧ ∀ td ∈ t.elements, td.Done
  ends : s.main.released = true → ∃ t, (program blocks).Leads s t ∧ t.main = .ended
  defined : s.main ≠ .undefined
  errors : s.main = .ended → s.errors = failures trace s.elements.length

/-- A child waits for `m` while `main` fills in its element. -/
theorem Inv.idSet (h : Inv k s) (hget : s.elements[i]? = some td)
    (hreads : td.child = .init ∨ td.sub = .lock) : td.id = some (i + 1) := by
  have hrecord := getElem?_records hget
  have hlt : i < s.records.length := (List.getElem?_eq_some_iff.mp hrecord).1
  have hid : td.id = _ := (h.chain.fits i _ hrecord).id
  rw [hid, if_pos]
  unfold MainPoint.numbered
  split_ifs with hmain
  · have hfilling : s.main.filling = true := by
      obtain hmain | hmain := hmain <;> rw [hmain] <;> rfl
    have hlast := (h.sync.filling hfilling).1
    by_contra hge
    have heq : i = s.points.length - 1 := by
      have hlength : s.records.length = s.points.length := by simp [State.records]
      omega
    have hpoint : s.points[i]? = some td.child := by simp [hget]
    rw [List.getLast?_eq_getElem?, ← heq, hpoint, Option.some.injEq] at hlast
    have hsub := (h.ok i td hget).early (by rw [hlast]; rfl)
    simp [hlast, hsub] at hreads
  · exact hlt

theorem Inv.counter (h : Inv k s) {last : Element} {id : ℕ}
    (hlast : s.elements.getLast? = some last) (hid : last.id = some id) : s.counter ≤ id ∧
      (s.counter = id → ∀ td ∈ s.elements, td.child.started = true) := by
  have hlength : s.points.length = s.elements.length := by simp
  rw [List.getLast?_eq_getElem?] at hlast
  have hpos := (List.getElem?_eq_some_iff.mp hlast).1
  have hrecord := (h.chain.fits _ _ (getElem?_records hlast)).id
  split_ifs at hrecord with hnumbered
  · have hsize : id = s.elements.length := by
      have heq : some id = some (s.elements.length - 1 + 1) := hid.symm.trans hrecord
      have heq' := Option.some.inj heq
      omega
    have hcounter := h.sync.counter
    refine ⟨?_, fun hall td hmem ↦ ?_⟩
    · rw [hsize, hcounter, ← hlength]
      exact List.countP_le_length
    · refine List.countP_eq_length.mp ?_ td.child (List.mem_map_of_mem hmem)
      rw [← State.points, ← hcounter, hall, hsize, hlength]
  · exact absurd (hid.symm.trans hrecord) (Option.some_ne_none id)

/-- Every block has `NULL` at `next`, so the walk comes to an end after the last element. -/
theorem endLink_eq_null (hblocks : ∀ link, blocks link = true → link = .null)
    (hreach : (program blocks).Reachable s) (hmain : s.main ≠ .unresolved) :
    endLink s.records = .null := by
  by_contra hne
  exact hne (hblocks _ (((endsSound_of_reachable hreach).resolve_left hmain).2 hne))

theorem Inv.defined (h : Inv k s) (hlink : endLink s.records = .null) : s.main ≠ .undefined := by
  intro hmain
  have hat := h.chain.at_main
  rw [hmain] at hat
  exact hat.2 hlink

theorem errors_of_ended (hexec : (program blocks).Exec trace s) (hmain : s.main = .ended) :
    s.errors = failures trace s.elements.length := by
  have hrunning : s.main ≠ .unresolved := by simp [hmain]
  obtain ⟨k, hinv⟩ := (sound_of_reachable ⟨trace, hexec⟩).resolve_left hrunning
  have hat := hinv.chain.at_main
  have herrors := hinv.tally.errors
  rw [hmain] at hat herrors
  have hall : s.elements.take k = s.elements := by
    rw [hat.1, State.records, List.length_map, List.take_length]
  rw [failures_eq hexec hrunning, herrors]
  exact congrArg (List.countP Element.failed) hall

theorem Released.exists_ended (h : Released blocks s) (hlink : endLink s.records = .null) :
    ∃ t, (program blocks).Leads s t ∧ t.main = .ended := by
  obtain ⟨t, hleads, ht, hover⟩ := exists_over h
  refine ⟨t, hleads, ?_⟩
  obtain ⟨k, hinv⟩ := inv_of_released ht
  have hreleased := ht.2
  cases hmain : t.main with
  | ended => rfl
  | undefined =>
    have hlink' := ((h.pastWith hleads).resolve_left (by simp [hmain])).2
    exact absurd hmain (hinv.defined (hlink'.trans hlink))
  | unresolved => simp [hmain] at hreleased
  | _ => simp [hmain, MainPoint.over] at hover

/-- A run that has come to its walk is correct if the walk comes to an end. -/
theorem correct_run_iff (hexec : (program blocks).Exec trace s) (hmain : s.main ≠ .unresolved) :
    Correct blocks trace s ↔ (s.main.released = true → endLink s.records = .null) := by
  have hreach : (program blocks).Reachable s := ⟨trace, hexec⟩
  constructor
  · intro hcorrect hreleased
    obtain ⟨t, hleads, hended⟩ := hcorrect.ends hreleased
    have hrunning : t.main ≠ .unresolved := by simp [hended]
    obtain ⟨k, hinv⟩ := (sound_of_reachable (hreach.leads hleads)).resolve_left hrunning
    have hat := hinv.chain.at_main
    rw [hended] at hat
    have hpast := (Released.pastWith ⟨hreach, hreleased⟩ hleads).resolve_left hrunning
    exact hpast.2.symm.trans hat.2
  · intro hlink
    obtain ⟨k, hinv⟩ := (sound_of_reachable hreach).resolve_left hmain
    refine ⟨fun i td hget ↦ hinv.idSet hget, fun last id hlast ↦ hinv.counter hlast,
      fun hreleased ↦ ?_,
      fun hreleased ↦ Released.exists_ended ⟨hreach, hreleased⟩ (hlink hreleased),
      fun hundefined ↦ hinv.defined (hlink (by rw [hundefined]; rfl)) hundefined,
      errors_of_ended hexec⟩
    obtain ⟨t, hleads, ht, hover⟩ := exists_over ⟨hreach, hreleased⟩
    obtain ⟨k', hinv'⟩ := inv_of_released ht
    exact ⟨t, hleads, hinv'.done ht.2 hover⟩

/-- One element, which `main` has filled in. -/
def filled (link : Link) : Element := { newElement link with id := some 1, error := some 0 }

/-- The same when the lock has failed and the child has ended. -/
def refused (link : Link) : Element := { filled link with error := some 1, child := .returned }

def oneChild (counter : ℕ) (td : Element) : State :=
  { start with
    main := .relock
    elements := [td]
    sentinelNext := .element 0
    cur := some 0
    counter := counter }

def oneWalk (link : Link) : State :=
  { start with
    main := .walk
    elements := [refused link]
    sentinelNext := .element 0
    counter := 1
    doIt := false }

/-- `main` has given back the only element. -/
def oneFreed (link : Link) : State :=
  { oneWalk link with
    elements := [{ refused link with freed := true }]
    sentinelNext := link
    errors := 1 }

theorem reachable_oneChild (hlink : blocks link = true) :
    (program blocks).Reachable (oneChild 0 (filled link)) := by
  have hlock : (program blocks).next start (.main 0) =
      some { start with main := .malloc, m := some .main } := rfl
  have hmalloc : (program blocks).next { start with main := .malloc, m := some .main }
      (.malloc (some link)) = some { start with main := .create link, m := some .main } := by
    simp [program, Move.admitted, hlink, next, malloc, MainPoint.over]
  have hfill : (program blocks).runSchedule { start with main := .create link, m := some .main }
      (.replicate 5 (.main 0)) = some (oneChild 0 (filled link)) := rfl
  have hstart : (program blocks).Reachable start := System.reachable_of_initial rfl
  exact ((hstart.step hlock).step hmalloc).runSchedule hfill

theorem reachable_oneFreed (hlink : blocks link = true) :
    (program blocks).Reachable (oneFreed link) := by
  have hchild : (program blocks).runSchedule (oneChild 0 (filled link))
      [.threaded 0 0, .threaded 0 0, .threaded 0 0, .threaded 0 1, .threaded 0 0] =
        some (oneChild 1 (refused link)) := rfl
  have hstop : (program blocks).runSchedule (oneChild 1 (refused link))
      ([.main 0, .main 0, .malloc none] ++ .replicate 3 (.main 0)) = some (oneWalk link) := rfl
  have hwalk : (program blocks).runSchedule (oneWalk link) (.replicate 4 (.main 0)) =
      some (oneFreed link) := rfl
  exact (((reachable_oneChild hlink).runSchedule hchild).runSchedule hstop).runSchedule hwalk

/-- The last link is not `NULL`, and all elements are given back. -/
theorem walk_undefined (hmain : s.main = .walk) (hlink : s.sentinelNext ≠ .null)
    (hfreed : s.elements.all Element.freed = true) :
    main s 0 = some { s with main := .undefined } := by
  simp only [main, hmain]
  cases hnext : s.sentinelNext with
  | null => exact absurd hnext hlink
  | wild => rfl
  | element i =>
    dsimp only
    cases hget : s.elements[i]? with
    | none => rfl
    | some td =>
      have htd := List.all_eq_true.mp hfreed td (List.mem_of_getElem? hget)
      simp [htd]

/-- `main` walks past the last element. -/
theorem exists_undefined (hlink : blocks link = true) (hne : link ≠ .null) :
    ∃ s, (program blocks).Reachable s ∧ s.main = .undefined := by
  have hmain : main (oneFreed link) 0 = some { oneFreed link with main := .undefined } :=
    walk_undefined rfl hne rfl
  have hwalk : (program blocks).next (oneFreed link) (.main 0) =
      some { oneFreed link with main := .undefined } := hmain
  exact ⟨_, (reachable_oneFreed hlink).step hwalk, rfl⟩

/-- A run that has not ended with `UNRESOLVED` is as it should be exactly if, once `main` has
broadcast, the block of the last element has `NULL` where the link to the next one is. So all runs
are exactly if every block that `malloc` returns has `NULL` there. -/
theorem correct_iff (blocks : Link → Bool) :
    (∀ trace s, (program blocks).Exec trace s → s.main ≠ .unresolved →
      (Correct blocks trace s ↔ (s.main.released = true → endLink s.records = .null))) ∧
    ((∀ trace s, (program blocks).Exec trace s → s.main ≠ .unresolved → Correct blocks trace s) ↔
      ∀ link, blocks link = true → link = .null) := by
  refine ⟨fun trace s hexec hmain ↦ correct_run_iff hexec hmain,
    fun hcorrect link hlink ↦ ?_, fun hblocks trace s hexec hmain ↦ ?_⟩
  · by_contra hne
    obtain ⟨s, ⟨trace, hexec⟩, hmain⟩ := exists_undefined hlink hne
    exact (hcorrect trace s hexec (by simp [hmain])).defined hmain
  · exact (correct_run_iff hexec hmain).mpr fun _ ↦ endLink_eq_null hblocks ⟨trace, hexec⟩ hmain

/-- One child and its grandchild come and go without an error, and `main` gives the element back. -/
def noError : List Move :=
  List.flatten [[.main 0, .malloc (some .wild)], .replicate 5 (.main 0),
    .replicate 7 (.threaded 0 0), [.main 0, .main 0, .malloc none], .replicate 3 (.main 0),
    .replicate 4 (.threaded 0 0), [.sub 0 0, .sub 0 0, .threaded 0 0, .threaded 0 0],
    .replicate 4 (.main 0)]

/-- With one child and no failed call, `main` goes on by a link that was never set, while it should
have come to the end of the list. -/
theorem walks_past_end : ∃ s s', (program fun _ ↦ true).Reachable s ∧ s.main = .walk ∧
    s.elements.length = 1 ∧ s.errors = 0 ∧ s.sentinelNext = .wild ∧
      (program fun _ ↦ true).next s (.main 0) = some s' ∧ s'.main = .undefined := by
  obtain ⟨s, hreach, hmain, hlength, herrors, hsentinel, hlast⟩ : ∃ s,
      (program fun _ ↦ true).Reachable s ∧ s.main = .walk ∧ s.elements.length = 1 ∧ s.errors = 0 ∧
        s.sentinelNext = .wild ∧
        ((program fun _ ↦ true).next s (.main 0)).any (fun s' ↦ s'.main = .undefined) = true :=
    System.exists_reachable noError rfl (by decide +kernel)
  obtain ⟨s', hnext, hundefined⟩ := (Option.any_eq_true _ _).mp hlast
  exact ⟨s, s', hreach, hmain, hlength, herrors, hsentinel, hnext, of_decide_eq_true hundefined⟩

end OpenPosix.Mutexes.Scale

import OpenPosix.Signals.HarnessModel

/-!
# Where the one signal is

Each semaphore of the harness carries one token. It is in the semaphore, with the sender about to
send, in the pending signal, or in a handler of one thread (`Place`), and every step moves it at
most to the next of these (`Token`). `Lawful` collects what the harness needs to know about its
receivers, and `inv_of_reachable` says that the tokens and those facts hold in every reachable
state.
-/

namespace OpenPosix.Signals

open Interleaving Function

/-- Where the token of a signal is. -/
inductive Place (Id : Type)
  | sem
  | kill
  | pending
  | handler (id : Id)
  deriving DecidableEq

variable {R : Receivers} {s s' : State R} {sig : UserSig} {id : R.Id} {place : Place R.Id}

/-- The token of a signal is at one place, and at no other. -/
structure Token (s : State R) (sig : UserSig) (place : Place R.Id) : Prop where
  sem : s.sem sig = if place = .sem then 1 else 0
  kill : s.sender sig = .kill ↔ place = .kill
  pending : s.pending sig = true ↔ place = .pending
  handler : ∀ id, (s.handlers id).count sig = if place = .handler id then 1 else 0

/-- What the harness has to know about its receivers: a property of their variables that every step
keeps, and which of the threads that `main` creates do not exist yet. -/
structure Lawful (R : Receivers) where
  Ok : Bool → R.World → Prop
  unborn : R.World → R.Id → Prop
  ok_init : Ok true R.init
  ok_create : ∀ {doIt : Bool} {w : R.World} (id : R.Id), Ok doIt w → Ok doIt (R.create w id)
  ok_step : ∀ {doIt : Bool} {w w' : R.World} {act : R.Act}, Ok doIt w →
    R.step doIt w act = some w' → Ok doIt w'
  ok_stop : ∀ {w : R.World}, Ok true w → Ok false w
  born_create : ∀ {w : R.World} {id other : R.Id}, unborn (R.create w id) other →
    unborn w other ∧ other ≠ id
  born_step : ∀ {doIt : Bool} {w w' : R.World} {act : R.Act} {id : R.Id},
    R.step doIt w act = some w' → unborn w' id → unborn w id
  served_of_doIt : ∀ {w : R.World}, Ok true w → R.served true w = true
  served_of_takes : ∀ {doIt : Bool} {w : R.World} {id : R.Id} {sig : UserSig}, Ok doIt w →
    R.takes w id sig = true → R.served doIt w = true
  /-- Once `do_it` is cleared the signals do not get a new thread to serve them. -/
  served_of_step : ∀ {w w' : R.World} {act : R.Act}, Ok false w →
    R.step false w act = some w' → R.served false w' = true → R.served false w = true
  /-- Served signals are served by a thread that the receivers can get to. -/
  reaches : ∀ {doIt : Bool} {w : R.World}, Ok doIt w → (∀ id ∈ R.threads, ¬ unborn w id) →
    R.served doIt w = true → ∃ w' id,
      Relation.ReflTransGen (fun w w' ↦ ∃ act, R.step doIt w act = some w') w w' ∧
        ∀ sig, R.takes w' id sig = true

/-- The receivers that `main` has left to create. -/
@[simp] def MainPoint.left {Id : Type} : MainPoint Id → List Id
  | .creating left => left
  | _ => []

/-- `main` has the sender of a signal left to create. -/
@[simp] def MainPoint.creates {Id : Type} : MainPoint Id → UserSig → Bool
  | .creating _, _ => true
  | .createSig2, .usr2 => true
  | _, _ => false

def MainPoint.running {Id : Type} : MainPoint Id → Bool
  | .creating _ | .createSig2 | .stop => true
  | _ => false

/-- Assumes: lawful receivers. The invariant of the harness. -/
structure Inv (L : Lawful R) (s : State R) : Prop where
  token : ∀ sig, ∃ place, Token s sig place
  ok : L.Ok s.doIt s.world
  running : s.doIt = s.main.running
  unborn : ∀ sig, s.sender sig = .unborn ↔ s.main.creates sig = true
  born : ∀ id ∈ R.threads, L.unborn s.world id → id ∈ s.main.left

/-- The token does not move when nothing about its signal changes. -/
theorem Token.congr (h : Token s sig place) (hsem : s'.sem sig = s.sem sig)
    (hkill : s'.sender sig = .kill ↔ s.sender sig = .kill)
    (hpending : s'.pending sig = s.pending sig)
    (hhandler : ∀ id, (s'.handlers id).count sig = (s.handlers id).count sig) :
    Token s' sig place := by
  refine ⟨hsem.trans h.sem, hkill.trans h.kill, ?_, fun id ↦ (hhandler id).trans (h.handler id)⟩
  rw [hpending]
  exact h.pending

/-! ### Steps of the senders -/

variable {other : UserSig} {L : Lawful R}

@[simp] theorem goto_sender_self (point : SenderPoint) : (s.goto sig point).sender sig = point :=
  update_self ..

theorem goto_sender_of_ne (point : SenderPoint) (h : other ≠ sig) :
    (s.goto sig point).sender other = s.sender other :=
  update_of_ne h ..

theorem Token.goto (h : Token s sig place) {point : SenderPoint} (hpoint : point ≠ .kill)
    (hsender : s.sender sig ≠ .kill) : Token (s.goto sig point) sig place :=
  h.congr rfl (by simp [hpoint, hsender]) rfl fun _ ↦ rfl

inductive SenderStep (s : State R) (sig : UserSig) : State R → Prop
  | mask (hpoint : s.sender sig = .mask) : SenderStep s sig (s.goto sig .loop)
  | test (hpoint : s.sender sig = .loop) :
    SenderStep s sig (s.goto sig (if s.doIt then .wait else .exited))
  | wait (hpoint : s.sender sig = .wait) {value : ℕ} (hvalue : s.sem sig = value + 1) :
    SenderStep s sig ({ s with sem := Function.update s.sem sig value }.goto sig .kill)
  | kill (hpoint : s.sender sig = .kill) :
    SenderStep s sig ({ s with pending := Function.update s.pending sig true }.goto sig .loop)

theorem senderStep_of_sendsig (hnext : sendsig s sig = some s') : SenderStep s sig s' := by
  unfold sendsig at hnext
  cases hpoint : s.sender sig <;> simp only [hpoint, reduceCtorEq] at hnext
  case mask =>
    exact Option.some.inj hnext ▸ .mask hpoint
  case loop =>
    exact Option.some.inj hnext ▸ .test hpoint
  case wait =>
    simp only [map_semWait_eq_some_iff] at hnext
    obtain ⟨value, hvalue, rfl⟩ := hnext
    exact .wait hpoint hvalue
  case kill =>
    exact Option.some.inj hnext ▸ .kill hpoint

/-- The token of the signal whose sender takes a step. -/
theorem Token.sendsig (h : Token s sig place) (hstep : SenderStep s sig s') :
    ∃ place', Token s' sig place' := by
  cases hstep with
  | mask hpoint => exact ⟨place, h.goto (by simp) (by simp [hpoint])⟩
  | test hpoint => exact ⟨place, h.goto (by split <;> simp) (by simp [hpoint])⟩
  | @wait hpoint value hvalue =>
    -- The sender takes the token out of the semaphore.
    have hsem := h.sem
    obtain rfl : place = .sem := by
      by_contra hne
      rw [if_neg hne] at hsem
      omega
    rw [if_pos rfl] at hsem
    obtain rfl : value = 0 := by omega
    exact ⟨.kill, by simp [State.goto], by simp, by simpa [State.goto] using h.pending,
      by simpa [State.goto] using h.handler⟩
  | kill hpoint =>
    obtain rfl := h.kill.mp hpoint
    exact ⟨.pending, by simpa [State.goto] using h.sem, by simp, by simp [State.goto],
      by simpa [State.goto] using h.handler⟩

/-- A step of a sender leaves the other signal alone. -/
theorem Token.sendsig_of_ne (h : Token s other place) (hstep : SenderStep s sig s')
    (hne : other ≠ sig) : Token s' other place := by
  cases hstep with
  | mask | test => exact h.congr rfl (by rw [goto_sender_of_ne _ hne]) rfl fun _ ↦ rfl
  | wait =>
    exact h.congr (update_of_ne hne ..) (by rw [goto_sender_of_ne _ hne]) rfl fun _ ↦ rfl
  | kill =>
    exact h.congr rfl (by rw [goto_sender_of_ne _ hne]) (update_of_ne hne ..) fun _ ↦ rfl

/-- A sender exists before and after its steps. -/
theorem SenderStep.born (hstep : SenderStep s sig s') (other : UserSig) :
    s'.sender other = .unborn ↔ s.sender other = .unborn := by
  by_cases hne : other = sig
  · subst hne
    cases hstep with
    | test hpoint => simp only [goto_sender_self, hpoint]; split <;> simp
    | mask hpoint | wait hpoint | kill hpoint => simp [hpoint]
  · cases hstep <;> rw [goto_sender_of_ne _ hne]

theorem Inv.sendsig (h : Inv L s) (hnext : sendsig s sig = some s') : Inv L s' := by
  have hstep := senderStep_of_sendsig hnext
  have htoken : ∀ other, ∃ place, Token s' other place := fun other ↦ by
    obtain ⟨place, hplace⟩ := h.token other
    by_cases hne : other = sig
    · subst hne
      exact hplace.sendsig hstep
    · exact ⟨place, hplace.sendsig_of_ne hstep hne⟩
  have hunborn := fun other ↦ (hstep.born other).trans (h.unborn other)
  cases hstep <;> exact ⟨htoken, h.ok, h.running, hunborn, h.born⟩

/-! ### Signals and handlers -/

theorem deliver_eq_some_iff : deliver s id sig = some s' ↔
    s.pending sig = true ∧ R.takes s.world id sig = true ∧ sig ∉ s.handlers id ∧
      { s with
        pending := update s.pending sig false
        handlers := update s.handlers id (sig :: s.handlers id) } = s' := by
  simp [deliver, and_assoc]

theorem Token.deliver (h : Token s sig place) (hnext : deliver s id sig = some s') :
    Token s' sig (.handler id) := by
  obtain ⟨hpending, -, -, rfl⟩ := deliver_eq_some_iff.mp hnext
  obtain rfl := h.pending.mp hpending
  refine ⟨by simpa using h.sem, by simpa using h.kill, by simp, fun other ↦ ?_⟩
  have hcount : ∀ other, (s.handlers other).count sig = 0 := by simpa using h.handler
  by_cases hne : other = id
  · subst hne
    simp [hcount]
  · simp [hne, hcount, Ne.symm hne]

theorem Token.deliver_of_ne (h : Token s other place) (hnext : Signals.deliver s id sig = some s')
    (hne : other ≠ sig) : Token s' other place := by
  obtain ⟨-, -, -, rfl⟩ := deliver_eq_some_iff.mp hnext
  refine h.congr rfl Iff.rfl (update_of_ne hne ..) fun thread ↦ ?_
  by_cases hthread : thread = id
  · subst hthread
    simp [Ne.symm hne]
  · simp [hthread]

theorem Inv.deliver (h : Inv L s) (hnext : deliver s id sig = some s') : Inv L s' := by
  have htoken : ∀ other, ∃ place, Token s' other place := fun other ↦ by
    obtain ⟨place, hplace⟩ := h.token other
    by_cases hne : other = sig
    · subst hne
      exact ⟨_, hplace.deliver hnext⟩
    · exact ⟨place, hplace.deliver_of_ne hnext hne⟩
  obtain ⟨-, -, -, rfl⟩ := deliver_eq_some_iff.mp hnext
  exact ⟨htoken, h.ok, h.running, h.unborn, h.born⟩

theorem sighdl_eq_some_iff : sighdl s id = some s' ↔ ∃ sig rest, s.handlers id = sig :: rest ∧
    { s with
      sem := update s.sem sig (s.sem sig + 1)
      handlers := update s.handlers id rest } = s' := by
  unfold sighdl
  cases s.handlers id with
  | nil => simp
  | cons sig rest => simp

theorem Token.sighdl {rest : List UserSig} (h : Token s sig place)
    (hid : s.handlers id = sig :: rest) :
    Token { s with
      sem := update s.sem sig (s.sem sig + 1)
      handlers := update s.handlers id rest } sig .sem := by
  -- The handler that runs is the one that has the token.
  have hhandler := h.handler id
  rw [hid, List.count_cons_self] at hhandler
  obtain rfl : place = .handler id := by
    by_contra hne
    rw [if_neg hne] at hhandler
    omega
  refine ⟨by simpa using h.sem, by simpa using h.kill, by simpa using h.pending, fun other ↦ ?_⟩
  by_cases hne : other = id
  · subst hne
    simpa using hhandler
  · simpa [hne, Ne.symm hne] using h.handler other

theorem Token.sighdl_of_ne {rest : List UserSig} (h : Token s other place)
    (hid : s.handlers id = sig :: rest) (hne : other ≠ sig) : Token { s with
      sem := update s.sem sig (s.sem sig + 1)
      handlers := update s.handlers id rest } other place := by
  refine h.congr (update_of_ne hne ..) Iff.rfl rfl fun thread ↦ ?_
  by_cases hthread : thread = id
  · subst hthread
    simp [hid, Ne.symm hne]
  · simp [hthread]

theorem Inv.sighdl (h : Inv L s) (hnext : sighdl s id = some s') : Inv L s' := by
  obtain ⟨sig, rest, hid, rfl⟩ := sighdl_eq_some_iff.mp hnext
  refine ⟨fun other ↦ ?_, h.ok, h.running, h.unborn, h.born⟩
  obtain ⟨place, hplace⟩ := h.token other
  by_cases hne : other = sig
  · subst hne
    exact ⟨_, hplace.sighdl hid⟩
  · exact ⟨place, hplace.sighdl_of_ne hid hne⟩

/-! ### Steps of the receivers and of `main` -/

theorem receiver_eq_some_iff {act : R.Act} : receiver s act = some s' ↔
    s.handlers (R.owner act) = [] ∧
      ∃ world, R.step s.doIt s.world act = some world ∧ { s with world := world } = s' := by
  simp [receiver]

theorem Inv.receiver {act : R.Act} (h : Inv L s) (hnext : receiver s act = some s') : Inv L s' := by
  obtain ⟨-, world, hstep, rfl⟩ := receiver_eq_some_iff.mp hnext
  refine ⟨fun sig ↦ ?_, L.ok_step h.ok hstep, h.running, h.unborn,
    fun id hid hunborn ↦ h.born id hid (L.born_step hstep hunborn)⟩
  obtain ⟨place, hplace⟩ := h.token sig
  exact ⟨place, hplace.congr rfl Iff.rfl rfl fun _ ↦ rfl⟩

/-- A state in which only `main`, `do_it` and the receivers are elsewhere has the same tokens. -/
theorem Inv.token_congr (h : Inv L s) (hsem : s'.sem = s.sem) (hpending : s'.pending = s.pending)
    (hhandlers : s'.handlers = s.handlers)
    (hkill : ∀ sig, s'.sender sig = .kill ↔ s.sender sig = .kill) (sig : UserSig) :
    ∃ place, Token s' sig place := by
  obtain ⟨place, hplace⟩ := h.token sig
  refine ⟨place, hplace.congr (by rw [hsem]) (hkill sig) (by rw [hpending]) fun id ↦ ?_⟩
  rw [hhandlers]

theorem Inv.createSender {point : MainPoint R.Id} (h : Inv L s) (hunborn : s.sender sig = .unborn)
    (hrunning : point.running = s.main.running)
    (hcreates : ∀ other, point.creates other = true ↔ s.main.creates other = true ∧ other ≠ sig)
    (hleft : point.left = s.main.left) : Inv L { s.goto sig .mask with main := point } := by
  refine ⟨h.token_congr rfl rfl rfl fun other ↦ ?_, h.ok, h.running.trans hrunning.symm,
    fun other ↦ ?_, fun id hid hid' ↦ hleft ▸ h.born id hid hid'⟩
  · by_cases hne : other = sig
    · simp [hne, hunborn]
    · simp [goto_sender_of_ne _ hne]
  · rw [hcreates other, ← h.unborn other]
    by_cases hne : other = sig
    · simp [hne]
    · simp [goto_sender_of_ne _ hne, hne]

theorem Inv.join {point : MainPoint R.Id} (h : Inv L s) (hrunning : point.running = s.main.running)
    (hcreates : point.creates = s.main.creates) (hleft : point.left = s.main.left) :
    Inv L { s with main := point } :=
  ⟨h.token_congr rfl rfl rfl fun _ ↦ Iff.rfl, h.ok, h.running.trans hrunning.symm,
    fun sig ↦ hcreates ▸ h.unborn sig, fun id hid hunborn ↦ hleft ▸ h.born id hid hunborn⟩

inductive MainStep (s : State R) : State R → Prop
  | create {id : R.Id} {left : List R.Id} (hmain : s.main = .creating (id :: left)) :
    MainStep s { s with world := R.create s.world id, main := .creating left }
  | createSig1 (hmain : s.main = .creating []) :
    MainStep s { s.goto .usr1 .mask with main := .createSig2 }
  | createSig2 (hmain : s.main = .createSig2) :
    MainStep s { s.goto .usr2 .mask with main := .stop }
  | stop (hmain : s.main = .stop) : MainStep s { s with doIt := false, main := .joinSig1 }
  | join {point : MainPoint R.Id} (hrunning : point.running = s.main.running)
      (hcreates : point.creates = s.main.creates) (hleft : point.left = s.main.left) :
    MainStep s { s with main := point }

theorem mainStep_of_main (hnext : main s = some s') : MainStep s s' := by
  unfold main at hnext
  split at hnext
  case h_1 hmain => exact Option.some.inj hnext ▸ .create hmain
  case h_2 hmain => exact Option.some.inj hnext ▸ .createSig1 hmain
  case h_3 hmain => exact Option.some.inj hnext ▸ .createSig2 hmain
  case h_4 hmain => exact Option.some.inj hnext ▸ .stop hmain
  case h_8 => simp at hnext
  -- The calls of `pthread_join` that are left.
  all_goals
    rename_i hmain
    split_ifs at hnext
    cases hnext
    exact .join (by rw [hmain]; rfl) (by rw [hmain]; rfl) (by rw [hmain]; rfl)

theorem Inv.main (h : Inv L s) (hstep : MainStep s s') : Inv L s' := by
  cases hstep with
  | @create id left hmain =>
    refine ⟨h.token_congr rfl rfl rfl fun _ ↦ Iff.rfl, L.ok_create id h.ok,
      by simpa [hmain, MainPoint.running] using h.running,
      by simpa [hmain] using h.unborn, fun other hother hunborn ↦ ?_⟩
    obtain ⟨hbefore, hne⟩ := L.born_create hunborn
    simpa [hmain, hne] using h.born other hother hbefore
  | createSig1 hmain | createSig2 hmain =>
    refine h.createSender ((h.unborn _).mpr (by rw [hmain]; rfl)) (by rw [hmain]; rfl)
      (fun other ↦ ?_) (by rw [hmain]; rfl)
    cases other <;> simp [hmain]
  | stop hmain =>
    have hrunning : s.doIt = true := by rw [h.running, hmain]; rfl
    exact ⟨h.token_congr rfl rfl rfl fun _ ↦ Iff.rfl, L.ok_stop (hrunning ▸ h.ok), rfl,
      by simpa [hmain] using h.unborn,
      by simpa [hmain] using h.born⟩
  | join hrunning hcreates hleft => exact h.join hrunning hcreates hleft

theorem inv_start (L : Lawful R) : Inv L (start R) where
  token := fun sig ↦ ⟨.sem, by simp [start], by simp [start], by simp [start], by simp [start]⟩
  ok := L.ok_init
  running := rfl
  unborn := fun sig ↦ by simp [start]
  born := fun _ hid _ ↦ hid

/-- Assumes: lawful receivers, and a reachable state. The invariant holds. -/
theorem inv_of_reachable (L : Lawful R) (h : (program R).Reachable s) : Inv L s := by
  refine h.invariant (fun s hs ↦ hs ▸ inv_start L) fun s thread s' _ hinv hnext ↦ ?_
  cases thread with
  | main => exact hinv.main (mainStep_of_main hnext)
  | sendsig sig => exact hinv.sendsig hnext
  | deliver id sig => exact hinv.deliver hnext
  | sighdl id => exact hinv.sighdl hnext
  | receiver act => exact hinv.receiver hnext

end OpenPosix.Signals

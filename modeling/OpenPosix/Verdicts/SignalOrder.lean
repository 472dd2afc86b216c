import Mathlib.Data.Int.Order.Basic
import Mathlib.Data.List.Perm.Basic
import OpenPosix.Verdicts.ChildVerdicts

/-!
# The order in which queued signals are delivered

`conformance/interfaces/sigqueue/7-1.c`. The test blocks the signals from `SIGRTMIN` to `SIGRTMAX`,
queues each of them once, unblocks them together, and looks in its handler whether a signal arrives
after a larger one. The handler compares the signal with `last_signal`, which should be the signal
that was delivered before; no line of the test ever assigns it, so it stays zero.

A delivery is possible for a pending signal that is not blocked. The set `sa_mask` of the handler
has all the signals, so a run of the handler is never interrupted by another one and a delivery is
one step. `main_of_perm` says that the test passes whatever the order is, and `orderVerdict_iff`
that it reports what it should only when the order is right.
-/

namespace OpenPosix.Verdicts.SignalOrder

/-- The signal mask and the pending signals of the process, and the variables of the test. -/
structure Process where
  blocked : List ℤ
  pending : List ℤ
  lastSignal : ℤ
  testFailed : ℤ
  deriving DecidableEq, Repr

def myhandler (signo : ℤ) (p : Process) : Process :=
  if p.lastSignal ≥ signo then { p with testFailed := 1 } else p

/-- The values of `rtsig` in the loops of `main`, which count down from `SIGRTMAX`. -/
def rtsigs (sigrtmin sigrtmax : ℤ) : List ℤ :=
  (List.range (sigrtmax + 1 - sigrtmin).toNat).map fun k : ℕ ↦ sigrtmax - (k : ℤ)

def sighold (p : Process) (rtsig : ℤ) : Process := { p with blocked := rtsig :: p.blocked }

/-- One round of the second loop; it has no result if `sigqueue` fails. -/
def queue (sigqueue : ℤ → Bool) (p : Process) (rtsig : ℤ) : Option Process :=
  if sigqueue rtsig then some { p with pending := p.pending ++ [rtsig] } else none

/-- The effect of `sigprocmask(SIG_UNBLOCK, &mask, NULL)` on the signal mask. -/
def unblock (mask : List ℤ) (p : Process) : Process :=
  { p with blocked := p.blocked.filter fun sig ↦ sig ∉ mask }

/-- The delivery of a signal: it is pending and not blocked, and the handler runs. -/
def deliver (p : Process) (signo : ℤ) : Option Process :=
  if signo ∈ p.pending ∧ signo ∉ p.blocked then
    some (myhandler signo { p with pending := p.pending.erase signo })
  else
    none

def start : Process where
  blocked := []
  pending := []
  lastSignal := 0
  testFailed := 0

/-- The code that `main` returns when the signals are delivered in the given order, if they can be
and no signal is left pending. -/
def main (sigrtmin sigrtmax : ℤ) (sigqueue : ℤ → Bool) (delivered : List ℤ) : Option ℕ :=
  let mask := rtsigs sigrtmin sigrtmax
  match mask.foldlM (queue sigqueue) (mask.foldl sighold start) with
  | none => some ptsUnresolved
  | some p =>
    match delivered.foldlM deliver (unblock mask p) with
    | none => none
    | some p =>
      if p.pending = [] then some (if p.testFailed = 1 then ptsFail else ptsPass) else none

/-- What the test should report: whether each signal was delivered after all the smaller ones. -/
def expected (delivered : List ℤ) : ℕ :=
  if delivered.Pairwise (· < ·) then ptsPass else ptsFail

/-! ### The two loops -/

theorem mem_rtsigs {sigrtmin sigrtmax sig : ℤ} :
    sig ∈ rtsigs sigrtmin sigrtmax ↔ sigrtmin ≤ sig ∧ sig ≤ sigrtmax := by
  simp only [rtsigs, List.mem_map, List.mem_range]
  constructor
  · rintro ⟨k, hk, rfl⟩
    omega
  · rintro ⟨hmin, hmax⟩
    exact ⟨(sigrtmax - sig).toNat, by omega, by omega⟩

theorem foldl_sighold (mask : List ℤ) (p : Process) :
    mask.foldl sighold p = { p with blocked := mask.reverse ++ p.blocked } := by
  induction mask generalizing p with
  | nil => rfl
  | cons rtsig rest ih =>
    rw [List.foldl_cons, ih]
    simp [sighold]

/-- Assumes: every call of `sigqueue` succeeds. All the signals are pending after the loop. -/
theorem foldlM_queue {sigqueue : ℤ → Bool} {mask : List ℤ}
    (h : ∀ rtsig ∈ mask, sigqueue rtsig = true) (p : Process) :
    mask.foldlM (queue sigqueue) p = some { p with pending := p.pending ++ mask } := by
  induction mask generalizing p with
  | nil => simp
  | cons rtsig rest ih =>
    have hfirst : queue sigqueue p rtsig = some { p with pending := p.pending ++ [rtsig] } :=
      if_pos (h rtsig List.mem_cons_self)
    have hrest := ih fun other hother ↦ h other (List.mem_cons_of_mem rtsig hother)
    rw [List.foldlM_cons, hfirst]
    refine (hrest _).trans ?_
    simp

/-- The unblocked process: every signal of the range is pending and none is blocked. -/
def unblocked (mask : List ℤ) : Process where
  blocked := []
  pending := mask
  lastSignal := 0
  testFailed := 0

theorem unblock_start (mask : List ℤ) :
    unblock mask { mask.foldl sighold start with pending := start.pending ++ mask } =
      unblocked mask := by
  rw [foldl_sighold]
  simp [unblock, start, unblocked]

/-! ### The deliveries -/

/-- Assumes: nothing is blocked, `last_signal` is below every signal, and the signals delivered are
the pending ones, each once. All of them can be delivered in this order, and the handler does not
find anything wrong with it. -/
theorem foldlM_deliver {delivered : List ℤ} :
    ∀ {p : Process}, p.blocked = [] → (∀ signo ∈ delivered, p.lastSignal < signo) →
      delivered.Perm p.pending → delivered.foldlM deliver p = some { p with pending := [] } := by
  induction delivered with
  | nil =>
    intro p _ _ hperm
    have hpending : p.pending = [] := hperm.symm.eq_nil
    rw [List.foldlM_nil, ← hpending]
    rfl
  | cons signo rest ih =>
    intro p hblocked hlast hperm
    have hmem : signo ∈ p.pending := hperm.subset List.mem_cons_self
    have hquiet : ¬ p.lastSignal ≥ signo := not_le.mpr (hlast signo List.mem_cons_self)
    have hfirst : deliver p signo = some { p with pending := p.pending.erase signo } := by
      rw [deliver, if_pos ⟨hmem, by simp [hblocked]⟩, myhandler, if_neg hquiet]
    have hrest : rest.Perm (p.pending.erase signo) := by
      have herase := hperm.erase signo
      rwa [List.erase_cons_head] at herase
    rw [List.foldlM_cons, hfirst]
    exact ih hblocked (fun other hother ↦ hlast other (List.mem_cons_of_mem signo hother)) hrest

/-- Assumes: positive signal numbers, every call of `sigqueue` succeeds, and each queued signal is
delivered once. The test passes, whatever the order. -/
theorem main_of_perm {sigrtmin sigrtmax : ℤ} {sigqueue : ℤ → Bool} {delivered : List ℤ}
    (hpos : 0 < sigrtmin) (hqueue : ∀ rtsig ∈ rtsigs sigrtmin sigrtmax, sigqueue rtsig = true)
    (hperm : delivered.Perm (rtsigs sigrtmin sigrtmax)) :
    main sigrtmin sigrtmax sigqueue delivered = some ptsPass := by
  have hlast : ∀ signo ∈ delivered, (unblocked (rtsigs sigrtmin sigrtmax)).lastSignal < signo := by
    intro signo hsigno
    exact lt_of_lt_of_le hpos (mem_rtsigs.mp (hperm.subset hsigno)).1
  have hpending : (mask : List ℤ) → (mask.foldl sighold start).pending = start.pending :=
    fun mask ↦ by rw [foldl_sighold]
  simp only [main, foldlM_queue hqueue, hpending, unblock_start]
  rw [foldlM_deliver rfl hlast hperm]
  rfl

/-! ### The verdict -/

/-- Assumes: positive signal numbers, every call of `sigqueue` succeeds, and each queued signal is
delivered once. The test fails on an order that is not strictly increasing and passes on one that
is, if and only if the order is strictly increasing. -/
theorem orderVerdict_iff (sigrtmin sigrtmax : ℤ) (sigqueue : ℤ → Bool) (delivered : List ℤ)
    (hpos : 0 < sigrtmin) (hqueue : ∀ rtsig ∈ rtsigs sigrtmin sigrtmax, sigqueue rtsig = true)
    (hperm : delivered.Perm (rtsigs sigrtmin sigrtmax)) :
    main sigrtmin sigrtmax sigqueue delivered = some (expected delivered) ↔
      delivered.Pairwise (· < ·) := by
  rw [main_of_perm hpos hqueue hperm, Option.some_inj, expected]
  by_cases horder : delivered.Pairwise (· < ·)
  · rw [if_pos horder]
    exact iff_of_true rfl horder
  · rw [if_neg horder]
    exact iff_of_false ptsPass_ne_ptsFail horder

/-- Three signals in increasing order. -/
theorem orderVerdict_increasing :
    main 34 36 (fun _ ↦ true) [34, 35, 36] = some (expected [34, 35, 36]) := by
  refine (orderVerdict_iff 34 36 _ [34, 35, 36] (by decide) (fun _ _ ↦ rfl) ?_).mpr (by decide)
  decide

/-- The largest signal is delivered first, and the test passes. -/
theorem passes_unordered :
    [36, 34, 35].Perm (rtsigs 34 36) ∧ ¬ [36, 34, (35 : ℤ)].Pairwise (· < ·) ∧
      main 34 36 (fun _ ↦ true) [36, 34, 35] = some ptsPass ∧ expected [36, 34, 35] = ptsFail := by
  decide

end OpenPosix.Verdicts.SignalOrder

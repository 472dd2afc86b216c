import OpenPosix.Memory.Chain
import OpenPosix.Threads.Measures

/-!
# The scalability tests of `sem_open` and `sem_init`

`stress/threads/sem_open/s-c1.c` opens semaphores in blocks of `BLOCKSIZE` until a call fails, and
then closes them block by block, from the last to the first. The time for each block goes to a list
of measures. `stress/threads/sem_init/s-c1.c` is the same program with `sem_init` and `sem_destroy`;
it has no names to unlink, and stops at `NSEM_LIMIT`.

Both lists are linked in both directions, and start with a variable of `main`: `sems` and
`sentinel`. A pointer is the number of the iteration, counted from 1, that allocated the object; 0
is the variable, and `none` is `NULL`. An access through `NULL`, or to a block that was given back,
and the use of an entry of `sems[]` that was not set, have no outcome (`fault`, or `none`).

Semaphores have the numbers that their names are made of. The states keep what has been opened,
closed, unlinked and given back. The calls that end the program with `UNRESOLVED` succeed, and
`nsem` is an unbounded number.
-/

namespace OpenPosix.Semaphores.OpenClose

open Memory Threads.Measures

/-- The type `test_t`, with the entries of `sems[]` that are set. -/
structure Block where
  sems : List ℕ
  next : Pointer
  prev : Pointer
  deriving DecidableEq, Repr

structure Mes where
  nsem : ℕ
  dataOpen : ℤ
  dataClose : ℤ
  next : Pointer
  prev : Pointer
  deriving DecidableEq, Repr

/-- The error of a call that opens a semaphore. -/
inductive Errno
  | emfile
  | enfile
  | enospc
  | enomem
  | other
  deriving DecidableEq, Repr

/-- What a run depends on: `BLOCKSIZE`, `SEM_MAX`, `NSEM_LIMIT` for the program that has it, the
outcome of each allocation and of each call that opens a semaphore, and the clock before and after
the blocks are filled and emptied. -/
structure Config where
  blockSize : ℕ
  semMax : ℤ
  limit : Option ℕ
  mallocBlock : ℕ → Bool
  semOpen : ℕ → Option Errno
  mallocMes : ℕ → Bool
  opening : ℕ → Reading
  closing : ℕ → Reading

/-- The variables of `main`, the objects that are allocated, and the record of the calls. -/
structure State where
  nsem : ℕ
  blocks : ℕ → Option Block
  semsCur : Pointer
  mes : ℕ → Option Mes
  mCur : Pointer
  allocated : ℕ
  opened : List ℕ
  closed : List ℕ
  unlinked : List ℕ
  freed : List ℕ

/-- How the opening loop ends: `status` is 1, 2 or 3, or it is 0 at `NSEM_LIMIT`. -/
inductive Status
  | limit
  | block
  | semaphore
  | measure
  deriving DecidableEq, Repr

/-- What an iteration of the opening loop comes to. -/
inductive Outcome
  | goesOn (s : State)
  | breaks (status : Status) (s : State)
  | failed (opened : List ℕ)
  | unresolved
  | fault

/-- What the loop that fills a block comes to, with the entries of `sems[]`. -/
inductive Filling
  | full (sems : List ℕ)
  | stopped (sems : List ℕ)
  | failed (sems : List ℕ)
  | unresolved
  deriving DecidableEq, Repr

/-- The loop that fills a block, from the entry with the given number of entries left. -/
def fill (c : Config) : ℕ → List ℕ → ℕ → Filling
  | 0, sems, _ => .full sems
  | left + 1, sems, nsem =>
    match c.semOpen nsem with
    | some .other => .unresolved
    | some _ => .stopped sems
    | none =>
      if 0 < c.semMax ∧ c.semMax < nsem then .failed (sems ++ [nsem])
      else fill c left (sems ++ [nsem]) (nsem + 1)

/-- A full block is put at the end of its list. -/
def link (s : State) (block : ℕ) (sems : List ℕ) : Option State := do
  let cur ← s.semsCur
  let last ← s.blocks cur
  let blocks := Function.update s.blocks block (some ⟨sems, none, some cur⟩)
  some { s with
    blocks := Function.update blocks cur (some { last with next := some block })
    semsCur := some block
    nsem := s.nsem + sems.length
    opened := s.opened ++ sems }

/-- The time for the block is put at the end of the list of measures. -/
def addMes (c : Config) (s : State) (block : ℕ) : Option State := do
  let cur ← s.mCur
  let last ← s.mes cur
  let mes := Function.update s.mes block
    (some ⟨s.nsem, (c.opening block).micros, 0, none, some cur⟩)
  some { s with
    mes := Function.update mes cur (some { last with next := some block })
    mCur := some block }

/-- One iteration of the opening loop. A block that cannot be filled is emptied from its last entry
on, and given back. -/
def openBlock (c : Config) (s : State) : Outcome :=
  let block := s.allocated + 1
  if c.mallocBlock block then
    let s := { s with allocated := block }
    match fill c c.blockSize [] s.nsem with
    | .unresolved => .unresolved
    | .failed sems => .failed (s.opened ++ sems)
    | .stopped sems => .breaks .semaphore { s with
        nsem := s.nsem + sems.length
        opened := s.opened ++ sems
        closed := s.closed ++ sems.reverse
        freed := s.freed ++ [block] }
    | .full sems =>
      match link s block sems with
      | none => .fault
      | some s =>
        if c.mallocMes block then
          match addMes c s block with
          | none => .fault
          | some s => if c.limit.any (· ≤ s.nsem) then .breaks .limit s else .goesOn s
        else
          .breaks .measure s
  else
    .breaks .block s

/-- The next iteration of the opening loop, unless it has ended. -/
def advance (c : Config) : Outcome → Outcome
  | .goesOn s => openBlock c s
  | outcome => outcome

def empty (block : Block) : ℕ → Option (List ℕ)
  | 0 => some []
  | i + 1 => do
    let sems ← empty block i
    let sem ← block.sems[i]?
    some (sems ++ [sem])

/-- The loop over the blocks, from the last one to `&sems`. An iteration empties the block that
`sems_cur` points to, and stores the time with the measure that `m_cur` points to. -/
def closeLoop (c : Config) : ℕ → State → Option State
  | 0, s => if s.semsCur = some 0 then some s else none
  | count + 1, s =>
    if s.semsCur = some 0 then some s
    else do
      let block ← s.semsCur
      let cur ← s.blocks block
      let sems ← empty cur c.blockSize
      let element ← s.mCur
      let mes ← s.mes element
      let before ← cur.prev
      let last ← s.blocks before
      let next ← last.next
      -- Only a block that is allocated can be given back.
      let _ ← s.blocks next
      closeLoop c count { s with
        closed := s.closed ++ sems
        mes := Function.update s.mes element
          (some { mes with dataClose := (c.closing block).micros })
        mCur := mes.prev
        semsCur := some before
        freed := s.freed ++ [next]
        blocks := Function.update (Function.update s.blocks next none) before
          (some { last with next := none }) }

/-- The names that the program unlinks: those up to the one after the last semaphore. -/
def unlink (s : State) : State := { s with unlinked := List.range (s.nsem + 1) }

/-- What `sem_open/s-c1.c` does from the end of the opening loop to `parse_measure`. It does not
return to a block that it has given back, so there are at most as many iterations as blocks. -/
def semOpenEnd (c : Config) (s : State) : Option State := closeLoop c s.allocated (unlink s)

/-- The same for `sem_init/s-c1.c`. -/
def semInitEnd (c : Config) (s : State) : Option State := closeLoop c s.allocated s

/-- Before the opening loop. The other fields of `sems` and of `sentinel` are not set. -/
def start : State where
  nsem := 0
  blocks := fun k ↦ if k = 0 then some ⟨[], none, none⟩ else none
  semsCur := some 0
  mes := fun k ↦ if k = 0 then some ⟨0, 0, 0, none, none⟩ else none
  mCur := some 0
  allocated := 0
  opened := []
  closed := []
  unlinked := []
  freed := []

/-- The opening loop, for a number of iterations. -/
def openLoop (c : Config) (count : ℕ) : Outcome := (advance c)^[count] (.goesOn start)

end OpenPosix.Semaphores.OpenClose

import KOs.Common.Fault
import KOs.Data.Word
import Mathlib.Data.List.Basic

namespace KOs.Fs

open KOs.Common KOs.Data

/-! The table of open files of `fs/fd.c`, and the descriptors of a task from
`sched/sched.c` with the system calls on them.

Files are numbered by their addresses.  Whether one is allocated, how often it has
been, and the calls of `ops->close` are on record.
-/

structure Gfdt where
  refs : Nat → Nat
  gfdtEntriesInUse : Nat
  allocated : Nat → Bool
  obtained : Nat → Nat
  closed : List Nat

/-- `gfdt_obtain`, with the address that `cache_alloc` returned. -/
def gfdtObtain (g : Gfdt) (f : Nat) : Gfdt where
  gfdtEntriesInUse := wadd g.gfdtEntriesInUse 1
  allocated e := if e = f then true else g.allocated e
  obtained e := if e = f then g.obtained e + 1 else g.obtained e
  refs e := if e = f then 0 else g.refs e
  closed := g.closed

def Gfdt.setRefs (g : Gfdt) (f value : Nat) : Gfdt :=
  { g with refs := fun e => if e = f then value else g.refs e }

def gfdtGet (g : Gfdt) (f : Nat) : Gfdt := g.setRefs f (wadd (g.refs f) 1)

def gfdtFree (g : Gfdt) (f : Nat) : Gfdt :=
  { g with
    closed := g.closed ++ [f]
    allocated := fun e => if e = f then false else g.allocated e
    gfdtEntriesInUse := wsub g.gfdtEntriesInUse 1 }

def gfdtPut (g : Gfdt) (f : Nat) : Gfdt :=
  let g := if g.refs f ≠ 0 then g.setRefs f (wsub (g.refs f) 1) else g
  if g.refs f = 0 then gfdtFree g f else g

structure Ufd where
  flags : Nat
  gfd : Option Nat
deriving DecidableEq, Repr

def ufdInvalid : Nat := wordSize - 1

/-- A page of descriptors of 8 bytes. -/
def maxNumFds : Nat := min (4096 / 8) ufdInvalid

structure Descriptors where
  gfdt : Gfdt
  table : List Ufd

def ebadf : Int := 9

def ufdtIsPresent (s : Descriptors) (ufd : Nat) : Bool :=
  decide (ufd < maxNumFds) && ((s.table[ufd]?).bind Ufd.gfd).isSome

def ufdtFindNext (s : Descriptors) : Nat :=
  ((List.range maxNumFds).find? (fun idx => !ufdtIsPresent s idx)).getD ufdInvalid

def Descriptors.setSlot (s : Descriptors) (idx : Nat) (ufd : Ufd) : Except Fault Descriptors :=
  if idx < s.table.length then .ok { s with table := s.table.set idx ufd }
  else .error (.outOfBounds "table" idx)

def ufdtInstall (s : Descriptors) (idx gfd : Nat) : Except Fault Descriptors :=
  { s with gfdt := gfdtGet s.gfdt gfd }.setSlot idx { flags := 0, gfd := some gfd }

def ufdtAdd (s : Descriptors) (gfd : Nat) : Except Fault (Descriptors × Nat) :=
  let added := ufdtFindNext s
  if added ≠ ufdInvalid then do
    let s ← ufdtInstall s added gfd
    return (s, added)
  else .ok (s, added)

/-- `__ufdt_close`, on a slot that holds a file. -/
def ufdtCloseSlot (s : Descriptors) (ufd : Nat) : Except Fault Descriptors :=
  match (s.table[ufd]?).bind Ufd.gfd with
  | some gfd => { s with gfdt := gfdtPut s.gfdt gfd }.setSlot ufd { flags := 0, gfd := none }
  | none => .error (.outOfBounds "table" ufd)

def ufdtClose (s : Descriptors) (ufd : Nat) : Except Fault (Descriptors × Int) :=
  if !ufdtIsPresent s ufd then .ok (s, -ebadf)
  else do
    let s ← ufdtCloseSlot s ufd
    return (s, 0)

def ufdtReplace (s : Descriptors) (ufd fd : Nat) : Except Fault Descriptors := do
  let s ← if ufdtIsPresent s ufd then ufdtCloseSlot s ufd else .ok s
  ufdtInstall s ufd fd

def ufdtGet (s : Descriptors) (ufd : Nat) : Option Nat :=
  if ufdtIsPresent s ufd then (s.table[ufd]?).bind Ufd.gfd else none

def sysDup (s : Descriptors) (ufd : Nat) : Except Fault (Descriptors × Int) :=
  match ufdtGet s ufd with
  | none => .ok (s, -ebadf)
  | some fd => do
      let (s, added) ← ufdtAdd s fd
      return (s, signed added)

def sysDup2 (s : Descriptors) (ufd ufd2 : Nat) : Except Fault (Descriptors × Int) :=
  match ufdtGet s ufd with
  | none => .ok (s, -ebadf)
  | some fd => do
      let s ← if ufd ≠ ufd2 then ufdtReplace s ufd2 fd else .ok s
      return (s, signed ufd2)

end KOs.Fs

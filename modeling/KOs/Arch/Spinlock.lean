import KOs.Common.Fault
import KOs.Data.Tickets
import KOs.Data.Transition

namespace KOs.Arch

open KOs.Common KOs.Data

/-! The ticket spinlock of `arch/spinlock.c`.

Both tickets share one 32-bit word, the head in its low half.  A processor that takes
or releases the lock is at a place between two atomic accesses, which interleave in any
way.  The list of locks that each processor holds is left out.
-/

def headOf (raw : BitVec 32) : BitVec 16 := raw.extractLsb' 0 16

def tailOf (raw : BitVec 32) : BitVec 16 := raw.extractLsb' 16 16

/-- `xadd` of `{.tail = 1}`, and the word `_spin_trylock` tries to store. -/
def addTail (raw : BitVec 32) : BitVec 32 := raw + 0x10000#32

/-- The 16-bit `add` to the head does not carry into the tail. -/
def addHead (raw : BitVec 32) : BitVec 32 := tailOf raw ++ (headOf raw + 1#16)

structure SpinlockArch where
  raw : BitVec 32
  holder : BitVec 32

def nobody : BitVec 32 := 0xFFFF#32

def spinlockArchUnlocked : SpinlockArch := { raw := 0#32, holder := nobody }

inductive Place where
  | outside
  /-- `_spin_trylock` has read the tickets and found them equal. -/
  | tried (old : BitVec 32)
  /-- `_spin_lock` reads the head until it is this ticket. -/
  | spinning (ticket : BitVec 16)
  /-- The lock is taken, the holder not looked at yet. -/
  | acquired
  | claiming
  | holding
  | leaving
  | releasing
deriving DecidableEq, Repr

inductive Access (n : Nat) where
  | lock (c : Fin n)
  | spin (c : Fin n)
  | trylock (c : Fin n)
  | cmpxchg (c : Fin n)
  | checkFree (c : Fin n)
  | storeHolder (c : Fin n)
  | unlock (c : Fin n)
  | clearHolder (c : Fin n)
  | incrementHead (c : Fin n)
  /-- `percpu_up` is set, at a time when nobody uses this lock. -/
  | percpuUp
deriving DecidableEq, Repr

structure Processors (n : Nat) where
  lock : SpinlockArch
  percpuUp : Bool
  place : Fin n → Place
  /-- The processors in the order in which they got their tickets, and in which
  they took the lock. -/
  ticketed : List (Fin n)
  entered : List (Fin n)

variable {n : Nat}

namespace Processors

def head (p : Processors n) : BitVec 16 := headOf p.lock.raw

def tail (p : Processors n) : BitVec 16 := tailOf p.lock.raw

def number (c : Fin n) : BitVec 32 := BitVec.ofNat 32 c

def move (p : Processors n) (c : Fin n) (place : Place) : Processors n :=
  { p with place := fun other => if other = c then place else p.place other }

def setRaw (p : Processors n) (raw : BitVec 32) : Processors n :=
  { p with lock := { p.lock with raw } }

def setHolder (p : Processors n) (holder : BitVec 32) : Processors n :=
  { p with lock := { p.lock with holder } }

def start (n : Nat) (percpuUp : Bool) : Processors n where
  lock := spinlockArchUnlocked
  percpuUp
  place _ := .outside
  ticketed := []
  entered := []

def gotTicket (p : Processors n) (c : Fin n) : Processors n :=
  { p with ticketed := p.ticketed ++ [c] }

def gotLock (p : Processors n) (c : Fin n) : Processors n :=
  { p.move c .acquired with entered := p.entered ++ [c] }

end Processors

open Processors

def Access.enabled (access : Access n) (p : Processors n) : Bool :=
  match access with
  | .lock c => decide (p.place c = .outside)
  | .spin c =>
      match p.place c with
      | .spinning _ => true
      | _ => false
  | .trylock c => decide (p.place c = .outside)
  | .cmpxchg c =>
      match p.place c with
      | .tried _ => true
      | _ => false
  | .checkFree c => decide (p.place c = .acquired)
  | .storeHolder c => decide (p.place c = .claiming)
  | .unlock c => decide (p.place c = .holding)
  | .clearHolder c => decide (p.place c = .leaving)
  | .incrementHead c => decide (p.place c = .releasing)
  | .percpuUp => decide (p.head = p.tail)

/-- The `xadd` of `_spin_lock`. -/
def spinLock (c : Fin n) (p : Processors n) : Processors n :=
  let taken := (p.setRaw (addTail p.lock.raw)).gotTicket c
  if p.head = p.tail then taken.gotLock c else taken.move c (.spinning p.tail)

def spinRead (c : Fin n) (p : Processors n) : Processors n :=
  match p.place c with
  | .spinning ticket => if p.head = ticket then p.gotLock c else p
  | _ => p

def spinTrylock (c : Fin n) (p : Processors n) : Processors n :=
  if p.head ≠ p.tail then p else p.move c (.tried p.lock.raw)

def spinCmpxchg (c : Fin n) (p : Processors n) : Processors n :=
  match p.place c with
  | .tried old =>
      if p.lock.raw = old then ((p.setRaw (addTail old)).gotTicket c).gotLock c else p.move c .outside
  | _ => p

/-- What `_spin_lock` and `_spin_trylock` end with. -/
def spinCheckFree (c : Fin n) (p : Processors n) : Except Fault (Processors n) :=
  if p.percpuUp then
    if p.lock.holder ≠ nobody then
      .error (.panicf "spinlock lock violation %X vs %X" [p.lock.holder.toNat, (number c).toNat])
    else .ok (p.move c .claiming)
  else .ok (p.move c .holding)

def spinUnlock (c : Fin n) (p : Processors n) : Except Fault (Processors n) :=
  if p.percpuUp then
    if p.lock.holder = nobody then
      .error (.panicf "spinlock unlock violation %X vs %X" [p.lock.holder.toNat, (number c).toNat])
    else .ok (p.move c .leaving)
  else .ok (p.move c .releasing)

def Access.perform (access : Access n) (p : Processors n) : Except Fault (Processors n) :=
  match access with
  | .lock c => .ok (spinLock c p)
  | .spin c => .ok (spinRead c p)
  | .trylock c => .ok (spinTrylock c p)
  | .cmpxchg c => .ok (spinCmpxchg c p)
  | .checkFree c => spinCheckFree c p
  | .storeHolder c => .ok ((p.setHolder (number c)).move c .holding)
  | .unlock c => spinUnlock c p
  | .clearHolder c => .ok ((p.setHolder nobody).move c .releasing)
  | .incrementHead c => .ok ((p.setRaw (addHead p.lock.raw)).move c .outside)
  | .percpuUp => .ok { p with percpuUp := true }

def spinlocks (n : Nat) : Machine (Processors n) (Access n) Fault where
  enabled := Access.enabled
  perform := Access.perform

variable (raw : BitVec 32)
include raw

theorem headOf_toNat : (headOf raw).toNat = raw.toNat % 65536 := by
  simp [headOf]

theorem tailOf_toNat : (tailOf raw).toNat = raw.toNat / 65536 % 65536 := by
  simp [tailOf, Nat.shiftRight_eq_div_pow]

theorem addTail_toNat : (addTail raw).toNat = (raw.toNat + 65536) % 4294967296 := by
  rw [addTail, BitVec.toNat_add, BitVec.toNat_ofNat]

theorem headOf_addTail : headOf (addTail raw) = headOf raw := by
  apply BitVec.eq_of_toNat_eq
  rw [headOf_toNat, headOf_toNat, addTail_toNat]
  omega

theorem tailOf_addTail : tailOf (addTail raw) = tailOf raw + 1#16 := by
  apply BitVec.eq_of_toNat_eq
  rw [BitVec.toNat_add, tailOf_toNat, tailOf_toNat, addTail_toNat]
  show _ = (raw.toNat / 65536 % 65536 + 1) % 65536
  omega

theorem headOf_addHead : headOf (addHead raw) = headOf raw + 1#16 :=
  BitVec.extractLsb'_append_eq_right

theorem tailOf_addHead : tailOf (addHead raw) = tailOf raw :=
  BitVec.extractLsb'_append_eq_left

end KOs.Arch

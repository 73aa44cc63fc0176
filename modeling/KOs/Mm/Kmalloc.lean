import KOs.Mm.Cache

namespace KOs.Mm

open KOs.Arch KOs.Common KOs.Data

/-! `kmalloc` and `kfree`, from `mm/mm.c`. -/

def divUp (x y : Nat) : Nat := if x = 0 then 0 else (x - 1) / y + 1

def kmalloc (size : Nat) (kernel : Kernel) : Except Fault (Kernel × Nat) :=
  if size ≤ kallocCacheMax then do
    let (kernel, mem) ← kallocCacheAlloc size kernel
    let page ← virtToPage mem kernel.memory.kmap
    bugOn ((kernel.memory.frames.pages page).flags &&& pageFlagCache == 0) "src/mm/mm.c" 478
    return (kernel, mem)
  else do
    let (memory, page) ← allocPages (divUp size pageSize) allocCompound kernel.memory
    return ({ kernel with memory }, pageToVirt page memory)

inductive KfreeRoute where
  | ignored
  | cache
  | compound (first num : Nat)
deriving DecidableEq, Repr

def kfreeRoute (mem : Nat) (kernel : Kernel) : Except Fault KfreeRoute :=
  if mem = 0 then .ok .ignored
  else do
    let first ← virtToPage mem kernel.memory.kmap
    let page := kernel.memory.frames.pages first
    if page.flags &&& pageFlagCache != 0 then return .cache
    else do
      bugOn (page.compoundNum == 0) "src/mm/mm.c" 494
      return .compound first page.compoundNum

def kfree (mem : Nat) (kernel : Kernel) : Except Fault Kernel := do
  match ← kfreeRoute mem kernel with
  | .ignored => return kernel
  | .cache => return { kernel with slabs := kallocCacheFree mem kernel.slabs }
  | .compound first num =>
      let frames ← freePages first num kernel.memory.frames
      return { kernel with memory := { kernel.memory with frames } }

end KOs.Mm

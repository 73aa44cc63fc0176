import KOs.Data.Directory
import KOs.Mm.Kmalloc

namespace KOs.Arch.Paging

open KOs.Common KOs.Data KOs.Mm

/-! Address spaces, from `arch/mmu.h`, `arch/mmu.c` and `arch/pl.c`.

Directories, page tables and pages of user memory are frames of 1024 words, which the kernel reaches
through its window.  `kptab` and the kernel heap are held as `Kmap` and `Slabs` have them; of `kptab` the
physical address is known.  An access to an address that is not mapped is a fault; the TLB is left out.
-/

def mmuflagUser : Nat := 0x4

structure Store where
  kernel : Kernel
  words : Nat → Nat → BitVec 32
  /-- `kvirt_to_phys(&kptab[0])` -/
  kptabPhys : Nat

def Store.kmap (s : Store) : Kmap := s.kernel.memory.kmap

def Store.frames (s : Store) : Frames := s.kernel.memory.frames

/-- `arch_thread_data_t`, without the saved registers. -/
structure ArchThreadData where
  cr3 : Nat
  dir : Nat
deriving DecidableEq, Repr

/-- The frame that the processor finds behind a kernel address. -/
def frameAt (virt : Nat) (s : Store) : Except Fault Nat := do
  let table ← (kptabIndex virt).mapError (fun _ => .outOfBounds "memory" virt)
  let entry := s.kmap.kptab table (addrToTabidx virt)
  if entry.flags &&& mmuflagPresent = 0 then .error (.outOfBounds "memory" virt)
  else return entry.physaddr

def load (virt : Nat) (s : Store) : Except Fault (BitVec 32) :=
  (frameAt virt s).map (fun frame => s.words frame (getPageoff virt / 4))

def store (virt : Nat) (word : BitVec 32) (s : Store) : Except Fault Store :=
  (frameAt virt s).map (fun frame => { s with words := putWord s.words frame (getPageoff virt / 4) word })

/-! `pdir_entry_t` and `ptab_entry_t`: 12 bits of flags below 20 bits of physical address. -/

def flagsOf (entry : BitVec 32) : BitVec 12 := entry.extractLsb' 0 12

def physaddrOf (entry : BitVec 32) : BitVec 20 := entry.extractLsb' 12 20

def withPhysaddr (physaddr : Nat) (entry : BitVec 32) : BitVec 32 := BitVec.ofNat 20 physaddr ++ flagsOf entry

def withFlags (flags : Nat) (entry : BitVec 32) : BitVec 32 := physaddrOf entry ++ BitVec.ofNat 12 flags

def entryAddr (t idx : Nat) : Nat := (t + 4 * idx) % 2 ^ 32

def entryGetFlags (t idx : Nat) (s : Store) : Except Fault Nat :=
  (load (entryAddr t idx) s).map (fun entry => (flagsOf entry).toNat &&& 0xFFF)

def entryGetPhys (t idx : Nat) (s : Store) : Except Fault Nat :=
  (load (entryAddr t idx) s).map (fun entry => (physaddrOf entry).toNat <<< 12)

def entrySet (t idx phys flags : Nat) (s : Store) : Except Fault Store := do
  let entry ← load (entryAddr t idx) s
  store (entryAddr t idx) (withFlags (flags &&& 0xFFF) (withPhysaddr (phys >>> 12) entry)) s

def tabentryGetFlags (t idx : Nat) (s : Store) : Except Fault Nat := entryGetFlags t idx s

def tabentryGetPhys (t idx : Nat) (s : Store) : Except Fault Nat := entryGetPhys t idx s

def tabentrySet (t idx phys flags : Nat) (s : Store) : Except Fault Store := entrySet t idx phys flags s

def direntryGetPhys (d idx : Nat) (s : Store) : Except Fault Nat := entryGetPhys d idx s

def direntrySet (d idx phys flags : Nat) (s : Store) : Except Fault Store := entrySet d idx phys flags s

def direntryClear (t idx : Nat) (s : Store) : Except Fault Store := direntrySet t idx 0 0 s

def physToVirt (phys : Nat) (s : Store) : Nat := pageToVirt (physToPage phys) s.kernel.memory

/-- The address of the table, or 0. -/
def dirGetTab (d idx : Nat) (s : Store) : Except Fault Nat := do
  let phys ← direntryGetPhys d idx s
  if phys = 0 then return 0
  else return physToVirt phys s

def dirLookupTab (dir addr : Nat) (s : Store) : Except Fault Nat := dirGetTab dir (addrToDiridx addr) s

def tabLookupAddr (tab addr : Nat) (s : Store) : Except Fault Nat :=
  (tabentryGetPhys tab (addrToTabidx addr) s).map (fun phys => phys ||| getPageoff addr)

def dirLookupAddr (dir addr : Nat) (s : Store) : Except Fault Nat := do
  let tab ← dirLookupTab dir addr s
  if tab = 0 then return 0
  else tabLookupAddr tab addr s

def resolveVirt (task : ArchThreadData) (addr : Nat) (s : Store) : Except Fault Nat := dirLookupAddr task.dir addr s

/-- `virt_is_valid` for a task. -/
def virtIsValid (task : ArchThreadData) (addr : Nat) (s : Store) : Except Fault Bool := do
  if addr < virtualBase then
    let tab ← dirGetTab task.dir (addrToDiridx addr) s
    if tab = 0 then return false
    else
      let flags ← tabentryGetFlags tab (addrToTabidx addr) s
      return flags &&& mmuflagPresent ≠ 0
  else
    let table ← kptabIndex addr
    return (s.kmap.kptab table (addrToTabidx addr)).flags &&& mmuflagPresent ≠ 0

def doUserGetPage (task : ArchThreadData) (diridx tabidx : Nat) (s : Store) : Except Fault Nat := do
  let tab ← dirGetTab task.dir diridx s
  if tab = 0 then return 0
  else tabentryGetPhys tab tabidx s

/-- The index of the page, or `none` for `NULL`. -/
def userGetPage (task : ArchThreadData) (virt : Nat) (s : Store) : Except Fault (Option Nat) :=
  (doUserGetPage task (addrToDiridx virt) (addrToTabidx virt) s).map (fun phys =>
    if phys = 0 then none else some (physToPage phys))

/-- `memset(virt, 0, PAGE_SIZE)` for the start of a page. -/
def clearPage (virt : Nat) (s : Store) : Except Fault Store :=
  (frameAt virt s).map (fun frame => { s with words := Function.update s.words frame (fun _ => 0) })

/-- `memcpy(dst, src, PAGE_SIZE)` for the starts of two pages. -/
def copyPage (dst src : Nat) (s : Store) : Except Fault Store := do
  let frame ← frameAt dst s
  let other ← frameAt src s
  return { s with words := Function.update s.words frame (s.words other) }

def allocPages (num : Nat) (flags : UInt32) (s : Store) : Except Fault (Store × Nat) := do
  let (memory, page) ← Mm.allocPages num flags s.kernel.memory
  let s := { s with kernel.memory := memory }
  if flags &&& allocZero != 0 then
    let s ← forLoop (fun i => clearPage ((pageToVirt page s.kernel.memory + pageSize * i) % 2 ^ 32)) num s
    return (s, page)
  else return (s, page)

def allocPage (flags : UInt32) (s : Store) : Except Fault (Store × Nat) := allocPages 1 flags s

def kmalloc (size : Nat) (s : Store) : Except Fault (Store × Nat) :=
  (Mm.kmalloc size s.kernel).map (fun result => ({ s with kernel := result.1 }, result.2))

def userFlags : Nat := mmuflagPresent ||| mmuflagWritable ||| mmuflagUser

def doUserMapPage (task : ArchThreadData) (diridx tabidx phys : Nat) (s : Store) : Except Fault Store := do
  let tab ← dirGetTab task.dir diridx s
  if tab = 0 then
    let (s, tablePage) ← allocPage allocZero s
    let s ← direntrySet task.dir diridx (pageToPhys tablePage) userFlags s
    tabentrySet (pageToVirt tablePage s.kernel.memory) tabidx phys userFlags s
  else tabentrySet tab tabidx phys userFlags s

def userMapPage (task : ArchThreadData) (virt phys : Nat) (s : Store) : Except Fault Store :=
  doUserMapPage task (addrToDiridx virt) (addrToTabidx virt) phys s

def userMapPages (task : ArchThreadData) (virt phys num : Nat) (s : Store) : Except Fault Store :=
  forLoop (fun i => userMapPage task ((virt + i * pageSize) % 2 ^ 32) ((phys + i * pageSize) % 2 ^ 32)) num s

/-- `user_alloc_page`, which maps the page for `current` and for no other task. -/
def userAllocPage (current : ArchThreadData) (virt : Nat) (flags : UInt32) (s : Store) :
    Except Fault (Store × Nat) := do
  let (s, page) ← allocPage flags s
  let s ← userMapPage current virt (pageToPhys page) s
  return (s, page)

/-- One turn of the inner loop of `copy_mem`. -/
def copyEntry (child : ArchThreadData) (i tab j : Nat) (s : Store) : Except Fault Store := do
  let flags ← tabentryGetFlags tab j s
  if flags &&& mmuflagPresent ≠ 0 then
    let (s, dst) ← kmalloc pageSize s
    let phys ← tabentryGetPhys tab j s
    let s ← copyPage dst (physToVirt phys s) s
    let copy ← virtToPhys dst s.kmap
    doUserMapPage child i j copy s
  else return s

/-- One turn of the outer loop of `copy_mem`. -/
def copyTable (child parent : ArchThreadData) (i : Nat) (s : Store) : Except Fault Store := do
  let tab ← dirGetTab parent.dir i s
  if tab = 0 then return s
  else forLoop (copyEntry child i tab) numEntries s

def copyMem (child parent : ArchThreadData) (s : Store) : Except Fault Store :=
  forLoop (copyTable child parent) (numEntries - kernelNumTables) s

def buildPageDir (dir : Nat) (s : Store) : Except Fault Store := do
  let s ← forLoop (fun i => direntryClear dir i) (numEntries - kernelNumTables) s
  let baseoff := virtualBase / pageSize / numEntries
  forLoop (fun i s => direntrySet dir (i + baseoff) (s.kptabPhys + pageSize * i)
    (mmuflagPresent ||| mmuflagWritable) s) kernelNumTables s

def newDir (s : Store) : Except Fault (Store × Nat) := do
  let (s, page) ← allocPage allocZero s
  let s ← buildPageDir (pageToVirt page s.kernel.memory) s
  return (s, page)

/-- `arch_replace_mem`; the old directory is the `dir` that `t` has had. -/
def archReplaceMem (newdir : Nat) (s : Store) : Except Fault (Store × ArchThreadData) := do
  let (s, page) ←
    if newdir = 0 then newDir s
    else (virtToPage newdir s.kmap).map (fun page => (s, page))
  return (s, { cr3 := pageToPhys page, dir := pageToVirt page s.kernel.memory })

end KOs.Arch.Paging

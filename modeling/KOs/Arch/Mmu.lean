import KOs.Mm.Frames

namespace KOs.Arch

open KOs.Common KOs.Data KOs.Mm

/-! The kernel's virtual window, from `arch/mmu.h` and `arch/mmu.c`.

`kptab` is the array of page tables behind the addresses from `VIRTUAL_BASE` up.
Every mapping takes the next page of the window and none is given back; the code
does not check for the end, and the model stops where it would index `kptab`
beyond it.
-/

def kernelNumTables : Nat := 256
def virtualBase : Nat := 0xC0000000

def mmuflagPresent : Nat := 0x1
def mmuflagWritable : Nat := 0x2

structure PtabEntry where
  flags : Nat
  physaddr : Nat
deriving DecidableEq, Repr

structure Kmap where
  kptab : Nat → Nat → PtabEntry
  kernelNextPage : Nat

def addrToDiridx (addr : Nat) : Nat := (addr &&& 0xFFFFF000) / pageSize / numEntries

def addrToTabidx (addr : Nat) : Nat := (addr &&& 0xFFFFF000) / pageSize % numEntries

def getPageoff (addr : Nat) : Nat := addr &&& 0xFFF

def kptabIndex (addr : Nat) : Except Fault Nat :=
  let index := (addrToDiridx addr + 2 ^ 32 - addrToDiridx virtualBase) % 2 ^ 32
  if index < kernelNumTables then .ok index else .error (.outOfBounds "kptab" index)

def tabentrySet (table index phys flags : Nat) (kmap : Kmap) : Kmap :=
  { kmap with
    kptab := fun otherTable other =>
      if otherTable = table ∧ other = index then
        { physaddr := phys >>> 12, flags := flags &&& 0xFFF }
      else kmap.kptab otherTable other }

def getNextVirt (phys : Nat) (kmap : Kmap) : Nat :=
  (kmap.kernelNextPage * pageSize + virtualBase + getPageoff phys) % 2 ^ 32

def doMapPage (phys : Nat) (kmap : Kmap) : Except Fault Kmap := do
  let virt := getNextVirt 0 kmap
  let kmap := { kmap with kernelNextPage := (kmap.kernelNextPage + 1) % 2 ^ 32 }
  let index ← kptabIndex virt
  return tabentrySet index (addrToTabidx virt) phys (mmuflagWritable ||| mmuflagPresent) kmap

def mapPages (phys pages : Nat) (kmap : Kmap) : Except Fault (Kmap × Nat) := do
  let virt := getNextVirt phys kmap
  let kmap ← forLoop (fun i => doMapPage ((phys + pageSize * i) % 2 ^ 32)) pages kmap
  return (kmap, virt)

def virtToPhys (addr : Nat) (kmap : Kmap) : Except Fault Nat :=
  if addr = 0 then .ok 0
  else do
    let table ← kptabIndex addr
    return ((kmap.kptab table (addrToTabidx addr)).physaddr <<< 12) ||| getPageoff addr

def physToPage (phys : Nat) : Nat := phys / pageSize

def pageToPhys (page : Nat) : Nat := page * pageSize % 2 ^ 32

/-- `virt_to_page`, as the index of the frame. -/
def virtToPage (addr : Nat) (kmap : Kmap) : Except Fault Nat := do
  let phys ← virtToPhys addr kmap
  return physToPage phys

/-- `sizeof(page_t)` times the number of frames, in pages. -/
def mallocNumPages : Nat := 20 * numEntries * numEntries / pageSize

/-- The mappings `mmu_init` makes: the kernel image and the array of frames. -/
def mmuInit (kernelEnd mallocStart : Nat) (tables : Nat → Nat → PtabEntry) : Except Fault Kmap := do
  let kernelPages := if kernelEnd = 0 then 0 else (kernelEnd - 1) / pageSize + 1
  let (kmap, _) ← mapPages 0 kernelPages { kptab := tables, kernelNextPage := 0 }
  let (kmap, _) ← mapPages mallocStart mallocNumPages kmap
  return kmap

def windowPages : Nat := kernelNumTables * numEntries

def windowAddr (i : Nat) : Nat := virtualBase + pageSize * i

def Kmap.frame (kmap : Kmap) (i : Nat) : Nat :=
  (kmap.kptab (i / numEntries) (i % numEntries)).physaddr

def Kmap.entry (kmap : Kmap) (i : Nat) : PtabEntry := kmap.kptab (i / numEntries) (i % numEntries)

theorem Kmap.frame_eq (kmap : Kmap) (i : Nat) : kmap.frame i = (kmap.entry i).physaddr := rfl

theorem page_of_masked (addr : Nat) : (addr &&& 0xFFFFF000) / pageSize = addr / pageSize % 2 ^ 20 := by
  have mask : 0xFFFFF000 >>> 12 = 2 ^ 20 - 1 := by decide
  have shifted : (addr &&& 0xFFFFF000) >>> 12 = (addr >>> 12) &&& (2 ^ 20 - 1) := by
    rw [Nat.shiftRight_and_distrib, mask]
  rwa [Nat.and_two_pow_sub_one_eq_mod, Nat.shiftRight_eq_div_pow, Nat.shiftRight_eq_div_pow] at shifted

theorem getPageoff_eq (addr : Nat) : getPageoff addr = addr % pageSize :=
  Nat.and_two_pow_sub_one_eq_mod addr 12

section Window

variable {i off : Nat}

theorem kptabIndex_window (inside : i < windowPages) (small : off < pageSize) :
    kptabIndex (windowAddr i + off) = .ok (i / numEntries) := by
  have index : (addrToDiridx (windowAddr i + off) + 2 ^ 32 - addrToDiridx virtualBase) % 2 ^ 32 = i / numEntries := by
    simp only [addrToDiridx, page_of_masked]
    simp only [windowAddr, virtualBase, pageSize, numEntries, windowPages, kernelNumTables] at *
    omega
  have bound : i / numEntries < kernelNumTables := by
    simp only [numEntries, kernelNumTables, windowPages] at *
    omega
  simp only [kptabIndex, index, if_pos bound]

theorem addrToTabidx_window (small : off < pageSize) :
    addrToTabidx (windowAddr i + off) = i % numEntries := by
  simp only [addrToTabidx, page_of_masked]
  simp only [windowAddr, virtualBase, pageSize, numEntries] at *
  omega

theorem getPageoff_window (small : off < pageSize) : getPageoff (windowAddr i + off) = off := by
  rw [getPageoff_eq]
  simp only [windowAddr, virtualBase, pageSize] at *
  omega

theorem virtToPhys_window {kmap : Kmap} (inside : i < windowPages) (small : off < pageSize) :
    virtToPhys (windowAddr i + off) kmap = .ok (pageSize * kmap.frame i + off) := by
  have nonzero : windowAddr i + off ≠ 0 := by
    simp only [windowAddr, virtualBase]
    omega
  have combined : kmap.frame i <<< 12 ||| off = pageSize * kmap.frame i + off := by
    have size : pageSize = 2 ^ 12 := by decide
    rw [size] at small ⊢
    rw [← Nat.shiftLeft_add_eq_or_of_lt small, Nat.shiftLeft_eq, mul_comm]
  rw [← combined, Kmap.frame, virtToPhys, if_neg nonzero, kptabIndex_window inside small,
    addrToTabidx_window small, getPageoff_window small]
  rfl

theorem virtToPage_window {kmap : Kmap} (inside : i < windowPages) (small : off < pageSize) :
    virtToPage (windowAddr i + off) kmap = .ok (kmap.frame i) := by
  have page : (pageSize * kmap.frame i + off) / pageSize = kmap.frame i := by
    rw [Nat.mul_add_div (by decide), Nat.div_eq_of_lt small, add_zero]
  rw [virtToPage, virtToPhys_window inside small]
  show Except.ok ((pageSize * kmap.frame i + off) / pageSize) = _
  rw [page]

end Window

variable {phys : Nat → Nat} {count : Nat}

section Mapping

variable {kmap after : Kmap} {pages virt : Nat}
variable {reason : Fault} {phys' pages' : Nat}

theorem doMapPage_fails {phys : Nat}
    (ran : doMapPage phys kmap = .error reason) : ∃ index, reason = .outOfBounds "kptab" index := by
  rw [doMapPage] at ran
  generalize getNextVirt 0 kmap = virt at ran
  cases found : kptabIndex virt with
  | ok =>
    rw [found] at ran
    cases ran
  | error =>
    rw [found] at ran
    cases ran
    rw [kptabIndex] at found
    split at found
    · cases found
    · cases found
      exact ⟨_, rfl⟩

theorem mapPages_fails {phys : Nat} (ran : mapPages phys pages kmap = .error reason) :
    ∃ index, reason = .outOfBounds "kptab" index := by
  rcases bind_fails ran with loop | ⟨_, _, rest⟩
  · exact forLoop_fails (fun cause => ∃ index, cause = .outOfBounds "kptab" index) loop fun _ _ _ => doMapPage_fails
  · contradiction

theorem getNextVirt_eq (phys : Nat) (inside : kmap.kernelNextPage < windowPages) :
    getNextVirt phys kmap = windowAddr kmap.kernelNextPage + getPageoff phys := by
  have small : getPageoff phys < pageSize := getPageoff_eq phys ▸ Nat.mod_lt _ (by decide)
  simp only [getNextVirt, windowAddr, virtualBase, pageSize, windowPages, kernelNumTables, numEntries] at *
  omega

theorem doMapPage_entry {phys : Nat} (room : kmap.kernelNextPage ≤ windowPages)
    (ran : doMapPage phys kmap = .ok after) :
    kmap.kernelNextPage < windowPages ∧ after.kernelNextPage = kmap.kernelNextPage + 1 ∧
      ∀ i, after.entry i = if i = kmap.kernelNextPage then
        { physaddr := phys / pageSize, flags := mmuflagWritable ||| mmuflagPresent } else kmap.entry i := by
  have inside : kmap.kernelNextPage < windowPages := by
    apply room.lt_of_ne
    intro full
    have wrapped : getNextVirt 0 kmap = 0 := by
      rw [getNextVirt, full]
      decide
    have missing : kptabIndex 0 = .error (.outOfBounds "kptab" (2 ^ 32 - 768)) := by decide
    rw [doMapPage, wrapped, missing] at ran
    cases ran
  have virt : getNextVirt 0 kmap = windowAddr kmap.kernelNextPage + 0 := getNextVirt_eq 0 inside
  have noWrap : (kmap.kernelNextPage + 1) % 2 ^ 32 = kmap.kernelNextPage + 1 := by
    simp only [windowPages, kernelNumTables, numEntries] at inside
    omega
  have small : 0 < pageSize := by decide
  rw [doMapPage, virt, kptabIndex_window inside small, addrToTabidx_window small, noWrap] at ran
  cases ran
  refine ⟨inside, rfl, ?_⟩
  intro i
  have entry : i / numEntries = kmap.kernelNextPage / numEntries ∧
      i % numEntries = kmap.kernelNextPage % numEntries ↔ i = kmap.kernelNextPage := by
    simp only [numEntries]
    omega
  have shifted : phys >>> 12 = phys / pageSize := Nat.shiftRight_eq_div_pow phys 12
  have flags : (mmuflagWritable ||| mmuflagPresent) &&& 0xFFF = mmuflagWritable ||| mmuflagPresent := by decide
  simp only [Kmap.entry, tabentrySet, entry, shifted, flags]

theorem doMapPage_exists (phys : Nat) (inside : kmap.kernelNextPage < windowPages) :
    ∃ after, doMapPage phys kmap = .ok after := by
  have virt : getNextVirt 0 kmap = windowAddr kmap.kernelNextPage + 0 := getNextVirt_eq 0 inside
  rw [doMapPage, virt, kptabIndex_window inside (by decide)]
  exact ⟨_, rfl⟩

/-- The next `count` pages of the window are put in front of the frames of `phys 0`, `phys 1`, … -/
structure Kmap.Installs (phys : Nat → Nat) (count : Nat) (kmap after : Kmap) : Prop where
  next : after.kernelNextPage = kmap.kernelNextPage + count
  room : after.kernelNextPage ≤ windowPages
  entry : ∀ i, after.entry i = if kmap.kernelNextPage ≤ i ∧ i < kmap.kernelNextPage + count then
    { physaddr := phys (i - kmap.kernelNextPage) / pageSize, flags := mmuflagWritable ||| mmuflagPresent }
    else kmap.entry i

theorem Kmap.Installs.outside {i : Nat} (installs : kmap.Installs phys count after)
    (outside : i < kmap.kernelNextPage ∨ kmap.kernelNextPage + count ≤ i) : after.entry i = kmap.entry i := by
  rw [installs.entry, if_neg (by omega)]

theorem Kmap.Installs.inside {j : Nat} (installs : kmap.Installs phys count after) (inside : j < count) :
    after.entry (kmap.kernelNextPage + j) =
      { physaddr := phys j / pageSize, flags := mmuflagWritable ||| mmuflagPresent } := by
  rw [installs.entry, if_pos (by omega), Nat.add_sub_cancel_left]

theorem mapLoop_installs (room : kmap.kernelNextPage ≤ windowPages)
    (ran : forLoop (fun i => doMapPage (phys i)) count kmap = .ok after) : kmap.Installs phys count after := by
  apply forLoop_preserves (fun index next => kmap.Installs phys index next) ran
  · exact ⟨rfl, room, fun i => by rw [if_neg (by omega)]⟩
  · intro index next _ _ ⟨reached, inside, old⟩ turn
    obtain ⟨strict, advanced, entries⟩ := doMapPage_entry inside turn
    refine ⟨by omega, by omega, fun i => ?_⟩
    rw [entries, old, reached]
    by_cases newest : i = kmap.kernelNextPage + index
    · rw [if_pos newest, if_pos (by omega), newest, Nat.add_sub_cancel_left]
    · rw [if_neg newest]
      exact if_congr (by omega) rfl rfl

theorem mapLoop_exists (phys : Nat → Nat) (room : kmap.kernelNextPage + count ≤ windowPages) :
    ∃ after, forLoop (fun i => doMapPage (phys i)) count kmap = .ok after ∧ kmap.Installs phys count after := by
  obtain ⟨after, ran, _⟩ := forLoop_exists (fun index (next : Kmap) => next.kernelNextPage = kmap.kernelNextPage + index)
    rfl (show ∀ index (next : Kmap), index < count → _ → ∃ after, doMapPage (phys index) next = .ok _ ∧ _ by
      intro index next below reached
      obtain ⟨after, ran⟩ := doMapPage_exists (phys index) (show next.kernelNextPage < windowPages by omega)
      obtain ⟨_, advanced, _⟩ := doMapPage_entry (by omega) ran
      exact ⟨after, ran, by omega⟩)
  exact ⟨after, ran, mapLoop_installs (by omega) ran⟩

theorem mapPages_installs {phys : Nat} (room : kmap.kernelNextPage ≤ windowPages)
    (ran : mapPages phys pages kmap = .ok (after, virt)) :
    virt = getNextVirt phys kmap ∧ kmap.Installs (fun i => (phys + pageSize * i) % 2 ^ 32) pages after := by
  obtain ⟨final, loop, rest⟩ := bind_returns ran
  cases rest
  exact ⟨rfl, mapLoop_installs room loop⟩

theorem mapPages_exists (phys : Nat) (room : kmap.kernelNextPage + pages ≤ windowPages) :
    ∃ after, mapPages phys pages kmap = .ok (after, getNextVirt phys kmap) ∧
      kmap.Installs (fun i => (phys + pageSize * i) % 2 ^ 32) pages after := by
  obtain ⟨after, ran, installs⟩ := mapLoop_exists (fun i => (phys + pageSize * i) % 2 ^ 32) room
  refine ⟨after, ?_, installs⟩
  rw [mapPages, ran]
  rfl

theorem mapTwice_room {phys : Nat} (room : kmap.kernelNextPage ≤ windowPages) (ran : (do
      let (kmap, _) ← mapPages phys pages kmap
      let (kmap, _) ← mapPages phys' pages' kmap
      return kmap) = .ok after) : after.kernelNextPage ≤ windowPages := by
  obtain ⟨⟨middle, virt⟩, image, rest⟩ := bind_returns ran
  obtain ⟨second, array, rest⟩ := bind_returns rest
  cases rest
  exact (mapPages_installs (mapPages_installs room image).2.room array).2.room

theorem mmuInit_room {kernelEnd mallocStart : Nat} {tables : Nat → Nat → PtabEntry}
    (ran : mmuInit kernelEnd mallocStart tables = .ok kmap) : kmap.kernelNextPage ≤ windowPages := by
  exact mapTwice_room (Nat.zero_le _) ran

theorem mapTwice_exists {phys : Nat} (room : kmap.kernelNextPage + pages + pages' ≤ windowPages) :
    ∃ after, (do
      let (kmap, _) ← mapPages phys pages kmap
      let (kmap, _) ← mapPages phys' pages' kmap
      return kmap) = .ok after ∧ after.kernelNextPage = kmap.kernelNextPage + pages + pages' := by
  obtain ⟨middle, image, first⟩ := mapPages_exists phys (show kmap.kernelNextPage + pages ≤ windowPages by omega)
  have next := first.next
  obtain ⟨after, array, second⟩ := mapPages_exists phys' (show middle.kernelNextPage + pages' ≤ windowPages by omega)
  refine ⟨after, ?_, by rw [second.next, next]⟩
  simp only [image, array, ok_bind]
  rfl

theorem mapPages_ok {page : Nat} (room : kmap.kernelNextPage ≤ windowPages) (range : page + pages ≤ pageCount)
    (nonempty : pages ≠ 0) (ran : mapPages (pageToPhys page) pages kmap = .ok (after, virt)) :
    virt = windowAddr kmap.kernelNextPage ∧
      after.kernelNextPage = kmap.kernelNextPage + pages ∧ after.kernelNextPage ≤ windowPages ∧
      ∀ i, after.frame i =
        if kmap.kernelNextPage ≤ i ∧ i < kmap.kernelNextPage + pages then
          page + (i - kmap.kernelNextPage)
        else kmap.frame i := by
  have size : pageCount = 2 ^ 20 := by decide
  have phys : pageToPhys page = page * pageSize := by
    simp only [pageToPhys, pageSize]
    omega
  have aligned : getPageoff (page * pageSize) = 0 := by rw [getPageoff_eq, Nat.mul_mod_left]
  rw [phys] at ran
  obtain ⟨start, next, bound, entry⟩ := mapPages_installs room ran
  refine ⟨?_, next, bound, fun i => ?_⟩
  · rw [start, getNextVirt_eq _ (by omega), aligned, add_zero]
  · rw [Kmap.frame_eq, entry]
    split
    · simp only [pageSize]
      omega
    · rfl

end Mapping

end KOs.Arch

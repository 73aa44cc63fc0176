import KOs.Mm.Heap.World

namespace KOs.Mm

open KOs.Arch KOs.Common KOs.Data

variable {b : Allocation} {num j : Nat} {k : Nat}

section Layout

variable {kernel : Kernel} {live : List Allocation} {known : Set CacheRef} {ready : Nat}
  {ghost : Ghost} {cache : CacheRef} {base : Nat} {a : Allocation}

theorem Origin.slab_or_pages (origin : Origin) :
    (∃ cache, origin.slab = some cache) ∨ ∃ num, origin = .kmallocPages num := by
  cases origin with
  | object cache | kmallocCache cache => exact .inl ⟨cache, rfl⟩
  | descriptor => exact .inl ⟨.metaCache, rfl⟩
  | kmallocPages num => exact .inr ⟨num, rfl⟩

theorem Kernel.extent_slab (slab : a.origin.slab = some cache) :
    kernel.extent a = (kernel.slabs.caches cache).size := by
  cases origin : a.origin with
  | object | descriptor | kmallocCache =>
    rw [origin] at slab
    cases slab
    simp only [Kernel.extent, origin]
  | kmallocPages =>
    rw [origin] at slab
    cases slab

theorem Kernel.extent_pages (origin : a.origin = .kmallocPages num) :
    kernel.extent a = num * pageSize := by
  simp only [Kernel.extent, origin]

variable (sound : HeapSound kernel live known ready ghost)

section

include sound

theorem HeapSound.page_window (owns : Owns ghost.lists cache base) :
    ∃ q w, (q, 1) ∈ ghost.runs ∧ (kernel.memory.frames.pages q).addr = base ∧
      (kernel.memory.frames.pages q).flags = pageFlagUsed ||| pageFlagCache ∧
      w < kernel.memory.kmap.kernelNextPage ∧ base = windowAddr w ∧
      kernel.memory.kmap.frame w = q := by
  obtain ⟨q, mem, addr, flags⟩ := sound.resident cache base owns
  obtain ⟨w, below, each⟩ := sound.mapped.mapped (q, 1) mem
  obtain ⟨place, frame⟩ := each 0 (by omega)
  exact ⟨q, w, mem, addr, flags, by omega, addr.symm.trans place, frame⟩

theorem HeapSound.run_window (inRun : InRun kernel ghost num a) :
    ∃ p w, (p, num) ∈ ghost.runs ∧ num ≠ 0 ∧ w + num ≤ kernel.memory.kmap.kernelNextPage ∧
      a.addr = windowAddr w ∧ ∀ j < num, kernel.memory.kmap.frame (w + j) = p + j := by
  obtain ⟨p, mem, addr, _, _⟩ := inRun
  obtain ⟨nonempty, _⟩ := sound.session.held (p, num) mem
  obtain ⟨w, below, each⟩ := sound.mapped.mapped (p, num) mem
  have place := (each 0 (Nat.pos_of_ne_zero nonempty)).1
  exact ⟨p, w, mem, nonempty, below, addr.trans place, fun j inside => (each j inside).2⟩

theorem HeapSound.addr_lt (mem : a ∈ live) :
    a.addr < windowAddr kernel.memory.kmap.kernelNextPage := by
  rcases a.origin.slab_or_pages with ⟨cache, slab⟩ | ⟨num, pages⟩
  · obtain ⟨base, i, owns, inRange, _, addr⟩ := (sound.placed a mem).1 _ slab
    obtain ⟨_, w, _, _, _, below, place, _⟩ := sound.page_window owns
    have fits := sound.slabs.fits cache (sound.slabs.known_of_owns owns)
    obtain ⟨_, upper⟩ := slot_inside base fits inRange
    have pos := fits.size
    rw [addr]
    simp only [windowAddr, pageSize] at *
    omega
  · obtain ⟨_, w, _, nonempty, below, addr, _⟩ :=
      sound.run_window ((sound.placed a mem).2 num pages)
    rw [addr]
    simp only [windowAddr, pageSize]
    omega

theorem HeapSound.not_listed (head : CacheList × CacheRef) :
    windowAddr kernel.memory.kmap.kernelNextPage ∉ ghost.lists head := by
  intro mem
  have owns : Owns ghost.lists head.2 _ := ⟨head.1, mem⟩
  obtain ⟨_, w, _, _, _, below, place, _⟩ := sound.page_window owns
  rw [windowAddr_injective place] at below
  omega

theorem HeapSound.slot_unused {i : Nat}
    (owns : Owns ghost.lists cache base) (free : i ∈ ghost.chain base) (mem : a ∈ live) :
    a.addr ≠ slotAddr (kernel.slabs.caches cache) base i := by
  intro same
  have page := sound.slabs.page_of_owns owns
  have fits := sound.slabs.fits cache (sound.slabs.known_of_owns owns)
  have inRange := page.bounded i free
  rcases a.origin.slab_or_pages with ⟨other, slab⟩ | ⟨num, pages⟩
  · obtain ⟨base', j, owns', inRange', used, addr⟩ := (sound.placed a mem).1 _ slab
    obtain ⟨rfl, rfl, rfl⟩ :=
      sound.slabs.slot_unique owns' owns inRange' inRange (addr.symm.trans same)
    exact used free
  · obtain ⟨_, w, _, _, _, addr, _⟩ := sound.run_window ((sound.placed a mem).2 num pages)
    apply slot_not_aligned fits page.aligned inRange
    rw [← same, addr]
    exact pageSize_dvd_windowAddr w

theorem HeapSound.slab_byte (mem : a ∈ live) (slab : a.origin.slab = some cache) (inside : j < kernel.extent a) :
    ∃ base q i, Owns ghost.lists cache base ∧ a.addr = slotAddr (kernel.slabs.caches cache) base i ∧
      (kernel.memory.frames.pages q).addr = base ∧
      (kernel.memory.frames.pages q).flags = pageFlagUsed ||| pageFlagCache ∧
      base ≤ a.addr ∧ a.addr - base + j < pageSize ∧
      virtToPhys (a.addr + j) kernel.memory.kmap = .ok (pageSize * q + (a.addr - base + j)) := by
  obtain ⟨base, i, owns, inRange, _, addr⟩ := (sound.placed a mem).1 cache slab
  obtain ⟨q, w, _, qAddr, flags, below, place, frame⟩ := sound.page_window owns
  have fits := sound.slabs.fits cache (sound.slabs.known_of_owns owns)
  obtain ⟨lower, upper⟩ := slot_inside base fits inRange
  have room := sound.mapped.room
  rw [Kernel.extent_slab slab] at inside
  have split : a.addr + j = windowAddr w + (a.addr - base + j) := by omega
  have small : a.addr - base + j < pageSize := by omega
  refine ⟨base, q, i, owns, addr, qAddr, flags, by omega, small, ?_⟩
  rw [split, virtToPhys_window (by omega) small, frame]

theorem HeapSound.run_byte (mem : a ∈ live) (pages : a.origin = .kmallocPages num) (inside : j < kernel.extent a) :
    ∃ p, (p, num) ∈ ghost.runs ∧ a.addr = (kernel.memory.frames.pages p).addr ∧
      (∀ q ∈ run p num, (kernel.memory.frames.pages q).flags = pageFlagUsed) ∧ p + j / pageSize ∈ run p num ∧
      virtToPhys (a.addr + j) kernel.memory.kmap = .ok (pageSize * (p + j / pageSize) + j % pageSize) := by
  obtain ⟨p, inRuns, addr, _, flags⟩ := (sound.placed a mem).2 num pages
  rw [Kernel.extent_pages pages] at inside
  have page : j / pageSize < num := Nat.div_lt_of_lt_mul (by rwa [Nat.mul_comm])
  have mapped := sound.mapped.mapped (p, num) inRuns
  have split : a.addr + j = (kernel.memory.frames.pages (p + j / pageSize)).addr + j % pageSize := by
    rw [mapped.addr_eq page, addr, Nat.add_assoc, Nat.div_add_mod]
  refine ⟨p, inRuns, addr, flags, ⟨Nat.le_add_right _ _, Nat.add_lt_add_left page p⟩, ?_⟩
  rw [split, mapped.virtToPhys sound.mapped.room page (Nat.mod_lt _ (by decide))]

theorem HeapSound.backed (mem : a ∈ live) (inside : j < kernel.extent a) :
    ∃ phys, virtToPhys (a.addr + j) kernel.memory.kmap = .ok phys := by
  rcases a.origin.slab_or_pages with ⟨cache, slab⟩ | ⟨num, pages⟩
  · obtain ⟨_, _, _, _, _, _, _, _, _, phys⟩ := sound.slab_byte mem slab inside
    exact ⟨_, phys⟩
  · obtain ⟨_, _, _, _, _, phys⟩ := sound.run_byte mem pages inside
    exact ⟨_, phys⟩

end

theorem page_off_unique {p q r s : Nat} (small : r < pageSize) (small' : s < pageSize)
    (same : pageSize * p + r = pageSize * q + s) : p = q ∧ r = s := by
  simp only [pageSize] at *
  omega

section

variable (memberA : a ∈ live) (memberB : b ∈ live) (insideA : j < kernel.extent a) (insideB : k < kernel.extent b)
include sound memberA memberB insideA insideB

theorem HeapSound.slab_apart {other : CacheRef}
    (slabA : a.origin.slab = some cache) (slabB : b.origin.slab = some other) (ne : a.addr ≠ b.addr) :
    virtToPhys (a.addr + j) kernel.memory.kmap ≠ virtToPhys (b.addr + k) kernel.memory.kmap := by
  obtain ⟨baseA, q, i, ownsA, addrA, pageA, _, lowerA, smallA, physA⟩ := sound.slab_byte memberA slabA insideA
  obtain ⟨baseB, r, i', ownsB, addrB, pageB, _, lowerB, smallB, physB⟩ := sound.slab_byte memberB slabB insideB
  rw [Kernel.extent_slab slabA] at insideA
  rw [Kernel.extent_slab slabB] at insideB
  intro same
  rw [physA, physB] at same
  obtain ⟨sameFrame, sameOffset⟩ := page_off_unique smallA smallB (Except.ok.inj same)
  have samePage : baseA = baseB := by rw [← pageA, ← pageB, sameFrame]
  subst samePage
  obtain rfl := sound.slabs.owner_unique ownsA ownsB
  by_cases sameSlot : i = i'
  · exact ne (by rw [addrA, addrB, sameSlot])
  · have _ := slot_disjoint (kernel.slabs.caches cache) baseA sameSlot
    omega

theorem HeapSound.slab_run_apart (slabA : a.origin.slab = some cache) (pagesB : b.origin = .kmallocPages num) :
    virtToPhys (a.addr + j) kernel.memory.kmap ≠ virtToPhys (b.addr + k) kernel.memory.kmap := by
  obtain ⟨_, q, _, _, _, _, flagsA, _, small, physA⟩ := sound.slab_byte memberA slabA insideA
  obtain ⟨p, _, _, flagsB, page, physB⟩ := sound.run_byte memberB pagesB insideB
  intro same
  rw [physA, physB] at same
  obtain ⟨sameFrame, _⟩ := page_off_unique small (Nat.mod_lt _ (by decide)) (Except.ok.inj same)
  have flags := flagsB _ page
  rw [← sameFrame, flagsA] at flags
  contradiction

theorem HeapSound.run_apart {count : Nat}
    (pagesA : a.origin = .kmallocPages num) (pagesB : b.origin = .kmallocPages count) (ne : a.addr ≠ b.addr) :
    virtToPhys (a.addr + j) kernel.memory.kmap ≠ virtToPhys (b.addr + k) kernel.memory.kmap := by
  obtain ⟨p, inRunsA, addrA, _, pageA, physA⟩ := sound.run_byte memberA pagesA insideA
  obtain ⟨r, inRunsB, addrB, _, pageB, physB⟩ := sound.run_byte memberB pagesB insideB
  intro same
  rw [physA, physB] at same
  obtain ⟨sameFrame, _⟩ := page_off_unique (Nat.mod_lt _ (by decide)) (Nat.mod_lt _ (by decide)) (Except.ok.inj same)
  have inB : p + j / pageSize ∈ runRegion (r, count) := sameFrame ▸ pageB
  cases sound.session.exclusive.key_unique inRunsA inRunsB pageA inB
  exact ne (addrA.trans addrB.symm)

theorem HeapSound.apart (ne : a.addr ≠ b.addr) :
    virtToPhys (a.addr + j) kernel.memory.kmap ≠ virtToPhys (b.addr + k) kernel.memory.kmap := by
  rcases a.origin.slab_or_pages with ⟨cache, slabA⟩ | ⟨num, pagesA⟩
  · rcases b.origin.slab_or_pages with ⟨other, slabB⟩ | ⟨count, pagesB⟩
    · exact sound.slab_apart memberA memberB insideA insideB slabA slabB ne
    · exact sound.slab_run_apart memberA memberB insideA insideB slabA pagesB
  · rcases b.origin.slab_or_pages with ⟨other, slabB⟩ | ⟨count, pagesB⟩
    · exact (sound.slab_run_apart memberB memberA insideB insideA slabB pagesA).symm
    · exact sound.run_apart memberA memberB insideA insideB pagesA pagesB ne

end

end Layout

end KOs.Mm

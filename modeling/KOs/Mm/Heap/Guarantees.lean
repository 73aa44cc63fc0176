import KOs.Mm.Buddy.Guarantees
import KOs.Mm.Heap.Runs

namespace KOs.Mm

open KOs.Arch KOs.Common KOs.Data

def bootTables : Nat → Nat → PtabEntry := fun _ _ => ⟨0, 0⟩

def mappedOr (otherwise : Kmap) : Except Fault Kmap → Kmap
  | .ok kmap => kmap
  | .error _ => otherwise

/-- The window after `mmu_init`, with a kernel of sixteen pages. -/
def bootKmap : Kmap := mappedOr unmapped (mmuInit 65536 65536 bootTables)

theorem bootKmap_spec :
    mmuInit 65536 65536 bootTables = .ok ⟨bootKmap.kptab, 5136⟩ := by
  have result : ∃ after, mmuInit 65536 65536 bootTables = .ok after ∧ after.kernelNextPage = 5136 :=
    mapTwice_exists (show 0 + 16 + 5120 ≤ windowPages by decide)
  obtain ⟨kmap, ran, next⟩ := result
  have same : bootKmap = kmap := by
    rw [bootKmap, ran]
    rfl
  rw [ran, same, ← next]

def bootKernel (frames : Frames) : Kernel where
  memory := ⟨frames, ⟨bootKmap.kptab, 5136⟩⟩
  slabs := bootSlabs (fun _ => ⟨.metaCache, 0, 0, 0, fun _ => 0, 0, 0⟩) (fun _ => ⟨0, 0⟩)
    ⟨fun node => ⟨node, node⟩⟩

/-- A kernel with two free frames, up to the end of `cache_init`. -/
def booted : Except Fault Kernel := twoClaims.bind (fun frames => cacheInit (bootKernel frames))

def bootWorld (kernel : Kernel) : World := ⟨kernel, kallocDescriptors kernel.slabs kallocNumCaches⟩

theorem booted_started {kernel : Kernel} (ran : booted = .ok kernel) : (bootWorld kernel).Started := by
  obtain ⟨frames, claimed, ran⟩ := bind_returns ran
  exact .intro bootKmap_spec (twoClaims_claims claimed) ran

def CachePageOf (kernel : Kernel) (cache : CacheRef) (base : Nat) : Prop :=
  ∃ q, (kernel.memory.frames.pages q).addr = base ∧
    (kernel.memory.frames.pages q).flags &&& pageFlagCache ≠ 0 ∧
    (kernel.slabs.pages base).cache = cache

def ObjectLive (world : World) (cache : CacheRef) (base i : Nat) : Prop :=
  ∃ a ∈ world.live, a.origin.slab = some cache ∧
    a.addr = (world.kernel.slabs.pages base).mem + i * (world.kernel.slabs.caches cache).size

/-- A page is in the list that its count of free objects calls for, and its
freelist runs through the free objects. -/
structure SlabPage (world : World) (cache : CacheRef) (lists : PageLists) (chain : List Nat)
    (base : Nat) : Prop where
  once : ∃! head, base ∈ lists head
  full : base ∈ lists (.fullList, cache) ↔ (world.kernel.slabs.pages base).left = 0
  empty : base ∈ lists (.emptyList, cache) ↔
    (world.kernel.slabs.pages base).left = (world.kernel.slabs.caches cache).max
  partly : base ∈ lists (.partialList, cache) ↔ (world.kernel.slabs.pages base).left ≠ 0 ∧
    (world.kernel.slabs.pages base).left ≠ (world.kernel.slabs.caches cache).max
  threaded : Threads (world.kernel.slabs.pages base).entries (world.kernel.slabs.pages base).free
    chain freelistEnd
  count : chain.length = (world.kernel.slabs.pages base).left
  distinct : chain.Nodup
  unallocated : ∀ i, i ∈ chain ↔
    i < (world.kernel.slabs.caches cache).max ∧ ¬ ObjectLive world cache base i

/-- An object lies in the page `mem_to_cache_page` finds, behind the freelist. -/
structure SlabObject (kernel : Kernel) (cache : CacheRef) (addr : Nat) : Prop where
  page : CachePageOf kernel cache (memToCachePage addr)
  index : ∃ i, i < (kernel.slabs.caches cache).max ∧
    addr = (kernel.slabs.pages (memToCachePage addr)).mem + i * (kernel.slabs.caches cache).size
  behind : memToCachePage addr + sizeofCachePage + 4 * (kernel.slabs.caches cache).max ≤ addr
  inside : addr + (kernel.slabs.caches cache).size ≤ memToCachePage addr + pageSize

structure SlabCache (world : World) (cache : CacheRef) (size : Nat) : Prop where
  parameters : world.kernel.slabs.caches cache =
    { size, max := (pageSize - sizeofCachePage) / (size + 4) }
  pages : ∃ (lists : PageLists) (chain : Nat → List Nat),
    world.kernel.slabs.list.Represents (headsOf (knownCaches world.live)) lists ∧
    (∀ base, CachePageOf world.kernel cache base ↔ Owns lists cache base) ∧
    ∀ base, CachePageOf world.kernel cache base → SlabPage world cache lists (chain base) base
  objects : ∀ a ∈ world.live, a.origin.slab = some cache → SlabObject world.kernel cache a.addr
  apart : world.live.Pairwise (fun a b =>
    a.origin.slab = some cache → b.origin.slab = some cache →
      a.addr + size ≤ b.addr ∨ b.addr + size ≤ a.addr)
  alloc : NoMemory 1 world.kernel (cacheAlloc cache world.kernel) ∨
    ∃ after addr, cacheAlloc cache world.kernel = .ok (after, addr)

section Slab

variable {world : World} {ghost : Ghost} {cache : CacheRef} {base : Nat}

section

variable (sound : world.Sound ghost)
include sound

theorem World.Sound.cachePageOf_iff :
    CachePageOf world.kernel cache base ↔ Owns ghost.lists cache base := by
  constructor
  · intro ⟨q, addr, test, owner⟩
    obtain ⟨other, owns⟩ := sound.flagged q test
    rw [addr] at owns
    have same := (sound.slabs.page_of_owns owns).owner
    rw [owner] at same
    rw [same]
    exact owns
  · intro owns
    obtain ⟨q, _, addr, flags⟩ := sound.resident cache base owns
    refine ⟨q, addr, ?_, (sound.slabs.page_of_owns owns).owner⟩
    rw [flags]
    decide

theorem World.Sound.slot_eq (owns : Owns ghost.lists cache base) (i : Nat) :
    slotAddr (world.kernel.slabs.caches cache) base i =
      (world.kernel.slabs.pages base).mem + i * (world.kernel.slabs.caches cache).size := by
  rw [(sound.slabs.page_of_owns owns).mem]
  rfl

theorem World.Sound.slabPage (owns : Owns ghost.lists cache base) :
    SlabPage world cache ghost.lists (ghost.chain base) base := by
  have page := sound.slabs.page_of_owns owns
  have fits := sound.slabs.fits cache (sound.slabs.known_of_owns owns)
  have mem := sound.slabs.mem_list owns
  have listed : ∀ list, base ∈ ghost.lists (list, cache) ↔
      listFor (ghost.chain base).length (world.kernel.slabs.caches cache).max = list := by
    intro list
    constructor
    · exact fun inside => (sound.slabs.kind list _ base inside).symm
    · intro same
      rw [← same]
      exact mem
  refine ⟨⟨_, mem, fun head inside => sound.slabs.links.separate inside mem⟩, ?_, ?_, ?_,
    page.threaded, page.left.symm, page.distinct, ?_⟩
  · rw [listed, listFor_full, page.left]
  · rw [listed, listFor_empty fits.max, page.left]
  · rw [listed, listFor_partly, page.left]
  · intro i
    constructor
    · intro free
      refine ⟨page.bounded i free, ?_⟩
      intro ⟨a, inLive, _, addr⟩
      apply sound.slot_unused owns free inLive
      rw [addr, sound.slot_eq owns]
    · intro ⟨inRange, unallocated⟩
      by_contra used
      obtain ⟨a, inLive, slab, addr⟩ := sound.used cache base i owns inRange used
      rw [sound.slot_eq owns] at addr
      exact unallocated ⟨a, inLive, slab, addr⟩

theorem World.Sound.slabObject {a : Allocation} (mem : a ∈ world.live)
    (slab : a.origin.slab = some cache) : SlabObject world.kernel cache a.addr := by
  obtain ⟨base, i, owns, inRange, _, addr⟩ := (sound.placed a mem).1 cache slab
  have fits := sound.slabs.fits cache (sound.slabs.known_of_owns owns)
  have page : memToCachePage a.addr = base := by
    rw [addr]
    exact memToCachePage_slot fits (sound.slabs.page_of_owns owns).aligned inRange
  obtain ⟨behind, inside⟩ := slot_inside base fits inRange
  rw [← addr] at behind inside
  rw [← page] at behind inside owns
  refine ⟨sound.cachePageOf_iff.mpr owns, ⟨i, inRange, ?_⟩, behind, inside⟩
  rw [← sound.slot_eq owns, page]
  exact addr

theorem World.Sound.objects_apart {a b : Allocation}
    (memberA : a ∈ world.live) (memberB : b ∈ world.live) (ne : a.addr ≠ b.addr)
    (slabA : a.origin.slab = some cache) (slabB : b.origin.slab = some cache) :
    a.addr + (world.kernel.slabs.caches cache).size ≤ b.addr ∨
      b.addr + (world.kernel.slabs.caches cache).size ≤ a.addr := by
  obtain ⟨baseA, i, ownsA, rangeA, _, addrA⟩ := (sound.placed a memberA).1 cache slabA
  obtain ⟨baseB, j, ownsB, rangeB, _, addrB⟩ := (sound.placed b memberB).1 cache slabB
  have fits := sound.slabs.fits cache (sound.slabs.known_of_owns ownsA)
  rcases lt_trichotomy baseA baseB with below | same | above
  · left
    have upper := (slot_inside baseA fits rangeA).2
    have lower := (slot_inside baseB fits rangeB).1
    obtain ⟨m, pageA⟩ := (sound.slabs.page_of_owns ownsA).aligned
    obtain ⟨n, pageB⟩ := (sound.slabs.page_of_owns ownsB).aligned
    simp only [pageSize] at *
    omega
  · subst same
    rw [addrA, addrB]
    apply slot_disjoint
    intro sameIndex
    exact ne (by rw [addrA, addrB, sameIndex])
  · right
    have upper := (slot_inside baseB fits rangeB).2
    have lower := (slot_inside baseA fits rangeA).1
    obtain ⟨m, pageA⟩ := (sound.slabs.page_of_owns ownsA).aligned
    obtain ⟨n, pageB⟩ := (sound.slabs.page_of_owns ownsB).aligned
    simp only [pageSize] at *
    omega

theorem World.Sound.slabCache {size : Nat} (known : cache ∈ knownCaches world.live)
    (parameters : world.kernel.slabs.caches cache =
      { size, max := (pageSize - sizeofCachePage) / (size + 4) }) : SlabCache world cache size := by
  refine ⟨parameters, ⟨ghost.lists, ghost.chain, sound.slabs.links,
    fun base => sound.cachePageOf_iff, ?_⟩, ?_, ?_, ?_⟩
  · exact fun base isPage => sound.slabPage (sound.cachePageOf_iff.mp isPage)
  · exact fun a mem slab => sound.slabObject mem slab
  · apply sound.distinct.imp_of_mem
    intro a b memberA memberB ne slabA slabB
    have apart := sound.objects_apart memberA memberB ne slabA slabB
    rwa [parameters] at apart
  · rcases cacheAlloc_cases sound known with failed | ⟨after, addr, _, ran, _⟩
    · exact .inl failed
    · exact .inr ⟨after, addr, ran⟩

end

end Slab

theorem slab_cache_invariant {start before world : World} {kernel : Kernel} {size addr : Nat}
    (started : start.Started) (earlier : start.Reaches before) (positive : 1 ≤ size)
    (room : 1 ≤ (pageSize - sizeofCachePage) / (size + 4))
    (created : cacheCreate size before.kernel = .ok (kernel, .created addr))
    (later : World.Reaches ⟨kernel, ⟨addr, sizeofCache, .descriptor⟩ :: before.live⟩ world) :
    SlabCache world (.created addr) size := by
  obtain ⟨ghost, sound⟩ := earlier.sound started
  rcases cacheCreate_cases sound positive room with
    refused | ⟨after, addr', ghost', expected, grown, parameters, _⟩
  · exact absurd created refused.not_ok
  · rw [expected] at created
    cases created
    have fresh : World.Sound ⟨kernel, descriptorAt addr :: before.live⟩ ghost' := grown
    obtain ⟨kept, final, finalSound⟩ := fresh.run later
    obtain ⟨known, same⟩ := kept (.created addr) (Or.inr ⟨_, List.mem_cons_self, rfl, rfl⟩)
    apply finalSound.slabCache known
    rw [same]
    exact parameters.trans (by rw [cacheMax_eq room])

theorem slab_cache_invariant_twoThousand : ∃ world addr, world.live.length = 11 ∧
    SlabCache world (.created addr) 2000 := by
  have outcome : booted.bind (fun kernel => (cacheCreate 2000 kernel).bind fun made =>
      (cacheAlloc made.2 made.1).bind fun taken => .ok (made.2, taken.2)) =
      .ok (.created 3242263352, 3242266664) := rfl
  obtain ⟨kernel, boot, outcome⟩ := bind_returns outcome
  obtain ⟨⟨middle, cache⟩, made, outcome⟩ := bind_returns outcome
  obtain ⟨⟨after, addr⟩, taken, outcome⟩ := bind_returns outcome
  cases outcome
  have count : booted.map (fun kernel => (bootWorld kernel).live.length) = .ok 9 := rfl
  rw [boot] at count
  have length : (bootWorld kernel).live.length = 9 := Except.ok.inj count
  refine ⟨_, _, ?_, slab_cache_invariant (booted_started boot) .refl (by decide) (by decide) made
    (.single (.alloc (Or.inr ⟨_, List.mem_cons_self, rfl, rfl⟩) taken))⟩
  simp [length]

/-- Live allocations are whole, mapped and apart, and the calls on them return. -/
structure KmallocSafe (world : World) : Prop where
  sizes : ∀ a ∈ world.live, a.requested ≤ world.kernel.extent a
  mapped : ∀ a ∈ world.live, ∀ j, j < world.kernel.extent a →
    ∃ phys, virtToPhys (a.addr + j) world.kernel.memory.kmap = .ok phys
  apart : world.live.Pairwise (fun a b =>
    ∀ j k, j < world.kernel.extent a → k < world.kernel.extent b →
      a.addr + j ≠ b.addr + k ∧
        virtToPhys (a.addr + j) world.kernel.memory.kmap ≠
          virtToPhys (b.addr + k) world.kernel.memory.kmap)
  kmalloc : ∀ size, (∃ num, NoMemory num world.kernel (Mm.kmalloc size world.kernel)) ∨
    ∃ after addr, Mm.kmalloc size world.kernel = .ok (after, addr)
  cachePath : ∀ a ∈ world.live, ∀ cache, a.origin = .kmallocCache cache →
    kfreeRoute a.addr world.kernel = .ok .cache
  compoundPath : ∀ a ∈ world.live, ∀ num, a.origin = .kmallocPages num →
    ∃ first, kfreeRoute a.addr world.kernel = .ok (.compound first num)
  kfree : ∀ a ∈ world.live, (∃ cache, a.origin = .kmallocCache cache) ∨
    (∃ num, a.origin = .kmallocPages num) → ∃ after, Mm.kfree a.addr world.kernel = .ok after
  null : Mm.kfree 0 world.kernel = .ok world.kernel

theorem World.Sound.kmallocSafe {world : World} {ghost : Ghost} (sound : world.Sound ghost) :
    KmallocSafe world := by
  refine ⟨sound.requested, fun a mem j inside => sound.backed mem inside, ?_, ?_, ?_, ?_, ?_,
    rfl⟩
  · apply sound.distinct.imp_of_mem
    intro a b memberA memberB ne j k insideA insideB
    have apart := sound.apart memberA memberB insideA insideB ne
    exact ⟨fun same => apart (by rw [same]), apart⟩
  · intro size
    by_cases small : size ≤ kallocCacheMax
    · obtain ⟨i, cache, _, _, outcome⟩ := kmalloc_small sound small
      rcases outcome with failed | ⟨after, addr, _, ran, _⟩
      · exact .inl ⟨1, failed⟩
      · exact .inr ⟨after, addr, ran⟩
    · rcases kmalloc_large sound small with failed | ⟨after, addr, _, ran, _⟩
      · exact .inl ⟨_, failed⟩
      · exact .inr ⟨after, addr, ran⟩
  · intro a mem cache origin
    have slab : a.origin.slab = some cache := by rw [origin]; rfl
    exact sound.kfreeRoute_slab mem slab
  · intro a mem num origin
    obtain ⟨first, _, _, _, route⟩ := sound.kfreeRoute_pages mem origin
    exact ⟨first, route⟩
  · intro a mem _
    obtain ⟨after, _, ran, _⟩ := sound.kfree_exists mem
    exact ⟨after, ran⟩

theorem kmalloc_kfree_safe {start world : World} (started : start.Started)
    (path : start.Reaches world) : KmallocSafe world := by
  obtain ⟨_, sound⟩ := path.sound started
  exact sound.kmallocSafe

theorem kmalloc_kfree_safe_recycled : ∃ start world : World, start.Started ∧ start.Reaches world ∧
    (world.live.map Allocation.requested).head? = some 100 ∧ KmallocSafe world := by
  have outcome : booted.bind (fun kernel => (kmalloc 3000 kernel).bind fun taken =>
      (kfree taken.2 taken.1).bind fun freed => (kmalloc 100 freed).bind fun again =>
        .ok (taken.2, again.2, freed.slabs.kallocCache 4)) =
      .ok (3242266624, 3242270872, some (.created 3242263052)) := rfl
  obtain ⟨kernel, boot, outcome⟩ := bind_returns outcome
  obtain ⟨⟨middle, addr⟩, taken, outcome⟩ := bind_returns outcome
  obtain ⟨freed, given, outcome⟩ := bind_returns outcome
  obtain ⟨⟨after, addr'⟩, again, outcome⟩ := bind_returns outcome
  simp only [Except.ok.injEq, Prod.mk.injEq] at outcome
  obtain ⟨_, _, found⟩ := outcome
  have first : World.Step (bootWorld kernel) ⟨middle, ⟨addr, 3000, .kmallocPages 1⟩ :: (bootWorld kernel).live⟩ :=
    .kmallocPages (by decide) taken
  have second : World.Step ⟨middle, ⟨addr, 3000, .kmallocPages 1⟩ :: (bootWorld kernel).live⟩ _ :=
    .kfree List.mem_cons_self (Or.inr ⟨1, rfl⟩) given
  have path := ((Relation.ReflTransGen.single first).tail second).tail
    (.kmallocCache (by decide) (show kallocCacheIndex 100 = .ok 4 from rfl) found again)
  exact ⟨_, _, booted_started boot, path, rfl, kmalloc_kfree_safe (booted_started boot) path⟩

end KOs.Mm

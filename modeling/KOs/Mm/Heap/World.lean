import KOs.Mm.Kmalloc
import KOs.Mm.Slab.Lists
import KOs.Mm.Window

namespace KOs.Mm

open KOs.Arch KOs.Common KOs.Data

/-! The kernel heap in use: objects of caches and results of `kmalloc`, handed out
and given back in any order.

The live allocations are remembered beside the kernel; `Ghost` has the runs of
frames that are held, the pages of each cache, and the free objects of each page.
-/

/-- Where a live allocation came from. -/
inductive Origin where
  | object (cache : CacheRef)
  | descriptor
  | kmallocCache (cache : CacheRef)
  | kmallocPages (num : Nat)
deriving DecidableEq, Repr

def Origin.slab : Origin → Option CacheRef
  | .object cache => some cache
  | .descriptor => some .metaCache
  | .kmallocCache cache => some cache
  | .kmallocPages _ => none

structure Allocation where
  addr : Nat
  requested : Nat
  origin : Origin
deriving DecidableEq, Repr

def Kernel.extent (kernel : Kernel) (a : Allocation) : Nat :=
  match a.origin with
  | .object cache => (kernel.slabs.caches cache).size
  | .descriptor => (kernel.slabs.caches .metaCache).size
  | .kmallocCache cache => (kernel.slabs.caches cache).size
  | .kmallocPages num => num * pageSize

def Kernel.withFrames (kernel : Kernel) (frames : Frames) : Kernel :=
  { kernel with memory := { kernel.memory with frames } }

structure World where
  kernel : Kernel
  live : List Allocation

/-- The caches that exist: the static one and those with a live descriptor. -/
def knownCaches (live : List Allocation) : Set CacheRef :=
  {cache | cache = .metaCache ∨ ∃ a ∈ live, a.origin = .descriptor ∧ cache = .created a.addr}

inductive World.Step : World → World → Prop
  | claim {world : World} {index : Nat} {frames : Frames} (range : index < pageCount)
      (permanent : (world.kernel.memory.frames.pages index).flags &&& pageFlagPerm ≠ 0)
      (ran : claimPage index world.kernel.memory.frames = .ok frames) :
      Step world { world with kernel := world.kernel.withFrames frames }
  | create {world : World} {size addr : Nat} {kernel : Kernel} (positive : 1 ≤ size)
      (room : 1 ≤ (pageSize - sizeofCachePage) / (size + 4))
      (ran : cacheCreate size world.kernel = .ok (kernel, .created addr)) :
      Step world { kernel, live := ⟨addr, sizeofCache, .descriptor⟩ :: world.live }
  | alloc {world : World} {cache : CacheRef} {kernel : Kernel} {addr : Nat}
      (known : cache ∈ knownCaches world.live)
      (ran : cacheAlloc cache world.kernel = .ok (kernel, addr)) :
      Step world { kernel, live :=
        ⟨addr, (world.kernel.slabs.caches cache).size, .object cache⟩ :: world.live }
  | free {world : World} {cache : CacheRef} {a : Allocation} (member : a ∈ world.live)
      (origin : a.origin = .object cache) :
      Step world {
        kernel := { world.kernel with slabs := cacheFree cache a.addr world.kernel.slabs }
        live := world.live.erase a }
  | kmallocCache {world : World} {size i addr : Nat} {cache : CacheRef} {kernel : Kernel}
      (small : size ≤ kallocCacheMax) (index : kallocCacheIndex size = .ok i)
      (found : world.kernel.slabs.kallocCache i = some cache)
      (ran : kmalloc size world.kernel = .ok (kernel, addr)) :
      Step world { kernel, live := ⟨addr, size, .kmallocCache cache⟩ :: world.live }
  | kmallocPages {world : World} {size addr : Nat} {kernel : Kernel} (large : ¬ size ≤ kallocCacheMax)
      (ran : kmalloc size world.kernel = .ok (kernel, addr)) :
      Step world { kernel, live :=
        ⟨addr, size, .kmallocPages (divUp size pageSize)⟩ :: world.live }
  | kfree {world : World} {a : Allocation} {kernel : Kernel} (member : a ∈ world.live)
      (origin : (∃ cache, a.origin = .kmallocCache cache) ∨ ∃ num, a.origin = .kmallocPages num)
      (ran : Mm.kfree a.addr world.kernel = .ok kernel) :
      Step world { kernel, live := world.live.erase a }
  | kfreeNull {world : World} {kernel : Kernel} (ran : Mm.kfree 0 world.kernel = .ok kernel) :
      Step world { world with kernel }

def World.Reaches : World → World → Prop := Relation.ReflTransGen World.Step

/-- The descriptors of the first `count` caches of `kalloc_cache`. -/
def kallocDescriptors (slabs : Slabs) : Nat → List Allocation
  | 0 => []
  | count + 1 =>
      match slabs.kallocCache count with
      | some (.created addr) =>
          ⟨addr, sizeofCache, .descriptor⟩ :: kallocDescriptors slabs count
      | _ => kallocDescriptors slabs count

/-- The kernel after `mm_init`, with any frames claimed, and `cache_init`. -/
inductive World.Started : World → Prop
  | intro {list : Links (Nat ⊕ Nat)} {kernelEnd mallocStart : Nat} {tables : Nat → Nat → PtabEntry}
      {kmap : Kmap} {pages : Nat → CachePage} {caches : CacheRef → Cache}
      {cells : Links ((CacheList × CacheRef) ⊕ Nat)} {frames : Frames} {kernel : Kernel}
      (mmu : mmuInit kernelEnd mallocStart tables = .ok kmap)
      (claims : Claims (mmInit list) frames)
      (ran : cacheInit ⟨⟨frames, kmap⟩, bootSlabs pages caches cells⟩ = .ok kernel) :
      Started { kernel, live := kallocDescriptors kernel.slabs kallocNumCaches }

structure Ghost where
  runs : List (Nat × Nat)
  lists : PageLists
  chain : Nat → List Nat

def InSlab (kernel : Kernel) (ghost : Ghost) (cache : CacheRef) (a : Allocation) : Prop :=
  ∃ base i, Owns ghost.lists cache base ∧ i < (kernel.slabs.caches cache).max ∧
    i ∉ ghost.chain base ∧ a.addr = slotAddr (kernel.slabs.caches cache) base i

def InRun (kernel : Kernel) (ghost : Ghost) (num : Nat) (a : Allocation) : Prop :=
  ∃ p, (p, num) ∈ ghost.runs ∧ a.addr = (kernel.memory.frames.pages p).addr ∧
    (kernel.memory.frames.pages p).compoundNum = num ∧
    ∀ q ∈ run p num, (kernel.memory.frames.pages q).flags = pageFlagUsed

def Placed (kernel : Kernel) (ghost : Ghost) (a : Allocation) : Prop :=
  (∀ cache, a.origin.slab = some cache → InSlab kernel ghost cache a) ∧
    ∀ num, a.origin = .kmallocPages num → InRun kernel ghost num a

/-- `ready` of the caches of `kalloc_cache` exist. -/
structure HeapSound (kernel : Kernel) (live : List Allocation) (known : Set CacheRef) (ready : Nat)
    (ghost : Ghost) : Prop where
  session : Session.Sound ⟨kernel.memory, ghost.runs⟩
  mapped : Mapped kernel.memory ghost.runs
  slabs : SlabsSound kernel.slabs known ghost.lists ghost.chain
  resident : ∀ cache base, Owns ghost.lists cache base →
    ∃ q, (q, 1) ∈ ghost.runs ∧ (kernel.memory.frames.pages q).addr = base ∧
      (kernel.memory.frames.pages q).flags = pageFlagUsed ||| pageFlagCache
  flagged : ∀ q, (kernel.memory.frames.pages q).flags &&& pageFlagCache ≠ 0 →
    ∃ cache, Owns ghost.lists cache (kernel.memory.frames.pages q).addr
  placed : ∀ a ∈ live, Placed kernel ghost a
  used : ∀ cache base i, Owns ghost.lists cache base → i < (kernel.slabs.caches cache).max →
    i ∉ ghost.chain base →
    ∃ a ∈ live, a.origin.slab = some cache ∧ a.addr = slotAddr (kernel.slabs.caches cache) base i
  requested : ∀ a ∈ live, a.requested ≤ kernel.extent a
  distinct : live.Pairwise (fun a b => a.addr ≠ b.addr)
  kalloc : ∀ i, i < ready → ∃ cache ∈ known, kernel.slabs.kallocCache i = some cache ∧
    (kernel.slabs.caches cache).size = 2 ^ (i + kallocCacheShiftMin)
  metaSize : (kernel.slabs.caches .metaCache).size = sizeofCache

def World.Sound (world : World) (ghost : Ghost) : Prop :=
  HeapSound world.kernel world.live (knownCaches world.live) kallocNumCaches ghost

end KOs.Mm

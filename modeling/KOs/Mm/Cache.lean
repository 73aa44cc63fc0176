import KOs.Mm.Pages

namespace KOs.Mm

open KOs.Arch KOs.Common KOs.Data

/-! The slab allocator of `mm/cache.c`.

A `cache_page_t` lies at the start of its page and is named by that address; `freelist`
follows it.  A `cache_t *` is the static `meta_cache` or the address of an object of it.
The debug search of `cache_free` is not compiled in; the list `caches`, the flags and the
locks of a cache are left out.
-/

def freelistEnd : Nat := 2 ^ 31

def sizeofCachePage : Nat := 32
def sizeofCache : Nat := 60

inductive CacheRef where
  | metaCache
  | created (addr : Nat)
deriving DecidableEq, Repr

inductive CacheList where
  | fullList
  | partialList
  | emptyList
deriving DecidableEq, Repr

structure CachePage where
  cache : CacheRef
  left : Nat
  free : Nat
  freelist : Nat
  entries : Nat → Nat
  mem : Nat
  page : Nat

structure Cache where
  size : Nat
  max : Nat
deriving DecidableEq, Repr

structure Slabs where
  pages : Nat → CachePage
  caches : CacheRef → Cache
  list : Links ((CacheList × CacheRef) ⊕ Nat)
  kallocCache : Nat → Option CacheRef

structure Kernel where
  memory : Memory
  slabs : Slabs

def Slabs.setPage (slabs : Slabs) (addr : Nat) (page : CachePage) : Slabs :=
  { slabs with pages := fun other => if other = addr then page else slabs.pages other }

def Slabs.listAdd (slabs : Slabs) (page : Nat) (list : CacheList) (cache : CacheRef) : Slabs :=
  { slabs with list := Common.listAdd (.inr page) (.inl (list, cache)) slabs.list }

def Slabs.listRm (slabs : Slabs) (page : Nat) : Slabs :=
  { slabs with list := Common.listRm (.inr page) slabs.list }

def Slabs.listEmpty (slabs : Slabs) (list : CacheList) (cache : CacheRef) : Bool :=
  Common.listEmpty slabs.list (.inl (list, cache))

def Slabs.listFirst (slabs : Slabs) (list : CacheList) (cache : CacheRef) : Except Fault Nat :=
  match Common.listFirst slabs.list (.inl (list, cache)) with
  | .inl _ => .error .strayEntry
  | .inr page => .ok page

/-- The `freelist` of a new page: successors, and the end mark in the last place. -/
def freshEntries (left : Nat) (old : Nat → Nat) : Nat → Nat :=
  fun i => if i = left - 1 then freelistEnd else if i < left then i + 1 else old i

/-- What `cache_alloc_page` does with its new page. -/
def initCachePage (cache : CacheRef) (cachePage page : Nat) (slabs : Slabs) : Except Fault Slabs := do
  let slabs := slabs.setPage cachePage
    { slabs.pages cachePage with cache, page, left := (slabs.caches cache).max }
  let slabs := slabs.listAdd cachePage .emptyList cache
  let left := (slabs.pages cachePage).left
  bugOn (left == 0) "src/mm/cache.c" 60
  let freelist := (cachePage + sizeofCachePage) % 2 ^ 32
  return slabs.setPage cachePage
    { slabs.pages cachePage with
      free := 0
      freelist
      entries := freshEntries left (slabs.pages cachePage).entries
      mem := (freelist + 4 * left) % 2 ^ 32 }

def cacheAllocPage (cache : CacheRef) (kernel : Kernel) : Except Fault Kernel := do
  let (memory, page) ← allocPage allocCache kernel.memory
  let slabs ← initCachePage cache (pageToVirt page memory) page kernel.slabs
  return { memory, slabs }

def cacheDoAlloc (cachePage : Nat) (slabs : Slabs) : Except Fault Slabs := do
  let page := slabs.pages cachePage
  bugOn (page.free == freelistEnd) "src/mm/cache.c" 75
  return slabs.setPage cachePage
    { page with left := (page.left + 2 ^ 32 - 1) % 2 ^ 32, free := page.entries page.free }

def cacheDoFree (cachePage freeIdx : Nat) (slabs : Slabs) : Slabs :=
  let page := slabs.pages cachePage
  slabs.setPage cachePage
    { page with
      left := (page.left + 1) % 2 ^ 32
      entries := fun i => if i = freeIdx then page.free else page.entries i
      free := freeIdx }

/-- `((uint8_t *) page->mem) + (page->free * cache->size)` -/
def nextObject (cache : CacheRef) (cachePage : Nat) (slabs : Slabs) : Nat :=
  ((slabs.pages cachePage).mem + (slabs.pages cachePage).free * (slabs.caches cache).size) % 2 ^ 32

/-- `cache_alloc` once a page with room is listed. -/
def cacheTake (cache : CacheRef) (slabs : Slabs) : Except Fault (Slabs × Nat) :=
  if !slabs.listEmpty .partialList cache then do
    let page ← slabs.listFirst .partialList cache
    let alloced := nextObject cache page slabs
    let slabs ← cacheDoAlloc page slabs
    let slabs :=
      if (slabs.pages page).left = 0 then (slabs.listRm page).listAdd page .fullList cache
      else slabs
    return (slabs, alloced)
  else if !slabs.listEmpty .emptyList cache then do
    let page ← slabs.listFirst .emptyList cache
    let alloced := nextObject cache page slabs
    let slabs ← cacheDoAlloc page slabs
    let slabs := slabs.listRm page
    let slabs :=
      if (slabs.pages page).left = 0 then slabs.listAdd page .fullList cache
      else slabs.listAdd page .partialList cache
    return (slabs, alloced)
  else .error (.panicf "cache_alloc_page() failed to alloc a new page" [])

def cacheAlloc (cache : CacheRef) (kernel : Kernel) : Except Fault (Kernel × Nat) := do
  let kernel ←
    if kernel.slabs.listEmpty .partialList cache && kernel.slabs.listEmpty .emptyList cache then
      cacheAllocPage cache kernel
    else pure kernel
  let (slabs, alloced) ← cacheTake cache kernel.slabs
  return ({ kernel with slabs }, alloced)

def memToCachePage (mem : Nat) : Nat := mem / pageSize * pageSize

def cacheFree (cache : CacheRef) (mem : Nat) (slabs : Slabs) : Slabs :=
  let target := memToCachePage mem
  let moved :=
    if (slabs.pages target).left + 1 = (slabs.caches cache).max then
      (slabs.listRm target).listAdd target .emptyList cache
    else if (slabs.pages target).left = 0 then
      (slabs.listRm target).listAdd target .partialList cache
    else slabs
  cacheDoFree target
    ((mem + 2 ^ 32 - (moved.pages target).mem) % 2 ^ 32 / (slabs.caches cache).size) moved

def cacheMax (size : Nat) : Nat := (pageSize - sizeofCachePage) / ((size + 4) % 2 ^ 32)

def cacheCreate (size : Nat) (kernel : Kernel) : Except Fault (Kernel × CacheRef) := do
  let (kernel, addr) ← cacheAlloc .metaCache kernel
  let new := CacheRef.created addr
  let slabs := kernel.slabs
  let list :=
    listInit (.inl (.fullList, new))
      (listInit (.inl (.partialList, new)) (listInit (.inl (.emptyList, new)) slabs.list))
  let caches := fun other =>
    if other = new then { size, max := cacheMax size } else slabs.caches other
  return ({ kernel with slabs := { slabs with caches, list } }, new)

def kallocCacheShiftMin : Nat := 3
def kallocCacheShiftMax : Nat := 11
def kallocCacheMax : Nat := 2 ^ kallocCacheShiftMax
def kallocNumCaches : Nat := kallocCacheShiftMax - kallocCacheShiftMin + 1

def kallocCacheIndex (size : Nat) : Except Fault Nat :=
  match (List.range' kallocCacheShiftMin kallocNumCaches).find? (fun i => size ≤ 2 ^ i) with
  | some i => .ok (i - kallocCacheShiftMin)
  | none => .error (.bug "src/mm/cache.c" 196)

def kallocCacheAt (i : Nat) (slabs : Slabs) : Except Fault CacheRef :=
  match slabs.kallocCache i with
  | some cache => .ok cache
  | none => .error .strayEntry

def kallocCacheAlloc (size : Nat) (kernel : Kernel) : Except Fault (Kernel × Nat) :=
  if size > kallocCacheMax then .error (.panicf "cache_alloc() request too large: %u" [size])
  else do
    let i ← kallocCacheIndex size
    let cache ← kallocCacheAt i kernel.slabs
    cacheAlloc cache kernel

def kallocCacheFree (mem : Nat) (slabs : Slabs) : Slabs :=
  cacheFree (slabs.pages (memToCachePage mem)).cache mem slabs

/-- One turn of the loop of `cache_init`. -/
def cacheInitOne (i : Nat) (kernel : Kernel) : Except Fault Kernel := do
  let (kernel, cache) ← cacheCreate (1 <<< (i + kallocCacheShiftMin)) kernel
  let kallocCache := fun other => if other = i then some cache else kernel.slabs.kallocCache other
  return { kernel with slabs := { kernel.slabs with kallocCache } }

def cacheInit (kernel : Kernel) : Except Fault Kernel :=
  forLoop cacheInitOne kallocNumCaches kernel

/-- The data segment: `meta_cache` as its initialiser leaves it, `kalloc_cache`
zero, and anything at all in the memory that pages and caches will take. -/
def bootSlabs (pages : Nat → CachePage) (caches : CacheRef → Cache)
    (list : Links ((CacheList × CacheRef) ⊕ Nat)) : Slabs where
  pages := pages
  caches cache :=
    if cache = .metaCache then
      { size := sizeofCache, max := (pageSize - sizeofCachePage) / (sizeofCache + 4) }
    else caches cache
  list :=
    listInit (.inl (.fullList, .metaCache))
      (listInit (.inl (.partialList, .metaCache)) (listInit (.inl (.emptyList, .metaCache)) list))
  kallocCache _ := none

end KOs.Mm

import KOs.Mm.Heap.Steps

namespace KOs.Mm

open KOs.Arch KOs.Common KOs.Data List

/-- The allocation `cache_create` makes for itself. -/
def descriptorAt (addr : Nat) : Allocation := ⟨addr, sizeofCache, .descriptor⟩

theorem knownCaches_descriptor (addr : Nat) (live : List Allocation) :
    knownCaches (descriptorAt addr :: live) = insert (.created addr) (knownCaches live) := by
  ext _
  simp only [knownCaches, descriptorAt, Set.mem_insert_iff, Set.mem_ofPred_eq, mem_cons,
    exists_eq_or_imp, true_and]
  tauto

theorem knownCaches_cons {a : Allocation} (other : a.origin ≠ .descriptor) (live : List Allocation) :
    knownCaches (a :: live) = knownCaches live := by
  simp [knownCaches, other]

theorem knownCaches_erase {a : Allocation} {live : List Allocation} (member : a ∈ live)
    (other : a.origin ≠ .descriptor) : knownCaches (live.erase a) = knownCaches live := by
  rw [← knownCaches_cons other _]
  simp [knownCaches, (perm_cons_erase member).mem_iff]

variable {cache : CacheRef} {size : Nat}
variable {kernel : Kernel} {live : List Allocation} {ready : Nat} {ghost : Ghost} {known : Set CacheRef}

section Create

variable {new : CacheRef}

theorem HeapSound.created_unknown {addr : Nat}
    (sound : HeapSound kernel (descriptorAt addr :: live) known ready ghost) :
    CacheRef.created addr ∉ knownCaches live := by
  intro member
  rcases member with same | ⟨a, older, _, same⟩
  · cases same
  · cases same
    exact (pairwise_cons.mp sound.distinct).1 a older rfl

/-- What `cache_create` writes once it has its descriptor. -/
def Kernel.withCache (kernel : Kernel) (new : CacheRef) (cache : Cache) : Kernel :=
  { kernel with
    slabs :=
      { kernel.slabs with
        caches := fun other => if other = new then cache else kernel.slabs.caches other
        list := listInit (.inl (.fullList, new))
          (listInit (.inl (.partialList, new))
            (listInit (.inl (.emptyList, new)) kernel.slabs.list)) } }

theorem Kernel.withCache_other {descriptor : Cache} (ne : cache ≠ new) :
    (kernel.withCache new descriptor).slabs.caches cache = kernel.slabs.caches cache :=
  if_neg ne

theorem HeapSound.withCache {cache : Cache}
    (sound : HeapSound kernel live known ready ghost) (unknown : new ∉ known) (fits : cache.Fits)
    (isMeta : CacheRef.metaCache ∈ known) :
    HeapSound (kernel.withCache new cache) live (insert new known) ready ghost := by
  have old : ∀ other ∈ known, (kernel.withCache new cache).slabs.caches other = kernel.slabs.caches other :=
    fun other member => Kernel.withCache_other fun same => unknown (same ▸ member)
  have owned : ∀ other base, Owns ghost.lists other base →
      (kernel.withCache new _).slabs.caches _ = kernel.slabs.caches _ :=
    fun other base owns => old other (sound.slabs.known_of_owns owns)
  refine ⟨sound.session, sound.mapped, cacheInitialised sound.slabs unknown fits, sound.resident,
    sound.flagged, ?_, ?_, ?_, sound.distinct, ?_, (old _ isMeta).symm ▸ sound.metaSize⟩
  · intro a member
    refine ⟨?_, (sound.placed a member).2⟩
    intro other slab
    obtain ⟨base, i, owns, inRange, used, addr⟩ := (sound.placed a member).1 other slab
    rw [← owned _ base owns] at inRange addr
    exact ⟨base, i, owns, inRange, used, addr⟩
  · intro other base i owns inRange used
    rw [owned _ base owns] at inRange ⊢
    exact sound.used _ base i owns inRange used
  · intro a member
    have before := sound.requested a member
    rcases a.origin.slab_or_pages with ⟨other, slab⟩ | ⟨num, pages⟩
    · obtain ⟨base, i, owns, _⟩ := (sound.placed a member).1 _ slab
      rw [Kernel.extent_slab slab] at before ⊢
      rwa [owned _ base owns]
    · rwa [Kernel.extent_pages pages] at before ⊢
  · intro i below
    obtain ⟨other, member, found, size⟩ := sound.kalloc i below
    refine ⟨other, Set.mem_insert_of_mem _ member, found, ?_⟩
    rw [old _ member]
    exact size

theorem cacheCreate_cases (sound : HeapSound kernel live (knownCaches live) ready ghost) (pos : 1 ≤ size)
    (room : 1 ≤ (pageSize - sizeofCachePage) / (size + 4)) :
    NoMemory 1 kernel (cacheCreate size kernel) ∨
      ∃ after addr ghost', cacheCreate size kernel = .ok (after, .created addr) ∧
        HeapSound after (descriptorAt addr :: live) (knownCaches (descriptorAt addr :: live)) ready ghost' ∧
        after.slabs.caches (.created addr) = { size, max := cacheMax size } ∧
        (∀ cache ∈ knownCaches live, after.slabs.caches cache = kernel.slabs.caches cache) ∧
        after.slabs.kallocCache = kernel.slabs.kallocCache := by
  have isMeta : CacheRef.metaCache ∈ knownCaches live := .inl rfl
  rcases cacheAlloc_cases sound isMeta with
    refused | ⟨middle, addr, ghost', ran, caches, kallocCache, result⟩
  · exact .inl (refused.bind _)
  · right
    have described := result (descriptorAt addr) rfl rfl (sound.metaSize.symm.le)
    have grown := described.withCache described.created_unknown (cacheMax_fits pos room) isMeta
    rw [← knownCaches_descriptor] at grown
    refine ⟨middle.withCache (.created addr) { size, max := cacheMax size }, addr, ghost', ?_, grown,
      if_pos rfl, ?_, kallocCache⟩
    · rw [cacheCreate, ran]
      rfl
    · intro cache older
      have ne : cache ≠ .created addr := fun same => described.created_unknown (same ▸ older)
      rw [Kernel.withCache_other ne, caches]

end Create

variable {a : Allocation}

theorem HeapSound.slab_frame (sound : HeapSound kernel live known ready ghost) (member : a ∈ live)
    (slab : a.origin.slab = some cache) :
    a.addr ≠ 0 ∧ (kernel.slabs.pages (memToCachePage a.addr)).cache = cache ∧
      ∃ q, virtToPage a.addr kernel.memory.kmap = .ok q ∧
        (kernel.memory.frames.pages q).flags = pageFlagUsed ||| pageFlagCache := by
  obtain ⟨base, i, owns, inRange, _, addr⟩ := (sound.placed a member).1 cache slab
  obtain ⟨q, w, _, _, flags, below, place, frame⟩ := sound.page_window owns
  have fits := sound.slabs.fits cache (sound.slabs.known_of_owns owns)
  have page := sound.slabs.page_of_owns owns
  obtain ⟨lower, upper⟩ := slot_inside base fits inRange
  have pos := fits.size
  have room := sound.mapped.room
  have split : a.addr = windowAddr w + (a.addr - base) := by omega
  refine ⟨?_, ?_, q, ?_, flags⟩
  · simp only [windowAddr, virtualBase] at split
    omega
  · rw [addr, memToCachePage_slot fits page.aligned inRange]
    exact page.owner
  · rw [split, virtToPage_window (by omega) (by omega), frame]

theorem HeapSound.run_frame {num : Nat} (sound : HeapSound kernel live known ready ghost)
    (member : a ∈ live) (origin : a.origin = .kmallocPages num) :
    a.addr ≠ 0 ∧ num ≠ 0 ∧ ∃ p, virtToPage a.addr kernel.memory.kmap = .ok p ∧
      (p, num) ∈ ghost.runs ∧ a.addr = (kernel.memory.frames.pages p).addr ∧
      (kernel.memory.frames.pages p).compoundNum = num ∧
      ∀ q ∈ run p num, (kernel.memory.frames.pages q).flags = pageFlagUsed := by
  obtain ⟨p, inRuns, addr, compound, flags⟩ := (sound.placed a member).2 num origin
  have nonempty : num ≠ 0 := sound.run_nonempty inRuns
  have pos : 0 < num := nonempty.bot_lt
  have mapped : RunMapped kernel.memory p num := sound.mapped.mapped (p, num) inRuns
  have found := mapped.virtToPage sound.mapped.room pos (show 0 < pageSize by decide)
  obtain ⟨w, _, each⟩ := mapped
  obtain ⟨place, _⟩ := each 0 pos
  refine ⟨?_, nonempty, p, ?_, inRuns, addr, compound, flags⟩
  · rw [addr]
    simp only [add_zero, windowAddr, virtualBase] at place
    omega
  · rw [addr]
    exact found

theorem kallocCacheIndex_exists (small : size ≤ kallocCacheMax) :
    ∃ i, kallocCacheIndex size = .ok i ∧ i < kallocNumCaches ∧ size ≤ 2 ^ (i + kallocCacheShiftMin) := by
  rw [kallocCacheIndex]
  cases found : (range' kallocCacheShiftMin kallocNumCaches).find? (fun i => decide (size ≤ 2 ^ i)) with
  | none =>
    have last : kallocCacheShiftMax ∈ range' kallocCacheShiftMin kallocNumCaches := by decide
    have missed := find?_eq_none.mp found kallocCacheShiftMax last
    exact absurd (decide_eq_true small) missed
  | some i =>
    have searched := mem_range'_1.mp (mem_of_find?_eq_some found)
    have enough := find?_some found
    simp only [decide_eq_true_eq] at enough
    refine ⟨i - kallocCacheShiftMin, rfl, by omega, ?_⟩
    rw [Nat.sub_add_cancel searched.1]
    exact enough

theorem kallocCacheAlloc_eq {i : Nat} (small : size ≤ kallocCacheMax) (index : kallocCacheIndex size = .ok i)
    (found : kernel.slabs.kallocCache i = some cache) :
    kallocCacheAlloc size kernel = cacheAlloc cache kernel := by
  rw [kallocCacheAlloc, if_neg (Nat.not_lt_of_le small), index]
  show (kallocCacheAt i kernel.slabs >>= fun cache => cacheAlloc cache kernel) = _
  rw [kallocCacheAt, found]
  rfl

theorem kmalloc_small (sound : HeapSound kernel live known kallocNumCaches ghost) (small : size ≤ kallocCacheMax) :
    ∃ i cache, kallocCacheIndex size = .ok i ∧ kernel.slabs.kallocCache i = some cache ∧
      (NoMemory 1 kernel (kmalloc size kernel) ∨ ∃ after addr ghost', kmalloc size kernel = .ok (after, addr) ∧
          after.slabs.caches = kernel.slabs.caches ∧
          HeapSound after (⟨addr, size, .kmallocCache cache⟩ :: live) known kallocNumCaches ghost') := by
  obtain ⟨i, index, below, enough⟩ := kallocCacheIndex_exists small
  obtain ⟨cache, inside, found, cacheSize⟩ := sound.kalloc i below
  refine ⟨i, cache, index, found, ?_⟩
  rw [kmalloc, if_pos small, kallocCacheAlloc_eq small index found]
  rcases cacheAlloc_cases sound inside with
    refused | ⟨after, addr, ghost', ran, caches, _, result⟩
  · exact .inl (refused.bind _)
  · right
    have taken := result ⟨addr, size, .kmallocCache cache⟩ rfl rfl (by rw [cacheSize]; exact enough)
    obtain ⟨_, _, q, page, flags⟩ := taken.slab_frame mem_cons_self rfl
    refine ⟨after, addr, ghost', ?_, caches, taken⟩
    have marked : ((pageFlagUsed ||| pageFlagCache) &&& pageFlagCache == 0) = false := by decide
    simp only [ran, page, flags, marked, bugOn_false, ok_bind]
    rfl

theorem le_divUp_mul (size : Nat) : size ≤ divUp size pageSize * pageSize := by
  simp only [divUp, pageSize]
  split <;> omega

theorem kmalloc_large (sound : HeapSound kernel live known ready ghost) (large : ¬ size ≤ kallocCacheMax) :
    NoMemory (divUp size pageSize) kernel (kmalloc size kernel) ∨
      ∃ after addr ghost', kmalloc size kernel = .ok (after, addr) ∧ after.slabs.caches = kernel.slabs.caches ∧
        HeapSound after (⟨addr, size, .kmallocPages (divUp size pageSize)⟩ :: live) known ready ghost' := by
  have enough := le_divUp_mul size
  have pos : divUp size pageSize ≠ 0 := by
    intro none
    rw [none, zero_mul] at enough
    exact large (enough.trans (Nat.zero_le _))
  rw [kmalloc, if_neg large]
  rcases sound.allocPages_cases allocCompound pos with refused | ⟨memory, p, ran, done⟩
  · exact .inl (refused.bind _)
  · right
    refine ⟨{ kernel with memory }, (memory.frames.pages p).addr, _, ?_, rfl,
      sound.takeRun pos done.allocated.bounded enough done⟩
    rw [ran]
    rfl

section

variable (sound : HeapSound kernel live known ready ghost) (member : a ∈ live)
include sound member

theorem HeapSound.kfreeRoute_slab (slab : a.origin.slab = some cache) :
    kfreeRoute a.addr kernel = .ok .cache := by
  obtain ⟨nonzero, _, q, page, flags⟩ := sound.slab_frame member slab
  have marked : (pageFlagUsed ||| pageFlagCache) &&& pageFlagCache != 0 := by decide
  simp only [kfreeRoute, if_neg nonzero, page, flags, marked, ok_bind]
  rfl

theorem HeapSound.kfreeRoute_pages {num : Nat} (origin : a.origin = .kmallocPages num) :
    ∃ p, (p, num) ∈ ghost.runs ∧ a.addr = (kernel.memory.frames.pages p).addr ∧
      (∀ q ∈ run p num, (kernel.memory.frames.pages q).flags = pageFlagUsed) ∧
      kfreeRoute a.addr kernel = .ok (.compound p num) := by
  obtain ⟨nonzero, nonempty, p, page, inRuns, addr, compound, flags⟩ := sound.run_frame member origin
  refine ⟨p, inRuns, addr, flags, ?_⟩
  have plain : (pageFlagUsed &&& pageFlagCache != 0) = false := by decide
  have counted : (num == 0) = false := beq_eq_false_iff_ne.mpr nonempty
  have first := flags p ⟨Nat.le_refl p, by omega⟩
  simp only [kfreeRoute, if_neg nonzero, page, first, plain, compound, counted, bugOn_false, ok_bind]
  rfl

theorem HeapSound.kfree_slab (slab : a.origin.slab = some cache) :
    kfree a.addr kernel = .ok { kernel with slabs := cacheFree cache a.addr kernel.slabs } := by
  obtain ⟨_, owner, _⟩ := sound.slab_frame member slab
  rw [kfree, sound.kfreeRoute_slab member slab]
  show Except.ok { kernel with slabs := kallocCacheFree a.addr kernel.slabs } = _
  rw [kallocCacheFree, owner]

theorem HeapSound.kfree_pages {num : Nat} (origin : a.origin = .kmallocPages num) :
    ∃ p frames, kfree a.addr kernel = .ok (kernel.withFrames frames) ∧
      HeapSound (kernel.withFrames frames) (live.erase a) known ready
        { ghost with runs := ghost.runs.erase (p, num) } := by
  obtain ⟨p, inRuns, addr, flags, route⟩ := sound.kfreeRoute_pages member origin
  obtain ⟨frames, ran, freed⟩ := sound.session.freePages_exists inRuns
  refine ⟨p, frames, ?_, sound.releaseRun member origin inRuns addr flags freed⟩
  have ran' : freePages p num kernel.memory.frames = .ok frames := ran
  rw [kfree, route]
  show (freePages p num kernel.memory.frames >>= fun frames =>
    pure { kernel with memory := { kernel.memory with frames } }) = _
  rw [ran']
  rfl

theorem HeapSound.kfree_exists :
    ∃ after ghost', kfree a.addr kernel = .ok after ∧ after.slabs.caches = kernel.slabs.caches ∧
      HeapSound after (live.erase a) known ready ghost' := by
  rcases a.origin.slab_or_pages with ⟨cache, slab⟩ | ⟨num, origin⟩
  · obtain ⟨caches, ghost', freed⟩ := sound.giveObject member slab
    exact ⟨_, ghost', sound.kfree_slab member slab, caches, freed⟩
  · obtain ⟨p, frames, ran, freed⟩ := sound.kfree_pages member origin
    exact ⟨_, _, ran, rfl, freed⟩

end

end KOs.Mm

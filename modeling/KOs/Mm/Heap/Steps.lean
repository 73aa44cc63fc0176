import KOs.Mm.Heap.Layout

namespace KOs.Mm

open KOs.Arch KOs.Common KOs.Data Function List

/-- The two ways an allocation can fail: no free block, or no room in the window. -/
def NoMemory {β : Type} (num : Nat) (kernel : Kernel) (result : Except Fault β) : Prop :=
  result = .error (outOfMemory num kernel.memory.frames) ∨
    ∃ index, result = .error (.outOfBounds "kptab" index)

variable {kernel : Kernel}

section NoMemory

variable {β γ : Type} {num : Nat} {result : Except Fault β}

theorem NoMemory.not_ok (refused : NoMemory num kernel result) {value : β} : result ≠ .ok value := by
  rcases refused with failed | ⟨index, failed⟩
  · rw [failed]
    nofun
  · rw [failed]
    nofun

theorem NoMemory.bind (refused : NoMemory num kernel result) (next : β → Except Fault γ) :
    NoMemory num kernel (result.bind next) := by
  rcases refused with failed | ⟨index, failed⟩
  · rw [failed]
    exact .inl rfl
  · rw [failed]
    exact .inr ⟨index, rfl⟩

end NoMemory

variable {ghost : Ghost} {cache : CacheRef}

section Frames

variable {after : Kernel} {ghost' : Ghost} {a : Allocation}

theorem InSlab.frame (inSlab : InSlab kernel ghost cache a) (caches : after.slabs.caches = kernel.slabs.caches)
    (kept : ∀ base i, Owns ghost.lists cache base → i ∉ ghost.chain base →
      a.addr = slotAddr (kernel.slabs.caches cache) base i →
      Owns ghost'.lists cache base ∧ i ∉ ghost'.chain base) :
    InSlab after ghost' cache a := by
  obtain ⟨base, i, owns, inRange, used, addr⟩ := inSlab
  obtain ⟨owns', used'⟩ := kept base i owns used addr
  rw [InSlab, caches]
  exact ⟨base, i, owns', inRange, used', addr⟩

theorem InRun.frame {num : Nat} (inRun : InRun kernel ghost num a) (nonempty : num ≠ 0)
    (kept : ∀ p, (p, num) ∈ ghost.runs → a.addr = (kernel.memory.frames.pages p).addr →
      (p, num) ∈ ghost'.runs ∧ ∀ q ∈ run p num, after.memory.frames.pages q = kernel.memory.frames.pages q) :
    InRun after ghost' num a := by
  obtain ⟨p, mem, addr, compound, flags⟩ := inRun
  obtain ⟨member', same⟩ := kept p mem addr
  have first := same p ⟨Nat.le_refl p, by omega⟩
  refine ⟨p, member', by rw [first]; exact addr, by rw [first]; exact compound, ?_⟩
  intro q inside
  rw [same q inside]
  exact flags q inside

end Frames

variable {remaining : List Allocation} {frames : Frames} {p : Nat}
variable {live : List Allocation} {known : Set CacheRef} {ready : Nat} (sound : HeapSound kernel live known ready ghost)
variable {key : Nat × Nat} {a : Allocation} {q : Nat}

section Memory

include sound

theorem HeapSound.run_nonempty (mem : key ∈ ghost.runs) : key.2 ≠ 0 :=
  (sound.session.held key mem).1

theorem HeapSound.addr_ne {b : Allocation} (mem : a ∈ live) (remaining : b ∈ live.erase a) : a.addr ≠ b.addr := by
  have symmetric : ∀ {x y : Allocation}, x.addr ≠ y.addr → y.addr ≠ x.addr := fun h => h.symm
  have cycled := ((perm_cons_erase mem).pairwise_iff symmetric).mp sound.distinct
  exact (pairwise_cons.mp cycled).1 b remaining

omit sound in
theorem not_cache_of_free (free : q ∈ freeSet frames) :
    ¬ (frames.pages q).flags &&& pageFlagCache ≠ 0 := by
  rw [free.2]
  decide

theorem HeapSound.reframe {runs : List (Nat × Nat)}
    (session : Session.Sound ⟨{ kernel.memory with frames }, runs⟩) (mapped : Mapped { kernel.memory with frames } runs)
    (fewer : remaining.Sublist live) (objects : ∀ a ∈ live, (∃ cache, a.origin.slab = some cache) → a ∈ remaining)
    (pages : ∀ cache base q, Owns ghost.lists cache base → (q, 1) ∈ ghost.runs →
      (kernel.memory.frames.pages q).flags = pageFlagUsed ||| pageFlagCache → (q, 1) ∈ runs)
    (runKept : ∀ a ∈ remaining, ∀ num p, a.origin = .kmallocPages num → (p, num) ∈ ghost.runs →
      a.addr = (kernel.memory.frames.pages p).addr → (p, num) ∈ runs)
    (kept : ∀ key ∈ runs, key ∈ ghost.runs → ∀ q ∈ runRegion key,
      frames.pages q = kernel.memory.frames.pages q) (flagged : ∀ q, (frames.pages q).flags &&& pageFlagCache ≠ 0 →
      frames.pages q = kernel.memory.frames.pages q) :
    HeapSound (kernel.withFrames frames) remaining known ready { ghost with runs } := by
  refine ⟨session, mapped, sound.slabs, ?_, ?_, ?_, ?_, ?_, sound.distinct.sublist fewer, sound.kalloc, sound.metaSize⟩
  · intro cache base owns
    obtain ⟨q, mem, addr, flags⟩ := sound.resident cache base owns
    have member' := pages cache base q owns mem flags
    have same := kept (q, 1) member' mem q ⟨Nat.le_refl q, Nat.lt_succ_self q⟩
    refine ⟨q, member', ?_, ?_⟩
    · show (frames.pages q).addr = base
      rw [same]
      exact addr
    · show (frames.pages q).flags = _
      rw [same]
      exact flags
  · intro q test
    have same := flagged q test
    have before : (kernel.memory.frames.pages q).flags &&& pageFlagCache ≠ 0 := same ▸ test
    obtain ⟨cache, owns⟩ := sound.flagged q before
    refine ⟨cache, ?_⟩
    show Owns ghost.lists cache (frames.pages q).addr
    rw [same]
    exact owns
  · intro a mem
    obtain ⟨inSlab, inRun⟩ := sound.placed a (fewer.subset mem)
    refine ⟨?_, ?_⟩
    · intro cache slab
      exact (inSlab _ slab).frame rfl fun base i owns used _ => ⟨owns, used⟩
    · intro num origin
      obtain ⟨p, inRuns, addr, rest⟩ := inRun num origin
      refine InRun.frame ⟨p, inRuns, addr, rest⟩ (sound.run_nonempty inRuns) ?_
      intro p' inRuns' addr'
      have member' := runKept a mem num p' origin inRuns' addr'
      exact ⟨member', kept (p', num) member' inRuns'⟩
  · intro cache base i owns inRange used
    obtain ⟨a, mem, slab, addr⟩ := sound.used cache base i owns inRange used
    exact ⟨a, objects a mem ⟨cache, slab⟩, slab, addr⟩
  · intro a mem
    exact sound.requested a (fewer.subset mem)

theorem HeapSound.claim {index : Nat} (range : index < pageCount)
    (permanent : (kernel.memory.frames.pages index).flags &&& pageFlagPerm ≠ 0)
    (ran : claimPage index kernel.memory.frames = .ok frames) :
    HeapSound (kernel.withFrames frames) live known ready ghost := by
  obtain ⟨result, expected, freed⟩ := sound.session.claimPage_exists range permanent
  have same : result = frames := Except.ok.inj (expected.symm.trans ran)
  subst same
  have kept : ∀ key ∈ ghost.runs, ∀ q ∈ runRegion key,
      result.pages q = kernel.memory.frames.pages q := sound.session.supply_kept range permanent freed
  refine sound.reframe (sound.session.supply range permanent freed)
    (sound.mapped.keep (fun _ mem => mem) kept) (List.Sublist.refl live)
    (fun _ mem _ => mem) (fun _ _ _ _ mem _ => mem)
    (fun _ _ _ _ _ mem _ => mem) (fun key mem _ => kept key mem) ?_
  intro q test
  exact freed.kept q fun free => not_cache_of_free free test

theorem HeapSound.releaseRun {num : Nat}
    (mem : a ∈ live) (origin : a.origin = .kmallocPages num) (inRuns : (p, num) ∈ ghost.runs)
    (addr : a.addr = (kernel.memory.frames.pages p).addr)
    (flags : ∀ q ∈ run p num, (kernel.memory.frames.pages q).flags = pageFlagUsed)
    (freed : Freed (run p num) kernel.memory.frames frames) :
    HeapSound (kernel.withFrames frames) (live.erase a) known ready
      { ghost with runs := ghost.runs.erase (p, num) } := by
  have nonempty : num ≠ 0 := sound.run_nonempty inRuns
  have headMember : p ∈ run p num := ⟨Nat.le_refl p, by omega⟩
  have kept : ∀ key ∈ ghost.runs.erase (p, num), ∀ q ∈ runRegion key,
      frames.pages q = kernel.memory.frames.pages q := sound.session.give_kept inRuns freed
  refine sound.reframe (sound.session.give inRuns freed)
    (sound.mapped.keep (fun _ => mem_of_mem_erase) kept) erase_sublist ?_ ?_ ?_
    (fun key remaining _ => kept key remaining) ?_
  · intro b inLive ⟨cache, slab⟩
    apply (mem_erase_of_ne ?_).mpr inLive
    intro same
    rw [same, origin] at slab
    cases slab
  · intro _ base q owns inRuns' cacheFlags
    apply (mem_erase_of_ne ?_).mpr inRuns'
    intro same
    have isHead : q = p := congrArg Prod.fst same
    have plain := flags p headMember
    rw [← isHead, cacheFlags] at plain
    contradiction
  · intro b remaining _ p' _ inRuns' addr'
    apply (mem_erase_of_ne ?_).mpr inRuns'
    intro same
    have isHead : p' = p := congrArg Prod.fst same
    have sameAddr : b.addr = a.addr := by rw [addr', addr, isHead]
    exact sound.addr_ne mem remaining sameAddr.symm
  · intro q test
    exact freed.kept q fun free => not_cache_of_free free test

end Memory

variable {memory : Memory} {chain : Nat → List Nat} {n : Nat}
variable {slabs : Slabs} {lists : PageLists}

section Grow

structure GrownMemory (kernel : Kernel) (ghost : Ghost) (p n : Nat) (memory : Memory) : Prop where
  session : Session.Sound ⟨memory, (p, n) :: ghost.runs⟩
  mapped : Mapped memory ((p, n) :: ghost.runs)
  addr : (memory.frames.pages p).addr = windowAddr kernel.memory.kmap.kernelNextPage
  next : kernel.memory.kmap.kernelNextPage < windowPages
  kept : ∀ key ∈ ghost.runs, ∀ q ∈ runRegion key,
    memory.frames.pages q = kernel.memory.frames.pages q
  flagged : ∀ q, q ∉ run p n → (memory.frames.pages q).flags &&& pageFlagCache ≠ 0 →
    memory.frames.pages q = kernel.memory.frames.pages q

section

include sound

theorem HeapSound.grown {flags : UInt32} (pos : n ≠ 0) (bounded : n ≤ 2 ^ maxOrder)
    (done : PagesAllocated p n flags kernel.memory memory) :
    GrownMemory kernel ghost p n memory := by
  obtain ⟨bound, next, _, new⟩ := done.mapped_run sound.mapped.room pos
  have addr := (new 0 (pos.bot_lt)).1
  refine ⟨sound.session.take (pos.bot_lt) bounded done.allocated,
    sound.mapped.take sound.session done pos, addr, by omega,
    fun key mem q owned => done.allocated.kept q (sound.session.exclusive.free key mem q owned).1, ?_⟩
  intro q outside test
  by_cases free : q ∈ freeSet kernel.memory.frames
  · have stillFree : q ∈ freeSet memory.frames := done.allocated.shrunk ▸ ⟨free, outside⟩
    exact absurd test (not_cache_of_free stillFree)
  · exact done.allocated.kept q free

variable (grown : GrownMemory kernel ghost p n memory)
include grown

theorem HeapSound.placed_grown
    (caches : slabs.caches = kernel.slabs.caches) (owns : ∀ cache base, Owns ghost.lists cache base →
      Owns lists cache base ∧ chain base = ghost.chain base) (mem : a ∈ live) :
    Placed ⟨memory, slabs⟩ ⟨(p, n) :: ghost.runs, lists, chain⟩ a := by
  obtain ⟨inSlab, inRun⟩ := sound.placed a mem
  refine ⟨?_, ?_⟩
  · intro cache slab
    refine (inSlab _ slab).frame caches ?_
    intro base i owned used _
    obtain ⟨owned', same⟩ := owns cache base owned
    refine ⟨owned', ?_⟩
    show i ∉ chain base
    rw [same]
    exact used
  · intro num origin
    obtain ⟨p', inRuns, addr, rest⟩ := inRun num origin
    refine InRun.frame ⟨p', inRuns, addr, rest⟩ (sound.run_nonempty inRuns) ?_
    intro r inRuns' _
    exact ⟨mem_cons_of_mem _ inRuns', grown.kept (r, num) inRuns'⟩

theorem HeapSound.resident_grown {base : Nat} (owns : Owns ghost.lists cache base) :
    ∃ q, (q, 1) ∈ (p, n) :: ghost.runs ∧ (memory.frames.pages q).addr = base ∧
      (memory.frames.pages q).flags = pageFlagUsed ||| pageFlagCache := by
  obtain ⟨q, mem, addr, flags⟩ := sound.resident cache base owns
  have same := grown.kept (q, 1) mem q ⟨Nat.le_refl q, Nat.lt_succ_self q⟩
  exact ⟨q, mem_cons_of_mem _ mem, by rw [same]; exact addr, by rw [same]; exact flags⟩

theorem HeapSound.owns_flagged (outside : q ∉ run p n) (test : (memory.frames.pages q).flags &&& pageFlagCache ≠ 0) :
    ∃ cache, Owns ghost.lists cache (memory.frames.pages q).addr := by
  have same := grown.flagged q outside test
  rw [same] at test ⊢
  exact sound.flagged q test

end

theorem Kernel.extent_congr {after : Kernel} (caches : after.slabs.caches = kernel.slabs.caches)
    (a : Allocation) : after.extent a = kernel.extent a := by
  simp only [Kernel.extent, caches]

include sound

theorem HeapSound.takeRun {size : Nat} (pos : n ≠ 0) (bounded : n ≤ 2 ^ maxOrder) (enough : size ≤ n * pageSize)
    (done : PagesAllocated p n allocCompound kernel.memory memory) :
    HeapSound { kernel with memory } (⟨(memory.frames.pages p).addr, size, .kmallocPages n⟩ :: live) known ready
      { ghost with runs := (p, n) :: ghost.runs } := by
  have grown := sound.grown pos bounded done
  have plain : ∀ q ∈ run p n, (memory.frames.pages q).flags = pageFlagUsed := done.flagged
  refine ⟨grown.session, grown.mapped, sound.slabs, ?_, ?_, ?_, ?_, ?_, ?_, sound.kalloc, sound.metaSize⟩
  · intro _ base owns
    exact sound.resident_grown grown owns
  · intro q test
    by_cases inside : q ∈ run p n
    · have flags : (memory.frames.pages q).flags &&& pageFlagCache ≠ 0 := test
      rw [plain q inside] at flags
      exact absurd (by decide) flags
    · exact sound.owns_flagged grown inside test
  · intro a mem
    rcases mem_cons.mp mem with same | older
    · rw [same]
      refine ⟨fun cache slab => (by cases slab), ?_⟩
      intro num origin
      cases origin
      exact ⟨p, mem_cons_self, rfl, done.compound (by decide), plain⟩
    · exact sound.placed_grown grown rfl (fun cache base owns => ⟨owns, rfl⟩) older
  · intro cache base i owns inRange used
    obtain ⟨a, mem, rest⟩ := sound.used cache base i owns inRange used
    exact ⟨a, mem_cons_of_mem _ mem, rest⟩
  · intro a mem
    rcases mem_cons.mp mem with same | older
    · rw [same]
      exact enough
    · exact sound.requested a older
  · refine pairwise_cons.mpr ⟨?_, sound.distinct⟩
    intro a older same
    have below := sound.addr_lt older
    rw [← same] at below
    have here : (memory.frames.pages p).addr < windowAddr kernel.memory.kmap.kernelNextPage := below
    rw [grown.addr] at here
    omega

theorem HeapSound.allocPages_cases (flags : UInt32) (pos : n ≠ 0) :
    NoMemory n kernel (allocPages n flags kernel.memory) ∨
      ∃ memory p, allocPages n flags kernel.memory = .ok (memory, p) ∧
        PagesAllocated p n flags kernel.memory memory := by
  have consistent : Consistent kernel.memory.frames := sound.session.consistent
  rcases Mm.allocPages_cases flags consistent pos with failed | failed | done
  · exact .inl (.inl failed)
  · exact .inl (.inr failed)
  · exact .inr done

theorem cacheAllocPage_cases (inside : cache ∈ known) :
    NoMemory 1 kernel (cacheAllocPage cache kernel) ∨ ∃ after ghost', cacheAllocPage cache kernel = .ok after ∧
        HeapSound after live known ready ghost' ∧ ghost'.lists (.emptyList, cache) ≠ [] ∧
        after.slabs.caches = kernel.slabs.caches ∧
        after.slabs.kallocCache = kernel.slabs.kallocCache := by
  rcases sound.allocPages_cases allocCache one_ne_zero with refused | ⟨memory, q, ran, done⟩
  · exact .inl (refused.bind _)
  · right
    have grown := sound.grown one_ne_zero (by decide) done
    have below := windowAddr_lt grown.next (show pageSize - 1 < pageSize by decide)
    obtain ⟨slabs, lists, initialised, slabsSound, owns, room, caches, kallocCache⟩ :=
      initCachePage_exists sound.slabs inside (fun head => sound.not_listed head)
        (pageSize_dvd_windowAddr _) (by simp only [pageSize] at *; omega) q
    have base : pageToVirt q memory = windowAddr kernel.memory.kmap.kernelNextPage := grown.addr
    have older : ∀ other b, Owns ghost.lists other b → b ≠ windowAddr kernel.memory.kmap.kernelNextPage := by
      rintro other b ⟨list, mem⟩ same
      exact sound.not_listed _ (same ▸ mem)
    have keptOwner : ∀ other b, Owns ghost.lists other b → Owns lists other b ∧
        update ghost.chain (windowAddr kernel.memory.kmap.kernelNextPage)
          (range (kernel.slabs.caches cache).max) b = ghost.chain b := by
      intro other b owned
      exact ⟨(owns _ b).mpr (.inl owned), update_of_ne (older _ b owned) _ _⟩
    have single : ∀ r ∈ run q 1, r = q := by
      intro r mem
      simp only [mem_run] at mem
      omega
    have flags : (memory.frames.pages q).flags = pageFlagUsed ||| pageFlagCache :=
      done.flagged q ⟨Nat.le_refl q, Nat.lt_succ_self q⟩
    refine ⟨⟨memory, slabs⟩, ⟨(q, 1) :: ghost.runs, lists,
        update ghost.chain _ _⟩, ?_,
      ⟨grown.session, grown.mapped, slabsSound, ?_, ?_, ?_, ?_, ?_, sound.distinct, ?_, ?_⟩, room,
      caches, kallocCache⟩
    · simp only [cacheAllocPage, allocPage, show allocPages 1 _ kernel.memory = _ from ran, base, initialised,
      ok_bind]
      rfl
    · intro other b owned
      rcases (owns other b).mp owned with old | ⟨_, isNew⟩
      · exact sound.resident_grown grown old
      · refine ⟨q, mem_cons_self, ?_, flags⟩
        rw [isNew]
        exact grown.addr
    · intro r test
      by_cases isNew : r ∈ run q 1
      · refine ⟨cache, (owns _ _).mpr (.inr ⟨rfl, ?_⟩)⟩
        rw [single r isNew]
        exact grown.addr
      · obtain ⟨other, owned⟩ := sound.owns_flagged grown isNew test
        exact ⟨other, (owns _ _).mpr (.inl owned)⟩
    · intro a mem
      exact sound.placed_grown grown caches keptOwner mem
    · intro other b i owned inRange used
      rw [caches] at inRange ⊢
      rcases (owns other b).mp owned with old | ⟨isCache, isNew⟩
      · have used' : i ∉ ghost.chain b := (keptOwner _ b old).2 ▸ used
        exact sound.used _ b i old inRange used'
      · rw [isCache] at inRange
        rw [isNew] at used
        refine absurd ?_ used
        show i ∈ update ghost.chain (windowAddr kernel.memory.kmap.kernelNextPage)
          (range (kernel.slabs.caches _).max) _
        rw [update_self]
        exact mem_range.mpr inRange
    · intro a mem
      rw [Kernel.extent_congr caches]
      exact sound.requested a mem
    · dsimp only
      rw [kallocCache, caches]
      exact sound.kalloc
    · dsimp only
      rw [caches]
      exact sound.metaSize

end Grow

section

include sound

/-- Only objects changed hands: the frames, the window and the caches are as they
were, and so are the pages of every cache. -/
theorem HeapSound.reslab (slabsSound : SlabsSound slabs known lists chain)
    (owns : ∀ c b, Owns lists c b ↔ Owns ghost.lists c b) (caches : slabs.caches = kernel.slabs.caches)
    (kallocCache : slabs.kallocCache = kernel.slabs.kallocCache)
    (placed : ∀ a ∈ remaining, ∀ c, a.origin.slab = some c →
      InSlab ⟨kernel.memory, slabs⟩ ⟨ghost.runs, lists, chain⟩ c a)
    (runs : ∀ a ∈ remaining, ∀ num, a.origin = .kmallocPages num → a ∈ live)
    (used : ∀ c b i, Owns ghost.lists c b → i < (kernel.slabs.caches c).max → i ∉ chain b →
      ∃ a ∈ remaining, a.origin.slab = some c ∧ a.addr = slotAddr (kernel.slabs.caches c) b i)
    (requested : ∀ a ∈ remaining, a.requested ≤ kernel.extent a)
    (distinct : remaining.Pairwise (fun a b => a.addr ≠ b.addr)) :
    HeapSound { kernel with slabs } remaining known ready ⟨ghost.runs, lists, chain⟩ := by
  refine ⟨sound.session, sound.mapped, slabsSound, ?_, ?_, ?_, ?_, ?_, distinct, ?_, ?_⟩
  · intro c b owned
    exact sound.resident c b ((owns c b).mp owned)
  · intro q test
    obtain ⟨c, owned⟩ := sound.flagged q test
    exact ⟨c, (owns _ _).mpr owned⟩
  · intro a mem
    exact ⟨placed a mem, fun num origin =>
      (sound.placed a (runs a mem num origin)).2 num origin⟩
  · intro c b i owned inRange unused
    rw [caches] at inRange ⊢
    exact used c b i ((owns c b).mp owned) inRange unused
  · intro a mem
    rw [Kernel.extent_congr caches]
    exact requested a mem
  · dsimp only
    rw [kallocCache, caches]
    exact sound.kalloc
  · dsimp only
    rw [caches]
    exact sound.metaSize

theorem HeapSound.takeObject (inside : cache ∈ known)
    (room : ghost.lists (.partialList, cache) ≠ [] ∨ ghost.lists (.emptyList, cache) ≠ []) :
    ∃ slabs addr ghost', cacheTake cache kernel.slabs = .ok (slabs, addr) ∧
      slabs.caches = kernel.slabs.caches ∧ slabs.kallocCache = kernel.slabs.kallocCache ∧
      ∀ a : Allocation, a.addr = addr → a.origin.slab = some cache → a.requested ≤ (kernel.slabs.caches cache).size →
        HeapSound { kernel with slabs } (a :: live) known ready ghost' := by
  obtain ⟨slabs, base, i, rest, ran, owned, content, ⟨lists, slabsSound, owns⟩, caches, kallocCache⟩ :=
    cacheTake_exists sound.slabs inside room
  have page := sound.slabs.page_of_owns owned
  have freeSlot : i ∈ ghost.chain base := content ▸ mem_cons_self
  have taken : i ∉ rest := by
    have distinct := page.distinct
    rw [content] at distinct
    exact (nodup_cons.mp distinct).1
  refine ⟨slabs, _, ⟨ghost.runs, lists, update ghost.chain base rest⟩, ran, caches, kallocCache, ?_⟩
  intro a addr slab requested
  have stillUsed : ∀ b k, k ∉ ghost.chain b → k ∉ update ghost.chain base rest b := by
    intro b k unused
    by_cases same : b = base
    · rw [same] at unused ⊢
      rw [update_self]
      rw [content] at unused
      exact fun mem => unused (mem_cons_of_mem i mem)
    · rw [update_of_ne same]
      exact unused
  refine sound.reslab slabsSound owns caches kallocCache ?_ ?_ ?_ ?_ ?_
  · intro b mem c slab'
    rcases mem_cons.mp mem with same | older
    · rw [same] at slab' ⊢
      obtain rfl : cache = c := Option.some.inj (slab.symm.trans slab')
      dsimp only [InSlab]
      rw [caches]
      refine ⟨base, i, (owns _ _).mpr owned, page.bounded i freeSlot, ?_, addr⟩
      rw [update_self]
      exact taken
    · refine ((sound.placed b older).1 c slab').frame caches ?_
      intro base' k owned' unused _
      exact ⟨(owns _ _).mpr owned', stillUsed base' k unused⟩
  · intro b mem num origin
    rcases mem_cons.mp mem with same | older
    · rw [same] at origin
      rw [origin] at slab
      cases slab
    · exact older
  · intro c b k owned' inRange unused
    by_cases here : b = base ∧ k = i
    · obtain ⟨rfl, rfl⟩ := here
      obtain rfl := sound.slabs.owner_unique owned owned'
      exact ⟨a, mem_cons_self, slab, addr⟩
    · have before : k ∉ ghost.chain b := by
        by_cases same : b = base
        · rw [same, content]
          rw [same, update_self] at unused
          intro mem
          rcases mem_cons.mp mem with isFirst | inRest
          · exact here ⟨same, isFirst⟩
          · exact unused inRest
        · rwa [update_of_ne same] at unused
      obtain ⟨b', older, rest'⟩ := sound.used c b k owned' inRange before
      exact ⟨b', mem_cons_of_mem _ older, rest'⟩
  · intro b mem
    rcases mem_cons.mp mem with same | older
    · rw [same, Kernel.extent_slab slab]
      exact requested
    · exact sound.requested b older
  · refine pairwise_cons.mpr ⟨?_, sound.distinct⟩
    intro b older same
    exact sound.slot_unused owned freeSlot older (same.symm.trans addr)

theorem HeapSound.giveObject (mem : a ∈ live) (slab : a.origin.slab = some cache) :
    (cacheFree cache a.addr kernel.slabs).caches = kernel.slabs.caches ∧
      ∃ ghost', HeapSound { kernel with slabs := cacheFree cache a.addr kernel.slabs } (live.erase a)
        known ready ghost' := by
  obtain ⟨base, i, owned, inRange, unused, addr⟩ := (sound.placed a mem).1 cache slab
  obtain ⟨⟨lists, slabsSound, owns⟩, caches, kallocCache⟩ :=
    cacheFree_exists sound.slabs owned inRange unused
  rw [← addr] at slabsSound caches kallocCache
  refine ⟨caches, ⟨ghost.runs, lists, update ghost.chain base (i :: ghost.chain base)⟩,
    sound.reslab slabsSound owns caches kallocCache ?_ ?_ ?_ ?_ (sound.distinct.sublist erase_sublist)⟩
  · intro b remaining c slab'
    have earlier := mem_of_mem_erase remaining
    refine ((sound.placed b earlier).1 c slab').frame caches ?_
    intro base' k owned' unused' addr'
    refine ⟨(owns _ _).mpr owned', ?_⟩
    show k ∉ update ghost.chain base (i :: ghost.chain base) base'
    by_cases same : base' = base
    · subst same
      rw [update_self]
      intro inChain
      rcases mem_cons.mp inChain with isFreed | old
      · obtain rfl := sound.slabs.owner_unique owned owned'
        apply sound.addr_ne mem remaining
        rw [addr, addr', isFreed]
      · exact unused' old
    · rw [update_of_ne same]
      exact unused'
  · intro b remaining num _
    exact mem_of_mem_erase remaining
  · intro c b k owned' inRange' unused'
    have ne : ¬ (b = base ∧ k = i) := by
      intro ⟨sameBase, sameIndex⟩
      rw [sameBase, sameIndex, update_self] at unused'
      exact unused' mem_cons_self
    have before : k ∉ ghost.chain b := by
      by_cases same : b = base
      · subst same
        rw [update_self] at unused'
        exact fun old => unused' (mem_cons_of_mem _ old)
      · rwa [update_of_ne same] at unused'
    obtain ⟨a', inLive, slab', addr'⟩ := sound.used c b k owned' inRange' before
    refine ⟨a', (mem_erase_of_ne ?_).mpr inLive, slab', addr'⟩
    intro same
    obtain ⟨_, sameBase, sameIndex⟩ := sound.slabs.slot_unique owned' owned inRange' inRange
      (by rw [← addr', same, addr])
    exact ne ⟨sameBase, sameIndex⟩
  · intro b remaining
    exact sound.requested b (mem_of_mem_erase remaining)

theorem cacheAlloc_cases (inside : cache ∈ known) :
    NoMemory 1 kernel (cacheAlloc cache kernel) ∨ ∃ after addr ghost', cacheAlloc cache kernel = .ok (after, addr) ∧
        after.slabs.caches = kernel.slabs.caches ∧
        after.slabs.kallocCache = kernel.slabs.kallocCache ∧
        ∀ a : Allocation, a.addr = addr → a.origin.slab = some cache → a.requested ≤ (kernel.slabs.caches cache).size →
          HeapSound after (a :: live) known ready ghost' := by
  cases refill : kernel.slabs.listEmpty .partialList cache && kernel.slabs.listEmpty .emptyList cache with
  | false =>
    right
    have room : ghost.lists (.partialList, cache) ≠ [] ∨ ghost.lists (.emptyList, cache) ≠ [] := by
      rcases Bool.and_eq_false_iff.mp refill with notPartial | notEmpty
      · left
        intro none
        rw [(sound.slabs.listEmpty_iff inside .partialList).mpr none] at notPartial
        contradiction
      · right
        intro none
        rw [(sound.slabs.listEmpty_iff inside .emptyList).mpr none] at notEmpty
        contradiction
    obtain ⟨slabs, addr, ghost', ran, result⟩ := sound.takeObject inside room
    refine ⟨{ kernel with slabs }, addr, ghost', ?_, result⟩
    simp [cacheAlloc, refill, ran]
  | true =>
    rcases cacheAllocPage_cases sound inside with
      refused | ⟨middle, ghost1, grew, sound', room, caches, kallocCache⟩
    · left
      rw [cacheAlloc, refill, if_pos rfl]
      exact refused.bind _
    · right
      obtain ⟨slabs, addr, ghost', ran, caches', kallocCache', result⟩ :=
        sound'.takeObject inside (.inr room)
      refine ⟨{ middle with slabs }, addr, ghost', ?_, caches'.trans caches, kallocCache'.trans kallocCache, ?_⟩
      · simp [cacheAlloc, refill, grew, ran]
      · rw [caches] at result
        exact result

end

end KOs.Mm

import KOs.Mm.Heap.Calls

namespace KOs.Mm

open KOs.Arch KOs.Common KOs.Data

def KeepsCaches (before after : World) : Prop :=
  ∀ cache ∈ knownCaches before.live, cache ∈ knownCaches after.live ∧
    after.kernel.slabs.caches cache = before.kernel.slabs.caches cache

theorem KeepsCaches.refl (world : World) : KeepsCaches world world :=
  fun _ mem => ⟨mem, rfl⟩

theorem KeepsCaches.trans {first second third : World} (earlier : KeepsCaches first second)
    (later : KeepsCaches second third) : KeepsCaches first third := by
  intro cache mem
  obtain ⟨middle, same⟩ := earlier cache mem
  obtain ⟨final, same'⟩ := later cache middle
  exact ⟨final, same'.trans same⟩

section Steps

variable {world next : World} {ghost : Ghost}

theorem World.Sound.settle {ghost' : Ghost} (known : knownCaches next.live = knownCaches world.live)
    (caches : next.kernel.slabs.caches = world.kernel.slabs.caches)
    (sound : HeapSound next.kernel next.live (knownCaches world.live) kallocNumCaches ghost') :
    KeepsCaches world next ∧ ∃ ghost', next.Sound ghost' := by
  refine ⟨?_, ghost', ?_⟩
  · intro _ mem
    rw [known, caches]
    exact ⟨mem, rfl⟩
  · rw [World.Sound, known]
    exact sound

theorem World.Sound.step (sound : world.Sound ghost) (step : world.Step next) :
    KeepsCaches world next ∧ ∃ ghost', next.Sound ghost' := by
  cases step with
  | claim range permanent ran => exact World.Sound.settle rfl rfl (sound.claim range permanent ran)
  | create pos room ran =>
    rcases cacheCreate_cases sound pos room with
      refused | ⟨after, addr, ghost', expected, created, _, older, _⟩
    · exact absurd ran refused.not_ok
    · rw [expected] at ran
      cases ran
      refine ⟨?_, ghost', created⟩
      intro cache mem
      refine ⟨?_, older _ mem⟩
      show cache ∈ knownCaches (descriptorAt _ :: world.live)
      rw [knownCaches_descriptor]
      exact Set.mem_insert_of_mem _ mem
  | alloc known ran =>
    rcases cacheAlloc_cases sound known with
      refused | ⟨after, taken, ghost', expected, caches, _, result⟩
    · exact absurd ran refused.not_ok
    · rw [expected] at ran
      cases ran
      exact World.Sound.settle (knownCaches_cons (by nofun) _) caches (result _ rfl rfl le_rfl)
  | @free cache a mem origin =>
    have slab : a.origin.slab = some cache := by rw [origin]; rfl
    obtain ⟨caches, ghost', freed⟩ := HeapSound.giveObject sound mem slab
    apply World.Sound.settle _ caches freed
    apply knownCaches_erase mem
    rw [origin]
    exact nofun
  | kmallocCache small index found ran =>
    obtain ⟨i, cache, index', found', outcome⟩ := kmalloc_small sound small
    rw [index'] at index
    cases index
    rw [found'] at found
    cases found
    rcases outcome with refused | ⟨after, addr, ghost', expected, caches, taken⟩
    · exact absurd ran refused.not_ok
    · rw [expected] at ran
      cases ran
      exact World.Sound.settle (knownCaches_cons (by nofun) _) caches taken
  | kmallocPages large ran =>
    rcases kmalloc_large sound large with
      refused | ⟨after, addr, ghost', expected, caches, taken⟩
    · exact absurd ran refused.not_ok
    · rw [expected] at ran
      cases ran
      exact World.Sound.settle (knownCaches_cons (by nofun) _) caches taken
  | @kfree a _ mem origin ran =>
    obtain ⟨after, ghost', expected, caches, freed⟩ := HeapSound.kfree_exists sound mem
    rw [expected] at ran
    cases ran
    apply World.Sound.settle _ caches freed
    apply knownCaches_erase mem
    rcases origin with ⟨cache, origin⟩ | ⟨num, origin⟩
    iterate 2
      · rw [origin]
        exact nofun
  | kfreeNull ran =>
    have same : kfree 0 world.kernel = .ok world.kernel := rfl
    cases ran
    exact ⟨.refl _, ghost, sound⟩

end Steps

variable {list : Links (Nat ⊕ Nat)}

section Start

variable {frames : Frames} {i : Nat}

theorem Claims.no_cache (kmap : Kmap) (claims : Claims (mmInit list) frames) (q : Nat) :
    ¬ (frames.pages q).flags &&& pageFlagCache ≠ 0 := by
  induction claims with
  | none =>
    show ¬ (pageFlagPerm ||| pageFlagUsed) &&& pageFlagCache ≠ 0
    decide
  | @claim index before after earlier range permanent ran ih =>
    have sound := (earlier.reaches kmap).sound
    obtain ⟨result, expected, freed⟩ := sound.claimPage_exists range permanent
    have expected' : claimPage index before = .ok result := expected
    rw [expected'] at ran
    cases ran
    by_cases free : q ∈ freeSet after
    · exact not_cache_of_free free
    · rw [freed.kept q free]
      exact ih

theorem bootSlabs_sound (pages : Nat → CachePage) (caches : CacheRef → Cache)
    (cells : Links ((CacheList × CacheRef) ⊕ Nat)) :
    SlabsSound (bootSlabs pages caches cells) (knownCaches []) (fun _ => []) (fun _ => []) := by
  have nothing : SlabsSound ⟨pages, caches, cells, fun _ => none⟩ ∅ (fun _ => []) (fun _ => []) := by
    refine ⟨⟨?_, fun _ => List.nodup_nil, ?_, fun _ _ => rfl⟩, ?_, ?_, ?_⟩
    · intro i _
      contradiction
    · intro i j a mem
      contradiction
    · intro c mem
      contradiction
    iterate 2
      · intro kind c base mem
        contradiction
  have known : knownCaches [] = insert .metaCache ∅ := by
    simp [knownCaches]
  rw [known]
  exact cacheInitialised nothing (Set.notMem_empty _) ⟨by decide, by decide, by decide⟩

theorem boot_sound {kmap : Kmap} (claims : Claims (mmInit list) frames)
    (room : kmap.kernelNextPage ≤ windowPages) (pages : Nat → CachePage) (caches : CacheRef → Cache)
    (cells : Links ((CacheList × CacheRef) ⊕ Nat)) :
    HeapSound ⟨⟨frames, kmap⟩, bootSlabs pages caches cells⟩ [] (knownCaches []) 0 ⟨[], fun _ => [], fun _ => []⟩ := by
  refine ⟨(claims.reaches kmap).sound, ⟨room, ?_⟩, bootSlabs_sound _ _ _, ?_, ?_, ?_, ?_, ?_, .nil, ?_, rfl⟩
  · intro key mem
    contradiction
  · intro _ base ⟨_, mem⟩
    contradiction
  · intro q test
    exact absurd test (claims.no_cache kmap q)
  · intro a mem
    contradiction
  · intro _ base i ⟨_, mem⟩
    contradiction
  · intro a mem
    contradiction
  · intro i _
    contradiction

theorem kallocDescriptors_congr {slabs after : Slabs} {count : Nat}
    (same : ∀ i < count, after.kallocCache i = slabs.kallocCache i) :
    kallocDescriptors after count = kallocDescriptors slabs count := by
  induction count with
  | zero => rfl
  | succ count ih =>
    rw [kallocDescriptors, kallocDescriptors, same _ (Nat.lt_succ_self _),
      ih fun i below => same i (Nat.lt_succ_of_lt below)]

theorem kalloc_size (below : i < kallocNumCaches) :
    1 ≤ 1 <<< (i + kallocCacheShiftMin) ∧ 1 ≤ (pageSize - sizeofCachePage) / (1 <<< (i + kallocCacheShiftMin) + 4) := by
  have table : ∀ i : Fin kallocNumCaches, 1 ≤ 1 <<< (i.val + kallocCacheShiftMin) ∧
      1 ≤ (pageSize - sizeofCachePage) / (1 <<< (i.val + kallocCacheShiftMin) + 4) := by decide
  exact table ⟨i, below⟩

theorem cacheInitOne_sound {kernel after : Kernel} {ghost : Ghost}
    (sound : HeapSound kernel (kallocDescriptors kernel.slabs i)
      (knownCaches (kallocDescriptors kernel.slabs i)) i ghost)
    (below : i < kallocNumCaches) (ran : cacheInitOne i kernel = .ok after) :
    ∃ ghost', HeapSound after (kallocDescriptors after.slabs (i + 1))
      (knownCaches (kallocDescriptors after.slabs (i + 1))) (i + 1) ghost' := by
  obtain ⟨pos, room⟩ := kalloc_size below
  rcases cacheCreate_cases sound pos room with
    refused | ⟨created, addr, ghost', expected, grown, cache, _, kallocCache⟩
  · exact absurd ran (refused.bind _).not_ok
  · rw [cacheInitOne, expected] at ran
    cases ran
    refine ⟨ghost', ?_⟩
    generalize slots : (fun other => if other = i then some _
      else created.slabs.kallocCache _) = table
    have here : table i = some (.created addr) := by rw [← slots]; exact if_pos rfl
    have elsewhere : ∀ j ≠ i, table j = kernel.slabs.kallocCache j := by
      intro j ne
      rw [← slots, ← kallocCache]
      exact if_neg ne
    have descriptors : kallocDescriptors { created.slabs with kallocCache := table } (i + 1) =
        descriptorAt addr :: kallocDescriptors kernel.slabs i := by
      have older : kallocDescriptors { created.slabs with kallocCache := table } i = kallocDescriptors kernel.slabs i :=
        kallocDescriptors_congr fun j earlier => elsewhere j (earlier.ne)
      rw [kallocDescriptors, older]
      simp only [here]
      rfl
    simp only [descriptors]
    refine { grown with slabs := { grown.slabs with }, kalloc := ?_ }
    intro j inside
    by_cases newest : j = i
    · rw [newest]
      refine ⟨.created addr, .inr ⟨_, List.mem_cons_self, rfl, rfl⟩, here, ?_⟩
      rw [cache, Nat.one_shiftLeft]
    · obtain ⟨other, mem, found, size⟩ := grown.kalloc j (by omega)
      refine ⟨other, mem, ?_, size⟩
      rw [← found, kallocCache]
      exact elsewhere j newest

theorem World.Started.sound {world : World} (started : world.Started) : ∃ ghost, world.Sound ghost := by
  cases started with
  | intro mmu claims ran =>
    have boot := boot_sound claims (mmuInit_room mmu)
    exact forLoop_preserves (fun i kernel => ∃ ghost, HeapSound kernel (kallocDescriptors kernel.slabs i)
        (knownCaches (kallocDescriptors kernel.slabs i)) i ghost)
      ran ⟨_, boot _ _ _⟩
      fun _ _ _ below ⟨_, sound⟩ turn => cacheInitOne_sound sound below turn

end Start

variable {start world : World}

theorem World.Sound.run {ghost : Ghost} (sound : start.Sound ghost)
    (path : start.Reaches world) : KeepsCaches start world ∧ ∃ ghost', world.Sound ghost' := by
  apply run_preserves (fun world => KeepsCaches start world ∧ ∃ ghost, World.Sound world ghost) path
    ⟨.refl _, ghost, sound⟩
  intro before after ⟨kept, ghost', sound'⟩ step
  obtain ⟨keeps, result⟩ := sound'.step step
  exact ⟨kept.trans keeps, result⟩

theorem World.Reaches.sound (started : start.Started) (path : start.Reaches world) : ∃ ghost, world.Sound ghost := by
  obtain ⟨ghost, sound⟩ := started.sound
  exact (sound.run path).2

end KOs.Mm

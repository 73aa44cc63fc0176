import KOs.Mm.Heap.Guarantees

namespace KOs.Mm

open KOs.Arch KOs.Common KOs.Data List Session

def MapFits (n : Nat) (kmap : Kmap) : Prop := kmap.kernelNextPage + n ≤ windowPages

/-- Every list that `do_alloc_pages` searches for `n` frames is empty. -/
def NoBlock (n : Nat) (frames : Frames) : Prop :=
  ∀ order, targetOrder n ≤ order → order ≤ maxOrder → listEmpty frames.list (.inl order) = true

/-- The run at `p` is installed in pages of the window that no live run has. -/
structure Installed (session : Session) (memory : Memory) (p n : Nat) : Prop where
  placed : ∀ j, j < n → ∃ i, i < windowPages ∧
    (memory.frames.pages (p + j)).addr = windowAddr i ∧ memory.kmap.frame i = p + j
  kept : ∀ i, (∀ j, j < n → (memory.frames.pages (p + j)).addr ≠ windowAddr i) →
    memory.kmap.entry i = session.memory.kmap.entry i
  apart : ∀ j, j < n → ∀ key ∈ session.live, ∀ q ∈ runRegion key,
    (memory.frames.pages (p + j)).addr ≠ (session.frames.pages q).addr

/-- No write of `map_pages` leaves `kptab`, and none replaces a live mapping. -/
structure MapsInside (session : Session) (n : Nat) (flags : UInt32) : Prop where
  inside : ∀ index, allocPages n flags session.memory ≠ .error (.outOfBounds "kptab" index)
  installed : ∀ memory p, allocPages n flags session.memory = .ok (memory, p) →
    Installed session memory p n

variable {frames : Frames}

theorem doAllocPages_fails_iff {n : Nat} (consistent : Consistent frames) (pos : n ≠ 0) :
    doAllocPages n frames = .error (outOfMemory n frames) ↔ NoBlock n frames := by
  cases found : (range' (targetOrder n) (maxOrder + 1 - targetOrder n)).find?
      (fun order => !listEmpty frames.list (.inl _)) with
  | none =>
    have failed : doAllocPages n frames = .error (outOfMemory n frames) := by
      rw [doAllocPages, found]
      rfl
    refine iff_of_true failed ?_
    intro order low high
    have searched := find?_eq_none.mp found order (mem_range'_1.mpr ⟨low, by omega⟩)
    simpa using searched
  | some order =>
    obtain ⟨after, p, ran, _⟩ := doAllocPages_found consistent pos found
    have range := mem_range'_1.mp (mem_of_find?_eq_some found)
    have occupied := find?_some found
    constructor
    · intro failed
      rw [ran] at failed
      contradiction
    · intro empty
      rw [empty _ range.1 (by omega)] at occupied
      contradiction

theorem targetOrder_le {n k : Nat} (pos : n ≠ 0) (enough : n ≤ 2 ^ k) : targetOrder n ≤ k := by
  have low : 2 ^ Nat.log2 n ≤ n := Nat.log2_self_le pos
  have below : Nat.log2 n ≤ k := (Nat.pow_le_pow_iff_right (by decide)).mp (low.trans enough)
  simp only [targetOrder, xor_leading_bit pos]
  split
  · refine below.lt_of_ne ?_
    rintro rfl
    omega
  · exact below

theorem noBlock_iff {n : Nat} (consistent : Consistent frames) (order : targetOrder n ≤ maxOrder) :
    NoBlock n frames ↔ ¬ ∃ b, 2 ^ targetOrder n ∣ b ∧ block (targetOrder n) b ⊆ freeSet frames := by
  obtain ⟨lists, listed⟩ := consistent.listed
  constructor
  · rintro empty ⟨b, aligned, inside⟩
    obtain ⟨j, a, maximal, mem⟩ := exists_maxBlock maxOrder (inside (start_mem_block _ b))
    have above := maximal.le_of_mem order aligned inside mem (start_mem_block _ b)
    have none : lists j = [] :=
      (listEmpty_iff listed.links (show j ∈ orders from maximal.order)).mp (empty j above maximal.order)
    have found := (listed.blocks j a).mpr maximal
    rw [none] at found
    contradiction
  · intro none j above bounded
    refine (listEmpty_iff listed.links (show j ∈ orders from bounded)).mpr (eq_nil_iff_forall_not_mem.mpr ?_)
    intro a mem
    have maximal := (listed.blocks j a).mp mem
    refine none ⟨a, aligned_of_le above maximal.aligned, fun q inside => maximal.inside ?_⟩
    have larger : 2 ^ targetOrder n ≤ 2 ^ j := Nat.pow_le_pow_right (by decide) above
    simp only [mem_block] at inside ⊢
    omega

theorem not_noBlock_one {q : Nat} (consistent : Consistent frames) (free : q ∈ freeSet frames) :
    ¬ NoBlock 1 frames := by
  rw [noBlock_iff consistent (by decide), not_not]
  exact ⟨q, one_dvd q, (block_zero q).trans_subset (Set.singleton_subset_iff.mpr free)⟩

/-- A request fails exactly if no aligned block of free frames is large enough for it. -/
theorem allocation_complete (list : Links (Nat ⊕ Nat)) (kmap : Kmap) (session : Session)
    (path : (Session.initial list kmap).Reaches session) {n k : Nat} (positive : 1 ≤ n) (bounded : n ≤ 2 ^ maxOrder)
    (least : IsLeast {k | n ≤ 2 ^ k} k) :
    doAllocPages n session.frames = .error (outOfMemory n session.frames) ↔
      ¬ ∃ b, 2 ^ k ∣ b ∧ ∀ q ∈ block k b, q < pageCount ∧ isFree (session.frames.pages q) = true := by
  have consistent := path.sound.consistent
  have nonzero : n ≠ 0 := by omega
  have order : targetOrder n = k :=
    Nat.le_antisymm (targetOrder_le nonzero least.1) (least.2 (le_two_pow_targetOrder n))
  have free : ∀ q, (q < pageCount ∧ isFree (session.frames.pages q) = true) ↔ q ∈ freeSet session.frames :=
    fun q => and_congr_right fun _ => ⟨consistent.legal q, isFree_of_zero⟩
  rw [doAllocPages_fails_iff consistent nonzero, noBlock_iff consistent (targetOrder_le nonzero bounded), order]
  simp only [free]
  rfl

theorem allocation_complete_twoClaims : ∃ frames, twoClaims = .ok frames ∧
    doAllocPages 2 frames ≠ .error (outOfMemory 2 frames) ∧ doAllocPages 3 frames = .error (outOfMemory 3 frames) ∧
    ¬ ∃ b, 2 ^ 2 ∣ b ∧ ∀ q ∈ block 2 b, q < pageCount ∧ isFree (frames.pages q) = true := by
  have outcome : twoClaims.map (fun frames => (isFree (frames.pages 2), isFree (frames.pages 3),
      (doAllocPages 3 frames).toBool)) = .ok (true, true, false) := rfl
  obtain ⟨frames, claimed, observed⟩ := map_returns outcome
  simp only [Prod.mk.injEq] at observed
  obtain ⟨two, three, fails⟩ := observed
  have path := (twoClaims_claims claimed).reaches unmapped
  have two_least : IsLeast {k | 2 ≤ 2 ^ k} 1 :=
    ⟨show 2 ≤ 2 ^ 1 by decide, fun j (enough : 2 ^ 1 ≤ 2 ^ j) => (Nat.pow_le_pow_iff_right (by decide)).mp enough⟩
  have three_least : IsLeast {k | 3 ≤ 2 ^ k} 2 :=
    ⟨show 3 ≤ 2 ^ 2 by decide, fun j (enough : 2 ^ 1 < 2 ^ j) => (Nat.pow_lt_pow_iff_right (by decide)).mp enough⟩
  have failed : doAllocPages 3 frames = .error (outOfMemory 3 frames) := by
    rcases doAllocPages_exists path.sound.consistent (show 3 ≠ 0 by decide) with failed | ⟨_, _, ran, _⟩
    · exact failed
    · cases (congrArg Except.toBool ran).symm.trans fails
  have pair := allocation_complete _ _ _ path (by decide) (by decide) two_least
  have four := allocation_complete _ _ _ path (by decide) (by decide) three_least
  refine ⟨frames, claimed, fun none => pair.mp none ⟨2, by decide, fun q inside => ?_⟩, failed, four.mp failed⟩
  rw [mem_block] at inside
  obtain rfl | rfl : q = 2 ∨ q = 3 := by omega
  · exact ⟨by decide, two⟩
  · exact ⟨by decide, three⟩

variable {session : Session}

section Calls

variable {n : Nat} {flags : UInt32}

theorem mapPages_fails_iff {kmap : Kmap} (phys : Nat) (room : kmap.kernelNextPage ≤ windowPages) :
    (∃ index, mapPages phys n kmap = .error (.outOfBounds "kptab" index)) ↔ ¬ MapFits n kmap := by
  constructor
  · intro ⟨index, failed⟩ fits
    obtain ⟨after, ran, _⟩ := mapPages_exists phys fits
    rw [ran] at failed
    contradiction
  · intro full
    cases ran : mapPages phys n kmap with
    | error =>
      obtain ⟨index, rfl⟩ := mapPages_fails ran
      exact ⟨index, rfl⟩
    | ok =>
      obtain ⟨_, next, bound, _⟩ := mapPages_installs room ran
      rw [next] at bound
      contradiction

theorem allocPages_returns_of (flags : UInt32) (consistent : Consistent session.frames)
    (pos : n ≠ 0) (fits : MapFits n session.memory.kmap) (block : ¬ NoBlock n session.frames) :
    ∃ memory p, allocPages n flags session.memory = .ok (memory, p) := by
  rw [← doAllocPages_fails_iff consistent pos] at block
  rcases doAllocPages_exists consistent pos with failed | ⟨taken, p, ran, allocated, _⟩
  · exact absurd failed block
  · obtain ⟨kmap, mapping, _⟩ := mapPages_exists (pageToPhys p) fits
    have taking : doAllocPages n session.memory.frames = .ok (taken, p) := ran
    simp only [allocPages, taking, mapping, labelPage_loop allocated.used, ok_bind]
    exact ⟨_, p, rfl⟩

theorem allocPages_leaves_iff (flags : UInt32) (consistent : Consistent session.frames)
    (room : session.memory.kmap.kernelNextPage ≤ windowPages) (pos : n ≠ 0) :
    (∃ index, allocPages n flags session.memory = .error (.outOfBounds "kptab" index)) ↔
      ¬ (MapFits n session.memory.kmap ∨ NoBlock n session.frames) := by
  constructor
  · rintro ⟨index, failed⟩ either
    by_cases empty : NoBlock n session.frames
    · have refused : doAllocPages n session.memory.frames = _ :=
        (doAllocPages_fails_iff consistent pos).mpr empty
      rw [allocPages, refused] at failed
      cases failed
    · obtain ⟨memory, p, ran⟩ :=
        allocPages_returns_of _ consistent pos (either.resolve_right empty) empty
      rw [ran] at failed
      contradiction
  · intro neither
    obtain ⟨full, block⟩ := not_or.mp neither
    rw [← doAllocPages_fails_iff consistent pos] at block
    rcases doAllocPages_exists consistent pos with failed | ⟨taken, p, ran, _⟩
    · exact absurd failed block
    · obtain ⟨index, failed⟩ := (mapPages_fails_iff (pageToPhys p) room).mpr full
      have taking : doAllocPages n session.memory.frames = .ok (taken, p) := ran
      refine ⟨index, ?_⟩
      simp only [allocPages, taking, failed, ok_bind, error_bind]

theorem PagesAllocated.installed {p : Nat} {memory : Memory} (done : PagesAllocated p n flags session.memory memory)
    (mapped : Mapped session.memory session.live) (pos : n ≠ 0) :
    Installed session memory p n := by
  obtain ⟨room, next, _, new⟩ := done.mapped_run mapped.room pos
  obtain ⟨first, mapping, _⟩ := done.mapped
  obtain ⟨_, installs⟩ := mapPages_installs mapped.room mapping
  refine ⟨?_, ?_, ?_⟩
  · intro j inside
    obtain ⟨addr, frame⟩ := new j inside
    exact ⟨session.memory.kmap.kernelNextPage + j, by omega, addr, frame⟩
  · intro i elsewhere
    apply installs.outside
    by_contra _
    apply elsewhere (i - session.memory.kmap.kernelNextPage) (by omega)
    rw [(new _ (by omega)).1, Nat.add_sub_cancel' (by omega)]
  · intro j inside key mem q owned same
    obtain ⟨w, below, each⟩ := mapped.mapped key mem
    have range : key.1 ≤ q ∧ q < key.1 + key.2 := owned
    have placed := (each (q - key.1) (by omega)).1
    rw [Nat.add_sub_cancel' range.1] at placed
    rw [(new j inside).1, show (session.frames.pages q).addr = _ from placed] at same
    have together := windowAddr_injective same
    omega

theorem Session.Sound.mapsInside_iff (sound : session.Sound)
    (mapped : Mapped session.memory session.live) (pos : n ≠ 0) :
    MapsInside session n flags ↔ MapFits n session.memory.kmap ∨ NoBlock n session.frames := by
  have leaves := allocPages_leaves_iff flags sound.consistent mapped.room pos
  constructor
  · intro holds
    by_contra neither
    obtain ⟨index, failed⟩ := leaves.mpr neither
    exact holds.inside _ failed
  · intro either
    refine ⟨fun index failed => leaves.mp ⟨index, failed⟩ either, ?_⟩
    intro memory p ran
    have done := allocPages_ok sound.consistent pos ran
    exact done.installed mapped pos

end Calls

theorem Mapped.step {next : Session} (mapped : Mapped session.memory session.live)
    (sound : session.Sound) (step : session.Step next) : Mapped next.memory next.live := by
  cases step with
  | claim range permanent ran =>
    obtain ⟨frames, expected, freed⟩ := sound.claimPage_exists range permanent
    rw [expected] at ran
    cases ran
    exact mapped.keep (fun _ mem => mem) (sound.supply_kept range permanent freed)
  | @alloc n p _ _ pos _ ran =>
    have done := allocPages_ok sound.consistent (show n ≠ 0 by omega) ran
    exact mapped.take sound done (by omega)
  | free mem ran =>
    obtain ⟨frames, expected, freed⟩ := sound.freePages_exists mem
    rw [expected] at ran
    cases ran
    exact mapped.keep (fun _ => mem_of_mem_erase) (sound.give_kept mem freed)
  | freeOne mem ran =>
    obtain ⟨frames, expected, freed⟩ := sound.freePage_exists mem
    rw [expected] at ran
    cases ran
    exact mapped.keep (fun _ => mem_of_mem_erase) (sound.give_kept mem freed)

theorem Session.Reaches.mapped {list : Links (Nat ⊕ Nat)} {kmap : Kmap}
    (path : (Session.initial list kmap).Reaches session) (room : kmap.kernelNextPage ≤ windowPages) :
    Mapped session.memory session.live := by
  have both := run_preserves (fun reached => reached.Sound ∧ Mapped reached.memory reached.live) path
    ⟨initial_sound list kmap, room, nofun⟩
    fun _ _ ⟨sound, mapped⟩ step => ⟨sound.step step, mapped.step sound step⟩
  exact both.2

/-- In every state that calls which returned lead to, the next allocation stays
inside the window exactly when the window still has the pages for it, or when
the request is turned down before it maps anything. -/
theorem mapping_stays_inside_iff {kernelEnd mallocStart : Nat} {tables : Nat → Nat → PtabEntry}
    {kmap : Kmap} (started : mmuInit kernelEnd mallocStart tables = .ok kmap)
    (list : Links (Nat ⊕ Nat)) (session : Session)
    (path : (Session.initial list kmap).Reaches session) (n : Nat) (positive : 1 ≤ n)
    (flags : UInt32) :
    MapsInside session n flags ↔ MapFits n session.memory.kmap ∨ NoBlock n session.frames :=
  path.sound.mapsInside_iff (path.mapped (mmuInit_room started)) (by omega)

theorem mapping_stays_inside_one : ∃ session,
    (Session.initial selfLinked ⟨bootKmap.kptab, 5136⟩).Reaches session ∧ session.live = [] ∧
      MapFits 1 session.memory.kmap ∧ MapsInside session 1 0 := by
  have outcome : twoClaims.map (fun _ => ()) = .ok () := rfl
  obtain ⟨frames, claimed, _⟩ := map_returns outcome
  have path := (twoClaims_claims claimed).reaches ⟨bootKmap.kptab, 5136⟩
  have fits : MapFits 1 ⟨bootKmap.kptab, 5136⟩ := show 5136 + 1 ≤ windowPages by decide
  exact ⟨_, path, rfl, fits,
    (mapping_stays_inside_iff bootKmap_spec selfLinked _ path 1 (by decide) 0).mpr (Or.inl fits)⟩

section Wearing

def Session.livePages (session : Session) : Nat := (session.live.map Prod.snd).sum

/-- Runs in which never more than `limit` pages are live. -/
def Session.ReachesWithin (limit : Nat) : Session → Session → Prop :=
  Relation.ReflTransGen (fun before after => before.Step after ∧ after.livePages ≤ limit)

variable {q : Nat}

/-- A page allocated and freed again costs a page of the window and nothing else. -/
theorem Session.Sound.round (sound : session.Sound)
    (fits : MapFits 1 session.memory.kmap) (free : q ∈ freeSet session.frames) (idle : session.live = []) :
    ∃ next, Session.ReachesWithin 1 session next ∧ next.Sound ∧ next.live = [] ∧
      freeSet next.frames = freeSet session.frames ∧
      next.memory.kmap.kernelNextPage = session.memory.kmap.kernelNextPage + 1 := by
  have room : session.memory.kmap.kernelNextPage ≤ windowPages := (Nat.le_succ _).trans fits
  obtain ⟨memory, p, ran⟩ := allocPages_returns_of 0 sound.consistent one_ne_zero fits
    (not_noBlock_one sound.consistent free)
  have done := allocPages_ok sound.consistent one_ne_zero ran
  have taken : session.Step ⟨memory, (p, 1) :: session.live⟩ :=
    .alloc (Nat.le_refl 1) (by decide) ran
  have mem : (p, 1) ∈ (p, 1) :: session.live := mem_cons_self
  obtain ⟨frames, freeing, freed⟩ := (sound.step taken).freePages_exists mem
  have given : Session.Step ⟨memory, (p, 1) :: session.live⟩ _ := .free mem freeing
  have nothing : ((p, 1) :: session.live).erase (p, 1) = [] := by rw [erase_cons_head, idle]
  have restored : freeSet frames = freeSet session.frames := by
    rw [freed.grown]
    show freeSet memory.frames ∪ _ = _
    rw [done.allocated.shrunk, Set.sdiff_union_of_subset done.allocated.free]
    rfl
  have one : livePages ⟨memory, (p, 1) :: session.live⟩ ≤ 1 := by simp [livePages, idle]
  have path : Session.ReachesWithin 1 session ⟨memory, (p, 1) :: session.live⟩ := .single ⟨taken, one⟩
  refine ⟨_, path.tail ⟨given, ?_⟩, (sound.step taken).step given, nothing, restored,
    (done.mapped_run room one_ne_zero).2.1⟩
  show (map Prod.snd (((p, 1) :: session.live).erase (p, 1))).sum ≤ 1
  rw [nothing]
  decide

theorem Session.Sound.rounds (sound : session.Sound)
    (free : q ∈ freeSet session.frames) (idle : session.live = []) (count : Nat)
    (fits : MapFits count session.memory.kmap) :
    ∃ next, Session.ReachesWithin 1 session next ∧ next.Sound ∧ next.live = [] ∧
      freeSet next.frames = freeSet session.frames ∧
      next.memory.kmap.kernelNextPage = session.memory.kmap.kernelNextPage + count := by
  induction count with
  | zero => exact ⟨session, .refl, sound, idle, rfl, rfl⟩
  | succ _ ih =>
    obtain ⟨reached, path, still, none, same, used⟩ := ih ((Nat.le_succ _).trans fits)
    have left : MapFits 1 reached.memory.kmap := by
      rw [MapFits, used, add_assoc]
      exact fits
    obtain ⟨next, further, kept, empty, again, advanced⟩ := still.round left (same ▸ free) none
    refine ⟨next, path.trans further, kept, empty, again.trans same, ?_⟩
    rw [advanced, used, add_assoc]

/-- With one frame live at a time the window still runs out, and then the next
allocation writes beyond `kptab`. -/
theorem rounds_leave_window : ∃ kmap session, mmuInit 65536 65536 bootTables = .ok kmap ∧
      (Session.initial selfLinked kmap).ReachesWithin 1 session ∧ session.live = [] ∧
      ∃ index, allocPages 1 0 session.memory = .error (.outOfBounds "kptab" index) := by
  have sound := initial_sound selfLinked ⟨bootKmap.kptab, 5136⟩
  have range : 2 < pageCount := by decide
  have permanent : ((mmInit selfLinked).pages 2).flags &&& pageFlagPerm ≠ 0 := by decide
  obtain ⟨frames, claimed, freed⟩ := sound.claimPage_exists range permanent
  have supplied : Session.Step (initial selfLinked ⟨bootKmap.kptab, 5136⟩) _ :=
    .claim range permanent claimed
  have start : Session.ReachesWithin 1 (initial selfLinked ⟨bootKmap.kptab, 5136⟩) _ :=
    .single ⟨supplied, Nat.zero_le 1⟩
  have free : 2 ∈ freeSet frames := by
    rw [freed.grown]
    exact Or.inr rfl
  obtain ⟨session, rest, worn, idle, same, used⟩ :=
    (sound.step supplied).rounds free rfl (windowPages - 5136)
      (show 5136 + (windowPages - 5136) ≤ windowPages by decide)
  have full : session.memory.kmap.kernelNextPage = windowPages :=
    used.trans (show 5136 + (windowPages - 5136) = windowPages by decide)
  have block : ¬ NoBlock 1 session.frames :=
    not_noBlock_one worn.consistent (show 2 ∈ freeSet session.frames from same ▸ free)
  have noRoom : ¬ MapFits 1 session.memory.kmap := by
    rw [MapFits, full]
    exact Nat.not_succ_le_self windowPages
  exact ⟨_, session, bootKmap_spec, start.trans rest, idle,
    (allocPages_leaves_iff 0 worn.consistent (Nat.le_of_eq full) Nat.one_ne_zero).mpr (not_or.mpr ⟨noRoom, block⟩)⟩

end Wearing

end KOs.Mm

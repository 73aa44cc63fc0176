import KOs.Mm.Buddy.Session

namespace KOs.Mm

open KOs.Arch KOs.Common KOs.Data

/-- The sequences the free lists hold, against the flags of the frames. -/
structure FreeBlocks (frames : Frames) (lists : Nat → List Nat) : Prop where
  represented : frames.list.Represents orders lists
  entry : ∀ k b, b ∈ lists k → k ≤ maxOrder ∧ 2 ^ k ∣ b ∧ (frames.pages b).order = k ∧
    ∀ q ∈ block k b, q < pageCount ∧ (frames.pages q).flags = 0
  disjoint : ∀ j a k b, a ∈ lists j → b ∈ lists k → (j, a) ≠ (k, b) →
    Disjoint (block j a) (block k b)
  exact : ∀ q, q < pageCount →
    ((frames.pages q).flags = 0 ↔ ∃ k b, b ∈ lists k ∧ q ∈ block k b)
  buddies : ∀ k b, k < maxOrder → b ∈ lists k → buddy k b ∉ lists k

variable {frames : Frames}

theorem Consistent.freeBlocks (consistent : Consistent frames) :
    ∃ lists, FreeBlocks frames lists := by
  obtain ⟨lists, listed⟩ := consistent.listed
  refine ⟨lists, listed.links, ?_, ?_, ?_, ?_⟩
  · intro k b mem
    have maximal := (listed.blocks k b).mp mem
    have ordered := listed.ordered k b mem
    exact ⟨maximal.order, ordered.aligned, ordered.head, fun q inside => maximal.inside inside⟩
  · intro j a k b inJ inK ne
    apply Set.disjoint_left.mpr
    intro q inA inB
    have same := ((listed.blocks j a).mp inJ).eq_of_mem ((listed.blocks k b).mp inK) inA inB
    exact ne (Prod.ext same.1 same.2)
  · intro q range
    constructor
    · intro zero
      obtain ⟨k, b, maximal, inside⟩ :=
        exists_maxBlock _ (show q ∈ freeSet _ from ⟨range, zero⟩)
      exact ⟨k, b, (listed.blocks k b).mpr maximal, inside⟩
    · intro ⟨k, b, mem, inside⟩
      exact (((listed.blocks k b).mp mem).inside inside).2
  · intro k b below mem paired
    exact ((listed.blocks k b).mp mem).buddy_not_maxBlock below ((listed.blocks k _).mp paired)

/-- In a `free_page(page)` called in `state`, every buddy that `ripple_join`
unlinks is in the free list of the order of the block it joins. -/
def UnlinksListed (page : Nat) (state : Frames) : Prop :=
  ∀ released next b, releaseFlags page state = .ok released →
    Iterates rippleCondition rippleBody (released, page) (next, b) →
    rippleCondition (next, b) = true →
    ∃ lists, next.list.Represents orders lists ∧ getBuddy next b ∈ lists (next.pages b).order

variable {state : Frames}

theorem unlinksListed_of_inUse {k b : Nat} (consistent : Consistent state) (ordered : OrderedBlock state.pages k b)
    (bounded : k ≤ maxOrder) (range : ∀ q ∈ block k b, q < pageCount) (used : ∀ q ∈ block k b, InUse (state.pages q)) :
    UnlinksListed b state := by
  intro released next c ran path enters
  obtain ⟨middle, expected, unflagged⟩ := releaseFlags_exists consistent ordered range used
  rw [expected] at ran
  cases ran
  have reached := path.preserves (rippleInvariant_initial unflagged.ordered bounded
    unflagged.inside unflagged.listed) (by
      intro (before, block) after holds turns ran
      obtain ⟨result, same, next, _⟩ := holds.turn unflagged.legal turns
      rw [same] at ran
      cases ran
      exact next)
  exact ripple_unlinks_listed unflagged.legal reached enters

/-- `free_pages(master, num)` called in `state` comes to call `free_page(page)`
in `reached`. -/
inductive FreePageCall : Nat → Nat → Frames → Nat → Frames → Prop
  | first {master num : Nat} {state : Frames} (more : num ≠ 0) :
      FreePageCall master num state master state
  | later {master num page : Nat} {state next reached : Frames} (more : num ≠ 0)
      (ran : freePage master state = .ok next)
      (rest : FreePageCall (master + 2 ^ Nat.log2 num) (num ^^^ 2 ^ Nat.log2 num) next page reached) :
      FreePageCall master num state page reached

variable {p n : Nat} {session : Session}

theorem FreePageCall.unlinksListed {page : Nat} {reached : Frames} (call : FreePageCall p n state page reached)
    (consistent : Consistent state) (held : Held state p n) : UnlinksListed page reached := by
  induction call with
  | @first p n _ more =>
    have inRun : block (Nat.log2 n) p ⊆ run p n := run_leading p more ▸ Set.subset_union_left
    exact unlinksListed_of_inUse consistent (held.leading consistent more).1
      (log2_le_maxOrder held.bounded) (fun q mem => held.range q (inRun mem))
      fun q mem => held.used q (inRun mem)
  | later more ran _ ih =>
    obtain ⟨_, next, expected, freed, remaining⟩ := held.leading consistent more
    rw [expected] at ran
    cases ran
    rw [xor_leading_bit more] at ih
    exact ih freed.consistent remaining

/-- What a caller of the allocator can rely on: no bug check fires, and
`ripple_join` finds what it unlinks in the list it unlinks it from. -/
structure CallsSafe (session : Session) : Prop where
  claim : ∀ index, index < pageCount →
    (session.frames.pages index).flags &&& pageFlagPerm ≠ 0 →
    (∃ frames, claimPage index session.frames = .ok frames) ∧
      UnlinksListed index (clearPerm index session.frames)
  alloc : ∀ n flags, 1 ≤ n → n ≤ 2 ^ maxOrder →
    allocPages n flags session.memory = .error (outOfMemory n session.frames) ∨
      (∃ index, allocPages n flags session.memory = .error (.outOfBounds "kptab" index)) ∨
      ∃ memory p, allocPages n flags session.memory = .ok (memory, p)
  free : ∀ p n, (p, n) ∈ session.live →
    (∃ frames, freePages p n session.frames = .ok frames) ∧
      ∀ page reached, FreePageCall p n (session.frames.setCompoundNum p 0) page reached →
        UnlinksListed page reached
  freeOne : ∀ p k, (p, 2 ^ k) ∈ session.live →
    (∃ frames, freePage p session.frames = .ok frames) ∧ UnlinksListed p session.frames

theorem Session.Sound.callsSafe (sound : session.Sound) :
    CallsSafe session := by
  refine ⟨?_, ?_, ?_, ?_⟩
  · intro index range flags
    have permanent := sound.permanent index ⟨range, flags⟩
    obtain ⟨frames, ran, _⟩ := sound.claimPage_exists range flags
    obtain ⟨ordered, inRange, used⟩ := clearPerm_held permanent range
    exact ⟨⟨frames, ran⟩, unlinksListed_of_inUse (clearPerm_consistent permanent sound.consistent)
      ordered (Nat.zero_le _) inRange used⟩
  · intro n flags pos _
    rcases allocPages_cases flags sound.consistent (show n ≠ 0 by omega) with
      memory | window | ⟨after, p, ran, _⟩
    · exact .inl memory
    · exact .inr (.inl window)
    · exact .inr (.inr ⟨after, p, ran⟩)
  · intro p n mem
    obtain ⟨frames, ran, _⟩ := sound.freePages_exists mem
    refine ⟨⟨frames, ran⟩, ?_⟩
    intro page reached call
    obtain ⟨begun, heldBegun⟩ := (sound.held (p, n) mem).2.begin sound.consistent 0
    exact call.unlinksListed begun heldBegun
  · intro p k mem
    obtain ⟨frames, ran, _⟩ := sound.freePage_exists mem
    obtain ⟨_, bounded, ordered, range, used⟩ := sound.held _ mem
    have order : k ≤ maxOrder := (Nat.pow_le_pow_iff_right (by decide)).mp bounded
    exact ⟨⟨frames, ran⟩, unlinksListed_of_inUse sound.consistent ordered.block order range used⟩

theorem buddy_invariant (list : Links (Nat ⊕ Nat)) (kmap : Kmap) (session : Session)
    (path : (Session.initial list kmap).Reaches session) :
    (∃ lists, FreeBlocks session.frames lists) ∧ CallsSafe session :=
  ⟨path.sound.consistent.freeBlocks, path.sound.callsSafe⟩

/-- Memory in which every list cell points at itself. -/
def selfLinked : Links (Nat ⊕ Nat) where
  cell node := ⟨node, node⟩

def unmapped : Kmap where
  kptab _ _ := ⟨0, 0⟩
  kernelNextPage := 0

def twoClaims : Except Fault Frames := (claimPage 2 (mmInit selfLinked)).bind (claimPage 3)

theorem twoClaims_claims (ran : twoClaims = .ok frames) :
    Claims (mmInit selfLinked) frames := by
  obtain ⟨middle, first, ran⟩ := bind_returns ran
  have kept : (claimPage 2 (mmInit selfLinked)).map (fun frames => (frames.pages 3).flags) =
      .ok _ := rfl
  rw [first] at kept
  have still : (middle.pages 3).flags &&& pageFlagPerm ≠ 0 := by
    rw [show (middle.pages 3).flags = _ from Except.ok.inj kept]
    decide
  have one : Claims (mmInit selfLinked) middle :=
    .claim .none (show 2 < pageCount by decide)
      (show _ &&& pageFlagPerm ≠ 0 by decide) first
  exact one.claim (show 3 < pageCount by decide) still ran

/-- One of the two frames is allocated. -/
theorem twoClaims_alloc : ∃ session, (Session.initial selfLinked unmapped).Reaches session ∧
    session.live = [(2, 1)] ∧ (session.frames.pages 3).flags = 0 ∧ 4 ∈ reservedSet session.frames := by
  have outcome : (twoClaims.bind fun frames => allocPages 1 0 ⟨frames, unmapped⟩).map (fun (memory, p) =>
      (p, (memory.frames.pages 3).flags, (memory.frames.pages 4).flags)) = .ok (2, 0, pageFlagPerm ||| pageFlagUsed) := rfl
  obtain ⟨⟨memory, p⟩, both, observed⟩ := map_returns outcome
  obtain ⟨rfl, zero, flags⟩ : p = 2 ∧ _ ∧ _ := by simpa only [Prod.mk.injEq] using observed
  obtain ⟨frames, claimed, taken⟩ := bind_returns both
  refine ⟨_, ((twoClaims_claims claimed).reaches unmapped).tail (.alloc (by decide) (by decide) taken), rfl, zero, by decide, ?_⟩
  exact flags ▸ (by decide : (pageFlagPerm ||| pageFlagUsed) &&& pageFlagPerm ≠ 0)

theorem buddy_invariant_twoClaims : ∃ session,
    (Session.initial selfLinked unmapped).Reaches session ∧ session.live = [(2, 1)] ∧
      (∃ lists, FreeBlocks session.frames lists) ∧ CallsSafe session := by
  obtain ⟨session, path, live, _⟩ := twoClaims_alloc
  exact ⟨session, path, live, buddy_invariant _ _ _ path⟩

/-- An allocation takes exactly its run, and freeing it restores the lists. -/
structure ExactAllocation (live : List (Nat × Nat)) (p n : Nat) (before after : Frames) : Prop where
  free : ∀ q ∈ run p n, q < pageCount ∧ (before.pages q).flags = 0
  used : ∀ q, q < pageCount →
    ((before.pages q).flags = 0 ∧ (after.pages q).flags &&& pageFlagUsed ≠ 0 ↔ q ∈ run p n)
  others : ∀ q, q ∉ run p n → (after.pages q).flags = (before.pages q).flags
  live : ∀ key ∈ live, ∀ q ∈ runRegion key, after.pages q = before.pages q
  restored : ∃ freed lists restored, freePages p n after = .ok freed ∧
    before.list.Represents orders lists ∧ freed.list.Represents orders restored ∧
    ∀ k b, b ∈ restored k ↔ b ∈ lists k

theorem Session.Sound.exactAllocation (sound : session.Sound) (pos : n ≠ 0)
    (bounded : n ≤ 2 ^ maxOrder) (allocated : Allocated p n session.frames frames) :
    ExactAllocation session.live p n session.frames frames := by
  have others : ∀ q ∉ run p n, (frames.pages q).flags = (session.frames.pages q).flags := by
    intro q outside
    by_cases free : q ∈ freeSet session.frames
    · have stillFree : q ∈ freeSet frames := allocated.shrunk ▸ ⟨free, outside⟩
      rw [stillFree.2, free.2]
    · rw [allocated.kept q free]
  refine ⟨fun q inside => allocated.free inside, ?_, others, ?_, ?_⟩
  · intro q _
    constructor
    · intro ⟨zero, used⟩
      by_contra outside
      rw [others q outside, zero] at used
      exact used rfl
    · intro inside
      exact ⟨(allocated.free inside).2, beq_eq_false_iff_ne.mp (allocated.used q inside).2⟩
  · intro key mem q owned
    exact allocated.kept q (sound.exclusive.free key mem q owned).1
  · have held : Held _ p n :=
      ⟨bounded, allocated.ordered, fun q inside => (allocated.free inside).1, allocated.used⟩
    obtain ⟨freed, ran, result⟩ := Mm.freePages_exists allocated.consistent held pos
    have same : freeSet freed = freeSet session.frames := by
      rw [result.grown, allocated.shrunk, Set.sdiff_union_of_subset allocated.free]
    obtain ⟨lists, listed⟩ := sound.consistent.listed
    obtain ⟨restored, listed'⟩ := result.consistent.listed
    rw [same] at listed'
    refine ⟨freed, lists, restored, ran, listed.links, listed'.links, fun k b => ?_⟩
    rw [listed.blocks, listed'.blocks]

/-- In every reachable state, for `do_alloc_pages` itself and for `alloc_pages`. -/
theorem alloc_free_exact_inverse (list : Links (Nat ⊕ Nat)) (kmap : Kmap) (session : Session)
    (path : (Session.initial list kmap).Reaches session) (n : Nat) (positive : 1 ≤ n)
    (bounded : n ≤ 1024) :
    (doAllocPages n session.frames ≠ .error (outOfMemory n session.frames) →
      ∃ frames p, doAllocPages n session.frames = .ok (frames, p) ∧
        ExactAllocation session.live p n session.frames frames) ∧
    ∀ flags memory p, allocPages n flags session.memory = .ok (memory, p) →
      ExactAllocation session.live p n session.frames memory.frames := by
  have nonzero : n ≠ 0 := by omega
  have fits : n ≤ 2 ^ maxOrder := bounded
  have sound := path.sound
  constructor
  · intro enough
    rcases doAllocPages_exists sound.consistent nonzero with failed | ⟨frames, p, ran, allocated, _⟩
    · exact absurd failed enough
    · exact ⟨frames, p, ran, sound.exactAllocation nonzero fits allocated⟩
  · intro flags memory p ran
    have done := allocPages_ok sound.consistent nonzero ran
    exact sound.exactAllocation nonzero fits done.allocated

theorem alloc_free_exact_inverse_twoClaims : ∃ session, (Session.initial selfLinked unmapped).Reaches session ∧
      ∃ frames p, doAllocPages 1 session.frames = .ok (frames, p) ∧
        ExactAllocation session.live p 1 session.frames frames := by
  have outcome : (twoClaims.bind (doAllocPages 1)).map Prod.snd = .ok 2 := rfl
  obtain ⟨_, both, _⟩ := map_returns outcome
  obtain ⟨frames, claimed, taken⟩ := bind_returns both
  have path := (twoClaims_claims claimed).reaches unmapped
  refine ⟨_, path, (alloc_free_exact_inverse _ _ _ path 1 (by decide) (by decide)).1 ?_⟩
  intro failed
  cases taken.symm.trans failed

/-- The frame is free, reserved or allocated. -/
def Covered (frames : Frames) (live : List (Nat × Nat)) (q : Nat) : Prop :=
  q ∈ freeSet frames ∨ q ∈ reservedSet frames ∨ ∃ key ∈ live, q ∈ runRegion key

variable {live : List (Nat × Nat)} {q : Nat}

theorem Covered.kept {remaining : List (Nat × Nat)} (covered : Covered state live q) (used : q ∉ freeSet state)
    (same : frames.pages q = state.pages q) (held : ∀ key ∈ live, q ∈ runRegion key → key ∈ remaining) :
    Covered frames remaining q := by
  rcases covered with free | reserved | ⟨key, mem, inside⟩
  · exact absurd free used
  · exact .inr (.inl ⟨reserved.1, same ▸ reserved.2⟩)
  · exact .inr (.inr ⟨key, held key mem inside, inside⟩)

theorem Freed.covered {region : Set Nat} (freed : Freed region state frames) (covered : Covered state live q)
    {remaining : List (Nat × Nat)} (returned : ∀ key ∈ live, q ∈ runRegion key → q ∈ region ∨ key ∈ remaining) :
    Covered frames remaining q := by
  by_cases free : q ∈ freeSet frames
  · exact .inl free
  have same := freed.kept q free
  rw [freed.grown] at free
  refine covered.kept (fun before => free (.inl before)) same fun key mem inside => ?_
  exact (returned key mem inside).resolve_left fun back => free (.inr back)

theorem Freed.covered_erase (freed : Freed (run p n) state frames) (covered : Covered state live q) :
    Covered frames (live.erase (p, n)) q := by
  refine freed.covered covered fun key mem inside => ?_
  by_cases same : key = (p, n)
  · rw [same] at inside
    exact .inl inside
  · exact .inr ((List.mem_erase_of_ne same).mpr mem)

theorem Allocated.covered (allocated : Allocated p n state frames) (covered : Covered state live q) :
    Covered frames ((p, n) :: live) q := by
  by_cases taken : q ∈ run p n
  · exact .inr (.inr ⟨(p, n), List.mem_cons_self, taken⟩)
  by_cases free : q ∈ freeSet state
  · exact .inl (allocated.shrunk ▸ ⟨free, taken⟩)
  exact covered.kept free (allocated.kept q free) fun _ mem _ => List.mem_cons_of_mem _ mem

theorem Session.Sound.covered_step {next : Session} (sound : session.Sound) (step : session.Step next)
    (covered : Covered session.frames session.live q) : Covered next.frames next.live q := by
  cases step with
  | claim range permanent ran =>
    obtain ⟨_, expected, freed⟩ := sound.claimPage_exists range permanent
    cases expected.symm.trans ran
    exact freed.covered covered fun _ mem _ => .inr mem
  | @alloc n _ _ _ pos _ ran =>
    exact (allocPages_ok sound.consistent (show n ≠ 0 by omega) ran).allocated.covered covered
  | free mem ran =>
    obtain ⟨_, expected, freed⟩ := sound.freePages_exists mem
    cases expected.symm.trans ran
    exact freed.covered_erase covered
  | freeOne mem ran =>
    obtain ⟨_, expected, freed⟩ := sound.freePage_exists mem
    cases expected.symm.trans ran
    exact freed.covered_erase covered

theorem Session.Reaches.covered {list : Links (Nat ⊕ Nat)} {kmap : Kmap} (path : (Session.initial list kmap).Reaches session)
    (range : q < pageCount) : Covered session.frames session.live q := by
  induction path with
  | refl =>
    have flags : ((mmInit list).pages q).flags &&& pageFlagPerm ≠ 0 := by
      show (pageFlagPerm ||| pageFlagUsed) &&& pageFlagPerm ≠ 0
      decide
    exact .inr (.inl ⟨range, flags⟩)
  | tail path step ih => exact (Session.Reaches.sound path).covered_step step ih

/-- Whatever is claimed, allocated and freed, no frame is lost and none has two owners. -/
theorem frames_conserved (list : Links (Nat ⊕ Nat)) (kmap : Kmap) (session : Session)
    (path : (Session.initial list kmap).Reaches session) :
    session.pool.Exclusive runRegion ∧ ∃ lists, FreeBlocks session.frames lists ∧
      ∀ q < pageCount, (∃ k b, b ∈ lists k ∧ q ∈ block k b) ∨ q ∈ reservedSet session.frames ∨
        ∃ key ∈ session.live, q ∈ runRegion key := by
  obtain ⟨lists, blocks⟩ := path.sound.consistent.freeBlocks
  refine ⟨path.sound.exclusive, lists, blocks, fun q range => ?_⟩
  rcases path.covered range with free | owned
  · exact .inl ((blocks.exact q range).mp free.2)
  · exact .inr owned

theorem frames_conserved_twoClaims : ∃ session, (Session.initial selfLinked unmapped).Reaches session ∧
    session.live = [(2, 1)] ∧ 4 ∈ reservedSet session.frames ∧ session.pool.Exclusive runRegion ∧
    ∃ lists, FreeBlocks session.frames lists ∧ (∃ k b, b ∈ lists k ∧ 3 ∈ block k b) ∧
      ∀ q < pageCount, (∃ k b, b ∈ lists k ∧ q ∈ block k b) ∨ q ∈ reservedSet session.frames ∨
        ∃ key ∈ session.live, q ∈ runRegion key := by
  obtain ⟨session, path, live, zero, reserved⟩ := twoClaims_alloc
  obtain ⟨exclusive, lists, blocks, covered⟩ := frames_conserved _ _ _ path
  exact ⟨session, path, live, reserved, exclusive, lists, blocks, (blocks.exact 3 (by decide)).mp zero, covered⟩

end KOs.Mm

import KOs.Mm.Buddy.Ripple

namespace KOs.Mm

open KOs.Common KOs.Data Frames

def Frames.mapRun (p n : Nat) (change : Nat → Page → Page) (state : Frames) : Frames :=
  { state with
    pages := fun q =>
      if p ≤ q ∧ q < p + n then change (q - p) (state.pages q) else state.pages q }

variable {change : Nat → Page → Page} {n p : Nat}
variable {q k b : Nat} {state before after : Frames}

theorem mapRun_inside (mem : q ∈ run p n) : (state.mapRun p n change).pages q = change (q - p) (state.pages q) :=
  if_pos mem

theorem mapRun_outside (outside : q ∉ run p n) : (state.mapRun p n change).pages q = state.pages q :=
  if_neg outside

theorem mapRun_zero (p : Nat) (change : Nat → Page → Page) (state : Frames) :
    state.mapRun p 0 change = state := by
  cases state
  simp only [mapRun, mk.injEq, and_true]
  funext q
  rw [if_neg (by omega)]

theorem mapRun_succ (p n : Nat) (change : Nat → Page → Page) (state : Frames) :
    (state.mapRun p n change).setPage (p + n) (change n (state.pages (p + n))) = state.mapRun p (n + 1) change := by
  simp only [mapRun, setPage, mk.injEq, and_true]
  funext q
  by_cases last : q = p + n
  · subst last
    rw [if_pos rfl, if_pos (by omega), Nat.add_sub_cancel_left]
  · rw [if_neg last]
    by_cases mem : p ≤ q ∧ q < p + n
    · rw [if_pos mem, if_pos (by omega)]
    · rw [if_neg mem, if_neg (by omega)]

theorem forLoop_mapRun {body : Nat → Frames → Except Fault Frames}
    (turn : ∀ index next, index < n → next.pages (p + index) = state.pages (p + index) →
      body index next = .ok (next.setPage (p + index) (change index (next.pages (p + index))))) :
    forLoop body n state = .ok (state.mapRun p n change) := by
  have loop : ∃ final, forLoop body n state = .ok final ∧ final = state.mapRun p n change := by
    apply forLoop_exists (fun index next => next = state.mapRun p index change)
    · exact (mapRun_zero p _ _).symm
    · intro index next below reached
      have same : next.pages (p + index) = state.pages (p + index) := by
        rw [reached, mapRun_outside (by simp only [mem_run]; omega)]
      refine ⟨_, turn _ next below same, ?_⟩
      rw [same, reached, mapRun_succ]
  obtain ⟨final, ran, result⟩ := loop
  rw [ran, result]

def InUse (page : Page) : Prop :=
  (page.flags &&& pageFlagPerm == 0) = true ∧ (page.flags &&& pageFlagUsed == 0) = false

variable {page : Page}

theorem inUse_of_flags (flags : page.flags = pageFlagUsed) : InUse page := by
  rw [InUse, flags]
  decide

theorem InUse.not_free (used : InUse page) : page.flags ≠ 0 := by
  intro zero
  have bit := used.2
  simp [zero] at bit

theorem InUse.isFree_eq_false (used : InUse page) : isFree page = false := by
  simp [isFree, used.2]

theorem InUse.not_mem_freeSet (used : InUse (state.pages q)) :
    q ∉ freeSet state :=
  fun mem => used.not_free mem.2

/-- The free lists are exactly the maximal free blocks, and `is_free` tells the truth. -/
structure Consistent (state : Frames) : Prop where
  listed : Listed state (freeSet state)
  legal : LegalFlags state

theorem releaseFlags_eq (order : (state.pages b).order = k) (used : ∀ q ∈ block k b, InUse (state.pages q)) :
    releaseFlags b state = .ok (Frames.mapRun b (2 ^ k) (fun _ page => { page with flags := 0 })
      { state with pagesInUse := state.pagesInUse - UInt32.ofNat (2 ^ k) }) := by
  simp only [releaseFlags, order]
  apply forLoop_mapRun
  intro index next below same
  have held : InUse (next.pages (b + index)) := by
    rw [same]
    exact used _ ⟨by omega, by omega⟩
  obtain ⟨notPerm, isUsed⟩ := held
  simp only [clearFlags, notPerm, isUsed, bne, Bool.not_true, bugOn_false]
  rfl

/-- The state between the two halves of `free_page`: the block's flags are
clear, but only the other free frames are listed. -/
structure Unflagged (before after : Frames) (k b : Nat) : Prop where
  legal : LegalFlags after
  ordered : OrderedBlock after.pages k b
  inside : block k b ⊆ freeSet after
  listed : Listed after (freeSet after \ block k b)
  grown : freeSet after = freeSet before ∪ block k b
  kept : ∀ q, q ∉ block k b → after.pages q = before.pages q

theorem releaseFlags_exists (consistent : Consistent state)
    (ordered : OrderedBlock state.pages k b) (range : ∀ q ∈ block k b, q < pageCount)
    (used : ∀ q ∈ block k b, InUse (state.pages q)) :
    ∃ after, releaseFlags b state = .ok after ∧ Unflagged state after k b := by
  refine ⟨_, releaseFlags_eq ordered.head used, ?_⟩
  generalize built : mapRun b (2 ^ k) _ _ = after
  have inBlock : ∀ q ∈ block k b, after.pages q = { state.pages q with flags := 0 } := by
    intro q mem
    rw [← built]
    exact mapRun_inside mem
  have outBlock : ∀ q ∉ block k b, after.pages q = state.pages q := by
    intro q outside
    rw [← built]
    exact mapRun_outside outside
  have sameOrder : ∀ q, (after.pages q).order = (state.pages q).order := by
    intro q
    by_cases mem : q ∈ block k b
    · rw [inBlock q mem]
    · rw [outBlock q mem]
  have grown : freeSet after = freeSet state ∪ block k b := by
    ext q
    by_cases mem : q ∈ block k b
    · simp [freeSet, inBlock q mem, range q mem, mem]
    · simp [freeSet, outBlock q mem, mem]
  have apart : freeSet after \ block k b = freeSet state := by
    rw [grown, Set.union_sdiff_cancel_right]
    intro q both
    exact (used q both.2).not_mem_freeSet both.1
  refine ⟨?_, ordered.frame fun q _ => sameOrder q, ?_, ?_, grown, outBlock⟩
  · intro q test
    by_cases mem : q ∈ block k b
    · rw [inBlock q mem]
    · rw [outBlock q mem] at test ⊢
      exact consistent.legal q test
  · rw [grown]
    exact Set.subset_union_right
  · rw [apart]
    exact consistent.listed.frame (by rw [← built]; rfl) fun q _ => sameOrder q

/-- `after` has the frames of `region` free on top of those of `before`, and
changed no frame that is not free. -/
structure Freed (region : Set Nat) (before after : Frames) : Prop where
  consistent : Consistent after
  grown : freeSet after = freeSet before ∪ region
  kept : ∀ q, q ∉ freeSet after → after.pages q = before.pages q

theorem freePage_exists (consistent : Consistent state)
    (ordered : OrderedBlock state.pages k b) (bounded : k ≤ maxOrder)
    (range : ∀ q ∈ block k b, q < pageCount) (used : ∀ q ∈ block k b, InUse (state.pages q)) :
    ∃ after, freePage b state = .ok after ∧ Freed (block k b) state after := by
  obtain ⟨middle, released, unflagged⟩ := releaseFlags_exists consistent ordered range used
  obtain ⟨after, joined, listed, changed⟩ := rippleJoin_exists unflagged.legal unflagged.ordered
    bounded unflagged.inside unflagged.listed
  refine ⟨after, ?_, ⟨changed.freeSet_eq ▸ listed, changed.legalFlags unflagged.legal⟩, ?_, ?_⟩
  · simp only [freePage, released, ok_bind]
    exact joined
  · rw [changed.freeSet_eq, unflagged.grown]
  · intro q notFree
    rw [changed.freeSet_eq] at notFree
    rw [changed.outside q notFree]
    exact unflagged.kept q fun mem => notFree (unflagged.inside mem)

theorem run_zero (p : Nat) : run p 0 = ∅ := by
  ext q
  simp only [mem_run, Set.mem_empty_iff_false, iff_false]
  omega

theorem run_leading (p : Nat) (nonempty : n ≠ 0) :
    run p n = block (Nat.log2 n) p ∪ run (p + 2 ^ Nat.log2 n) (n - 2 ^ Nat.log2 n) := by
  have leading := Nat.add_sub_cancel' (Nat.log2_self_le nonempty)
  have power := Nat.two_pow_pos (Nat.log2 n)
  ext q
  simp only [Set.mem_union, mem_block, mem_run]
  omega

theorem log2_le_maxOrder (bounded : n ≤ 2 ^ maxOrder) : Nat.log2 n ≤ maxOrder := by
  by_cases zero : n = 0
  · subst zero
    decide
  · exact (Nat.pow_le_pow_iff_right (by decide)).mp ((Nat.log2_self_le zero).trans bounded)

theorem log2_lt_self (nonempty : n ≠ 0) : Nat.log2 n < n :=
  Nat.lt_two_pow_self.trans_le (Nat.log2_self_le nonempty)

/-- A run of frames that an allocation holds, cut as the count says. -/
structure Held (frames : Frames) (p n : Nat) : Prop where
  bounded : n ≤ 2 ^ maxOrder
  ordered : RunOrdered frames.pages p n
  range : ∀ q ∈ run p n, q < pageCount
  used : ∀ q ∈ run p n, InUse (frames.pages q)

theorem Held.frame (held : Held before p n) (order : ∀ q ∈ run p n, (after.pages q).order = (before.pages q).order)
    (flags : ∀ q ∈ run p n, (after.pages q).flags = (before.pages q).flags) : Held after p n := by
  refine ⟨held.bounded, held.ordered.frame order, held.range, ?_⟩
  intro q mem
  have used := held.used q mem
  rwa [InUse, ← flags q mem] at used

theorem Held.of_pages_eq (held : Held before p n)
    (same : ∀ q ∈ run p n, after.pages q = before.pages q) : Held after p n :=
  held.frame (fun q mem => by rw [same q mem]) fun q mem => by rw [same q mem]

theorem Held.leading (held : Held state p n) (consistent : Consistent state) (nonempty : n ≠ 0) :
    OrderedBlock state.pages (Nat.log2 n) p ∧
      ∃ next, freePage p state = .ok next ∧ Freed (block (Nat.log2 n) p) state next ∧
        Held next (p + 2 ^ Nat.log2 n) (n - 2 ^ Nat.log2 n) := by
  obtain ⟨bounded, ordered, range, used⟩ := held
  cases ordered with
  | nil => contradiction
  | cons _ piece rest =>
    have whole := run_leading p nonempty
    have inPiece : block (Nat.log2 n) p ⊆ run p n := whole ▸ Set.subset_union_left
    have inRest : run (p + 2 ^ Nat.log2 n) (n - 2 ^ Nat.log2 n) ⊆ run p n :=
      whole ▸ Set.subset_union_right
    obtain ⟨next, ran, freed⟩ := freePage_exists consistent piece (log2_le_maxOrder bounded)
      (fun q mem => range q (inPiece mem)) fun q mem => used q (inPiece mem)
    -- The other pieces are in use, so the joins cannot have reached them.
    have untouched : ∀ q ∈ run (p + 2 ^ Nat.log2 n) (n - 2 ^ Nat.log2 n),
        next.pages q = state.pages q := by
      intro q mem
      apply freed.kept
      rw [freed.grown]
      intro inside
      rcases inside with free | freedNow
      · exact (used q (inRest mem)).not_mem_freeSet free
      · simp only [mem_block, mem_run] at freedNow mem
        omega
    have remaining : Held state (p + 2 ^ Nat.log2 n) (n - 2 ^ Nat.log2 n) :=
      ⟨(Nat.sub_le _ _).trans bounded, rest, fun q mem => range q (inRest mem),
        fun q mem => used q (inRest mem)⟩
    exact ⟨piece, next, ran, freed, remaining.of_pages_eq untouched⟩

/-- Freeing a run as `free_pages` cuts it: the count alone yields the pieces. -/
theorem freePagesLoop_exists {bound : Nat} (consistent : Consistent state) (held : Held state p n)
    (enough : n < bound) :
    ∃ after, freePagesLoop bound p n state = .ok after ∧ Freed (run p n) state after := by
  induction bound generalizing p n state with
  | zero => omega
  | succ _ ih =>
    by_cases empty : n = 0
    · subst empty
      refine ⟨state, rfl, consistent, ?_, fun _ _ => rfl⟩
      rw [run_zero, Set.union_empty]
    · have _ := Nat.two_pow_pos (Nat.log2 n)
      obtain ⟨piece, middle, freed, first, remaining⟩ := held.leading consistent empty
      obtain ⟨after, ran, second⟩ := ih first.consistent remaining (by omega)
      refine ⟨after, ?_, second.consistent, ?_, ?_⟩
      · have notOrder : (n == (state.pages p).order) = false := by
          rw [piece.head]
          exact beq_eq_false_iff_ne.mpr (log2_lt_self empty).ne'
        rw [freePagesLoop]
        simp only [empty, if_false, notOrder, bugOn_false, freed, xor_leading_bit empty, ok_bind]
        exact ran
      · rw [second.grown, first.grown, run_leading p empty, Set.union_assoc]
      · intro q notFree
        have notBefore : q ∉ freeSet middle := by
          intro free
          rw [second.grown] at notFree
          exact notFree (.inl free)
        rw [second.kept q notFree, first.kept q notBefore]

theorem Consistent.of_same (consistent : Consistent before) (links : after.list = before.list)
    (order : ∀ q, (after.pages q).order = (before.pages q).order)
    (flags : ∀ q, (after.pages q).flags = (before.pages q).flags) : Consistent after := by
  have sameFree : freeSet after = freeSet before := by
    ext q
    simp [freeSet, flags q]
  refine ⟨?_, ?_⟩
  · rw [sameFree]
    exact consistent.listed.frame links fun q _ => order q
  · intro q test
    rw [flags q]
    apply consistent.legal
    simpa only [isFree, flags q] using test

theorem Held.begin (held : Held state p n) (consistent : Consistent state) (num : Nat) :
    Consistent (state.setCompoundNum p num) ∧ Held (state.setCompoundNum p num) p n :=
  ⟨consistent.of_same rfl (fun q => setCompoundNum_order state p q num) fun q => setCompoundNum_flags state p q num,
    held.frame (fun q _ => setCompoundNum_order state p q num) fun q _ => setCompoundNum_flags state p q num⟩

theorem freePages_exists (consistent : Consistent state) (held : Held state p n) (pos : n ≠ 0) :
    ∃ after, freePages p n state = .ok after ∧ Freed (run p n) state after := by
  have headMember : p ∈ run p n := ⟨Nat.le_refl p, by omega⟩
  obtain ⟨begun, heldBegun⟩ := held.begin consistent 0
  obtain ⟨after, ran, freed⟩ := freePagesLoop_exists begun heldBegun (Nat.lt_succ_self n)
  have sameFree : freeSet (state.setCompoundNum p 0) = freeSet state := by simp [freeSet, setCompoundNum_flags]
  refine ⟨after, ran, freed.consistent, by rw [freed.grown, sameFree], ?_⟩
  intro q notFree
  have ne : q ≠ p := by
    intro same
    rw [freed.grown, same] at notFree
    exact notFree (.inr headMember)
  rw [freed.kept q notFree, setCompoundNum, setPage_other ne]

def Permanent (page : Page) : Prop := page.flags = pageFlagPerm ||| pageFlagUsed ∧ page.order = 0

theorem block_zero (b : Nat) : block 0 b = {b} := by
  ext q
  simp only [mem_block, Nat.pow_zero, Set.mem_singleton_iff]
  omega

section Claim

variable {index : Nat} (permanent : Permanent (state.pages index))

include permanent

theorem clearPerm_flags : ((clearPerm index state).pages index).flags = pageFlagUsed := by
  have cleared : (pageFlagPerm ||| pageFlagUsed) &&& ~~~ pageFlagPerm = pageFlagUsed := by decide
  rw [clearPerm, setFlags, setPage_same, permanent.1, cleared]

theorem clearPerm_freeSet : freeSet (clearPerm index state) = freeSet state := by
  ext q
  by_cases same : q = index
  · have notBefore : index ∉ freeSet state := by
      intro free
      have zero := free.2
      rw [permanent.1] at zero
      contradiction
    rw [same]
    exact iff_of_false (inUse_of_flags (clearPerm_flags permanent)).not_mem_freeSet notBefore
  · simp [freeSet, clearPerm, setFlags, setPage_other same]

theorem clearPerm_consistent (consistent : Consistent state) : Consistent (clearPerm index state) := by
  refine ⟨?_, ?_⟩
  · rw [clearPerm_freeSet permanent]
    exact consistent.listed.frame rfl fun q _ => setFlags_order state index q _
  · intro q test
    by_cases same : q = index
    · rw [same, (inUse_of_flags (clearPerm_flags permanent)).isFree_eq_false] at test
      contradiction
    · rw [clearPerm, setFlags, setPage_other same] at test ⊢
      exact consistent.legal q test

theorem clearPerm_held (range : index < pageCount) :
    OrderedBlock (clearPerm index state).pages 0 index ∧ (∀ q ∈ block 0 index, q < pageCount) ∧
      ∀ q ∈ block 0 index, InUse ((clearPerm index state).pages q) := by
  have onlyIndex : ∀ q ∈ block 0 index, q = index := fun q mem => by rwa [block_zero] at mem
  refine ⟨orderedBlock_zero ?_, fun q mem => onlyIndex q mem ▸ range, ?_⟩
  · exact (setFlags_order _ _ _ _).trans permanent.2
  · intro q mem
    rw [onlyIndex q mem]
    exact inUse_of_flags (clearPerm_flags permanent)

theorem claimPage_exists (consistent : Consistent state) (range : index < pageCount) :
    ∃ after, claimPage index state = .ok after ∧ Freed {index} state after := by
  obtain ⟨ordered, inRange, used⟩ := clearPerm_held permanent range
  obtain ⟨after, freed, result⟩ := freePage_exists (clearPerm_consistent permanent consistent)
    ordered (Nat.zero_le _) inRange used
  refine ⟨{ after with pagesAvaliable := after.pagesAvaliable + 1 }, ?_, ?_, ?_, ?_⟩
  · simp only [claimPage, freed, ok_bind]
    rfl
  · exact result.consistent.of_same rfl (fun _ => rfl) fun _ => rfl
  · have grown := result.grown
    rw [block_zero, clearPerm_freeSet permanent] at grown
    exact grown
  · intro q notFree
    have ne : q ≠ index := by
      intro same
      apply notFree
      show q ∈ freeSet after
      rw [result.grown, same]
      exact .inr (start_mem_block 0 _)
    exact (result.kept q notFree).trans (setPage_other ne)

end Claim

end KOs.Mm

import KOs.Mm.Buddy.Release

namespace KOs.Mm

open KOs.Common KOs.Data

/-- The run of `n` frames at `p` was free in `before` and is held in `after`;
no frame that was not free has changed. -/
structure Allocated (p n : Nat) (before after : Frames) : Prop where
  consistent : Consistent after
  free : run p n ⊆ freeSet before
  shrunk : freeSet after = freeSet before \ run p n
  ordered : RunOrdered after.pages p n
  used : ∀ q ∈ run p n, InUse (after.pages q)
  kept : ∀ q, q ∉ freeSet before → after.pages q = before.pages q
  bounded : n ≤ 2 ^ maxOrder

theorem le_two_pow_targetOrder (n : Nat) : n ≤ 2 ^ targetOrder n := by
  by_cases zero : n = 0
  · subst zero
    exact Nat.zero_le _
  · have cleared := xor_leading_bit zero
    simp only [targetOrder, cleared]
    split
    · exact Nat.lt_log2_self.le
    · omega

variable {state : Frames} {lists : Nat → List Nat} {n : Nat}

theorem search_finds {free : Set Nat} {order : Nat} (listed : FreeLists state lists free)
    (found : (List.range' (targetOrder n) (maxOrder + 1 - targetOrder n)).find?
      (fun order => !listEmpty state.list (.inl order)) = some order) :
    order ≤ maxOrder ∧ n ≤ 2 ^ order ∧ ∃ b, listFirst state.list (.inl order) = .inr b ∧ b ∈ lists order := by
  have searched := List.mem_range'_1.mp (List.mem_of_find?_eq_some found)
  have nonempty := List.find?_some found
  have reaches : targetOrder n ≤ order := searched.1
  have bounded : order ≤ maxOrder := by omega
  refine ⟨bounded, ?_, ?_⟩
  · exact (le_two_pow_targetOrder n).trans (Nat.pow_le_pow_right (by decide) reaches)
  · cases content : lists _ with
    | nil =>
      rw [(listEmpty_iff listed.links (show _ ∈ orders from bounded)).mpr content] at nonempty
      contradiction
    | cons b => exact ⟨b, listFirst_eq listed.links content, List.mem_cons_self⟩

theorem claimUsed_loop {p : Nat} (zero : ∀ q ∈ run p n, (state.pages q).flags = 0) :
    forLoop (claimUsed p) n state =
      .ok (state.mapRun p n (fun _ page => { page with flags := page.flags ||| pageFlagUsed })) := by
  apply forLoop_mapRun
  intro index next below same
  have clear : (next.pages (p + index)).flags = 0 := by
    rw [same]
    exact zero _ ⟨by omega, by omega⟩
  simp only [claimUsed, clear, bne_self_eq_false, bugOn_false]
  simp only [Frames.setFlags, ok_bind, pure_ok]

variable (consistent : Consistent state)
include consistent

theorem cut_exists {k b : Nat} (listed : FreeLists state lists (freeSet state))
    (mem : b ∈ lists k) (pos : n ≠ 0) (fits : n ≤ 2 ^ k) :
    ∃ trimmed after, trimBlock b n { state with list := listRm (.inr b) state.list } = .ok trimmed ∧
      forLoop (claimUsed b) n trimmed = .ok after ∧ Allocated b n state after ∧
      ∀ q ∈ run b n, (after.pages q).flags = pageFlagUsed := by
  have maximal := (listed.blocks k b).mp mem
  have runInside : run b n ⊆ block k b := by
    intro q inside
    simp only [mem_run, mem_block] at inside ⊢
    omega
  have orderedHere : OrderedBlock { state with list := listRm (.inr b) state.list }.pages k b :=
    listed.ordered k b mem
  obtain ⟨trimmed, trim, rest, ordered, changed⟩ := trimBlock_exists orderedHere maximal.order
    (fun q inside => (maximal.inside inside).2) (listRm_listed listed mem)
    (fun q inside outside => outside.2 inside) pos fits
  have region : freeSet state \ block k b ∪ run (b + n) (2 ^ k - n) = freeSet state \ run b n := by
    ext q
    constructor
    · intro either
      rcases either with outside | tail
      · exact ⟨outside.1, fun inside => outside.2 (runInside inside)⟩
      · have inBlock : q ∈ block k b := by
          simp only [mem_run, mem_block] at tail ⊢
          omega
        refine ⟨maximal.inside inBlock, ?_⟩
        simp only [mem_run] at tail ⊢
        omega
    · intro ⟨free, notRun⟩
      by_cases inBlock : q ∈ block k b
      · right
        simp only [mem_run, mem_block] at notRun inBlock ⊢
        omega
      · exact .inl ⟨free, inBlock⟩
  have flagsKept : ∀ q, (trimmed.pages q).flags = (state.pages q).flags := changed.flags
  have trimmedZero : ∀ q ∈ run b n, (trimmed.pages q).flags = 0 :=
    fun q inside => (flagsKept q).trans (maximal.inside (runInside inside)).2
  refine ⟨trimmed, _, trim, claimUsed_loop trimmedZero, ?_⟩
  generalize built : Frames.mapRun b n _ _ = after
  have inRun : ∀ q ∈ run b n, after.pages q = { trimmed.pages q with flags := pageFlagUsed } := by
    intro q inside
    rw [← built, mapRun_inside inside, trimmedZero q inside]
    rfl
  have outRun : ∀ q ∉ run b n, after.pages q = trimmed.pages q := by
    intro q outside
    rw [← built, mapRun_outside outside]
  have order : ∀ q, (after.pages q).order = (trimmed.pages q).order := by
    intro q
    by_cases inside : q ∈ run b n
    · rw [inRun q inside]
    · rw [outRun q inside]
  have used : ∀ q ∈ run b n, (after.pages q).flags = pageFlagUsed := by
    intro q inside
    rw [inRun q inside]
  have shrunk : freeSet after = freeSet state \ run b n := by
    ext q
    by_cases inside : q ∈ run b n
    · have notFree := (inUse_of_flags (used q inside)).not_mem_freeSet
      simp [inside, notFree]
    · simp [freeSet, outRun q _, flagsKept q, inside]
  have bounded : n ≤ 2 ^ maxOrder :=
    fits.trans (Nat.pow_le_pow_right (by decide) maximal.order)
  refine ⟨⟨⟨?_, ?_⟩, ?_, shrunk, ordered.frame fun q _ => order q, ?_, ?_, bounded⟩, used⟩
  · rw [shrunk, ← region]
    exact rest.frame (by rw [← built]; rfl) fun q _ => order q
  · intro q test
    by_cases inside : q ∈ run b n
    · rw [(inUse_of_flags (used q inside)).isFree_eq_false] at test
      contradiction
    · have same := (congrArg Page.flags (outRun q inside)).trans (flagsKept q)
      rw [same]
      apply consistent.legal
      simpa only [isFree, same] using test
  · exact fun q inside => maximal.inside (runInside inside)
  · exact fun q inside => inUse_of_flags (used q inside)
  · intro q notFree
    have outside : q ∉ block k b := fun inside => notFree (maximal.inside inside)
    rw [outRun q fun inside => outside (runInside inside)]
    exact changed.outside q outside

def outOfMemory (n : Nat) (state : Frames) : Fault :=
  .panicf "OOM! wanted %X (%X/%X)" [n, state.pagesInUse.toNat, state.pagesAvaliable.toNat]

theorem doAllocPages_found {order : Nat} (pos : n ≠ 0)
    (found : (List.range' (targetOrder n) (maxOrder + 1 - targetOrder n)).find?
      (fun order => !listEmpty state.list (.inl order)) = some order) :
    ∃ after p, doAllocPages n state = .ok (after, p) ∧ Allocated p n state after ∧
      ∀ q ∈ run p n, (after.pages q).flags = pageFlagUsed := by
  obtain ⟨lists, listed⟩ := consistent.listed
  obtain ⟨_, fits, b, first, mem⟩ := search_finds listed found
  obtain ⟨trimmed, marked, trim, loop, allocated, used⟩ :=
    cut_exists consistent listed mem pos fits
  have zero := (allocated.free ⟨Nat.le_refl b, by omega⟩).2
  refine ⟨{ marked with pagesInUse := marked.pagesInUse + UInt32.ofNat n }, b, ?_, ?_, used⟩
  · have notUsed : ((state.pages b).flags &&& pageFlagUsed != 0) = false := by
      rw [zero]
      decide
    simp only [doAllocPages, found, first, notUsed, bugOn_false, trim, loop, ok_bind]
    rfl
  · exact { allocated with consistent := allocated.consistent.of_same rfl (fun _ => rfl) (fun _ => rfl) }

theorem doAllocPages_exists (pos : n ≠ 0) :
    doAllocPages n state = .error (outOfMemory n state) ∨
      ∃ after p, doAllocPages n state = .ok (after, p) ∧ Allocated p n state after ∧
        ∀ q ∈ run p n, (after.pages q).flags = pageFlagUsed := by
  cases found : (List.range' (targetOrder n) (maxOrder + 1 - targetOrder n)).find?
      (fun order => !listEmpty state.list (.inl _)) with
  | none =>
    left
    rw [doAllocPages, found]
    rfl
  | some _ => exact .inr (doAllocPages_found consistent pos found)

end KOs.Mm

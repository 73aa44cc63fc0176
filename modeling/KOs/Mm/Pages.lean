import KOs.Arch.Mmu
import KOs.Mm.Buddy.Allocate

namespace KOs.Mm

open KOs.Arch KOs.Common KOs.Data

/-! `_alloc_pages`: the frames come from the buddy allocator, the addresses from
the kernel's window. -/

structure Memory where
  frames : Frames
  kmap : Kmap

def allocCache : UInt32 := 0x1
def allocCompound : UInt32 := 0x2
def allocZero : UInt32 := 0x4

def labelPage (page first : Nat) (flags : UInt32) (i : Nat) (frames : Frames) :
    Except Fault Frames := do
  let entry := { frames.pages (page + i) with addr := (first + pageSize * i) % 2 ^ 32 }
  bugOn (entry.flags &&& pageFlagUsed == 0) "src/mm/mm.c" 249
  bugOn (entry.flags &&& pageFlagPerm != 0) "src/mm/mm.c" 250
  return frames.setPage (page + i)
    { entry with
      flags := if flags &&& allocCache != 0 then entry.flags ||| pageFlagCache else entry.flags }

/-- `_alloc_pages`, and so `alloc_pages`.  What `ALLOC_ZERO` writes is the
contents of the new pages, which is not modelled. -/
def allocPages (num : Nat) (flags : UInt32) (mm : Memory) : Except Fault (Memory × Nat) := do
  let (frames, page) ← doAllocPages num mm.frames
  let (kmap, first) ← mapPages (pageToPhys page) num mm.kmap
  let frames ← forLoop (labelPage page first flags) num frames
  let frames :=
    if flags &&& allocCompound != 0 then frames.setCompoundNum page num else frames
  return ({ frames, kmap }, page)

def allocPage (flags : UInt32) (mm : Memory) : Except Fault (Memory × Nat) := allocPages 1 flags mm

def pageToVirt (page : Nat) (mm : Memory) : Nat := (mm.frames.pages page).addr

/-- What `_alloc_pages` makes of a frame that the buddy allocator hands out. -/
def labelled (first : Nat) (flags : UInt32) (i : Nat) (page : Page) : Page :=
  { page with
    addr := (first + pageSize * i) % 2 ^ 32
    flags := if flags &&& allocCache != 0 then page.flags ||| pageFlagCache else page.flags }

variable {flags : UInt32}

theorem labelPage_loop {page first num : Nat} {frames : Frames} (used : ∀ q ∈ run page num, InUse (frames.pages q)) :
    forLoop (labelPage page first flags) num frames = .ok (frames.mapRun page num (labelled first flags)) := by
  apply forLoop_mapRun
  intro index next below same
  have held : InUse (next.pages (page + index)) := by
    rw [same]
    exact used _ ⟨by omega, by omega⟩
  obtain ⟨notPerm, isUsed⟩ := held
  simp only [labelPage, notPerm, isUsed, bne, Bool.not_true, bugOn_false]
  rfl

def allocatedFlags (flags : UInt32) : UInt8 :=
  if flags &&& allocCache != 0 then pageFlagUsed ||| pageFlagCache else pageFlagUsed

theorem inUse_of_allocatedFlags {page : Page} (same : page.flags = allocatedFlags flags) : InUse page := by
  rw [InUse, same, allocatedFlags]
  split <;> decide

structure PagesAllocated (p n : Nat) (flags : UInt32) (before after : Memory) : Prop where
  allocated : Allocated p n before.frames after.frames
  flagged : ∀ q ∈ run p n, (after.frames.pages q).flags = allocatedFlags flags
  mapped : ∃ first, mapPages (pageToPhys p) n before.kmap = .ok (after.kmap, first) ∧
    ∀ q ∈ run p n, (after.frames.pages q).addr = (first + pageSize * (q - p)) % 2 ^ 32
  compound : flags &&& allocCompound != 0 → (after.frames.pages p).compoundNum = n

variable {p n : Nat} {mm : Memory}

theorem Allocated.relabel {before middle after : Frames}
    (allocated : Allocated p n before middle) (links : after.list = middle.list)
    (order : ∀ q, (after.pages q).order = (middle.pages q).order)
    (used : ∀ q ∈ run p n, InUse (after.pages q))
    (outside : ∀ q ∉ run p n, after.pages q = middle.pages q) :
    Allocated p n before after := by
  have sameFree : freeSet after = freeSet middle := by
    ext q
    by_cases inside : q ∈ run p n
    · exact iff_of_false (used q inside).not_mem_freeSet (allocated.used q inside).not_mem_freeSet
    · simp [freeSet, outside q inside]
  refine ⟨⟨?_, ?_⟩, allocated.free, sameFree.trans allocated.shrunk,
    allocated.ordered.frame fun q _ => order q, used, ?_, allocated.bounded⟩
  · rw [sameFree]
    exact allocated.consistent.listed.frame links fun q _ => order q
  · intro q test
    by_cases inside : q ∈ run p n
    · rw [(used q inside).isFree_eq_false] at test
      contradiction
    · rw [outside q inside] at test ⊢
      exact allocated.consistent.legal q test
  · intro q notFree
    have notRun : q ∉ run p n := fun inside => notFree (allocated.free inside)
    rw [outside q notRun]
    exact allocated.kept q notFree

theorem allocPages_cases (flags : UInt32) (consistent : Consistent mm.frames) (pos : n ≠ 0) :
    allocPages n flags mm = .error (outOfMemory n mm.frames) ∨
      (∃ index, allocPages n flags mm = .error (.outOfBounds "kptab" index)) ∨
      ∃ after p, allocPages n flags mm = .ok (after, p) ∧ PagesAllocated p n flags mm after := by
  rcases doAllocPages_exists consistent pos with failed | ⟨taken, p, ran, allocated, plain⟩
  · left
    rw [allocPages, failed]
    rfl
  · right
    cases mapping : mapPages (pageToPhys p) n mm.kmap with
    | error =>
      left
      obtain ⟨index, rfl⟩ := mapPages_fails mapping
      refine ⟨index, ?_⟩
      simp only [allocPages, ran, mapping, ok_bind, error_bind]
    | ok result =>
      right
      obtain ⟨kmap, first⟩ := result
      generalize labelling : taken.mapRun p n _ = frames
      have inRun : ∀ q ∈ run p n, frames.pages q = labelled first flags (q - p) (taken.pages q) := by
        intro q inside
        rw [← labelling, mapRun_inside inside]
      have outRun : ∀ q ∉ run p n, frames.pages q = taken.pages q := by
        intro q outside
        rw [← labelling, mapRun_outside outside]
      generalize compounding :
        (if _ &&& allocCompound != 0 then frames.setCompoundNum p n else _) = final
      have order : ∀ q, (final.pages q).order = (frames.pages q).order := by
        intro q
        rw [← compounding]
        split
        · exact setCompoundNum_order _ p q n
        · rfl
      have sameFlags : ∀ q, (final.pages q).flags = (frames.pages q).flags := by
        intro q
        rw [← compounding]
        split
        · exact setCompoundNum_flags _ p q n
        · rfl
      have sameAddr : ∀ q, (final.pages q).addr = (frames.pages q).addr := by
        intro q
        rw [← compounding]
        split
        · exact setCompoundNum_addr _ p q n
        · rfl
      have headMember : p ∈ run p n := ⟨Nat.le_refl p, by omega⟩
      have offHead : ∀ q ≠ p, final.pages q = frames.pages q := by
        intro q ne
        rw [← compounding]
        split
        · exact setPage_other ne
        · rfl
      have flagged : ∀ q ∈ run p n, (final.pages q).flags = allocatedFlags flags := by
        intro q inside
        rw [sameFlags q, inRun q inside]
        simp only [labelled, plain q inside, allocatedFlags]
      refine ⟨{ frames := final, kmap }, p, ?_, ?_, flagged, ⟨first, mapping, ?_⟩, ?_⟩
      · simp only [allocPages, ran, mapping, labelPage_loop allocated.used, labelling, ← compounding, ok_bind]
        rfl
      · apply allocated.relabel
        · show final.list = taken.list
          rw [← compounding, ← labelling]
          split <;> rfl
        · intro q
          rw [order q]
          by_cases inside : q ∈ run p n
          · rw [inRun q inside, labelled]
          · rw [outRun q inside]
        · exact fun q inside => inUse_of_allocatedFlags (flagged q inside)
        · intro q outside
          have ne : q ≠ p := fun same => outside (same ▸ headMember)
          exact (offHead q ne).trans (outRun q outside)
      · intro q inside
        rw [sameAddr q, inRun q inside, labelled]
      · intro compound
        rw [← compounding, if_pos compound, Frames.setCompoundNum, setPage_same]

theorem allocPages_ok {after : Memory} (consistent : Consistent mm.frames) (pos : n ≠ 0)
    (ran : allocPages n flags mm = .ok (after, p)) :
    PagesAllocated p n flags mm after := by
  rcases allocPages_cases flags consistent pos with
    failed | ⟨index, failed⟩ | ⟨memory, page, expected, done⟩
  iterate 2
    · rw [failed] at ran
      contradiction
  · rw [expected] at ran
    cases ran
    exact done

end KOs.Mm

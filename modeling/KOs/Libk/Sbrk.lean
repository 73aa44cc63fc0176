import Mathlib.Tactic.ByContra

namespace KOs.Libk

/-! The break of `libk/src/hook/sbrk.c`.  The kernel's `alloc_page` and `free_page` return 0. -/

def pageSize := 4096

inductive PageCall where
  | allocPage (page : Nat)
  | freePage (page : Nat)

/-- `IMAGE_END`. -/
abbrev ImageEnd := {a : Nat // 0 < a ∧ a < 4294967296}

def newDataEnd (dataEnd : Nat) (incr : Int) : Nat := ((dataEnd + incr) % 4294967296).toNat

/-- `DIV_DOWN(data_end - 1, PAGE_SIZE)`. -/
def endPage (dataEnd : Nat) : Nat := newDataEnd dataEnd (-1) / pageSize

/-- The calls that return `ERR_PTR`. -/
def Rejected (image : ImageEnd) (dataEnd : Nat) (incr : Int) : Prop :=
  incr < 0 ∧ (newDataEnd dataEnd incr < image ∨ dataEnd < newDataEnd dataEnd incr) ∨
    0 < incr ∧ newDataEnd dataEnd incr < dataEnd

instance (image dataEnd incr) : Decidable (Rejected image dataEnd incr) :=
  inferInstanceAs (Decidable (_ ∨ _))

/-- The calls made and the break afterwards; `none` if `sbrk` does not return. -/
def sbrk (image : ImageEnd) (dataEnd : Nat) (incr : Int) : Option (List PageCall × Nat) :=
  let newEndPage := endPage (newDataEnd dataEnd incr)
  if Rejected image dataEnd incr then some ([], dataEnd)
  else if incr < 0 then
    -- The unsigned `i` is never below 0.
    if newEndPage = 0 then none
    else some ((List.range (endPage dataEnd + 2 - newEndPage)).map (.freePage <| endPage dataEnd + 1 - ·),
      newDataEnd dataEnd incr)
  else
    -- There is no page to obtain if `incr` is 0.
    some ((List.range' (endPage dataEnd + 1) (newEndPage - endPage dataEnd)).map .allocPage,
      newDataEnd dataEnd incr)

structure Heap where
  brkLoc : Nat
  held : List Nat
deriving DecidableEq

/-- `none` if a page is obtained that is held, or released that is not or is needed below `brk`. -/
def perform (brk : Nat) (held : List Nat) : PageCall → Option (List Nat)
  | .allocPage page => if page ∈ held then none else some (page :: held)
  | .freePage page =>
      if page ∈ held ∧ brk ≤ page * pageSize then some (held.erase page) else none

namespace Heap

def sbrk (image : ImageEnd) (heap : Heap) (incr : Int) : Option Heap := do
  let (calls, brk) ← Libk.sbrk image heap.brkLoc incr
  return ⟨brk, ← calls.foldlM (perform brk) heap.held⟩

/-- The pages held are those beyond the image's last page that are needed below the break. -/
structure Covers (image : ImageEnd) (heap : Heap) : Prop where
  held : ∀ page, page ∈ heap.held ↔ endPage image < page ∧ page * pageSize < heap.brkLoc
  least : image ≤ heap.brkLoc
  bounded : heap.brkLoc < 4294967296

def Correct (image : ImageEnd) (heap : Heap) (incr : Int) : Prop :=
  ∃ after, heap.sbrk image incr = some after ∧ after.Covers image ∧
    (Rejected image heap.brkLoc incr → after = heap)

/-- The heaps after calls none of which lowers the break. -/
inductive Grown (image : ImageEnd) : Heap → Prop where
  | start : Grown image ⟨image, []⟩
  | call (before : Grown image heap) (grows : 0 ≤ incr ∨ Rejected image heap.brkLoc incr)
      (called : heap.sbrk image incr = some after) : Grown image after

variable {image : ImageEnd} {heap : Heap} {incr : Int}

theorem page_below_iff {dataEnd : Nat} (least : image ≤ dataEnd) (bounded : dataEnd < 4294967296)
    (page : Nat) : page * pageSize < dataEnd ↔ page ≤ endPage dataEnd := by
  have := image.2.1
  simp only [endPage, newDataEnd, pageSize]
  omega

theorem allocPages_performed (brk first n : Nat) (held : List Nat) (below : ∀ p ∈ held, p < first) :
    ∃ after, ((List.range' first n).map .allocPage).foldlM (perform brk) held = some after ∧
      ∀ p, p ∈ after ↔ p ∈ held ∨ first ≤ p ∧ p < first + n := by
  induction n generalizing first held with
  | zero => exact ⟨held, rfl, by grind⟩
  | succ n ih =>
    have fresh : first ∉ held := fun mem => absurd (below first mem) (by omega)
    obtain ⟨after, performed, mem⟩ := ih (first + 1) (first :: held) (by grind)
    exact ⟨after, by simpa [List.range'_succ, perform, fresh] using performed, by grind⟩

theorem Covers.grows (covers : heap.Covers image)
    (grows : 0 ≤ incr ∨ Rejected image heap.brkLoc incr) : heap.Correct image incr := by
  by_cases rejected : Rejected image heap.brkLoc incr
  · exact ⟨heap, by simp [sbrk, Libk.sbrk, rejected], covers, fun _ => rfl⟩
  have nonneg := grows.resolve_right rejected
  obtain ⟨held, least, bounded⟩ := covers
  have above : heap.brkLoc ≤ newDataEnd heap.brkLoc incr ∧
      newDataEnd heap.brkLoc incr < 4294967296 := by
    unfold Rejected newDataEnd at *
    omega
  have below := page_below_iff least bounded
  obtain ⟨after, performed, mem⟩ := allocPages_performed (newDataEnd heap.brkLoc incr)
    (endPage heap.brkLoc + 1) (endPage (newDataEnd heap.brkLoc incr) - endPage heap.brkLoc)
    heap.held fun p mem => Nat.lt_succ_of_le ((below p).mp ((held p).mp mem).2)
  refine ⟨⟨newDataEnd heap.brkLoc incr, after⟩, ?_, ⟨fun p => ?_, Nat.le_trans least above.1, above.2⟩,
    fun r => absurd r rejected⟩
  · simp [sbrk, Libk.sbrk, rejected, Int.not_lt.mpr nonneg, performed]
  · have := below p
    have := page_below_iff (Nat.le_trans least above.1) above.2 p
    have := page_below_iff (Nat.le_refl image.1) image.2.2 p
    simp only [mem, held]
    omega

theorem Grown.covers (grown : Grown image heap) : heap.Covers image := by
  induction grown with
  | start =>
    refine ⟨fun p => ?_, Nat.le_refl _, image.2.2⟩
    rw [page_below_iff (Nat.le_refl _) image.2.2]
    simp
  | call _ grows called ih =>
    obtain ⟨after, returned, covers, _⟩ := ih.grows grows
    cases called.symm.trans returned
    exact covers

theorem sbrk_correct_iff (grown : Grown image heap) (incr : Int) :
    heap.Correct image incr ↔ 0 ≤ incr ∨ Rejected image heap.brkLoc incr := by
  obtain ⟨held, least, bounded⟩ := grown.covers
  refine ⟨fun ⟨after, returned, _⟩ => ?_, grown.covers.grows⟩
  by_contra lowers
  obtain ⟨negative, accepted⟩ := not_or.mp lowers
  -- The first page released is the one after the last page obtained.
  have unheld : endPage heap.brkLoc + 1 ∉ heap.held := by
    rw [held, page_below_iff least bounded]
    omega
  have size : endPage heap.brkLoc + 2 - endPage (newDataEnd heap.brkLoc incr) =
      endPage heap.brkLoc + 1 - endPage (newDataEnd heap.brkLoc incr) + 1 := by
    have := image.2.1
    unfold Rejected at accepted
    simp only [endPage, pageSize, newDataEnd] at *
    omega
  by_cases zero : endPage (newDataEnd heap.brkLoc incr) = 0 <;>
    simp [sbrk, Libk.sbrk, accepted, Int.not_le.mp negative, size, zero,
      List.range_succ_eq_map, perform, unheld] at returned

theorem sbrk_grows : Correct ⟨0x804A010, by decide⟩ ⟨0x804A010, []⟩ 0x2000 :=
  (sbrk_correct_iff .start 0x2000).mpr (.inl (by decide))

/-- The page `0x804A` of the image is released with its neighbour. -/
theorem sbrk_lowers : sbrk ⟨0x804A010, by decide⟩ ⟨0x804A010, []⟩ 16 = some ⟨0x804A020, []⟩ ∧
    sbrk ⟨0x804A010, by decide⟩ ⟨0x804A020, []⟩ (-16) = none := by
  decide

end Heap

end KOs.Libk

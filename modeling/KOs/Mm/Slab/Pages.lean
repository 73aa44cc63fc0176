import Mathlib.Data.List.Perm.Subperm
import KOs.Data.Thread
import KOs.Mm.Cache

namespace KOs.Mm

open KOs.Arch KOs.Common KOs.Data List

/-! One cache page: where its objects lie, and the chain of its free ones. -/

/-- A cache whose pages have room for an object. -/
structure Cache.Fits (cache : Cache) : Prop where
  size : 1 ≤ cache.size
  max : 1 ≤ cache.max
  room : sizeofCachePage + cache.max * (cache.size + 4) ≤ pageSize

theorem cacheMax_eq {size : Nat} (room : 1 ≤ (pageSize - sizeofCachePage) / (size + 4)) :
    cacheMax size = (pageSize - sizeofCachePage) / (size + 4) := by
  have small : size + 4 ≤ pageSize - sizeofCachePage := by
    by_contra _
    rw [Nat.div_eq_of_lt (by omega)] at room
    contradiction
  have noWrap : (size + 4) % 2 ^ 32 = size + 4 := by
    simp only [pageSize, sizeofCachePage] at small
    omega
  rw [cacheMax, noWrap]

theorem cacheMax_fits {size : Nat} (pos : 1 ≤ size) (room : 1 ≤ (pageSize - sizeofCachePage) / (size + 4)) :
    Cache.Fits { size, max := cacheMax size } := by
  have whole := Nat.div_mul_le_self (pageSize - sizeofCachePage) (size + 4)
  rw [cacheMax_eq room]
  refine ⟨pos, room, ?_⟩
  simp only [pageSize, sizeofCachePage] at whole ⊢
  omega

def slotAddr (cache : Cache) (base i : Nat) : Nat :=
  base + sizeofCachePage + 4 * cache.max + i * cache.size

variable {cache : Cache} {i base : Nat}

section Slots

variable {j : Nat}

theorem slot_inside (base : Nat) (fits : cache.Fits) (inRange : i < cache.max) :
    base + sizeofCachePage + 4 * cache.max ≤ slotAddr cache base i ∧
      slotAddr cache base i + cache.size ≤ base + pageSize := by
  have last : i * cache.size + cache.size ≤ cache.max * cache.size := by
    rw [← Nat.succ_mul]
    exact Nat.mul_le_mul_right _ inRange
  have room := fits.room
  rw [Nat.mul_add, Nat.mul_comm cache.max 4] at room
  simp only [slotAddr]
  omega

theorem slot_disjoint (cache : Cache) (base : Nat) (ne : i ≠ j) :
    slotAddr cache base i + cache.size ≤ slotAddr cache base j ∨
      slotAddr cache base j + cache.size ≤ slotAddr cache base i := by
  rcases Nat.lt_or_gt_of_ne ne with below | above
  · left
    have step := Nat.mul_le_mul_right cache.size (Nat.succ_le_of_lt below)
    rw [Nat.succ_mul] at step
    simp only [slotAddr]
    omega
  · right
    have step := Nat.mul_le_mul_right cache.size (Nat.succ_le_of_lt above)
    rw [Nat.succ_mul] at step
    simp only [slotAddr]
    omega

theorem memToCachePage_eq {mem : Nat} (aligned : pageSize ∣ base) (lower : base ≤ mem)
    (upper : mem < base + pageSize) : memToCachePage mem = base := by
  simp only [memToCachePage, pageSize] at *
  omega

theorem memToCachePage_slot (fits : cache.Fits) (aligned : pageSize ∣ base)
    (inRange : i < cache.max) : memToCachePage (slotAddr cache base i) = base := by
  obtain ⟨lower, upper⟩ := slot_inside base fits inRange
  have pos := fits.size
  exact memToCachePage_eq aligned (by omega) (by omega)

theorem slot_not_aligned (fits : cache.Fits) (aligned : pageSize ∣ base)
    (inRange : i < cache.max) : ¬ pageSize ∣ slotAddr cache base i := by
  intro slotAligned
  have page := memToCachePage_slot fits aligned inRange
  obtain ⟨lower, _⟩ := slot_inside base fits inRange
  rw [memToCachePage, Nat.div_mul_cancel slotAligned] at page
  omega

theorem max_lt (fits : cache.Fits) : cache.max < pageSize := by
  have room := fits.room
  have some : cache.max * 1 ≤ cache.max * (cache.size + 4) := Nat.mul_le_mul_left _ (by omega)
  simp only [sizeofCachePage, pageSize] at *
  omega

end Slots

/-- The header and the freelist of a page of the cache `owner`, when the objects
with indices in `chain` are free. -/
structure PageSound (cache : Cache) (owner : CacheRef) (base : Nat) (page : CachePage)
    (chain : List Nat) : Prop where
  owner : page.cache = owner
  aligned : pageSize ∣ base
  below : base + pageSize ≤ 2 ^ 32
  mem : page.mem = base + sizeofCachePage + 4 * cache.max
  threaded : Threads page.entries page.free chain freelistEnd
  distinct : chain.Nodup
  bounded : ∀ i ∈ chain, i < cache.max
  left : page.left = chain.length

variable {max : Nat}

section Chains

variable {owner : CacheRef} {page : CachePage} {chain : List Nat}

theorem chain_length_le (distinct : chain.Nodup) (bounded : ∀ i ∈ chain, i < max) :
    chain.length ≤ max := by
  have inside : chain ⊆ range max := fun i mem => mem_range.mpr (bounded i mem)
  simpa using (subperm_of_subset distinct inside).length_le

section

variable (sound : PageSound cache owner base page chain)
include sound

theorem PageSound.left_le :
    chain.length ≤ cache.max :=
  chain_length_le sound.distinct sound.bounded

omit sound in
theorem PageSound.pop (sound : PageSound cache owner base page (i :: chain)) (fits : cache.Fits) :
    page.free = i ∧ PageSound cache owner base
        { page with left := (page.left + 2 ^ 32 - 1) % 2 ^ 32, free := page.entries page.free }
        chain := by
  obtain ⟨first, rest⟩ := sound.threaded
  have count := sound.left_le
  have small := max_lt fits
  have left : (page.left + 2 ^ 32 - 1) % 2 ^ 32 = chain.length := by
    rw [sound.left]
    simp only [length_cons, pageSize] at *
    omega
  refine ⟨first, sound.owner, sound.aligned, sound.below, sound.mem, ?_,
    (nodup_cons.mp sound.distinct).2,
    fun k mem => sound.bounded k (mem_cons_of_mem i mem), left⟩
  rw [first]
  exact rest

theorem PageSound.push_bounded (inRange : i < cache.max) :
    ∀ k ∈ i :: chain, k < cache.max := by
  intro k mem
  rcases mem_cons.mp mem with same | old
  · rw [same]
    exact inRange
  · exact sound.bounded k old

theorem PageSound.push_length (inRange : i < cache.max) (used : i ∉ chain) : chain.length + 1 ≤ cache.max := by
  exact chain_length_le (nodup_cons.mpr ⟨used, sound.distinct⟩) (sound.push_bounded inRange)

theorem PageSound.push (fits : cache.Fits) (inRange : i < cache.max) (used : i ∉ chain) :
    PageSound cache owner base
      { page with
        left := (page.left + 1) % 2 ^ 32
        entries := fun k => if k = i then page.free else page.entries k
        free := i }
      (i :: chain) := by
  have count := sound.push_length inRange used
  have small := max_lt fits
  refine { sound with
    threaded := sound.threaded.push used
    distinct := nodup_cons.mpr ⟨used, sound.distinct⟩
    bounded := sound.push_bounded inRange
    left := ?_ }
  show (page.left + 1) % 2 ^ 32 = chain.length + 1
  rw [sound.left]
  simp only [pageSize] at small
  omega

end

theorem freshEntries_threads (old : Nat → Nat) (pos : 1 ≤ max) :
    Threads (freshEntries max old) 0 (List.range max) freelistEnd := by
  rw [range_eq_range']
  apply threads_range
  · intro i _ _
    rw [freshEntries, if_neg (by omega), if_pos (by omega)]
  · intro _
    rw [Nat.zero_add, freshEntries, if_pos rfl]
  · intro none
    omega

end Chains

/-- Which list a page with `left` free objects belongs to. -/
def listFor (left max : Nat) : CacheList :=
  if left = 0 then .fullList else if left = max then .emptyList else .partialList

variable {left : Nat}

theorem listFor_full :
    listFor left max = .fullList ↔ left = 0 := by
  simp only [listFor]
  split
  · simp_all
  · split <;> simp_all

theorem listFor_empty (pos : 1 ≤ max) :
    listFor left max = .emptyList ↔ left = max := by
  simp only [listFor]
  split
  · simp_all
    omega
  · split <;> simp_all

theorem listFor_partly :
    listFor left max = .partialList ↔ left ≠ 0 ∧ left ≠ max := by
  simp only [listFor]
  split
  · simp_all
  · split <;> simp_all

end KOs.Mm

import KOs.Data.Word
import KOs.Mm.Kmalloc
import Mathlib.Algebra.Ring.Nat
import Mathlib.Data.List.Forall2
import Mathlib.Data.Set.Lattice
import Mathlib.Order.CompletePartialOrder

namespace KOs.Arch

open KOs.Common KOs.Data KOs.Mm

/-! What is mapped into the window of the kernel while it boots: whatever `map_pages` is asked for, and the symbol
tables and modules of the boot loader. -/

/-- Calls of `map_pages` one after the other, with the addresses that they return. -/
def mapAll : List (Nat × Nat) → Kmap → Except Fault (Kmap × List Nat)
  | [], kmap => .ok (kmap, [])
  | (phys, pages) :: calls, kmap => do
      let (kmap, virt) ← mapPages phys pages kmap
      let (kmap, virts) ← mapAll calls kmap
      return (kmap, virt :: virts)

def Translates (kmap : Kmap) (call : Nat × Nat) (virt : Nat) : Prop :=
  ∀ d, getPageoff call.1 + d < call.2 * pageSize → call.1 + d < 2 ^ 32 → virtToPhys (virt + d) kmap = .ok (call.1 + d)

def pagesOf (call : (Nat × Nat) × Nat) : Set Nat :=
  {p | call.2 / pageSize ≤ p ∧ p < call.2 / pageSize + call.1.2}

section Calls

variable {kmap after : Kmap} {phys pages d : Nat}

theorem getNextVirt_add (inside : kmap.kernelNextPage < windowPages) (phys d : Nat) :
    getNextVirt phys kmap + d = windowAddr (kmap.kernelNextPage + (getPageoff phys + d) / pageSize) +
      (getPageoff phys + d) % pageSize := by
  rw [getNextVirt_eq phys inside]
  simp only [windowAddr, pageSize]
  omega

theorem Kmap.Installs.virtToPhys {frames : Nat → Nat} {count : Nat} (installs : kmap.Installs frames count after)
    {final : Kmap} (kept : ∀ i < after.kernelNextPage, final.entry i = after.entry i)
    (within : (getPageoff phys + d) / pageSize < count) :
    Arch.virtToPhys (getNextVirt phys kmap + d) final =
      .ok (pageSize * (frames ((getPageoff phys + d) / pageSize) / pageSize) + (getPageoff phys + d) % pageSize) := by
  have next := installs.next
  have room := installs.room
  have some : 0 < count := Nat.zero_lt_of_lt within
  rw [getNextVirt_add (by omega), virtToPhys_window (by omega) (Nat.mod_lt _ (by decide)), Kmap.frame_eq,
    kept _ (by omega), installs.inside within]

theorem windowAddr_page (i : Nat) : windowAddr i / pageSize = virtualBase / pageSize + i := by
  simp only [windowAddr, virtualBase, pageSize]
  omega

theorem getNextVirt_page (inside : kmap.kernelNextPage < windowPages) (phys : Nat) :
    getNextVirt phys kmap / pageSize = windowAddr kmap.kernelNextPage / pageSize := by
  have small : getPageoff phys < pageSize := getPageoff_eq phys ▸ Nat.mod_lt _ (by decide)
  rw [getNextVirt_eq phys inside]
  simp only [windowAddr, virtualBase, pageSize] at *
  omega

theorem mem_pagesOf (room : kmap.kernelNextPage + pages ≤ windowPages) {p : Nat}
    (mem : p ∈ pagesOf ((phys, pages), getNextVirt phys kmap)) :
    windowAddr kmap.kernelNextPage / pageSize ≤ p ∧ p < windowAddr (kmap.kernelNextPage + pages) / pageSize := by
  obtain ⟨lower, upper⟩ := mem
  dsimp only at lower upper
  have some : 0 < pages := by omega
  rw [getNextVirt_page (by omega)] at lower upper
  simp only [windowAddr_page] at *
  omega

theorem phys_add (small : phys + d < 2 ^ 32) :
    pageSize * ((phys + pageSize * ((getPageoff phys + d) / pageSize)) % 2 ^ 32 / pageSize) +
      (getPageoff phys + d) % pageSize = phys + d := by
  rw [getPageoff_eq]
  simp only [pageSize] at *
  omega

theorem Kmap.Installs.translates (installs : kmap.Installs (fun i => (phys + pageSize * i) % 2 ^ 32) pages after)
    {final : Kmap} (kept : ∀ i < after.kernelNextPage, final.entry i = after.entry i) :
    Translates final (phys, pages) (getNextVirt phys kmap) := by
  intro d within small
  have inside : (getPageoff phys + d) / pageSize < pages := Nat.div_lt_of_lt_mul (by rwa [mul_comm])
  rw [installs.virtToPhys kept inside, phys_add small]

theorem mapAll_exists (calls : List (Nat × Nat)) (fits : kmap.kernelNextPage + (calls.map Prod.snd).sum ≤ windowPages) :
    ∃ final virts, mapAll calls kmap = .ok (final, virts) ∧
      final.kernelNextPage = kmap.kernelNextPage + (calls.map Prod.snd).sum ∧
      (∀ i, i < kmap.kernelNextPage ∨ final.kernelNextPage ≤ i → final.entry i = kmap.entry i) ∧
      List.Forall₂ (Translates final) calls virts ∧
      (calls.zip virts).Pairwise (fun a b => Disjoint (pagesOf a) (pagesOf b)) ∧
      ∀ call ∈ calls.zip virts, ∀ p ∈ pagesOf call, windowAddr kmap.kernelNextPage / pageSize ≤ p := by
  induction calls generalizing kmap with
  | nil => exact ⟨kmap, [], rfl, rfl, fun _ _ => rfl, .nil, .nil, by simp⟩
  | cons call calls ih =>
    obtain ⟨phys, pages⟩ := call
    rw [List.map_cons, List.sum_cons] at fits ⊢
    obtain ⟨after, ran, installs⟩ := mapPages_exists phys (show kmap.kernelNextPage + pages ≤ windowPages by omega)
    have next := installs.next
    obtain ⟨final, virts, rest, last, kept, translates, apart, beyond⟩ :=
      ih (show after.kernelNextPage + (calls.map Prod.snd).sum ≤ windowPages by omega)
    refine ⟨final, _ :: virts, ?_, by omega, fun i outside => ?_,
      .cons (installs.translates fun i below => kept i (.inl below)) translates, ?_, ?_⟩
    · simp only [mapAll, ran, rest, ok_bind, pure_ok]
    · rw [kept i (by omega), installs.outside (by omega)]
    · rw [List.zip_cons_cons, List.pairwise_cons]
      refine ⟨fun other mem => Set.disjoint_left.mpr fun p first second => ?_, apart⟩
      have above := beyond other mem p second
      have below := (mem_pagesOf (by omega) first).2
      rw [next] at above
      omega
    · rw [List.zip_cons_cons, List.forall_mem_cons]
      refine ⟨fun p first => (mem_pagesOf (by omega) first).1, fun other mem p second => ?_⟩
      have above := beyond other mem p second
      rw [windowAddr_page] at above ⊢
      omega

end Calls

/-- What was mapped once stays mapped, and every call has pages of its own. -/
theorem mappings_persist (kmap : Kmap) (calls : List (Nat × Nat)) (start : kmap.kernelNextPage = 0)
    (fits : (calls.map Prod.snd).sum ≤ kernelNumTables * numEntries) :
    ∃ final virts, mapAll calls kmap = .ok (final, virts) ∧ List.Forall₂ (Translates final) calls virts ∧
      (calls.zip virts).Pairwise (fun a b => Disjoint (pagesOf a) (pagesOf b)) := by
  obtain ⟨final, virts, ran, _, _, translates, apart, _⟩ :=
    mapAll_exists calls (show kmap.kernelNextPage + (calls.map Prod.snd).sum ≤ windowPages by rwa [start, Nat.zero_add])
  exact ⟨final, virts, ran, translates, apart⟩

def blankKmap : Kmap := { kptab := fun _ _ => ⟨0, 0⟩, kernelNextPage := 0 }

theorem mappings_persist_two : ∃ final virts, mapAll [(0x1234, 2), (0xFFFFF001, 1)] blankKmap = .ok (final, virts) ∧
    List.Forall₂ (Translates final) [(0x1234, 2), (0xFFFFF001, 1)] virts ∧
      ([(0x1234, 2), (0xFFFFF001, 1)].zip virts).Pairwise (fun a b => Disjoint (pagesOf a) (pagesOf b)) :=
  mappings_persist blankKmap [(0x1234, 2), (0xFFFFF001, 1)] rfl (by decide)

/-- What `debug_remap` does for a symbol table and `module_load` for a module, of `size` bytes. -/
def mapRange (start size : Nat) (kmap : Kmap) : Except Fault (Kmap × Nat) :=
  mapPages start (divUp size pageSize) kmap

def RangeFits (start size : Nat) : Prop := size = 0 ∨ getPageoff start + size ≤ divUp size pageSize * pageSize

theorem virtToPhys_end (kmap : Kmap) : ∃ reason, virtToPhys (windowAddr windowPages) kmap = .error reason := by
  have outside : kptabIndex (windowAddr windowPages) = .error (.outOfBounds "kptab" (2 ^ 32 - 768)) := by decide
  have nonzero : windowAddr windowPages ≠ 0 := by decide
  exact ⟨_, rfl⟩

theorem virtToPhys_beyond {kmap : Kmap} {i : Nat} (upto : i ≤ windowPages) (blank : kmap.entry i = ⟨0, 0⟩) {phys : Nat}
    (found : virtToPhys (windowAddr i) kmap = .ok phys) : phys = 0 := by
  rcases Nat.lt_or_eq_of_le upto with inside | rfl
  · have window : virtToPhys (windowAddr i + 0) kmap = _ := virtToPhys_window inside (by decide)
    rw [add_zero, Kmap.frame_eq, blank] at window
    exact (Except.ok.inj (window.symm.trans found)).symm
  · obtain ⟨_, faults⟩ := virtToPhys_end kmap
    cases faults.symm.trans found

/-- All bytes of a range are mapped exactly if its pages are as many as its length asks for and there is room for them. -/
theorem range_mapped_iff (earlier : List (Nat × Nat)) {start size : Nat} (small : start + size < 2 ^ 32)
    (before : (earlier.map Prod.snd).sum ≤ windowPages) :
    ∃ kmap virts, mapAll earlier blankKmap = .ok (kmap, virts) ∧
      ((∃ after virt, mapRange start size kmap = .ok (after, virt) ∧
        ∀ d, d < size → virtToPhys (virt + d) after = .ok (start + d)) ↔
      RangeFits start size ∧ (earlier.map Prod.snd).sum + divUp size pageSize ≤ windowPages) := by
  obtain ⟨kmap, virts, ran, next, kept, _⟩ := mapAll_exists earlier
    (show blankKmap.kernelNextPage + (earlier.map Prod.snd).sum ≤ windowPages by
      rwa [show blankKmap.kernelNextPage = 0 from rfl, Nat.zero_add])
  rw [show blankKmap.kernelNextPage = 0 from rfl, Nat.zero_add] at next
  refine ⟨kmap, virts, ran, ?_⟩
  constructor
  · rintro ⟨after, virt, mapped, all⟩
    obtain ⟨rfl, installs⟩ := mapPages_installs (by omega) mapped
    have room := installs.room
    rw [installs.next, next] at room
    refine ⟨?_, room⟩
    by_contra short
    obtain ⟨some, long⟩ := not_or.mp short
    -- the first byte behind the last page that is mapped
    have pages : 0 < divUp size pageSize := by
      rw [divUp, if_neg some]
      exact Nat.succ_pos _
    have whole : pageSize ≤ divUp size pageSize * pageSize := Nat.le_mul_of_pos_left _ pages
    have offset : getPageoff start < pageSize := getPageoff_eq start ▸ Nat.mod_lt _ (by decide)
    have found := all (divUp size pageSize * pageSize - getPageoff start) (by omega)
    rw [getNextVirt_add (by omega), Nat.add_sub_cancel' (by omega), Nat.mul_div_cancel _ (by decide), Nat.mul_mod_left,
      Nat.add_zero] at found
    have blank : after.entry (kmap.kernelNextPage + divUp size pageSize) = ⟨0, 0⟩ := by
      rw [installs.outside (Or.inr (Nat.le_refl _)), kept _ (Or.inr (Nat.le_add_right _ _))]
      rfl
    have none := virtToPhys_beyond (by omega) blank found
    omega
  · rintro ⟨enough, room⟩
    obtain ⟨after, mapped, installs⟩ := mapPages_exists start
      (show kmap.kernelNextPage + divUp size pageSize ≤ windowPages by omega)
    refine ⟨after, _, mapped, fun d below => ?_⟩
    exact installs.translates (fun _ _ => rfl) d (by rcases enough with none | enough <;> dsimp only <;> omega)
      (by dsimp only; omega)

theorem range_mapped_aligned : ∃ kmap virts, mapAll [] blankKmap = .ok (kmap, virts) ∧
    ((∃ after virt, mapRange 0x1000 0x1800 kmap = .ok (after, virt) ∧
      ∀ d, d < 0x1800 → virtToPhys (virt + d) after = .ok (0x1000 + d)) ↔
    RangeFits 0x1000 0x1800 ∧ 0 + divUp 0x1800 pageSize ≤ windowPages) :=
  @range_mapped_iff [] 0x1000 0x1800 (by decide) (by decide)

/-- A range of two bytes around the end of a page. -/
theorem range_not_mapped : ∃ after virt, mapRange 0x1FFF 2 blankKmap = .ok (after, virt) ∧
    ¬ ∀ d, d < 2 → virtToPhys (virt + d) after = .ok (0x1FFF + d) := by
  obtain ⟨after, ran, installs⟩ := mapPages_exists 0x1FFF (show blankKmap.kernelNextPage + 1 ≤ windowPages by decide)
  refine ⟨after, _, ran, fun all => ?_⟩
  have second : getNextVirt 0x1FFF blankKmap + 1 = windowAddr 1 := by decide
  have found := all 1 (by decide)
  rw [second] at found
  exact absurd (virtToPhys_beyond (by decide) (installs.outside (Or.inr (by decide))) found) (by decide)

end KOs.Arch

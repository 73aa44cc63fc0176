import KOs.Mm.Buddy.Session

namespace KOs.Mm

open KOs.Arch KOs.Common KOs.Data

/-! Where the live runs are mapped.  A mapping is never undone, so the page of
the window behind a live frame still leads to that frame. -/

def RunMapped (memory : Memory) (p n : Nat) : Prop :=
  ∃ w, w + n ≤ memory.kmap.kernelNextPage ∧
    ∀ j, j < n → (memory.frames.pages (p + j)).addr = windowAddr (w + j) ∧
      memory.kmap.frame (w + j) = p + j

structure Mapped (memory : Memory) (runs : List (Nat × Nat)) : Prop where
  room : memory.kmap.kernelNextPage ≤ windowPages
  mapped : ∀ key ∈ runs, RunMapped memory key.1 key.2

variable {i off j : Nat} {before after : Memory} {flags : UInt32} {runs : List (Nat × Nat)}

theorem windowAddr_lt (inside : i < windowPages) (small : off < pageSize) :
    windowAddr i + off < 2 ^ 32 := by
  simp only [windowAddr, windowPages, virtualBase, kernelNumTables, numEntries, pageSize] at *
  omega

theorem windowAddr_injective (same : windowAddr i = windowAddr j) : i = j := by
  simp only [windowAddr, pageSize] at same
  omega

theorem pageSize_dvd_windowAddr (i : Nat) : pageSize ∣ windowAddr i :=
  Nat.dvd_add (by decide) (Nat.dvd_mul_right _ _)

variable {p n : Nat}

theorem RunMapped.frame (mapped : RunMapped before p n) (next : before.kmap.kernelNextPage ≤ after.kmap.kernelNextPage)
    (old : ∀ i < before.kmap.kernelNextPage, after.kmap.frame i = before.kmap.frame i)
    (addr : ∀ q ∈ run p n, (after.frames.pages q).addr = (before.frames.pages q).addr) :
    RunMapped after p n := by
  obtain ⟨w, below, each⟩ := mapped
  refine ⟨w, below.trans next, ?_⟩
  intro j inside
  obtain ⟨first, second⟩ := each j inside
  rw [addr (p + j) ⟨by omega, by omega⟩, old (w + j) (by omega)]
  exact ⟨first, second⟩

theorem PagesAllocated.mapped_run
    (done : PagesAllocated p n flags before after) (room : before.kmap.kernelNextPage ≤ windowPages) (pos : n ≠ 0) :
    after.kmap.kernelNextPage ≤ windowPages ∧ after.kmap.kernelNextPage = before.kmap.kernelNextPage + n ∧
      (∀ i < before.kmap.kernelNextPage, after.kmap.frame i = before.kmap.frame i) ∧
      ∀ j < n, (after.frames.pages (p + j)).addr = windowAddr (before.kmap.kernelNextPage + j) ∧
        after.kmap.frame (before.kmap.kernelNextPage + j) = p + j := by
  obtain ⟨first, mapping, addrs⟩ := done.mapped
  have lastPage := (done.allocated.free (show p + (n - 1) ∈ run p n from ⟨by omega, by omega⟩)).1
  obtain ⟨start, next, bound, frames⟩ := mapPages_ok room (by omega) pos mapping
  refine ⟨bound, next, ?_, ?_⟩
  · intro i _
    rw [frames i, if_neg (by omega)]
  · intro j _
    constructor
    · rw [addrs (p + j) ⟨by omega, by omega⟩, start, Nat.add_sub_cancel_left]
      have small := windowAddr_lt (show before.kmap.kernelNextPage + j < windowPages by omega)
        (show 0 < pageSize by decide)
      simp only [windowAddr, pageSize] at *
      omega
    · rw [frames, if_pos (by omega), Nat.add_sub_cancel_left]

theorem Mapped.take (mapped : Mapped before runs)
    (sound : Session.Sound ⟨before, runs⟩) (done : PagesAllocated p n flags before after) (pos : n ≠ 0) :
    Mapped after ((p, n) :: runs) := by
  obtain ⟨room, next, old, new⟩ := done.mapped_run mapped.room pos
  refine ⟨room, ?_⟩
  intro key mem
  rcases List.mem_cons.mp mem with same | older
  · rw [same]
    exact ⟨before.kmap.kernelNextPage, by omega, new⟩
  · apply (mapped.mapped key older).frame (by omega) old
    intro q owned
    rw [done.allocated.kept q (sound.exclusive.free key older q owned).1]

variable {memory : Memory}

theorem Mapped.keep {frames : Frames} {remaining : List (Nat × Nat)} (mapped : Mapped memory runs)
    (fewer : ∀ key ∈ remaining, key ∈ runs)
    (kept : ∀ key ∈ remaining, ∀ q ∈ runRegion key, frames.pages q = memory.frames.pages q) :
    Mapped { memory with frames } remaining := by
  refine ⟨mapped.room, ?_⟩
  intro key mem
  refine (mapped.mapped key (fewer key mem)).frame ?_ ?_ ?_
  · exact le_rfl
  · exact fun _ _ => rfl
  · intro q owned
    rw [kept key mem q owned]

variable (mapped : RunMapped memory p n)
include mapped

section

variable (room : memory.kmap.kernelNextPage ≤ windowPages) (inside : j < n) (small : off < pageSize)
include room inside small

theorem RunMapped.virtToPhys :
    Arch.virtToPhys ((memory.frames.pages (p + j)).addr + off) memory.kmap = .ok (pageSize * (p + j) + off) := by
  obtain ⟨w, below, each⟩ := mapped
  obtain ⟨addr, frame⟩ := each j inside
  rw [addr, virtToPhys_window (by omega) small, frame]

theorem RunMapped.virtToPage :
    Arch.virtToPage ((memory.frames.pages (p + j)).addr + off) memory.kmap = .ok (p + j) := by
  obtain ⟨w, below, each⟩ := mapped
  obtain ⟨addr, frame⟩ := each j inside
  rw [addr, virtToPage_window (by omega) small, frame]

end

theorem RunMapped.addr_eq (inside : j < n) :
    (memory.frames.pages (p + j)).addr = (memory.frames.pages p).addr + pageSize * j := by
  obtain ⟨w, _, each⟩ := mapped
  obtain ⟨addr, _⟩ := each j inside
  obtain ⟨first, _⟩ := each 0 (by omega)
  rw [add_zero] at first
  rw [addr, first, add_zero]
  simp only [windowAddr, Nat.mul_add]
  omega

end KOs.Mm

import KOs.Mm.Buddy.Guarantees

namespace KOs.Fs

open KOs.Common

/-! The partitions of a disk: the devices of `fs/subblock.c` that they are given. -/

inductive BlockDevice where
  | disk (size : UInt32)
  | sub (parent : BlockDevice) (start size : UInt32)
deriving DecidableEq

namespace BlockDevice

def size : BlockDevice → UInt32
  | disk size => size
  | sub _ _ size => size

structure Request where
  write : Bool
  block : UInt32
  count : UInt32
deriving DecidableEq

/-- The read or write of `device->ops`, down to the disk; `none` is -1. -/
def access (write : Bool) : BlockDevice → UInt32 → UInt32 → Option Request
  | disk _, block, count => some { write, block, count }
  | sub parent start size, block, count =>
      if size ≤ block then none else parent.access write (block + start) count

def Inside : BlockDevice → Prop
  | disk _ => True
  | sub parent start size => start.toNat + size.toNat ≤ parent.size.toNat ∧ parent.Inside

def base : BlockDevice → Nat
  | disk _ => 0
  | sub parent start _ => parent.base + start.toNat

def Holds (block : Nat) : BlockDevice → Prop
  | disk size => block < size.toNat
  | sub parent start size => (sub parent start size).base ≤ block ∧ block < (sub parent start size).base + size.toNat ∧
      parent.Holds block

theorem holds_of_lt {device : BlockDevice} (inside : device.Inside) (lt : block < device.size.toNat) :
    device.Holds (device.base + block) := by
  induction device generalizing block with
  | disk => exact (Nat.zero_add _).symm ▸ lt
  | sub _ _ _ ih =>
    refine ⟨Nat.le_add_right _ _, Nat.add_lt_add_left lt _, ?_⟩
    rw [base, Nat.add_assoc]
    refine ih inside.2 (Nat.lt_of_lt_of_le ?_ inside.1)
    exact Nat.add_lt_add_left lt _

/-- A request is only looked at where it begins. -/
theorem access_eq {device : BlockDevice} (write : Bool) (inside : device.Inside) (lt : block < device.size)
    (count : UInt32) :
    ∃ request, device.access write block count = some request ∧ request.block.toNat = device.base + block.toNat ∧
      request.count = count := by
  induction device generalizing block with
  | disk => exact ⟨_, rfl, by simp [base], rfl⟩
  | sub parent start size ih =>
    have fits := inside.1
    have lt : block.toNat < size.toNat := lt
    have sum : (block + start).toNat = block.toNat + start.toNat := by
      have := parent.size.toNat_lt
      rw [UInt32.toNat_add, Nat.mod_eq_of_lt (by omega)]
    have below : block + start < parent.size := by
      rw [UInt32.lt_iff_toNat_lt, sum]
      omega
    obtain ⟨request, ran, begins, same⟩ := ih inside.2 below
    refine ⟨request, ?_, by rw [begins, base]; omega, same⟩
    rw [access, if_neg (by rw [UInt32.le_iff_toNat_le]; omega), ran]

def Isolated (write : Bool) (device : BlockDevice) (block count : UInt32) : Prop :=
  ∀ request, device.access write block count = some request → ∀ reached, request.block.toNat ≤ reached →
    reached < request.block.toNat + request.count.toNat → device.Holds reached

end BlockDevice

structure GptPart where
  type : Nat
  firstLba : Nat
  lastLba : Nat

/-- The header, the size of a block, what stands at each offset of the table, and the memory. -/
structure Gpt where
  partCount : Nat
  partSize : Nat
  blockSize : Nat
  /-- A block holds a `gpt_header_t`. -/
  header : 92 ≤ blockSize
  part : Nat → GptPart
  memory : Mm.Memory

/-- UEFI, LINUX_DATA and WINDOWS_DATA, as little-endian numbers. -/
def partTypes : List Nat :=
  [0x3BC93EC9A0004BBA11D2F81FC12A7328, 0xC79926B7B668C0874433B9E5EBD0A0A2, 0xE47D47D8693D798E477284830FC63DAF]

namespace Gpt

variable (gpt : Gpt)

def loaded : Nat := (gpt.partSize * gpt.partCount % 2 ^ 32 + (gpt.blockSize - 1)) / gpt.blockSize * gpt.blockSize

def pages : Nat := (gpt.loaded % 2 ^ 32 + (Mm.pageSize - 1)) / Mm.pageSize

/-- Where the bytes that are read of an entry end, and the number, start and size it is registered with. -/
def visit (i offset : Nat) : Nat × Option (Nat × Nat × Nat) :=
  let part := gpt.part offset
  if part.type ∈ partTypes then
    (offset + 48, some ((i + 1) % 256, part.firstLba % 2 ^ 32, (part.lastLba + 2 ^ 64 - part.firstLba) % 2 ^ 32))
  else (offset + 16, none)

/-- The loop of `gpt_probe`, if it ends within `fuel` tests. -/
def probe : Nat → UInt8 → Nat → Option (List (Nat × Option (Nat × Nat × Nat)))
  | 0, _, _ => none
  | fuel + 1, i, offset =>
      if i.toNat < gpt.partCount then (probe fuel (i + 1) (offset + gpt.partSize)).map (gpt.visit i.toNat offset :: ·)
      else some []

def wanted (i : Nat) : Option (Nat × Nat × Nat) :=
  let part := gpt.part (i * gpt.partSize)
  if part.type ∈ partTypes then some (i + 1, part.firstLba, part.lastLba + 1 - part.firstLba) else none

/-- `gpt_probe` from the pages for the table on. -/
def gptProbe (fuel : Nat) : Except Fault (Option (List (Nat × Option (Nat × Nat × Nat)))) := do
  let _ ← Mm.allocPages gpt.pages 0 gpt.memory
  return gpt.probe fuel 0 0

def Probed : Prop :=
  ∃ fuel visits, gpt.gptProbe fuel = .ok (some visits) ∧ (∀ visit ∈ visits, visit.1 ≤ gpt.loaded) ∧
    visits.map Prod.snd = (List.range gpt.partCount).map gpt.wanted

variable {gpt}

theorem probe_endless (many : 255 < gpt.partCount) (fuel : Nat) (i : UInt8) (offset : Nat) :
    gpt.probe fuel i offset = none := by
  induction fuel generalizing i offset with
  | zero => rfl
  | succ fuel ih =>
    have := i.toNat_lt
    rw [probe, if_pos (by omega), ih, Option.map_none]

theorem probe_eq (few : gpt.partCount ≤ 255) (fuel i left : Nat) (whole : i + left = gpt.partCount) :
    gpt.probe fuel (UInt8.ofNat i) (i * gpt.partSize) = if left < fuel then
      some ((List.range' i left).map fun i => gpt.visit i (i * gpt.partSize)) else none := by
  induction fuel generalizing i left with
  | zero => rfl
  | succ fuel ih =>
    have same : (UInt8.ofNat i).toNat = i := UInt8.toNat_ofNat_of_lt (show i < 256 by omega)
    rw [probe, same]
    cases left with
    | zero => rw [if_neg (by omega)]; rfl
    | succ left =>
      have next : UInt8.ofNat i + 1 = UInt8.ofNat (i + 1) := by simp
      rw [if_pos (by omega), next, ← Nat.succ_mul, ih (i + 1) left (by omega)]
      by_cases enough : left < fuel
      · simp [enough, List.range'_succ]
      · simp [enough]

theorem visit_wanted (same : (gpt.visit i (i * gpt.partSize)).2 = gpt.wanted i) :
    (gpt.part (i * gpt.partSize)).type ∉ partTypes := by
  intro data
  simp only [visit, wanted, if_pos data, Option.some.injEq, Prod.mk.injEq] at same
  omega

theorem walked_iff : (∃ fuel visits, gpt.probe fuel 0 0 = some visits ∧ (∀ visit ∈ visits, visit.1 ≤ gpt.loaded) ∧
    visits.map Prod.snd = (List.range gpt.partCount).map gpt.wanted) ↔ gpt.partCount ≤ 255 ∧ ∀ i < gpt.partCount,
      i * gpt.partSize + 16 ≤ gpt.loaded ∧ (gpt.part (i * gpt.partSize)).type ∉ partTypes := by
  by_cases few : gpt.partCount ≤ 255
  · have run := fun fuel => probe_eq few fuel 0 gpt.partCount (Nat.zero_add _)
    rw [Nat.zero_mul, ← List.range_eq_range'] at run
    constructor
    · rintro ⟨fuel, visits, ran, inside, registered⟩
      have ran := (run fuel).symm.trans ran
      split at ran
      · cases ran
        rw [List.map_map, List.map_inj_left] at registered
        refine ⟨few, fun i lt => ?_⟩
        have mem := List.mem_range.mpr lt
        have other := visit_wanted (registered i mem)
        have stop := inside _ (List.mem_map_of_mem mem)
        rw [visit, if_neg other] at stop
        exact ⟨stop, other⟩
      · contradiction
    · rintro ⟨_, right⟩
      refine ⟨_, _, (run _).trans (if_pos (Nat.lt_succ_self _)), ?_, ?_⟩
      · intro visit mem
        obtain ⟨i, here, rfl⟩ := List.mem_map.mp mem
        have holds := right i (List.mem_range.mp here)
        rw [Gpt.visit, if_neg holds.2]
        exact holds.1
      · rw [List.map_map, List.map_inj_left]
        intro i here
        have other := (right i (List.mem_range.mp here)).2
        simp [visit, wanted, other]
  · refine iff_of_false ?_ fun holds => few holds.1
    rintro ⟨fuel, visits, ran, _⟩
    rw [probe_endless (Nat.not_le.mp few)] at ran
    contradiction

/-- No partition is registered with the right size, a table of 256 entries is walked for ever, and
there are no pages for an empty one. -/
theorem probed_iff (gpt : Gpt) : gpt.Probed ↔ (∃ memory start, Mm.allocPages gpt.pages 0 gpt.memory = .ok (memory, start)) ∧
    gpt.partCount ≤ 255 ∧ ∀ i < gpt.partCount,
      i * gpt.partSize + 16 ≤ gpt.loaded ∧ (gpt.part (i * gpt.partSize)).type ∉ partTypes := by
  rw [← walked_iff]
  cases taken : Mm.allocPages gpt.pages 0 gpt.memory with
  | error =>
    refine iff_of_false ?_ (by simp)
    rintro ⟨_, _, ran, _⟩
    rw [gptProbe, taken] at ran
    contradiction
  | ok taken' =>
    have ran : ∀ fuel, gpt.gptProbe fuel = .ok (gpt.probe fuel 0 0) := fun _ => by rw [gptProbe, taken]; rfl
    simp only [Probed, ran, Except.ok.injEq]
    exact (and_iff_right ⟨taken'.1, taken'.2, rfl⟩).symm

/-- A table of one entry, a data partition of the sectors 34 to 99. -/
def oneEntry (memory : Mm.Memory) : Gpt where
  partCount := 1
  partSize := 128
  blockSize := 512
  header := by decide
  part _ := ⟨0xC79926B7B668C0874433B9E5EBD0A0A2, 34, 99⟩
  memory := memory

theorem oneEntry_probe (memory : Mm.Memory) : (oneEntry memory).probe 2 0 0 = some [(48, some (1, 34, 65))] := by
  have data : ((oneEntry memory).part 0).type ∈ partTypes := .tail _ (.head _)
  have one : (oneEntry memory).visit 0 0 = (48, some (1, 34, 65)) := by
    rw [visit, if_pos data]
    show (48, some (1, 34 % 2 ^ 32, (99 + 2 ^ 64 - 34) % 2 ^ 32)) = _
    decide
  have first : (0 : UInt8).toNat < (oneEntry memory).partCount := Nat.one_pos
  have last : ¬ (0 + 1 : UInt8).toNat < (oneEntry memory).partCount := Nat.lt_irrefl 1
  rw [probe, if_pos first, probe, if_neg last]
  exact congrArg (fun visit => some [visit]) one

/-- There is a page for it, and it is registered with 65 sectors. -/
theorem partition_short : ∃ memory, (oneEntry memory).gptProbe 2 = .ok (some [(48, some (1, 34, 65))]) ∧
    ¬ (oneEntry memory).Probed := by
  have outcome : (Mm.twoClaims.bind fun frames => Mm.allocPages 1 0 ⟨frames, Mm.unmapped⟩).map Prod.snd = .ok 2 := rfl
  obtain ⟨_, both, _⟩ := map_returns outcome
  obtain ⟨frames, _, taken⟩ := bind_returns both
  refine ⟨⟨frames, Mm.unmapped⟩, ?_, fun probed => ?_⟩
  · have one : (oneEntry ⟨frames, Mm.unmapped⟩).pages = 1 := by simp [pages, loaded, oneEntry, Mm.pageSize]
    rw [gptProbe, one, oneEntry_probe]
    exact congrArg (Except.map fun _ => some [(48, some (1, 34, 65))]) taken
  · have right := ((probed_iff _).mp probed).2.2 0 Nat.one_pos
    exact right.2 (.tail _ (.head _))

end Gpt

end KOs.Fs

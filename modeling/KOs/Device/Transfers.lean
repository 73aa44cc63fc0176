import Mathlib.Algebra.GroupWithZero.Nat

namespace KOs.Device

/-! The sectors that `pata_access` and `sata_access` ask a drive for, move and report. -/

structure IdeDevice where
  lba : Bool
  dma : Bool

def ataSectorSize := 512
def maxPrdEntries := 512
def prdBytes := 64 * 1024

/-- 0 is CHS, 1 is LBA28 and 2 is LBA48. -/
def lbaMode (device : IdeDevice) (lba : Nat) : Nat :=
  if 0x10000000 ≤ lba then 2 else if device.lba then 1 else 0

/-- `lba_io`, the lowest byte first, and what ATA_REG_HDDEVSEL is given. -/
def addressRegisters (device : IdeDevice) (drive lba : Nat) : List Nat × Nat :=
  let sect := lba % 63 + 1
  let cyl := (lba + 1 - sect) / (16 * 63) % 65536
  match lbaMode device lba with
  | 0 => ([sect, cyl % 256, cyl / 256, 0, 0, 0], 0xA0 ||| drive <<< 4 ||| (lba + 1 - sect) % (16 * 63) / 63)
  | 1 => ([lba % 256, lba / 2 ^ 8 % 256, lba / 2 ^ 16 % 256, 0, 0, 0], 0xE0 ||| drive <<< 4 ||| lba / 2 ^ 24 % 16)
  | _ => ([lba % 256, lba / 2 ^ 8 % 256, lba / 2 ^ 16 % 256, lba / 2 ^ 24 % 256, 0, 0], 0xE0 ||| drive <<< 4 ||| 0)

theorem head_of_select : ∀ drive < 2, ∀ head < 16,
    (0xA0 ||| drive <<< 4 ||| head) % 16 = head ∧ (0xE0 ||| drive <<< 4 ||| head) % 16 = head := by decide

/-- The drive finds the sector that was asked for, by its LBA or by cylinder, head and sector. -/
def Addressed (mode lba : Nat) : List Nat × Nat → Prop
  | ([a, b, c, d, e, f], select) => match mode with
    | 0 => 1 ≤ a ∧ a ≤ 63 ∧ select % 16 ≤ 15 ∧ ((b + 2 ^ 8 * c) * 16 + select % 16) * 63 + a - 1 = lba
    | 1 => a + 2 ^ 8 * b + 2 ^ 16 * c + 2 ^ 24 * (select % 16) = lba
    | _ => a + 2 ^ 8 * b + 2 ^ 16 * c + 2 ^ 24 * d + 2 ^ 32 * e + 2 ^ 40 * f = lba
  | _ => False

theorem registers_address (device : IdeDevice) (drive lba : Nat) (drives : drive < 2) (small : lba < 2 ^ 32)
    (reached : lbaMode device lba = 0 → lba < 65536 * 16 * 63) :
    Addressed (lbaMode device lba) lba (addressRegisters device drive lba) := by
  have head := head_of_select drive drives
  rw [addressRegisters]
  split
  next mode =>
    have select := (head ((lba + 1 - (lba % 63 + 1)) % (16 * 63) / 63) (by omega)).1
    have bound := reached mode
    simp only [Addressed, mode, select]
    omega
  next mode =>
    have select := (head (lba / 2 ^ 24 % 16) (by omega)).2
    have bound : lba < 0x10000000 := by grind [lbaMode]
    simp only [Addressed, mode, select]
    omega
  next chs lba28 =>
    have mode : lbaMode device lba = 2 := by grind [lbaMode]
    simp only [Addressed, mode]
    omega

theorem registers_address_chs : Addressed (lbaMode ⟨false, false⟩ 1000) 1000 (addressRegisters ⟨false, false⟩ 1 1000) :=
  registers_address _ 1 1000 (by decide) (by decide) (fun _ => by decide)

/-- The sizes of the segments of a PRDT with room for `left` more. -/
def prdt : Nat → Nat → List Nat
  | 0, _ => []
  | left + 1, bytes =>
      if prdBytes < bytes then prdBytes :: prdt left (bytes - prdBytes) else if 0 < bytes then [bytes] else []

def secdevice (numsects : Nat) : Nat := if 255 < numsects then 0 else numsects

def sectors (register : Nat) : Nat := if register = 0 then 256 else register

/-- The count returned, the one commanded, and the bytes described or copied. -/
structure Transfer where
  returned : Nat
  commanded : Nat
  bytes : Nat

def Transfer.Reported (transfer : Transfer) : Prop :=
  transfer.returned = transfer.commanded ∧ transfer.bytes = ataSectorSize * transfer.commanded

variable (write : Bool) (poll : Nat → Nat)

/-- The sectors copied after the first `i`, and the error of `ide_poll` at which a read stops. -/
def pio (i : Nat) : Nat → Nat × Nat
  | 0 => (i, 0)
  | left + 1 => if !write ∧ poll i ≠ 0 then (i, poll i) else pio (i + 1) left

def pataAccess (device : IdeDevice) (numsects lba : Nat) : Transfer :=
  let commanded := sectors (secdevice numsects)
  if 0 < lbaMode device lba ∧ device.dma then
    let transfered := (prdt maxPrdEntries (ataSectorSize * if numsects = 0 then 512 else numsects)).sum
    { returned := transfered / ataSectorSize, commanded, bytes := transfered }
  else
    let (copied, err) := pio write poll 0 (sectors (secdevice numsects))
    { returned := if err = 0 then copied else err, commanded, bytes := ataSectorSize * copied }

/-- The count returned, and `count_low` and `count_high` of the FIS. -/
def sataAccess (count : Nat) : Nat × Nat := (1, count % 256 + 256 * (count / 256 % 256))

theorem prdt_sum (left bytes : Nat) : (prdt left bytes).sum = min bytes (left * prdBytes) := by
  induction left generalizing bytes with
  | zero => simp [prdt]
  | succ _ ih =>
    rw [prdt, Nat.succ_mul]
    split
    · rw [List.sum_cons, ih]
      omega
    · split
      · rw [List.sum_singleton]
        omega
      · rw [List.sum_nil]
        omega

def Answers (i stop : Nat) : Prop := write ∨ ∀ k < stop, i ≤ k → poll k = 0

theorem pio_cases (i left : Nat) : Answers write poll i (i + left) ∧ pio write poll i left = (i + left, 0) ∨
    ¬ Answers write poll i (i + left) ∧ (pio write poll i left).1 < i + left := by
  induction left generalizing i with
  | zero => exact .inl ⟨.inr fun k last first => absurd last (Nat.not_lt.mpr first), rfl⟩
  | succ left ih =>
    rw [pio]
    split
    next stops =>
      refine .inr ⟨fun answers => ?_, Nat.lt_add_of_pos_right (Nat.succ_pos left)⟩
      rcases answers with writes | calm
      · simp [writes] at stops
      · exact stops.2 (calm i (by omega) (Nat.le_refl i))
    next goes =>
      have same : Answers write poll i (i + 1 + left) ↔ Answers write poll (i + 1) (i + 1 + left) := by
        grind [Answers]
      have sum : i + (left + 1) = i + 1 + left := by omega
      rw [sum, same]
      exact ih (i + 1)

/-- A DMA request of more than 256 sectors is described and reported as a whole but only 256 are commanded, a
read that fails returns its error, and `sata_access` returns 1. -/
theorem reports_iff (device : IdeDevice) (n lba : Nat) (some : 1 ≤ n) :
    ((pataAccess write poll device n lba).Reported ↔
      if 0 < lbaMode device lba ∧ device.dma then n ≤ 256 else Answers write poll 0 (min n 256)) ∧
    ((sataAccess n).1 = (sataAccess n).2 ↔ n % 65536 = 1) := by
  have commanded : sectors (secdevice n) = min n 256 := by grind [sectors, secdevice]
  constructor
  · rw [pataAccess, commanded]
    split
    · rw [prdt_sum, if_neg (by omega)]
      simp only [Transfer.Reported, ataSectorSize, maxPrdEntries, prdBytes]
      omega
    · have outcome := pio_cases write poll 0 (min n 256)
      rw [Nat.zero_add] at outcome
      rcases outcome with ⟨answers, ran⟩ | ⟨fails, short⟩
      · simp [Transfer.Reported, ran, answers]
      · refine iff_of_false (fun reported => ?_) fails
        have whole : ataSectorSize * (pio write poll 0 (min n 256)).1 = ataSectorSize * min n 256 := reported.2
        rw [ataSectorSize] at whole
        omega
  · simp only [sataAccess]
    omega

theorem reports_most : (pataAccess false (fun _ => 0) ⟨true, true⟩ 256 0).Reported ∧
    (pataAccess true (fun _ => 0) ⟨true, false⟩ 300 0).Reported :=
  ⟨(reports_iff false (fun _ => 0) ⟨true, true⟩ 256 0 (by decide)).1.mpr (by simp [lbaMode]),
    (reports_iff true (fun _ => 0) ⟨true, false⟩ 300 0 (by decide)).1.mpr (by simp [Answers])⟩

/-- 256 sectors are asked for, and 257 reported. -/
theorem overreports : ¬ (pataAccess false (fun _ => 0) ⟨true, true⟩ 257 0).Reported :=
  fun reported => absurd reported.1 (by decide)

end KOs.Device

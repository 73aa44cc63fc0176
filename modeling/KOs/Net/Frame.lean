import KOs.Data.Bytes

namespace KOs.Net.Frame

open KOs.Data List

/-! The frame of a packet, from `packet_expand` in `net/packet.c`.

The parts of a packet are the bytes that their buffers hold; they lie outside of the transmit
buffers.
-/

abbrev Byte := BitVec 8

abbrev Memory := BitVec 32 → Byte

structure SockBuff where
  buff : List Byte
  /-- `size` is a `uint32_t`. -/
  sized : buff.length < 2 ^ 32

def SockBuff.size (part : SockBuff) : Nat := part.buff.length

structure Packet where
  link : SockBuff
  net : SockBuff
  tran : SockBuff
  payload : SockBuff

def memcpy (dest : BitVec 32) (bytes : List Byte) (memory : Memory) : Memory := place dest bytes memory

def memset (dest : BitVec 32) (byte : Byte) (count : BitVec 32) (memory : Memory) : Memory :=
  place dest (List.replicate count.toNat byte) memory

def packetExpand (buff : BitVec 32) (packet : Packet) (minimumSize : BitVec 32) (memory : Memory) : Nat × Memory :=
  -- a `uint16_t`
  let len := (packet.link.size + packet.net.size + packet.tran.size + packet.payload.size) % 2 ^ 16
  let memory := memcpy buff packet.link.buff memory
  let buff := buff + BitVec.ofNat 32 packet.link.size
  let memory := memcpy buff packet.net.buff memory
  let buff := buff + BitVec.ofNat 32 packet.net.size
  let memory := memcpy buff packet.tran.buff memory
  let buff := buff + BitVec.ofNat 32 packet.tran.size
  let memory := memcpy buff packet.payload.buff memory
  let buff := buff + BitVec.ofNat 32 packet.payload.size
  if len < minimumSize.toNat then
    -- the count is unsigned, and so is its wrap below zero
    (minimumSize.toNat % 2 ^ 16, memset buff 0 (60 - minimumSize) memory)
  else
    (len, memory)

def Packet.bytes (packet : Packet) : List Byte :=
  packet.link.buff ++ packet.net.buff ++ packet.tran.buff ++ packet.payload.buff

def Packet.total (packet : Packet) : Nat := packet.bytes.length

variable {buff minimumSize : BitVec 32} {packet : Packet} {memory : Memory}

theorem Packet.total_eq : packet.total = packet.link.size + packet.net.size + packet.tran.size + packet.payload.size := by
  simp [total, bytes, SockBuff.size, add_assoc]

theorem packetExpand_eq (fits : packet.total ≤ 2 ^ 32) :
    packetExpand buff packet minimumSize memory =
      if packet.total % 2 ^ 16 < minimumSize.toNat then
        (minimumSize.toNat % 2 ^ 16,
          memset (buff + BitVec.ofNat 32 packet.total) 0 (60 - minimumSize) (place buff packet.bytes memory))
      else (packet.total % 2 ^ 16, place buff packet.bytes memory) := by
  have whole := packet.total_eq
  simp only [SockBuff.size] at whole
  have two : (packet.link.buff ++ packet.net.buff).length = packet.link.buff.length + packet.net.buff.length :=
    length_append
  have three : (packet.link.buff ++ packet.net.buff ++ packet.tran.buff).length =
      packet.link.buff.length + packet.net.buff.length + packet.tran.buff.length := by
    simp only [length_append]
  have four : (packet.link.buff ++ packet.net.buff ++ packet.tran.buff ++ packet.payload.buff).length = packet.total := rfl
  simp only [packetExpand, memcpy, SockBuff.size, BitVec.add_assoc buff, ← BitVec.ofNat_add, ← whole]
  rw [place_append (by omega), ← two, place_append (by omega), two, ← three, place_append (by omega), ← Packet.bytes]

/-- What is sent depends on nothing but the packet. -/
structure OnlyPacket (buff : BitVec 32) (packet : Packet) (minimumSize : BitVec 32) : Prop where
  length : ∀ memory, (packetExpand buff packet minimumSize memory).1 = max packet.total minimumSize.toNat
  same : ∀ memory other,
    contents buff (packetExpand buff packet minimumSize memory).1 (packetExpand buff packet minimumSize memory).2 =
      contents buff (packetExpand buff packet minimumSize other).1 (packetExpand buff packet minimumSize other).2
  frame : ∀ memory,
    contents buff (packetExpand buff packet minimumSize memory).1 (packetExpand buff packet minimumSize memory).2 =
      packet.bytes ++ List.replicate (minimumSize.toNat - packet.total) 0
  untouched : ∀ memory address, (packetExpand buff packet minimumSize memory).1 ≤ (address - buff).toNat →
    (packetExpand buff packet minimumSize memory).2 address = memory address

/-- The length fits, and if there is padding, 60 is as far above the minimum as that is above the
length of the packet. -/
def PaddingFits (packet : Packet) (minimumSize : BitVec 32) : Prop :=
  packet.total < 2 ^ 16 ∧
    (minimumSize.toNat ≤ packet.total ∨ minimumSize.toNat ≤ 60 ∧ packet.total + 60 = 2 * minimumSize.toNat)

instance : Decidable (PaddingFits packet minimumSize) := inferInstanceAs (Decidable (_ ∧ _))

theorem packetExpand_length_lt : (packetExpand buff packet minimumSize memory).1 < 2 ^ 16 := by
  simp only [packetExpand]
  split
  · exact Nat.mod_lt _ (by decide)
  · exact Nat.mod_lt _ (by decide)

theorem packetExpand_padded (fits : PaddingFits packet minimumSize) :
    packetExpand buff packet minimumSize memory = (max packet.total minimumSize.toNat,
        place buff (packet.bytes ++ List.replicate (minimumSize.toNat - packet.total) 0) memory) := by
  obtain ⟨short, padding⟩ := fits
  rw [packetExpand_eq (by omega), Nat.mod_eq_of_lt short]
  rcases padding with large | ⟨least, balanced⟩
  · simp [not_lt.mpr large, Nat.sub_eq_zero_of_le large, Nat.max_eq_left large]
  · have count : (60 - minimumSize).toNat = 60 - minimumSize.toNat := by bv_omega
    have needed : 60 - minimumSize.toNat = minimumSize.toNat - packet.total := by omega
    by_cases less : packet.total < minimumSize.toNat
    · have joined : (packet.bytes ++ replicate (minimumSize.toNat - packet.total) (0 : Byte)).length ≤ 2 ^ 32 := by
        rw [length_append, length_replicate, ← Packet.total]
        omega
      have appended : place (buff + BitVec.ofNat 32 packet.total) (replicate (minimumSize.toNat - packet.total) 0)
          (place buff packet.bytes memory) = _ := place_append joined
      rw [if_pos less, Nat.max_eq_right (Nat.le_of_lt less), Nat.mod_eq_of_lt (by omega), memset, count, needed, appended]
    · rw [if_neg less, Nat.max_eq_left (by omega), Nat.sub_eq_zero_of_le (by omega), replicate_zero, append_nil]

/-- A memory of ones shows where the padding ends. -/
theorem padding_count (only : OnlyPacket buff packet minimumSize) (short : packet.total < 2 ^ 16)
    (least : minimumSize.toNat < 2 ^ 16) (less : packet.total < minimumSize.toNat) :
    (60 - minimumSize).toNat = minimumSize.toNat - packet.total := by
  obtain ⟨needed, whole⟩ := Nat.exists_eq_add_of_lt less
  rw [add_assoc] at whole
  have missing : minimumSize.toNat - packet.total = needed + 1 := by omega
  have expanded : packetExpand buff packet minimumSize (fun _ => 1) = (packet.total + (needed + 1),
      place (buff + BitVec.ofNat 32 packet.total) (replicate (60 - minimumSize).toNat 0)
        (place buff packet.bytes fun _ => 1)) := by
    rw [packetExpand_eq (by omega), Nat.mod_eq_of_lt short, if_pos less, Nat.mod_eq_of_lt least, memset, whole]
  have frame := only.frame fun _ => 1
  have behind := only.untouched (fun _ => 1) (buff + BitVec.ofNat 32 (packet.total + (needed + 1)))
  rw [expanded, toNat_add_sub_self (by omega)] at behind
  rw [expanded, missing] at frame
  have reaches : needed + 1 ≤ (60 - minimumSize).toNat :=
    fill_reaches (by decide) (Nat.le_of_lt (Nat.lt_trans (whole ▸ least) (by decide))) frame
  have stops : (60 - minimumSize).toNat ≤ needed + 1 :=
    fill_stops (by decide) (Nat.le_of_lt (60 - minimumSize).isLt) (behind le_rfl)
  rw [missing]
  exact Nat.le_antisymm stops reaches

theorem expand_sends_only_packet (buff : BitVec 32) (packet : Packet) (minimumSize : BitVec 32) :
    OnlyPacket buff packet minimumSize ↔ PaddingFits packet minimumSize := by
  constructor
  · intro only
    have returned := only.length fun _ => 0
    have bound : (packetExpand buff packet minimumSize fun _ => 0).1 < 2 ^ 16 := packetExpand_length_lt
    rw [returned] at bound
    obtain ⟨short, least⟩ := Nat.max_lt.mp bound
    refine ⟨short, ?_⟩
    by_cases less : packet.total < minimumSize.toNat
    · have count := padding_count only short least less
      bv_omega
    · exact .inl (Nat.le_of_not_lt less)
  · intro fits
    have small : packet.total < 2 ^ 16 := fits.1
    have joined : (packet.bytes ++ replicate (minimumSize.toNat - packet.total) (0 : Byte)).length =
        max packet.total minimumSize.toNat := by
      rw [length_append, length_replicate, ← Packet.total]
      omega
    have whole : ∀ memory, contents buff (packetExpand buff packet minimumSize memory).1 (packetExpand buff packet minimumSize memory).2 =
        packet.bytes ++ replicate (minimumSize.toNat - packet.total) 0 := by
      intro memory
      rw [packetExpand_padded fits, ← joined]
      exact contents_place (by have := minimumSize.isLt; omega)
    refine ⟨fun memory => by rw [packetExpand_padded fits], fun memory other => by rw [whole, whole], whole, ?_⟩
    intro memory address outside
    rw [packetExpand_padded fits] at outside ⊢
    exact place_outside (joined ▸ outside)

/-- The size of an ARP request: an Ethernet header of 14 bytes and 28 bytes behind it. -/
def arpRequest : Packet where
  link := ⟨List.replicate 14 0xFF, by decide⟩
  net := ⟨[], by decide⟩
  tran := ⟨[], by decide⟩
  payload := ⟨List.replicate 28 1, by decide⟩

theorem expand_sends_stale_bytes :
    ((packetExpand 0x1000 arpRequest 60 fun _ => 0xAA).1 = 60 ∧
      contents (0x1000 + 42) 18 (packetExpand 0x1000 arpRequest 60 fun _ => 0xAA).2 = List.replicate 18 0xAA) ∧
    ¬ OnlyPacket 0x1000 arpRequest 60 := by
  have leaked : (packetExpand 0x1000 arpRequest 60 fun _ => 0xAA).1 = 60 ∧
      contents (0x1000 + 42) 18 (packetExpand 0x1000 arpRequest 60 fun _ => 0xAA).2 = replicate 18 0xAA := by
    decide +kernel
  refine ⟨leaked, fun only => ?_⟩
  have same := only.same (fun _ => 0xAA) fun _ => 0
  exact absurd same (by decide +kernel)

def ethMinPacketSize : BitVec 32 := 60

end KOs.Net.Frame

import KOs.Net.Checksum
import KOs.Net.Frame
import KOs.Net.Segments

namespace KOs.Net

open KOs.Data KOs.Net.Arp KOs.Net.Ports KOs.Net.Checksum KOs.Net.Frame List

/-! The packet that `tcp_send` makes of its buffer. -/

/-- A packet with the headers of Ethernet, IP and TCP. -/
structure TcpPacket (bytes : List UInt8) extends Frame.Packet where
  linkSize : link.size = 14
  netSize : net.size = 20
  tranSize : tran.size = 20
  carries : payload.buff = bytes.map UInt8.toBitVec

structure Transmits (buff : List UInt8) (c : Conn) (src dst : Ip) (packet : TcpPacket (packetPayload buff))
    (frame : BitVec 32) (memory : Memory) : Prop where
  payload : packetPayload buff = buff
  total : swapUint16 (ipBuild src 20 (packetPayload buff).length ipProtTcp dst).totalLength = 40 + buff.length
  expanded : (packetExpand frame packet.toPacket ethMinPacketSize memory).1 = packet.total
  sequence : (sockSend buff c).1.nextLocalSeq = wadd c.nextLocalSeq (packetPayload buff).length

theorem sockSend_carried {buff : List UInt8} {c : Conn}
    (sent : sockSend buff c = (tcpQueueAdd tcpFlagAck 14600 buff c, buff.length)) :
    (sockSend buff c).1.sent.head?.map Packet.carried = some (packetPayload buff) := by
  rw [sent]
  rfl

theorem packetPayload_length (buff : List UInt8) : (packetPayload buff).length = buff.length % 2 ^ 16 := by
  rw [packetPayload, length_take, Nat.min_eq_left (Nat.mod_le _ _)]

theorem TcpPacket.total_eq {bytes : List UInt8} (packet : TcpPacket bytes) : packet.total = 54 + bytes.length := by
  rw [Packet.total_eq, packet.linkSize, packet.netSize, packet.tranSize, SockBuff.size, packet.carries, length_map]

theorem swapUint16_swapUint16 {w : Nat} (small : w < 0x10000) : swapUint16 (swapUint16 w) = w := by
  rw [swapUint16_eq (swapUint16_small small), swapUint16_eq small]
  omega

/-- The whole frame has to have a length of 16 bits, and must not need any padding. -/
theorem send_transmits_iff {buff : List UInt8} {c : Conn}
    (sent : sockSend buff c = (tcpQueueAdd tcpFlagAck 14600 buff c, buff.length)) (src dst : Ip)
    (packet : TcpPacket (packetPayload buff)) (frame : BitVec 32) (memory : Memory) :
    Transmits buff c src dst packet frame memory ↔ 6 ≤ buff.length ∧ 54 + buff.length < 2 ^ 16 := by
  have total := packet.total_eq
  rw [packetPayload_length] at total
  have least : ethMinPacketSize.toNat = 60 := rfl
  have small : packet.total % 2 ^ 16 = packet.total → (packetExpand frame packet.toPacket ethMinPacketSize memory).1 =
      if packet.total < 60 then 60 else packet.total := by
    intro word
    rw [packetExpand_eq (by omega), least, word]
    split <;> rfl
  constructor
  · rintro ⟨payload, _, expanded, _⟩
    have length := congrArg length payload
    rw [packetPayload_length] at length
    have bound : (packetExpand frame packet.toPacket ethMinPacketSize memory).1 < 2 ^ 16 := packetExpand_length_lt
    rw [expanded] at bound
    rw [small (Nat.mod_eq_of_lt bound)] at expanded
    split at expanded <;> omega
  · rintro ⟨large, word⟩
    have same : buff.length % 2 ^ 16 = buff.length := Nat.mod_eq_of_lt (by omega)
    refine ⟨by rw [packetPayload, same, take_length], ?_, ?_, ?_⟩
    · rw [packetPayload_length, same]
      simp only [ipBuild, ipHeader]
      rw [Nat.mod_eq_of_lt (by omega), swapUint16_swapUint16 (by omega)]
    · rw [small (Nat.mod_eq_of_lt (by omega)), if_neg (by omega)]
    · rw [sent, packetPayload_length, same]
      rfl

def talking : Conn := { tcpConnect sockFlagConnected 0 [] with state := .established }

theorem sockSend_talking (buff : List UInt8) :
    sockSend buff talking = (tcpQueueAdd tcpFlagAck 14600 buff talking, buff.length) := rfl

def tenBytes : TcpPacket (packetPayload (List.replicate 10 7)) where
  link := ⟨List.replicate 14 0, by decide⟩
  net := ⟨List.replicate 20 0, by decide⟩
  tran := ⟨List.replicate 20 0, by decide⟩
  payload := ⟨List.replicate 10 7, by decide⟩
  linkSize := rfl
  netSize := rfl
  tranSize := rfl
  carries := by decide

theorem send_transmits_ten : Transmits (List.replicate 10 7) talking 0 0 tenBytes 0 (fun _ => 0) :=
  (send_transmits_iff (sockSend_talking _) 0 0 tenBytes 0 fun _ => 0).mpr (by decide)

/-- A buffer of 65536 bytes is reported as sent and counted, and the packet is empty. -/
theorem long_send_empty : ∃ buff, sockSend buff talking = (tcpQueueAdd tcpFlagAck 14600 buff talking, 2 ^ 16) ∧
    packetPayload buff = [] ∧ (sockSend buff talking).1.nextLocalSeq = wadd talking.nextLocalSeq (2 ^ 16) := by
  have length : (replicate (2 ^ 16) (0 : UInt8)).length = 2 ^ 16 := length_replicate
  refine ⟨replicate (2 ^ 16) 0, ?_, ?_, ?_⟩
  · rw [sockSend_talking, length]
  · rw [packetPayload, length, Nat.mod_self, take_zero]
  · rw [sockSend_talking]
    dsimp only [tcpQueueAdd, tcpQueueSend]
    rw [length]
    rfl

/-! The bytes of an IPv4 packet that `ip_handle` and `tcp_handle` take for the payload. -/

def ipVersion (packet : Nat → UInt8) : Nat := (packet 0).toNat / 16

def ipIhl (packet : Nat → UInt8) : Nat := (packet 0).toNat % 16

/-- `TCP_DATA_OFF`, for a header at `start`. -/
def tcpDataOff (packet : Nat → UInt8) (start : Nat) : Nat := (packet (start + 12)).toNat / 16

def ipTotalLength (packet : Nat → UInt8) : Nat := (packet 2).toNat * 256 + (packet 3).toNat

/-- What the copy loop is given, as `raw` and `len`, if `ip_handle` calls `tcp_handle`.  Both
headers are passed over as if they had no options. -/
def handed (packet : Nat → UInt8) : Option (List UInt8) :=
  if ipVersion packet ≠ 4 then none
  else if (packet 9).toNat ≠ ipProtTcp then none
  else
    let len := (ipTotalLength packet + 2 ^ 16 - (ipIhl packet * 4 + tcpDataOff packet 20 * 4)) % 2 ^ 16
    some ((List.range len).map (fun i => packet (20 + 20 + i)))

structure Headers (packet : Nat → UInt8) (ihl dataOff total : Nat) : Prop where
  version : ipVersion packet = 4
  protocol : (packet 9).toNat = ipProtTcp
  length : ipIhl packet = ihl
  offset : tcpDataOff packet (4 * ihl) = dataOff
  total : ipTotalLength packet = total

/-- The segment is what `tcp_handle` finds behind an IP header of 20 bytes. -/
structure Segment.Found (seg : Segment) (packet : Nat → UInt8) : Prop where
  ihl : ipIhl packet = 5
  total : seg.totalLength = ipTotalLength packet
  offset : seg.dataOff = tcpDataOff packet 20
  raw : ∀ i < seg.raw.length, seg.raw[i]? = some (packet (40 + i))

theorem storePayload_handed {packet : Nat → UInt8} {seg : Segment} {bytes : List UInt8} (found : seg.Found packet)
    (taken : handed packet = some bytes) (whole : bytes.length ≤ seg.raw.length) (c : Conn) :
    storePayload seg c = if c.has sockFlagShutRd then c else storeLoop 0 bytes c := by
  have same : bytes = (List.range seg.len).map (fun i => packet (40 + i)) := by
    simp only [handed, found.ihl] at taken
    rw [Segment.len, found.total, found.offset]
    grind
  have read : seg.raw.take seg.len = bytes := by
    rw [same, length_map, length_range] at whole
    rw [same]
    refine ext_getElem? fun i => ?_
    by_cases inside : i < seg.len
    · rw [getElem?_take_of_lt inside, found.raw i (by omega), getElem?_map, getElem?_range inside, Option.map_some]
    · rw [getElem?_take_eq_none (by omega), getElem?_eq_none (by simpa using inside)]
  rw [storePayload_eq, read]

def payloadOf (packet : Nat → UInt8) (ihl dataOff total : Nat) : List UInt8 :=
  (List.range (total - (4 * ihl + 4 * dataOff))).map (fun i => packet (4 * ihl + 4 * dataOff + i))

/-- A packet with these headers in which all other bytes are zero, but for the first of the payload. -/
def markedPacket (ihl dataOff total : Nat) (i : Nat) : UInt8 :=
  if i = 0 then .ofNat (0x40 + ihl) else if i = 2 then .ofNat (total / 256) else if i = 3 then .ofNat (total % 256)
  else if i = 9 then .ofNat ipProtTcp else if i = 4 * ihl + 12 then .ofNat (dataOff * 16) else if i = 4 * ihl + 4 * dataOff then 1 else 0

section

variable {ihl dataOff total : Nat}

theorem markedPacket_headers (low : ihl ≤ 15) (small : dataOff ≤ 15) (word : total < 2 ^ 16) :
    Headers (markedPacket ihl dataOff total) ihl dataOff total := by
  have apart : 4 * ihl + 12 ≠ 2 ∧ 4 * ihl + 12 ≠ 3 ∧ 4 * ihl + 12 ≠ 9 := by omega
  constructor <;> simp [ipVersion, ipIhl, tcpDataOff, ipTotalLength, ipProtTcp, markedPacket, apart] <;> omega

theorem Headers.handed_eq {packet : Nat → UInt8} (headers : Headers packet ihl dataOff total) :
    handed packet = some ((List.range ((total + 2 ^ 16 - (ihl * 4 + tcpDataOff packet 20 * 4)) % 2 ^ 16)).map
      (fun i => packet (40 + i))) := by
  rw [handed, if_neg (not_not.mpr headers.version), if_neg (not_not.mpr headers.protocol), headers.length, headers.total]

/-- Whatever packets with these headers hold, the right bytes are taken if neither header has
options, or if only that of TCP has and no payload follows. -/
theorem payload_handed_iff (ihlRange : 5 ≤ ihl ∧ ihl ≤ 15) (dataOffRange : 5 ≤ dataOff ∧ dataOff ≤ 15)
    (room : 4 * ihl + 4 * dataOff ≤ total) (word : total < 2 ^ 16) :
    (∀ packet, Headers packet ihl dataOff total → handed packet = some (payloadOf packet ihl dataOff total)) ↔
      ihl = 5 ∧ (dataOff = 5 ∨ total = 4 * ihl + 4 * dataOff) := by
  constructor
  · intro right
    have headers := markedPacket_headers ihlRange.2 dataOffRange.2 word
    have taken := right _ headers
    rw [headers.handed_eq, payloadOf, Option.some.injEq] at taken
    have length := congrArg length taken
    simp only [length_map, length_range] at length
    by_cases plain : ihl = 5
    · subst plain
      by_contra more
      have early : 40 ≠ 20 + 4 * dataOff ∧ 20 + 4 * dataOff ≠ 2 ∧ 20 + 4 * dataOff ≠ 3 ∧ 20 + 4 * dataOff ≠ 9 ∧
          20 + 4 * dataOff ≠ 32 := by
        omega
      have heads := congrArg head? taken
      rw [length, show total - (4 * 5 + 4 * dataOff) = total - (4 * 5 + 4 * dataOff) - 1 + 1 by omega,
        range_succ_eq_map] at heads
      simp [markedPacket, early] at heads
    · have apart : 4 * ihl ≠ 20 ∧ 32 ≠ 4 * ihl + 4 * dataOff := by omega
      have zero : tcpDataOff (markedPacket ihl dataOff total) 20 = 0 := by simp [tcpDataOff, markedPacket, apart]
      omega
  · rintro ⟨rfl, either⟩ packet headers
    have same : tcpDataOff packet 20 = dataOff := headers.offset
    rw [headers.handed_eq, payloadOf, same]
    rcases either with rfl | none
    · rw [show (total + 2 ^ 16 - (5 * 4 + 5 * 4)) % 2 ^ 16 = total - (4 * 5 + 4 * 5) by omega]
    · rw [show (total + 2 ^ 16 - (5 * 4 + dataOff * 4)) % 2 ^ 16 = 0 by omega, none, Nat.sub_self]
      rfl

end

theorem payload_handed_plain : handed (markedPacket 5 5 42) = some [1, 0] :=
  (payload_handed_iff (by decide) (by decide) (by decide) (by decide)).mpr ⟨rfl, Or.inl rfl⟩ (markedPacket 5 5 42)
    (markedPacket_headers (by decide) (by decide) (by decide))

/-- One word of options of TCP, and two bytes of payload. -/
theorem payload_handed_options : Headers (markedPacket 5 6 46) 5 6 46 ∧ payloadOf (markedPacket 5 6 46) 5 6 46 = [1, 0] ∧
    handed (markedPacket 5 6 46) = some [0, 0] := by
  refine ⟨markedPacket_headers ?_ ?_ ?_, ?_, ?_⟩ <;> decide

end KOs.Net

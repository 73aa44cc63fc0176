import KOs.Data.Checksum
import KOs.Net.Arp
import KOs.Net.Ports
import Mathlib.Algebra.Order.BigOperators.Group.List
import Mathlib.Algebra.Order.Ring.Nat

namespace KOs.Net.Checksum

open KOs.Data KOs.Net.Arp KOs.Net.Ports List

/-! The headers of `net/ip/ip.c`, `tcp.c`, `udp.c` and `icmp.c`, and their checksums.

A field holds what is in memory, so one that is in network order is swapped.  A header is
summed by its words in memory; the receiver reads them in network order.
-/

def sumToChecksum (sum : Nat) : Nat := 0xFFFF - foldCarries sum

def sumPayload : List UInt8 → Nat → Nat
  | [], sum => sum
  | [a], sum => wadd sum a.toNat
  | a :: b :: rest, sum => sumPayload rest (wadd sum (a.toNat + 0x100 * b.toNat))

def ipProtIcmp : Nat := 0x01

def ipProtTcp : Nat := 0x06

def ipProtUdp : Nat := 0x11

structure IpHeader where
  versionIhl : Nat
  dscpEcn : Nat
  totalLength : Nat
  ident : Nat
  flagsFragOff : Nat
  ttl : Nat
  protocol : Nat
  checksum : Nat
  src : Ip
  dst : Ip
deriving DecidableEq, Repr

def IpHeader.words (hdr : IpHeader) : List Nat :=
  [hdr.versionIhl + 0x100 * hdr.dscpEcn, hdr.totalLength, hdr.ident, hdr.flagsFragOff,
    hdr.ttl + 0x100 * hdr.protocol, hdr.checksum] ++ halves hdr.src.toNat ++ halves hdr.dst.toNat

/-- The header of `ip_build` on an interface with address `src`, before it is summed. -/
def ipHeader (src : Ip) (tranSize payloadSize protocol : Nat) (dst : Ip) : IpHeader :=
  { versionIhl := (4 <<< 4) ||| 5, dscpEcn := 0
    totalLength := swapUint16 ((20 + tranSize + payloadSize) % 2 ^ 16)
    ident := 0, flagsFragOff := 1 <<< 6, ttl := 0x40, protocol, checksum := 0, src, dst }

def ipBuild (src : Ip) (tranSize payloadSize protocol : Nat) (dst : Ip) : IpHeader :=
  let hdr := ipHeader src tranSize payloadSize protocol dst
  { hdr with checksum := sumToChecksum (hdr.words.foldl wadd 0) }

/-- The header that TCP and UDP sum in front of their own. -/
def pseudoHeader (src dst : Ip) (protocol length : Nat) : List Nat :=
  halves src.toNat ++ halves dst.toNat ++ [swapUint16 protocol, swapUint16 (length % 2 ^ 16)]

structure TcpHeader where
  srcPort : Nat
  dstPort : Nat
  seqNum : Nat
  ackNum : Nat
  dataOffFlags : Nat
  windowSize : Nat
  checksum : Nat
  urgent : Nat
deriving DecidableEq, Repr

def TcpHeader.words (hdr : TcpHeader) : List Nat :=
  [hdr.srcPort, hdr.dstPort] ++ halves hdr.seqNum ++ halves hdr.ackNum ++
    [hdr.dataOffFlags, hdr.windowSize, hdr.checksum, hdr.urgent]

/-- What `tcp_build` adds up in front of the payload. -/
def TcpHeader.addends (src dst : Ip) (size : Nat) (hdr : TcpHeader) : List Nat :=
  pseudoHeader src dst ipProtTcp (20 + size) ++ ([hdr.srcPort, hdr.dstPort] ++ halves hdr.seqNum ++
    halves hdr.ackNum ++ [hdr.dataOffFlags, hdr.windowSize, hdr.urgent])

def tcpBuild (src dst : Ip) (seqNum ackNum : UInt32) (flags windowSize urgent srcPortNet dstPortNet : UInt16)
    (payload : List UInt8) : TcpHeader × IpHeader :=
  let hdr : TcpHeader :=
    { srcPort := srcPortNet.toNat, dstPort := dstPortNet.toNat, seqNum := seqNum.toNat, ackNum := ackNum.toNat
      dataOffFlags := ((5 &&& 0x000F) <<< 4) ||| flags.toNat, windowSize := swapUint16 windowSize.toNat
      checksum := 0, urgent := swapUint16 urgent.toNat }
  let sum := sumPayload payload ((hdr.addends src dst payload.length).foldl wadd 0)
  ({ hdr with checksum := sumToChecksum sum }, ipBuild src 20 payload.length ipProtTcp dst)

structure UdpHeader where
  srcPort : Nat
  dstPort : Nat
  length : Nat
  checksum : Nat
deriving DecidableEq, Repr

def UdpHeader.words (hdr : UdpHeader) : List Nat := [hdr.srcPort, hdr.dstPort, hdr.length, hdr.checksum]

/-- What `udp_build` adds up in front of the payload. -/
def udpAddends (src dst : Ip) (srcPortNet dstPortNet : UInt16) (size : Nat) : List Nat :=
  pseudoHeader src dst ipProtUdp (8 + size) ++
    [srcPortNet.toNat, dstPortNet.toNat, swapUint16 ((8 + size) % 2 ^ 16)]

def udpBuild (src dst : Ip) (srcPortNet dstPortNet : UInt16) (payload : List UInt8) : UdpHeader × IpHeader :=
  let sum := sumPayload payload ((udpAddends src dst srcPortNet dstPortNet payload.length).foldl wadd 0)
  ({ srcPort := srcPortNet.toNat, dstPort := dstPortNet.toNat
     length := swapUint16 ((8 + payload.length) % 2 ^ 16), checksum := sumToChecksum sum },
    ipBuild src 8 payload.length ipProtUdp dst)

structure IcmpHeader where
  type : Nat
  code : Nat
  checksum : Nat
  other : Nat
deriving DecidableEq, Repr

def IcmpHeader.words (hdr : IcmpHeader) : List Nat :=
  [hdr.type + 0x100 * hdr.code, hdr.checksum] ++ halves hdr.other

def icmpBuild (src : Ip) (type code other : Nat) (dst : Ip) (payload : List UInt8) : IcmpHeader × IpHeader :=
  let sum := sumPayload payload ([type, code, other].foldl wadd 0)
  ({ type, code, checksum := sumToChecksum sum, other }, ipBuild src 8 payload.length ipProtIcmp dst)

/-- `icmp_handle` on the bytes behind the IP header, `peer` the source of the packet: the headers
of the reply and its payload. -/
def icmpHandle (src peer : Ip) : List UInt8 → Option ((IcmpHeader × IpHeader) × List UInt8)
  | type :: code :: _ :: _ :: a :: b :: c :: d :: buff =>
      let other := a.toNat + 0x100 * b.toNat + 0x10000 * (c.toNat + 0x100 * d.toNat)
      if type = 8 && code = 0 then some (icmpBuild src 0 0 other peer buff, buff) else none
  | _ => none

/-- The test of the receiver, for a message with these words in memory. -/
def Verifies (message : List Nat) : Prop := onesSum (message.map swapUint16) = 0xFFFF

instance (message : List Nat) : Decidable (Verifies message) := inferInstanceAs (Decidable (_ = _))

section Sums

variable {ws : List Nat}

theorem swapUint16_eq {w : Nat} (small : w < 0x10000) : swapUint16 w = 0x100 * (w % 0x100) + w / 0x100 := by
  have high : (w <<< 8) % portNum = 0x100 * (w % 0x100) := by
    rw [Nat.shiftLeft_eq, show portNum = 0x10000 from rfl]
    omega
  rw [swapUint16, high, Nat.shiftRight_eq_div_pow]
  exact (Nat.two_pow_add_eq_or_of_lt (i := 8) (by omega) _).symm

theorem swapUint16_small {w : Nat} (small : w < 0x10000) : swapUint16 w < 0x10000 := by
  rw [swapUint16_eq small]
  omega

theorem sum_swapped (small : ∀ w ∈ ws, w < 0x10000) :
    (ws.map swapUint16).sum % 0xFFFF = 0x100 * ws.sum % 0xFFFF ∧ ((ws.map swapUint16).sum = 0 ↔ ws.sum = 0) := by
  induction ws with
  | nil => simp
  | cons w _ ih =>
    have rest := ih fun v mem => small v (mem_cons_of_mem w mem)
    have bound := small w mem_cons_self
    simp only [map_cons, sum_cons, swapUint16_eq bound]
    omega

theorem verifies_iff (small : ∀ w ∈ ws, w < 0x10000) : Verifies ws ↔ 0 < ws.sum ∧ ws.sum % 0xFFFF = 0 := by
  have swapped := sum_swapped small
  rw [Verifies, onesSum_eq_iff]
  · omega
  · simp only [mem_map, forall_exists_index, and_imp, forall_apply_eq_imp_iff₂]
    exact fun w mem => swapUint16_small (small w mem)

theorem foldl_wadd (ws : List Nat) {start : Nat} (small : start < wordSize) :
    ws.foldl wadd start = wadd start ws.sum := by
  induction ws generalizing start with
  | nil => exact (wadd_zero small).symm
  | cons w _ ih =>
    rw [foldl_cons, ih (wadd_lt _ w), wadd_assoc, sum_cons]

theorem sumPayload_eq (payload : List UInt8) {sum : Nat} (small : sum < wordSize) :
    sumPayload payload sum = wadd sum (words payload).sum := by
  fun_induction sumPayload payload sum with
  | case1 sum => exact (wadd_zero small).symm
  | case2 sum a => simp [words]
  | case3 sum a b rest ih => rw [ih (wadd_lt _ _), wadd_assoc, words, sum_cons]

theorem accumulated (addends : List Nat) (payload : List UInt8) :
    sumPayload payload (addends.foldl wadd 0) = (addends ++ words payload).sum % wordSize := by
  rw [foldl_wadd _ wordSize_positive, sumPayload_eq _ (wadd_lt _ _), wadd_assoc, sum_append, wadd,
    zero_add]

theorem sumToChecksum_spec (sum : Nat) : sumToChecksum sum < 0x10000 ∧ (sum + sumToChecksum sum) % 0xFFFF = 0 ∧
    (sumToChecksum sum = 0 → 0 < sum) := by
  have folded := foldCarries_spec sum
  rw [sumToChecksum]
  omega

theorem verifies_checksum (before after : List Nat) {sum : Nat} (small : ∀ w ∈ before ++ after, w < 0x10000)
    (total : sum = (before ++ after).sum) : Verifies (before ++ sumToChecksum sum :: after) := by
  subst total
  obtain ⟨below, divides, pos⟩ := sumToChecksum_spec (before ++ after).sum
  rw [verifies_iff, perm_middle.sum_eq, sum_cons]
  · omega
  · intro w mem
    rcases mem_cons.mp (perm_middle.mem_iff.mp mem) with rfl | other
    · exact below
    · exact small w other

theorem sum_lt (small : ∀ w ∈ ws, w < 0x10000) (few : ws.length ≤ 0x100) : ws.sum ≤ 0xFFFF00 := by
  have most := sum_le_card_nsmul ws 0xFFFF fun w mem => Nat.le_of_lt_succ (small w mem)
  rw [nsmul_eq_mul, Nat.cast_id] at most
  omega

theorem build_verifies (before after : List Nat) (payload : List UInt8)
    (small : ∀ w ∈ before ++ after, w < 0x10000) (few : (before ++ after).length ≤ 0x100)
    (short : payload.length < 0x10000) :
    Verifies (before ++ sumToChecksum (sumPayload payload ((before ++ after).foldl wadd 0)) ::
        (after ++ words payload)) ∧
      (before ++ after ++ words payload).sum < wordSize := by
  have bounded : (before ++ after ++ words payload).sum < wordSize := by
    have header := sum_lt small few
    have rest := (words_spec payload).2
    rw [sum_append, wordSize]
    omega
  refine ⟨verifies_checksum _ _ ?_ ?_, bounded⟩
  · intro w mem
    rw [← append_assoc] at mem
    exact (mem_append.mp mem).elim (small w) ((words_spec _).1 w)
  · rw [accumulated, Nat.mod_eq_of_lt bounded, append_assoc]

end Sums

section Headers

variable (src dst : Ip) (payload : List UInt8)

theorem halves_lt (value : UInt32) : ∀ w ∈ halves value.toNat, w < 0x10000 := by
  have := value.toNat_lt
  simp only [halves, mem_cons, not_mem_nil, or_false, forall_eq_or_imp, forall_eq]
  omega

theorem swapUint16_length (length : Nat) : swapUint16 (length % 2 ^ 16) < 0x10000 :=
  swapUint16_small (Nat.mod_lt _ (by decide))

theorem pseudoHeader_lt {protocol : Nat} (small : protocol < 0x10000) (length : Nat) :
    ∀ w ∈ pseudoHeader src dst protocol length, w < 0x10000 := by
  simp only [pseudoHeader, forall_mem_append, forall_mem_cons]
  exact ⟨⟨halves_lt src, halves_lt dst⟩, swapUint16_small small, swapUint16_length _, nofun⟩

theorem ipBuild_verifies {protocol : Nat} (small : protocol < 0x100) (tranSize payloadSize : Nat) :
    Verifies (ipBuild src tranSize payloadSize protocol dst).words ∧
      (ipHeader src tranSize payloadSize protocol dst).words.sum < wordSize := by
  have others : ∀ w ∈ [0x45, swapUint16 ((20 + tranSize + payloadSize) % 2 ^ 16), 0, 0x40, 0x40 + 0x100 * protocol] ++
      (halves src.toNat ++ halves dst.toNat), w < 0x10000 := by
    simp only [forall_mem_append, forall_mem_cons]
    exact ⟨⟨by decide, swapUint16_length _, by decide, by decide, by omega, nofun⟩, halves_lt src, halves_lt dst⟩
  have total : (ipHeader src tranSize payloadSize protocol dst).words.sum =
      ([0x45, swapUint16 ((20 + tranSize + payloadSize) % 2 ^ 16), 0, 0x40, 0x40 + 0x100 * protocol] ++
        (halves src.toNat ++ halves dst.toNat)).sum := by
    simp [IpHeader.words, ipHeader, add_assoc]
  have bounded : (ipHeader src tranSize payloadSize protocol dst).words.sum < wordSize :=
    total ▸ (sum_lt others (by simp [halves])).trans_lt (by decide)
  have summed := foldl_wadd (ipHeader src tranSize payloadSize protocol dst).words wordSize_positive
  rw [wadd, zero_add, Nat.mod_eq_of_lt bounded] at summed
  exact ⟨verifies_checksum _ _ others (summed.trans total), bounded⟩

theorem tcpBuild_verifies (seqNum ackNum : UInt32) (flags windowSize urgent srcPortNet dstPortNet : UInt16)
    (short : payload.length < 0x10000) (hdr : TcpHeader)
    (built : (tcpBuild src dst seqNum ackNum flags windowSize urgent srcPortNet dstPortNet payload).1 = hdr) :
    Verifies (pseudoHeader src dst ipProtTcp (20 + payload.length) ++ hdr.words ++ words payload) ∧
      (hdr.addends src dst payload.length ++ words payload).sum < wordSize := by
  subst built
  have dataOff : ((5 &&& 0x000F) <<< 4) ||| flags.toNat < 2 ^ 16 := Nat.or_lt_two_pow (by decide) flags.toNat_lt
  have verifies := build_verifies (pseudoHeader src dst ipProtTcp (20 + payload.length) ++
    ([srcPortNet.toNat, dstPortNet.toNat] ++ halves seqNum.toNat ++ halves ackNum.toNat ++
      [((5 &&& 0x000F) <<< 4) ||| flags.toNat, swapUint16 windowSize.toNat])) [swapUint16 urgent.toNat] payload
    (by
      simp only [forall_mem_append, forall_mem_cons]
      exact ⟨⟨pseudoHeader_lt src dst (by decide) _, ⟨⟨⟨srcPortNet.toNat_lt, dstPortNet.toNat_lt, nofun⟩,
        halves_lt _⟩, halves_lt _⟩, dataOff, swapUint16_small windowSize.toNat_lt, nofun⟩,
        swapUint16_small urgent.toNat_lt, nofun⟩)
    (by simp [pseudoHeader, halves]) short
  simpa [tcpBuild, TcpHeader.words, TcpHeader.addends] using verifies

theorem udpBuild_verifies (srcPortNet dstPortNet : UInt16) (short : payload.length < 0x10000) :
    Verifies (pseudoHeader src dst ipProtUdp (8 + payload.length) ++
        (udpBuild src dst srcPortNet dstPortNet payload).1.words ++ words payload) ∧
      (udpAddends src dst srcPortNet dstPortNet payload.length ++ words payload).sum < wordSize := by
  have verifies := build_verifies (udpAddends src dst srcPortNet dstPortNet payload.length) [] payload (by
      simp only [udpAddends, append_nil, forall_mem_append, forall_mem_cons]
      exact ⟨pseudoHeader_lt src dst (by decide) _, srcPortNet.toNat_lt, dstPortNet.toNat_lt,
        swapUint16_length _, nofun⟩)
    (by simp [udpAddends, pseudoHeader, halves]) short
  simpa [udpBuild, UdpHeader.words, udpAddends] using verifies

end Headers

/-- The checksums of what is sent verify, and no sum of theirs leaves 32 bits. -/
theorem checksums_verify (src dst : Ip) (payload : List UInt8) :
    (∀ (seqNum ackNum : UInt32) (flags windowSize urgent srcPortNet dstPortNet : UInt16) (hdr : TcpHeader) (ip : IpHeader),
      tcpBuild src dst seqNum ackNum flags windowSize urgent srcPortNet dstPortNet payload = (hdr, ip) →
      20 + 20 + payload.length ≤ 65535 →
        (Verifies (pseudoHeader src dst ipProtTcp (20 + payload.length) ++ hdr.words ++ words payload) ∧
          (hdr.addends src dst payload.length ++ words payload).sum < wordSize) ∧ Verifies ip.words) ∧
    (∀ (srcPortNet dstPortNet : UInt16) (hdr : UdpHeader) (ip : IpHeader),
      udpBuild src dst srcPortNet dstPortNet payload = (hdr, ip) → 20 + 8 + payload.length ≤ 65535 →
        (Verifies (pseudoHeader src dst ipProtUdp (8 + payload.length) ++ hdr.words ++ words payload) ∧
          (udpAddends src dst srcPortNet dstPortNet payload.length ++ words payload).sum < wordSize) ∧
        Verifies ip.words) ∧
    ∀ (tranSize : Nat) (protocol : UInt8), 20 + tranSize + payload.length ≤ 65535 →
      Verifies (ipBuild src tranSize payload.length protocol.toNat dst).words ∧
        (ipHeader src tranSize payload.length protocol.toNat dst).words.sum < wordSize := by
  refine ⟨?_, ?_, ?_⟩
  · intro seqNum ackNum flags windowSize urgent srcPortNet dstPortNet hdr ip built fits
    obtain ⟨first, rfl⟩ := Prod.ext_iff.mp built
    exact ⟨tcpBuild_verifies src dst payload seqNum ackNum flags windowSize urgent srcPortNet dstPortNet (by omega) hdr
      first, (ipBuild_verifies src dst (by decide) _ _).1⟩
  · intro srcPortNet dstPortNet hdr ip built fits
    obtain ⟨rfl, rfl⟩ := Prod.ext_iff.mp built
    exact ⟨udpBuild_verifies src dst payload srcPortNet dstPortNet (by omega), (ipBuild_verifies src dst (by decide) _ _).1⟩
  · intro tranSize protocol _
    exact ipBuild_verifies src dst protocol.toNat_lt _ _

theorem checksums_verify_three : Verifies (pseudoHeader 1 2 ipProtUdp 11 ++ (udpBuild 1 2 3 4 [1, 2, 3]).1.words ++
      words [1, 2, 3]) ∧ Verifies (udpBuild 1 2 3 4 [1, 2, 3]).2.words := by
  have verified := (checksums_verify 1 2 [1, 2, 3]).2.1 3 4 _ _ rfl (by decide)
  exact ⟨verified.1.1, verified.2⟩

/-- A UDP checksum is zero where the sum is a multiple of `0xFFFF`. -/
theorem udp_checksum_ne_zero_iff (src dst : Ip) (srcPortNet dstPortNet : UInt16) (payload : List UInt8) :
    (udpBuild src dst srcPortNet dstPortNet payload).1.checksum ≠ 0 ↔
      ¬ (0 < (udpAddends src dst srcPortNet dstPortNet payload.length ++ words payload).sum % wordSize ∧
        (udpAddends src dst srcPortNet dstPortNet payload.length ++ words payload).sum % wordSize % 0xFFFF = 0) := by
  have folded := foldCarries_spec ((udpAddends src dst srcPortNet dstPortNet payload.length ++ words payload).sum % wordSize)
  simp only [udpBuild, accumulated, sumToChecksum]
  omega

theorem udp_checksum_zero : (udpBuild 0 0 0xDEFF 0 []).1.checksum = 0 := by
  have sum : (udpAddends 0 0 0xDEFF 0 0 ++ words []).sum % wordSize = 0xFFFF := by decide
  have folded := foldCarries_spec 0xFFFF
  simp only [udpBuild, accumulated, sumToChecksum, length_nil, sum]
  omega

section Echo

variable (src peer : Ip) (sum₀ sum₁ a b c d : UInt8) (payload padding : List UInt8)

def echoRequest : List UInt8 := [8, 0, sum₀, sum₁, a, b, c, d] ++ payload

def other : Nat := a.toNat + 0x100 * b.toNat + 0x10000 * (c.toNat + 0x100 * d.toNat)

theorem other_lt : other a b c d < wordSize := by
  have := a.toNat_lt
  have := b.toNat_lt
  have := c.toNat_lt
  have := d.toNat_lt
  rw [other, wordSize]
  omega

/-- The sum takes `other` as one number, so that a carry out of 32 bits is lost. -/
theorem icmpBuild_verifies_iff {number : Nat} (small : number < wordSize) {buff : List UInt8}
    (short : buff.length < 2 ^ 16) :
    Verifies ((icmpBuild src 0 0 number peer buff).1.words ++ words buff) ↔ number + (words buff).sum < wordSize := by
  have bound := (words_spec buff).2
  obtain ⟨below, divides, pos⟩ := sumToChecksum_spec ((number + (words buff).sum) % wordSize)
  have summed : sumPayload buff ([0, 0, number].foldl wadd 0) = (number + (words buff).sum) % wordSize := by
    rw [accumulated]
    simp
  have checksum : (icmpBuild src 0 0 number peer buff).1.words =
      [0, sumToChecksum ((number + (words buff).sum) % wordSize)] ++ halves number := by
    rw [← summed]
    rfl
  simp only [wordSize] at *
  rw [checksum, verifies_iff]
  · simp only [sum_append, sum_cons, sum_nil, halves]
    omega
  · simp only [halves, forall_mem_append, forall_mem_cons]
    exact ⟨⟨⟨by decide, below, by simp⟩, by omega, by omega, by simp⟩, (words_spec buff).1⟩

/-- The reply to a request that has padding behind it in its frame is right where there is no
padding and the sum stays within 32 bits. -/
theorem echo_reply_iff (short : (echoRequest sum₀ sum₁ a b c d payload ++ padding).length < 2 ^ 16) :
    (∃ reply, icmpHandle src peer (echoRequest sum₀ sum₁ a b c d payload ++ padding) = some reply ∧
      reply.1.1.other = other a b c d ∧ reply.2 = payload ∧
      Verifies (reply.1.1.words ++ words reply.2)) ↔
      padding = [] ∧ other a b c d + (words payload).sum < wordSize := by
  have handled : icmpHandle src peer (echoRequest sum₀ sum₁ a b c d payload ++ padding) =
      some (icmpBuild src 0 0 (other a b c d) peer (payload ++ padding), payload ++ padding) := rfl
  have fits : payload.length < 2 ^ 16 := by
    simp only [echoRequest, length_append, length_cons] at short
    omega
  have verifies := icmpBuild_verifies_iff src peer (other_lt a b c d) fits
  rw [handled]
  constructor
  · rintro ⟨reply, same, _, carried, verified⟩
    cases same
    have none : padding = [] := by simpa using carried
    subst none
    rw [append_nil] at verified
    exact ⟨rfl, verifies.mp verified⟩
  · rintro ⟨rfl, bounded⟩
    simp only [append_nil]
    exact ⟨_, rfl, rfl, rfl, verifies.mpr bounded⟩

theorem echo_reply_small : (∃ reply, icmpHandle 0 0 (echoRequest 0 0 1 2 3 4 [5] ++ []) = some reply ∧
    reply.1.1.other = other 1 2 3 4 ∧ reply.2 = [5] ∧ Verifies (reply.1.1.words ++ words reply.2)) :=
  (echo_reply_iff 0 0 0 0 1 2 3 4 [5] [] (by decide)).mpr ⟨rfl, by decide⟩

/-- A request without padding whose reply does not verify, and one with it that is not echoed. -/
theorem echo_reply_fails :
    (∃ reply, icmpHandle 0 0 (echoRequest 0 0 255 255 255 255 [1, 0]) = some reply ∧
      ¬ Verifies (reply.1.1.words ++ words reply.2)) ∧
    ∃ reply, icmpHandle 0 0 (echoRequest 0 0 0 0 0 0 [] ++ [0]) = some reply ∧ reply.2 ≠ [] := by
  refine ⟨⟨_, rfl, ?_⟩, ⟨_, rfl, by decide⟩⟩
  rw [icmpBuild_verifies_iff 0 0 (by decide) (by decide)]
  decide

end Echo

end KOs.Net.Checksum

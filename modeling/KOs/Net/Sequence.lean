import KOs.Net.Accept
import KOs.Net.Receive
import Mathlib.Tactic.Common
import Mathlib.Algebra.Ring.Nat

namespace KOs.Net

open KOs.Common KOs.Data List Conn

/-- What `next_local_seq` advances by for a segment. -/
def Pending.advance (pending : Pending) : Nat :=
  pending.payload.length + if hasFlag pending.flags tcpFlagSyn then 1 else 0

/-- The sequence numbers of a segment: of its payload, its SYN and its FIN. -/
def Pending.numbers (pending : Pending) : Nat :=
  pending.advance + if hasFlag pending.flags tcpFlagFin then 1 else 0

/-- How far behind the first number of a queue its segment `i` starts. -/
def offset (queue : List Pending) (i : Nat) : Nat := ((queue.take i).map Pending.advance).sum

/-- A connection with what `tcp_queue_add` has queued from a first number on. -/
inductive Queued (isn : Nat) : Conn → Prop where
  | start {c : Conn} (none : c.queue = []) (first : c.nextLocalSeq = isn) : Queued isn c
  | add {c : Conn} (queued : Queued isn c) (flags windowSize : Nat) (payload : List UInt8) :
      Queued isn (tcpQueueAdd flags windowSize payload c)

def Precedes (queue : List Pending) (k i : Nat) : Prop :=
  ∀ pending ∈ queue[i]?, ∀ x < pending.numbers, offset queue i + x < k

instance (queue : List Pending) (k i : Nat) : Decidable (Precedes queue k i) :=
  inferInstanceAs (Decidable (∀ pending ∈ queue[i]?, ∀ x < pending.numbers, offset queue i + x < k))

def FinPrecedes (queue : List Pending) (k : Nat) : Prop :=
  ∃ i, ∃ pending ∈ queue[i]?, Precedes queue k i ∧ hasFlag pending.flags tcpFlagFin = true

/-- The segments before the number `k` are removed and no others, and a FIN among them is noticed. -/
structure Acknowledges (k : Nat) (before after : Conn) : Prop where
  removed : ∃ n ≤ before.queue.length, after.queue = before.queue.drop n ∧
    ∀ i < before.queue.length, i < n ↔ Precedes before.queue k i
  noticed : FinPrecedes before.queue k → after.state = .finWaitB
  unmoved : ¬ FinPrecedes before.queue k → after.state = before.state

variable {c : Conn} {seg : Segment}

section Acknowledge

variable {isn k : Nat}

theorem offset_length (queue : List Pending) : offset queue queue.length = (queue.map Pending.advance).sum := by
  rw [offset, take_length]

theorem Queued.numbered (word : isn < wordSize) (queued : Queued isn c) :
    c.nextLocalSeq = wadd isn (offset c.queue c.queue.length) ∧
      ∀ i, ∀ pending ∈ c.queue[i]?, pending.seqNum = swapUint32 (wadd isn (offset c.queue i)) := by
  induction queued with
  | start none first => simp [none, first, offset, wadd_zero word]
  | @add c _ _ _ _ ih =>
    obtain ⟨next, numbers⟩ := ih
    refine ⟨?_, fun i pending mem => ?_⟩
    · simp only [tcpQueueAdd, tcpQueueSend]
      rw [next, wadd_assoc, offset_length, offset_length]
      simp [Pending.advance]
    · simp only [tcpQueueAdd, tcpQueueSend] at mem ⊢
      rcases lt_trichotomy i c.queue.length with old | rfl | beyond
      · rw [getElem?_append_left old] at mem
        rw [numbers i _ mem, offset, offset, take_append_of_le_length (old.le)]
      · rw [getElem?_concat_length] at mem
        cases mem
        simp [next, offset]
      · rw [getElem?_eq_none (by simp; omega)] at mem
        contradiction

theorem tcpAckRecieved_drop (seg : Segment) (c : Conn) : ∃ n ≤ c.queue.length,
    (∀ i < c.queue.length, i < n ↔ ∀ j ≤ i, ∀ pending ∈ c.queue[j]?, pending.seqNum < seg.ackNum) ∧
      tcpAckRecieved seg c = { c with
        state := if (c.queue.take n).any (fun pending => hasFlag pending.flags tcpFlagFin) then .finWaitB else c.state
        queue := c.queue.drop n } := by
  refine ⟨c.queue.findIdx fun pending => decide (pending.seqNum ≥ seg.ackNum), findIdx_le_length, ?_, ?_⟩
  · intro i inside
    rw [lt_findIdx_iff, exists_prop_of_true inside]
    refine forall₂_congr fun j before => ?_
    have bound : j < c.queue.length := by omega
    simp [getElem?_eq_getElem bound]
  · rw [tcpAckRecieved, takeWhile_eq_take_findIdx_not]
    simp [findIdx_le_length]

/-- What is removed is what should be just if the numbers that are stored, with their bytes swapped, are below
the acknowledgement as far as the segments precede it. -/
theorem ack_removes_iff (word : isn < wordSize) (queued : Queued isn c) (ack : seg.ackNum = wadd isn k) :
    Acknowledges k c (tcpAckRecieved seg c) ↔ ∀ i < c.queue.length,
      Precedes c.queue k i ↔ ∀ j ≤ i, swapUint32 (wadd isn (offset c.queue j)) < wadd isn k := by
  obtain ⟨n, within, removes, result⟩ := tcpAckRecieved_drop seg c
  have stored : ∀ i < c.queue.length, i < n ↔ ∀ j ≤ i, swapUint32 (wadd isn (offset c.queue j)) < wadd isn k := by
    intro i inside
    rw [removes i inside, ack]
    refine forall₂_congr fun j before => ?_
    have bound : j < c.queue.length := by omega
    have here := List.getElem?_eq_getElem bound
    simp [here, ← (queued.numbered word).2 j c.queue[j] here]
  rw [result]
  constructor
  · rintro ⟨⟨m, small, same, exact⟩, _, _⟩ i inside
    have eq : m = n := by
      have lengths := congrArg List.length same
      simp only [List.length_drop] at lengths
      omega
    rw [← exact i inside, eq, stored i inside]
  · intro agree
    have exact : ∀ i < c.queue.length, i < n ↔ Precedes c.queue k i :=
      fun i inside => (stored i inside).trans (agree i inside).symm
    have fin : (c.queue.take n).any (fun pending => hasFlag pending.flags tcpFlagFin) = true ↔ FinPrecedes c.queue k := by
      rw [List.any_eq_true]
      constructor
      · rintro ⟨pending, mem, ends⟩
        obtain ⟨i, inside, rfl⟩ := List.mem_take_iff_getElem.mp mem
        exact ⟨i, _, List.getElem?_eq_getElem (by omega), (exact i (by omega)).mp (by omega), ends⟩
      · rintro ⟨i, pending, mem, precedes, ends⟩
        obtain ⟨inside, rfl⟩ := List.getElem?_eq_some_iff.mp mem
        exact ⟨_, List.mem_take_iff_getElem.mpr ⟨i, by have := (exact i inside).mpr precedes; omega, rfl⟩, ends⟩
    exact ⟨⟨n, within, rfl, exact⟩, fun among => if_pos (fin.mpr among), fun none => if_neg (mt fin.mp none)⟩

end Acknowledge

theorem tcpConnect_queued (flags rand : Nat) (page : List UInt8) : Queued rand (tcpConnect flags rand page) := by
  apply Queued.add
  exact .start rfl rfl

/-- The SYN and three bytes are acknowledged, the two bytes behind them are not. -/
theorem ack_removes_sent : ∃ c, Queued 0x1000000 c ∧ c.queue.length = 3 ∧
    Acknowledges 4 c (tcpAckRecieved (ack 0 0x1000004) c) ∧ (tcpAckRecieved (ack 0 0x1000004) c).queue.length = 1 := by
  have queued := ((tcpConnect_queued 0 0x1000000 []).add tcpFlagAck 14600 [1, 2, 3]).add tcpFlagAck 14600 [4, 5]
  exact ⟨_, queued, rfl, (ack_removes_iff (by decide) queued rfl).mpr (by decide), by decide⟩

/-- The SYN with the number 1, which is stored as 0x1000000, stays when 2 is acknowledged. -/
theorem ack_keeps_syn : Queued 1 (tcpConnect 0 1 []) ∧ (tcpConnect 0 1 []).nextLocalSeq = 2 ∧
    ¬ Acknowledges 1 (tcpConnect 0 1 []) (tcpAckRecieved (ack 0 2) (tcpConnect 0 1 [])) := by
  refine ⟨tcpConnect_queued 0 1 [], rfl, ?_⟩
  rintro ⟨⟨n, small, same, exact⟩, _, _⟩
  have removed := (exact 0 (by decide)).mpr (by decide)
  have lengths := congrArg length same
  rw [length_drop, show (tcpAckRecieved (ack 0 2) (tcpConnect 0 1 [])).queue.length = 1 by decide,
    show (tcpConnect 0 1 []).queue.length = 1 by decide] at lengths
  omega

/-- What has arrived from the peer in sequence, from its SYN on. -/
structure Arrived where
  isn : Nat
  bytes : Nat
  fin : Bool

structure Account where
  conn : Conn
  isn : Nat
  /-- There is none before the SYN of the peer. -/
  peer : Option Arrived

namespace Account

def connect (flags rand : Nat) (page : List UInt8) : Account :=
  { conn := tcpConnect flags rand page, isn := rand, peer := none }

def child (arrival : Arrival) : Account :=
  { conn := childConn arrival
    isn := arrival.localRand
    peer := some { isn := arrival.seg.seqNum, bytes := arrival.seg.len, fin := arrival.seg.has tcpFlagFin } }

def arrive (seg : Segment) (s : Account) : Account :=
  { s with
    conn := tcpSockHandle 0 seg s.conn
    peer :=
      if s.conn.state = .synSent then some { isn := seg.seqNum, bytes := seg.len, fin := seg.has tcpFlagFin }
      else s.peer.map (fun arrived =>
        { arrived with
          bytes := if s.conn.accepts seg then arrived.bytes + seg.len else arrived.bytes
          fin := arrived.fin || s.conn.examines seg && seg.has tcpFlagFin }) }

end Account

inductive AccountEvent where
  | segment (seg : Segment)
  | send (buff : List UInt8)
  | shutdown (how : Nat)

/-- The segment is the next one in sequence, or the answer to the SYN. -/
def Conn.inOrder (c : Conn) (seg : Segment) : Bool :=
  if c.state = .synSent then seg.has tcpFlagAck && seg.has tcpFlagSyn else decide (c.nextPeerSeq = seg.seqNum)

def accounting : Machine Account AccountEvent Fault where
  enabled event s :=
    match event with
    | .segment seg => seg.valid && s.conn.inOrder seg
    | .send buff => decide (buff.length < wordSize)
    | .shutdown _ => true
  perform event s :=
    match event with
    | .segment seg => .ok (s.arrive seg)
    | .send buff => .ok { s with conn := (sockSend buff s.conn).1 }
    | .shutdown how => .ok { s with conn := (sockShutdown how s.conn).1 }

/-- The bytes of the payloads that have been queued; each is sent at once. -/
def Conn.queued (c : Conn) : Nat := (c.sent.map (fun packet => packet.payload.length)).sum

def Conn.finQueued (c : Conn) : Bool := c.sent.any (fun packet => hasFlag packet.flags tcpFlagFin)

/-- Both counters have advanced by the payloads, the SYN and the FIN. -/
structure Account.Accounts (s : Account) : Prop where
  sent : s.conn.nextLocalSeq = wadd s.isn (s.conn.queued + 1 + if s.conn.finQueued then 1 else 0)
  arrived : ∀ arrived ∈ s.peer,
    s.conn.nextPeerSeq = wadd arrived.isn (arrived.bytes + 1 + if arrived.fin then 1 else 0)

/-- Both have advanced by the payloads and the SYN. -/
structure Account.Counted (s : Account) : Prop where
  sent : s.conn.nextLocalSeq = wadd s.isn (s.conn.queued + 1)
  arrived : ∀ arrived ∈ s.peer, s.conn.nextPeerSeq = wadd arrived.isn (arrived.bytes + 1)

section Accounting

variable {s s' : Account} {event : AccountEvent}

theorem wadd_fin_iff (isn n : Nat) (fin : Bool) : wadd isn n = wadd isn (n + if fin then 1 else 0) ↔ fin = false := by
  cases fin with
  | false => simp
  | true =>
    simp only [wadd, wordSize, if_true, Bool.true_eq_false, iff_false]
    omega

theorem Account.Counted.accounts_iff (counted : s.Counted) :
    s.Accounts ↔ s.conn.finQueued = false ∧ ∀ arrived ∈ s.peer, arrived.fin = false := by
  constructor
  · rintro ⟨sent, arrived⟩
    refine ⟨?_, fun here mem => ?_⟩
    · rwa [counted.sent, wadd_fin_iff] at sent
    · have next := arrived here mem
      rwa [counted.arrived here mem, wadd_fin_iff] at next
  · rintro ⟨unsent, unseen⟩
    refine ⟨?_, fun here mem => ?_⟩
    · rw [counted.sent, wadd_fin_iff]
      exact unsent
    · rw [counted.arrived here mem, wadd_fin_iff]
      exact unseen here mem

theorem tcpQueueAdd_counts (flags windowSize : Nat) (payload : List UInt8) (c : Conn) :
    (tcpQueueAdd flags windowSize payload c).queued = c.queued + payload.length ∧
      (tcpQueueAdd flags windowSize payload c).nextLocalSeq =
        wadd c.nextLocalSeq (payload.length + if hasFlag flags tcpFlagSyn then 1 else 0) := by
  simp [tcpQueueAdd, tcpQueueSend, queued, add_comm]

def Conn.Hears (c c' : Conn) (next : Nat) : Prop :=
  c'.queued = c.queued ∧ c'.nextLocalSeq = c.nextLocalSeq ∧ c'.nextPeerSeq = next

theorem handleFlags_hears (seg : Segment) (c : Conn) : c.Hears (handleFlags seg c) c.nextPeerSeq := by
  simp only [Conn.Hears, handleFlags, tcpSendAck, tcpSendControl, setFlag, queued]
  split_ifs <;> simp

theorem handleEstablished_hears (order : c.nextPeerSeq = seg.seqNum) : c.Hears (handleEstablished seg c)
    (if 0 < seg.len then wadd c.nextPeerSeq seg.len else c.nextPeerSeq) := by
  obtain ⟨state, queue, acked⟩ : ∃ state queue,
      (if seg.has tcpFlagAck then tcpAckRecieved seg c else c) = { c with state, queue } := by
    split
    · obtain ⟨state, queue, _, result⟩ := tcpAckRecieved_eq seg c
      exact ⟨state, queue, result⟩
    · exact ⟨_, _, rfl⟩
  rw [handleEstablished, acked]
  by_cases payload : 0 < seg.len
  · obtain ⟨_, _, _, accepted⟩ := acceptPayload_frame seg { c with state, queue }
    rw [if_pos payload, if_pos payload, if_neg (by simp [order]), if_neg (by simp [order]), accepted, order]
    exact handleFlags_hears seg _
  · rw [if_neg payload, if_neg payload]
    exact handleFlags_hears seg { c with state, queue }

theorem tcpSockHandle_hears (order : c.inOrder seg = true) : c.Hears (tcpSockHandle 0 seg c)
    (if c.state = .synSent then wadd seg.seqNum (seg.len + 1)
      else if c.accepts seg then wadd c.nextPeerSeq seg.len else c.nextPeerSeq) := by
  by_cases transfers : c.state.transfers = true
  · have other : c.state ≠ .synSent := by
      intro same
      rw [same] at transfers
      contradiction
    rw [inOrder, if_neg other, decide_eq_true_eq] at order
    simpa [tcpSockHandle_transfers 0 seg _, accepts, transfers, order, other] using
      handleEstablished_hears order
  · cases state : c.state with
    | synSent =>
      simp only [inOrder, state, if_true] at order
      obtain ⟨_, _, _, acked⟩ := tcpAckRecieved_eq seg c
      simp [Conn.Hears, tcpSockHandle, state, handleSynSent, order, acked, tcpSendAck, tcpSendControl, setFlag,
        queued]
    | synRecieved =>
      simp only [Conn.Hears, tcpSockHandle, state, handleSynRecieved, accepts, TcpState.transfers]
      split_ifs <;> simp_all [setFlag, queued]
    | retry | closed => simp [Conn.Hears, tcpSockHandle, state, accepts, TcpState.transfers]
    | established | finWaitA | finWaitB => exact absurd (by rw [state]; rfl) transfers

namespace Account.Counted

variable (counted : s.Counted)
include counted

theorem queue {n : Nat} (queued : c.queued = s.conn.queued + n)
    (next : c.nextLocalSeq = wadd s.conn.nextLocalSeq n) (peer : c.nextPeerSeq = s.conn.nextPeerSeq) :
    Counted { s with conn := c } := by
  refine ⟨?_, fun arrived mem => peer.trans (counted.arrived _ mem)⟩
  rw [next, counted.sent, wadd_assoc, queued, Nat.add_right_comm]

theorem arrive (order : s.conn.inOrder seg = true) : (s.arrive seg).Counted := by
  obtain ⟨queued, next, peer⟩ := tcpSockHandle_hears order
  refine ⟨?_, fun arrived mem => peer.trans ?_⟩
  · rw [Account.arrive, next, queued, counted.sent]
  · rw [Account.arrive] at mem
    split
    next waiting =>
      rw [if_pos waiting] at mem
      cases mem
      rfl
    next other =>
      rw [if_neg other] at mem
      obtain ⟨before, known, rfl⟩ := Option.map_eq_some_iff.mp mem
      rw [counted.arrived _ known]
      split
      · rw [wadd_assoc, Nat.add_right_comm]
      · rfl

theorem shutdown (bits : Nat) : Counted { s with conn := tcpShutdown bits s.conn } := by
  have fin : ∀ c : Conn, Counted { s with conn := c } →
      Counted { s with conn := tcpQueueAdd (tcpFlagFin ||| tcpFlagAck) 14600 [] c } := by
    intro c counted
    obtain ⟨queued, next⟩ := tcpQueueAdd_counts _ 14600 [] c
    exact counted.queue queued next rfl
  rw [tcpShutdown]
  split_ifs
  iterate 2
    · exact fin _ ⟨counted.sent, counted.arrived⟩
  · exact ⟨counted.sent, counted.arrived⟩
  · exact counted

theorem step (enabled : accounting.enabled event s = true)
    (ran : accounting.perform event s = .ok s') : s'.Counted := by
  cases event with
  | segment =>
    cases ran
    exact counted.arrive (Bool.and_eq_true_iff.mp enabled).2
  | send buff =>
    cases ran
    rw [sockSend, tcpSend]
    split_ifs
    · exact counted
    · exact counted
    · obtain ⟨queued, next⟩ := tcpQueueAdd_counts _ 14600 buff s.conn
      exact counted.queue queued next rfl
    · exact counted
  | shutdown =>
    cases ran
    rw [sockShutdown]
    split_ifs
    iterate 3
      · exact counted
    · exact counted.shutdown _

end Account.Counted

inductive Account.Starts : Account → Prop where
  | connect (flags rand : Nat) (page : List UInt8) : Starts (.connect flags rand page)
  | child (arrival : Arrival) : Starts (.child arrival)

theorem Account.Starts.counted (starts : s.Starts) : s.Counted := by
  cases starts with
  | connect => exact ⟨rfl, nofun⟩
  | child =>
    refine ⟨rfl, fun arrived mem => ?_⟩
    cases mem
    rfl

end Accounting

/-- In whatever order there are sends, shutdowns and segments in sequence, the counters are right just until a
FIN is queued or received. -/
theorem sequence_accounts_iff {start s : Account} (starts : start.Starts)
    (path : accounting.Reaches (fun _ _ => True) start s) :
    s.Accounts ↔ s.conn.finQueued = false ∧ ∀ arrived ∈ s.peer, arrived.fin = false := by
  have counted : s.Counted :=
    path.preserves Account.Counted starts.counted fun _ _ _ counted _ enabled ran => counted.step enabled ran
  exact counted.accounts_iff

theorem sequence_accounts_wrap : ∃ s, accounting.Reaches (fun _ _ => True) (.connect 0 0xFFFFFFFF []) s ∧
    s.conn.nextLocalSeq = 2 ∧ s.Accounts := by
  obtain ⟨s, reached, next, unsent, unseen⟩ : ∃ s, accounting.Reaches (fun _ _ => True) (.connect 0 0xFFFFFFFF []) s ∧
      s.conn.nextLocalSeq = 2 ∧ s.conn.finQueued = false ∧ s.peer.any Arrived.fin = false :=
    Machine.run_exists [.segment synAck, .send [1, 2]] (by decide +kernel)
  refine ⟨s, reached, next, (sequence_accounts_iff (.connect _ _ _) reached).mpr ⟨unsent, fun arrived mem => ?_⟩⟩
  simpa [Option.mem_def.mp mem] using unseen

/-- The FIN of a shutdown is not counted. -/
theorem sequence_misses_fin : ∃ s, accounting.Reaches (fun _ _ => True) (.connect 0 0 []) s ∧ ¬ s.Accounts := by
  obtain ⟨s, reached, isn, next, queued, fin⟩ : ∃ s, accounting.Reaches (fun _ _ => True) (.connect 0 0 []) s ∧
      s.isn = 0 ∧ s.conn.nextLocalSeq = 1 ∧ s.conn.queued = 0 ∧ s.conn.finQueued = true :=
    Machine.run_exists [.segment synAck, .shutdown shutWr] (by decide +kernel)
  refine ⟨s, reached, fun accounts => ?_⟩
  have sent := accounts.sent
  rw [isn, next, queued, fin] at sent
  contradiction

end KOs.Net

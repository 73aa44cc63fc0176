import KOs.Net.Tcp

namespace KOs.Net

open KOs.Common KOs.Data Conn

variable {c : Conn} {seg : Segment}

theorem Conn.setFlag_has (c : Conn) (flag mask : Nat) :
    (c.setFlag flag).has mask = (c.has mask || hasFlag flag mask) := hasFlag_or c.flags flag mask

/-- Nothing is sent in answer but ACKs. -/
def Replies (c : Conn) (sent : List Packet) : Prop :=
  ∃ acks : List Packet, (∀ packet ∈ acks, packet.flags = tcpFlagAck) ∧ sent = acks ++ c.sent

theorem Replies.none (c : Conn) : Replies c c.sent := ⟨[], nofun, rfl⟩

theorem Replies.ack (c : Conn) (windowSize : Nat) : Replies c (tcpSendAck windowSize c).sent := by
  refine ⟨[_], ?_, rfl⟩
  intro packet mem
  rw [List.mem_singleton.mp mem]

/-- The flags of the socket once the segment's FIN has been seen. -/
def flagsAfter (seg : Segment) (c : Conn) : Nat :=
  if seg.has tcpFlagFin then c.flags ||| sockFlagShutRd else c.flags

/-- The test of `tcp_sock_handle` for the end of the connection. -/
def closes (seg : Segment) (c : Conn) : Bool := seg.has tcpFlagRst || hasFlag (flagsAfter seg c) sockFlagShutRdwr

theorem handleFlags_eq (seg : Segment) (c : Conn) : ∃ sent, Replies c sent ∧ handleFlags seg c =
    { c with flags := flagsAfter seg c, state := if closes seg c then .closed else c.state, sent } := by
  have fin : (if seg.has tcpFlagFin then c.setFlag sockFlagShutRd else c) = { c with flags := flagsAfter seg c } := by
    unfold flagsAfter
    split <;> rfl
  have rst : (if seg.has tcpFlagRst || has { c with flags := flagsAfter seg c } sockFlagShutRdwr
      then { c with flags := flagsAfter seg c, state := .closed } else { c with flags := flagsAfter seg c }) =
        { c with flags := flagsAfter seg c, state := if closes seg c then .closed else c.state } := by
    unfold closes has
    split <;> rfl
  rw [handleFlags, fin, rst]
  split
  · exact ⟨_, Replies.ack { c with flags := flagsAfter seg c
                                   state := if closes seg c then .closed else c.state } seg.windowSize, rfl⟩
  · exact ⟨_, Replies.none c, rfl⟩

theorem tcpAckRecieved_eq (seg : Segment) (c : Conn) : ∃ state queue,
    (state = c.state ∨ state = .finWaitB) ∧ tcpAckRecieved seg c = { c with state, queue } := by
  refine ⟨_, _, ?_, rfl⟩
  split
  · exact .inr rfl
  · exact .inl rfl

theorem storeLoop_state (offset : Nat) (bytes : List UInt8) (c : Conn) (state : TcpState) (next : Nat)
    (queue : List Pending) :
    storeLoop offset bytes { c with state, nextPeerSeq := next, queue } =
      { storeLoop offset bytes c with state, nextPeerSeq := next, queue } := by
  induction bytes generalizing offset c with
  | nil => rfl
  | cons byte _ ih =>
    rw [storeLoop, storeLoop]
    split
    · rfl
    · exact ih _ (storeByte _ byte c)

theorem storeLoop_frame (offset : Nat) (bytes : List UInt8) (c : Conn) : ∃ buff front accesses,
    storeLoop offset bytes c = { c with recvBuff := buff, recvBuffFront := front, accesses } := by
  induction bytes generalizing offset c with
  | nil => exact ⟨_, _, _, rfl⟩
  | cons byte _ ih =>
    rw [storeLoop]
    split
    · exact ⟨_, _, _, rfl⟩
    · obtain ⟨_, _, _, rest⟩ := ih _ _
      exact ⟨_, _, _, rest⟩

/-- The loop tests before its first turn what is tested before it. -/
theorem storePayload_eq (seg : Segment) (c : Conn) : storePayload seg c =
    if c.has sockFlagShutRd then c else storeLoop 0 (seg.raw.take seg.len) c := by
  rw [storePayload]
  cases c.has sockFlagShutRd with
  | true => rw [if_neg (by decide), if_pos rfl]
  | false =>
    rw [if_pos Bool.not_false, if_neg Bool.false_ne_true]
    by_cases full : c.recvBuffFront = wsub c.recvBuffBack 1
    · rw [if_neg (not_not_intro full)]
      cases seg.raw.take seg.len with
      | nil => rfl
      | cons => rw [storeLoop, if_pos full]
    · rw [if_pos full]

theorem storePayload_frame (seg : Segment) (c : Conn) : ∃ buff front accesses,
    storePayload seg c = { c with recvBuff := buff, recvBuffFront := front, accesses } := by
  rw [storePayload_eq]
  split
  · exact ⟨_, _, _, rfl⟩
  · exact storeLoop_frame 0 _ c

theorem storePayload_state (seg : Segment) (c : Conn) (state : TcpState) (next : Nat) (queue : List Pending) :
    storePayload seg { c with state, nextPeerSeq := next, queue } =
      { storePayload seg c with state, nextPeerSeq := next, queue } := by
  rw [storePayload_eq, storePayload_eq, storeLoop_state]
  unfold has
  split <;> rfl

/-- The connection `c` after a payload up to `next`. -/
def Conn.advanced (c : Conn) (next : Nat) : Conn :=
  { c with nextPeerSeq := next, recvSemaphore := c.recvSemaphore + 1 }

@[simp] theorem Conn.advanced_nextPeerSeq (c : Conn) (next : Nat) : (c.advanced next).nextPeerSeq = next := rfl

@[simp] theorem Conn.advanced_recvBuffFront (c : Conn) (next : Nat) :
    (c.advanced next).recvBuffFront = c.recvBuffFront := rfl

@[simp] theorem Conn.advanced_accesses (c : Conn) (next : Nat) : (c.advanced next).accesses = c.accesses := rfl

theorem acceptPayload_eq (seg : Segment) (c : Conn) :
    acceptPayload seg c = (storePayload seg c).advanced (wadd seg.seqNum seg.len) := by
  obtain ⟨_, _, _, frame⟩ := storePayload_frame seg c
  have stored := storePayload_state seg c c.state (wadd seg.seqNum seg.len) c.queue
  rw [acceptPayload, stored, frame]
  rfl

theorem acceptPayload_frame (seg : Segment) (c : Conn) : ∃ buff front accesses, acceptPayload seg c =
    { c with
      nextPeerSeq := wadd seg.seqNum seg.len
      recvBuff := buff
      recvBuffFront := front
      recvSemaphore := c.recvSemaphore + 1
      accesses } := by
  obtain ⟨buff, front, accesses, stored⟩ := storePayload_frame seg c
  refine ⟨buff, front, accesses, ?_⟩
  rw [acceptPayload_eq, stored]
  rfl

theorem acceptPayload_state (seg : Segment) (c : Conn) (state : TcpState) (queue : List Pending) :
    acceptPayload seg { c with state, queue } = { acceptPayload seg c with state, queue } := by
  have stored := storePayload_state seg c state c.nextPeerSeq queue
  rw [acceptPayload_eq, acceptPayload_eq, stored]
  rfl

def received (seg : Segment) (c : Conn) : Conn := if 0 < seg.len then acceptPayload seg c else c

theorem received_frame (seg : Segment) (c : Conn) : ∃ peerSeq buff front semaphore accesses, received seg c =
    { c with
      nextPeerSeq := peerSeq
      recvBuff := buff
      recvBuffFront := front
      recvSemaphore := semaphore
      accesses } := by
  rw [received]
  split
  · obtain ⟨_, _, _, accepted⟩ := acceptPayload_frame seg c
    exact ⟨_, _, _, _, _, accepted⟩
  · exact ⟨_, _, _, _, _, rfl⟩

/-- The states a segment can put an open connection into before its own flags are looked at: an ACK may
acknowledge the FIN. -/
def Moves (seg : Segment) (c : Conn) (state : TcpState) : Prop :=
  state = c.state ∨ state = .finWaitB ∧ seg.has tcpFlagAck = true

variable {state : TcpState} {s s' : Session}

theorem Moves.states (moved : Moves seg c state) : state = c.state ∨ state = .finWaitB :=
  moved.imp_right And.left

theorem Moves.transfers (moved : Moves seg c state) (transfers : c.state.transfers = true) :
    state.transfers = true := by
  rcases moved.states with rfl | rfl
  · exact transfers
  · rfl

/-- A segment out of sequence is answered at most; any other is taken in, and then its flags are
looked at.  In both cases an acknowledged FIN may have moved the state. -/
theorem handleEstablished_cases (seg : Segment) (c : Conn) : ∃ state queue sent, Moves seg c state ∧
      ((0 < seg.len ∧ c.nextPeerSeq ≠ seg.seqNum ∧ Replies c sent ∧
          handleEstablished seg c = { c with state, queue, sent }) ∨
        ((seg.len = 0 ∨ c.nextPeerSeq = seg.seqNum) ∧ Replies (received seg c) sent ∧ handleEstablished seg c =
            { received seg c with
              flags := flagsAfter seg c
              state := if closes seg c then .closed else state
              queue
              sent })) := by
  obtain ⟨state, queue, moved, acked⟩ : ∃ state queue, Moves seg c state ∧
      (if seg.has tcpFlagAck then tcpAckRecieved seg c else c) = { c with state, queue } := by
    split
    next ack =>
      obtain ⟨state, queue, moved, result⟩ := tcpAckRecieved_eq seg c
      exact ⟨state, queue, moved.imp_right fun acked => ⟨acked, ack⟩, result⟩
    · exact ⟨c.state, c.queue, .inl rfl, rfl⟩
  rw [handleEstablished, acked]
  by_cases payload : 0 < seg.len
  · by_cases sequence : c.nextPeerSeq = seg.seqNum
    · have notAfter : ¬ c.nextPeerSeq > seg.seqNum := by omega
      have notBefore : ¬ c.nextPeerSeq < seg.seqNum := by omega
      have same : (acceptPayload seg c).flags = c.flags := by
        obtain ⟨_, _, _, accepted⟩ := acceptPayload_frame seg c
        rw [accepted]
      rw [if_pos payload, if_neg notAfter, if_neg notBefore, acceptPayload_state, received, if_pos payload]
      generalize acceptPayload seg c = accepted at same
      obtain ⟨sent, replies, flags⟩ := handleFlags_eq seg { accepted with state, queue }
      refine ⟨state, queue, sent, moved, .inr ⟨.inr sequence, replies, flags.trans ?_⟩⟩
      have flags : flagsAfter seg { accepted with state, queue } = flagsAfter seg c := by
        unfold flagsAfter
        rw [same]
      unfold closes
      rw [flags]
    · by_cases older : c.nextPeerSeq > seg.seqNum
      · refine ⟨state, queue, c.sent, moved, .inl ⟨payload, sequence, Replies.none c, ?_⟩⟩
        rw [if_pos payload, if_pos older]
      · have newer : c.nextPeerSeq < seg.seqNum := by omega
        refine ⟨state, queue, _, moved, .inl ⟨payload, sequence, Replies.ack c seg.windowSize, ?_⟩⟩
        rw [if_pos payload, if_neg older, if_pos newer]
        rfl
  · obtain ⟨sent, replies, flags⟩ := handleFlags_eq seg { c with state, queue }
    refine ⟨state, queue, sent, moved, .inr ⟨.inl (Nat.eq_zero_of_not_pos payload), ?_, ?_⟩⟩
    · rw [received, if_neg payload]
      exact replies
    · rw [received, if_neg payload, if_neg payload]
      exact flags

theorem tcpSockHandle_transfers (rand : Nat) (seg : Segment) (transfers : c.state.transfers = true) :
    tcpSockHandle rand seg c = handleEstablished seg c := by
  rw [tcpSockHandle]
  cases state : c.state with
  | established | finWaitA | finWaitB => rfl
  | retry | synSent | synRecieved | closed =>
    rw [state] at transfers
    contradiction

theorem sockSend_frame (buff : List UInt8) (c : Conn) : ∃ localSeq queue sent,
    (sockSend buff c).1 = { c with nextLocalSeq := localSeq, queue, sent } := by
  rw [sockSend, tcpSend]
  split
  · split
    · exact ⟨_, _, _, rfl⟩
    · split
      · exact ⟨_, _, _, rfl⟩
      · exact ⟨_, _, _, rfl⟩
  · exact ⟨_, _, _, rfl⟩

theorem tcpShutdown_frame (bits : Nat) (c : Conn)
    (known : bits = 0 ∨ bits = sockFlagShutRd ∨ bits = sockFlagShutWr ∨ bits = sockFlagShutRdwr) :
    ∃ localSeq queue sent, tcpShutdown bits c =
      { c with
        flags := c.flags ||| bits
        state := if hasFlag bits sockFlagShutWr then .finWaitA else c.state
        nextLocalSeq := localSeq
        queue
        sent } := by
  rcases known with rfl | rfl | rfl | rfl
  · rw [Nat.or_zero]
    exact ⟨_, _, _, rfl⟩
  · exact ⟨_, _, _, rfl⟩
  · exact ⟨_, _, _, rfl⟩
  · have both : c.flags ||| sockFlagShutRdwr = c.flags ||| sockFlagShutRd ||| sockFlagShutWr :=
      (Nat.or_assoc _ _ _).symm
    rw [both]
    exact ⟨_, _, _, rfl⟩

theorem shutBits_cases (how : Nat) :
    shutBits how = 0 ∧ how ≠ shutRd ∧ how ≠ shutWr ∧ how ≠ shutRdwr ∨
      how = shutRd ∧ shutBits how = sockFlagShutRd ∨ how = shutWr ∧ shutBits how = sockFlagShutWr ∨
      how = shutRdwr ∧ shutBits how = sockFlagShutRdwr := by
  unfold shutBits
  split
  · exact .inr (.inl ⟨by assumption, rfl⟩)
  · split
    · exact .inr (.inr (.inl ⟨by assumption, rfl⟩))
    · split
      · exact .inr (.inr (.inr ⟨by assumption, rfl⟩))
      · exact .inl ⟨rfl, by assumption, by assumption, by assumption⟩

theorem newBits_cases (how : Nat) (c : Conn) :
    newBits (shutBits how) c = 0 ∨ newBits (shutBits how) c = sockFlagShutRd ∨
      newBits (shutBits how) c = sockFlagShutWr ∨ newBits (shutBits how) c = sockFlagShutRdwr := by
  unfold newBits
  cases c.has sockFlagShutRd <;> cases c.has sockFlagShutWr <;>
    rcases shutBits_cases how with ⟨bits, _⟩ | ⟨_, bits⟩ | ⟨_, bits⟩ | ⟨_, bits⟩ <;> rw [bits] <;> decide

theorem newBits_has (how : Nat) (c : Conn) :
    hasFlag (newBits (shutBits how) c) sockFlagShutRd =
        (decide (how = shutRd ∨ how = shutRdwr) && !c.has sockFlagShutRd) ∧
      hasFlag (newBits (shutBits how) c) sockFlagShutWr =
        (decide (how = shutWr ∨ how = shutRdwr) && !c.has sockFlagShutWr) := by
  unfold newBits
  rcases shutBits_cases how with ⟨bits, rd, wr, rdwr⟩ | ⟨rfl, bits⟩ | ⟨rfl, bits⟩ | ⟨rfl, bits⟩
  · rw [bits, decide_eq_false (by simp [rd, rdwr]), decide_eq_false (by simp [wr, rdwr])]
    cases c.has sockFlagShutRd <;> cases c.has sockFlagShutWr <;> decide
  all_goals
    cases c.has sockFlagShutRd <;> cases c.has sockFlagShutWr <;> decide

theorem sockShutdown_cases (how : Nat) (c : Conn) : (sockShutdown how c).1 = c ∨
    ∃ localSeq queue sent, (sockShutdown how c).1 =
      { c with
        flags := c.flags ||| newBits (shutBits how) c
        state := if hasFlag (newBits (shutBits how) c) sockFlagShutWr then .finWaitA else c.state
        nextLocalSeq := localSeq
        queue
        sent } := by
  rw [sockShutdown]
  split
  · exact .inl rfl
  · split
    · exact .inl rfl
    · split
      · exact .inl rfl
      · exact .inr (tcpShutdown_frame _ c (newBits_cases how c))

def Conn.settled (c : Conn) (flags : Nat) (state : TcpState) (queue : List Pending) (sent : List Packet) : Conn :=
  { c with flags, state, queue, sent }

section Settled

variable (c : Conn) (flags : Nat) (state : TcpState) (queue : List Pending) (sent : List Packet)

@[simp] theorem Conn.settled_flags : (c.settled flags state queue sent).flags = flags := rfl

@[simp] theorem Conn.settled_state : (c.settled flags state queue sent).state = state := rfl

@[simp] theorem Conn.settled_nextPeerSeq : (c.settled flags state queue sent).nextPeerSeq = c.nextPeerSeq := rfl

@[simp] theorem Conn.settled_recvBuffFront : (c.settled flags state queue sent).recvBuffFront = c.recvBuffFront := rfl

@[simp] theorem Conn.settled_recvBuffSize : (c.settled flags state queue sent).recvBuffSize = c.recvBuffSize := rfl

@[simp] theorem Conn.settled_accesses : (c.settled flags state queue sent).accesses = c.accesses := rfl

end Settled

theorem tcpSockHandle_examines (rand : Nat) (examined : c.examines seg = true) : ∃ state queue sent,
    Moves seg c state ∧ tcpSockHandle rand seg c =
      (received seg c).settled (flagsAfter seg c) (if closes seg c then .closed else state) queue sent := by
  rw [examines, Bool.and_eq_true, Bool.or_eq_true, decide_eq_true_eq, decide_eq_true_eq] at examined
  obtain ⟨state, queue, sent, moved, outcome⟩ := handleEstablished_cases seg c
  refine ⟨state, queue, sent, moved, ?_⟩
  rw [tcpSockHandle_transfers rand seg examined.1]
  rcases outcome with ⟨payload, other, _⟩ | ⟨_, _, result⟩
  · exact absurd examined.2 (by omega)
  · exact result

theorem tcpSockHandle_unexamined (rand : Nat) (transfers : c.state.transfers = true) (unexamined : c.examines seg = false) :
    ∃ state queue sent, Moves seg c state ∧ tcpSockHandle rand seg c = c.settled c.flags state queue sent := by
  rw [examines, transfers, Bool.true_and, Bool.or_eq_false_iff, decide_eq_false_iff_not, decide_eq_false_iff_not]
    at unexamined
  obtain ⟨state, queue, sent, moved, outcome⟩ := handleEstablished_cases seg c
  refine ⟨state, queue, sent, moved, ?_⟩
  rw [tcpSockHandle_transfers rand seg transfers]
  rcases outcome with ⟨_, _, _, result⟩ | ⟨examined, _⟩
  · exact result
  · exact absurd examined (by omega)

theorem accepts_eq (seg : Segment) (c : Conn) : c.accepts seg = (c.examines seg && decide (0 < seg.len)) := by
  rw [accepts, examines]
  generalize seg.len = len
  cases len <;> simp

theorem tcpSockHandle_closed (rand : Nat) (seg : Segment) (closed : c.state = .closed) :
    tcpSockHandle rand seg c = c := by
  rw [tcpSockHandle, closed]

theorem flagsAfter_shutRd (seg : Segment) (c : Conn) :
    hasFlag (flagsAfter seg c) sockFlagShutRd = (c.has sockFlagShutRd || seg.has tcpFlagFin) := by
  unfold flagsAfter
  cases seg.has tcpFlagFin with
  | true => rw [if_pos rfl, hasFlag_or]; rfl
  | false => rw [if_neg Bool.false_ne_true, Bool.or_false]; rfl

variable {mask : Nat}

theorem flagsAfter_has (seg : Segment) (c : Conn) (other : hasFlag sockFlagShutRd mask = false) :
    hasFlag (flagsAfter seg c) mask = c.has mask := by
  rw [flagsAfter]
  split
  · rw [hasFlag_or, other, Bool.or_false]
    rfl
  · rfl

theorem transfers_open (transfers : state.transfers = true) : state ≠ .closed := by
  rintro rfl
  contradiction

section Segment

variable (rand : Nat) (seg : Segment) (usable : c.state.transfers = true ∨ c.state = .closed)
include usable

theorem tcpSockHandle_cases :
    (c.examines seg = true ∧ ∃ state queue sent, state.transfers = true ∧ tcpSockHandle rand seg c =
      (received seg c).settled (flagsAfter seg c) (if closes seg c then .closed else state) queue sent) ∨
    (c.examines seg = false ∧ ∃ state queue sent,
      (state.transfers = true ∧ c.state.transfers = true ∨ state = .closed ∧ c.state = .closed) ∧
      tcpSockHandle rand seg c = c.settled c.flags state queue sent) := by
  rcases usable with transfers | closed
  · cases examined : c.examines seg with
    | true =>
      obtain ⟨state, queue, sent, moved, result⟩ := tcpSockHandle_examines rand examined
      exact .inl ⟨rfl, state, queue, sent, moved.transfers transfers, result⟩
    | false =>
      obtain ⟨state, queue, sent, moved, result⟩ := tcpSockHandle_unexamined rand transfers examined
      exact .inr ⟨rfl, state, queue, sent, .inl ⟨moved.transfers transfers, transfers⟩, result⟩
  · refine .inr ⟨?_, c.state, c.queue, c.sent, .inr ⟨closed, closed⟩, tcpSockHandle_closed rand seg closed⟩
    rw [examines, closed]
    rfl

theorem tcpSockHandle_usable :
    (tcpSockHandle rand seg c).state.transfers = true ∨ (tcpSockHandle rand seg c).state = .closed := by
  rcases tcpSockHandle_cases rand seg usable with ⟨_, _, _, _, transfers, result⟩ | ⟨_, _, _, _, states, result⟩
  · rw [result, settled_state]
    split
    · exact .inr rfl
    · exact .inl transfers
  · rw [result, settled_state]
    exact states.imp And.left And.left

theorem tcpSockHandle_flags :
    (tcpSockHandle rand seg c).flags = if c.examines seg then flagsAfter seg c else c.flags := by
  rcases tcpSockHandle_cases rand seg usable with ⟨examined, _, _, _, _, result⟩ | ⟨unexamined, _, _, _, _, result⟩
  · rw [result, settled_flags, if_pos examined]
  · rw [result, settled_flags, unexamined, if_neg Bool.false_ne_true]

theorem tcpSockHandle_shutRd : (tcpSockHandle rand seg c).has sockFlagShutRd =
    (c.has sockFlagShutRd || c.examines seg && seg.has tcpFlagFin) := by
  rw [has, tcpSockHandle_flags rand seg usable]
  split
  next examined =>
    rw [flagsAfter_shutRd, examined, Bool.true_and]
  next unexamined =>
    rw [Bool.eq_false_of_not_eq_true unexamined, Bool.false_and, Bool.or_false, has]

theorem tcpSockHandle_has (other : hasFlag sockFlagShutRd mask = false) :
    (tcpSockHandle rand seg c).has mask = c.has mask := by
  rw [has, tcpSockHandle_flags rand seg usable]
  split
  · exact flagsAfter_has seg c other
  · rfl

theorem tcpSockHandle_readable (readable : (tcpSockHandle rand seg c).has sockFlagShutRd = false) :
    c.has sockFlagShutRd = false := by
  rw [tcpSockHandle_shutRd rand seg usable] at readable
  exact (Bool.or_eq_false_iff.mp readable).1

theorem tcpSockHandle_ends (ended : (tcpSockHandle rand seg c).state = .closed) :
    c.state = .closed ∨ c.examines seg = true ∧ closes seg c = true := by
  rcases tcpSockHandle_cases rand seg usable with ⟨examined, _, _, _, transfers, result⟩ | ⟨_, _, _, _, states, result⟩
  · rw [result, settled_state] at ended
    split at ended
    next closes =>
      exact .inr ⟨examined, closes⟩
    · exact absurd ended (transfers_open transfers)
  · rw [result, settled_state] at ended
    rcases states with ⟨transfers, _⟩ | ⟨_, closed⟩
    · exact absurd ended (transfers_open transfers)
    · exact .inl closed

theorem tcpSockHandle_size : (tcpSockHandle rand seg c).recvBuffSize = c.recvBuffSize := by
  rcases tcpSockHandle_cases rand seg usable with ⟨_, _, _, _, _, result⟩ | ⟨_, _, _, _, _, result⟩
  · obtain ⟨_, _, _, _, _, frame⟩ := received_frame seg c
    rw [result, settled_recvBuffSize, frame]
  · rw [result, settled_recvBuffSize]

end Segment

theorem recvLoop_frame (n : Nat) (c : Conn) (bytes : List UInt8) : ∃ back accesses,
    (recvLoop n c bytes).1 = { c with recvBuffBack := back, accesses } := by
  induction n generalizing c bytes with
  | zero => exact ⟨_, _, rfl⟩
  | succ _ ih =>
    rw [recvLoop]
    split
    · exact ⟨_, _, rfl⟩
    · obtain ⟨back, accesses, rest⟩ := ih { c with recvBuffBack := wadd c.recvBuffBack 1 % c.recvBuffSize
                                                   accesses := .read _ :: c.accesses }
        (bytes ++ [c.recvBuff.getD _ 0])
      exact ⟨back, accesses, rest⟩

theorem recvFrom_conn (reader : Reader) (c : Conn) :
    (recvFrom reader c).1 = (recvLoop (reader.len - reader.bytes.length) c reader.bytes).1 := by
  rw [recvFrom]
  split
  rename_i loop
  rw [loop]
  split
  · rfl
  · split <;> rfl

theorem sockRecv_frame (len : Nat) (c : Conn) : ∃ back accesses,
    (sockRecv len c).1 = { c with recvBuffBack := back, accesses } := by
  rw [sockRecv, tcpRecv]
  split
  · split
    · exact ⟨_, _, rfl⟩
    · rw [recvFrom_conn]
      exact recvLoop_frame _ c _
  · exact ⟨_, _, rfl⟩

theorem recvResume_frame (reader : Reader) (c : Conn) : ∃ back semaphore accesses,
    (recvResume reader c).1 = { c with recvBuffBack := back, recvSemaphore := semaphore, accesses } := by
  rw [recvResume]
  split
  · exact ⟨_, _, _, rfl⟩
  · rw [recvFrom_conn]
    obtain ⟨back, accesses, loop⟩ := recvLoop_frame _
      { c with recvSemaphore := c.recvSemaphore - 1 } reader.bytes
    exact ⟨back, _, accesses, loop⟩

theorem sockShutdown_usable (how : Nat) (usable : c.state.transfers = true ∨ c.state = .closed) :
    (sockShutdown how c).1.state.transfers = true ∨ (sockShutdown how c).1.state = .closed := by
  rcases sockShutdown_cases how c with same | ⟨localSeq, queue, sent, result⟩
  · rw [same]
    exact usable
  · rw [result]
    split
    · exact .inl rfl
    · exact usable

theorem sockShutdown_has (how : Nat) (c : Conn) (mask : Nat) : (sockShutdown how c).1.has mask = c.has mask ∨
    (sockShutdown how c).1.has mask = (c.has mask || hasFlag (newBits (shutBits how) c) mask) := by
  rcases sockShutdown_cases how c with same | ⟨localSeq, queue, sent, result⟩
  · rw [same]
    exact .inl rfl
  · rw [result, has, hasFlag_or]
    exact .inr rfl

theorem sockShutdown_keeps (how : Nat) (set : c.has mask = true) : (sockShutdown how c).1.has mask = true := by
  rcases sockShutdown_has how c mask with same | grown
  · exact same.trans set
  · rw [grown, set, Bool.true_or]

theorem sockShutdown_readable (how : Nat) (readable : (sockShutdown how c).1.has sockFlagShutRd = false) :
    c.has sockFlagShutRd = false := by
  cases shut : c.has sockFlagShutRd with
  | true => exact absurd (sockShutdown_keeps how shut) (by simp [readable])
  | false => rfl

def Conn.Serves (c c' : Conn) : Prop := ∃ localSeq back semaphore queue sent accesses,
  c' = { c with
         nextLocalSeq := localSeq
         recvBuffBack := back
         recvSemaphore := semaphore
         queue
         sent
         accesses }

theorem received_conn {result : Conn × Recv} (ran : s.received result = .ok s') :
    ∃ reader returned, s' = { s with conn := result.1, reader, returned } := by
  rw [Session.received] at ran
  split at ran
  iterate 3
    · cases ran
      exact ⟨_, _, rfl⟩
  · contradiction

theorem sessions_arrives (s : Session) (valid : seg.valid = true) :
    sessions.Step (fun _ _ => True) s (s.segment seg) := ⟨.segment seg, trivial, valid, rfl⟩

theorem sessions_wake {reader : Reader} (waiting : s.reader = some reader) :
    sessions.perform .wake s = s.received (recvResume reader s.conn) := by
  simp only [sessions, waiting]

theorem sessions_cases {event : SessionEvent} (ran : sessions.perform event s = .ok s') :
    (∃ seg, event = .segment seg ∧ s' = s.segment seg) ∨
      (∃ conn reader returned, s.conn.Serves conn ∧ s' = { s with conn, reader, returned }) ∨
      ∃ how, event = .shutdown how ∧ s' = { s with conn := (sockShutdown how s.conn).1 } := by
  cases event with
  | segment seg =>
    cases ran
    exact .inl ⟨seg, rfl, rfl⟩
  | recv len =>
    obtain ⟨reader, returned, rfl⟩ := received_conn ran
    obtain ⟨_, _, frame⟩ := sockRecv_frame len s.conn
    exact .inr (.inl ⟨_, reader, returned, ⟨_, _, _, _, _, _, frame⟩, rfl⟩)
  | wake =>
    cases waiting : s.reader with
    | some reader =>
      rw [sessions_wake waiting] at ran
      obtain ⟨reader', returned, rfl⟩ := received_conn ran
      obtain ⟨_, _, _, frame⟩ := recvResume_frame reader s.conn
      exact .inr (.inl ⟨_, reader', returned, ⟨_, _, _, _, _, _, frame⟩, rfl⟩)
    | none =>
      simp only [sessions, waiting] at ran
      cases ran
      exact .inr (.inl ⟨s.conn, s.reader, s.returned, ⟨_, _, _, _, _, _, rfl⟩, rfl⟩)
  | send buff =>
    cases ran
    obtain ⟨_, _, _, frame⟩ := sockSend_frame buff s.conn
    exact .inr (.inl ⟨_, s.reader, s.returned, ⟨_, _, _, _, _, _, frame⟩, rfl⟩)
  | shutdown how =>
    cases ran
    exact .inr (.inr ⟨how, rfl, rfl⟩)

end KOs.Net

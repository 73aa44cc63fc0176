import KOs.Net.Handshake

namespace KOs.Net

open KOs.Common KOs.Data List Session Segment

/-- The turns the loop makes for `n` bytes before it finds the buffer full. -/
def turns (full : Nat) : Nat → Nat → Nat
  | _, 0 => 0
  | front, n + 1 => if front = full then 0 else turns full (wadd front 1) n + 1

def writes (offset front turns : Nat) : List Access :=
  ((List.range turns).map (fun i => .write (offset + i) (wadd front i))).reverse

theorem turns_le (full front n : Nat) : turns full front n ≤ n := by
  induction n generalizing front with
  | zero => exact Nat.le_refl 0
  | succ _ ih =>
    rw [turns]
    split
    · exact Nat.zero_le _
    · exact Nat.succ_le_succ (ih _)

variable {c : Conn}

variable {front seqNum : Nat} {payload : List UInt8}

theorem turns_eq_iff {full n : Nat} (small : front < wordSize) :
    turns full front n = n ↔ ∀ i < n, wadd front i ≠ full := by
  induction n generalizing front with
  | zero => exact ⟨fun _ _ => nofun, fun _ => rfl⟩
  | succ n ih =>
    rw [turns]
    split
    next full =>
      refine ⟨nofun, fun never => absurd ?_ (never 0 (Nat.succ_pos n))⟩
      rw [wadd_zero small]
      exact full
    next space =>
      rw [Nat.add_right_cancel_iff, ih (wadd_lt _ _)]
      constructor
      · intro later i inside
        cases i with
        | zero =>
          rw [wadd_zero small]
          exact space
        | succ i =>
          have shifted := later i (Nat.lt_of_succ_lt_succ inside)
          rwa [wadd_assoc, add_comm 1 i] at shifted
      · intro never i inside
        rw [wadd_assoc, add_comm 1 i]
        exact never (i + 1) (Nat.succ_lt_succ inside)

theorem writes_succ {offset m : Nat} (small : front < wordSize) :
    writes offset front (m + 1) = writes (offset + 1) (wadd front 1) m ++ [.write offset front] := by
  rw [writes, range_succ_eq_map, map_cons, reverse_cons, wadd_zero small, add_zero, map_map]
  have shifted : ((fun i => Access.write (offset + i) (wadd front i)) ∘ Nat.succ) =
      fun i => .write (offset + 1 + i) (wadd (wadd front 1) i) := by
    funext i
    simp [wadd_assoc, add_assoc, add_comm 1 i]
  rw [shifted]
  rfl

theorem storeLoop_accesses (offset : Nat) (bytes : List UInt8) (small : c.recvBuffFront < wordSize) :
    (storeLoop offset bytes c).accesses =
      writes offset c.recvBuffFront (turns (wsub c.recvBuffBack 1) c.recvBuffFront bytes.length) ++ c.accesses := by
  induction bytes generalizing offset c with
  | nil => rfl
  | cons byte _ ih =>
    rw [storeLoop, length_cons, turns]
    split
    · rfl
    · rw [ih _ (wadd_lt _ _), writes_succ small, append_assoc]
      rfl

variable {seg : Segment}

theorem len_lt (seg : Segment) : seg.len < 2 ^ 16 := Nat.mod_lt _ (by decide)

theorem len_lt_wordSize (seg : Segment) : seg.len < wordSize := (len_lt seg).trans (by decide)

theorem payload_length (valid : seg.valid = true) : seg.payload.length = seg.len := by
  simp only [Segment.valid, Bool.and_eq_true, decide_eq_true_eq] at valid
  obtain ⟨⟨⟨⟨⟨header, options⟩, total⟩, small⟩, _⟩, _⟩ := valid
  simp only [Segment.optionsLength] at options
  rw [Segment.payload, length_drop, Segment.len, Segment.optionsLength]
  omega

theorem raw_length (valid : seg.valid = true) : (seg.raw.take seg.len).length = seg.len := by
  rw [length_take, ← payload_length valid, payload, length_drop]
  omega

theorem raw_payload (valid : seg.valid = true) (plain : seg.optionsLength = 0) :
    seg.raw.take seg.len = seg.payload := by
  rw [← payload_length valid, payload, plain, drop_zero, take_length]

theorem accepted_accesses (transfers : c.state.transfers = true) (payload : 0 < seg.len)
    (sequence : c.nextPeerSeq = seg.seqNum) (readable : c.has sockFlagShutRd = false)
    (small : c.recvBuffFront < wordSize) (valid : seg.valid = true) :
    (tcpSockHandle 0 seg c).nextPeerSeq = wadd c.nextPeerSeq seg.len ∧ (tcpSockHandle 0 seg c).accesses =
        writes 0 c.recvBuffFront (turns (wsub c.recvBuffBack 1) c.recvBuffFront seg.len) ++ c.accesses := by
  have examined : c.examines seg = true := by simp [Conn.examines, transfers, sequence]
  obtain ⟨state, queue, sent, _, result⟩ := tcpSockHandle_examines 0 examined
  have stored := storeLoop_accesses 0 (seg.raw.take seg.len) small
  rw [raw_length valid] at stored
  rw [result, Conn.settled_nextPeerSeq, Conn.settled_accesses, received, if_pos payload, acceptPayload_eq,
    Conn.advanced_nextPeerSeq, Conn.advanced_accesses, storePayload_eq, readable, if_neg Bool.false_ne_true, sequence]
  exact ⟨rfl, stored⟩

/-- The buffer holds `bytes` from its start, and a reader has taken `taken` of them. -/
structure Conn.Buffered (c : Conn) (bytes : List UInt8) (taken : Nat) : Prop where
  size : c.recvBuffSize = Mm.pageSize
  buff : c.recvBuff.length = Mm.pageSize
  front : c.recvBuffFront = bytes.length
  room : bytes.length ≤ Mm.pageSize
  content : c.recvBuff.take bytes.length = bytes
  back : c.recvBuffBack = wsub taken 1
  behind : taken ≤ bytes.length
  accesses : ∀ access ∈ c.accesses, access.index < Mm.pageSize

variable {bytes : List UInt8}

section Buffer

variable {taken : Nat}

theorem page_small : Mm.pageSize + 2 < wordSize := by decide

theorem Conn.Fresh.buffered (fresh : c.Fresh) : c.Buffered [] 0 where
  size := fresh.size
  buff := fresh.buff
  front := fresh.front
  room := Nat.zero_le _
  content := rfl
  back := fresh.back
  behind := Nat.le_refl 0
  accesses _ mem := by
    rw [fresh.accesses] at mem
    contradiction

/-- The loop never finds the buffer full: its test is for a front two places before the reader. -/
theorem Conn.Buffered.not_full (buffered : c.Buffered bytes taken) :
    c.recvBuffFront ≠ wsub c.recvBuffBack 1 := by
  have small := page_small
  have room := buffered.room
  have behind := buffered.behind
  intro full
  have once : wadd c.recvBuffFront 1 = c.recvBuffBack := by
    rw [full]
    refine wadd_wsub ?_ (by omega)
    rw [buffered.back]
    exact Nat.mod_lt _ wordSize_positive
  have twice : wadd (wadd c.recvBuffFront 1) 1 = taken := by
    rw [once, buffered.back]
    exact wadd_wsub (by omega) (by omega)
  rw [wadd_assoc, buffered.front, wadd_eq (by omega)] at twice
  omega

theorem take_set {values : List UInt8} {n : Nat} (inside : n < values.length) (value : UInt8) :
    (values.set n value).take (n + 1) = values.take n ++ [value] := by
  rw [set_eq_take_append_cons_drop, if_pos inside, take_append, length_take,
    min_eq_left (inside.le), take_of_length_le (by simp)]
  simp

section

variable (buffered : c.Buffered bytes taken)
include buffered

theorem Conn.Buffered.storeByte (space : bytes.length < Mm.pageSize)
    (offset : Nat) (byte : UInt8) : (Net.storeByte offset byte c).Buffered (bytes ++ [byte]) taken where
  size := buffered.size
  buff := by
    rw [Net.storeByte, length_set]
    exact buffered.buff
  front := by
    have small := page_small
    rw [Net.storeByte, buffered.front, wadd_eq (by omega), length_append]
    rfl
  room := by
    rw [length_append]
    exact space
  content := by
    have inside : bytes.length < c.recvBuff.length := by
      rw [buffered.buff]
      exact space
    rw [Net.storeByte, length_append, buffered.front]
    exact (take_set inside byte).trans (by rw [buffered.content])
  back := buffered.back
  behind := by
    rw [length_append]
    exact Nat.le_add_right_of_le buffered.behind
  accesses access mem := by
    rcases mem_cons.mp mem with rfl | older
    · rw [Access.index, buffered.front]
      exact space
    · exact buffered.accesses _ older

theorem Conn.Buffered.storeLoop {more : List UInt8} (space : bytes.length + more.length ≤ Mm.pageSize) (offset : Nat) :
    (Net.storeLoop offset more c).Buffered (bytes ++ more) taken := by
  induction more generalizing bytes c offset with
  | nil =>
    rw [append_nil]
    exact buffered
  | cons byte _ ih =>
    rw [length_cons] at space
    rw [Net.storeLoop, if_neg buffered.not_full, append_cons]
    refine ih (buffered.storeByte (by omega) _ byte) ?_ _
    rw [length_append, length_singleton]
    omega

theorem Conn.Buffered.read (left : taken < bytes.length) :
    ({ c with recvBuffBack := taken, accesses := .read taken :: c.accesses } : Conn).Buffered bytes (taken + 1) ∧
      c.recvBuff.getD taken 0 = bytes[taken] := by
  have small := page_small
  have room := buffered.room
  refine ⟨⟨buffered.size, buffered.buff, buffered.front, room, buffered.content, ?_, left, ?_⟩, ?_⟩
  · exact (wsub_eq (Nat.succ_pos _) (by omega)).symm
  · intro access mem
    rcases mem_cons.mp mem with rfl | older
    · exact left.trans_le room
    · exact buffered.accesses _ older
  · have same : c.recvBuff[taken]? = bytes[taken]? := by rw [← getElem?_take_of_lt left, buffered.content]
    rw [getD_eq_getElem?_getD, same, getElem?_eq_getElem left]
    rfl

theorem Conn.Buffered.recvLoop (n : Nat) (sofar : List UInt8) :
    ∃ back accesses, Net.recvLoop n c sofar =
        ({ c with recvBuffBack := back, accesses }, sofar ++ (bytes.drop taken).take n) ∧
      ({ c with recvBuffBack := back, accesses } : Conn).Buffered bytes
        (taken + ((bytes.drop taken).take n).length) := by
  have small := page_small
  have room := buffered.room
  have behind := buffered.behind
  induction n generalizing c taken sofar with
  | zero =>
    refine ⟨c.recvBuffBack, c.accesses, ?_, ?_⟩
    · rw [Net.recvLoop, take_zero, append_nil]
    · rw [take_zero]
      exact buffered
  | succ n ih =>
    have next : wadd c.recvBuffBack 1 = taken := by
      rw [buffered.back]
      exact wadd_wsub (by omega) (by omega)
    have empty : wadd c.recvBuffBack 1 = c.recvBuffFront ↔ taken = bytes.length := by rw [next, buffered.front]
    rw [Net.recvLoop]
    by_cases all : taken = bytes.length
    · have none : bytes.drop taken = [] := drop_eq_nil_of_le (by omega)
      refine ⟨c.recvBuffBack, c.accesses, ?_, ?_⟩
      · rw [if_pos (empty.mpr all), none, take_nil, append_nil]
      · rw [none, take_nil]
        exact buffered
    · have left : taken < bytes.length := by omega
      have index : taken % c.recvBuffSize = taken := by
        rw [buffered.size]
        exact Nat.mod_eq_of_lt (by omega)
      obtain ⟨reads, byte⟩ := buffered.read left
      rw [if_neg fun here => all (empty.mp here), next, index]
      dsimp only
      rw [byte]
      obtain ⟨back, accesses, rest, after⟩ := ih reads _ reads.behind
      refine ⟨back, accesses, ?_, ?_⟩
      · rw [drop_eq_getElem_cons left, take_succ_cons]
        rw [append_assoc] at rest
        exact rest
      · rw [drop_eq_getElem_cons left, take_succ_cons, length_cons]
        have count : taken + (((bytes.drop (taken + 1)).take n).length + 1) =
            taken + 1 + ((bytes.drop (taken + 1)).take n).length := by omega
        rw [count]
        exact after

theorem Conn.Buffered.recvFrom (reader : Reader) :
    ∃ back accesses more, (Net.recvFrom reader c).1 = { c with recvBuffBack := back, accesses } ∧
      ({ c with recvBuffBack := back, accesses } : Conn).Buffered bytes (taken + more.length) ∧
      more <+: bytes.drop taken ∧
      ((Net.recvFrom reader c).2 = recvReturn (reader.bytes ++ more) ∨
        (Net.recvFrom reader c).2 = .waits { reader with bytes := reader.bytes ++ more }) := by
  obtain ⟨back, accesses, loop, after⟩ := buffered.recvLoop (reader.len - reader.bytes.length) reader.bytes
  refine ⟨back, accesses, _, ?_, after, take_prefix _ _, ?_⟩
  · rw [Net.recvFrom, loop]
    dsimp only
    split
    · rfl
    · split <;> rfl
  · rw [Net.recvFrom, loop]
    dsimp only
    split
    · exact .inl rfl
    · split
      · exact .inl rfl
      · exact .inr rfl

end

end Buffer

namespace Session

def pending (s : Session) : List UInt8 := s.reader.elim [] Reader.bytes

def taken (s : Session) : List UInt8 := s.returned ++ s.pending

/-- What is read is what has been stored, and that is what has been accepted while the read
side is open. -/
structure Streams (s : Session) (bytes : List UInt8) : Prop extends s.conn.Buffered bytes s.taken.length where
  state : s.conn.state.transfers = true ∨ s.conn.state = .closed
  delivered : s.taken <+: bytes
  accepted : bytes <+: s.accepted
  whole : s.conn.has sockFlagShutRd = false → bytes = s.accepted

end Session

/-- A payload that is to be stored has room in the buffer and no options before it. -/
def Fits (s : Session) : SessionEvent → Prop
  | .segment seg => s.conn.accepts seg = true → s.conn.has sockFlagShutRd = false →
      seg.optionsLength = 0 ∧ s.conn.recvBuffFront + seg.len ≤ s.conn.recvBuffSize
  | _ => True

section Streams

variable {s s' : Session} {taken : Nat}

theorem Conn.Buffered.advanced (buffered : c.Buffered bytes taken) (next : Nat) :
    (c.advanced next).Buffered bytes taken := { buffered with }

theorem Conn.Buffered.settled (buffered : c.Buffered bytes taken) (flags : Nat) (state : TcpState)
    (queue : List Pending) (sent : List Packet) :
    (c.settled flags state queue sent).Buffered bytes taken := { buffered with }

theorem Session.Streams.start (fresh : c.Fresh) : (Session.start c).Streams [] where
  toBuffered := fresh.buffered
  state := by
    rw [Session.start, fresh.state]
    exact .inl rfl
  delivered := nil_prefix
  accepted := nil_prefix
  whole _ := rfl

theorem Session.Streams.receives {out : Recv} {more : List UInt8} (streams : s.Streams bytes)
    (buffered : c.Buffered bytes (s.taken.length + more.length)) (flags : c.flags = s.conn.flags)
    (state : c.state = s.conn.state) (next : more <+: bytes.drop s.taken.length)
    (outcome : out = recvReturn (s.pending ++ more) ∨ ∃ len, out = .waits { len, bytes := s.pending ++ more })
    (ran : s.received (c, out) = .ok s') : s'.Streams bytes := by
  have delivered : s.returned ++ (s.pending ++ more) <+: bytes := by
    obtain ⟨rest, here⟩ := streams.delivered
    obtain ⟨later, further⟩ := next
    rw [← here, drop_left] at further
    rw [← here, ← further, taken]
    simp
  have length : (s.returned ++ (s.pending ++ more)).length = s.taken.length + more.length := by
    simp [taken, add_assoc]
  have whole : c.has sockFlagShutRd = false → bytes = s.accepted := by
    rw [Conn.has, flags]
    exact streams.whole
  have states : c.state.transfers = true ∨ c.state = .closed := by
    rw [state]
    exact streams.state
  rw [← length] at buffered
  rcases outcome with rfl | ⟨len, rfl⟩
  · rw [recvReturn] at ran
    split at ran
    · contradiction
    · cases ran
      have finished : s.returned ++ (s.pending ++ more) ++ [] = s.returned ++ (s.pending ++ more) := append_nil _
      rw [← finished] at buffered delivered
      exact ⟨buffered, states, delivered, streams.accepted, whole⟩
  · cases ran
    exact ⟨buffered, states, delivered, streams.accepted, whole⟩

theorem Session.Streams.recv {len : Nat} (streams : s.Streams bytes) (free : s.reader = none)
    (ran : s.received (sockRecv len s.conn) = .ok s') : s'.Streams bytes := by
  have none : s.pending = [] := by
    rw [pending, free]
    rfl
  have failed : s.received (s.conn, .fails) = .ok s' → s'.Streams bytes := by
    intro ran
    cases ran
    have same : s.returned ++ [] = s.taken := by rw [taken, none]
    refine ⟨?_, streams.state, ?_, streams.accepted, streams.whole⟩
    · rw [taken]
      dsimp only [pending, Option.elim]
      rw [same]
      exact streams.toBuffered
    · rw [taken]
      dsimp only [pending, Option.elim]
      rw [same]
      exact streams.delivered
  rw [sockRecv] at ran
  split at ran
  · rw [tcpRecv] at ran
    split at ran
    · exact failed ran
    · obtain ⟨back, accesses, more, conn, buffered, next, outcome⟩ :=
        streams.toBuffered.recvFrom { len, bytes := [] }
      refine streams.receives (c := (recvFrom { len, bytes := [] } s.conn).1) ?_ ?_ ?_ next ?_ ran
      · rw [conn]
        exact buffered
      · rw [conn]
      · rw [conn]
      · rw [none]
        exact outcome.imp_right fun waits => ⟨len, waits⟩
  · exact failed ran

theorem Session.Streams.wake {reader : Reader} (streams : s.Streams bytes) (waiting : s.reader = some reader)
    (ran : s.received (recvResume reader s.conn) = .ok s') : s'.Streams bytes := by
  have pending : s.pending = reader.bytes := by
    rw [pending, waiting]
    rfl
  have downed : ({ s.conn with recvSemaphore := s.conn.recvSemaphore - 1 } : Conn).Buffered bytes s.taken.length :=
    { streams.toBuffered with }
  rw [recvResume] at ran
  split at ran
  · have nothing : [] <+: bytes.drop s.taken.length := nil_prefix
    refine streams.receives (c := { s.conn with recvSemaphore := s.conn.recvSemaphore - 1 }) ?_ rfl rfl nothing ?_ ran
    · exact downed
    · rw [append_nil, pending]
      exact .inl rfl
  · obtain ⟨back, accesses, more, conn, buffered, next, outcome⟩ := downed.recvFrom _
    refine streams.receives (c := (recvFrom _ { s.conn with recvSemaphore := s.conn.recvSemaphore - 1 }).1)
      ?_ ?_ ?_ next ?_ ran
    · rw [conn]
      exact buffered
    · rw [conn]
    · rw [conn]
    · rw [pending]
      exact outcome.imp_right fun waits => ⟨reader.len, waits⟩

/-- What the buffer holds after a segment that is taken in. -/
def storedAfter (seg : Segment) (c : Conn) (bytes : List UInt8) : List UInt8 :=
  if seg.len > 0 && !c.has sockFlagShutRd then bytes ++ seg.payload else bytes

theorem Conn.Buffered.received (buffered : c.Buffered bytes taken) (valid : seg.valid = true)
    (fits : 0 < seg.len → c.has sockFlagShutRd = false →
      seg.optionsLength = 0 ∧ c.recvBuffFront + seg.len ≤ c.recvBuffSize) :
    (Net.received seg c).Buffered (storedAfter seg c bytes) taken := by
  rw [Net.received, storedAfter]
  by_cases payload : 0 < seg.len
  · rw [if_pos payload, acceptPayload_eq, storePayload_eq]
    cases readable : c.has sockFlagShutRd with
    | true =>
      rw [if_pos rfl, if_neg (by simp)]
      exact buffered.advanced _
    | false =>
      obtain ⟨plain, room⟩ := fits payload readable
      rw [buffered.front, buffered.size, ← payload_length valid] at room
      rw [if_neg Bool.false_ne_true, if_pos (by simp [payload]), raw_payload valid plain]
      exact (buffered.storeLoop room 0).advanced _
  · rw [if_neg payload, if_neg (by simp [payload])]
    exact buffered

theorem storedAfter_extends (seg : Segment) (c : Conn) (bytes : List UInt8) : bytes <+: storedAfter seg c bytes := by
  rw [storedAfter]
  split
  · exact prefix_append _ _
  · exact prefix_refl _

variable (streams : s.Streams bytes)
include streams

theorem Session.Streams.grown (accepts : s.conn.accepts seg = decide (0 < seg.len)) :
    storedAfter seg s.conn bytes <+: (s.segment seg).accepted ∧
      (s.conn.has sockFlagShutRd = false → storedAfter seg s.conn bytes = (s.segment seg).accepted) := by
  rw [segment, accepts, storedAfter]
  by_cases payload : 0 < seg.len
  · rw [if_pos (decide_eq_true payload)]
    cases readable : s.conn.has sockFlagShutRd with
    | true =>
      rw [if_neg (by simp)]
      exact ⟨streams.accepted.trans (prefix_append _ _), nofun⟩
    | false =>
      rw [if_pos (by simp [payload]), streams.whole readable]
      exact ⟨prefix_refl _, fun _ => rfl⟩
  · rw [if_neg (by simp [payload]), if_neg (by simp [payload])]
    exact ⟨streams.accepted, streams.whole⟩

theorem Session.Streams.arrives {bytes' : List UInt8}
    (buffered : (tcpSockHandle 0 seg s.conn).Buffered bytes' s.taken.length) (grown : bytes <+: bytes')
    (accepted : bytes' <+: (s.segment seg).accepted)
    (whole : s.conn.has sockFlagShutRd = false → bytes' = (s.segment seg).accepted) :
    (s.segment seg).Streams bytes' :=
  ⟨buffered, tcpSockHandle_usable 0 seg streams.state, streams.delivered.trans grown, accepted,
    fun readable => whole (tcpSockHandle_readable 0 seg streams.state readable)⟩

theorem Session.Streams.segment (valid : seg.valid = true) (fits : Fits s (.segment seg)) :
    ∃ bytes, (s.segment seg).Streams bytes := by
  rcases tcpSockHandle_cases 0 seg streams.state with
    ⟨examined, state, queue, sent, _, result⟩ | ⟨unexamined, state, queue, sent, _, result⟩
  · have accepts : s.conn.accepts seg = decide (0 < seg.len) := by rw [accepts_eq, examined, Bool.true_and]
    have buffered := streams.received valid fun payload => fits (accepts.trans (decide_eq_true payload))
    obtain ⟨accepted, whole⟩ := streams.grown accepts
    refine ⟨_, streams.arrives ?_ (storedAfter_extends seg s.conn _) accepted whole⟩
    rw [result]
    exact buffered.settled _ _ _ _
  · have ignored : (s.segment seg).accepted = s.accepted := by
      rw [Session.segment, accepts_eq, unexamined]
      rfl
    refine ⟨bytes, streams.arrives ?_ (prefix_refl _) ?_ ?_⟩
    · rw [result]
      exact streams.settled _ _ _ _
    · rw [ignored]
      exact streams.accepted
    · rw [ignored]
      exact streams.whole

theorem Session.Streams.shutdown (how : Nat) :
    ({ s with conn := (sockShutdown how s.conn).1 } : Session).Streams bytes := by
  refine ⟨?_, sockShutdown_usable how streams.state, streams.delivered, streams.accepted,
    fun readable => streams.whole (sockShutdown_readable how readable)⟩
  rcases sockShutdown_cases how s.conn with same | ⟨localSeq, queue, sent, result⟩
  · rw [same]
    exact streams.toBuffered
  · rw [result]
    exact { streams.toBuffered with }

theorem Session.Streams.step {event : SessionEvent}
    (enabled : sessions.enabled event s = true) (fits : Fits s event) (ran : sessions.perform event s = .ok s') :
    ∃ bytes, s'.Streams bytes := by
  cases event with
  | segment =>
    cases ran
    exact streams.segment enabled fits
  | recv =>
    have free := (Bool.and_eq_true_iff.mp enabled).1
    exact ⟨bytes, streams.recv (Option.isNone_iff_eq_none.mp free) ran⟩
  | wake =>
    have waiting := (Bool.and_eq_true_iff.mp enabled).1
    obtain ⟨reader, here⟩ := Option.isSome_iff_exists.mp waiting
    rw [sessions_wake here] at ran
    exact ⟨bytes, streams.wake here ran⟩
  | send buff =>
    cases ran
    obtain ⟨localSeq, queue, sent, result⟩ := sockSend_frame buff s.conn
    refine ⟨bytes, ?_⟩
    rw [result]
    exact ⟨{ streams.toBuffered with }, streams.state, streams.delivered, streams.accepted, streams.whole⟩
  | shutdown how =>
    cases ran
    exact ⟨bytes, streams.shutdown how⟩

omit streams in
theorem Session.Streams.reached (fresh : c.Fresh) (reached : sessions.Reaches Fits (Session.start c) s) :
    ∃ bytes, s.Streams bytes := by
  refine reached.preserves (fun s => ∃ bytes, s.Streams bytes) ⟨[], Session.Streams.start fresh⟩ ?_
  rintro s event s' ⟨bytes, streams⟩ fits enabled ran
  exact streams.step enabled fits ran

theorem Session.Streams.overruns (valid : seg.valid = true)
    (full : bytes.length = Mm.pageSize) (accepts : s.conn.accepts seg = true)
    (readable : s.conn.has sockFlagShutRd = false) :
    ¬ ∀ access ∈ (s.segment seg).conn.accesses, access.index < (s.segment seg).conn.recvBuffSize := by
  simp only [Conn.accepts, Bool.and_eq_true, decide_eq_true_eq] at accepts
  obtain ⟨⟨transfers, payload⟩, sequence⟩ := accepts
  have front : s.conn.recvBuffFront = Mm.pageSize := streams.front.trans full
  have small : s.conn.recvBuffFront < wordSize := by
    rw [front]
    decide
  have space := streams.not_full
  obtain ⟨_, accesses⟩ := accepted_accesses transfers payload sequence readable small valid
  obtain ⟨n, length⟩ := Nat.exists_eq_succ_of_ne_zero (payload.ne')
  rw [length, turns, if_neg space, writes_succ small, front] at accesses
  have written : .write 0 Mm.pageSize ∈ (s.segment seg).conn.accesses := by
    rw [Session.segment, accesses]
    simp
  have size : (s.segment seg).conn.recvBuffSize = Mm.pageSize :=
    (tcpSockHandle_size 0 seg streams.state).trans streams.size
  intro inside
  have index := inside _ written
  rw [size] at index
  exact lt_irrefl _ index

end Streams

/-- For as long as what arrives fits behind `recv_buff_front`, no access leaves the buffer and the calls
of `tcp_recv` return the stream that has been accepted. -/
theorem recv_delivers_stream {c : Conn} {s : Session} (fresh : c.Fresh)
    (reached : sessions.Reaches Fits (Session.start c) s) :
    (∀ access ∈ s.conn.accesses, access.index < s.conn.recvBuffSize) ∧ s.returned <+: s.accepted := by
  obtain ⟨bytes, streams⟩ := Session.Streams.reached fresh reached
  constructor
  · rw [streams.size]
    exact streams.accesses
  · exact (prefix_append _ _).trans (streams.delivered.trans streams.accepted)

def opening : Conn := tcpConnect 0 0 (List.replicate Mm.pageSize 0)

def synAck : Segment :=
  { seqNum := 0, ackNum := 1, dataOffFlags := tcpFlagSyn ||| tcpFlagAck ||| 0x50, windowSize := 0, totalLength := 40,
    raw := [] }

def opened : Conn := tcpSockHandle 0 synAck opening

theorem opened_fresh : opened.Fresh := by
  have answered : connecting.perform (.segment 0 synAck) opening = .ok opened := rfl
  exact established_fresh (by decide) (by decide) (by decide) (by decide) length_replicate .refl rfl answered rfl

def dataSegment (seqNum : Nat) (payload : List UInt8) : Segment :=
  { seqNum, ackNum := 0, dataOffFlags := 0x50, windowSize := 0, totalLength := 40 + payload.length, raw := payload }

theorem dataSegment_dataOff (seqNum : Nat) (payload : List UInt8) : (dataSegment seqNum payload).dataOff = 5 := by
  change (0x50 &&& 0x00F0) >>> 4 = 5
  decide

theorem dataSegment_len (short : payload.length < 2 ^ 16) : (dataSegment seqNum payload).len = payload.length := by
  rw [len, dataSegment_dataOff, dataSegment]
  dsimp only
  omega

theorem dataSegment_valid (small : seqNum < wordSize)
    (short : 40 + payload.length < 2 ^ 16) : (dataSegment seqNum payload).valid = true := by
  have fields : (dataSegment seqNum payload).totalLength = 40 + payload.length := rfl
  simp only [valid, optionsLength, dataSegment_dataOff, fields, short]
  simp [dataSegment, small, wordSize_positive]

instance (s : Session) : DecidablePred (Fits s)
  | .segment _ => inferInstanceAs (Decidable (_ → _ → _ ∧ _))
  | .recv .. | .wake | .send .. | .shutdown .. => .isTrue trivial

theorem recv_delivers_stream_waiting : ∃ s, sessions.Reaches Fits (Session.start opened) s ∧
    s.returned = [10, 11, 12, 13] ∧ s.returned <+: s.accepted := by
  obtain ⟨s, reached, returned⟩ : ∃ s, sessions.Reaches Fits (start opened) s ∧ s.returned = [10, 11, 12, 13] :=
    Machine.run_exists [.segment (dataSegment 1 [10, 11, 12]), .recv 1, .recv 1, .recv 2,
      .segment (dataSegment 4 [13, 14]), .wake] (by decide +kernel)
  exact ⟨s, reached, returned, (recv_delivers_stream opened_fresh reached).2⟩

def optionSegment : Segment :=
  { seqNum := 1, ackNum := 0, dataOffFlags := 0x60, windowSize := 0, totalLength := 45, raw := [1, 1, 1, 1, 7] }

def pageful : Segment := dataSegment 1 (List.replicate Mm.pageSize 0)

theorem pageful_len : pageful.len = Mm.pageSize := by
  have length : (replicate Mm.pageSize (0 : UInt8)).length = Mm.pageSize := length_replicate
  rw [pageful, dataSegment_len, length]
  rw [length]
  decide

theorem pageful_valid : pageful.valid = true := by
  refine dataSegment_valid (by decide) ?_
  rw [length_replicate]
  decide

theorem opened_sequence : opened.nextPeerSeq = pageful.seqNum := by decide +kernel

theorem opened_accepts : opened.accepts pageful = true := by
  rw [Conn.accepts, opened_fresh.state, opened_sequence, pageful_len, decide_eq_true rfl]
  decide

def filled : Session := (Session.start opened).segment pageful

theorem filled_reached : sessions.Reaches (fun _ _ => True) (Session.start opened) filled :=
  .single (sessions_arrives _ pageful_valid)

theorem filled_conn : filled.conn.state = .established ∧ filled.conn.has sockFlagShutRd = false ∧
    filled.conn.nextPeerSeq = wadd 1 Mm.pageSize := by
  have plain (mask : Nat) (other : hasFlag 0x50 mask = false) : pageful.has mask = false := other
  have examined : opened.examines pageful = true := by
    have accepts := opened_accepts
    rw [accepts_eq, Bool.and_eq_true] at accepts
    exact accepts.1
  have readable : hasFlag (flagsAfter pageful opened) sockFlagShutRd = false := by rfl
  have lasting : closes pageful opened = false := by rfl
  obtain ⟨advanced, _⟩ := accepted_accesses (by rw [opened_fresh.state]; rfl)
    (by rw [pageful_len]; decide) opened_sequence opened_fresh.rd (by rw [opened_fresh.front]; decide) pageful_valid
  obtain ⟨state, queue, sent, moved, result⟩ := tcpSockHandle_examines 0 examined
  refine ⟨?_, ?_, ?_⟩
  · rw [filled, Session.segment, start, result, Conn.settled_state, lasting, if_neg Bool.false_ne_true]
    rcases moved with same | ⟨_, ack⟩
    · exact same.trans opened_fresh.state
    · exact absurd ack (Bool.not_eq_true _ ▸ plain _ (by decide))
  · rw [filled, Session.segment, start, result, Conn.has, Conn.settled_flags]
    exact readable
  · have next : wadd opened.nextPeerSeq pageful.len = wadd 1 Mm.pageSize := by
      rw [opened_sequence, pageful_len]
      rfl
    exact advanced.trans next

theorem filled_streams : ∃ bytes, filled.Streams bytes ∧ bytes.length = Mm.pageSize := by
  have fit : Fits (start opened) (.segment pageful) := by
    intro _ _
    rw [pageful_len, start, opened_fresh.front, opened_fresh.size]
    decide
  obtain ⟨bytes, streams⟩ := (Session.Streams.start opened_fresh).segment pageful_valid fit
  refine ⟨bytes, streams, ?_⟩
  rw [streams.whole filled_conn.2.1, Session.segment, start, opened_accepts, if_pos rfl, nil_append,
    payload_length pageful_valid, pageful_len]

/-- The byte after the last one of the buffer, and a header with options. -/
theorem recv_stream_broken :
    (∃ s, sessions.Reaches (fun _ _ => True) (Session.start opened) s ∧
      ¬ ∀ access ∈ s.conn.accesses, access.index < s.conn.recvBuffSize) ∧
    ∃ s, sessions.Reaches (fun _ _ => True) (Session.start opened) s ∧ ¬ s.returned <+: s.accepted := by
  constructor
  · obtain ⟨bytes, streams, full⟩ := filled_streams
    have valid : (dataSegment (1 + Mm.pageSize) [0]).valid = true := by decide
    have accepts : filled.conn.accepts (dataSegment (1 + Mm.pageSize) [0]) = true := by
      rw [Conn.accepts, filled_conn.1, filled_conn.2.2]
      decide
    exact ⟨_, filled_reached.tail (sessions_arrives filled valid), streams.overruns valid full accepts filled_conn.2.1⟩
  · exact Machine.run_exists [.segment optionSegment, .recv 1] (by decide +kernel)

def Conn.drained (c : Conn) : Bool := wadd c.recvBuffBack 1 = c.recvBuffFront

/-- A call, with what has become of the connection each time that `semaphore_down` returns. -/
def recvCall : Conn × Recv → List Conn → Conn × Recv
  | (_, .waits reader), c :: wakes => recvCall (recvResume reader c) wakes
  | result, _ => result

/-- A call for `len` bytes, of which fewer are returned only if none is left in the buffer. -/
structure Drains (len : Nat) (result : Conn × Recv) : Prop where
  returned : ∀ bytes, result.2 = .returns bytes → bytes.length < len → result.1.drained = true
  waits : ∀ reader, result.2 = .waits reader → reader.len = len ∧ reader.bytes.length ≤ len

theorem recvLoop_length (n : Nat) (c : Conn) (bytes : List UInt8) :
    (recvLoop n c bytes).2.length = bytes.length + n ∨
      (recvLoop n c bytes).2.length < bytes.length + n ∧ (recvLoop n c bytes).1.drained = true := by
  fun_induction recvLoop n c bytes with
  | case1 => exact .inl rfl
  | case2 n c _ empty => exact .inr ⟨Nat.lt_add_of_pos_right (Nat.succ_pos n), decide_eq_true empty⟩
  | case3 n c _ more back ih => simpa [add_assoc, add_comm 1 n] using ih

theorem drains_recvReturn {len : Nat} (short : bytes.length < len → c.drained = true) :
    Drains len (c, recvReturn bytes) := by
  rw [recvReturn]
  split
  · exact ⟨by simp, by simp⟩
  · refine ⟨fun out returned less => ?_, by simp⟩
    cases returned
    exact short less

theorem recvFrom_drains (reader : Reader) (small : reader.bytes.length ≤ reader.len) (c : Conn) :
    Drains reader.len (recvFrom reader c) := by
  have loop := recvLoop_length (reader.len - reader.bytes.length) c reader.bytes
  rw [Nat.add_sub_cancel' small] at loop
  rw [recvFrom]
  generalize recvLoop _ c reader.bytes = done at loop
  dsimp only at loop ⊢
  split
  · exact drains_recvReturn (by omega)
  next less =>
    obtain ⟨fewer, drained⟩ := loop.resolve_left less
    split
    · exact drains_recvReturn fun _ => drained
    · refine ⟨by simp, fun later waits => ?_⟩
      cases waits
      exact ⟨rfl, fewer.le⟩

/-- What a call leaves behind, if it is not woken with bytes in the buffer after the end of the stream. -/
theorem recv_drains (len : Nat) (c : Conn) (wakes : List Conn)
    (seen : ∀ c ∈ wakes, c.has sockFlagShutRd = true → c.drained = true) :
    Drains len (recvCall (sockRecv len c) wakes) := by
  have first : Drains len (sockRecv len c) := by
    rw [sockRecv, tcpRecv]
    split
    · split
      · exact ⟨by simp, by simp⟩
      · exact recvFrom_drains { len, bytes := [] } (Nat.zero_le len) c
    · exact ⟨by simp, by simp⟩
  generalize sockRecv len c = result at first
  -- With `SOCK_FLAG_SHUT_RD` set a call that is woken does not look at the buffer again.
  induction wakes generalizing result with
  | nil => simpa only [recvCall] using first
  | cons c _ ih =>
    obtain ⟨before, state⟩ := result
    cases state with
    | waits reader =>
      obtain ⟨rfl, small⟩ := first.waits reader rfl
      refine ih (fun c later => seen c (mem_cons_of_mem _ later)) _ ?_
      rw [recvResume]
      split
      next shut =>
        exact drains_recvReturn fun _ => seen c mem_cons_self shut
      · exact recvFrom_drains reader small _
    | returns | fails | hangs => exact first

def dataFinSegment (payload : List UInt8) : Segment :=
  { dataSegment 1 payload with dataOffFlags := tcpFlagFin ||| 0x50 }

/-- Two segments arrive while a call waits. -/
def twoArrived : Conn :=
  tcpSockHandle 0 (dataSegment 2 [8]) (tcpSockHandle 0 (dataSegment 1 [7]) (sockRecv 3 opened).1)

/-- The FIN, after the call has read both bytes. -/
def finArrived : Conn :=
  tcpSockHandle 0 { dataFinSegment [] with seqNum := 3 } (recvCall (sockRecv 3 opened) [twoArrived]).1

theorem recv_drains_fin : twoArrived.recvSemaphore = 2 ∧
    (recvCall (sockRecv 3 opened) [twoArrived, finArrived]).2 = .returns [7, 8] ∧
    (recvCall (sockRecv 3 opened) [twoArrived, finArrived]).1.drained = true := by
  have returned : (recvCall (sockRecv 3 opened) [twoArrived, finArrived]).2 = .returns [7, 8] := by decide +kernel
  refine ⟨by decide +kernel, returned, (recv_drains 3 opened _ ?_).returned _ returned (by decide)⟩
  decide +kernel

/-- The last byte comes with the FIN, and the call that waits for it returns nothing. -/
theorem last_byte_left :
    (recvCall (sockRecv 2 opened) [tcpSockHandle 0 (dataFinSegment [7]) (sockRecv 2 opened).1]).2 = .returns [] ∧
      (recvCall (sockRecv 2 opened) [tcpSockHandle 0 (dataFinSegment [7]) (sockRecv 2 opened).1]).1.drained = false := by
  decide +kernel

end KOs.Net

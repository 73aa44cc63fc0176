import KOs.Net.Receive

namespace KOs.Net

open KOs.Common KOs.Data List

section Step

variable {seg : Segment} {c : Conn}

/-- How many of `n` bytes of a payload are stored. -/
def storedOf (options n : Nat) (c : Conn) : Nat :=
  (List.range (turns (wsub c.recvBuffBack 1) c.recvBuffFront n)).countP
    (fun i => decide (wadd c.recvBuffFront i < c.recvBuffSize) && decide (options ≤ i))

theorem storedOf_le (options n : Nat) (c : Conn) :
    storedOf options n c ≤ turns (wsub c.recvBuffBack 1) c.recvBuffFront n :=
  countP_le_length.trans_eq length_range

theorem countP_writes (options n : Nat) (c : Conn) :
    (writes 0 c.recvBuffFront (turns (wsub c.recvBuffBack 1) c.recvBuffFront n)).countP
      (Access.stores c.recvBuffSize options) = storedOf options n c := by
  rw [writes, countP_reverse, countP_map]
  refine countP_congr ?_
  simp [Access.stores]

/-- All of a payload is stored where it has room behind the front and no options before it. -/
def Room (seg : Segment) (c : Conn) : Prop :=
  seg.optionsLength = 0 ∧ c.recvBuffFront + seg.len ≤ c.recvBuffSize ∧
    ∀ i, i < seg.len → c.recvBuffFront + i ≠ wsub c.recvBuffBack 1

theorem storedOf_eq_iff {n options : Nat} (payload : 0 < n) (short : n < 2 ^ 16)
    (small : c.recvBuffFront < wordSize) (size : c.recvBuffSize = Mm.pageSize) :
    storedOf options n c = n ↔
      options = 0 ∧ c.recvBuffFront + n ≤ c.recvBuffSize ∧
        ∀ i < n, c.recvBuffFront + i ≠ wsub c.recvBuffBack 1 := by
  have page : Mm.pageSize + 2 ^ 16 < wordSize := by decide
  have most := turns_le (wsub c.recvBuffBack 1) c.recvBuffFront n
  have plain : c.recvBuffFront < c.recvBuffSize → ∀ i < n, wadd c.recvBuffFront i = c.recvBuffFront + i :=
    fun within i inside => wadd_eq (by omega)
  constructor
  · intro all
    have made : turns (wsub c.recvBuffBack 1) c.recvBuffFront n = n :=
      Nat.le_antisymm most (all.symm.trans_le (storedOf_le options n c))
    rw [storedOf, made] at all
    have each := countP_eq_length.mp (all.trans length_range.symm)
    simp only [mem_range, Bool.and_eq_true, decide_eq_true_eq] at each
    have within : c.recvBuffFront < c.recvBuffSize := by
      have first := (each 0 payload).1
      rwa [wadd_zero small] at first
    have last := (each (n - 1) (by omega)).1
    rw [plain within _ (by omega)] at last
    refine ⟨Nat.le_zero.mp (each 0 payload).2, by omega, fun i inside => ?_⟩
    rw [← plain within i inside]
    exact (turns_eq_iff small).mp made i inside
  · rintro ⟨rfl, room, free⟩
    have within : c.recvBuffFront < c.recvBuffSize := by omega
    have made : turns (wsub c.recvBuffBack 1) c.recvBuffFront n = n := by
      refine (turns_eq_iff small).mpr fun i inside => ?_
      rw [plain within i inside]
      exact free i inside
    rw [storedOf, made]
    refine Eq.trans (countP_eq_length.mpr ?_) length_range
    intro i inside
    have below := mem_range.mp inside
    simp only [plain within i below, Bool.and_eq_true, decide_eq_true_eq]
    omega

/-- What is acknowledged is what is kept, in one step. -/
def KeepsAcked (seg : Segment) (c : Conn) : Prop :=
  (tcpSockHandle 0 seg c).nextPeerSeq = wadd c.nextPeerSeq (payloadStored seg c (tcpSockHandle 0 seg c))

theorem keepsAcked_unstored (sequenced : c.nextPeerSeq < wordSize)
    (next : (tcpSockHandle 0 seg c).nextPeerSeq = c.nextPeerSeq)
    (accesses : (tcpSockHandle 0 seg c).accesses = c.accesses) : KeepsAcked seg c := by
  rw [KeepsAcked, payloadStored, next, accesses, Nat.sub_self]
  exact (wadd_zero sequenced).symm

theorem keepsAcked_empty (transfers : c.state.transfers = true) (sequenced : c.nextPeerSeq < wordSize)
    (empty : seg.len = 0) : KeepsAcked seg c := by
  have examined : c.examines seg = true := by simp [Conn.examines, transfers, empty]
  obtain ⟨_, _, _, _, result⟩ := tcpSockHandle_examines 0 examined
  have unchanged : received seg c = c := if_neg (by omega)
  refine keepsAcked_unstored sequenced ?_ ?_
  · rw [result, Conn.settled_nextPeerSeq, unchanged]
  · rw [result, Conn.settled_accesses, unchanged]

theorem keepsAcked_iff (transfers : c.state.transfers = true) (sequence : c.nextPeerSeq = seg.seqNum)
    (readable : c.has sockFlagShutRd = false) (small : c.recvBuffFront < wordSize)
    (size : c.recvBuffSize = Mm.pageSize) (sequenced : c.nextPeerSeq < wordSize) (valid : seg.valid = true) :
    KeepsAcked seg c ↔ seg.len = 0 ∨ Room seg c := by
  rcases Nat.eq_zero_or_pos seg.len with empty | payload
  · exact ⟨fun _ => .inl empty, fun _ => keepsAcked_empty transfers sequenced empty⟩
  · obtain ⟨advanced, accesses⟩ := accepted_accesses transfers payload sequence readable small valid
    rw [KeepsAcked, payloadStored, advanced, accesses, length_append, Nat.add_sub_cancel, take_left, countP_writes]
    have most := turns_le (wsub c.recvBuffBack 1) c.recvBuffFront seg.len
    have counted := storedOf_le seg.optionsLength seg.len c
    have short := len_lt_wordSize seg
    have all : storedOf seg.optionsLength seg.len c = _ ↔ _ := storedOf_eq_iff payload (len_lt seg) small size
    constructor
    · intro same
      exact .inr (all.mp (wadd_left_cancel (by omega) (by omega) same).symm)
    · intro room
      rw [all.mpr (room.resolve_left (by omega))]

theorem storeLoop_front (offset : Nat) (bytes : List UInt8) (small : c.recvBuffFront < wordSize) :
    (storeLoop offset bytes c).recvBuffFront < wordSize := by
  induction bytes generalizing offset c with
  | nil => exact small
  | cons _ _ ih =>
    rw [storeLoop]
    split
    · exact small
    · exact ih _ (wadd_lt _ _)

theorem received_bounds (small : c.recvBuffFront < wordSize) (sequenced : c.nextPeerSeq < wordSize) :
    (received seg c).recvBuffFront < wordSize ∧ (received seg c).nextPeerSeq < wordSize := by
  rw [received]
  split
  · rw [acceptPayload_eq, Conn.advanced_recvBuffFront, Conn.advanced_nextPeerSeq, storePayload_eq]
    refine ⟨?_, wadd_lt _ _⟩
    split
    · exact small
    · exact storeLoop_front 0 _ small
  · exact ⟨small, sequenced⟩

theorem tcpSockHandle_bounds (seg : Segment) (state : c.state.transfers = true ∨ c.state = .closed)
    (small : c.recvBuffFront < wordSize) (sequenced : c.nextPeerSeq < wordSize) :
    (tcpSockHandle 0 seg c).recvBuffFront < wordSize ∧ (tcpSockHandle 0 seg c).nextPeerSeq < wordSize := by
  rcases tcpSockHandle_cases 0 seg state with ⟨_, _, _, _, _, result⟩ | ⟨_, _, _, _, _, result⟩
  · rw [result, Conn.settled_recvBuffFront, Conn.settled_nextPeerSeq]
    exact received_bounds small sequenced
  · rw [result, Conn.settled_recvBuffFront, Conn.settled_nextPeerSeq]
    exact ⟨small, sequenced⟩

end Step

/-- Every payload that is acknowledged finds room. -/
def Keeps (s : Session) : SessionEvent → Prop
  | .segment seg => s.conn.accepts seg = true → s.conn.has sockFlagShutRd = false → Room seg s.conn
  | _ => True

/-- The first number expected was `first`, and it has moved by what has been stored. -/
structure Session.Acked (s : Session) (first : Nat) : Prop where
  size : s.conn.recvBuffSize = Mm.pageSize
  front : s.conn.recvBuffFront < wordSize
  sequenced : s.conn.nextPeerSeq < wordSize
  state : s.conn.state.transfers = true ∨ s.conn.state = .closed
  kept : s.conn.has sockFlagShutRd = false → s.conn.nextPeerSeq = wadd first s.stored

section Run

variable {s s' : Session} {first : Nat} {seg : Segment}

theorem Session.Acked.keeps (acked : s.Acked first) (valid : seg.valid = true) (keeps : Keeps s (.segment seg))
    (readable : s.conn.has sockFlagShutRd = false) : KeepsAcked seg s.conn := by
  rcases tcpSockHandle_cases 0 seg acked.state with ⟨examined, _⟩ | ⟨_, _, _, _, _, result⟩
  · have transfers : s.conn.state.transfers = true := by
      rw [Conn.examines, Bool.and_eq_true] at examined
      exact examined.1
    rcases Nat.eq_zero_or_pos seg.len with empty | payload
    · exact keepsAcked_empty transfers acked.sequenced empty
    · have accepts : s.conn.accepts seg = true := by rw [accepts_eq, examined, decide_eq_true payload, Bool.and_true]
      have sequence : s.conn.nextPeerSeq = seg.seqNum := by
        simp only [Conn.accepts, Bool.and_eq_true, decide_eq_true_eq] at accepts
        exact accepts.2
      exact (keepsAcked_iff transfers sequence readable acked.front acked.size acked.sequenced valid).mpr
        (.inr (keeps accepts readable))
  · refine keepsAcked_unstored acked.sequenced ?_ ?_
    · rw [result, Conn.settled_nextPeerSeq]
    · rw [result, Conn.settled_accesses]

theorem Session.Acked.segment (acked : s.Acked first) (valid : seg.valid = true) (keeps : Keeps s (.segment seg)) :
    (s.segment seg).Acked first := by
  obtain ⟨front, sequenced⟩ := tcpSockHandle_bounds seg acked.state acked.front acked.sequenced
  refine ⟨(tcpSockHandle_size 0 seg acked.state).trans acked.size, front, sequenced,
    tcpSockHandle_usable 0 seg acked.state, ?_⟩
  intro after
  have readable := tcpSockHandle_readable 0 seg acked.state after
  calc (s.segment seg).conn.nextPeerSeq
    _ = wadd s.conn.nextPeerSeq _ :=
        acked.keeps valid keeps readable
    _ = wadd _ _ := by
        rw [acked.kept readable]
    _ = wadd _ (s.segment seg).stored := wadd_assoc _ _ _

theorem Session.Acked.step {event : SessionEvent} (acked : s.Acked first) (enabled : sessions.enabled event s = true)
    (keeps : Keeps s event) (ran : sessions.perform event s = .ok s') : s'.Acked first := by
  rcases sessions_cases ran with ⟨seg, rfl, rfl⟩ | ⟨conn, _, _, serves, rfl⟩ | ⟨how, rfl, rfl⟩
  · exact acked.segment enabled keeps
  · obtain ⟨_, _, _, _, _, _, rfl⟩ := serves
    exact { acked with }
  · have usable := sockShutdown_usable how acked.state
    have readable := sockShutdown_readable (c := s.conn) how
    rcases sockShutdown_cases how s.conn with same | ⟨localSeq, queue, sent, result⟩
    · rw [same]
      exact acked
    · rw [result] at usable readable ⊢
      exact { acked with state := usable, kept := fun after => acked.kept (readable after) }

theorem Session.Acked.reached {c : Conn} (size : c.recvBuffSize = Mm.pageSize) (front : c.recvBuffFront < wordSize)
    (sequenced : c.nextPeerSeq < wordSize) (transfers : c.state.transfers = true)
    (reached : sessions.Reaches Keeps (Session.start c) s) : s.Acked c.nextPeerSeq := by
  have initial : (Session.start c).Acked c.nextPeerSeq :=
    ⟨size, front, sequenced, .inl transfers, fun _ => (wadd_zero sequenced).symm⟩
  exact reached.preserves (fun s => s.Acked c.nextPeerSeq) initial
    fun _ _ _ acked keeps enabled ran => acked.step enabled keeps ran

end Run

/-- `next_peer_seq` advances by what is stored exactly for the payloads that find room behind
`recv_buff_front`; where they all do, it counts the bytes stored. -/
theorem acked_bytes_stored {c : Conn} (transfers : c.state.transfers = true) (size : c.recvBuffSize = Mm.pageSize)
    (front : c.recvBuffFront < wordSize) (sequenced : c.nextPeerSeq < wordSize) :
    (∀ seg : Segment, seg.valid = true → c.nextPeerSeq = seg.seqNum → c.has sockFlagShutRd = false →
      (KeepsAcked seg c ↔ seg.len = 0 ∨ Room seg c)) ∧
    ∀ s, sessions.Reaches Keeps (Session.start c) s → s.conn.has sockFlagShutRd = false →
      s.conn.nextPeerSeq = wadd c.nextPeerSeq s.stored := by
  constructor
  · intro seg valid sequence readable
    exact keepsAcked_iff transfers sequence readable front size sequenced valid
  · intro s reached
    exact (Session.Acked.reached size front sequenced transfers reached).kept

instance (s : Session) : DecidablePred (Keeps s)
  | .segment _ => inferInstanceAs (Decidable (_ → _ → _ ∧ _ ∧ ∀ i, i < _ → _))
  | .recv .. | .wake | .send .. | .shutdown .. => .isTrue trivial

theorem acked_bytes_stored_twice : KeepsAcked (dataSegment 1 [5, 6]) opened ∧
    ∃ s, sessions.Reaches Keeps (Session.start opened) s ∧ s.stored = 3 ∧
      s.conn.nextPeerSeq = wadd opened.nextPeerSeq 3 := by
  obtain ⟨step, run⟩ := acked_bytes_stored (c := opened) (by rw [opened_fresh.state]; rfl) opened_fresh.size
    (by rw [opened_fresh.front]; decide) opened_fresh.sequenced
  constructor
  · refine (step _ (by decide) (by decide +kernel) opened_fresh.rd).mpr (Or.inr ?_)
    have room : Keeps (Session.start opened) (.segment (dataSegment 1 [5, 6])) := by decide +kernel
    exact room (by decide +kernel) opened_fresh.rd
  · obtain ⟨s, reached, stored, readable⟩ : ∃ s, sessions.Reaches Keeps (Session.start opened) s ∧
        s.stored = 3 ∧ s.conn.has sockFlagShutRd = false :=
      Machine.run_exists [.segment (dataSegment 1 [5, 6]), .recv 1, .segment (dataSegment 2 [9]),
        .segment (dataSegment 3 [7])] (by decide +kernel)
    have counted := run s reached readable
    rw [stored] at counted
    exact ⟨s, reached, stored, counted⟩

/-- The byte after the last one of the buffer is acknowledged and not stored. -/
theorem acked_byte_lost : ∃ s seg, sessions.Reaches (fun _ _ => True) (Session.start opened) s ∧
    s.conn.state = .established ∧ s.conn.has sockFlagShutRd = false ∧ seg.valid = true ∧
    s.conn.nextPeerSeq = seg.seqNum ∧ ¬ KeepsAcked seg s.conn := by
  obtain ⟨bytes, streams, full⟩ := filled_streams
  obtain ⟨state, readable, next⟩ := filled_conn
  have front : filled.conn.recvBuffFront = Mm.pageSize := streams.front.trans full
  have valid : (dataSegment (1 + Mm.pageSize) [0]).valid = true := by decide
  have sequence : filled.conn.nextPeerSeq = (dataSegment (1 + Mm.pageSize) [0]).seqNum := by
    rw [next]
    decide
  refine ⟨filled, _, filled_reached, state, readable, valid, sequence, fun keeps => ?_⟩
  have exact' := keepsAcked_iff (by rw [state]; rfl) sequence readable (by rw [front]; decide) streams.size
    (by rw [next]; exact wadd_lt _ _) valid
  rcases exact'.mp keeps with empty | ⟨_, room, _⟩
  · exact absurd empty (by decide)
  · rw [front, streams.size] at room
    exact absurd room (by decide)

end KOs.Net

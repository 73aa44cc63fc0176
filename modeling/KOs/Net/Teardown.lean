import KOs.Net.Receive

namespace KOs.Net

open KOs.Common KOs.Data Session

/-- A segment that is examined finds both directions shut or none of them, and a connection that
is closed is not shut down for writing. -/
def Orderly (s : Session) : SessionEvent → Prop
  | .segment seg => s.conn.examines seg = true → seg.has tcpFlagRst = false →
      (s.conn.has sockFlagShutRd || seg.has tcpFlagFin) = s.conn.has sockFlagShutWr
  | .shutdown how => s.conn.state = .closed → how = shutWr ∨ how = shutRdwr → s.conn.has sockFlagShutWr = true
  | _ => True

def Conn.Shut (c : Conn) : Prop := c.has sockFlagShutRd = true ∧ c.has sockFlagShutWr = true

structure Session.Tidy (s : Session) : Prop where
  usable : s.conn.state.transfers = true ∨ s.conn.state = .closed
  connected : s.conn.has sockFlagConnected = true
  ended : s.conn.state = .closed → s.rst = true ∨ s.conn.Shut

variable {event : SessionEvent}

section Steps

variable {s s' : Session} {seg : Segment}

theorem closes_eq (seg : Segment) (c : Conn) : closes seg c =
    (seg.has tcpFlagRst || (c.has sockFlagShutRd || seg.has tcpFlagFin) || c.has sockFlagShutWr) := by
  rw [closes, sockFlagShutRdwr, hasFlag_mask_or, flagsAfter_shutRd, flagsAfter_has seg c (by decide)]
  exact (Bool.or_assoc _ _ _).symm

theorem Session.Tidy.segment (tidy : s.Tidy) (orderly : Orderly s (.segment seg)) : (s.segment seg).Tidy := by
  have rd := tcpSockHandle_shutRd 0 seg tidy.usable
  have wr : (tcpSockHandle 0 seg s.conn).has sockFlagShutWr = s.conn.has sockFlagShutWr :=
    tcpSockHandle_has 0 seg tidy.usable (by decide)
  have connected : (tcpSockHandle 0 seg s.conn).has sockFlagConnected = s.conn.has sockFlagConnected :=
    tcpSockHandle_has 0 seg tidy.usable (by decide)
  refine ⟨tcpSockHandle_usable 0 seg tidy.usable, connected.trans tidy.connected, fun ended => ?_⟩
  rcases tcpSockHandle_ends 0 seg tidy.usable ended with closed | ⟨examined, closes⟩
  · refine (tidy.ended closed).imp (fun rst => ?_) (fun shut => ⟨?_, wr.trans shut.2⟩)
    · rw [Session.segment, rst, Bool.true_or]
    · exact rd.trans (by rw [shut.1, Bool.true_or])
  · cases rst : seg.has _ with
    | true =>
      refine .inl ?_
      rw [Session.segment, examined, rst, Bool.and_true, Bool.or_true]
    | false =>
      have both := orderly examined rst
      rw [closes_eq, rst, Bool.false_or, both, Bool.or_self] at closes
      refine .inr ⟨rd.trans ?_, wr.trans closes⟩
      rw [examined, Bool.true_and, both, closes]

theorem Session.Tidy.shutdown (tidy : s.Tidy) (how : Nat) :
    ({ s with conn := (sockShutdown how s.conn).1 } : Session).Tidy := by
  refine ⟨sockShutdown_usable how tidy.usable, sockShutdown_keeps how tidy.connected, fun ended => ?_⟩
  have before : s.conn.state = .closed := by
    rcases sockShutdown_cases how s.conn with same | ⟨_, _, _, result⟩
    · rw [same] at ended
      exact ended
    · rw [result] at ended
      split at ended
      · contradiction
      · exact ended
  exact (tidy.ended before).imp_right fun shut => ⟨sockShutdown_keeps how shut.1, sockShutdown_keeps how shut.2⟩

theorem Session.Tidy.step (tidy : s.Tidy) (orderly : Orderly s event) (ran : sessions.perform event s = .ok s') :
    s'.Tidy := by
  rcases sessions_cases ran with ⟨seg, rfl, rfl⟩ | ⟨conn, _, _, serves, rfl⟩ | ⟨how, rfl, rfl⟩
  · exact tidy.segment orderly
  · obtain ⟨_, _, _, _, _, _, rfl⟩ := serves
    exact { tidy with }
  · exact tidy.shutdown how

theorem closed_stays (closed : s.conn.state = .closed) (orderly : Orderly s event)
    (ran : sessions.perform event s = .ok s') : s'.conn.state = .closed := by
  rcases sessions_cases ran with ⟨seg, rfl, rfl⟩ | ⟨conn, _, _, serves, rfl⟩ | ⟨how, rfl, rfl⟩
  · rw [Session.segment, tcpSockHandle_closed 0 seg closed]
    exact closed
  · obtain ⟨_, _, _, _, _, _, rfl⟩ := serves
    exact closed
  · rcases sockShutdown_cases how s.conn with same | ⟨_, _, _, result⟩
    · rw [same]
      exact closed
    · have again : hasFlag (newBits (shutBits how) s.conn) sockFlagShutWr = false := by
        rw [(newBits_has how s.conn).2]
        by_cases writes : how = shutWr ∨ how = shutRdwr
        · rw [orderly closed writes, Bool.not_true, Bool.and_false]
        · rw [decide_eq_false writes, Bool.false_and]
      rw [result, again]
      exact closed

/-- What a direction is shut by, and what counts as a RST. -/
structure Shuts (s : Session) (event : SessionEvent) (s' : Session) : Prop where
  rd : s'.conn.has sockFlagShutRd = true → s.conn.has sockFlagShutRd = true ∨
    (∃ seg, event = .segment seg ∧ s.conn.examines seg = true ∧ seg.has tcpFlagFin = true) ∨
    event = .shutdown shutRd ∨ event = .shutdown shutRdwr
  wr : s'.conn.has sockFlagShutWr = true → s.conn.has sockFlagShutWr = true ∨
    event = .shutdown shutWr ∨ event = .shutdown shutRdwr
  rst : s'.rst = true → s.rst = true ∨
    ∃ seg, event = .segment seg ∧ s.conn.examines seg = true ∧ seg.has tcpFlagRst = true

theorem Session.Tidy.shuts (tidy : s.Tidy) (ran : sessions.perform event s = .ok s') :
    Shuts s event s' := by
  rcases sessions_cases ran with ⟨seg, rfl, rfl⟩ | ⟨conn, _, _, serves, rfl⟩ | ⟨how, rfl, rfl⟩
  · refine ⟨fun shut => ?_, fun shut => .inl ?_, fun rst => ?_⟩
    · have rd := (tcpSockHandle_shutRd 0 seg tidy.usable).symm.trans shut
      rw [Bool.or_eq_true, Bool.and_eq_true] at rd
      exact rd.imp_right fun fin => .inl ⟨seg, rfl, fin⟩
    · exact (tcpSockHandle_has 0 seg tidy.usable (by decide)).symm.trans shut
    · rw [Session.segment, Bool.or_eq_true, Bool.and_eq_true] at rst
      exact rst.imp_right fun examined => ⟨seg, rfl, examined⟩
  · obtain ⟨_, _, _, _, _, _, rfl⟩ := serves
    exact ⟨.inl, .inl, .inl⟩
  · obtain ⟨rd, wr⟩ := newBits_has how s.conn
    refine ⟨fun shut => ?_, fun shut => ?_, .inl⟩
    · rcases sockShutdown_has how s.conn _ with same | grown
      · exact .inl (same.symm.trans shut)
      · have either := grown.symm.trans shut
        rw [rd, Bool.or_eq_true, Bool.and_eq_true, decide_eq_true_eq] at either
        refine either.imp_right fun called => .inr ?_
        exact called.1.imp (fun here => by rw [here]) fun here => by rw [here]
    · rcases sockShutdown_has how s.conn _ with same | grown
      · exact .inl (same.symm.trans shut)
      · have either := grown.symm.trans shut
        rw [wr, Bool.or_eq_true, Bool.and_eq_true, decide_eq_true_eq] at either
        exact either.imp_right fun called => called.1.imp (fun here => by rw [here]) fun here => by rw [here]

theorem Session.Tidy.reached {c : Conn} (fresh : c.Fresh) (reached : sessions.Reaches Orderly (Session.start c) s) :
    s.Tidy := by
  have initial : (start c).Tidy := by
    refine ⟨.inl ?_, fresh.connected, fun closed => ?_⟩
    · rw [start, fresh.state]
      rfl
    · exact absurd (fresh.state.symm.trans closed) (by decide)
  exact reached.preserves Session.Tidy initial fun _ _ _ tidy orderly _ ran => tidy.step orderly ran

theorem Session.Tidy.lasts (tidy : s.Tidy) (rst : s.rst = false) (either : ¬ s.conn.Shut) :
    s.conn.state ≠ .closed := by
  intro closed
  rcases tidy.ended closed with reset | shut
  · exact absurd reset (by simp [rst])
  · exact either shut

def Conn.Sends (c : Conn) : Prop := ∀ buff, (sockSend buff c).2 = buff.length ∧
  ∃ pending, (sockSend buff c).1.queue = c.queue ++ [pending] ∧ pending.payload = buff

def Conn.Receives (c : Conn) : Prop :=
  (∀ seg : Segment, 0 < seg.len → c.nextPeerSeq = seg.seqNum → c.accepts seg = true) ∧
    ∀ len, (sockRecv len c).2 ≠ .fails

theorem Session.Tidy.sends (tidy : s.Tidy) (rst : s.rst = false) (writable : s.conn.has sockFlagShutWr = false) :
    s.conn.Sends := by
  intro buff
  have lasts := tidy.lasts rst fun shut => by simp [shut.2] at writable
  have sent : sockSend buff s.conn = (tcpQueueAdd tcpFlagAck 14600 buff s.conn, buff.length) := by
    rw [sockSend, tidy.connected, if_pos rfl, tcpSend, if_neg lasts, writable, if_neg Bool.false_ne_true]
  rw [sent]
  exact ⟨rfl, _, rfl, rfl⟩

theorem recvReturn_returns (bytes : List UInt8) : recvReturn bytes ≠ .fails := by
  rw [recvReturn]
  split <;> exact fun fails => by contradiction

theorem recvFrom_returns (reader : Reader) (c : Conn) : (recvFrom reader c).2 ≠ .fails := by
  rw [recvFrom]
  split
  split
  · exact recvReturn_returns _
  · split
    · exact recvReturn_returns _
    · exact fun fails => by contradiction

theorem Session.Tidy.receives (tidy : s.Tidy) (rst : s.rst = false) (readable : s.conn.has sockFlagShutRd = false) :
    s.conn.Receives := by
  have lasts := tidy.lasts rst fun shut => by simp [shut.1] at readable
  constructor
  · intro seg payload sequence
    rw [Conn.accepts, tidy.usable.resolve_right lasts, decide_eq_true payload, decide_eq_true sequence]
    rfl
  · intro len
    rw [sockRecv, tidy.connected, if_pos rfl, tcpRecv, decide_eq_false lasts, Bool.and_false, if_neg Bool.false_ne_true]
    exact recvFrom_returns _ _

end Steps

/-- Where every segment finds both directions shut or none, a connection ends with a RST or when both are, an open
direction stays usable, and the end is final. -/
theorem teardown_discipline {c : Conn} {s : Session} (fresh : c.Fresh)
    (reached : sessions.Reaches Orderly (Session.start c) s) :
    (s.conn.state = .closed → s.rst = true ∨ s.conn.Shut) ∧
    (s.rst = false → s.conn.has sockFlagShutWr = false → s.conn.Sends) ∧
    (s.rst = false → s.conn.has sockFlagShutRd = false → s.conn.Receives) ∧
    ∀ event s', sessions.perform event s = .ok s' → Shuts s event s' ∧
      (s.conn.state = .closed → Orderly s event → s'.conn.state = .closed) := by
  have tidy := Session.Tidy.reached fresh reached
  exact ⟨tidy.ended, tidy.sends, tidy.receives,
    fun event s' ran => ⟨tidy.shuts ran, fun closed orderly => closed_stays closed orderly ran⟩⟩

instance (s : Session) : DecidablePred (Orderly s)
  | .segment _ | .shutdown _ => inferInstanceAs (Decidable (_ → _ → _))
  | .recv .. | .wake | .send .. => .isTrue trivial

def finSegment : Segment :=
  { seqNum := 4, ackNum := 0, dataOffFlags := tcpFlagFin ||| tcpFlagAck ||| 0x50, windowSize := 0, totalLength := 40,
    raw := [] }

theorem teardown_discipline_both : ∃ s, sessions.Reaches Orderly (Session.start opened) s ∧
    s.conn.state = .closed ∧ s.rst = false ∧ s.conn.Shut := by
  obtain ⟨s, reached, closed, rst⟩ : ∃ s, sessions.Reaches Orderly (start opened) s ∧
      s.conn.state = .closed ∧ s.rst = false :=
    Machine.run_exists [.segment (dataSegment 1 [10, 11, 12]), .recv 2, .send [1], .shutdown shutWr, .recv 1,
      .segment finSegment] (by decide +kernel)
  refine ⟨s, reached, closed, rst, ?_⟩
  rcases (teardown_discipline opened_fresh reached).1 closed with reset | shut
  · exact absurd reset (by simp [rst])
  · exact shut

/-- An ACK ends a connection that is shut for writing only, and a shutdown revives one that was reset. -/
theorem teardown_broken :
    (∃ s, sessions.Reaches (fun _ _ => True) (Session.start opened) s ∧ s.conn.state = .closed ∧ s.rst = false ∧
      ¬ s.conn.Shut) ∧
    ∃ s s', sessions.Reaches (fun _ _ => True) (Session.start opened) s ∧ s.conn.state = .closed ∧
      sessions.Step (fun _ _ => True) s s' ∧ s'.conn.state ≠ .closed := by
  constructor
  · obtain ⟨s, reached, closed, rst, readable⟩ : ∃ s, sessions.Reaches (fun _ _ => True) (start opened) s ∧
        s.conn.state = .closed ∧ s.rst = false ∧ s.conn.has sockFlagShutRd = false :=
      Machine.run_exists [.shutdown shutWr, .segment ⟨1, 1, tcpFlagAck ||| 0x50, 0, 40, []⟩] (by decide +kernel)
    exact ⟨s, reached, closed, rst, fun shut => by simp [shut.1] at readable⟩
  · obtain ⟨s, reached, closed, revived⟩ : ∃ s, sessions.Reaches (fun _ _ => True) (start opened) s ∧
        s.conn.state = .closed ∧ (sockShutdown shutWr s.conn).1.state ≠ .closed :=
      Machine.run_exists [.segment ⟨1, 1, tcpFlagRst ||| 0x50, 0, 40, []⟩] (by decide +kernel)
    exact ⟨s, _, reached, closed, ⟨.shutdown shutWr, trivial, rfl, rfl⟩, revived⟩

end KOs.Net

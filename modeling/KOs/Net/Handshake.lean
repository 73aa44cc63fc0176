import KOs.Net.Segments

namespace KOs.Net

open KOs.Common KOs.Data Conn

/-! The active open: `tcp_connect` has queued its first SYN and waits. -/

inductive HandshakeEvent where
  /-- A segment from the peer, and the number `rand32` would return. -/
  | segment (rand : Nat) (seg : Segment)
  | timer
  | callback (success : Bool)
deriving DecidableEq, Repr

def connecting : Machine Conn HandshakeEvent Fault where
  enabled event c :=
    match event with
    | .segment _ _ => true
    | .timer => decide (0 < c.timers)
    | .callback _ => true
  perform event c :=
    match event with
    | .segment rand seg => .ok (tcpSockHandle rand seg c)
    | .timer => .ok (tcpResendSyn c)
    | .callback success => .ok (tcpCallback success c)

namespace Conn

def opening (c : Conn) : Bool := c.state = .synSent || c.state = .retry

/-- The SYN segments that have been queued, and sent with that. -/
def synsQueued (c : Conn) : Nat := (c.sent.filter (fun packet => hasFlag packet.flags tcpFlagSyn)).length

structure Quiet (c c' : Conn) : Prop where
  timers : c'.timers = c.timers
  ups : c'.establishedSemaphore = c.establishedSemaphore
  syns : c'.synsQueued = c.synsQueued
  connected : c'.has sockFlagConnected = c.has sockFlagConnected
  closed : c'.has sockFlagClosed = c.has sockFlagClosed
  state : c'.state = c.state ∨ c'.state = .finWaitB ∨ c'.state = .closed

end Conn

variable {flags : Nat}
variable {c : Conn} {seg : Segment}

section Handlers

variable {windowSize : Nat}

theorem tcpSendControl_quiet (plain : hasFlag flags tcpFlagSyn = false) :
    c.Quiet (tcpSendControl flags windowSize c) := by
  refine ⟨rfl, rfl, ?_, rfl, rfl, .inl rfl⟩
  exact congrArg List.length (List.filter_cons_of_neg (by rw [plain]; exact Bool.false_ne_true))

theorem tcpSendAck_quiet : c.Quiet (tcpSendAck windowSize c) := tcpSendControl_quiet (by decide)

theorem tcpAckRecieved_quiet : c.Quiet (tcpAckRecieved seg c) := by
  refine ⟨rfl, rfl, rfl, rfl, rfl, ?_⟩
  simp only [tcpAckRecieved]
  split
  · exact .inr (.inl rfl)
  · exact .inl rfl

theorem Replies.syns {sent : List Packet} (replies : Replies c sent) :
    (sent.filter (fun packet => hasFlag packet.flags tcpFlagSyn)).length = c.synsQueued := by
  obtain ⟨acks, plain, rfl⟩ := replies
  have none : acks.filter (fun packet => hasFlag packet.flags tcpFlagSyn) = [] := by
    refine List.filter_eq_nil_iff.mpr ?_
    intro packet mem
    rw [plain _ mem]
    decide
  rw [List.filter_append, none]
  rfl

theorem handleEstablished_quiet : c.Quiet (handleEstablished seg c) := by
  obtain ⟨state, queue, sent, moved, outcome⟩ := handleEstablished_cases seg c
  rcases outcome with ⟨_, _, replies, result⟩ | ⟨_, replies, result⟩
  · rw [result]
    exact ⟨rfl, rfl, replies.syns, rfl, rfl, moved.states.imp_right .inl⟩
  · obtain ⟨_, _, _, _, _, accepted⟩ := received_frame seg c
    rw [accepted] at replies result
    rw [result]
    refine ⟨rfl, rfl, replies.syns, flagsAfter_has seg c (by decide), flagsAfter_has seg c (by decide), ?_⟩
    split
    · exact .inr (.inr rfl)
    · exact moved.states.imp_right .inl

theorem tcpQueueAdd_syns {payload : List UInt8} (c : Conn) :
    (tcpQueueAdd flags windowSize payload c).synsQueued = c.synsQueued + if hasFlag flags tcpFlagSyn then 1 else 0 := by
  simp only [tcpQueueAdd, tcpQueueSend, synsQueued, List.filter_cons]
  split <;> rfl

end Handlers

structure Conn.Shaken (c : Conn) : Prop where
  active : c.state ≠ .synRecieved
  timers : c.timers = if c.state = .retry then 1 else 0
  ups : c.establishedSemaphore = if c.opening then 0 else 1
  syns : if c.opening then c.synsQueued + c.timers = c.retrys + 1 ∧ c.retrys ≤ tcpSynRetrys
    else c.synsQueued ≤ tcpSynRetrys + 1
  connected : c.opening = true → c.has sockFlagConnected = false
  usable : c.has sockFlagClosed = false

structure HandshakeStep (c c' : Conn) : Prop where
  ups : c'.establishedSemaphore = c.establishedSemaphore + if c.opening && !c'.opening then 1 else 0
  leaves : c.opening = true → c'.opening = false → c'.state = .established ∨ c'.state = .closed
  ended : c.opening = false → c'.opening = false
  connected : c.has sockFlagConnected = false → c'.has sockFlagConnected = true →
    c.opening = true ∧ c'.state = .established

theorem HandshakeStep.refl (c : Conn) : HandshakeStep c c := by
  refine ⟨?_, fun opening ended => ?_, id, fun before after => ?_⟩
  · rw [Bool.and_not_self]
    rfl
  · rw [opening] at ended
    contradiction
  · rw [before] at after
    contradiction

variable {event : HandshakeEvent} {page : List UInt8}
variable {c' : Conn} {rand : Nat}

theorem Conn.opening_of (state : c.state = .synSent ∨ c.state = .retry) : c.opening = true := by
  rw [opening]
  simpa using state

section

variable (shaken : c.Shaken)
include shaken

theorem Conn.Shaken.quiet (ended : c.opening = false) (quiet : c.Quiet c') :
    c'.Shaken ∧ HandshakeStep c c' := by
  obtain ⟨_, notRetry⟩ : c.state ≠ .synSent ∧ c.state ≠ .retry := by
    simpa [opening] using ended
  have moved : c'.state ≠ .synRecieved ∧ c'.state ≠ .retry ∧ c'.opening = false := by
    simp only [opening]
    rcases quiet.state with same | later | later
    · rw [same]
      exact ⟨shaken.active, notRetry, ended⟩
    · rw [later]
      decide
    · rw [later]
      decide
  obtain ⟨active, notRetry', ended'⟩ := moved
  have timers := shaken.timers
  have ups := shaken.ups
  have syns := shaken.syns
  rw [if_neg notRetry] at timers
  rw [ended, if_neg Bool.false_ne_true] at ups syns
  refine ⟨⟨active, ?_, ?_, ?_, fun opening => ?_, ?_⟩, ⟨?_, fun opening => ?_, fun _ => ended', ?_⟩⟩
  · rw [if_neg notRetry', quiet.timers, timers]
  · rw [ended', if_neg Bool.false_ne_true, quiet.ups, ups]
  · rw [ended', if_neg Bool.false_ne_true, quiet.syns]
    exact syns
  · rw [ended'] at opening
    contradiction
  · rw [quiet.closed]
    exact shaken.usable
  · rw [ended, quiet.ups]
    rfl
  · rw [ended] at opening
    contradiction
  · intro before after
    rw [quiet.connected, before] at after
    contradiction

theorem Conn.Shaken.leave (state : c.state = .synSent)
    (left : c'.state = .established ∨ c'.state = .closed) (timers : c'.timers = c.timers)
    (ups : c'.establishedSemaphore = c.establishedSemaphore + 1) (syns : c'.synsQueued = c.synsQueued)
    (connected : c'.has sockFlagConnected = true → c'.state = .established)
    (closed : c'.has sockFlagClosed = c.has sockFlagClosed) : c'.Shaken ∧ HandshakeStep c c' := by
  have opening := Conn.opening_of (.inl state)
  have moved : c'.state ≠ .synRecieved ∧ c'.state ≠ .retry ∧ c'.opening = false := by
    simp only [Conn.opening]
    rcases left with established | closed
    · rw [established]
      decide
    · rw [closed]
      decide
  obtain ⟨active, notRetry, ended⟩ := moved
  have timersBefore := shaken.timers
  have upsBefore := shaken.ups
  have budget := shaken.syns
  rw [state, if_neg (by decide)] at timersBefore
  rw [opening, if_pos rfl] at upsBefore budget
  refine ⟨⟨active, ?_, ?_, ?_, fun opening' => ?_, ?_⟩, ⟨?_, fun _ _ => left, fun ended => ?_, ?_⟩⟩
  · rw [if_neg notRetry, timers, timersBefore]
  · rw [ended, if_neg Bool.false_ne_true, ups, upsBefore]
  · rw [ended, if_neg Bool.false_ne_true, syns]
    omega
  · rw [ended] at opening'
    contradiction
  · rw [closed]
    exact shaken.usable
  · rw [opening, ended, ups]
    rfl
  · rw [opening] at ended
    contradiction
  · exact fun _ after => ⟨opening, connected after⟩

theorem Conn.Shaken.stay (opening : c.opening = true)
    (stays : c'.state = .synSent ∨ c'.state = .retry) (timers : c'.timers = if c'.state = .retry then 1 else 0)
    (ups : c'.establishedSemaphore = c.establishedSemaphore)
    (syns : c'.synsQueued + c'.timers = c'.retrys + 1) (retrys : c'.retrys ≤ tcpSynRetrys)
    (connected : c'.has sockFlagConnected = c.has sockFlagConnected)
    (closed : c'.has sockFlagClosed = c.has sockFlagClosed) : c'.Shaken ∧ HandshakeStep c c' := by
  have opening' := opening_of stays
  have upsBefore := shaken.ups
  rw [opening, if_pos rfl] at upsBefore
  refine ⟨⟨?_, timers, ?_, ?_, fun _ => ?_, ?_⟩, ⟨?_, fun _ ended => ?_, fun ended => ?_, ?_⟩⟩
  · rcases stays with sent | retry
    · rw [sent]
      exact nofun
    · rw [retry]
      exact nofun
  · rw [opening', if_pos rfl, ups, upsBefore]
  · rw [opening', if_pos rfl]
    exact ⟨syns, retrys⟩
  · rw [connected]
    exact shaken.connected opening
  · rw [closed]
    exact shaken.usable
  · rw [opening, opening', ups]
    rfl
  · rw [opening'] at ended
    contradiction
  · rw [opening] at ended
    contradiction
  · intro before after
    rw [connected, before] at after
    contradiction

theorem Conn.Shaken.synSent (state : c.state = .synSent) :
    (handleSynSent rand seg c).Shaken ∧ HandshakeStep c (handleSynSent rand seg c) := by
  have opening := opening_of (.inl state)
  have timers := shaken.timers
  have budget := shaken.syns
  rw [state, if_neg (by decide)] at timers
  rw [opening, if_pos rfl] at budget
  rw [handleSynSent]
  split
  · -- the answer to the SYN
    have acked : c.Quiet (tcpAckRecieved seg c) := tcpAckRecieved_quiet
    generalize tcpAckRecieved seg c = after at acked ⊢
    refine shaken.leave state (.inl rfl) acked.timers (congrArg (· + 1) acked.ups) ?_ (fun _ => rfl) ?_
    · exact tcpSendAck_quiet.syns.trans acked.syns
    · have same := setFlag_has after sockFlagConnected sockFlagClosed
      exact same.trans ((Bool.or_false _).trans acked.closed)
  · have next : (c.retrys + 1) % 2 ^ 8 = c.retrys + 1 :=
      Nat.mod_eq_of_lt ((Nat.succ_le_succ budget.2).trans_lt (by decide))
    rw [next]
    dsimp only
    split
    · refine shaken.leave state (.inr rfl) rfl rfl rfl (fun connected => ?_) rfl
      have before := shaken.connected opening
      cases connected.symm.trans before
    next within =>
      refine shaken.stay opening (.inr rfl) ?_ rfl ?_ (not_lt.mp within) rfl rfl
      · exact congrArg (· + 1) timers
      · have _ : (tcpSendRst seg.windowSize { c with retrys := c.retrys + 1 }).synsQueued = c.synsQueued :=
          (tcpSendControl_quiet (by decide)).syns
        change (tcpSendRst seg.windowSize { c with retrys := c.retrys + 1 }).synsQueued + (c.timers + 1) =
          c.retrys + 1 + 1
        omega

theorem Conn.Shaken.resend (outstanding : 0 < c.timers) :
    (tcpResendSyn c).Shaken ∧ HandshakeStep c (tcpResendSyn c) := by
  have retry : c.state = .retry := by
    by_contra other
    have none := shaken.timers
    rw [if_neg other] at none
    omega
  have opening := opening_of (.inr retry)
  have timers := shaken.timers
  have budget := shaken.syns
  rw [if_pos retry] at timers
  rw [opening, if_pos rfl] at budget
  have resends : tcpResendSyn c = tcpQueueAdd tcpFlagSyn 14600 [] { c with timers := c.timers - 1, state := .synSent } := by
    have usable : c.has sockFlagClosed = false := shaken.usable
    refine if_neg ?_
    rw [Bool.or_eq_true, decide_eq_true_eq, not_or]
    refine ⟨ne_true_of_eq_false usable, ?_⟩
    rw [retry]
    exact nofun
  rw [resends]
  refine shaken.stay opening (.inl rfl) ?_ rfl ?_ budget.2 rfl rfl
  · change c.timers - 1 = 0
    omega
  · rw [tcpQueueAdd_syns, if_pos (by decide)]
    change c.synsQueued + 1 + (c.timers - 1) = c.retrys + 1
    omega

theorem Conn.Shaken.callback (success : Bool) :
    (tcpCallback success c).Shaken ∧ HandshakeStep c (tcpCallback success c) := by
  rw [tcpCallback]
  split
  next failed =>
    have state : c.state = .synSent := of_decide_eq_true (Bool.and_eq_true_iff.mp failed).1
    have opening := opening_of (.inl state)
    refine shaken.leave state (.inr rfl) rfl rfl rfl (fun connected => ?_) rfl
    cases connected.symm.trans (shaken.connected opening)
  · exact ⟨shaken, HandshakeStep.refl c⟩

theorem Conn.Shaken.segment :
    (tcpSockHandle rand seg c).Shaken ∧ HandshakeStep c (tcpSockHandle rand seg c) := by
  have later : ∀ state, c.state = state → state ≠ .synSent → state ≠ .retry → c.opening = false := by
    intro state here notSent notRetry
    rw [opening, here]
    simp [notSent, notRetry]
  rw [tcpSockHandle]
  split
  next state =>
    exact shaken.synSent state
  next state =>
    exact absurd state shaken.active
  iterate 3
    next state =>
      exact shaken.quiet (later _ state (by decide) (by decide)) handleEstablished_quiet
  iterate 2
    · exact ⟨shaken, HandshakeStep.refl c⟩

theorem Conn.Shaken.step (enabled : connecting.enabled event c = true) (ran : connecting.perform event c = .ok c') :
    c'.Shaken ∧ HandshakeStep c c' := by
  cases event with
  | segment =>
    cases ran
    exact shaken.segment
  | timer =>
    cases ran
    exact shaken.resend (of_decide_eq_true enabled)
  | callback success =>
    cases ran
    exact shaken.callback _

end

theorem tcpConnect_shaken (fresh : hasFlag flags sockFlagConnected = false)
    (usable : hasFlag flags sockFlagClosed = false) : (tcpConnect flags rand page).Shaken := by
  refine ⟨nofun, rfl, rfl, ⟨?_, Nat.zero_le _⟩, fun _ => fresh, usable⟩
  rw [tcpConnect, tcpQueueAdd_syns]
  rfl

/-- From `tcp_connect` on, whatever segments, timers and callbacks come: `established_semaphore` is
upped in the one step that leaves the handshake and in no other, a timer is outstanding in `TCP_RETRY`
only and then it is the only one, and the SYN is queued `TCP_SYN_RETRYS + 1` times at most. -/
theorem handshake_discipline {flags rand : Nat} {page : List UInt8} {c : Conn}
    (fresh : hasFlag flags sockFlagConnected = false) (usable : hasFlag flags sockFlagClosed = false)
    (reached : connecting.Reaches (fun _ _ => True) (tcpConnect flags rand page) c) :
    c.establishedSemaphore = (if c.opening then 0 else 1) ∧
    c.timers = (if c.state = .retry then 1 else 0) ∧
    c.synsQueued ≤ tcpSynRetrys + 1 ∧
    (c.opening = true → c.has sockFlagConnected = false) ∧
    ∀ event c', connecting.enabled event c = true → connecting.perform event c = .ok c' → HandshakeStep c c' := by
  have shaken : c.Shaken := reached.preserves Conn.Shaken (tcpConnect_shaken fresh usable)
    fun _ _ _ shaken _ enabled ran => (shaken.step enabled ran).1
  refine ⟨shaken.ups, shaken.timers, ?_, shaken.connected, fun event c' enabled ran => (shaken.step enabled ran).2⟩
  have budget := shaken.syns
  split at budget
  · omega
  · exact budget

theorem handshake_discipline_retried : ∃ c,
    connecting.Reaches (fun _ _ => True) (tcpConnect 0 7 []) c ∧ c.state = .established ∧
      c.establishedSemaphore = 1 ∧ c.timers = 0 ∧ c.synsQueued ≤ 6 := by
  obtain ⟨c, reached, state⟩ : ∃ c, connecting.Reaches (fun _ _ => True) (tcpConnect 0 7 []) c ∧ c.state = .established :=
    Machine.run_exists [.segment 9 ⟨5, 0, tcpFlagRst, 0, 40, []⟩, .callback true, .timer,
      .segment 0 ⟨5, 10, tcpFlagSyn ||| tcpFlagAck, 0, 40, []⟩] (by decide +kernel)
  obtain ⟨ups, timers, syns, _⟩ := handshake_discipline (by decide) (by decide) reached
  rw [opening, state] at ups
  rw [state] at timers
  exact ⟨c, reached, state, ups, timers, syns⟩

structure Conn.Unread (c : Conn) : Prop where
  front : c.recvBuffFront = 0
  back : c.recvBuffBack = wsub 0 1
  size : c.recvBuffSize = Mm.pageSize
  buff : c.recvBuff.length = Mm.pageSize
  accesses : c.accesses = []
  rd : c.has sockFlagShutRd = false
  wr : c.has sockFlagShutWr = false

structure Conn.Fresh (c : Conn) : Prop extends c.Unread where
  state : c.state = .established
  connected : c.has sockFlagConnected = true
  sequenced : c.nextPeerSeq < wordSize

theorem Conn.Unread.connect (unread : c.Unread) : (c.setFlag sockFlagConnected).Unread := by
  refine { unread with rd := ?_, wr := ?_ }
  · rw [setFlag_has, unread.rd]
    decide
  · rw [setFlag_has, unread.wr]
    decide

theorem handleSynSent_unread (unread : c.Unread) :
    (handleSynSent rand seg c).Unread ∧
      ((handleSynSent rand seg c).state = .established → (handleSynSent rand seg c).Fresh) := by
  rw [handleSynSent]
  split
  · have acked : (tcpAckRecieved seg c).Unread := { unread with }
    generalize tcpAckRecieved seg c = after at acked ⊢
    have connected := acked.connect
    have unread' : (tcpSendAck seg.windowSize (setFlag { after with
        state := .established, nextPeerSeq := wadd seg.seqNum (seg.len + 1) } sockFlagConnected)).Unread :=
      { connected with }
    refine ⟨{ unread' with }, fun _ => ⟨{ unread' with }, rfl, ?_, ?_⟩⟩
    · have set := setFlag_has after sockFlagConnected sockFlagConnected
      exact set.trans (Bool.or_true _)
    · exact Nat.mod_lt _ wordSize_positive
  · dsimp only
    split
    · exact ⟨{ unread with }, nofun⟩
    · exact ⟨⟨rfl, rfl, rfl, unread.buff, unread.accesses, unread.rd, unread.wr⟩, nofun⟩

theorem Conn.Unread.step (unread : c.Unread) (opening : c.opening = true) (ran : connecting.perform event c = .ok c') :
    c'.Unread ∧ (c'.state = .established → c'.Fresh) := by
  have still : c.state = .established → c.Fresh := by
    intro established
    rw [Conn.opening, established] at opening
    contradiction
  cases event with
  | segment =>
    cases ran
    rw [Conn.opening, Bool.or_eq_true, decide_eq_true_eq, decide_eq_true_eq] at opening
    rcases opening with sent | retry
    · rw [tcpSockHandle, sent]
      exact handleSynSent_unread unread
    · rw [tcpSockHandle, retry]
      exact ⟨unread, still⟩
  | timer =>
    cases ran
    rw [tcpResendSyn]
    split
    · exact ⟨{ unread with }, fun established => by
        have fresh := still established
        exact ⟨{ unread with }, fresh.state, fresh.connected, fresh.sequenced⟩⟩
    · exact ⟨{ unread with }, fun established => by contradiction⟩
  | callback =>
    cases ran
    rw [tcpCallback]
    split
    · exact ⟨{ unread with }, fun established => by contradiction⟩
    · exact ⟨unread, still⟩

theorem established_fresh (connected : hasFlag flags sockFlagConnected = false)
    (usable : hasFlag flags sockFlagClosed = false) (rd : hasFlag flags sockFlagShutRd = false)
    (wr : hasFlag flags sockFlagShutWr = false) (length : page.length = Mm.pageSize)
    (reached : connecting.Reaches (fun _ _ => True) (tcpConnect flags rand page) c) (opening : c.opening = true)
    (ran : connecting.perform event c = .ok c') (established : c'.state = .established) : c'.Fresh := by
  have both : c.Shaken ∧ (c.opening = true → c.Unread) := by
    refine reached.preserves (fun c => c.Shaken ∧ (c.opening = true → c.Unread))
      ⟨tcpConnect_shaken connected usable, fun _ => ⟨rfl, rfl, rfl, length, rfl, rd, wr⟩⟩ ?_
    intro before event after holds _ enabled ran
    obtain ⟨shaken, step⟩ := holds.1.step enabled ran
    refine ⟨shaken, fun still => ?_⟩
    cases opening : before.opening with
    | true => exact ((holds.2 opening).step opening ran).1
    | false =>
      rw [step.ended opening] at still
      contradiction
  exact ((both.2 opening).step opening ran).2 established

end KOs.Net

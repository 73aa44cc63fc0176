import KOs.Net.Handshake
import KOs.Net.Listen

namespace KOs.Net

open KOs.Common KOs.Data Function List Listener

inductive ListenStep (l : Listener) : ListenEvent → Listener → Prop where
  | deliver {arrival : Arrival} {a : Nat} (known : l.find arrival.peer = some a) :
      ListenStep l (.segment arrival) (l.deliver a arrival.rand arrival.seg)
  | create {arrival : Arrival} (unknown : l.find arrival.peer = none) (room : l.backlog ≠ 0)
      (fresh : l.socks arrival.address = none) : ListenStep l (.segment arrival) (l.create arrival)
  | ignore {arrival : Arrival} : ListenStep l (.segment arrival) l
  | down {semaphore woken : Nat} : ListenStep l .down { l with acceptSemaphore := semaphore, woken }
  | retry {woken : Nat} : ListenStep l .accept { l with woken }
  | hand {woken a : Nat} {child : Child} (first : listFirst l.children (.inl ()) = .inr a)
      (live : l.socks a = some child) :
      ListenStep l .accept (Listener.hand a child { l with woken })
  | close {a : Nat} {child : Child} {children : Links (Unit ⊕ Nat)} {connections : Nat → List Nat}
      {departed : List Packet} (member : a ∈ l.held) (live : l.socks a = some child)
      (removed : children = l.children ∨ children = listRm (.inr a) l.children) :
      ListenStep l (.close a)
        { l with
          children
          connections
          departed
          socks := Function.update l.socks a none
          held := l.held.erase a }

variable {a : Nat}
variable {l l' : Listener} {event : ListenEvent}

theorem tcpHandle_step (arrival : Arrival) (fresh : l.socks arrival.address = none) :
    ListenStep l (.segment arrival) (tcpHandle arrival l) := by
  rw [tcpHandle]
  split
  next known =>
    exact .deliver known
  next unknown =>
    split
    next opens =>
      rw [Bool.and_eq_true, decide_eq_true_eq] at opens
      exact .create unknown opens.2 fresh
    · exact .ignore

theorem tcpAccept_step (ran : tcpAccept l = .ok l') : ListenStep l .accept l' := by
  rw [tcpAccept] at ran
  split at ran
  · cases ran
    exact .retry
  · split at ran
    · cases ran
      exact .retry
    · split at ran
      · contradiction
      next a first =>
        split at ran
        · contradiction
        next child live =>
          obtain ⟨_, _, rfl⟩ := map_returns ran
          exact .hand first live

theorem tcpClose_frame (a : Nat) (child : Child) (l : Listener) : ∃ children connections departed,
    (children = l.children ∨ children = listRm (.inr a) l.children) ∧
      tcpClose a child l = { l with children, connections, departed } := by
  rw [tcpClose]
  generalize (if child.conn.state ≠ .closed then tcpSendRst 0 child.conn else child.conn) = conn
  split
  · exact ⟨_, _, _, .inr rfl, rfl⟩
  · exact ⟨_, _, _, .inl rfl, rfl⟩

theorem sockClose_step (mem : a ∈ l.held) (ran : sockClose a l = .ok l') :
    ListenStep l (.close a) l' := by
  rw [sockClose] at ran
  split at ran
  · contradiction
  next child live =>
    cases ran
    split
    · exact .close mem live (.inl rfl)
    · obtain ⟨_, _, _, removed, result⟩ :=
        tcpClose_frame a { child with conn := child.conn.setFlag sockFlagClosed } l
      rw [result]
      exact .close mem live removed

theorem listening_step (enabled : listening.enabled event l = true) (ran : listening.perform event l = .ok l') :
    ListenStep l event l' := by
  cases event with
  | segment arrival =>
    cases ran
    exact tcpHandle_step _ (Option.isNone_iff_eq_none.mp (Bool.and_eq_true_iff.mp enabled).2)
  | down =>
    cases ran
    exact .down
  | accept => exact tcpAccept_step ran
  | close => exact sockClose_step (of_decide_eq_true enabled) ran

/-- What has been taken from the backlog has been taken by the children created. -/
structure Listener.Accounts (l : Listener) (total : Nat) : Prop where
  backlog : l.backlog + l.created = total
  socks : ∀ a child, l.socks a = some child → child.id < l.created
  handed : ∀ child ∈ l.handed, child.id < l.created

section Backlog

variable {total : Nat}

theorem update_some {socks : Nat → Option Child} {b : Nat} {entry : Option Child} {child : Child}
    (here : update socks a entry b = some child) : b = a ∧ entry = some child ∨ socks b = some child := by
  by_cases same : b = a
  · subst same
    rw [update_self] at here
    exact .inl ⟨rfl, here⟩
  · rw [update_of_ne same] at here
    exact .inr here

theorem Listener.Accounts.step (accounts : l.Accounts total) (step : ListenStep l event l') : l'.Accounts total := by
  cases step with
  | deliver =>
    refine ⟨accounts.backlog, fun b child here => ?_, accounts.handed⟩
    rcases update_some here with ⟨_, handled⟩ | old
    · obtain ⟨before, live, rfl⟩ := Option.map_eq_some_iff.mp handled
      exact accounts.socks _ before live
    · exact accounts.socks b _ old
  | create =>
    have balance := accounts.backlog
    refine ⟨?_, fun b child here => ?_, fun child mem => Nat.lt_succ_of_lt (accounts.handed _ mem)⟩
    · rw [create]
      dsimp only
      omega
    · rcases update_some here with ⟨_, made⟩ | old
      · cases made
        exact Nat.lt_succ_self _
      · exact Nat.lt_succ_of_lt (accounts.socks b _ old)
  | ignore => exact accounts
  | down | retry => exact { accounts with }
  | hand _ live =>
    refine ⟨accounts.backlog, accounts.socks, fun child mem => ?_⟩
    rcases mem_append.mp mem with old | new
    · exact accounts.handed _ old
    · rw [mem_singleton.mp new]
      exact accounts.socks _ _ live
  | close =>
    refine ⟨accounts.backlog, fun b child here => ?_, accounts.handed⟩
    rcases update_some here with ⟨_, none⟩ | old
    · contradiction
    · exact accounts.socks b _ old

def effectiveBacklog (backlog : Nat) : Nat := if 0 < backlog ∧ backlog < somaxconn then backlog else somaxconn

theorem Listener.Accounts.start (flags backlog : Nat) (cells : Links (Unit ⊕ Nat)) :
    (tcpListen flags backlog cells).Accounts (effectiveBacklog backlog) := by
  refine ⟨?_, nofun, nofun⟩
  rw [tcpListen, effectiveBacklog]
  simp [Nat.pos_iff_ne_zero]

def Listener.waiting (l : Listener) : Nat :=
  ((List.range l.created).filter (fun id => !l.handed.any (fun child => child.id = id))).length

theorem Listener.Accounts.waiting_eq_iff (accounts : l.Accounts total) :
    l.waiting = l.created ↔ l.handed = [] := by
  constructor
  · intro all
    cases content : l.handed with
    | nil => rfl
    | cons child =>
      have mem : child ∈ l.handed := by simp [content]
      have id := accounts.handed child mem
      have fewer : l.waiting < (range l.created).length := by
        refine length_filter_lt_length_iff_exists.mpr ⟨child.id, mem_range.mpr id, ?_⟩
        rw [content]
        simp
      rw [length_range] at fewer
      omega
  · intro none
    rw [waiting, none]
    simp

end Backlog

/-- The backlog and the connections not yet returned add up to the initial backlog for as long as no
connection has been returned, and no longer. -/
theorem backlog_accounting {flags backlog : Nat} {cells : Links (Unit ⊕ Nat)} {l : Listener}
    (reached : listening.Reaches (fun _ _ => True) (tcpListen flags backlog cells) l) :
    l.backlog + l.waiting = effectiveBacklog backlog ↔ l.handed = [] := by
  have accounts : l.Accounts (effectiveBacklog backlog) :=
    reached.preserves (fun l => l.Accounts (effectiveBacklog backlog)) (Listener.Accounts.start flags backlog cells)
      fun _ _ _ accounts _ enabled ran => accounts.step (listening_step enabled ran)
  have balance := accounts.backlog
  rw [← accounts.waiting_eq_iff]
  omega

def syn (seqNum : Nat) : Segment :=
  { seqNum, ackNum := 0, dataOffFlags := tcpFlagSyn ||| 0x50, windowSize := 0, totalLength := 40, raw := [] }

def ack (seqNum ackNum : Nat) : Segment :=
  { seqNum, ackNum, dataOffFlags := tcpFlagAck ||| 0x50, windowSize := 0, totalLength := 40, raw := [] }

/-- A segment from a host `ip`; where it opens a connection, the socket is at `address`. -/
def arrives (ip : Nat) (seg : Segment) (address : Nat) : ListenEvent :=
  .segment { peer := { ip, port := 1000 }, seg, rand := 0, localRand := 50, address, page := [] }

def cells : Links (Unit ⊕ Nat) := ⟨fun _ => ⟨.inl (), .inl ()⟩⟩

theorem backlog_accounting_two : ∃ l, listening.Reaches (fun _ _ => True) (tcpListen 0 5 cells) l ∧
    l.created = 2 ∧ l.backlog + l.waiting = 5 := by
  obtain ⟨l, reached, created, handed⟩ : ∃ l, listening.Reaches (fun _ _ => True) (tcpListen 0 5 cells) l ∧
      l.created = 2 ∧ l.handed = [] :=
    Machine.run_exists [arrives 1 (syn 7) 1, arrives 2 (syn 9) 2, arrives 1 (ack 8 51) 3, .down] (by decide +kernel)
  exact ⟨l, reached, created, (backlog_accounting reached).mpr handed⟩

/-- A listener with a backlog of one has returned its only connection: the next one is refused. -/
theorem backlog_lost : ∃ l, listening.Reaches (fun _ _ => True) (tcpListen 0 1 cells) l ∧ l.waiting = 0 ∧
    l.backlog + l.waiting ≠ effectiveBacklog 1 ∧
    ∀ arrival, l.find arrival.peer = none → tcpHandle arrival l = l := by
  obtain ⟨l, reached, waiting, lost, backlog⟩ : ∃ l, listening.Reaches (fun _ _ => True) (tcpListen 0 1 cells) l ∧
      l.waiting = 0 ∧ l.backlog + l.waiting ≠ effectiveBacklog 1 ∧ l.backlog = 0 :=
    Machine.run_exists [arrives 1 (syn 7) 1, arrives 1 (ack 8 51) 2, .down, .accept] (by decide +kernel)
  refine ⟨l, reached, waiting, lost, fun arrival unknown => ?_⟩
  rw [tcpHandle, unknown]
  simp [backlog]

/-- The segment that ends the handshake of a connection in `TCP_SYN_RECIEVED`. -/
def Conn.completes (c : Conn) (seg : Segment) : Bool :=
  decide (c.nextPeerSeq = seg.seqNum) && seg.has tcpFlagAck && !seg.has tcpFlagSyn &&
    decide (seg.ackNum = c.nextLocalSeq)

/-- A child is in `TCP_SYN_RECIEVED` or has been in `TCP_ESTABLISHED`. -/
structure Child.Shaken (child : Child) : Prop where
  state : child.conn.state = .synRecieved ∨ child.conn.state.transfers = true ∨ child.conn.state = .closed
  established : child.established = true ↔ child.conn.state ≠ .synRecieved

section Established

variable {child : Child} {seg : Segment} {rand : Nat}

theorem tcpSockHandle_recieved (rand : Nat) (seg : Segment) {c : Conn} (state : c.state = .synRecieved) :
    tcpSockHandle rand seg c =
      if c.completes seg then Conn.setFlag { c with state := .established } sockFlagConnected else c := by
  rw [tcpSockHandle, state]
  rw [handleSynRecieved, Conn.completes]
  by_cases matched : seg.ackNum = c.nextLocalSeq
  · rw [decide_eq_true matched, Bool.and_true, if_neg (not_not_intro matched)]
  · rw [decide_eq_false matched, Bool.and_false, if_neg Bool.false_ne_true, if_pos matched, ite_self]

theorem tcpSockHandle_recieved_state (rand : Nat) (seg : Segment) {c : Conn} (state : c.state = .synRecieved) :
    (tcpSockHandle rand seg c).state = if c.completes seg then .established else .synRecieved := by
  rw [tcpSockHandle_recieved rand seg state]
  split
  · rfl
  · exact state

theorem usable_established {state : TcpState} (usable : state.transfers = true ∨ state = .closed) :
    state ≠ .synRecieved := by
  rintro rfl
  rcases usable with transfers | closed <;> contradiction

theorem Child.Shaken.handle (shaken : child.Shaken) : (child.handle rand seg).Shaken := by
  rcases shaken.state with recieved | usable
  · have before : child.established = false := by
      cases flag : child.established with
      | true => exact absurd recieved (shaken.established.mp flag)
      | false => rfl
    have after := tcpSockHandle_recieved_state rand seg recieved
    cases completes : child.conn.completes seg with
    | true =>
      rw [completes, if_pos rfl] at after
      refine ⟨.inr (.inl ?_), ?_⟩
      · rw [Child.handle, after]
        rfl
      · rw [Child.handle, after, before]
        dsimp only
        decide
    | false =>
      rw [completes, if_neg Bool.false_ne_true] at after
      refine ⟨.inl after, ?_⟩
      rw [Child.handle, after, before]
      dsimp only
      decide
  · have established := shaken.established.mpr (usable_established usable)
    have after := tcpSockHandle_usable rand seg usable
    refine ⟨.inr after, iff_of_true ?_ (usable_established after)⟩
    rw [Child.handle, established, Bool.true_or]

variable (shaken : ∀ a child, l.socks a = some child → child.Shaken)
include shaken

theorem shaken_step (step : ListenStep l event l') :
    ∀ a child, l'.socks a = some child → child.Shaken := by
  intro b child here
  cases step with
  | deliver =>
    rcases update_some here with ⟨_, handled⟩ | old
    · obtain ⟨before, live, rfl⟩ := Option.map_eq_some_iff.mp handled
      exact (shaken _ _ live).handle
    · exact shaken b _ old
  | create =>
    rcases update_some here with ⟨_, made⟩ | old
    · cases made
      exact ⟨.inl rfl, iff_of_false Bool.false_ne_true (not_not_intro rfl)⟩
    · exact shaken b _ old
  | ignore | down | retry | hand => exact shaken b _ here
  | close =>
    rcases update_some here with ⟨_, none⟩ | old
    · contradiction
    · exact shaken b _ old

/-- The first child in the list has got the ACK of its handshake. -/
def Completed (l : Listener) : ListenEvent → Prop
  | .accept => ∀ a child, listFirst l.children (.inl ()) = .inr a → l.socks a = some child →
      child.conn.state ≠ .synRecieved
  | _ => True

theorem handed_step (handed : ∀ child ∈ l.handed, child.established = true) (completed : Completed l event)
    (step : ListenStep l event l') : ∀ child ∈ l'.handed, child.established = true := by
  cases step with
  | deliver | create | ignore | down | retry | close => exact handed
  | hand first live =>
    intro child mem
    rcases mem_append.mp mem with old | new
    · exact handed _ old
    · rw [mem_singleton.mp new]
      exact (shaken _ _ live).established.mpr (completed _ _ first live)

end Established

/-- A child leaves `TCP_SYN_RECIEVED` with the ACK of its handshake and has been in `TCP_ESTABLISHED` from then
on; `tcp_accept` returns such children where it finds no other one at the front of its list. -/
theorem accept_established {flags backlog : Nat} {cells : Links (Unit ⊕ Nat)} :
    (∀ l, listening.Reaches (fun _ _ => True) (tcpListen flags backlog cells) l →
      ∀ a child, l.socks a = some child → (child.established = true ↔ child.conn.state ≠ .synRecieved) ∧
        ∀ rand seg, child.conn.state = .synRecieved →
          ((child.handle rand seg).established = true ↔ child.conn.completes seg = true)) ∧
    ∀ l, listening.Reaches Completed (tcpListen flags backlog cells) l →
      ∀ child ∈ l.handed, child.established = true := by
  constructor
  · intro l reached a child live
    have shaken : ∀ a child, l.socks a = some child → child.Shaken :=
      reached.preserves (fun l => ∀ a child, l.socks a = some child → child.Shaken) nofun
        fun _ _ _ shaken _ enabled ran => shaken_step shaken (listening_step enabled ran)
    refine ⟨(shaken a child live).established, fun rand seg recieved => ?_⟩
    have after := tcpSockHandle_recieved_state rand seg recieved
    rw [(shaken a child live).handle.established]
    change (tcpSockHandle rand seg child.conn).state ≠ .synRecieved ↔ _
    rw [after]
    cases child.conn.completes seg <;> decide
  · intro l reached
    have both : (∀ a child, l.socks a = some child → child.Shaken) ∧ ∀ child ∈ l.handed, child.established = true :=
      reached.preserves (fun l => (∀ a child, l.socks a = some child → child.Shaken) ∧
          ∀ child ∈ l.handed, child.established = true) ⟨nofun, nofun⟩
        (fun _ _ _ both completed enabled ran =>
          ⟨shaken_step both.1 (listening_step enabled ran),
            handed_step both.1 both.2 completed (listening_step enabled ran)⟩)
    exact both.2

instance (l : Listener) : DecidablePred (Completed l)
  | .accept => decidable_of_iff (∀ a ∈ (listFirst l.children (.inl ())).getRight?, ∀ child ∈ l.socks a,
      child.conn.state ≠ .synRecieved) (by simp only [Completed, Option.mem_def, Sum.getRight?_eq_some_iff]; grind)
  | .segment .. | .down | .close .. => .isTrue trivial

theorem accept_established_one : ∃ l, listening.Reaches Completed (tcpListen 0 5 cells) l ∧
    l.handed.map Handed.id = [0] ∧ ∀ child ∈ l.handed, child.established = true := by
  obtain ⟨l, reached, handed⟩ : ∃ l, listening.Reaches Completed (tcpListen 0 5 cells) l ∧ l.handed.map Handed.id = [0] :=
    Machine.run_exists [arrives 1 (syn 7) 1, .down, arrives 2 (syn 9) 2, arrives 1 (ack 8 9) 3, arrives 1 (ack 8 51) 3,
      .accept] (by decide +kernel)
  exact ⟨l, reached, handed, accept_established.2 l reached⟩

/-- A child is returned that has only sent its SYN. -/
theorem accept_unestablished : ∃ l, listening.Reaches (fun _ _ => True) (tcpListen 0 5 cells) l ∧
    ¬ ∀ child ∈ l.handed, child.established = true :=
  Machine.run_exists [arrives 1 (syn 7) 1, .down, .accept] (by decide +kernel)

/-- A child is closed while what followed it when it was returned is still the first of the list. -/
def Undisturbed (l : Listener) : ListenEvent → Prop
  | .close a => (l.children (.inr a)).next = listFirst l.children (.inl ())
  | _ => True

def Listener.idOf (l : Listener) (a : Nat) : Option Nat := (l.socks a).map Child.id

/-- The list holds the children created and not yet returned, in the order of their creation. -/
structure Listener.Queues (l : Listener) (queue : List Nat) : Prop where
  holds : Holds l.children queue
  order : (l.handed.map Handed.id).map some ++ queue.map l.idOf = (List.range l.created).map some

/-- A child that has been returned has left the list, and its cell still points at the head. -/
structure Listener.Keeps (l : Listener) (queue : List Nat) : Prop extends l.Queues queue where
  held : ∀ a ∈ l.held, (l.socks a).isSome ∧ a ∉ queue ∧ (l.children (.inr a)).prev = .inl ()
  distinct : l.held.Nodup

section Queue

variable {queue : List Nat}

theorem Listener.Queues.live (queues : l.Queues queue) (mem : a ∈ queue) : (l.socks a).isSome := by
  have inside : l.idOf a ∈ (range l.created).map some := by
    rw [← queues.order]
    exact mem_append_right _ (mem_map_of_mem mem)
  obtain ⟨id, _, here⟩ := mem_map.mp inside
  obtain ⟨child, live, _⟩ := Option.map_eq_some_iff.mp here.symm
  rw [live]
  rfl

theorem Listener.Queues.first (queues : l.Queues queue) (first : listFirst l.children (.inl ()) = .inr a) :
    ∃ rest, queue = a :: rest := by
  cases queue with
  | nil =>
    have empty := queues.holds.empty_iff.mpr rfl
    rw [listEmpty, decide_eq_true_eq] at empty
    rw [listFirst, empty] at first
    contradiction
  | cons _ rest =>
    rw [queues.holds.first] at first
    exact ⟨rest, by rw [Sum.inr.inj first]⟩

theorem Listener.Keeps.start (flags backlog : Nat) (cells : Links (Unit ⊕ Nat)) :
    (tcpListen flags backlog cells).Keeps [] :=
  ⟨⟨holds_init _, rfl⟩, nofun, nodup_nil⟩

theorem Listener.Keeps.of_ids (keeps : l.Keeps queue) (children : l'.children = l.children)
    (created : l'.created = l.created) (handed : l'.handed = l.handed) (held : l'.held = l.held)
    (ids : ∀ a, l'.idOf a = l.idOf a) : l'.Keeps queue := by
  have live (a : Nat) : (l'.socks a).isSome = (l.socks a).isSome := by
    have same := congrArg Option.isSome (ids a)
    rwa [idOf, idOf, Option.isSome_map, Option.isSome_map] at same
  have same : queue.map l'.idOf = queue.map l.idOf := map_congr_left fun a _ => ids a
  refine ⟨⟨?_, ?_⟩, ?_, ?_⟩
  · rw [children]
    exact keeps.holds
  · rw [handed, created, same]
    exact keeps.order
  · intro a mem
    rw [held] at mem
    rw [live, children]
    exact keeps.held a mem
  · rw [held]
    exact keeps.distinct

theorem Listener.Keeps.waits (keeps : l.Keeps queue) (semaphore woken : Nat) :
    ({ l with acceptSemaphore := semaphore, woken } : Listener).Keeps queue :=
  keeps.of_ids rfl rfl rfl rfl fun _ => rfl

theorem deliver_idOf (a rand : Nat) (seg : Segment) (b : Nat) : (l.deliver a rand seg).idOf b = l.idOf b := by
  change (update l.socks a ((l.socks a).map (Child.handle rand seg)) b).map Child.id = (l.socks b).map Child.id
  by_cases same : b = a
  · rw [same, update_self, Option.map_map]
    rfl
  · rw [update_of_ne same]

theorem Listener.Keeps.create {arrival : Arrival} (keeps : l.Keeps queue) (fresh : l.socks arrival.address = none) :
    (l.create arrival).Keeps (queue ++ [arrival.address]) := by
  have other {a : Nat} (live : (l.socks a).isSome) : a ≠ arrival.address := by
    rintro rfl
    rw [fresh] at live
    contradiction
  have kept {a : Nat} (live : (l.socks a).isSome) : (l.create arrival).socks a = l.socks a :=
    update_of_ne (other live) _ _
  have unqueued : arrival.address ∉ queue := fun mem => other (keeps.live mem) rfl
  have ids : queue.map (l.create arrival).idOf = queue.map l.idOf := by
    refine map_congr_left fun a mem => ?_
    rw [idOf, kept (keeps.live mem), idOf]
  have id : (l.create arrival).idOf arrival.address = some l.created := by
    have made : (l.create arrival).socks arrival.address = some _ := update_self _ _ _
    rw [idOf, made]
    rfl
  refine ⟨⟨keeps.holds.append unqueued, ?_⟩, ?_, keeps.distinct⟩
  · have order := keeps.order
    rw [map_append, ids, ← append_assoc, map_singleton, id]
    change (l.handed.map Handed.id).map some ++ queue.map l.idOf ++ [some l.created] = (range (l.created + 1)).map some
    rw [order, range_succ, map_append, map_singleton]
  · intro a mem
    obtain ⟨live, outside, prev⟩ := keeps.held a mem
    refine ⟨?_, ?_, ?_⟩
    · rw [kept live]
      exact live
    · rw [mem_append, mem_singleton, not_or]
      exact ⟨outside, other live⟩
    · exact (listAddBefore_prev (fun same => other live (Sum.inr.inj same)) Sum.inr_ne_inl).trans prev

theorem Listener.Keeps.hand {child : Child} (keeps : l.Keeps (a :: queue)) (live : l.socks a = some child) :
    (l.hand a child).Keeps queue := by
  obtain ⟨prev, next⟩ := keeps.holds.first_cell
  have distinct := nodup_cons.mp keeps.holds.nodup
  have apart {b : Nat} (outside : b ∉ queue) : (Sum.inr b : Unit ⊕ Nat) ≠ (l.children (.inr a)).next := by
    intro same
    rw [← same] at next
    simp [outside] at next
  refine ⟨⟨keeps.holds.pop, ?_⟩, ?_, nodup_cons.mpr ⟨fun mem => ?_, keeps.distinct⟩⟩
  · have order := keeps.order
    rw [map_cons, idOf, live] at order
    change ((l.handed ++ [Handed.mk child.id child.established]).map Handed.id).map some ++ queue.map l.idOf =
      (range l.created).map some
    rw [← order]
    simp
  · intro b mem
    rcases mem_cons.mp mem with rfl | old
    · refine ⟨?_, distinct.1, (listRm_prev (apart distinct.1)).trans prev⟩
      rw [hand, live]
      rfl
    · obtain ⟨liveB, outside, prevB⟩ := keeps.held b old
      have outside := (not_or.mp (mt mem_cons.mpr outside)).2
      exact ⟨liveB, outside, (listRm_prev (apart outside)).trans prevB⟩
  · exact (keeps.held a mem).2.1 mem_cons_self

/-- The second removal finds the head and its first entry as the first removal has left them. -/
theorem Listener.Keeps.idle (keeps : l.Keeps queue) (mem : a ∈ l.held) (undisturbed : Undisturbed l (.close a)) :
    listRm (.inr a) l.children = l.children := by
  have prev := (keeps.held a mem).2.2
  refine listRm_idle ?_ ?_
  · rw [prev]
    exact undisturbed.symm
  · rw [prev, undisturbed]
    exact keeps.holds.back

theorem Listener.Keeps.close {connections : Nat → List Nat} {departed : List Packet} (keeps : l.Keeps queue)
    (mem : a ∈ l.held) :
    ({ l with
       connections
       departed
       socks := update l.socks a none
       held := l.held.erase a } : Listener).Keeps queue := by
  have outside := (keeps.held a mem).2.1
  have other {b : Nat} (inside : b ∈ queue) : b ≠ a := by
    rintro rfl
    exact outside inside
  refine ⟨⟨keeps.holds, ?_⟩, ?_, keeps.distinct.erase a⟩
  · refine Eq.trans (congrArg _ (map_congr_left fun b inside => ?_)) keeps.order
    exact congrArg _ (update_of_ne (other inside) _ _)
  · intro b inside
    obtain ⟨apart, old⟩ := keeps.distinct.mem_erase_iff.mp inside
    obtain ⟨live, rest⟩ := keeps.held b old
    refine ⟨?_, rest⟩
    dsimp only
    rw [update_of_ne apart]
    exact live

theorem Listener.Keeps.step (keeps : l.Keeps queue) (undisturbed : Undisturbed l event) (step : ListenStep l event l') :
    ∃ queue, l'.Keeps queue := by
  cases step with
  | deliver => exact ⟨queue, keeps.of_ids rfl rfl rfl rfl (deliver_idOf _ _ _)⟩
  | create _ _ fresh => exact ⟨_, keeps.create fresh⟩
  | ignore => exact ⟨queue, keeps⟩
  | down | retry => exact ⟨queue, keeps.waits _ _⟩
  | hand first live =>
    obtain ⟨rest, rfl⟩ := keeps.first first
    exact ⟨rest, (keeps.waits _ _).hand live⟩
  | close mem _ removed =>
    refine ⟨queue, ?_⟩
    rw [keeps.idle mem undisturbed, or_self] at removed
    rw [removed]
    exact keeps.close mem

theorem Listener.Keeps.reached {flags backlog : Nat} {cells : Links (Unit ⊕ Nat)}
    (reached : listening.Reaches Undisturbed (tcpListen flags backlog cells) l) : ∃ queue, l.Keeps queue := by
  refine reached.preserves (fun l => ∃ queue, l.Keeps queue) ⟨[], Listener.Keeps.start _ _ _⟩ ?_
  rintro l event l' ⟨queue, keeps⟩ undisturbed enabled ran
  exact keeps.step undisturbed (listening_step enabled ran)

end Queue

/-- While every child is closed before the list has moved on, the list holds the children created and not yet
returned in the order of their creation, none is returned twice, and a close leaves the list as it is. -/
theorem accept_queue_kept {flags backlog : Nat} {cells : Links (Unit ⊕ Nat)} {l : Listener}
    (reached : listening.Reaches Undisturbed (tcpListen flags backlog cells) l) :
    ∃ queue, l.Queues queue ∧ (l.handed.map Handed.id).Nodup ∧
      ∀ a l', a ∈ l.held → Undisturbed l (.close a) → sockClose a l = .ok l' → l'.Queues queue := by
  obtain ⟨queue, keeps⟩ := Listener.Keeps.reached reached
  refine ⟨queue, keeps.toQueues, ?_, fun a l' mem undisturbed closed => ?_⟩
  · have whole : ((range l.created).map some).Nodup := nodup_range.map fun _ _ => Option.some.inj
    rw [← keeps.order] at whole
    exact List.Nodup.of_map some (nodup_append.mp whole).1
  · cases sockClose_step mem closed with
    | close mem _ removed =>
      rw [keeps.idle mem undisturbed, or_self] at removed
      rw [removed]
      exact (keeps.close mem).toQueues

instance (l : Listener) : DecidablePred (Undisturbed l)
  | .close _ => inferInstanceAs (Decidable (_ = _))
  | .segment .. | .down | .accept => .isTrue trivial

theorem accept_queue_kept_three : ∃ l, listening.Reaches Undisturbed (tcpListen 0 5 cells) l ∧
    l.created = 3 ∧ l.handed.map Handed.id = [0, 1] ∧ ∃ queue, l.Queues queue := by
  obtain ⟨l, reached, created, handed⟩ : ∃ l, listening.Reaches Undisturbed (tcpListen 0 5 cells) l ∧
      l.created = 3 ∧ l.handed.map Handed.id = [0, 1] :=
    Machine.run_exists [arrives 1 (syn 7) 1, arrives 2 (syn 9) 2, .down, .accept, .close 1, arrives 3 (syn 2) 1, .down,
      .accept] (by decide +kernel)
  obtain ⟨queue, queues, _⟩ := accept_queue_kept reached
  exact ⟨l, reached, created, handed, queue, queues⟩

/-- The first child is closed after the second one has been created: the second one is lost. -/
theorem accept_queue_lost : ∃ l, listening.Reaches (fun _ _ => True) (tcpListen 0 5 cells) l ∧
    ¬ ∃ queue, l.Queues queue := by
  obtain ⟨l, reached, empty, created, handed⟩ : ∃ l, listening.Reaches (fun _ _ => True) (tcpListen 0 5 cells) l ∧
      listEmpty l.children (.inl ()) = true ∧ l.created = 2 ∧ l.handed.map Handed.id = [0] :=
    Machine.run_exists [arrives 1 (syn 7) 1, .down, .accept, arrives 2 (syn 9) 2, .close 1] (by decide +kernel)
  refine ⟨l, reached, ?_⟩
  rintro ⟨queue, queues⟩
  have order := queues.order
  rw [queues.holds.empty_iff.mp empty, created, handed, map_nil] at order
  exact absurd order (by decide)

end KOs.Net

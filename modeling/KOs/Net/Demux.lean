import KOs.Net.Accept

namespace KOs.Net

open KOs.Common KOs.Data Function Option

/-! The `accept` system call, and which child a segment of a peer gets to.

`tcp_handle` finds the chain of a child by the address in the segment, and the child in it by
the one that `child->peer.addr` points to, to which `sys_accept` copies what is in the buffer
of its caller.
-/

structure Demux where
  listener : Listener
  /-- The children that calls of `accept` have got from `sock_accept` and are about to return. -/
  returning : List Nat
  origin : Nat → Peer

/-- The end of `sys_accept`, with the address in the buffer of the caller, if it has given one. -/
def copyAddress (a : Nat) (buffer : Option Peer) (s : Demux) : Except Fault Demux :=
  let s := { s with returning := s.returning.erase a }
  match buffer with
  | none => .ok s
  | some peer =>
      match s.listener.socks a with
      | none => .error .strayEntry
      | some child =>
          .ok { s with listener.socks := Function.update s.listener.socks a (some { child with peer }) }

inductive DemuxEvent where
  | listen (event : ListenEvent)
  /-- A call of `accept` that has got the child `a` goes on. -/
  | copy (a : Nat) (buffer : Option Peer)

/-- The peer that a child has been created for, if one has. -/
def noteOrigin (event : ListenEvent) (before after : Listener) (origin : Nat → Peer) : Nat → Peer :=
  match event with
  | .segment arrival =>
      if after.created = before.created then origin else Function.update origin before.created arrival.peer
  | _ => origin

def demux : Machine Demux DemuxEvent Fault where
  enabled event s :=
    match event with
    | .listen event => listening.enabled event s.listener
    | .copy a _ => decide (a ∈ s.returning)
  perform event s :=
    match event with
    | .listen event => (listening.perform event s.listener).map (fun listener =>
        { listener
          returning := listener.held.take (listener.handed.length - s.listener.handed.length) ++ s.returning
          origin := noteOrigin event s.listener listener s.origin })
    | .copy a buffer => copyAddress a buffer s

def demuxStart (flags backlog : Nat) (cells : Links (Unit ⊕ Nat)) : Demux :=
  { listener := tcpListen flags backlog cells, returning := [], origin := fun _ => { ip := 0, port := 0 } }

/-- What does not change of a child until it is closed. -/
structure Child.Usual (child : Child) : Prop extends child.Shaken where
  closed : child.conn.has sockFlagClosed = false
  child : child.conn.has sockFlagChild = true

structure Listener.Chained (l : Listener) : Prop where
  nodup : ∀ b, (l.connections b).Nodup
  live : ∀ b, ∀ a ∈ l.connections b, ∃ child, l.socks a = some child ∧ connectionsBucket child.peer = b
  listed : ∀ a child, l.socks a = some child → a ∈ l.connections (connectionsBucket child.peer)
  unique : ∀ a b first second, l.socks a = some first → l.socks b = some second → first.peer = second.peer → a = b
  usual : ∀ a child, l.socks a = some child → child.Usual

section Chains

variable {l l' : Listener} {event : ListenEvent} {child : Child} {a rand : Nat} {seg : Segment}

theorem Child.Usual.handle (usual : child.Usual) : (child.handle rand seg).Usual := by
  have kept : ∀ mask, hasFlag sockFlagShutRd mask = false → hasFlag sockFlagConnected mask = false →
      (tcpSockHandle rand seg child.conn).has mask = child.conn.has mask := by
    intro mask read connected
    rcases usual.state with recieved | usable
    · rw [tcpSockHandle_recieved rand seg recieved]
      split
      · rw [Conn.setFlag_has, connected, Bool.or_false]
        rfl
      · rfl
    · exact tcpSockHandle_has rand seg usable read
  refine ⟨usual.toShaken.handle, ?_, ?_⟩
  · exact (kept _ (by decide) (by decide)).trans usual.closed
  · exact (kept _ (by decide) (by decide)).trans usual.child

theorem childConn_usual (arrival : Arrival) (id : Nat) :
    Child.Usual { peer := arrival.peer, conn := childConn arrival, id, established := false } := by
  refine ⟨⟨.inl rfl, iff_of_false Bool.false_ne_true (not_not_intro rfl)⟩, ?_, ?_⟩
  · change hasFlag (sockFlagConnected ||| sockFlagChild) _ = false
    decide
  · change hasFlag (sockFlagConnected ||| sockFlagChild) _ = true
    decide

namespace Listener.Chained

variable (chained : l.Chained)
include chained

theorem find_eq (peer : Peer) :
    l.find peer = some a ↔ ∃ child, l.socks a = some child ∧ child.peer = peer := by
  constructor
  · intro found
    have holds := List.find?_some found
    obtain ⟨child, live, same⟩ := (any_eq_true ..).mp holds
    exact ⟨child, live, of_decide_eq_true same⟩
  · rintro ⟨child, live, rfl⟩
    cases found : l.find child.peer with
    | none =>
      have absent := List.find?_eq_none.mp found a (chained.listed a child live)
      simp [live] at absent
    | some b =>
      have holds := List.find?_some found
      obtain ⟨other, here, same⟩ := (any_eq_true ..).mp holds
      rw [chained.unique b a _ _ here live (of_decide_eq_true same)]

theorem change (live : l.socks a = some child) {after : Child} (peer : after.peer = child.peer)
    (usual : after.Usual) {rest : Listener} (socks : rest.socks = update l.socks a (some after))
    (connections : rest.connections = l.connections) : rest.Chained := by
  have peers : ∀ b other, rest.socks b = some other → ∃ old, l.socks b = some old ∧ other.peer = old.peer := by
    intro b other here
    rw [socks] at here
    rcases update_some here with ⟨rfl, same⟩ | old
    · cases same
      exact ⟨child, live, peer⟩
    · exact ⟨other, old, rfl⟩
  refine ⟨fun b => connections ▸ chained.nodup b, fun b c mem => ?_, fun c other here => ?_, ?_, fun c other here => ?_⟩
  · rw [connections] at mem
    obtain ⟨old, here, bucket⟩ := chained.live b c mem
    rw [socks]
    by_cases same : c = a
    · subst same
      rw [live] at here
      cases here
      exact ⟨after, update_self .., by rw [peer, bucket]⟩
    · exact ⟨old, by rw [update_of_ne same, here], bucket⟩
  · obtain ⟨old, earlier, same⟩ := peers c _ here
    rw [connections, same]
    exact chained.listed c old earlier
  · intro c d first second here there same
    obtain ⟨one, earlier, before⟩ := peers c first here
    obtain ⟨two, later, behind⟩ := peers d second there
    exact chained.unique c d one two earlier later (by rw [← before, ← behind, same])
  · rw [socks] at here
    rcases update_some here with ⟨_, same⟩ | old
    · cases same
      exact usual
    · exact chained.usual c _ old

theorem create {arrival : Arrival} (unknown : l.find arrival.peer = none)
    (fresh : l.socks arrival.address = none) : (l.create arrival).Chained := by
  have absent : ∀ b, arrival.address ∉ l.connections b := by
    intro b mem
    obtain ⟨child, live, _⟩ := chained.live b _ mem
    rw [fresh] at live
    contradiction
  have strange : ∀ a child, l.socks a = some child → child.peer ≠ arrival.peer := by
    intro a child live same
    have found := (chained.find_eq arrival.peer).mpr ⟨child, live, same⟩
    rw [unknown] at found
    contradiction
  have other : ∀ {a child}, l.socks a = some child → a ≠ arrival.address := by
    rintro a child live rfl
    rw [fresh] at live
    contradiction
  refine ⟨fun b => ?_, fun b a mem => ?_, fun a child here => ?_, fun a c first second here there same => ?_, ?_⟩
  · simp only [Listener.create]
    split
    · exact List.nodup_cons.mpr ⟨absent b, chained.nodup b⟩
    · exact chained.nodup b
  · simp only [Listener.create] at mem ⊢
    split at mem
    next bucket =>
      rcases List.mem_cons.mp mem with rfl | old
      · exact ⟨_, update_self .., bucket.symm⟩
      · obtain ⟨child, live, same⟩ := chained.live b a old
        exact ⟨child, by rw [update_of_ne (other live), live], same⟩
    · obtain ⟨child, live, same⟩ := chained.live b a mem
      exact ⟨child, by rw [update_of_ne (other live), live], same⟩
  · simp only [Listener.create]
    rcases update_some here with ⟨rfl, made⟩ | old
    · cases made
      simp
    · split
      · exact List.mem_cons_of_mem _ (chained.listed a _ old)
      · exact chained.listed a _ old
  · rcases update_some here with ⟨rfl, made⟩ | old <;> rcases update_some there with ⟨rfl, again⟩ | older
    · rfl
    · cases made
      exact absurd same.symm (strange c _ older)
    · cases again
      exact absurd same (strange a _ old)
    · exact chained.unique a c _ _ old older same
  · intro a child here
    rcases update_some here with ⟨_, made⟩ | old
    · cases made
      exact childConn_usual _ l.created
    · exact chained.usual a _ old

theorem remove {rest : Listener} (socks : rest.socks = update l.socks a none)
    (connections : ∀ b, rest.connections b = (l.connections b).erase a) : rest.Chained := by
  have gone : ∀ {b other}, rest.socks b = some other → b ≠ a ∧ l.socks b = some other := by
    intro b other here
    rw [socks] at here
    by_cases same : b = a
    · rw [same, update_self] at here
      contradiction
    · rw [update_of_ne same] at here
      exact ⟨same, here⟩
  refine ⟨fun b => ?_, fun b c mem => ?_, fun c other here => ?_, ?_, fun c other here => ?_⟩
  · rw [connections]
    exact (chained.nodup b).erase a
  · rw [connections] at mem
    obtain ⟨apart, old⟩ := (chained.nodup b).mem_erase_iff.mp mem
    obtain ⟨other, here, bucket⟩ := chained.live b c old
    exact ⟨other, by rw [socks, update_of_ne apart, here], bucket⟩
  · obtain ⟨apart, old⟩ := gone here
    rw [connections]
    exact (chained.nodup _).mem_erase_iff.mpr ⟨apart, chained.listed c _ old⟩
  · intro c d first second here there
    exact chained.unique c d _ _ (gone here).2 (gone there).2
  · exact chained.usual c _ (gone here).2

theorem sockClose_removes (ran : sockClose a l = .ok l') :
    l'.socks = update l.socks a none ∧ (∀ b, l'.connections b = (l.connections b).erase a) ∧
      l'.created = l.created := by
  rw [sockClose] at ran
  split at ran
  · contradiction
  next child live =>
    have usual := chained.usual a child live
    have marked : (child.conn.setFlag sockFlagClosed).has sockFlagChild = true := by
      rw [Conn.setFlag_has, usual.child, Bool.true_or]
    have flag : (if (child.conn.setFlag sockFlagClosed).state ≠ .closed then
        tcpSendRst 0 (child.conn.setFlag sockFlagClosed) else child.conn.setFlag sockFlagClosed).has sockFlagChild =
        true := by
      split
      · exact marked
      · exact marked
    rw [usual.closed, if_neg Bool.false_ne_true, tcpClose] at ran
    rw [if_pos flag] at ran
    cases ran
    exact ⟨rfl, fun _ => rfl, rfl⟩

end Listener.Chained

end Chains

structure Demux.Recorded (s : Demux) : Prop where
  chained : s.listener.Chained
  ids : ∀ a child, s.listener.socks a = some child → child.id < s.listener.created
  peers : ∀ a child, s.listener.socks a = some child → child.peer = s.origin child.id

/-- Every peer has at most one child, which is the one created for it and which its segments get to. -/
structure Demux.Stable (s : Demux) : Prop where
  unique : ∀ a b first second, s.listener.socks a = some first → s.listener.socks b = some second →
    first.peer = second.peer → a = b
  unchanged : ∀ a child, s.listener.socks a = some child → child.peer = s.origin child.id
  delivered : ∀ peer a, s.listener.find peer = some a ↔
    ∃ child, s.listener.socks a = some child ∧ s.origin child.id = peer

/-- The buffer that is given to `accept` holds the address of the child it returns. -/
def Agrees (s : Demux) : DemuxEvent → Prop
  | .copy a (some peer) => ∀ child, s.listener.socks a = some child → peer = child.peer
  | _ => True

section Runs

variable {s s' : Demux} {event : DemuxEvent}

variable (recorded : s.Recorded)
include recorded

theorem Demux.Recorded.stable : s.Stable := by
  refine ⟨recorded.chained.unique, recorded.peers, fun peer a => ?_⟩
  rw [recorded.chained.find_eq]
  constructor
  · rintro ⟨child, live, same⟩
    exact ⟨child, live, by rw [← recorded.peers a _ live, same]⟩
  · rintro ⟨child, live, same⟩
    exact ⟨child, live, by rw [recorded.peers a _ live, same]⟩

variable {listener : Listener} {returning : List Nat}

theorem Demux.Recorded.later (chained : listener.Chained) (created : listener.created = s.listener.created)
    (socks : ∀ a child, listener.socks a = some child →
      ∃ old, s.listener.socks a = some old ∧ child.id = old.id ∧ child.peer = old.peer) :
    Demux.Recorded { listener, returning, origin := s.origin } := by
  refine ⟨chained, fun a child here => ?_, fun a child here => ?_⟩
  · obtain ⟨old, live, id, _⟩ := socks a _ here
    rw [created, id]
    exact recorded.ids a old live
  · obtain ⟨old, live, id, peer⟩ := socks a _ here
    rw [peer, id]
    exact recorded.peers a old live

theorem Demux.Recorded.segment {arrival : Arrival} (step : ListenStep s.listener (.segment arrival) listener) :
    Demux.Recorded { listener, returning, origin := noteOrigin (.segment arrival) s.listener listener s.origin } := by
  have chained := recorded.chained
  rw [noteOrigin]
  cases step with
  | ignore =>
    rw [if_pos rfl]
    exact recorded.later chained rfl fun a child here => ⟨child, here, rfl, rfl⟩
  | @deliver _ a known =>
    obtain ⟨child, live, _⟩ := (chained.find_eq _).mp known
    have after : (Listener.deliver a arrival.rand arrival.seg s.listener).socks =
        update s.listener.socks a (some (Child.handle arrival.rand arrival.seg child)) := by
      rw [Listener.deliver, live, map_some]
    have same : (Listener.deliver a arrival.rand arrival.seg s.listener).created = s.listener.created := rfl
    have usual : (Child.handle arrival.rand arrival.seg child).Usual := (chained.usual a child live).handle
    have id : (Child.handle arrival.rand arrival.seg child).id = child.id := rfl
    have peer : (Child.handle arrival.rand arrival.seg child).peer = child.peer := rfl
    rw [if_pos same]
    refine recorded.later (chained.change live peer usual after rfl) same fun b other here => ?_
    rw [after] at here
    rcases update_some here with ⟨rfl, changed⟩ | old
    · obtain rfl := some.inj changed
      exact ⟨child, live, id, peer⟩
    · exact ⟨other, old, rfl, rfl⟩
  | create unknown _ fresh =>
    have more : (s.listener.create arrival).created ≠ s.listener.created := Nat.succ_ne_self _
    rw [if_neg more]
    refine ⟨chained.create unknown fresh, fun b child here => ?_, fun b child here => ?_⟩
    · rcases update_some here with ⟨_, made⟩ | old
      · cases made
        exact Nat.lt_succ_self _
      · exact Nat.lt_succ_of_lt (recorded.ids b _ old)
    · dsimp only
      rcases update_some here with ⟨_, made⟩ | old
      · cases made
        rw [update_self]
      · rw [update_of_ne ((recorded.ids b _ old).ne)]
        exact recorded.peers b _ old

theorem Demux.Recorded.copy {a : Nat} {buffer : Option Peer} (agrees : Agrees s (.copy a buffer))
    (ran : copyAddress a buffer s = .ok s') : s'.Recorded := by
  cases buffer with
  | none =>
    cases ran
    exact recorded.later recorded.chained rfl fun b child here => ⟨child, here, rfl, rfl⟩
  | some peer =>
    rw [copyAddress] at ran
    split at ran
    · contradiction
    next child live =>
      have same : { child with peer } = child := by rw [agrees child live]
      rw [same, ← live, update_eq_self] at ran
      cases ran
      exact recorded.later recorded.chained rfl fun b child here => ⟨child, here, rfl, rfl⟩

theorem Demux.Recorded.step (agrees : Agrees s event) (enabled : demux.enabled event s = true)
    (ran : demux.perform event s = .ok s') : s'.Recorded := by
  cases event with
  | copy => exact recorded.copy agrees ran
  | listen event =>
    obtain ⟨listener, performed, rfl⟩ := map_returns ran
    have step := listening_step enabled performed
    cases event with
    | segment => exact recorded.segment step
    | down =>
      cases step
      exact recorded.later ⟨recorded.chained.nodup, recorded.chained.live, recorded.chained.listed,
        recorded.chained.unique, recorded.chained.usual⟩ rfl fun a child here => ⟨child, here, rfl, rfl⟩
    | accept =>
      cases step <;>
        exact recorded.later ⟨recorded.chained.nodup, recorded.chained.live, recorded.chained.listed,
          recorded.chained.unique, recorded.chained.usual⟩ rfl fun a child here => ⟨child, here, rfl, rfl⟩
    | close =>
      obtain ⟨socks, connections, created⟩ := recorded.chained.sockClose_removes performed
      refine recorded.later (recorded.chained.remove socks connections) created fun b child here => ?_
      rw [socks] at here
      rcases update_some here with ⟨_, none⟩ | old
      · contradiction
      · exact ⟨child, old, rfl, rfl⟩

end Runs

/-- Where `accept` is given no buffer, or one with the address that it should return, the segments of a peer get
to the child that was created for it. -/
theorem demux_stable {flags backlog : Nat} {cells : Links (Unit ⊕ Nat)} {s : Demux}
    (path : demux.Reaches Agrees (demuxStart flags backlog cells) s) : s.Stable := by
  apply Demux.Recorded.stable
  refine path.preserves Demux.Recorded ⟨⟨fun _ => List.nodup_nil, nofun, nofun, nofun, nofun⟩, nofun, nofun⟩ ?_
  intro before event after recorded agrees enabled ran
  exact recorded.step agrees enabled ran

instance (s : Demux) : DecidablePred (Agrees s)
  | .copy a (some peer) => inferInstanceAs (Decidable (∀ child ∈ s.listener.socks a, peer = child.peer))
  | .copy _ none | .listen _ => .isTrue trivial

theorem demux_stable_two : ∃ s, demux.Reaches Agrees (demuxStart 0 5 cells) s ∧
    s.listener.find { ip := 1, port := 1000 } = some 1 ∧ s.listener.find { ip := 2, port := 1000 } = some 2 ∧
    s.Stable := by
  obtain ⟨s, reached, first, second⟩ : ∃ s, demux.Reaches Agrees (demuxStart 0 5 cells) s ∧
      s.listener.find { ip := 1, port := 1000 } = some 1 ∧ s.listener.find { ip := 2, port := 1000 } = some 2 :=
    Machine.run_exists [.listen (arrives 1 (syn 7) 1), .listen (arrives 2 (syn 9) 2), .listen .down, .listen .accept,
      .copy 1 (some { ip := 1, port := 1000 }), .listen (arrives 1 (ack 8 51) 3)] (by decide +kernel)
  exact ⟨s, reached, first, second, demux_stable reached⟩

/-- A buffer with another address is given to `accept`: a second child is created for the peer of the first one. -/
theorem demux_diverted : ∃ s first second, demux.Reaches (fun _ _ => True) (demuxStart 0 5 cells) s ∧
    s.listener.socks 1 = some first ∧ s.listener.socks 2 = some second ∧
    s.origin first.id = s.origin second.id ∧ first.peer ≠ s.origin first.id ∧ ¬ s.Stable := by
  obtain ⟨s, reached, first, one, second, two, again, changed⟩ : ∃ s,
      demux.Reaches (fun _ _ => True) (demuxStart 0 5 cells) s ∧ ∃ first ∈ s.listener.socks 1,
      ∃ second ∈ s.listener.socks 2, s.origin first.id = s.origin second.id ∧ first.peer ≠ s.origin first.id :=
    Machine.run_exists [.listen (arrives 1 (syn 7) 1), .listen .down, .listen .accept,
      .copy 1 (some { ip := 9, port := 9 }), .listen (arrives 1 (syn 7) 2)] (by decide +kernel)
  exact ⟨s, first, second, reached, one, two, again, changed,
    fun stable => changed (stable.unchanged 1 first one)⟩

end KOs.Net

import KOs.Common.Hashtable
import KOs.Net.Tcp
import Mathlib.Logic.Function.Basic

namespace KOs.Net

open KOs.Common KOs.Data

/-! A listening socket of `net/ip/tcp.c`, bound to a port, with the sockets of its
connections.

These are numbered by their addresses, which may be used again after `sock_close`.
`data->children` is the list with the head `.inl ()`; a chain of `data->connections` is the
list of its entries.  `tcp_handle`, and `tcp_accept` behind its semaphore, run under the lock
of the listener.
-/

def sockFlagListening : Nat := 1 <<< 5

def sockFlagChild : Nat := 1 <<< 6

def somaxconn : Nat := 128

def tcpListenHashtableBits : Nat := 6

structure Peer where
  ip : Nat
  port : Nat
deriving DecidableEq, Repr

/-- The chain of `connections` that a peer belongs to. -/
def connectionsBucket (peer : Peer) : Nat := hash32 (wmul peer.ip peer.port) tcpListenHashtableBits

structure Child where
  peer : Peer
  conn : Conn
  /-- How many connections had been created before this one. -/
  id : Nat
  /-- Has been in `TCP_ESTABLISHED`. -/
  established : Bool

/-- A connection as it was when `tcp_accept` returned it. -/
structure Handed where
  id : Nat
  established : Bool
deriving DecidableEq, Repr

structure Listener where
  flags : Nat
  backlog : Nat
  acceptSemaphore : Nat
  children : Links (Unit ⊕ Nat)
  connections : Nat → List Nat
  socks : Nat → Option Child
  /-- Calls of `tcp_accept` that have got past the semaphore. -/
  woken : Nat
  /-- The connections that have been returned and not closed. -/
  held : List Nat
  created : Nat
  /-- The connections that have been returned, in order. -/
  handed : List Handed
  /-- What has been sent by sockets that have been closed. -/
  departed : List Packet

/-- `tcp_listen`, with what the cells of the lists hold before. -/
def tcpListen (flags backlog : Nat) (cells : Links (Unit ⊕ Nat)) : Listener :=
  { flags := flags ||| sockFlagListening
    backlog := if backlog ≠ 0 && backlog < somaxconn then backlog else somaxconn
    acceptSemaphore := 0
    children := listInit (.inl ()) cells
    connections := fun _ => []
    socks := fun _ => none
    woken := 0
    held := []
    created := 0
    handed := []
    departed := [] }

/-- A segment for the port, from a peer, with what `rand32`, `kmalloc` and `alloc_page` return if
they are called for it. -/
structure Arrival where
  peer : Peer
  seg : Segment
  rand : Nat
  localRand : Nat
  address : Nat
  page : List UInt8

def childConn (arrival : Arrival) : Conn :=
  let c := tcpReset arrival.rand
    { flags := sockFlagConnected ||| sockFlagChild, state := .synRecieved, nextLocalSeq := 0, nextPeerSeq := 0,
      recvBuff := arrival.page, recvBuffFront := 0, recvBuffBack := 0, recvBuffSize := 0, retrys := 0,
      recvSemaphore := 0, establishedSemaphore := 0, queue := [], timers := 0, sent := [], accesses := [] }
  tcpQueueAdd (tcpFlagSyn ||| tcpFlagAck) 14600 []
    { c with nextLocalSeq := arrival.localRand
             nextPeerSeq := wadd arrival.seg.seqNum (arrival.seg.len + 1) }

def Child.handle (rand : Nat) (seg : Segment) (child : Child) : Child :=
  let conn := tcpSockHandle rand seg child.conn
  { child with conn, established := child.established || decide (conn.state = .established) }

namespace Listener

/-- The first child of the chain that has the peer. -/
def find (l : Listener) (peer : Peer) : Option Nat :=
  (l.connections (connectionsBucket peer)).find? (fun a => (l.socks a).any (fun child => child.peer = peer))

def deliver (a : Nat) (rand : Nat) (seg : Segment) (l : Listener) : Listener :=
  { l with socks := Function.update l.socks a ((l.socks a).map (Child.handle rand seg)) }

def create (arrival : Arrival) (l : Listener) : Listener :=
  let child := { peer := arrival.peer, conn := childConn arrival, id := l.created, established := false }
  let bucket := connectionsBucket arrival.peer
  { l with backlog := l.backlog - 1
           socks := Function.update l.socks arrival.address (some child)
           children := listAddBefore (.inr arrival.address) (.inl ()) l.children
           connections := fun b => if b = bucket then arrival.address :: l.connections b else l.connections b
           acceptSemaphore := l.acceptSemaphore + 1
           created := l.created + 1 }

def hand (a : Nat) (child : Child) (l : Listener) : Listener :=
  { l with children := listRm (.inr a) l.children
           held := a :: l.held
           handed := l.handed ++ [{ id := child.id, established := child.established }] }

end Listener

/-- `tcp_handle` for the port of the listener. -/
def tcpHandle (arrival : Arrival) (l : Listener) : Listener :=
  match l.find arrival.peer with
  | some a => l.deliver a arrival.rand arrival.seg
  | none =>
      if arrival.seg.has tcpFlagSyn && !arrival.seg.has tcpFlagAck && l.backlog ≠ 0 then l.create arrival
      else l

/-- `tcp_accept` behind its semaphore.  It returns `-EINVAL`, starts again, or returns a child. -/
def tcpAccept (l : Listener) : Except Fault Listener :=
  let l := { l with woken := l.woken - 1 }
  if hasFlag l.flags sockFlagShutRdwr then .ok l
  else if listEmpty l.children (.inl ()) then .ok l
  else
    match listFirst l.children (.inl ()) with
    | .inl _ => .error .strayEntry
    | .inr a =>
        match l.socks a with
        | none => .error .strayEntry
        | some child =>
            (bugOn (!child.conn.has sockFlagConnected) "src/net/ip/tcp.c" 643).map (fun _ => l.hand a child)

/-- `tcp_close` of the child `a`. -/
def tcpClose (a : Nat) (child : Child) (l : Listener) : Listener :=
  let conn := if child.conn.state ≠ .closed then tcpSendRst 0 child.conn else child.conn
  let l := { l with departed := conn.sent ++ l.departed }
  if conn.has sockFlagChild then
    { l with children := listRm (.inr a) l.children
             connections := fun b => (l.connections b).erase a }
  else l

def sockClose (a : Nat) (l : Listener) : Except Fault Listener :=
  match l.socks a with
  | none => .error .strayEntry
  | some child =>
      let l := if child.conn.has sockFlagClosed then l
        else tcpClose a { child with conn := child.conn.setFlag sockFlagClosed } l
      .ok { l with socks := Function.update l.socks a none, held := l.held.erase a }

inductive ListenEvent where
  | segment (arrival : Arrival)
  /-- A call of `tcp_accept` gets past the semaphore. -/
  | down
  /-- It goes on. -/
  | accept
  | close (a : Nat)

def listening : Machine Listener ListenEvent Fault where
  enabled event l :=
    match event with
    | .segment arrival => arrival.seg.valid && (l.socks arrival.address).isNone
    | .down => hasFlag l.flags sockFlagListening && !hasFlag l.flags sockFlagShutRdwr &&
        decide (0 < l.acceptSemaphore)
    | .accept => decide (0 < l.woken)
    | .close a => decide (a ∈ l.held)
  perform event l :=
    match event with
    | .segment arrival => .ok (tcpHandle arrival l)
    | .down => .ok { l with acceptSemaphore := l.acceptSemaphore - 1, woken := l.woken + 1 }
    | .accept => tcpAccept l
    | .close a => sockClose a l

end KOs.Net

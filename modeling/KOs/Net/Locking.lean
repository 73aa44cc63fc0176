import KOs.Net.Arp
import KOs.Net.Ports
import KOs.Net.Tcp
import KOs.Sync.Locking

namespace KOs.Net.Spin

open KOs.Data KOs.Data.LockCode KOs.Sync.Spin

/-! The locks of `net/packet.c`, `net/ip/arp.c`, `net/socket.c`, `net/ip/tcp.c` and of `time_tick`.

Other processors run meanwhile, and so a callback is given what it finds when it gets there.
`tcp_open`, `inet_find` and `rand32` take no locks.
-/

/-! Packets, `net/packet.c`, and the link layer below. -/

/-- `tcp_callback`; both kinds of data have their lock in the same place. -/
def tcpCallback : Code :=
  oneOf [holding .tcpConn [oneOf [skip, semaphoreUp]], holding .tcpListen [oneOf [skip, semaphoreUp]]]

/-- The callback of a packet that a connection has sent. -/
def connCallback : Code := holding .tcpConn [oneOf [skip, semaphoreUp]]

def udpCallback : Code := semaphoreUp

def packetCreate : Code := kmalloc

/-- With the callback of the packet; there are four buffers and the packet to free. -/
def packetDestroy (callback : Code) : Code := steps [callback, kfree, kfree, kfree, kfree, kfree]

def ethBuildHdr : Code := kmalloc

def net825xxSend (callback : Code) : Code := steps [loop sleep, packetDestroy callback]

/-- `packet_send` of a packet that is `PSTATE_RESOLVED`. -/
def packetSendResolved (callback : Code) : Code :=
  oneOf [steps [ethBuildHdr, net825xxSend callback], packetDestroy callback]

/-! Address resolution, `net/ip/arp.c`. -/

structure ArpCacheEntry where
  state : Arp.CacheState
  retrys : Int8
deriving DecidableEq, Repr

def arpRetrys : Int8 := 5

def arpBuild : Code := kmalloc

/-- What the watchdog does while it still asks. -/
def arpAskAgain : Code := steps [packetCreate, arpBuild, packetSendResolved skip, timerCreate]

/-- What it does when it gives up. -/
def arpGiveUp : Code := loop (packetDestroy (oneOf [skip, tcpCallback, udpCallback]))

/-- The packets of the list may have any callback. -/
def arpWatchdog (entry : ArpCacheEntry) : Code :=
  holding .arpCacheEntry
    [if entry.state = .unresolved then
      if entry.retrys + 1 ≥ arpRetrys then arpGiveUp else arpAskAgain
    else skip]

def arpCachePutUnresolved : Code := steps [kmalloc, arpWatchdog { state := .unresolved, retrys := -1 }]

/-- What `arp_resolve` finds for the address a packet goes to. -/
inductive Destination where
  | broadcast
  | known (entry : ArpCacheEntry)
  | unknown
deriving DecidableEq, Repr

/-- `arp_resolve`, for a packet with this callback.  An entry is not resolved before `arp_cache_lock` is released, and
with -1 in `retrys` it has no timer. -/
def arpResolve (callback : Code) : Destination → Code
  | .broadcast => packetSendResolved callback
  | .known entry =>
      holding .arpCacheLock [holding .arpCacheEntry [],
        match entry.state with
        | .unresolved => if entry.retrys = -1 then arpWatchdog entry else skip
        | .resolved => packetSendResolved callback]
  | .unknown => holding .arpCacheLock [arpCachePutUnresolved]

def arpResolveAny (callback : Code) : Code :=
  oneOf [arpResolve callback .broadcast, arpResolve callback (.known ⟨.unresolved, -1⟩),
    arpResolve callback (.known ⟨.unresolved, 0⟩), arpResolve callback (.known ⟨.resolved, 0⟩),
    arpResolve callback .unknown]

/-! TCP, `net/ip/tcp.c`. -/

def tcpBindPort : Code := holding .portLock []

def tcpUnbindPort : Code := holding .portLock []

def ipBuild : Code := steps [kmalloc, kmalloc]

def tcpBuild : Code := steps [kmalloc, ipBuild]

/-- `tcp_queue_send`, with what its `packet_send` does. -/
def tcpQueueSend (packetSend : Code) : Code :=
  steps [packetCreate, tcpBuild, release .tcpConn, packetSend, acquire .tcpConn]

def tcpQueueAdd (packetSend : Code) : Code := steps [kmalloc, tcpQueueSend packetSend]

/-- `_tcp_send_control`, for a socket that has an address or has none. -/
def tcpSendControl : Code := steps [packetCreate, oneOf [steps [tcpBuild, arpResolveAny skip], never]]

/-- A socket as `tcp_resend_syn` finds it; `tcp_connect` has given it an address. -/
structure SynSock where
  flags : Nat
  state : TcpState
  /-- What is found for the address of the peer. -/
  dst : Destination

def tcpResendSyn (sock : SynSock) : Code :=
  if hasFlag sock.flags sockFlagClosed || sock.state = .closed then skip
  else holding .tcpConn [tcpQueueAdd (arpResolve connCallback sock.dst)]

def tcpSockHandle : Code :=
  oneOf [skip, steps [tcpSendControl, semaphoreUp], semaphoreUp, steps [tcpSendControl, timerCreate],
    tcpSendControl, steps [semaphoreUp, oneOf [tcpSendControl, skip]]]

/-! Sockets, `net/socket.c`. -/

inductive SockProtocol where
  | tcp
  | udp
  | icmp
  | raw
deriving DecidableEq, Repr

structure SockFamily where
  find : Nat → Nat → Option SockProtocol

def udpBindPort : Code := holding .udpEphemeralLock []

def SockProtocol.open : SockProtocol → Code
  | .tcp => skip
  | .udp => steps [kmalloc, udpBindPort]
  | .icmp => skip
  | .raw => skip

def sockOpen (proto : SockProtocol) : Code := holding .familyLock [kmalloc, proto.open]

/-- With the words from `families[0]` on.  A word behind the array is taken for a family like those in it; what
the call of its `find` would do is left out. -/
def sockCreate (families : Nat → Option SockFamily) (family type protocol : Nat) : Code :=
  match families family with
  | none => acquire .familyLock
  | some found =>
      steps [holding .familyLock [],
        match found.find type protocol with
        | some proto => sockOpen proto
        | none => skip]

/-! The handlers of TCP. -/

/-- A new child: its socket, its address and data, its page, and its SYN and ACK. -/
def createChild : Code :=
  steps [sockOpen .tcp, kmalloc, kmalloc, allocPages,
    holding .tcpConn [oneOf [tcpQueueAdd (arpResolveAny connCallback), never], semaphoreUp]]

/-- `tcp_handle`: no socket, `private` is `NULL`, a listener with a child, without one or with an address that is not
there, or another socket. -/
def tcpHandle : Code :=
  steps [holding .portLock [],
    oneOf [skip, never, holding .tcpListen [oneOf [tcpSockHandle, createChild, skip, never]],
      holding .tcpConn [oneOf [tcpSockHandle, skip, never]]]]

/-- `tcp_close` of a socket that does not listen. -/
def tcpCloseConn : Code :=
  steps [acquire .tcpConn, oneOf [tcpSendControl, skip], oneOf [tcpUnbindPort, skip],
    release .tcpConn, acquire .tcpConn, release .tcpConn]

/-- `sock_close` of a child. -/
def sockCloseChild : Code := steps [oneOf [skip, tcpCloseConn], kfree]

/-- `tcp_close`: `private` is `NULL`, a listener with or without an address, or another socket. -/
def tcpClose : Code :=
  oneOf [never, holding .tcpListen [loop sockCloseChild, oneOf [tcpUnbindPort, never]], tcpCloseConn]

/-- From `accept_retry` to where `tcp_accept` has looked for a child. -/
def acceptLook : Code :=
  steps [release .portLock, trySemaphoreDownWhileCondition, acquire .portLock, holding .tcpListen []]

/-- `tcp_accept`: not listening or shut down, interrupted, or back with a child or an error; before that it has started
again for any number of times. -/
def tcpAccept : Code :=
  steps [acquire .portLock,
    oneOf [release .portLock,
      steps [loop acceptLook, release .portLock, oneOf [trySemaphoreDownWhileCondition, never]],
      steps [loop acceptLook, acceptLook, release .portLock]]]

def afInet : Nat := 1

/-- What `tcp_bind` does under `port_lock`, for a port in network order. -/
def tcpBindTake (ports : Ports.Table) (port : Nat) : Code :=
  let host := Ports.swapUint16 port
  let ephemeralPortOffset := wsub host Ports.ephemeralStart % Ports.portNum
  if (ports.portsSock port).isSome then skip
  else if host ≥ Ports.ephemeralStart then
    if ports.ephemeralNext = ephemeralPortOffset then tcpBindPort else skip
  else skip

def tcpBind (ports : Ports.Table) (family ip port : Nat) : Code :=
  if family = afInet then
    if ip ≠ Ports.ipAny then skip
    else holding .portLock [tcpBindTake ports port]
  else skip

/-! The tick, `time/timer.c`. -/

/-- The callbacks that the kernel registers. -/
inductive TimerCallback where
  | arpWatchdog (entry : ArpCacheEntry)
  | tcpResendSyn (sock : SynSock)
  | sleepCallback
  | endBeep

def TimerCallback.call : TimerCallback → Code
  | .arpWatchdog entry => Spin.arpWatchdog entry
  | .tcpResendSyn sock => Spin.tcpResendSyn sock
  | .sleepCallback => threadWake
  | .endBeep => Sync.Spin.endBeep

structure Timer where
  delta : Nat
  callback : TimerCallback

def expireLoop (left : Nat) : List Timer → Code
  | [] => skip
  | timer :: rest =>
      let diff := min timer.delta left
      if timer.delta - diff ≠ 0 then skip
      else steps [timer.callback.call, cacheFree, expireLoop (left - diff) rest]

def timeTick (now lastNow : Nat) (timers : List Timer) : Code :=
  holding .timerLock [uptime, expireLoop (wsub now lastNow) timers]

end KOs.Net.Spin

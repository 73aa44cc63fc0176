import KOs.Common.Fault
import KOs.Data.Thread
import KOs.Data.Transition
import KOs.Data.Word

namespace KOs.Net.Ports

open KOs.Common KOs.Data

/-! The ports of TCP, from `net/ip/tcp.c`, and the calls of `net/socket.c` that take and release
them.

Sockets are numbered as they are opened.  A port is in host order where it is an index and in network
order where an address holds it.  The tables are used under `port_lock`.  The sockets of incoming
connections take no port and are left out.
-/

def freelistEnd : Nat := wordSize - 1

def portMax : Nat := 65535
def portNum : Nat := portMax + 1

def ephemeralStart : Nat := 49152
def ephemeralEnd : Nat := 65535
def ephemeralNum : Nat := (ephemeralEnd - ephemeralStart) + 1

def ipAny : Nat := 0

def swapUint16 (val : Nat) : Nat := ((val <<< 8) % portNum) ||| (val >>> 8)

/-- What `sock->private` points to. -/
inductive SockData where
  | null
  | listen
  | conn
deriving DecidableEq, Repr

structure Sock where
  /-- The port of the address that `sock->local.addr` points to. -/
  localPort : Option Nat
  data : SockData
  bound : Bool
  listening : Bool
  connected : Bool
  shutRd : Bool
  shutWr : Bool
deriving DecidableEq, Repr

structure Table where
  portsSock : Nat → Option Nat
  ephemeralPortsNext : Nat → Nat
  ephemeralPortsPrev : Nat → Nat
  ephemeralNext : Nat
  socks : Nat → Option Sock
  opened : Nat
  /-- The ports that have been given to sockets that are still open. -/
  owned : List (Nat × Nat)

namespace Table

def setPortsSock (port : Nat) (sock : Option Nat) (s : Table) : Except Fault Table :=
  if port < portNum then .ok { s with portsSock := Function.update s.portsSock port sock }
  else .error (.outOfBounds "ports_sock" port)

def getNext (i : Nat) (s : Table) : Except Fault Nat :=
  if i < ephemeralNum then .ok (s.ephemeralPortsNext i) else .error (.outOfBounds "ephemeral_ports_next" i)

def getPrev (i : Nat) (s : Table) : Except Fault Nat :=
  if i < ephemeralNum then .ok (s.ephemeralPortsPrev i) else .error (.outOfBounds "ephemeral_ports_prev" i)

def setNext (i value : Nat) (s : Table) : Except Fault Table :=
  if i < ephemeralNum then .ok { s with ephemeralPortsNext := Function.update s.ephemeralPortsNext i value }
  else .error (.outOfBounds "ephemeral_ports_next" i)

def setPrev (i value : Nat) (s : Table) : Except Fault Table :=
  if i < ephemeralNum then .ok { s with ephemeralPortsPrev := Function.update s.ephemeralPortsPrev i value }
  else .error (.outOfBounds "ephemeral_ports_prev" i)

def setSock (id : Nat) (sock : Sock) (s : Table) : Table :=
  { s with socks := Function.update s.socks id (some sock) }

end Table

/-- Returns the port in network order. -/
def tcpBindPort (id : Nat) (s : Table) : Except Fault (Nat × Table) :=
  if s.ephemeralNext ≠ freelistEnd then do
    let port := s.ephemeralNext + ephemeralStart
    let s ← s.setPortsSock port (some id)
    let next ← s.getNext s.ephemeralNext
    return (swapUint16 port, { s with ephemeralNext := next, owned := (id, port) :: s.owned })
  else return (swapUint16 0, s)

def tcpUnbindPort (port : Nat) (s : Table) : Except Fault Table := do
  let port := swapUint16 port
  let s ← s.setPortsSock port none
  let s ← s.setPrev s.ephemeralNext (wsub port ephemeralStart)
  let s ← s.setNext (wsub port ephemeralStart) s.ephemeralNext
  return { s with ephemeralNext := wsub port ephemeralStart }

/-- Takes a port out of the list of the free ones, where it is not the first. -/
def unlink (offset : Nat) (s : Table) : Except Fault Table := do
  let next ← s.getNext offset
  let prev ← s.getPrev offset
  let s ← s.setPrev next prev
  let prev ← s.getPrev offset
  let next ← s.getNext offset
  s.setNext prev next

def takePort (id host : Nat) (s : Table) : Except Fault Table :=
  let offset := wsub host ephemeralStart % portNum
  if host ≥ ephemeralStart then
    -- `tcp_bind_port` waits for `port_lock`, which is held here.
    if s.ephemeralNext = offset then .error .unfinished
    else (s.setPortsSock host (some id)).bind (unlink offset)
  else s.setPortsSock host (some id)

/-- `tcp_bind` for an address of `AF_INET`. -/
def tcpBind (id ip port : Nat) (sock : Sock) (s : Table) : Except Fault (Bool × Table) :=
  if ip ≠ ipAny then .ok (false, s)
  else
    let sock := { sock with localPort := some port }
    let s := s.setSock id sock
    -- The index is the port in network order.
    if (s.portsSock port).isSome then .ok (false, s)
    else
      let host := swapUint16 port
      (takePort id host s).map (fun s =>
        (true, { s.setSock id { sock with bound := true } with owned := (id, host) :: s.owned }))

def sockBind (id ip port : Nat) (sock : Sock) (s : Table) : Except Fault (Bool × Table) :=
  if sock.shutRd && sock.shutWr then return (false, s)
  else if sock.bound then return (false, s)
  else if sock.listening then return (false, s)
  else if sock.connected then return (false, s)
  else tcpBind id ip port sock s

/-- `tcp_connect` up to its SYN. -/
def tcpConnect (id : Nat) (sock : Sock) (s : Table) : Except Fault Table := do
  let sock := { sock with data := .conn }
  if sock.bound then return s.setSock id sock
  else
    let (port, s) ← tcpBindPort id s
    return s.setSock id { sock with localPort := some port }

def sockConnect (id : Nat) (sock : Sock) (s : Table) : Except Fault Table :=
  if sock.connected then return s else tcpConnect id sock s

def tcpListen (id : Nat) (sock : Sock) (s : Table) : Except Fault Table := do
  let sock := { sock with data := .listen, listening := true }
  if sock.bound then return s.setSock id sock
  else
    -- The address that the port is stored in is not the one of the socket.
    let (_, s) ← tcpBindPort id s
    return s.setSock id sock

def sockListen (id : Nat) (sock : Sock) (s : Table) : Except Fault Table :=
  if sock.connected then return s else tcpListen id sock s

/-- `tcp_close` of a socket that is not a child. -/
def tcpClose (sock : Sock) (s : Table) : Except Fault Table :=
  if sock.listening then
    match sock.data, sock.localPort with
    | .listen, some port => tcpUnbindPort port s
    | .listen, none => .error (.outOfBounds "memory" 0)
    -- The data of a connection is not that of a listener.
    | _, _ => .error .strayEntry
  else
    match sock.data, sock.localPort with
    | .conn, some port => tcpUnbindPort port s
    | .conn, none => return s
    | .null, _ => .error (.outOfBounds "memory" 0)
    | .listen, _ => .error .strayEntry

def sockClose (id : Nat) (sock : Sock) (s : Table) : Except Fault Table := do
  let s ← tcpClose sock s
  return { s with socks := Function.update s.socks id none, owned := s.owned.filter (fun own => own.1 ≠ id) }

/-- A socket from `sock_alloc` and `tcp_open`. -/
def sockOpen (s : Table) : Table :=
  { s.setSock s.opened { localPort := none, data := .null, bound := false, listening := false, connected := false,
                         shutRd := false, shutWr := false } with opened := s.opened + 1 }

inductive PortEvent where
  | socket
  | bind (id ip port : Nat)
  | connect (id : Nat)
  | listen (id : Nat)
  /-- What becomes of the connection of the socket. -/
  | network (id : Nat) (connected shutRd shutWr : Bool)
  | close (id : Nat)

def ports : Machine Table PortEvent Fault where
  enabled event s :=
    match event with
    | .socket => true
    | .bind id _ port => (s.socks id).isSome && decide (port < portNum)
    | .connect id => (s.socks id).isSome
    | .listen id => (s.socks id).isSome
    | .network id _ _ _ => (s.socks id).isSome
    | .close id => (s.socks id).isSome
  perform event s :=
    match event with
    | .socket => .ok (sockOpen s)
    | .bind id ip port => (s.socks id).elim (.ok s) (fun sock => (sockBind id ip port sock s).map Prod.snd)
    | .connect id => (s.socks id).elim (.ok s) (fun sock => sockConnect id sock s)
    | .listen id => (s.socks id).elim (.ok s) (fun sock => sockListen id sock s)
    | .network id connected shutRd shutWr =>
        .ok ((s.socks id).elim s (fun sock => s.setSock id { sock with connected, shutRd, shutWr }))
    | .close id => (s.socks id).elim (.ok s) (fun sock => sockClose id sock s)

def ephemeralInit : Table where
  portsSock := fun _ => none
  ephemeralPortsNext := fun i => if i = ephemeralNum - 1 then freelistEnd else i + 1
  ephemeralPortsPrev := fun i => if i = 0 then freelistEnd else i - 1
  ephemeralNext := 0
  socks := fun _ => none
  opened := 0
  owned := []

/-! The ports of UDP, from `net/ip/udp.c`. -/

structure UdpTable where
  ephemeralPortsList : Nat → Nat
  ephemeralNext : Nat
  opened : Nat
  /-- The sockets that are open, each with its `local_port`. -/
  localPorts : List (Nat × Nat)

/-- `ephemeral_ports_list` is never filled. -/
def udpInit : UdpTable where
  ephemeralPortsList _ := 0
  ephemeralNext := ephemeralStart
  opened := 0
  localPorts := []

def udpBindPort (s : UdpTable) : Except Fault (Nat × UdpTable) :=
  if s.ephemeralNext ≠ freelistEnd then
    if s.ephemeralNext < ephemeralNum then
      .ok (swapUint16 (s.ephemeralNext % portNum),
        { s with ephemeralNext := s.ephemeralPortsList s.ephemeralNext })
    else .error (.outOfBounds "ephemeral_ports_list" s.ephemeralNext)
  else .ok (swapUint16 0, s)

def udpUnbindPort (port : Nat) (s : UdpTable) : Except Fault UdpTable :=
  if swapUint16 port < ephemeralNum then
    .ok { s with ephemeralPortsList := Function.update s.ephemeralPortsList (swapUint16 port) s.ephemeralNext
                 ephemeralNext := swapUint16 port }
  else .error (.outOfBounds "ephemeral_ports_list" (swapUint16 port))

inductive UdpEvent where
  | opens
  | closes (id : Nat)
deriving DecidableEq, Repr

def udpOpen (s : UdpTable) : Except Fault UdpTable := do
  let (port, s) ← udpBindPort s
  return { s with opened := s.opened + 1, localPorts := (s.opened, port) :: s.localPorts }

/-- A socket that is not open is not closed. -/
def udpClose (id : Nat) (s : UdpTable) : Except Fault UdpTable :=
  match s.localPorts.find? (fun sock => sock.1 = id) with
  | none => .ok s
  | some sock => udpUnbindPort sock.2 { s with localPorts := s.localPorts.erase sock }

def udpRun : List UdpEvent → UdpTable → Except Fault UdpTable
  | [], s => .ok s
  | .opens :: events, s => (udpOpen s).bind (udpRun events)
  | .closes id :: events, s => (udpClose id s).bind (udpRun events)

/-- The open sockets have ephemeral ports, each its own. -/
structure UdpTable.Sound (s : UdpTable) : Prop where
  ephemeral : ∀ sock ∈ s.localPorts, ephemeralStart ≤ swapUint16 sock.2 ∧ swapUint16 sock.2 ≤ ephemeralEnd
  apart : (s.localPorts.map Prod.snd).Nodup

theorem udpRun_init (events : List UdpEvent) : udpRun events udpInit =
    if UdpEvent.opens ∈ events then .error (.outOfBounds "ephemeral_ports_list" ephemeralStart) else .ok udpInit := by
  induction events with
  | nil => rfl
  | cons event _ ih =>
    cases event with
    | opens => simp only [List.mem_cons_self, if_true]; rfl
    | closes =>
      simp only [List.mem_cons, reduceCtorEq, false_or]
      exact ih

/-- The first index is the first port, which is behind the end of the array. -/
theorem udp_ports_iff (events : List UdpEvent) :
    (∃ s, udpRun events udpInit = .ok s ∧ s.Sound) ↔ UdpEvent.opens ∉ events := by
  rw [udpRun_init]
  split
  · simpa
  · simp only [Except.ok.injEq, exists_eq_left', *, not_false_eq_true, iff_true]
    exact ⟨by simp [udpInit], List.nodup_nil⟩

theorem udp_open_out_of_bounds : ephemeralNum = 16384 ∧
    udpRun [.opens] udpInit = .error (.outOfBounds "ephemeral_ports_list" 49152) := ⟨rfl, rfl⟩

end KOs.Net.Ports

import KOs.Data.Flags
import KOs.Data.Transition
import KOs.Data.Word
import KOs.Mm.Frames

namespace KOs.Net

open KOs.Common KOs.Data

/-! A connection of `net/ip/tcp.c`.

A `Conn` is a `sock_t` with its `tcp_data_conn_t`, whose peer is of family `AF_INET`.  A function
runs under the lock of the connection, but for the moment in which `tcp_queue_send` hands over its
packet, after which nothing is read or written: each is one step.  Headers, checksums, the interface
and the ports are left out.
-/

def sockFlagClosed : Nat := 1 <<< 0

def sockFlagConnected : Nat := 1 <<< 1

def sockFlagShutRd : Nat := 1 <<< 2

def sockFlagShutWr : Nat := 1 <<< 3

def sockFlagShutRdwr : Nat := sockFlagShutRd ||| sockFlagShutWr

def tcpFlagAck : Nat := 1 <<< 12

def tcpFlagRst : Nat := 1 <<< 10

def tcpFlagSyn : Nat := 1 <<< 9

def tcpFlagFin : Nat := 1 <<< 8

def tcpSynRetrys : Nat := 5

inductive TcpState where
  | retry
  | synSent
  | synRecieved
  | established
  | finWaitA
  | finWaitB
  | closed
deriving DecidableEq, Repr

def swapUint32 (val : Nat) : Nat :=
  let val := ((val <<< 8) &&& 0xFF00FF00) ||| ((val >>> 8) &&& 0xFF00FF)
  ((val <<< 16) % wordSize) ||| (val >>> 16)

/-- A segment as `tcp_handle` finds it: `seqNum` and `ackNum` in host order, and in
`raw` what follows the fixed part of the header in the packet. -/
structure Segment where
  seqNum : Nat
  ackNum : Nat
  dataOffFlags : Nat
  windowSize : Nat
  totalLength : Nat
  raw : List UInt8
deriving DecidableEq, Repr

namespace Segment

def dataOff (seg : Segment) : Nat := (seg.dataOffFlags &&& 0x00F0) >>> 4

/-- `len` as `tcp_handle` computes it, for an IP header of 20 bytes. -/
def len (seg : Segment) : Nat := (seg.totalLength + 2 ^ 16 - (20 + seg.dataOff * 4)) % 2 ^ 16

def has (seg : Segment) (mask : Nat) : Bool := hasFlag seg.dataOffFlags mask

def optionsLength (seg : Segment) : Nat := seg.dataOff * 4 - 20

def payload (seg : Segment) : List UInt8 := seg.raw.drop seg.optionsLength

/-- The lengths agree with the packet.  `tcp_handle` does not check it; where they do not, it reads behind the
packet, and the machines below do not go on with what is there. -/
def valid (seg : Segment) : Bool :=
  decide (5 ≤ seg.dataOff) && decide (seg.optionsLength ≤ seg.raw.length) &&
    decide (seg.totalLength = 40 + seg.raw.length) && decide (seg.totalLength < 2 ^ 16) &&
    decide (seg.seqNum < wordSize) && decide (seg.ackNum < wordSize)

end Segment

structure Pending where
  seqNum : Nat
  flags : Nat
  windowSize : Nat
  payload : List UInt8
deriving DecidableEq, Repr

/-- What goes into the header of a packet that is sent, the numbers in host order, and the
buffer that `packet_create` is given. -/
structure Packet where
  seqNum : Nat
  ackNum : Nat
  flags : Nat
  windowSize : Nat
  payload : List UInt8
deriving DecidableEq, Repr

/-- The payload of `packet_create`, whose `len` is a `uint16_t`. -/
def packetPayload (buff : List UInt8) : List UInt8 := buff.take (buff.length % 2 ^ 16)

def Packet.carried (packet : Packet) : List UInt8 := packetPayload packet.payload

/-- An access to `recv_buff`: of byte `offset` of `raw`, or by a reader. -/
inductive Access where
  | write (offset index : Nat)
  | read (index : Nat)
deriving DecidableEq, Repr

def Access.index : Access → Nat
  | .write _ index => index
  | .read index => index

/-- Whether an access has put a byte of the payload into a buffer of this size, for a
header with so many bytes of options. -/
def Access.stores (size options : Nat) : Access → Bool
  | .write offset index => decide (index < size) && decide (options ≤ offset)
  | .read _ => false

structure Conn where
  flags : Nat
  state : TcpState
  nextLocalSeq : Nat
  nextPeerSeq : Nat
  recvBuff : List UInt8
  recvBuffFront : Nat
  recvBuffBack : Nat
  recvBuffSize : Nat
  retrys : Nat
  recvSemaphore : Nat
  /-- How often `established_semaphore` has been upped. -/
  establishedSemaphore : Nat
  queue : List Pending
  /-- The timers that will call `tcp_resend_syn`. -/
  timers : Nat
  /-- The packets sent so far, newest first. -/
  sent : List Packet
  /-- The accesses to `recv_buff` so far, newest first. -/
  accesses : List Access

namespace Conn

def has (c : Conn) (mask : Nat) : Bool := hasFlag c.flags mask

def setFlag (c : Conn) (mask : Nat) : Conn := { c with flags := c.flags ||| mask }

end Conn

/-- `tcp_callback`, with whether the result of the packet is `PRESULT_SUCCESS`. -/
def tcpCallback (success : Bool) (c : Conn) : Conn :=
  if c.state = .synSent && !success then
    { c with state := .closed, establishedSemaphore := c.establishedSemaphore + 1 }
  else c

/-- `tcp_reset`, with the number that `rand32` returns. -/
def tcpReset (rand : Nat) (c : Conn) : Conn :=
  { c with nextLocalSeq := rand
           nextPeerSeq := 0
           recvBuffFront := 0
           recvBuffBack := wsub 0 1
           recvBuffSize := Mm.pageSize }

def tcpQueueSend (pending : Pending) (c : Conn) : Conn :=
  let ackNum := if hasFlag pending.flags tcpFlagAck then c.nextPeerSeq else 0
  { c with sent := { seqNum := swapUint32 pending.seqNum, ackNum, flags := pending.flags,
                     windowSize := pending.windowSize, payload := pending.payload } :: c.sent }

def tcpQueueAdd (flags windowSize : Nat) (payload : List UInt8) (c : Conn) : Conn :=
  let pending := { seqNum := swapUint32 c.nextLocalSeq, flags, windowSize, payload }
  let taken := payload.length + if hasFlag flags tcpFlagSyn then 1 else 0
  tcpQueueSend pending { c with nextLocalSeq := wadd c.nextLocalSeq taken
                                queue := c.queue ++ [pending] }

def tcpSendControl (flags windowSize : Nat) (c : Conn) : Conn :=
  { c with sent := { seqNum := c.nextLocalSeq, ackNum := c.nextPeerSeq, flags, windowSize,
                     payload := [] } :: c.sent }

def tcpSendAck (windowSize : Nat) (c : Conn) : Conn := tcpSendControl tcpFlagAck windowSize c

def tcpSendRst (windowSize : Nat) (c : Conn) : Conn :=
  tcpSendControl (tcpFlagRst ||| tcpFlagAck) windowSize c

/-- `tcp_resend_syn`, called by a timer. -/
def tcpResendSyn (c : Conn) : Conn :=
  let c := { c with timers := c.timers - 1 }
  if c.has sockFlagClosed || c.state = .closed then c
  else tcpQueueAdd tcpFlagSyn 14600 [] { c with state := .synSent }

/-- `tcp_ack_recieved`; the numbers of the queue are in network order, `ackNum` is not. -/
def tcpAckRecieved (seg : Segment) (c : Conn) : Conn :=
  let acked := c.queue.takeWhile (fun pending => !decide (pending.seqNum ≥ seg.ackNum))
  let state := if acked.any (fun pending => hasFlag pending.flags tcpFlagFin) then .finWaitB else c.state
  { c with state, queue := c.queue.drop acked.length }

def handleSynSent (rand : Nat) (seg : Segment) (c : Conn) : Conn :=
  if seg.has tcpFlagAck && seg.has tcpFlagSyn then
    let c := tcpAckRecieved seg c
    let c := { c with state := .established, nextPeerSeq := wadd seg.seqNum (seg.len + 1) }
    let c := tcpSendAck seg.windowSize (c.setFlag sockFlagConnected)
    { c with establishedSemaphore := c.establishedSemaphore + 1 }
  else
    let c := { c with retrys := (c.retrys + 1) % 2 ^ 8 }
    if c.retrys > tcpSynRetrys then
      { c with state := .closed, establishedSemaphore := c.establishedSemaphore + 1 }
    else
      let c := tcpReset rand (tcpSendRst seg.windowSize c)
      { c with state := .retry, timers := c.timers + 1 }

def handleSynRecieved (seg : Segment) (c : Conn) : Conn :=
  if c.nextPeerSeq = seg.seqNum && seg.has tcpFlagAck && !seg.has tcpFlagSyn then
    if seg.ackNum ≠ c.nextLocalSeq then c
    else { c with state := .established }.setFlag sockFlagConnected
  else c

/-- One turn of the copy loop, for byte `offset` of `raw`. -/
def storeByte (offset : Nat) (byte : UInt8) (c : Conn) : Conn :=
  { c with recvBuff := c.recvBuff.set c.recvBuffFront byte
           recvBuffFront := wadd c.recvBuffFront 1
           accesses := .write offset c.recvBuffFront :: c.accesses }

/-- The copy loop, from byte `offset` of `raw` on. -/
def storeLoop : Nat → List UInt8 → Conn → Conn
  | _, [], c => c
  | offset, byte :: bytes, c =>
      if c.recvBuffFront = wsub c.recvBuffBack 1 then c
      else storeLoop (offset + 1) bytes (storeByte offset byte c)

def storePayload (seg : Segment) (c : Conn) : Conn :=
  if !c.has sockFlagShutRd then
    if c.recvBuffFront ≠ wsub c.recvBuffBack 1 then storeLoop 0 (seg.raw.take seg.len) c else c
  else c

/-- What is done with the payload of a segment in sequence. -/
def acceptPayload (seg : Segment) (c : Conn) : Conn :=
  let c := storePayload seg { c with nextPeerSeq := wadd seg.seqNum seg.len }
  { c with recvSemaphore := c.recvSemaphore + 1 }

def handleFlags (seg : Segment) (c : Conn) : Conn :=
  let c := if seg.has tcpFlagFin then c.setFlag sockFlagShutRd else c
  let c := if seg.has tcpFlagRst || c.has sockFlagShutRdwr then { c with state := .closed } else c
  if seg.len > 0 || seg.has (tcpFlagSyn ||| tcpFlagFin) then tcpSendAck seg.windowSize c else c

def handleEstablished (seg : Segment) (c : Conn) : Conn :=
  let c := if seg.has tcpFlagAck then tcpAckRecieved seg c else c
  if seg.len > 0 then
    if c.nextPeerSeq > seg.seqNum then c
    else if c.nextPeerSeq < seg.seqNum then tcpSendAck seg.windowSize c
    else handleFlags seg (acceptPayload seg c)
  else handleFlags seg c

def tcpSockHandle (rand : Nat) (seg : Segment) (c : Conn) : Conn :=
  match c.state with
  | .synSent => handleSynSent rand seg c
  | .synRecieved => handleSynRecieved seg c
  | .finWaitA => handleEstablished seg c
  | .finWaitB => handleEstablished seg c
  | .established => handleEstablished seg c
  | .retry => c
  | .closed => c

/-- `tcp_connect` up to its wait, with the random number and the page it gets. -/
def tcpConnect (flags rand : Nat) (page : List UInt8) : Conn :=
  tcpQueueAdd tcpFlagSyn 14600 [] (tcpReset rand
    { flags, state := .synSent, nextLocalSeq := 0, nextPeerSeq := 0, recvBuff := page,
      recvBuffFront := 0, recvBuffBack := 0, recvBuffSize := 0, retrys := 0, recvSemaphore := 0,
      establishedSemaphore := 0, queue := [], timers := 0, sent := [], accesses := [] })

def shutRd : Nat := 1

def shutRdwr : Nat := 2

def shutWr : Nat := 3

def tcpShutdown (how : Nat) (c : Conn) : Conn :=
  let c := if hasFlag how sockFlagShutRd then c.setFlag sockFlagShutRd else c
  if hasFlag how sockFlagShutWr then
    tcpQueueAdd (tcpFlagFin ||| tcpFlagAck) 14600 [] { c.setFlag sockFlagShutWr with state := .finWaitA }
  else c

def shutBits (how : Nat) : Nat :=
  if how = shutRd then sockFlagShutRd
  else if how = shutWr then sockFlagShutWr
  else if how = shutRdwr then sockFlagShutRd ||| sockFlagShutWr
  else 0

/-- Bits which have already been set are ignored. -/
def newBits (bits : Nat) (c : Conn) : Nat :=
  let bits := if c.has sockFlagShutRd then clearFlag bits sockFlagShutRd else bits
  if c.has sockFlagShutWr then clearFlag bits sockFlagShutWr else bits

def sockShutdown (how : Nat) (c : Conn) : Conn × Bool :=
  if !c.has sockFlagConnected then (c, false)
  else if how > 3 then (c, false)
  else if shutBits how = 0 then (c, true)
  else (tcpShutdown (newBits (shutBits how) c) c, true)

/-- The `uint32_t` that `-1` is returned as. -/
def errorReturn : Nat := wsub 0 1

def tcpSend (buff : List UInt8) (c : Conn) : Conn × Nat :=
  if c.state = .closed then (c, errorReturn)
  else if c.has sockFlagShutWr then (c, errorReturn)
  else (tcpQueueAdd tcpFlagAck 14600 buff c, buff.length)

def sockSend (buff : List UInt8) (c : Conn) : Conn × Nat :=
  if c.has sockFlagConnected then tcpSend buff c else (c, errorReturn)

/-- The loop of `tcp_recv` for `n` more bytes, until it has them or finds the buffer
empty. -/
def recvLoop : Nat → Conn → List UInt8 → Conn × List UInt8
  | 0, c, bytes => (c, bytes)
  | n + 1, c, bytes =>
      if wadd c.recvBuffBack 1 = c.recvBuffFront then (c, bytes)
      else
        let back := wadd c.recvBuffBack 1 % c.recvBuffSize
        recvLoop n { c with recvBuffBack := back, accesses := .read back :: c.accesses }
          (bytes ++ [c.recvBuff.getD back 0])

/-- A call of `tcp_recv` that has copied `bytes` so far. -/
structure Reader where
  len : Nat
  bytes : List UInt8
deriving DecidableEq, Repr

/-- How a call of `tcp_recv` goes on. -/
inductive Recv where
  | returns (bytes : List UInt8)
  | fails
  /-- The call waits for `recv_semaphore`. -/
  | waits (reader : Reader)
  /-- The call loops forever, after as many bytes as `-1` stands for. -/
  | hangs
deriving DecidableEq, Repr

def recvReturn (bytes : List UInt8) : Recv :=
  if bytes.length = errorReturn then .hangs else .returns bytes

/-- From the loop on; `retry` is reached again only with the lock taken again. -/
def recvFrom (reader : Reader) (c : Conn) : Conn × Recv :=
  let (c, bytes) := recvLoop (reader.len - reader.bytes.length) c reader.bytes
  if bytes.length = reader.len then (c, recvReturn bytes)
  else if c.has sockFlagShutRd then (c, recvReturn bytes)
  else (c, .waits { reader with bytes })

def tcpRecv (len : Nat) (c : Conn) : Conn × Recv :=
  if wadd c.recvBuffBack 1 = c.recvBuffFront && c.state = .closed then (c, .fails)
  else recvFrom { len, bytes := [] } c

def sockRecv (len : Nat) (c : Conn) : Conn × Recv :=
  if c.has sockFlagConnected then tcpRecv len c else (c, .fails)

def recvResume (reader : Reader) (c : Conn) : Conn × Recv :=
  let c := { c with recvSemaphore := c.recvSemaphore - 1 }
  if c.has sockFlagShutRd then (c, recvReturn reader.bytes) else recvFrom reader c

/-! A connection in use, by one reader at a time. -/

def TcpState.transfers : TcpState → Bool
  | .established => true
  | .finWaitA => true
  | .finWaitB => true
  | _ => false

/-- The segment has a payload and is the next one in sequence. -/
def Conn.accepts (c : Conn) (seg : Segment) : Bool :=
  c.state.transfers && decide (0 < seg.len) && decide (c.nextPeerSeq = seg.seqNum)

/-- `tcp_sock_handle` gets to the end of its case, where it looks at FIN and RST. -/
def Conn.examines (c : Conn) (seg : Segment) : Bool :=
  c.state.transfers && (decide (seg.len = 0) || decide (c.nextPeerSeq = seg.seqNum))

/-- The bytes of the payload that are stored in `recv_buff` from `c` to `c'`. -/
def payloadStored (seg : Segment) (c c' : Conn) : Nat :=
  (c'.accesses.take (c'.accesses.length - c.accesses.length)).countP
    (Access.stores c.recvBuffSize seg.optionsLength)

structure Session where
  conn : Conn
  /-- The call of `tcp_recv` that waits. -/
  reader : Option Reader
  /-- What the calls of `tcp_recv` have returned so far. -/
  returned : List UInt8
  /-- The payloads that have been accepted in sequence. -/
  accepted : List UInt8
  /-- The bytes of payloads that have been stored in `recv_buff`. -/
  stored : Nat
  /-- A RST has been examined. -/
  rst : Bool

namespace Session

def start (c : Conn) : Session :=
  { conn := c, reader := none, returned := [], accepted := [], stored := 0, rst := false }

def received (s : Session) (result : Conn × Recv) : Except Fault Session :=
  let s := { s with conn := result.1 }
  match result.2 with
  | .returns bytes => .ok { s with reader := none, returned := s.returned ++ bytes }
  | .fails => .ok { s with reader := none }
  | .waits reader => .ok { s with reader := some reader }
  | .hangs => .error .unfinished

def segment (s : Session) (seg : Segment) : Session :=
  { s with conn := tcpSockHandle 0 seg s.conn
           accepted := if s.conn.accepts seg then s.accepted ++ seg.payload else s.accepted
           stored := s.stored + payloadStored seg s.conn (tcpSockHandle 0 seg s.conn)
           rst := s.rst || s.conn.examines seg && seg.has tcpFlagRst }

end Session

inductive SessionEvent where
  | segment (seg : Segment)
  | recv (len : Nat)
  /-- The waiting call of `tcp_recv` gets past its semaphore. -/
  | wake
  | send (buff : List UInt8)
  | shutdown (how : Nat)
deriving DecidableEq, Repr

def sessions : Machine Session SessionEvent Fault where
  enabled event s :=
    match event with
    | .segment seg => seg.valid
    | .recv len => s.reader.isNone && decide (len < wordSize)
    | .wake => s.reader.isSome && decide (0 < s.conn.recvSemaphore)
    | .send buff => decide (buff.length < wordSize)
    | .shutdown _ => true
  perform event s :=
    match event with
    | .segment seg => .ok (s.segment seg)
    | .recv len => s.received (sockRecv len s.conn)
    | .wake =>
        match s.reader with
        | some reader => s.received (recvResume reader s.conn)
        | none => .ok s
    | .send buff => .ok { s with conn := (sockSend buff s.conn).1 }
    | .shutdown how => .ok { s with conn := (sockShutdown how s.conn).1 }

end KOs.Net

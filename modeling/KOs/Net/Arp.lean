import KOs.Common.Hashtable
import KOs.Data.Transition
import Mathlib.Logic.Function.Basic

namespace KOs.Net.Arp

open KOs.Common KOs.Data

/-! Address resolution, `net/ip/arp.c`, and the `packet_send` that asks for it.

An entry of the cache is numbered by its address, and none is ever freed.  `arp_cache_store` and an
expiry of a timer are one step each: outside of the lock of the entry only one in `CACHE_RESOLVED` is
touched, for which `arp_watchdog` does nothing.  `arp_resolve` lets go of that lock between queueing a
packet and looking at `retrys`, and timers may expire in between.  What is resolved is sent at once.
-/

abbrev Ip := UInt32

abbrev Mac := BitVec 48

def ipBroadcast : Ip := 0xFFFFFFFF

def macBroadcast : Mac := 0xFFFFFFFFFFFF

def arpRetrys : Int := 5

/-- `HASHTABLE_BITS(arp_cache)`: the table is defined with 5, which gives it 16 chains. -/
def arpCacheBits : Nat := 4

inductive PacketState where
  | unresolved
  | resolved
deriving DecidableEq, Repr

inductive PacketResult where
  | success
  | unknownhost
deriving DecidableEq, Repr

/-- `sock_addr_t`, of the family `AF_INET` or `AF_LINK`. -/
inductive Address where
  | inet (ip : Ip)
  | link (mac : Mac)
deriving DecidableEq, Repr

structure Packet where
  /-- How many packets had been submitted before this one. -/
  id : Nat
  state : PacketState
  result : PacketResult
  dst : Address
deriving DecidableEq, Repr

inductive CacheState where
  | unresolved
  | resolved
deriving DecidableEq, Repr

structure ArpCacheEntry where
  ip : Ip
  mac : Mac
  state : CacheState
  retrys : Int
  pending : List Packet
deriving DecidableEq, Repr

structure Cache where
  entries : Nat → ArpCacheEntry
  made : Nat
  arpCache : Nat → List Nat
  /-- The entries of the timers that are active. -/
  timers : List Nat
  /-- The entry on which a call of `arp_resolve` has queued its packet and not yet looked at `retrys`. -/
  watching : Option Nat
  /-- Where the packets submitted are for. -/
  submitted : List Ip
  /-- The packets that have been sent or destroyed, in order, as they were then. -/
  completed : List Packet
  /-- The addresses that have been asked for. -/
  requests : List Ip

def bucket (ip : Ip) : Nat := hash32 ip.toNat arpCacheBits

namespace Cache

def setEntry (e : Nat) (entry : ArpCacheEntry) (s : Cache) : Cache :=
  { s with entries := Function.update s.entries e entry }

/-- `packet_send` of packets that are resolved, one after the other. -/
def complete (packets : List Packet) (s : Cache) : Cache :=
  { s with completed := s.completed ++ packets }

/-- `hashtable_add` of an entry behind `kmalloc`. -/
def add (entry : ArpCacheEntry) (s : Cache) : Cache :=
  { s with
    entries := Function.update s.entries s.made entry
    made := s.made + 1
    arpCache := Function.update s.arpCache (bucket entry.ip) (s.made :: s.arpCache (bucket entry.ip)) }

end Cache

def Packet.resolve (mac : Mac) (packet : Packet) : Packet :=
  { packet with dst := .link mac, state := .resolved }

def Packet.fail (packet : Packet) : Packet :=
  { packet with state := .resolved, result := .unknownhost }

def arpCacheFind (ip : Ip) (s : Cache) : Option Nat :=
  (s.arpCache (bucket ip)).find? (fun e => (s.entries e).ip = ip)

def arpWatchdog (e : Nat) (s : Cache) : Cache :=
  let entry := s.entries e
  if entry.state = .unresolved then
    let retrys := entry.retrys + 1
    if retrys ≥ arpRetrys then
      (s.complete (entry.pending.map Packet.fail)).setEntry e { entry with retrys := -1, pending := [] }
    else
      let s := s.setEntry e { entry with retrys }
      { s with requests := s.requests ++ [entry.ip], timers := e :: s.timers }
  else s

/-- `retrys` is left as `kmalloc` returns it; it is not read once an entry is resolved. -/
def arpCachePutResolved (ip : Ip) (mac : Mac) (s : Cache) : Cache :=
  s.add { ip, mac, state := .resolved, retrys := 0, pending := [] }

/-- `mac` is left as `kmalloc` returns it; it is not read before an entry is resolved. -/
def arpCachePutUnresolved (ip : Ip) (packet : Packet) (s : Cache) : Cache :=
  arpWatchdog s.made (s.add { ip, mac := 0, state := .unresolved, retrys := -1, pending := [packet] })

/-- `arp_resolve` up to where it has let go of the lock of the entry. -/
def arpResolve (ip : Ip) (packet : Packet) (s : Cache) : Cache :=
  if ip = ipBroadcast then s.complete [packet.resolve macBroadcast]
  else
    match arpCacheFind ip s with
    | some e =>
        let entry := s.entries e
        match entry.state with
        | .unresolved => { s.setEntry e { entry with pending := packet :: entry.pending } with watching := some e }
        | .resolved => s.complete [packet.resolve entry.mac]
    | none => arpCachePutUnresolved ip packet s

/-- The end of `arp_resolve` for a packet that has been queued. -/
def arpResolveWatch (e : Nat) (s : Cache) : Cache :=
  let s := { s with watching := none }
  if (s.entries e).retrys = -1 then arpWatchdog e s else s

def arpCacheStore (mac : Mac) (ip : Ip) (s : Cache) : Cache :=
  match arpCacheFind ip s with
  | some e =>
      let entry := s.entries e
      match entry.state with
      -- The list keeps the packets that are sent from it.
      | .unresolved => (s.setEntry e { entry with state := .resolved, mac }).complete (entry.pending.map (Packet.resolve mac))
      | .resolved => s
  | none => arpCachePutResolved ip mac s

def packetSend (packet : Packet) (s : Cache) : Except Fault Cache :=
  match packet.state with
  | .unresolved =>
      -- `eth_resolve`
      match packet.dst with
      | .inet ip => .ok (arpResolve ip packet s)
      | .link _ => .error (.bug "src/net/eth/eth.c" 19)
  | .resolved => .ok (s.complete [packet])

def submit (ip : Ip) (s : Cache) : Except Fault Cache :=
  packetSend { id := s.submitted.length, state := .unresolved, result := .success, dst := .inet ip }
    { s with submitted := s.submitted ++ [ip] }

inductive ArpEvent where
  | send (ip : Ip)
  /-- The `arp_resolve` that is under way goes on. -/
  | watch (e : Nat)
  | store (mac : Mac) (ip : Ip)
  | expire (e : Nat)

def arp : Machine Cache ArpEvent Fault where
  enabled event s :=
    match event with
    | .send _ => s.watching.isNone
    | .watch e => decide (s.watching = some e)
    | .store _ _ => s.watching.isNone
    | .expire e => decide (e ∈ s.timers)
  perform event s :=
    match event with
    | .send ip => submit ip s
    | .watch e => .ok (arpResolveWatch e s)
    | .store mac ip => .ok (arpCacheStore mac ip s)
    | .expire e => .ok (arpWatchdog e { s with timers := s.timers.erase e })

def arpInit : Cache :=
  { entries := fun _ => { ip := 0, mac := 0, state := .resolved, retrys := 0, pending := [] }
    made := 0
    arpCache := fun _ => []
    timers := []
    watching := none
    submitted := []
    completed := []
    requests := [] }

end KOs.Net.Arp

import KOs.Common.Fault
import KOs.Data.Loop

namespace KOs.Net.Dhcp

open KOs.Common KOs.Data

/-! The options of a DHCP packet, from `net/ip/dhcp.c`.

`packet` holds what follows the header; a pointer into it is the offset of a byte.
-/

def optPad : UInt8 := 0
def optSubnetMask : UInt8 := 1
def optRouter : UInt8 := 3
def optDns : UInt8 := 6
def optRequestedIpAddr : UInt8 := 50
def optLeaseTime : UInt8 := 51
def optMessageType : UInt8 := 53
def optServerId : UInt8 := 54
def optParameterRequest : UInt8 := 55
def optEnd : UInt8 := 255

/-- `dhcp_options_t`, in which `none` is a null pointer. -/
structure Options where
  subnetMask : Option Nat
  routerList : Option Nat
  routerLen : Nat
  dnsList : Option Nat
  dnsLen : Nat
  requestedIp : Option Nat
  lease : Nat
  messageType : Nat
  server : Option Nat
  paramList : Option Nat
  paramLen : Nat
deriving DecidableEq, Repr

def noOptions : Options where
  subnetMask := none
  routerList := none
  routerLen := 0
  dnsList := none
  dnsLen := 0
  requestedIp := none
  lease := 0
  messageType := 0
  server := none
  paramList := none
  paramLen := 0

/-- The loop of `dhcp_parse_options`; `verdict` is what it returns in a turn, with `true` for a `break`. -/
structure Scan where
  ptr : Nat
  opts : Options
  verdict : Option Bool
deriving DecidableEq, Repr

def readByte (packet : List UInt8) (ptr : Nat) : Except Fault UInt8 :=
  match packet[ptr]? with
  | some byte => .ok byte
  | none => .error (.outOfBounds "packet" ptr)

/-- `swap_uint32(*((uint32_t *) ptr))` -/
def readWord (packet : List UInt8) (ptr : Nat) : Except Fault Nat := do
  let a ← readByte packet ptr
  let b ← readByte packet (ptr + 1)
  let c ← readByte packet (ptr + 2)
  let d ← readByte packet (ptr + 3)
  return ((a.toNat * 256 + b.toNat) * 256 + c.toNat) * 256 + d.toNat

/-- An option with a value of four bytes, or with a list of such. -/
def Scan.address (scan : Scan) (optLen : Nat) (opts : Options) : Scan :=
  if optLen < 4 then { scan with verdict := some false } else { scan with ptr := scan.ptr + 4, opts }

def parseValue (packet : List UInt8) (opt : UInt8) (optLen : Nat) (scan : Scan) : Except Fault Scan :=
  let { ptr, opts, .. } := scan
  if opt = optMessageType then do
    let byte ← readByte packet ptr
    return { scan with ptr := ptr + 1, opts := { opts with messageType := byte.toNat } }
  else if opt = optSubnetMask then .ok (scan.address optLen { opts with subnetMask := some ptr })
  else if opt = optRouter then .ok (scan.address optLen { opts with routerList := some ptr, routerLen := optLen })
  else if opt = optDns then .ok (scan.address optLen { opts with dnsList := some ptr, dnsLen := optLen })
  else if opt = optRequestedIpAddr then .ok (scan.address optLen { opts with requestedIp := some ptr })
  else if opt = optServerId then .ok (scan.address optLen { opts with server := some ptr })
  else if opt = optLeaseTime then
    if optLen < 4 then .ok { scan with verdict := some false }
    else do
      let lease ← readWord packet ptr
      return { scan with ptr := ptr + 4, opts := { opts with lease } }
  else if opt = optParameterRequest then
    .ok { scan with ptr := ptr + 1, opts := { opts with paramList := some ptr, paramLen := optLen } }
  -- The times of renewal and rebinding are skipped like an option that is not known.
  else .ok { scan with ptr := ptr + optLen }

def parseTurn (packet : List UInt8) (scan : Scan) : Except Fault Scan := do
  let opt ← readByte packet scan.ptr
  let ptr := scan.ptr + 1
  if opt = optPad then return { scan with ptr }
  else if opt = optEnd then return { scan with ptr, verdict := some true }
  else if ptr + 1 ≥ packet.length then return { scan with ptr, verdict := some false }
  else
    let optLen ← readByte packet ptr
    let ptr := ptr + 1
    if ptr + optLen.toNat + 1 ≥ packet.length then return { scan with ptr, verdict := some false }
    else parseValue packet opt optLen.toNat { scan with ptr }

def parseGoes (packet : List UInt8) (scan : Scan) : Bool :=
  decide (scan.ptr < packet.length) && scan.verdict.isNone

def dhcpParseOptions (packet : List UInt8) : Except Fault (Bool × Options) := do
  let scan ← whileLoop (parseGoes packet) (parseTurn packet) .unfinished (packet.length + 1)
    { ptr := 0, opts := noOptions, verdict := none }
  return (scan.verdict.getD true, scan.opts)

/-- The pointers lead to bytes of the packet, with the lengths that are kept beside them. -/
structure Options.Inside (opts : Options) (len : Nat) : Prop where
  subnetMask : ∀ ptr ∈ opts.subnetMask, ptr + 4 ≤ len
  routerList : ∀ ptr ∈ opts.routerList, ptr + 4 ≤ len ∧ ptr + opts.routerLen ≤ len
  dnsList : ∀ ptr ∈ opts.dnsList, ptr + 4 ≤ len ∧ ptr + opts.dnsLen ≤ len
  requestedIp : ∀ ptr ∈ opts.requestedIp, ptr + 4 ≤ len
  server : ∀ ptr ∈ opts.server, ptr + 4 ≤ len
  paramList : ∀ ptr ∈ opts.paramList, ptr + opts.paramLen ≤ len

variable {packet : List UInt8} {scan : Scan} {optLen ptr : Nat}

theorem readByte_exists (inside : ptr < packet.length) : ∃ byte, readByte packet ptr = .ok byte := by
  simp [readByte, inside]

theorem readWord_exists (inside : ptr + 4 ≤ packet.length) : ∃ word, readWord packet ptr = .ok word := by
  obtain ⟨_, a⟩ := readByte_exists (show ptr < packet.length by omega)
  obtain ⟨_, b⟩ := readByte_exists (show ptr + 1 < packet.length by omega)
  obtain ⟨_, c⟩ := readByte_exists (show ptr + 2 < packet.length by omega)
  obtain ⟨_, d⟩ := readByte_exists (show ptr + 3 < packet.length by omega)
  simp [readWord, a, b, c, d]

/-- A turn has come this far. -/
structure Scan.Safe (len : Nat) (scan after : Scan) : Prop where
  further : scan.ptr ≤ after.ptr
  inside : after.opts.Inside len

theorem Scan.address_safe {len : Nat} {opts : Options} (inside : scan.opts.Inside len)
    (recorded : 4 ≤ optLen → opts.Inside len) : scan.Safe len (scan.address optLen opts) := by
  rw [Scan.address]
  split
  · exact ⟨le_rfl, inside⟩
  · exact ⟨Nat.le_add_right _ _, recorded (by omega)⟩

theorem ite_returns {p : Prop} [Decidable p] {a b : Except Fault Scan} {good : Scan → Prop}
    (first : ∃ after, a = .ok after ∧ good after) (second : ∃ after, b = .ok after ∧ good after) :
    ∃ after, (if p then a else b) = .ok after ∧ good after := by
  split
  · exact first
  · exact second

theorem parseValue_safe (opt : UInt8) (scan : Scan) (inside : scan.opts.Inside packet.length)
    (room : scan.ptr + optLen + 1 < packet.length) :
    ∃ after, parseValue packet opt optLen scan = .ok after ∧ scan.Safe packet.length after := by
  have here : ∀ ptr ∈ some scan.ptr, 4 ≤ optLen → ptr + 4 ≤ packet.length ∧ ptr + optLen ≤ packet.length := by
    intro ptr same long
    cases same
    omega
  apply ite_returns
  · obtain ⟨byte, read⟩ := readByte_exists (show scan.ptr < packet.length by omega)
    rw [read]
    exact ⟨_, rfl, Nat.le_succ _, { inside with }⟩
  apply ite_returns
  · exact ⟨_, rfl, scan.address_safe inside fun long => { inside with subnetMask := fun p h => (here p h long).1 }⟩
  apply ite_returns
  · exact ⟨_, rfl, scan.address_safe inside fun long => { inside with routerList := fun p h => here p h long }⟩
  apply ite_returns
  · exact ⟨_, rfl, scan.address_safe inside fun long => { inside with dnsList := fun p h => here p h long }⟩
  apply ite_returns
  · exact ⟨_, rfl, scan.address_safe inside fun long => { inside with requestedIp := fun p h => (here p h long).1 }⟩
  apply ite_returns
  · exact ⟨_, rfl, scan.address_safe inside fun long => { inside with server := fun p h => (here p h long).1 }⟩
  apply ite_returns
  · split
    · exact ⟨_, rfl, le_rfl, inside⟩
    · obtain ⟨word, read⟩ := readWord_exists (show scan.ptr + 4 ≤ packet.length by omega)
      rw [read]
      exact ⟨_, rfl, Nat.le_add_right _ _, { inside with }⟩
  apply ite_returns
  · refine ⟨_, rfl, Nat.le_succ _, { inside with paramList := ?_ }⟩
    intro ptr same
    cases same
    exact Nat.le_of_lt (Nat.lt_of_succ_lt room)
  · exact ⟨_, rfl, Nat.le_add_right _ _, inside⟩

/-- The length of an option has been checked before any branch looks at its value. -/
theorem parseTurn_safe (inside : scan.opts.Inside packet.length) (more : scan.ptr < packet.length) :
    ∃ after, parseTurn packet scan = .ok after ∧ after.opts.Inside packet.length ∧ scan.ptr < after.ptr := by
  obtain ⟨opt, read⟩ := readByte_exists more
  simp only [parseTurn, read, bind, Except.bind, pure, Except.pure]
  apply ite_returns
  · exact ⟨_, rfl, inside, Nat.lt_succ_self _⟩
  apply ite_returns
  · exact ⟨_, rfl, inside, Nat.lt_succ_self _⟩
  split
  · exact ⟨_, rfl, inside, Nat.lt_succ_self _⟩
  · obtain ⟨length, read⟩ := readByte_exists (show scan.ptr + 1 < packet.length by omega)
    simp only [read]
    split
    · exact ⟨_, rfl, inside, by dsimp only; omega⟩
    next long =>
      obtain ⟨after, parsed, safe⟩ := parseValue_safe opt { scan with ptr := scan.ptr + 1 + 1 } inside
        (not_le.mp long)
      exact ⟨after, parsed, safe.inside, Nat.lt_of_lt_of_le (by dsimp only; omega) safe.further⟩

/-- Whatever the packet holds, the parser ends, has read no byte outside of it, and has
recorded none. -/
theorem dhcp_options_inside (packet : List UInt8) : ∃ accepted opts,
    dhcpParseOptions packet = .ok (accepted, opts) ∧ opts.Inside packet.length := by
  have loop : ∃ scan, whileLoop (parseGoes packet) (parseTurn packet) .unfinished (packet.length + 1)
      { ptr := 0, opts := noOptions, verdict := none } = .ok scan ∧
      scan.opts.Inside packet.length ∧ parseGoes packet scan = false := by
    refine whileLoop_exists (fun scan => packet.length - scan.ptr) ⟨nofun, nofun, nofun, nofun, nofun, nofun⟩
      (Nat.lt_succ_self packet.length) ?_
    intro scan inside enters
    simp only [parseGoes, Bool.and_eq_true, decide_eq_true_eq] at enters
    obtain ⟨after, turned, inside, further⟩ := parseTurn_safe inside enters.1
    exact ⟨after, turned, inside, by omega⟩
  obtain ⟨scan, looped, inside, _⟩ := loop
  exact ⟨_, _, by rw [dhcpParseOptions, looped]; rfl, inside⟩

end KOs.Net.Dhcp

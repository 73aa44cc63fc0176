import KOs.Arch.Tables

namespace KOs.Arch.Paging

open KOs.Common KOs.Data KOs.Mm

/-! What the processor finds and writes behind an address, through `cr3`.

What is read from a frame of `kptab` are its entries, as `Kmap` has them, and a write changes them.
An address that is not mapped is a page fault, which the kernel does not come back from.
-/

/-- The table of `kptab` that a frame holds. -/
def kptabTable (frame : Nat) (s : Store) : Option Nat :=
  if s.kptabPhys / pageSize ≤ frame ∧ frame < s.kptabPhys / pageSize + kernelNumTables then
    some (frame - s.kptabPhys / pageSize)
  else none

def wordOfEntry (entry : PtabEntry) : BitVec 32 := BitVec.ofNat 20 entry.physaddr ++ BitVec.ofNat 12 entry.flags

def entryOfWord (word : BitVec 32) : PtabEntry := { flags := (flagsOf word).toNat, physaddr := (physaddrOf word).toNat }

def readFrame (frame index : Nat) (s : Store) : BitVec 32 :=
  match kptabTable frame s with
  | some table => wordOfEntry (s.kmap.kptab table index)
  | none => s.words frame index

def writeFrame (frame index : Nat) (word : BitVec 32) (s : Store) : Store :=
  match kptabTable frame s with
  | some table => { s with kernel.memory.kmap.kptab := putWord s.kmap.kptab table index (entryOfWord word) }
  | none => { s with words := putWord s.words frame index word }

def translate (cr3 virt : Nat) (s : Store) : Except Fault Nat :=
  let direntry := readFrame (cr3 / pageSize) (addrToDiridx virt) s
  let tabentry := readFrame (physaddrOf direntry).toNat (addrToTabidx virt) s
  if (flagsOf direntry).toNat &&& mmuflagPresent = 0 then .error (.outOfBounds "memory" virt)
  else if (flagsOf tabentry).toNat &&& mmuflagPresent = 0 then .error (.outOfBounds "memory" virt)
  else .ok (physaddrOf tabentry).toNat

def withByte (lane : Nat) (byte : UInt8) (word : BitVec 32) : BitVec 32 :=
  word &&& ~~~(BitVec.ofNat 32 0xFF <<< (8 * lane)) ||| BitVec.ofNat 32 byte.toNat <<< (8 * lane)

def writeByte (cr3 virt : Nat) (byte : UInt8) (s : Store) : Except Fault Store :=
  (translate cr3 virt s).map (fun frame =>
    writeFrame frame (getPageoff virt / 4) (withByte (virt % 4) byte (readFrame frame (getPageoff virt / 4) s)) s)

def writeBytes (cr3 : Nat) : Nat → List UInt8 → Store → Except Fault Store
  | _, [], s => .ok s
  | virt, byte :: rest, s => do
      let s ← writeByte cr3 virt byte s
      writeBytes cr3 ((virt + 1) % 2 ^ 32) rest s

def pointerBytes (value : Nat) : List UInt8 :=
  [UInt8.ofNat value, UInt8.ofNat (value / 2 ^ 8), UInt8.ofNat (value / 2 ^ 16), UInt8.ofNat (value / 2 ^ 24)]

def writePointer (cr3 virt value : Nat) (s : Store) : Except Fault Store := writeBytes cr3 virt (pointerBytes value) s

end KOs.Arch.Paging

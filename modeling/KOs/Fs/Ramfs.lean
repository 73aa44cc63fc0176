import KOs.Common.Fault
import KOs.Data.Circular
import KOs.Data.Loop
import KOs.Data.Word

namespace KOs.Fs

open KOs.Common KOs.Data

/-! The files of `fs/type/ramfs.c`.

A chunk is named by its place in the list of its record, which only grows at its
end.  Amounts and offsets are 32-bit numbers, also those of the type `ssize_t`.
-/

def chunkSize : Nat := 1024

structure Chunk where
  used : Nat
  buff : Nat → UInt8

/-- The record of a regular file, with `size` of its inode.  The buffers the cache
hands out are not cleared: `blank` is what the one of the next chunk holds. -/
structure Record where
  chunks : List Chunk
  size : Nat
  blank : Nat → Nat → UInt8

/-- `file_t`; the cursor is its `private`. -/
structure Handle where
  cursor : Option Nat
  offset : Nat
deriving DecidableEq, Repr

/-- The cells of the list: its head, and the one inside each chunk. -/
inductive ChunkCell where
  | head
  | chunk (c : Nat)
deriving DecidableEq

def nextCell (chunks : List Chunk) (c : Nat) : ChunkCell :=
  if c + 1 < chunks.length then .chunk (c + 1) else .head

/-- `list_is_last`, which compares the cell itself with the head. -/
def listIsLast (c : Nat) : Bool := ChunkCell.chunk c == ChunkCell.head

def listNext (chunks : List Chunk) (c : Nat) : Option Nat :=
  match nextCell chunks c with
  | .head => none
  | .chunk next => some next

def chunkAt (chunks : List Chunk) (c : Nat) : Except Fault Chunk :=
  match chunks[c]? with
  | some chunk => .ok chunk
  | none => .error .strayEntry

/-- `chunk_alloc`, after which the new chunk is the last one. -/
def chunkAlloc (r : Record) : Record :=
  { r with chunks := r.chunks ++ [{ used := 0, buff := r.blank r.chunks.length }] }

/-- The bytes that are copied out; their number is returned. -/
def chunkRead (c : Chunk) (len off : Nat) : Except Fault (List UInt8) := do
  bugOn (decide (c.used < off)) "src/fs/type/ramfs.c" 43
  return span c.buff off (min (wsub c.used off) len)

/-- `buff` has at least `len` bytes; those that are copied in are stored. -/
def chunkWrite (c : Chunk) (recordSize : Nat) (buff : List UInt8) (len off : Nat) :
    Except Fault (Chunk × Nat × Nat) := do
  bugOn (decide (chunkSize ≤ off)) "src/fs/type/ramfs.c" 52
  let len := min (wsub chunkSize off) len
  let used := max c.used (wadd off len)
  return ({ used, buff := store c.buff off (buff.take len) }, wadd recordSize (wsub used c.used), len)

/-- Where `file->private` goes when an operation ends behind `position` in chunk `c`. -/
def cursorAfter (chunks : List Chunk) (c position : Nat) : Option Nat :=
  if position % chunkSize ≠ 0 then some c else listNext chunks c

structure Reading where
  amt : Nat
  c : Option Nat
  cursor : Option Nat
  buff : List UInt8

def readGoes (len : Nat) (reading : Reading) : Bool :=
  wsub len reading.amt != 0 && reading.c.isSome

def readTurn (r : Record) (len off : Nat) (reading : Reading) : Except Fault Reading :=
  match reading.c with
  | none => .ok reading
  | some c => do
      let chunk ← chunkAt r.chunks c
      let bytes ← chunkRead chunk (wsub len reading.amt) (wadd off reading.amt % chunkSize)
      let amt := wadd reading.amt bytes.length
      let cursor :=
        if wsub len amt = 0 || listIsLast c then cursorAfter r.chunks c (wadd off amt)
        else reading.cursor
      return { amt, c := listNext r.chunks c, cursor, buff := reading.buff ++ bytes }

def recordRead (r : Record) (file : Handle) (len off : Nat) :
    Except Fault (Handle × Int × List UInt8) :=
  match file.cursor with
  | none => .ok (file, 0, [])
  | some c => do
      let done ← whileLoop (readGoes len) (readTurn r len off) .unfinished (r.chunks.length + 1)
        { amt := 0, c := some c, cursor := some c, buff := [] }
      return ({ cursor := done.cursor, offset := wadd file.offset done.amt }, signed done.amt, done.buff)

structure Writing where
  r : Record
  amt : Nat
  c : Option Nat
  cursor : Option Nat

def writeGoes (len : Nat) (writing : Writing) : Bool := wsub len writing.amt != 0

def chunkFor (r : Record) : Option Nat → Record × Nat
  | some c => (r, c)
  | none => (chunkAlloc r, r.chunks.length)

def writeTurn (buff : List UInt8) (len off : Nat) (writing : Writing) : Except Fault Writing := do
  let (r, c) := chunkFor writing.r writing.c
  let chunk ← chunkAt r.chunks c
  let (chunk, size, written) ← chunkWrite chunk r.size (buff.drop writing.amt)
    (wsub len writing.amt) (wadd off writing.amt % chunkSize)
  let r := { r with chunks := r.chunks.set c chunk, size }
  let amt := wadd writing.amt written
  if wsub len amt ≠ 0 then
    return { writing with r, amt, c := listNext r.chunks c }
  else
    return { r, amt, c := some c, cursor := cursorAfter r.chunks c (wadd off amt) }

def recordWrite (r : Record) (file : Handle) (buff : List UInt8) (len off : Nat) :
    Except Fault (Record × Handle × Int) := do
  let done ← whileLoop (writeGoes len) (writeTurn buff len off) .unfinished (len + 1)
    { r, amt := 0, c := file.cursor, cursor := file.cursor }
  return (done.r, { cursor := done.cursor, offset := wadd file.offset done.amt }, signed done.amt)

/-- `record_create`, in an inode of size 0. -/
def recordCreate (blank : Nat → Nat → UInt8) : Record where
  chunks := []
  size := 0
  blank

/-- `ramfs_file_open` on what `file_alloc` returns. -/
def ramfsFileOpen (r : Record) : Handle where
  cursor := if r.chunks.isEmpty then none else some 0
  offset := 0

def ramfsFileRead (r : Record) (file : Handle) (bytes : Nat) : Except Fault (Handle × Int × List UInt8) :=
  recordRead r file bytes file.offset

def ramfsFileWrite (r : Record) (file : Handle) (buff : List UInt8) :
    Except Fault (Record × Handle × Int) :=
  recordWrite r file buff buff.length file.offset

end KOs.Fs

import KOs.Data.Circular
import KOs.Fs.Vfs

namespace KOs.Fs

open KOs.Common KOs.Data

/-! The image of the root file system: `util/src/mkrootramfs.c` builds it, and
`fs/rootramfs.c` loads it.

Both programs declare the packed structures for themselves; they are of 4 bytes
(header and file record) and of 5 bytes (entry), with the words of an x86.
-/

def magic : List UInt8 := [75, 82, 70, 83]

def entryTypeDir : UInt8 := 1

def entryTypeFrecord : UInt8 := 2

def buffSize : Nat := 100 * 2 ^ 20

/-- `buff`, with the size that was given to `malloc`, and `off`. -/
structure Packer where
  buff : Nat → UInt8
  capacity : Nat
  off : Nat

namespace Packer

def put (packer : Packer) (address : Nat) (bytes : List UInt8) : Except Fault Packer :=
  if address + bytes.length ≤ packer.capacity then
    .ok { packer with buff := store packer.buff address bytes }
  else .error (.outOfBounds "buff" (address + bytes.length - 1))

def advance (packer : Packer) (amount : Nat) : Packer :=
  { packer with off := wadd packer.off amount }

end Packer

def headerAlloc (packer : Packer) : Except Fault Packer := do
  let packer ← packer.put packer.off magic
  return packer.advance 4

def entryAlloc (packer : Packer) (filepath : Name) (type : UInt8) : Except Fault Packer := do
  let e := packer.off
  let packer := packer.advance 5
  let packer ← packer.put e [type]
  let nameLen := filepath.length % wordSize
  let packer ← packer.put (e + 1) (wordBytes nameLen)
  let packer ← packer.put packer.off (filepath.take nameLen)
  return packer.advance nameLen

/-- The loop around `fread`, with what has not been read yet of the file. -/
structure Fread where
  packer : Packer
  b : Int
  unread : List UInt8
  skipped : Bool

/-- `fread` returns less than it was asked for only at the end of the file. -/
def freadTurn (size : Nat) (state : Fread) : Except Fault Fread := do
  let bytes := state.unread.take size
  let address := state.packer.off + state.b
  if address < 0 then .error (.outOfBounds "buff" 0)
  else
    let packer ← state.packer.put address.toNat bytes
    let ret := signed (bytes.length % wordSize)
    let unread := state.unread.drop size
    if ret = -1 then return { state with packer, unread, skipped := true }
    else return { state with packer, unread, b := state.b + ret }

def freadGoes (size : Nat) (state : Fread) : Bool := !state.skipped && decide (state.b < size)

def frecordAlloc (packer : Packer) (contents : List UInt8) : Except Fault Packer := do
  let f := packer.off
  let size := contents.length
  let first ← freadTurn size { packer := packer.advance 4, b := 0, unread := contents, skipped := false }
  let done ← whileLoop (freadGoes size) (freadTurn size) .unfinished (size + 1) first
  if done.skipped then return { done.packer with off := wsub done.packer.off 4 }
  else (done.packer.advance size).put f (wordBytes size)

inductive Typeflag where
  | ftwF
  | ftwD
  | ftwDp
  | other
deriving DecidableEq, Repr

/-- A call that `nftw` makes, with what is in the file. -/
structure Visit where
  filepath : Name
  typeflag : Typeflag
  contents : List UInt8

def buildEntry (packer : Packer) (visit : Visit) : Except Fault Packer :=
  let filepath := (visit.filepath.dropWhile (· ≠ directorySeparator)).tail
  if filepath = [] then .ok packer
  else
    match visit.typeflag with
    | .ftwF => do
        let packer ← entryAlloc packer filepath entryTypeFrecord
        frecordAlloc packer visit.contents
    | .ftwD | .ftwDp => entryAlloc packer filepath entryTypeDir
    | .other => .ok packer

def buildEntries (packer : Packer) : List Visit → Except Fault Packer
  | [] => .ok packer
  | visit :: visits => do
      let packer ← buildEntry packer visit
      buildEntries packer visits

/-- `main`, with what `malloc` returned: the bytes that are written to the output. -/
def mkrootramfs (buff : Nat → UInt8) (capacity : Nat) (visits : List Visit) :
    Except Fault (List UInt8) := do
  let packer ← headerAlloc { buff, capacity, off := 0 }
  let packer ← buildEntries packer visits
  return span packer.buff 0 packer.off

/-- What the loader does, in its order.  Every file is created below the root and
written through the handle that has just been opened. -/
inductive Call where
  /-- `rootramfs - loading "/%s"` -/
  | loading (pathname : Name)
  | vfsCreate (pathname : Name) (mode : Nat)
  | vfsOpenFile
  | vfsWrite (data : List UInt8)
deriving DecidableEq, Repr

/-- Reading outside of the image is a fault of the model. -/
def bytesAt (image : List UInt8) (off count : Nat) : Except Fault (List UInt8) :=
  if off + count ≤ image.length then .ok ((image.drop off).take count)
  else .error (.outOfBounds "image" (off + count - 1))

def wordAt (image : List UInt8) (off : Nat) : Except Fault Nat :=
  (bytesAt image off 4).map wordOf

/-- What is left of the characters up to the terminator. -/
def cString (buff : List UInt8) : Name := buff.takeWhile (· ≠ 0)

def createFailed (ret : Int) : Fault :=
  .panicf "rootramfs - vfs_create() failed: %d" [(ret % wordSize).toNat]

variable (answer : List Call → Int)

/-- The loop over the separators of a pathname.  `vfs_create` is called on what is before each
that `strchr` stops at, and its result is what `answer` has for the calls so far.  The first
character that `strchr` is given is never compared. -/
def createParts : Bool → Name → Name → List Call → Except Fault (List Call)
  | _, _, [], calls => .ok calls
  | first, before, c :: rest, calls =>
      if !first && c = directorySeparator then
        let calls := calls ++ [.vfsCreate before (0o040000 ||| 0o755)]
        let ret := answer calls
        if ret < 0 ∧ ret ≠ -eexist then .error (createFailed ret)
        else createParts true (before ++ [c]) rest calls
      else createParts false (before ++ [c]) rest calls

def entryReconstruct (image : List UInt8) (e : Nat) (calls : List Call) :
    Except Fault (List Call × Nat) := do
  let type ← bytesAt image e 1
  if type = [entryTypeDir] then
    let nameLen ← wordAt image (e + 1)
    let name ← bytesAt image (e + 5) nameLen
    let pathname := cString (name ++ [directorySeparator])
    let calls ← createParts answer true [] pathname (calls ++ [.loading pathname])
    return (calls, wadd 5 nameLen)
  else if type = [entryTypeFrecord] then
    let nameLen ← wordAt image (e + 1)
    let name ← bytesAt image (e + 5) nameLen
    let pathname := cString name
    let calls := calls ++ [.loading pathname, .vfsCreate pathname (0o100000 ||| 0o755)]
    let ret := answer calls
    if ret < 0 then .error (createFailed ret)
    else
      let fr := e + 5 + nameLen
      let len ← wordAt image fr
      let data ← bytesAt image (fr + 4) len
      return (calls ++ [.vfsOpenFile, .vfsWrite data], wadd (wadd (wadd 5 nameLen) 4) len)
  else .error (.bug "src/fs/rootramfs.c" 79)

structure Loading where
  off : Nat
  calls : List Call

def loadTurn (image : List UInt8) (loading : Loading) : Except Fault Loading := do
  let (calls, amount) ← entryReconstruct answer image loading.off loading.calls
  return { off := wadd loading.off amount, calls }

def loadGoes (len : Nat) (loading : Loading) : Bool := decide (loading.off < len)

/-- The calls that were made, and `off` at the end. -/
def rootramfsLoad (image : List UInt8) (len : Nat) : Except Fault (List Call × Nat) := do
  let hdr ← bytesAt image 0 4
  if hdr ≠ magic then .error (.panicf "rootramfs - invalid magic hdr" [])
  else
    let done ← whileLoop (loadGoes len) (loadTurn answer image) .unfinished (len + 1) { off := 4, calls := [] }
    return (done.calls, done.off)

end KOs.Fs

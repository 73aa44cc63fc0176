import KOs.Arch.Access

namespace KOs.Fs

open KOs.Arch KOs.Arch.Paging KOs.Common KOs.Data KOs.Mm

/-! `load_elf`, from `fs/binfmt/binfmt_elf.c`.

A file is anything that `file->ops` can be called with; what a read leaves in its buffer is returned with
the count.  `argv` and `envp` are the strings they lead to.  The record of the arguments in the task node,
the interrupt flag and what is printed are left out.
-/

def eio : Int := 5
def enoexec : Int := 8
def eisdir : Int := 21

/-- `file->ops`, over whatever a file is. -/
structure FileOps (φ : Type) where
  isDirectory : φ → Bool
  seek : Nat → φ → φ × Nat
  read : Nat → φ → φ × Int × List UInt8

variable {φ : Type}

/-- `vfs_seek(file, off, SEEK_SET)` -/
def vfsSeek (ops : FileOps φ) (off : Nat) (file : φ) : φ × Nat := ops.seek off file

def vfsRead (ops : FileOps φ) (bytes : Nat) (file : φ) : φ × Int × List UInt8 :=
  if ops.isDirectory file then (file, -eisdir, [])
  else
    let (file, count, buff) := ops.read bytes file
    (file, count, buff.take bytes)

def byteAt (bytes : List UInt8) (off : Nat) : Nat := (bytes.getD off 0).toNat

def elfHalf (bytes : List UInt8) (off : Nat) : Nat := byteAt bytes off + 2 ^ 8 * byteAt bytes (off + 1)

def elfWord (bytes : List UInt8) (off : Nat) : Nat := elfHalf bytes off + 2 ^ 16 * elfHalf bytes (off + 2)

structure Elf32Ehdr where
  eIdent : Nat → Nat
  eMachine : Nat
  eVersion : Nat
  eEntry : Nat
  ePhoff : Nat
  ePhnum : Nat

def sizeofElf32Ehdr : Nat := 52

def Elf32Ehdr.ofBytes (bytes : List UInt8) : Elf32Ehdr where
  eIdent := byteAt bytes
  eMachine := elfHalf bytes 18
  eVersion := elfWord bytes 20
  eEntry := elfWord bytes 24
  ePhoff := elfWord bytes 28
  ePhnum := elfHalf bytes 44

structure Elf32Phdr where
  pType : Nat
  pOffset : Nat
  pVaddr : Nat
  pFilesz : Nat
  pMemsz : Nat
deriving DecidableEq, Repr

def sizeofElf32Phdr : Nat := 32

def Elf32Phdr.ofBytes (bytes : List UInt8) (i : Nat) : Elf32Phdr where
  pType := elfWord bytes (sizeofElf32Phdr * i)
  pOffset := elfWord bytes (sizeofElf32Phdr * i + 4)
  pVaddr := elfWord bytes (sizeofElf32Phdr * i + 8)
  pFilesz := elfWord bytes (sizeofElf32Phdr * i + 16)
  pMemsz := elfWord bytes (sizeofElf32Phdr * i + 20)

def elfmag0 : Nat := 0x7F
def elfmag1 : Nat := 0x45
def elfmag2 : Nat := 0x4C
def elfmag3 : Nat := 0x46
def elfclass32 : Nat := 1
def elfdata2lsb : Nat := 1
def evCurrent : Nat := 1
def em386 : Nat := 3

def elfHeaderValid (ehdr : Elf32Ehdr) : Bool :=
  ehdr.eIdent 0 == elfmag0 && ehdr.eIdent 1 == elfmag1 && ehdr.eIdent 2 == elfmag2 && ehdr.eIdent 3 == elfmag3 &&
    ehdr.eIdent 4 == elfclass32 && ehdr.eIdent 5 == elfdata2lsb && ehdr.eIdent 6 == evCurrent &&
    ehdr.eVersion == evCurrent && ehdr.eMachine == em386

def readEhdr (ops : FileOps φ) (file : φ) : φ × Except Int Elf32Ehdr :=
  let (file, off) := vfsSeek ops 0 file
  if off ≠ 0 then (file, .error (-eio))
  else
    let (file, count, bytes) := vfsRead ops sizeofElf32Ehdr file
    if count ≠ sizeofElf32Ehdr then (file, .error (-enoexec))
    else if !elfHeaderValid (.ofBytes bytes) then (file, .error (-enoexec))
    else if (Elf32Ehdr.ofBytes bytes).ePhoff = 0 then (file, .error (-enoexec))
    else (file, .ok (.ofBytes bytes))

def readPhdrs (ops : FileOps φ) (ehdr : Elf32Ehdr) (file : φ) : φ × Except Int (List Elf32Phdr) :=
  let (file, off) := vfsSeek ops ehdr.ePhoff file
  if off ≠ ehdr.ePhoff then (file, .error (-eio))
  else
    let (file, count, bytes) := vfsRead ops (sizeofElf32Phdr * ehdr.ePhnum) file
    if count ≠ (sizeofElf32Phdr * ehdr.ePhnum : Nat) then (file, .error (-eio))
    else (file, .ok ((List.range ehdr.ePhnum).map (Elf32Phdr.ofBytes bytes)))

/-- What the loop over the segments works on; `failed` is set by `goto fail_io`. -/
structure Segments (φ : Type) where
  store : Store
  file : φ
  failed : Bool

/-- The variables of the loop over one segment. -/
structure Chunks (φ : Type) extends Segments φ where
  bytesWritten : Nat

/-- The page at `addr` is there, or a new one is. -/
def ensurePage (current : ArchThreadData) (addr : Nat) (s : Store) : Except Fault Store := do
  let page ← userGetPage current addr s
  if page.isNone then (userAllocPage current addr 0 s).map Prod.fst
  else return s

/-- One turn of the loop over a segment. -/
def loadChunk (ops : FileOps φ) (current : ArchThreadData) (phdr : Elf32Phdr) (l : Chunks φ) :
    Except Fault (Chunks φ) := do
  let addr := (phdr.pVaddr + l.bytesWritten) % 2 ^ 32
  let store ← ensurePage current addr l.store
  let pageBytesLeft := pageSize - addr % pageSize
  if l.bytesWritten < phdr.pFilesz then
    let chunkLen := min pageBytesLeft (phdr.pFilesz - l.bytesWritten)
    let (file, count, buff) := vfsRead ops chunkLen l.file
    let store ← writeBytes current.cr3 addr buff store
    if count ≠ chunkLen then return { l with store, file, failed := true }
    else return { l with store, file, bytesWritten := (l.bytesWritten + chunkLen) % 2 ^ 32 }
  else
    let chunkLen := min pageBytesLeft (phdr.pMemsz - l.bytesWritten)
    let store ← writeBytes current.cr3 addr (List.replicate chunkLen 0) store
    return { l with store, bytesWritten := (l.bytesWritten + chunkLen) % 2 ^ 32 }

def loadSegment (ops : FileOps φ) (current : ArchThreadData) (phdr : Elf32Phdr) (l : Segments φ) :
    Except Fault (Segments φ) :=
  let (file, off) := vfsSeek ops phdr.pOffset l.file
  if off ≠ phdr.pOffset then .ok { l with file, failed := true }
  else
    (whileLoop (fun l => !l.failed && decide (l.bytesWritten < phdr.pMemsz)) (loadChunk ops current phdr) .unfinished
      (phdr.pMemsz + 2) { l with file, bytesWritten := 0 }).map Chunks.toSegments

def ptNull : Nat := 0
def ptLoad : Nat := 1
def ptTls : Nat := 7

def loadPhdr (ops : FileOps φ) (current : ArchThreadData) (phdr : Elf32Phdr) (l : Segments φ) : Except Fault (Segments φ) :=
  if phdr.pType = ptNull then .ok l
  else if phdr.pType = ptLoad then loadSegment ops current phdr l
  else if phdr.pType = ptTls then .error (.panicf "binfmt_elf - unsupported phdr TLS" [])
  else .error (.panicf "binfmt_elf - unsupported phdr type (0x%X)" [phdr.pType])

def loadPhdrs (ops : FileOps φ) (current : ArchThreadData) : List Elf32Phdr → Segments φ → Except Fault (Segments φ)
  | [], l => .ok l
  | phdr :: rest, l => do
      let l ← loadPhdr ops current phdr l
      if l.failed then return l
      else loadPhdrs ops current rest l

def ustackAddrStart : Nat := 0xB0000000
def uargsAddrStart : Nat := 0xB8000000
def ustackNumPages : Nat := 8
def uargsNumPages : Nat := 1
def ustackSize : Nat := ustackNumPages * pageSize

def designateSpace (current : ArchThreadData) (start numPages : Nat) (s : Store) : Except Fault Store := do
  let phys ← resolveVirt current start s
  if phys ≠ 0 then .error (.panicf "WRITING TO ALREADY ALLOC'D SPACE!" [])
  else
    let (s, page) ← allocPages numPages allocZero s
    userMapPages current start (pageToPhys page) numPages s

def designateStack (current : ArchThreadData) (s : Store) : Except Fault Store :=
  designateSpace current ustackAddrStart ustackNumPages s

def designateArgs (current : ArchThreadData) (s : Store) : Except Fault Store :=
  designateSpace current uargsAddrStart uargsNumPages s

/-- The loop of `build_strtab`; `fin` is its `end`. -/
def writeStrtab (cr3 : Nat) : Nat → Nat → List (List UInt8) → Store → Except Fault (Store × Nat)
  | start, fin, [], s => (writePointer cr3 start 0 s).map (fun s => (s, fin))
  | start, fin, string :: rest, s => do
      let s ← writePointer cr3 start fin s
      let s ← writeBytes cr3 fin (string ++ [0]) s
      writeStrtab cr3 ((start + 4) % 2 ^ 32) ((fin + string.length + 1) % 2 ^ 32) rest s

/-- `build_strtab`, in which `start + tablen * sizeof(char *) + 1` counts pointers. -/
def buildStrtab (cr3 start : Nat) (tab : List (List UInt8)) (s : Store) : Except Fault (Store × Nat) :=
  writeStrtab cr3 start ((start + 4 * (4 * tab.length + 1)) % 2 ^ 32) tab s

inductive Loaded where
  | userland (entry stack argc argv envp : Nat)
  | returned (errno : Int)
deriving DecidableEq, Repr

/-- `goto fail_io` and `goto fail_not_elf` -/
def giveUp (olddir : Nat) (errno : Int) (s : Store) : Except Fault (Store × ArchThreadData × Loaded) :=
  (archReplaceMem olddir s).map (fun (s, current) => (s, current, .returned errno))

/-- The end of `load_elf`, when the segments are in place. -/
def bootstrap (current : ArchThreadData) (ehdr : Elf32Ehdr) (argv envp : List (List UInt8)) (s : Store) :
    Except Fault (Store × ArchThreadData × Loaded) := do
  let s ← designateStack current s
  let s ← designateArgs current s
  let (s, uenvp) ← buildStrtab current.cr3 uargsAddrStart argv s
  let (s, _) ← buildStrtab current.cr3 uenvp envp s
  return (s, current, .userland ehdr.eEntry (ustackAddrStart + ustackSize) argv.length uargsAddrStart uenvp)

/-- `load_elf` once `current` has a new directory. -/
def loadInto (ops : FileOps φ) (file : φ) (argv envp : List (List UInt8)) (olddir : Nat) (current : ArchThreadData)
    (s : Store) : Except Fault (Store × ArchThreadData × Loaded) := do
  let (s, _) ← kmalloc sizeofElf32Ehdr s
  match readEhdr ops file with
  | (_, .error errno) => giveUp olddir errno s
  | (file, .ok ehdr) =>
      let (s, _) ← kmalloc (sizeofElf32Phdr * ehdr.ePhnum) s
      match readPhdrs ops ehdr file with
      | (_, .error errno) => giveUp olddir errno s
      | (file, .ok phdrs) =>
          let l ← loadPhdrs ops current phdrs { store := s, file, failed := false }
          if l.failed then giveUp olddir (-eio) l.store
          else bootstrap current ehdr argv envp l.store

def loadElf (ops : FileOps φ) (file : φ) (argv envp : List (List UInt8)) (current : ArchThreadData) (s : Store) :
    Except Fault (Store × ArchThreadData × Loaded) := do
  let (s, next) ← archReplaceMem 0 s
  loadInto ops file argv envp current.dir next s

end KOs.Fs

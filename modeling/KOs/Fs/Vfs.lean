import KOs.Common.Hashtable
import KOs.Data.Loop
import Mathlib.Data.List.Basic

namespace KOs.Fs

open KOs.Common KOs.Data

/-! Dentries, mounts and pathnames, from `fs/vfs.c`, with the directory part of
`fs/type/ramfs.c`.

Dentries and mounts are numbered by their addresses.  A string is its characters
before the terminator, and a chain of a hash table is the list of its entries.
-/

abbrev Name := List UInt8

def directorySeparator : UInt8 := 47

def dot : UInt8 := 46

/-- A `char` is signed and is extended to the width of the key. -/
def charValue (c : UInt8) : Nat :=
  if c.toNat < 128 then c.toNat else wordSize - 256 + c.toNat

def strToKey (str : Name) : Nat :=
  str.foldl (fun key c => wmul key (charValue c)) 1

def dentryHashBits : Nat := 5

/-- The chain of `children_tab` that a name belongs to. -/
def bucketOf (name : Name) : Nat := hash32 (strToKey name) dentryHashBits

structure Path where
  mount : Nat
  dentry : Nat
deriving DecidableEq, Repr

inductive InodeOps where
  | ramfs
  | devfsRoot
deriving DecidableEq, Repr

def inodeFlagDirectory : Nat := 1

def inodeFlagMountpoint : Nat := 2

structure Inode where
  ops : InodeOps
  flags : Nat
  ino : Nat
  mode : Nat
  size : Nat
deriving DecidableEq, Repr

def Inode.isDirectory (inode : Inode) : Bool := inode.flags &&& inodeFlagDirectory != 0

def Inode.isMountpoint (inode : Inode) : Bool := inode.flags &&& inodeFlagMountpoint != 0

structure Dentry where
  name : Name
  inode : Option Inode
  parent : Option Nat
  childrenTab : Nat → List Nat
  childrenList : List Nat

structure Mount where
  /-- `parent` and `mountpoint`, which `vfs_mount_add` sets together. -/
  mountpoint : Option Path
  root : Nat
deriving DecidableEq, Repr

structure Vfs where
  dentry : Nat → Dentry
  fresh : Nat
  mount : Nat → Mount
  mountCount : Nat
  mountTab : Nat → List Nat
  rootMount : Nat
  globalInoCount : Nat

namespace Vfs

variable (vfs : Vfs)

def setDentry (d : Nat) (value : Dentry) : Vfs :=
  { vfs with dentry := fun e => if e = d then value else vfs.dentry e }

def mntRoot (mount : Nat) : Path := { mount, dentry := (vfs.mount mount).root }

/-- Following a pointer to an inode that is not there. -/
def inodeOf (d : Nat) : Except Fault Inode :=
  match (vfs.dentry d).inode with
  | some inode => .ok inode
  | none => .error (.outOfBounds "inode" d)

end Vfs

/-- The table has a page of nodes, and half of them. -/
def mountHashBits : Nat := 8

def hashMount (mount mountpoint : Nat) : Nat := wmul mount mountpoint

def getMount (vfs : Vfs) (mountpoint : Path) : Option Nat :=
  (vfs.mountTab (hash32 (hashMount mountpoint.mount mountpoint.dentry) mountHashBits)).find?
    (fun mount => (vfs.mount mount).mountpoint == some mountpoint)

/-- The state of the loop of `vfs_lookup`; there is no path once `cwd.dentry` is
`NULL`. -/
structure Walk where
  path : Name
  cwd : Option Path
  finished : Bool
deriving DecidableEq, Repr

inductive Entry where
  | notDirectory
  | submount (root : Path)
  | directory
deriving DecidableEq, Repr

def lookupEnter (vfs : Vfs) (cwd : Path) : Except Fault Entry :=
  match (vfs.dentry cwd.dentry).inode with
  | none => .error (.bug "src/fs/vfs.c" 359)
  | some inode =>
      if !inode.isDirectory then .ok .notDirectory
      else if inode.isMountpoint then
        match getMount vfs cwd with
        | none => .error (.bug "src/fs/vfs.c" 369)
        | some submount => .ok (.submount (vfs.mntRoot submount))
      else .ok .directory

/-- One turn of the climb out of the mounts. -/
def lookupClimb (vfs : Vfs) (cwd : Path) : Except Fault Path :=
  match (vfs.mount cwd.mount).mountpoint with
  | none => .error (.bug "src/fs/vfs.c" 403)
  | some mountpoint => do
      let inode ← vfs.inodeOf mountpoint.dentry
      bugOn (!inode.isMountpoint) "src/fs/vfs.c" 407
      return mountpoint

def lookupUp (vfs : Vfs) (cwd : Path) : Except Fault Path := do
  let cwd ← whileLoop
    (fun cwd => (vfs.dentry cwd.dentry).parent.isNone && cwd.mount != vfs.rootMount)
    (lookupClimb vfs) .unfinished (vfs.mountCount + 2) cwd
  match (vfs.dentry cwd.dentry).parent with
  | some parent => return { cwd with dentry := parent }
  | none => return cwd

/-- The search among the cached children; the `lookup` operations of ramfs and of
the root of devfs then resolve nothing. -/
def lookupChild (vfs : Vfs) (cwd : Path) (segment : Name) : Option Path :=
  (((vfs.dentry cwd.dentry).childrenTab (bucketOf segment)).find?
    (fun child => segment.isPrefixOf (vfs.dentry child).name)).map
    (fun child => { cwd with dentry := child })

def lookupSegment (vfs : Vfs) (cwd : Path) (segment : Name) : Except Fault (Option Path) :=
  if segment = [] then .ok (some cwd)
  else if segment = [dot] then .ok (some cwd)
  else if segment = [dot, dot] then (lookupUp vfs cwd).map some
  else .ok (lookupChild vfs cwd segment)

def lookupTurn (vfs : Vfs) (walk : Walk) : Except Fault Walk :=
  match walk.cwd with
  | none => .ok walk
  | some cwd => do
      match ← lookupEnter vfs cwd with
      | .notDirectory => return { walk with cwd := none }
      | .submount root => return { walk with cwd := some root }
      | .directory =>
          let next := walk.path.dropWhile (· != directorySeparator)
          let cwd ← lookupSegment vfs cwd (walk.path.takeWhile (· != directorySeparator))
          return { path := next.drop 1, cwd, finished := next.isEmpty }

def lookupContinues (walk : Walk) : Bool :=
  !walk.finished && !walk.path.isEmpty && walk.cwd.isSome

def lookupFinish (vfs : Vfs) (walk : Walk) : Except Fault (Option Path) :=
  match walk.cwd with
  | none => .ok none
  | some cwd => do
      let inode ← vfs.inodeOf cwd.dentry
      if inode.isMountpoint then
        match getMount vfs cwd with
        | none => .error (.bug "src/fs/vfs.c" 450)
        | some submount => return some (vfs.mntRoot submount)
      else return some cwd

def lookupStart (vfs : Vfs) (start : Option Path) (path : Name) : Walk :=
  match start with
  | some cwd =>
      if path.head? = some directorySeparator then
        { path := path.tail, cwd := some (vfs.mntRoot vfs.rootMount), finished := false }
      else { path, cwd := some cwd, finished := false }
  | none =>
      { path := if path.head? = some directorySeparator then path.tail else path,
        cwd := some (vfs.mntRoot vfs.rootMount), finished := false }

/-- A mount tree bounds the turns of the loop: each one enters a mount or shortens
the path. -/
def lookupBound (vfs : Vfs) (path : Name) : Nat :=
  (path.length + 1) * (vfs.mountCount + 1) + 1

/-- `none` is `-ENOENT`. -/
def vfsLookup (vfs : Vfs) (start : Option Path) (origPath : Name) : Except Fault (Option Path) := do
  let walk ← whileLoop lookupContinues (lookupTurn vfs) .unfinished (lookupBound vfs origPath)
    (lookupStart vfs start origPath)
  lookupFinish vfs walk

def enoent : Int := 2

def eexist : Int := 17

def einval : Int := 22

def sIsReg (mode : Nat) : Bool := mode &&& 0o170000 == 0o100000

def sIsDir (mode : Nat) : Bool := mode &&& 0o170000 == 0o040000

/-- The inode, with `none` for `-EINVAL`.  The size of a directory is taken from a
`blkshift` that is still zero. -/
def ramfsCreateInternal (ino mode : Nat) : Option Inode :=
  if sIsReg mode then some { ops := .ramfs, flags := 0, ino, mode, size := 0 }
  else if sIsDir mode then some { ops := .ramfs, flags := inodeFlagDirectory, ino, mode, size := 1 <<< 0 }
  else none

def inodeCreate (ops : InodeOps) (ino mode : Nat) : Option Inode :=
  match ops with
  | .ramfs => ramfsCreateInternal ino mode
  | .devfsRoot => none

def newDentry (name : Name) : Dentry where
  name := name
  inode := none
  parent := none
  childrenTab := fun _ => []
  childrenList := []

def dentryAlloc (vfs : Vfs) (name : Name) : Vfs :=
  { vfs.setDentry vfs.fresh (newDentry name) with fresh := vfs.fresh + 1 }

def dentryActivate (vfs : Vfs) (child parent : Nat) : Vfs :=
  let bucket := bucketOf (vfs.dentry child).name
  let vfs := vfs.setDentry child { vfs.dentry child with parent := some parent }
  let directory := vfs.dentry parent
  vfs.setDentry parent { directory with
    childrenTab := fun b => if b = bucket then child :: directory.childrenTab b else directory.childrenTab b
    childrenList := child :: directory.childrenList }

/-- The distance of the last segment from the start of the string. -/
def lastSegmentFrom : Name → Nat → Nat → Nat
  | [], _, seg => seg
  | c :: path, position, seg =>
      lastSegmentFrom path (position + 1)
        (if c = directorySeparator ∧ path ≠ [] then position + 1 else seg)

def lastSegment (path : Name) : Nat := lastSegmentFrom path 0 0

/-- The working directory and the last segment; `none` is `-ENOENT`. -/
def getPathWd (vfs : Vfs) (start : Path) (pathname : Name) : Except Fault (Option (Path × Name)) := do
  let last := lastSegment pathname
  if pathname ≠ pathname.drop last then
    match ← vfsLookup vfs (some start) (pathname.take (last - 1)) with
    | none => return none
    | some wd => return some (wd, pathname.drop last)
  else return some (start, pathname.drop last)

structure Created where
  ret : Int
  path : Option Path
deriving DecidableEq, Repr

/-- The branch of `vfs_create` for a name that does not exist. -/
def createIn (vfs : Vfs) (wd : Path) (last : Name) (mode : Nat) : Except Fault (Vfs × Created) := do
  let new := vfs.fresh
  let vfs := dentryAlloc vfs last
  let directory ← vfs.inodeOf wd.dentry
  match inodeCreate directory.ops vfs.globalInoCount mode with
  | none => return (vfs, { ret := -einval, path := none })
  | some inode =>
      let vfs := { vfs.setDentry new { vfs.dentry new with inode := some inode } with
        globalInoCount := wadd vfs.globalInoCount 1 }
      if inode.ino = 0 then .error (.panicf "Bad inode, ino = 0 for %X->%X" [new])
      else return (dentryActivate vfs new wd.dentry, { ret := 0, path := some { wd with dentry := new } })

def vfsCreate (vfs : Vfs) (start : Path) (pathname : Name) (mode : Nat) :
    Except Fault (Vfs × Created) := do
  match ← getPathWd vfs start pathname with
  | none => return (vfs, { ret := -enoent, path := none })
  | some (wd, last) =>
      if pathname.length = 0 then return (vfs, { ret := -enoent, path := none })
      else
        match ← vfsLookup vfs (some wd) last with
        | some f => return (vfs, { ret := -eexist, path := some f })
        | none => createIn vfs wd last mode

/-- `ramfs_fill`: the root dentry of a new ramfs. -/
def ramfsFill (vfs : Vfs) : Vfs × Nat :=
  let root := vfs.fresh
  let inode := ramfsCreateInternal vfs.globalInoCount (0o040000 ||| 0o755)
  ({ vfs.setDentry root { newDentry [] with inode } with
      fresh := vfs.fresh + 1
      globalInoCount := wadd vfs.globalInoCount 1 }, root)

/-- `vfs_mount_create`, which only allocates. -/
def mountAlloc (vfs : Vfs) (root : Nat) : Vfs × Nat :=
  let mount := vfs.mountCount
  ({ vfs with
      mount := fun m => if m = mount then { mountpoint := none, root } else vfs.mount m
      mountCount := vfs.mountCount + 1 }, mount)

def vfsMountAdd (vfs : Vfs) (mount : Nat) (mountpoint : Path) : Except Fault (Vfs × Bool) := do
  let inode ← vfs.inodeOf mountpoint.dentry
  if !inode.isDirectory then return (vfs, false)
  else if (getMount vfs mountpoint).isSome then return (vfs, false)
  else
    let bucket := hash32 (hashMount mountpoint.mount mountpoint.dentry) mountHashBits
    let marked := { inode with flags := inode.flags ||| inodeFlagMountpoint }
    let vfs := { vfs with
      mount := fun m => if m = mount then { vfs.mount m with mountpoint := some mountpoint } else vfs.mount m
      mountTab := fun b => if b = bucket then mount :: vfs.mountTab b else vfs.mountTab b }
    return (vfs.setDentry mountpoint.dentry
      { vfs.dentry mountpoint.dentry with inode := some marked }, true)

/-- `vfs_mount` of a new ramfs; a mount that cannot be added is given up. -/
def vfsMount (vfs : Vfs) (mountpoint : Path) : Except Fault (Vfs × Option Nat) := do
  let (vfs, root) := ramfsFill vfs
  let (vfs, mount) := mountAlloc vfs root
  let (vfs, added) ← vfsMountAdd vfs mount mountpoint
  return (vfs, if added then some mount else none)

/-- The root file system after `vfs_root_mount`: the root dentry of a ramfs, and
its mount. -/
def rootVfs : Vfs where
  dentry := fun _ => { newDentry [] with inode := ramfsCreateInternal 1 (0o040000 ||| 0o755) }
  fresh := 1
  mount := fun _ => { mountpoint := none, root := 0 }
  mountCount := 1
  mountTab := fun _ => []
  rootMount := 0
  globalInoCount := 2

end KOs.Fs

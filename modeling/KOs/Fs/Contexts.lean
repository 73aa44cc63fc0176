import KOs.Fs.References
import KOs.Fs.Vfs

namespace KOs.Fs

open KOs.Common KOs.Data

/-! The contexts of a thread from `sched/sched.c`: its descriptors and its place in
the file system, how `thread_fork` copies them and how an exited thread gives them
back.  They are numbered as they are allocated; one that is freed is `none`.
-/

structure UfdContext where
  refs : Nat
  table : List Ufd

structure FsContext where
  refs : Nat
  root : Path
  pwd : Path

/-- `ufd_context_build`, with the page that `kmalloc` returned for the table. -/
def ufdContextBuild (page : List Ufd) : UfdContext where
  refs := 1
  table := (List.range (maxNumFds - 1)).foldl (fun table i => table.set i { flags := 0, gfd := none }) page

def dupTurn (src : List Ufd) (state : Gfdt × List Ufd) (i : Nat) : Gfdt × List Ufd :=
  let (g, table) := state
  let g := match ufdtGet { gfdt := g, table := src } i with
    | some gfd => gfdtGet g gfd
    | none => g
  (g, table.set i (src.getD i { flags := 0, gfd := none }))

def ufdContextDup (g : Gfdt) (src : UfdContext) (page : List Ufd) : Gfdt × UfdContext :=
  let (g, table) := (List.range (maxNumFds - 1)).foldl (dupTurn src.table) (g, page)
  (g, { refs := 1, table })

/-- `ufd_context_destroy` before its frees. -/
def ufdContextDestroy (g : Gfdt) (ufd : UfdContext) : Gfdt :=
  (List.range maxNumFds).foldl (fun g i =>
    match ufdtGet { gfdt := g, table := ufd.table } i with
    | some gfd => gfdtPut g gfd
    | none => g) g

def fsContextBuild (root : Path) : FsContext where
  refs := 1
  root := root
  pwd := root

def fsContextDup (src : FsContext) : FsContext := { src with refs := 1 }

structure ThreadRefs where
  ufd : Option Nat
  fs : Option Nat
deriving DecidableEq, Repr

structure Contexts where
  gfdt : Gfdt
  ufds : List (Option UfdContext)
  fss : List (Option FsContext)
  threads : List ThreadRefs

namespace Contexts

def thread (s : Contexts) (t : Nat) : Except Fault ThreadRefs :=
  match s.threads[t]? with
  | some thread => .ok thread
  | none => .error (.outOfBounds "threads" t)

/-- `obtain_ufds`, read through. -/
def obtainUfds (s : Contexts) (t : Nat) : Except Fault (Nat × UfdContext) := do
  let thread ← s.thread t
  match thread.ufd with
  | some u =>
      match s.ufds[u]? with
      | some (some ufd) => return (u, ufd)
      | _ => .error (.outOfBounds "ufd" u)
  | none => .error (.outOfBounds "ufd" 0)

def obtainFsContext (s : Contexts) (t : Nat) : Except Fault (Nat × FsContext) := do
  let thread ← s.thread t
  match thread.fs with
  | some v =>
      match s.fss[v]? with
      | some (some fs) => return (v, fs)
      | _ => .error (.outOfBounds "fs" v)
  | none => .error (.outOfBounds "fs" 0)

/-- `thread_fork`, as far as the contexts go. -/
def threadFork (s : Contexts) (t : Nat) (page : List Ufd) : Except Fault Contexts := do
  let (_, src) ← s.obtainUfds t
  let (_, fs) ← s.obtainFsContext t
  let copied := ufdContextDup s.gfdt src page
  return { gfdt := copied.1
           ufds := s.ufds ++ [some copied.2]
           fss := s.fss ++ [some (fsContextDup fs)]
           threads := s.threads ++ [{ ufd := some s.ufds.length, fs := some s.fss.length }] }

def putFsContext (s : Contexts) (t : Nat) : Except Fault Contexts := do
  let thread ← s.thread t
  let s := { s with threads := s.threads.set t { thread with fs := none } }
  match thread.fs with
  | none => return s
  | some v =>
      match s.fss[v]? with
      | some (some fs) =>
          -- `uint32_t newrefs = fs->refs--` is the count before
          let newrefs := fs.refs
          let left := if newrefs = 0 then none else some { fs with refs := wsub fs.refs 1 }
          return { s with fss := s.fss.set v left }
      | _ => .error (.outOfBounds "fs" v)

def putUfds (s : Contexts) (t : Nat) : Except Fault Contexts := do
  let thread ← s.thread t
  let s := { s with threads := s.threads.set t { thread with ufd := none } }
  match thread.ufd with
  | none => return s
  | some u =>
      match s.ufds[u]? with
      | some (some ufd) =>
          let newrefs := ufd.refs
          let ufd := { ufd with refs := wsub ufd.refs 1 }
          if newrefs = 0 then
            return { s with gfdt := ufdContextDestroy s.gfdt ufd, ufds := s.ufds.set u none }
          else return { s with ufds := s.ufds.set u (some ufd) }
      | _ => .error (.outOfBounds "ufd" u)

/-- What `deactivate_thread` does with the contexts of a thread in `THREAD_EXITED`. -/
def deactivateExited (s : Contexts) (t : Nat) : Except Fault Contexts := do
  let s ← s.putFsContext t
  s.putUfds t

def call (s : Contexts) (t : Nat) (event : FdEvent) : Except Fault Contexts := do
  let (u, ufd) ← s.obtainUfds t
  let after ← descriptors.perform event { gfdt := s.gfdt, table := ufd.table }
  return { s with gfdt := after.gfdt, ufds := s.ufds.set u (some { ufd with table := after.table }) }

end Contexts

inductive ContextEvent where
  | call (t : Nat) (event : FdEvent)
  /-- A fork, with the page that `kmalloc` returns for the new table. -/
  | fork (t : Nat) (page : List Ufd)
  | exit (t : Nat)
deriving DecidableEq, Repr

/-- Every table is a page of a 32-bit address space. -/
def maxTables : Nat := wordSize / 4096

/-- A thread makes calls until it has exited. -/
def contexts : Machine Contexts ContextEvent Fault where
  enabled event s :=
    match event with
    | .call t event =>
        match s.obtainUfds t with
        | .ok (_, ufd) => descriptors.enabled event { gfdt := s.gfdt, table := ufd.table }
        | .error _ => false
    | .fork t page =>
        (s.obtainUfds t).isOk && decide (page.length = maxNumFds) && decide (s.ufds.length < maxTables)
    | .exit t => (s.obtainUfds t).isOk
  perform event s :=
    match event with
    | .call t event => s.call t event
    | .fork t page => s.threadFork t page
    | .exit t => s.deactivateExited t

/-- `root_task_init`, before any file has been opened. -/
def rootTaskInit (root : Path) (page : List Ufd) : Contexts where
  gfdt := emptyDescriptors.gfdt
  ufds := [some (ufdContextBuild page)]
  fss := [some (fsContextBuild root)]
  threads := [{ ufd := some 0, fs := some 0 }]

end KOs.Fs

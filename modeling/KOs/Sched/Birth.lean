import KOs.Sched.Signals

namespace KOs.Sched.Birth

open KOs.Common KOs.Data KOs.Arch KOs.Sched.Signals

/-! The task node and the thread of a new process, from `sched/sched.c`.

The blocks that `kmalloc` and `cache_alloc` return hold anything, and each function is its assignments
to their fields.  The lists that the new node is entered in, and its address space, are left out.
-/

/-- The contents of a `task_node_t`.  Pointers are numbers; 0 is `NULL`. -/
structure TaskNode where
  refs : Nat
  pid : Nat
  argv : Nat
  envp : Nat
  parent : Nat
  exitState : Nat
  exitCode : Nat
  exitCause : Nat
  sigtramp : UInt32
  sigactions : Fin nsig → Sigaction
  sigMask : UInt32
  session : Nat
  pgroup : Nat
  threads : List Nat
  children : List Nat
  zombies : List Nat

structure Thread where
  state : Nat
  shouldDie : Bool
  sigPending : UInt32
  node : Nat
  ufd : Nat
  fs : Nat
  flags : Nat
  active : Bool
  kernelStackTop : Nat
  kernelStackBottom : Nat

def taskRunning : Nat := 0

def threadBuilding : Nat := 0

def threadFlagKernel : Nat := 1 <<< 0
def threadFlagForked : Nat := 1 <<< 1

def kernelStackPages : Nat := 16
def kernelStackLen : Nat := kernelStackPages * 4096

/-- Every entry of the table, named or not, is zero. -/
def defaultSigactions (_ : Fin nsig) : Sigaction where
  flags := 0
  mask := 0
  handler := sigDfl

structure Parent where
  address : Nat
  node : TaskNode

/-- `task_node_build` for the block that `kmalloc` returns.  The first task has no parent and gets a session and a group
of its own. -/
def taskNodeBuild (block : TaskNode) (parent : Option Parent) (argv envp pid ownSession ownPgroup : Nat) : TaskNode :=
  let node := { block with
    refs := 1
    pid := pid
    argv := if argv ≠ 0 then argv else parent.elim argv (fun parent => parent.node.argv)
    envp := if envp ≠ 0 then envp else parent.elim envp (fun parent => parent.node.envp)
    parent := parent.elim 0 Parent.address
    exitState := taskRunning }
  let node := { node with
    sigtramp := 0
    sigactions := defaultSigactions }
  let node := { node with threads := [], children := [], zombies := [] }
  match parent with
  | some parent => { node with session := parent.node.session, pgroup := parent.node.pgroup }
  | none => { node with session := ownSession, pgroup := ownPgroup }

/-- `thread_build`, for a thread of the node at the address. -/
def threadBuild (block : Thread) (node ufd fs stack : Nat) : Thread :=
  { block with
    state := threadBuilding
    shouldDie := false
    sigPending := 0
    node := node
    ufd := ufd
    fs := fs
    flags := threadFlagKernel
    active := false
    kernelStackTop := stack
    kernelStackBottom := stack + kernelStackLen }

/-- What the allocators return for a fork: blocks with their previous contents, and a stack. -/
structure Allocated where
  nodeAddress : Nat
  node : TaskNode
  thread : Thread
  stack : Nat

structure Child where
  node : TaskNode
  thread : Thread

/-- `thread_fork`, with the copies of the descriptors and of the file system context. -/
def threadFork (allocated : Allocated) (parent : Parent) (pid ufd fs : Nat) : Child :=
  let node := taskNodeBuild allocated.node (some parent) 0 0 pid 0 0
  let thread := threadBuild allocated.thread allocated.nodeAddress ufd fs allocated.stack
  { node, thread := { thread with flags := thread.flags ||| threadFlagForked } }

/-- The state of the child's signals once it runs, with a trampoline that it has registered by then. -/
def Child.signalState (child : Child) (kernel : Bool) (sigtramp : UInt32) (state : CpuState) (memory : UserMemory) : SigTask where
  kernel := kernel
  pid := child.node.pid
  sigtramp := sigtramp
  -- no signal has a number beyond the table
  sigactions := fun sig => if small : sig < nsig then child.node.sigactions ⟨sig, small⟩ else ⟨0, 0, 0⟩
  sigMask := child.node.sigMask
  sigPending := child.thread.sigPending
  exitCode := none
  state := state
  memory := memory
  blocked := child.node.sigMask
  sent := []
  acted := []

variable {first second : Allocated} {parent : Parent} {pid ufd fs : Nat}

/-- Two children have the same signal state, and whatever happens to one happens to the other. -/
structure SameSignals (child other : Child) : Prop where
  mask : child.node.sigMask = other.node.sigMask
  pending : child.thread.sigPending = other.thread.sigPending
  dispositions : child.node.sigactions = other.node.sigactions
  trampoline : child.node.sigtramp = other.node.sigtramp
  handled : ∀ kernel sigtramp state memory (events : List SignalEvent),
    signalling.run (fun _ _ => True) events (child.signalState kernel sigtramp state memory) =
      signalling.run (fun _ _ => True) events (other.signalState kernel sigtramp state memory)

theorem fork_signals_defined (first second : Allocated) (parent : Parent) (pid ufd fs : Nat) :
    SameSignals (threadFork first parent pid ufd fs) (threadFork second parent pid ufd fs) ↔
      first.node.sigMask = second.node.sigMask := by
  constructor
  · intro same
    exact same.mask
  · intro same
    refine ⟨same, rfl, rfl, rfl, fun kernel sigtramp state memory events => ?_⟩
    -- The mask is the one part of the signal state that no assignment sets.
    simp only [Child.signalState, threadFork, taskNodeBuild, threadBuild, same]

def recycled (mask : UInt32) : Allocated where
  nodeAddress := 0xC1000000
  node := ⟨0, 0, 0, 0, 0, 0, 0, 0, 0, defaultSigactions, mask, 0, 0, [], [], []⟩
  thread := ⟨0, false, 0, 0, 0, 0, 0, false, 0, 0⟩
  stack := 0xC2000000

/-- The child installs a handler for a signal and is sent one. -/
def handledOnce (mask : UInt32) : Option (List Nat) :=
  (signalling.run (fun _ _ => True) [.sigaction sigterm (some ⟨0, 0, 0x8049000⟩), .send sigterm, .deliver]
    ((threadFork (recycled mask) ⟨0xC0F00000, (recycled 0).node⟩ 7 0 0).signalState false 0x8048000 userState mappedMemory)).map
      SigTask.acted

/-- The same fork in two kinds of recycled memory: in the second child the signal is not handled. -/
theorem fork_inherits_stale_mask :
    (handledOnce 0 = some [sigterm] ∧ handledOnce (bit sigterm) = some []) ∧
      ¬ SameSignals (threadFork (recycled 0) ⟨0xC0F00000, (recycled 0).node⟩ 7 0 0)
        (threadFork (recycled (bit sigterm)) ⟨0xC0F00000, (recycled 0).node⟩ 7 0 0) := by
  refine ⟨by decide +kernel, fun same => ?_⟩
  exact absurd same.mask (by decide)

end KOs.Sched.Birth

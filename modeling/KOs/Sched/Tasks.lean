import KOs.Sched.Threads
import KOs.Data.Transition
import KOs.Data.Word

namespace KOs.Sched.Tasks

open KOs.Common KOs.Data

/-! The process tree of `sched/sched.c` and `waitpid` from `sched/syscall.c`.

Task nodes are numbered as they are built and never freed, and a `children` list, which only
grows, has the newest child first.  Of the lists of zombies the cells are kept: `Sum.inl n` is
the head `zombies` of node `n` and `Sum.inr n` its entry `zombie_list`.
-/

structure TaskNode where
  pid : Nat
  parent : Option Nat
  exitState : ExitState
  exitCode : Nat
  exitCause : Nat
  children : List Nat

inductive Wait where
  | anyChild (statLoc : Bool)
  | child (c : Nat) (pid : Int) (statLoc : Bool)
deriving DecidableEq, Repr

/-- A return of `waitpid` with a pid: the task it stands for, whether the caller
passed a `stat_loc`, and what was stored through it. -/
structure Report where
  task : Nat
  pid : Int
  statLoc : Bool
  stored : Option Nat
deriving DecidableEq, Repr

structure Tree where
  count : Nat
  node : Nat → TaskNode
  nextPid : Nat
  zombies : Links (Nat ⊕ Nat)
  waiting : Nat → Option Wait
  reports : List Report

def idleNode : Nat := 0

def initNode : Nat := 1

namespace Tree

def setNode (s : Tree) (n : Nat) (node : TaskNode) : Tree :=
  { s with node := fun other => if other = n then node else s.node other }

def setWaiting (s : Tree) (n : Nat) (wait : Option Wait) : Tree :=
  { s with waiting := fun other => if other = n then wait else s.waiting other }

def addZombie (s : Tree) (n parent : Nat) : Tree :=
  { s with zombies := listAdd (.inr n) (.inl parent) s.zombies }

end Tree

/-- `task_node_build` for a child, with what `kmalloc` left in the fields it does not set. -/
def taskNodeBuild (parent exitCode exitCause : Nat) (s : Tree) : Tree :=
  let n := s.count
  let s := s.setNode n { pid := s.nextPid, parent := some parent, exitState := .running,
                         exitCode, exitCause, children := [] }
  let s := { s with count := n + 1
                    nextPid := wadd s.nextPid 1
                    zombies := listInit (.inl n) s.zombies }
  s.setNode parent { s.node parent with children := n :: (s.node parent).children }

def taskNodeEnsureNotExiting (n : Nat) (s : Tree) : Bool :=
  (s.node n).exitState = .running

/-- `task_node_exit`, before the threads are marked. -/
def taskNodeExit (n code cause : Nat) (s : Tree) : Tree :=
  let s := s.setNode n { s.node n with exitCode := code, exitCause := cause }
  if taskNodeEnsureNotExiting n s then s.setNode n { s.node n with exitState := .exiting } else s

/-- One turn of the loop over the children of `n`. -/
def reparent (n : Nat) (s : Tree) (child : Nat) : Tree :=
  -- the source reads the state of `node`, not of `child`
  let exitState := (s.node n).exitState
  if exitState = .exited then s.addZombie child initNode
  else s.setNode child { s.node child with parent := some initNode }

def taskNodeZombify (n : Nat) (s : Tree) : Except Fault Tree :=
  let s := s.setNode n { s.node n with exitState := .exited }
  if (s.node n).pid = 1 then .error (.panicf "init exited" [])
  else
    match (s.node n).parent with
    | none => .error (.outOfBounds "parent" n)
    | some parent =>
        let s := if taskNodeEnsureNotExiting parent s then s.addZombie n parent else s
        .ok ((s.node n).children.foldl (reparent n) s)

def mkStatcode (code cause : Nat) : Nat := ((code &&& 0xFF) <<< 8) ||| cause

def reapZombie (n : Nat) (s : Tree) : Except Fault (Tree × Option Nat) :=
  if listEmpty s.zombies (.inl n) then .ok (s, none)
  else
    match listFirst s.zombies (.inl n) with
    | .inl _ => .error .strayEntry
    | .inr zombie => .ok ({ s with zombies := listRm (.inr zombie) s.zombies }, some zombie)

def findChild (n : Nat) (pid : Int) (s : Tree) : Option Nat :=
  (s.node n).children.find? (fun o => decide (((s.node o).pid : Int) = pid))

/-- What `waitpid` does with the zombie it has taken off its list. -/
def reportZombie (zombie : Nat) (statLoc : Bool) (s : Tree) : Tree :=
  let node := s.node zombie
  let stored := if statLoc then some (mkStatcode node.exitCode node.exitCause) else none
  { s with reports := { task := zombie, pid := node.pid, statLoc, stored } :: s.reports }

/-- One evaluation of the condition a call waits for; the call returns once it holds. -/
def waitTurn (n : Nat) (s : Tree) : Wait → Except Fault (Tree × Bool)
  | .anyChild statLoc => do
      let (s, zombie) ← reapZombie n s
      match zombie with
      | some zombie => return (reportZombie zombie statLoc s, true)
      | none => return (s, false)
  | .child c pid statLoc =>
      if (s.node c).exitState = .exited then
        .ok ({ s with reports := { task := c, pid, statLoc, stored := none } :: s.reports }, true)
      else .ok (s, false)

def wnohang : Nat := 1

/-- `waitpid`, until it returns or waits. -/
def sysWaitpid (n : Nat) (pid : Int) (statLoc : Bool) (options : Nat) (s : Tree) : Except Fault Tree :=
  if pid = -1 then do
    let (s, returned) ← waitTurn n s (.anyChild statLoc)
    if returned then return s
    else if options &&& wnohang ≠ 0 then return s
    else return s.setWaiting n (some (.anyChild statLoc))
  else if pid > 0 then
    match findChild n pid s with
    | none => .error (.bug "src/sched/syscall.c" 591)
    | some c => do
        let (s, returned) ← waitTurn n s (.child c pid statLoc)
        if returned then return s
        else return s.setWaiting n (some (.child c pid statLoc))
  else .error (.panicf "Unimplemented! @ %s:%u" [599])

def resume (n : Nat) (s : Tree) : Except Fault Tree :=
  match s.waiting n with
  | none => .ok s
  | some wait => do
      let (s, returned) ← waitTurn n s wait
      if returned then return s.setWaiting n none else return s

inductive TaskEvent where
  | fork (n exitCode exitCause : Nat)
  | exit (n code cause : Nat)
  /-- The last thread of `n` has been deactivated. -/
  | zombify (n : Nat)
  | waitpid (n : Nat) (pid : Int) (statLoc : Bool) (options : Nat)
  | resume (n : Nat)
deriving DecidableEq, Repr

/-- A task node is never freed and has more than 64 bytes. -/
def maxTaskNodes : Nat := wordSize / 64

/-- Whether the thread of `n` is in user mode; the idle threads never are. -/
def Tree.inUser (s : Tree) (n : Nat) : Bool :=
  decide (n < s.count) && decide (n ≠ idleNode) && decide (s.waiting n = none)

def tasks : Machine Tree TaskEvent Fault where
  enabled event s :=
    match event with
    | .fork n _ _ => s.inUser n && decide ((s.node n).exitState = .running) && decide (s.count < maxTaskNodes)
    | .exit n _ _ => s.inUser n && decide ((s.node n).exitState ≠ .exited)
    | .zombify n => s.inUser n && decide ((s.node n).exitState ≠ .exited)
    | .waitpid n _ _ _ => s.inUser n && decide ((s.node n).exitState = .running)
    | .resume n => (s.waiting n).isSome
  perform event s :=
    match event with
    | .fork n exitCode exitCause => .ok (taskNodeBuild n exitCode exitCause s)
    | .exit n code cause => .ok (taskNodeExit n code cause s)
    | .zombify n => taskNodeZombify n s
    | .waitpid n pid statLoc options => sysWaitpid n pid statLoc options s
    | .resume n => resume n s

def emptyNode : TaskNode where
  pid := 0
  parent := none
  exitState := .running
  exitCode := 0
  exitCause := 0
  children := []

/-- The idle node and the init node, as `sched_init` builds them. -/
def schedInit : Tree where
  count := 2
  node n := { emptyNode with pid := n }
  nextPid := 2
  zombies := listInit (.inl initNode) (listInit (.inl idleNode) ⟨fun n => { prev := n, next := n }⟩)
  waiting _ := none
  reports := []

end KOs.Sched.Tasks

import KOs.Common.List
import KOs.Data.Loop
import Mathlib.Algebra.Group.Nat.Defs

namespace KOs.Sched

open KOs.Common KOs.Data

/-! The threads and the run queue of `sched/sched.c`.

Every function runs under `sched_lock` or the lock of its thread, so each is one step;
`κ` are the processors and `τ` the threads.  The lists `threads` and `tasks`, the
reference counts, contexts, children and zombies are left out.
-/

inductive ThreadState where
  | building
  | awake
  | sleeping
  | exited
  | idle
deriving DecidableEq, Repr

def ThreadState.code : ThreadState → Nat
  | .building => 0
  | .awake => 1
  | .sleeping => 2
  | .exited => 3
  | .idle => 4

inductive ExitState where
  | running
  | exiting
  | exited
deriving DecidableEq, Repr

structure TaskNode (τ : Type) where
  pid : Nat
  exitState : ExitState
  exitCode : Nat
  exitCause : Nat
  threads : List τ

structure Thread where
  active : Bool
  state : ThreadState
  insem : Bool
  shouldDie : Bool
  sigPending : UInt32
  node : Nat

structure Scheduler (κ τ : Type) where
  thread : τ → Thread
  nodes : Nat → TaskNode τ
  queuedThreads : Links (Unit ⊕ τ)
  pollThreads : Links (Unit ⊕ τ)
  threadCount : UInt32
  tasksGoing : UInt32
  suspendedThreads : UInt32
  taskingUp : Bool
  current : κ → τ
  idleTask : κ → τ
  /-- The threads whose `sleep_callback` is still to be called. -/
  timers : List τ

variable {κ τ : Type} [DecidableEq κ] [DecidableEq τ]

namespace Scheduler

def modify (s : Scheduler κ τ) (t : τ) (change : Thread → Thread) : Scheduler κ τ :=
  { s with thread := fun other => if other = t then change (s.thread t) else s.thread other }

def setState (s : Scheduler κ τ) (t : τ) (state : ThreadState) : Scheduler κ τ :=
  s.modify t (fun thread => { thread with state })

def setActive (s : Scheduler κ τ) (t : τ) (active : Bool) : Scheduler κ τ :=
  s.modify t (fun thread => { thread with active })

def setNode (s : Scheduler κ τ) (n : Nat) (node : TaskNode τ) : Scheduler κ τ :=
  { s with nodes := fun other => if other = n then node else s.nodes other }

def enqueue (s : Scheduler κ τ) (t : τ) : Scheduler κ τ :=
  { s with queuedThreads := listAdd (.inr t) (.inl ()) s.queuedThreads }

end Scheduler

def threadSleepPrepare (c : κ) (s : Scheduler κ τ) : Except Fault (Scheduler κ τ) := do
  let me := s.current c
  bugOn (!(s.thread me).active) "src/sched/sched.c" 732
  bugOn ((s.thread me).state != .awake) "src/sched/sched.c" 733
  return s.setState me .sleeping

def doWake (t : τ) (s : Scheduler κ τ) : Scheduler κ τ :=
  if (s.thread t).state ≠ .awake then
    let s := if (s.thread t).state = .sleeping then s.setState t .awake else s
    if !(s.thread t).active then s.enqueue t else s
  else s

def threadWake (t : τ) (s : Scheduler κ τ) : Scheduler κ τ := doWake t s

def threadPoke (t : τ) (s : Scheduler κ τ) : Scheduler κ τ :=
  if (s.thread t).state = .sleeping then doWake t s else s

def threadBuild (t : τ) (node : Nat) (s : Scheduler κ τ) : Scheduler κ τ :=
  (s.modify t (fun _ =>
    { active := false, state := .building, insem := false, shouldDie := false, sigPending := 0,
      node })).setNode node { s.nodes node with threads := t :: (s.nodes node).threads }

def threadSchedule (t : τ) (s : Scheduler κ τ) : Scheduler κ τ :=
  doWake t ({ s with threadCount := s.threadCount + 1 }.setState t .sleeping)

/-- `thread_die` up to its switch. -/
def threadDie (c : κ) (s : Scheduler κ τ) : Scheduler κ τ := s.setState (s.current c) .exited

def threadMarkDie (t : τ) (s : Scheduler κ τ) : Scheduler κ τ :=
  s.modify t (fun thread => { thread with shouldDie := true })

def threadSendSignal (t : τ) (sig : UInt32) (s : Scheduler κ τ) : Scheduler κ τ :=
  threadPoke t (s.modify t (fun thread =>
    { thread with sigPending := thread.sigPending ||| (1 <<< sig) }))

def taskNodeExit (c : κ) (code cause : Nat) (s : Scheduler κ τ) : Scheduler κ τ :=
  let n := (s.thread (s.current c)).node
  let s := s.setNode n { s.nodes n with exitCode := code, exitCause := cause }
  if (s.nodes n).exitState = .running then
    let s := s.setNode n { s.nodes n with exitState := .exiting }
    (s.nodes n).threads.foldl (fun s t => threadMarkDie t s) s
  else s

/-- `msleep` up to its switch. -/
def sysMsleep (c : κ) (s : Scheduler κ τ) : Except Fault (Scheduler κ τ) := do
  let s ← threadSleepPrepare c s
  return { s with timers := s.current c :: s.timers }

/-- A timer of `msleep` runs out. -/
def sleepCallback (t : τ) (s : Scheduler κ τ) : Scheduler κ τ :=
  threadWake t { s with timers := s.timers.erase t }

def taskNodeZombify (n : Nat) (s : Scheduler κ τ) : Except Fault (Scheduler κ τ) :=
  if (s.nodes n).pid = 1 then .error (.panicf "init exited" [])
  else .ok (s.setNode n { s.nodes n with exitState := .exited })

def deactivateThread (t : τ) (s : Scheduler κ τ) : Except Fault (Scheduler κ τ) :=
  match (s.thread t).state with
  | .idle => .ok s
  | .awake => do
      bugOn (!(s.thread t).active) "src/sched/sched.c" 1073
      return { s.enqueue t with tasksGoing := s.tasksGoing - 1 }
  | .sleeping => .ok { s with tasksGoing := s.tasksGoing - 1 }
  | .exited =>
      let n := (s.thread t).node
      let s := s.setNode n { s.nodes n with threads := (s.nodes n).threads.erase t }
      if (s.nodes n).threads.isEmpty then taskNodeZombify n s else .ok s
  | .building => .error (.bug "src/sched/sched.c" 1110)

/-- The thread taken from the queue; the loop of the source never turns twice. -/
def lockNextCurrent (c : κ) (s : Scheduler κ τ) : Except Fault (Scheduler κ τ × τ) :=
  if s.taskingUp && !listEmpty s.queuedThreads (.inl ()) then
    match listFirst s.queuedThreads (.inl ()) with
    | .inl _ => .error .strayEntry
    | .inr t =>
        let s := { s with queuedThreads := listRm (.inr t) s.queuedThreads }
        match (s.thread t).state with
        | .awake => .ok ({ s with tasksGoing := s.tasksGoing + 1 }, t)
        | state => .error (.panicf "illegal state %u" [state.code])
  else .ok (s, s.idleTask c)

def finishSchedSwitch (c : κ) (old next : τ) (s : Scheduler κ τ) :
    Except Fault (Scheduler κ τ) := do
  let s := { s with current := fun other => if other = c then next else s.current other }
  bugOn (decide (old ≠ next) && (s.thread next).active) "src/sched/sched.c" 1152
  let s := (s.setActive old false).setActive next true
  bugOn ((s.thread next).state != .idle && (s.thread next).state != .awake)
    "src/sched/sched.c" 1158
  return s

def doSchedSwitch (c : κ) (s : Scheduler κ τ) : Except Fault (Scheduler κ τ) := do
  let old := s.current c
  let s ← deactivateThread old s
  let (s, next) ← lockNextCurrent c s
  finishSchedSwitch c old next s

/-- `sched_suspend_pending_interrupt` up to its switch. -/
def schedSuspendPendingInterrupt (c : κ) (s : Scheduler κ τ) : Except Fault (Scheduler κ τ) :=
  threadSleepPrepare c
    { s with
      pollThreads := listAdd (.inr (s.current c)) (.inl ()) s.pollThreads
      suspendedThreads := s.suspendedThreads + 1 }

/-- One turn of the loop of `sched_interrupt_notify`; `pos` is the cell it is at. -/
def notifyTurn (loop : (Unit ⊕ τ) × Scheduler κ τ) :
    Except Fault ((Unit ⊕ τ) × Scheduler κ τ) :=
  match loop.1 with
  | .inl _ => .error .strayEntry
  | .inr t =>
      let s := doWake t { loop.2 with suspendedThreads := loop.2.suspendedThreads - 1 }
      .ok ((s.pollThreads (.inr t)).next, s)

/-- At most `bound` turns; the source has no bound. -/
def schedInterruptNotify (bound : Nat) (s : Scheduler κ τ) : Except Fault (Scheduler κ τ) := do
  let (_, s) ← whileLoop (fun loop => decide (loop.1 ≠ .inl ())) notifyTurn .unfinished bound
    (listFirst s.pollThreads (.inl ()), s)
  if s.suspendedThreads ≠ 0 then
    .error (.panicf "%u suspended orphans" [s.suspendedThreads.toNat])
  else return { s with pollThreads := listInit (.inl ()) s.pollThreads }

end KOs.Sched

import KOs.Sched.Tasks

namespace KOs.Sched.Groups

open KOs.Common KOs.Data

/-! Process groups, from `sched/sched.c` and `sched/syscall.c`.

Task nodes and groups are numbered as they are built and never freed, and `tasks` and `pgroups` have
the newest entry first.  The `members` lists are link cells: `Sum.inl g` is the head of group `g`, and
`Sum.inr t` the entry of task `t`.  Of a session there is the reference of each member to the leader.
-/

structure GroupState where
  count : Nat
  nextPid : Nat
  pid : Nat → Nat
  parent : Nat → Option Nat
  refs : Nat → Nat
  session : Nat → Nat
  pgroup : Nat → Nat
  tasks : List Nat
  sessionCount : Nat
  sessionLeader : Nat → Nat
  groupCount : Nat
  leader : Nat → Nat
  pgroups : List Nat
  members : Links (Nat ⊕ Nat)

def eperm : Int := 1
def eacces : Int := 13
def einval : Int := 22

namespace GroupState

/-- `refs` is a `uint32_t`. -/
def hold (n : Nat) (s : GroupState) : GroupState := { s with refs := Function.update s.refs n (wadd (s.refs n) 1) }

/-- For a count that is not zero. -/
def release (n : Nat) (s : GroupState) : GroupState := { s with refs := Function.update s.refs n (s.refs n - 1) }

end GroupState

def taskNodeGet (n : Nat) (s : GroupState) : Except Fault GroupState := do
  bugOn (s.refs n = 0) "src/sched/sched.c" 394
  return s.hold n

def taskNodePut (n : Nat) (s : GroupState) : Except Fault GroupState := do
  bugOn (s.refs n = 0) "src/sched/sched.c" 405
  let s := s.release n
  if s.refs n = 0 then .error (.panicf "task_node_destroy()" []) else return s

/-- The head of the list is taken for a task if no entry has the pid: the reference is counted before
the result is looked at. -/
def taskNodeFind (pid : Int) (s : GroupState) : Except Fault (Nat × GroupState) :=
  match s.tasks.find? (fun t => (s.pid t : Int) = pid) with
  | some t => (taskNodeGet t s).map fun s => (t, s)
  | none => .error .strayEntry

def sessionAdd (new session : Nat) (s : GroupState) : Except Fault GroupState := do
  let s ← taskNodeGet (s.sessionLeader session) s
  return { s with session := Function.update s.session new session }

def sessionCreate (t : Nat) (s : GroupState) : Except Fault GroupState :=
  let session := s.sessionCount
  sessionAdd t session { s with
    sessionCount := session + 1
    sessionLeader := Function.update s.sessionLeader session t }

def pgroupAdd (new pg : Nat) (s : GroupState) : Except Fault GroupState := do
  let s ← taskNodeGet (s.leader pg) s
  return { s with
    pgroup := Function.update s.pgroup new pg
    members := listAdd (.inr new) (.inl pg) s.members }

def pgroupCreate (t : Nat) (s : GroupState) : Except Fault GroupState := do
  let pg := s.groupCount
  let s ← pgroupAdd t pg { s with
    groupCount := pg + 1
    leader := Function.update s.leader pg t
    members := listInit (.inl pg) s.members }
  return { s with pgroups := pg :: s.pgroups }

def pgroupRm (t : Nat) (s : GroupState) : Except Fault GroupState :=
  let pg := s.pgroup t
  taskNodePut (s.leader pg) { s with members := listRm (.inr t) s.members }

def pgroupFind (pid : Int) (s : GroupState) : Option Nat :=
  s.pgroups.find? fun pg => (s.pid (s.leader pg) : Int) = pid

/-- `task_node_build`, as far as it concerns pids, references, sessions and groups. -/
def taskNodeBuild (parent : Option Nat) (s : GroupState) : Except Fault GroupState := do
  let n := s.count
  let s := { s with
    count := n + 1
    nextPid := s.nextPid + 1
    pid := Function.update s.pid n s.nextPid
    parent := Function.update s.parent n parent
    refs := Function.update s.refs n 1 }
  let s ←
    match parent with
    | some parent => do
        let s ← sessionAdd n (s.session parent) s
        pgroupAdd n (s.pgroup parent) s
    | none => do
        let s ← sessionCreate n s
        pgroupCreate n s
  return { s with tasks := n :: s.tasks }

/-- From a task up to the first one without a parent: whether the pid is met. -/
def isWithin (s : GroupState) (pid : Nat) : Nat → Option Nat → Except Fault Bool
  | 0, _ => .error .unfinished
  | _ + 1, none => .ok false
  | bound + 1, some cur => if s.pid cur = pid then .ok true else isWithin s pid bound (s.parent cur)

def sysGetpgid (me : Nat) (pid : Int) (s : GroupState) : Except Fault (Int × GroupState) :=
  if pid = 0 ∨ pid = s.pid me then .ok (s.pid (s.leader (s.pgroup me)), s)
  else do
    let (node, s) ← taskNodeFind pid s
    let ret : Int := s.pid (s.leader (s.pgroup node))
    let s ← taskNodePut node s
    return (ret, s)

/-- The second half of `setpgid`, for the node that was found or the caller's. -/
def changeGroup (node : Nat) (pgid : Int) (s : GroupState) : Except Fault (Int × GroupState) :=
  if pgid = 0 ∨ pgid = s.pid node then do
    let s ← pgroupRm node s
    let s ← pgroupCreate node s
    let s ← taskNodePut node s
    return (0, s)
  else
    match pgroupFind pgid s with
    | none => .ok (-eperm, s)
    | some pg => do
        let s ← pgroupRm node s
        let s ← pgroupAdd node pg s
        let s ← taskNodePut node s
        return (0, s)

def sysSetpgid (me : Nat) (pid pgid : Int) (s : GroupState) : Except Fault (Int × GroupState) :=
  if pid < 0 ∨ pgid < 0 then .ok (-einval, s)
  else if pid ≠ 0 ∧ pid ≠ s.pid me then do
    let (node, s) ← taskNodeFind pid s
    let within ← isWithin s (s.pid me) (s.count + 1) (some node)
    if within then changeGroup node pgid s else .ok (-eacces, s)
  else do
    let s ← taskNodeGet me s
    changeGroup me pgid s

/-- `pgroup_send_signal`: the tasks that the signal is sent to. -/
def pgroupSendSignal (bound pg : Nat) (s : GroupState) : Except Fault (List Nat) :=
  listWalk s.members pg bound (listFirst s.members (.inl pg))

inductive GroupEvent where
  | fork (parent : Nat)
  | setpgid (me : Nat) (pid pgid : Int)
deriving DecidableEq, Repr

def grouping : Machine GroupState GroupEvent Fault where
  enabled event s :=
    match event with
    | .fork parent => decide (parent < s.count) && decide (s.count < Tasks.maxTaskNodes)
    | .setpgid me _ _ => decide (me < s.count)
  perform event s :=
    match event with
    | .fork parent => taskNodeBuild (some parent) s
    | .setpgid me pid pgid => (sysSetpgid me pid pgid s).map Prod.snd

def noTasks : GroupState where
  count := 0
  nextPid := 0
  pid := fun _ => 0
  parent := fun _ => none
  refs := fun _ => 0
  session := fun _ => 0
  pgroup := fun _ => 0
  tasks := []
  sessionCount := 0
  sessionLeader := fun _ => 0
  groupCount := 0
  leader := fun _ => 0
  pgroups := []
  members := ⟨fun node => ⟨node, node⟩⟩

def schedInit : Except Fault GroupState := do
  let s ← taskNodeBuild none noTasks
  taskNodeBuild none s

end KOs.Sched.Groups

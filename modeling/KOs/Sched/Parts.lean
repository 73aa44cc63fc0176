import KOs.Sched.Birth
import KOs.Sched.Membership
import KOs.Sched.Reaping
import KOs.Sched.Runs

namespace KOs.Sched

open KOs.Common KOs.Data

/-! The run queue, the process tree, the groups, the block of a new task and its signals are parts of one
`sched/sched.c`: what two of them keep of a task they change alike. -/

section Exit

variable {κ τ : Type} {s s' : Scheduler κ τ} {tree tree' : Tasks.Tree} {n : Nat}

def SameNode (node : TaskNode τ) (node' : Tasks.TaskNode) : Prop :=
  node.pid = node'.pid ∧ node.exitState = node'.exitState ∧ node.exitCode = node'.exitCode ∧
    node.exitCause = node'.exitCause

def SameNodes (s : Scheduler κ τ) (tree : Tasks.Tree) : Prop :=
  ∀ n, SameNode (s.nodes n) (tree.node n)

theorem SameNodes.setNode (same : SameNodes s tree) {node : TaskNode τ} {node' : Tasks.TaskNode}
    (new : SameNode node node') : SameNodes (s.setNode n node) (tree.setNode n node') := by
  intro m
  by_cases here : m = n
  · simpa [Scheduler.setNode, Tasks.Tree.setNode, here] using new
  · simpa [Scheduler.setNode, Tasks.Tree.setNode, here] using same m

theorem SameNodes.zombify (same : SameNodes s tree) (ran : Tasks.taskNodeZombify n tree = .ok tree') :
    ∃ s', taskNodeZombify n s = .ok s' ∧ SameNodes s' tree' := by
  obtain ⟨notFirst, _, _, rfl⟩ := Tasks.zombify_eq ran
  obtain ⟨pid, _, code, cause⟩ := same n
  exact ⟨_, if_neg (pid ▸ notFirst), same.setNode ⟨pid, rfl, code, cause⟩⟩

variable [DecidableEq τ]

theorem markDie_nodes (threads : List τ) (s : Scheduler κ τ) :
    (threads.foldl (fun s t => threadMarkDie t s) s).nodes = s.nodes := by
  induction threads generalizing s with
  | nil => rfl
  | cons t _ ih => exact ih (threadMarkDie t s)

theorem SameNodes.exit (same : SameNodes s tree) (c : κ) (code cause : Nat) :
    SameNodes (taskNodeExit c code cause s) (Tasks.taskNodeExit (s.thread (s.current c)).node code cause tree) := by
  rw [taskNodeExit, Tasks.taskNodeExit, Tasks.taskNodeEnsureNotExiting]
  generalize (s.thread (s.current c)).node = n
  obtain ⟨pid, state, _⟩ := same n
  have coded : SameNodes (s.setNode n { s.nodes n with exitCode := code, exitCause := cause })
      (tree.setNode n { tree.node n with exitCode := code, exitCause := cause }) := same.setNode ⟨pid, state, rfl, rfl⟩
  obtain ⟨pid, state, code, cause⟩ := coded n
  simp only [state, decide_eq_true_eq]
  split
  · rw [SameNodes, markDie_nodes]
    exact coded.setNode ⟨pid, rfl, code, cause⟩
  · exact coded

theorem threadPoke_sigPending (t u : τ) (s : Scheduler κ τ) :
    ((threadPoke t s).thread u).sigPending = (s.thread u).sigPending := by
  rw [threadPoke]
  split
  next asleep =>
    obtain ⟨_, same⟩ := doWake_eq t s
    simp only [same, if_pos asleep, Scheduler.setState, Scheduler.modify]
    split <;> simp_all
  · rfl

/-- A signal that is sent to a thread is added to what is pending for it. -/
theorem sendSignal_same {task : Signals.SigTask} {t : τ} (same : (s.thread t).sigPending = task.sigPending) (sig : Nat) :
    ((threadSendSignal t (UInt32.ofNat sig) s).thread t).sigPending = (Signals.threadSendSignal sig task).sigPending := by
  rw [threadSendSignal, threadPoke_sigPending]
  simp [Scheduler.modify, same, Signals.threadSendSignal, Signals.sigaddset, bit]

end Exit

section Build

open Groups

variable {g g' : GroupState} {tree tree' : Tasks.Tree} {parent n : Nat}

structure SameTasks (g : GroupState) (tree : Tasks.Tree) : Prop where
  count : g.count = tree.count
  nextPid : g.nextPid = tree.nextPid
  node : ∀ n < tree.count, g.pid n = (tree.node n).pid ∧ g.parent n = (tree.node n).parent

theorem get_returns (ran : taskNodeGet n g = .ok g') : g' = g.hold n := by
  obtain ⟨_, _, held⟩ := bind_returns ran
  exact (Except.ok.inj held).symm

theorem build_eq (ran : Groups.taskNodeBuild (some parent) g = .ok g') :
    ∃ refs members, g' = { g with
      count := g.count + 1
      nextPid := g.nextPid + 1
      pid := Function.update g.pid g.count g.nextPid
      parent := Function.update g.parent g.count (some parent)
      session := Function.update g.session g.count (g.session parent)
      pgroup := Function.update g.pgroup g.count (g.pgroup parent)
      tasks := g.count :: g.tasks
      refs
      members } := by
  obtain ⟨_, joined, ran⟩ := bind_returns ran
  obtain ⟨_, entered, ran⟩ := bind_returns ran
  cases ran
  obtain ⟨_, got, joined⟩ := bind_returns joined
  cases joined
  cases get_returns got
  obtain ⟨_, got, entered⟩ := bind_returns entered
  cases entered
  cases get_returns got
  exact ⟨_, _, rfl⟩

theorem SameTasks.build (same : SameTasks g tree) (room : tree.nextPid + 1 < wordSize) (inside : parent < tree.count)
    (ran : Groups.taskNodeBuild (some parent) g = .ok g') (exitCode exitCause : Nat) :
    SameTasks g' (Tasks.taskNodeBuild parent exitCode exitCause tree) := by
  obtain ⟨_, _, rfl⟩ := build_eq ran
  obtain ⟨count, nextPid, node⟩ := same
  refine ⟨congrArg (· + 1) count, ?_, fun n below => ?_⟩
  · show g.nextPid + 1 = wadd tree.nextPid 1
    rw [wadd_eq room, nextPid]
  · rcases Tasks.older_or_new below with old | rfl
    · obtain ⟨_, kept⟩ := Tasks.build_older exitCode exitCause inside old
      simpa [kept, count, old.ne] using node n old
    · simp [Tasks.build_new inside, count, nextPid]

theorem sameTasks_init : ∃ g, Groups.schedInit = .ok g ∧ SameTasks g Tasks.schedInit :=
  ⟨_, rfl, rfl, rfl, by decide⟩

/-- The block of a new task holds what the tree and the groups record of it. -/
theorem SameTasks.block (same : SameTasks g tree) (inside : parent < tree.count)
    (ran : Groups.taskNodeBuild (some parent) g = .ok g') (block : Birth.TaskNode) {up : Birth.Parent}
    (session : up.node.session = g.session parent) (pgroup : up.node.pgroup = g.pgroup parent) :
    let node := Birth.taskNodeBuild block (some up) 0 0 g.nextPid 0 0
    let task := (Tasks.taskNodeBuild parent block.exitCode block.exitCause tree).node tree.count
    node.pid = task.pid ∧ node.exitCode = task.exitCode ∧ node.exitCause = task.exitCause ∧
      node.exitState = Birth.taskRunning ∧ task.exitState = .running ∧
      node.session = g'.session g.count ∧ node.pgroup = g'.pgroup g.count := by
  obtain ⟨_, _, rfl⟩ := build_eq ran
  simp [Birth.taskNodeBuild, Tasks.build_new inside, same.nextPid, session, pgroup]

theorem SameTasks.setNode (same : SameTasks g tree) {node : Tasks.TaskNode} (pid : node.pid = (tree.node n).pid)
    (parent : node.parent = (tree.node n).parent) : SameTasks g (tree.setNode n node) := by
  refine ⟨same.count, same.nextPid, fun m below => ?_⟩
  by_cases here : m = n
  · simpa [Tasks.Tree.setNode, here, pid, parent] using same.node n (here ▸ below)
  · simpa [Tasks.Tree.setNode, here] using same.node m below

theorem SameTasks.turn (same : SameTasks g tree) {wait : Tasks.Wait} {next : Tasks.Tree × Bool → Except Fault Tasks.Tree}
    (later : ∀ tree returned, ∃ waiting, next (tree, returned) = .ok { tree with waiting })
    (ran : (Tasks.waitTurn n tree wait).bind next = .ok tree') : SameTasks g tree' := by
  obtain ⟨⟨middle, returned⟩, turned, rest⟩ := bind_returns ran
  obtain ⟨count, nextPid, node⟩ : SameTasks g middle := by
    cases wait with
    | anyChild =>
      obtain ⟨_, reaped, reported⟩ := bind_returns turned
      rw [Tasks.reapZombie] at reaped
      split at reaped
      · cases reaped
        cases reported
        exact same
      · split at reaped <;> cases reaped
        cases reported
        exact ⟨same.count, same.nextPid, same.node⟩
    | child =>
      rw [Tasks.waitTurn] at turned
      split at turned <;> cases turned <;> exact ⟨same.count, same.nextPid, same.node⟩
  obtain ⟨_, done⟩ := later middle returned
  cases done.symm.trans rest
  exact ⟨count, nextPid, node⟩

theorem SameTasks.step {event : Tasks.TaskEvent} (same : SameTasks g tree)
    (ran : Tasks.tasks.perform event tree = .ok tree') :
    (∃ n code cause, event = .fork n code cause) ∨ SameTasks g tree' := by
  cases event with
  | fork => exact .inl ⟨_, _, _, rfl⟩
  | exit n code cause =>
    cases ran
    have coded : SameTasks g (tree.setNode n { tree.node n with exitCode := code, exitCause := cause }) :=
      same.setNode rfl rfl
    rw [Tasks.taskNodeExit]
    split
    · exact .inr (coded.setNode rfl rfl)
    · exact .inr coded
  | zombify n =>
    obtain ⟨_, _, _, rfl⟩ := Tasks.zombify_eq ran
    have exited : SameTasks g (tree.setNode n { tree.node n with exitState := .exited }) := same.setNode rfl rfl
    exact .inr ⟨exited.count, exited.nextPid, exited.node⟩
  | waitpid =>
    simp only [Tasks.tasks, Tasks.sysWaitpid] at ran
    split at ran
    · refine .inr (same.turn (fun tree returned => ?_) ran)
      split_ifs <;> exact ⟨_, rfl⟩
    · split at ran
      · split at ran
        · contradiction
        · refine .inr (same.turn (fun tree returned => ?_) ran)
          split_ifs <;> exact ⟨_, rfl⟩
      · contradiction
  | resume =>
    simp only [Tasks.tasks, Tasks.resume] at ran
    split at ran
    · cases ran
      exact .inr same
    · refine .inr (same.turn (fun tree returned => ?_) ran)
      split_ifs <;> exact ⟨_, rfl⟩

/-- For every run of the process tree there is one of the groups with the same tasks. -/
theorem tasks_grouped {allowed : Tasks.Tree → Tasks.TaskEvent → Prop}
    (path : Tasks.tasks.Reaches allowed Tasks.schedInit tree) :
    ∃ start g, Groups.schedInit = .ok start ∧ grouping.Reaches Orderly start g ∧ SameTasks g tree := by
  obtain ⟨start, lists, built, sound⟩ := schedInit_sound
  obtain ⟨_, init, same⟩ := sameTasks_init
  cases built.symm.trans init
  obtain ⟨g, _, reached, _, same⟩ := path.preserves
    (fun tree => ∃ g lists, grouping.Reaches Orderly start g ∧ Groups.Sound [] none g lists ∧ SameTasks g tree)
    ⟨start, lists, .refl, sound, same⟩ (by
      rintro tree event tree' ⟨g, lists, reached, sound, same⟩ _ enabled ran
      -- only a fork is a step of the groups
      rcases same.step ran with ⟨n, code, cause, rfl⟩ | kept
      · simp only [Tasks.tasks, Bool.and_eq_true, decide_eq_true_eq, Tasks.inUser_iff, ← same.count] at enabled
        obtain ⟨⟨⟨inside, _⟩, _⟩, more⟩ := enabled
        obtain ⟨g', lists, built, sound'⟩ := sound.fork inside more
        cases ran
        have room : tree.nextPid + 1 < wordSize := by
          rw [← same.nextPid, sound.nextPid]
          exact Nat.lt_of_le_of_lt more (by decide)
        exact ⟨g', lists, reached.tail ⟨.fork n, trivial, by simp [grouping, inside, more], built⟩, sound',
          same.build room (same.count ▸ inside) built code cause⟩
      · exact ⟨g, lists, reached, sound, kept⟩)
  exact ⟨start, g, built, reached, same⟩

end Build

end KOs.Sched

import KOs.Sched.Tasks

namespace KOs.Sched.Tasks

open KOs.Common KOs.Data Function List Tasks.Tree

namespace Tree

/-- The tasks whose list of zombies is in use. -/
def Live (s : Tree) : Set Nat := {n | n < s.count ∧ (s.node n).exitState ≠ .exited}

def Reported (s : Tree) (c : Nat) : Prop := ∃ r ∈ s.reports, r.task = c

structure Shaped (s : Tree) : Prop where
  roots : initNode < s.count
  nextPid : s.nextPid = s.count
  pid : ∀ n, n < s.count → (s.node n).pid = n
  parent : ∀ n p, n < s.count → (s.node n).parent = some p → p < s.count
  children : ∀ n, n < s.count → ∀ c, c ∈ (s.node n).children ↔ c < s.count ∧ (s.node c).parent = some n
  nodup : ∀ n, n < s.count → (s.node n).children.Nodup
  init : (s.node initNode).exitState ≠ .exited

structure Faithful (s : Tree) (r : Report) : Prop where
  task : r.task < s.count
  exited : (s.node r.task).exitState = .exited
  pid : r.pid = (s.node r.task).pid
  status : r.statLoc = true →
    r.stored = some (mkStatcode (s.node r.task).exitCode (s.node r.task).exitCause)

/-- What is known of a call that waits.  The child that `n` waits for is no one else's to report. -/
def Awaited (byPid : Nat → Bool) (s : Tree) (n : Nat) : Wait → Prop
  | .anyChild _ => byPid n = false
  | .child c pid statLoc => byPid n = true ∧ pid = c ∧ statLoc = false ∧
      c < s.count ∧ (s.node c).parent = some n ∧ ¬ s.Reported c

/-- The lists of zombies hold the exited tasks that are still to be reported by their
parent or, after it, by init. -/
structure Sound (byPid : Nat → Bool) (s : Tree) (lists : Nat → List Nat) : Prop extends Shaped s where
  represents : s.zombies.Represents s.Live lists
  listed : ∀ n c, c ∈ lists n → c < s.count ∧ (s.node c).exitState = .exited ∧
    ∃ p, (s.node c).parent = some p ∧ (p = n ∨ n = initNode ∧ (s.node p).exitState = .exited)
  kept : ∀ c p, c < s.count → (s.node c).exitState = .exited → (s.node c).parent = some p → ¬ s.Reported c →
    ((s.node p).exitState = .running → c ∈ lists p) ∧ ((s.node p).exitState = .exited → c ∈ lists initNode)
  orphans : ∀ c p, c < s.count → (s.node c).exitState ≠ .exited → (s.node c).parent = some p →
    (s.node p).exitState ≠ .exited
  fresh : ∀ n c, byPid n = false → c ∈ lists n → (s.node c).parent = some n → ¬ s.Reported c
  faithful : ∀ r ∈ s.reports, s.Faithful r
  once : (s.reports.map Report.task).Nodup
  waits : ∀ n wait, s.waiting n = some wait → n ∈ s.Live ∧ s.Awaited byPid n wait

/-- The task at the front of the zombies of `n`, if there is one, is a child of `n`. -/
def ownFirst (s : Tree) (n : Nat) : Bool :=
  match listFirst s.zombies (.inl n) with
  | .inl _ => true
  | .inr z => (s.node z).parent = some n

end Tree

/-- A parent exits after its children.  The tasks of `byPid` wait for children that are still
running, by their pids; the others wait for any child. -/
def orderly (byPid : Nat → Bool) (s : Tree) : TaskEvent → Bool
  | .fork _ _ _ => true
  | .exit _ _ _ => true
  | .zombify n => (s.node n).children.all (fun c => (s.node c).exitState = .exited)
  | .waitpid n pid statLoc _ =>
      if byPid n then
        decide (0 < pid) && !statLoc && (findChild n pid s).all (fun c => (s.node c).exitState ≠ .exited)
      else decide (pid = -1) && s.ownFirst n
  | .resume n => byPid n || s.ownFirst n

variable {byPid : Nat → Bool} {s s' : Tree} {lists : Nat → List Nat}
variable {r : Report}

namespace Tree

/-- What becomes of a node while its task does not exit. -/
structure Follows (node node' : TaskNode) : Prop where
  parent : node'.parent = node.parent
  exited : node'.exitState = .exited ↔ node.exitState = .exited
  running : node'.exitState = .running → node.exitState = .running
  settled : node.exitState = .exited →
    node'.pid = node.pid ∧ node'.exitCode = node.exitCode ∧ node'.exitCause = node.exitCause

theorem Follows.children (node : TaskNode) (children : List Nat) : Follows node { node with children } :=
  ⟨rfl, .rfl, id, fun _ => ⟨rfl, rfl, rfl⟩⟩

structure Grows (s s' : Tree) : Prop where
  count : s.count ≤ s'.count
  old : ∀ m, m < s.count → Follows (s.node m) (s'.node m)
  fresh : ∀ m, s.count ≤ m → m < s'.count → (s'.node m).exitState ≠ .exited ∧
    ∀ p, (s'.node m).parent = some p → p < s.count ∧ (s.node p).exitState ≠ .exited
  reports : s'.reports = s.reports
  waiting : s'.waiting = s.waiting

theorem Faithful.keep (faithful : s.Faithful r) (count : s.count ≤ s'.count)
    (follows : Follows (s.node r.task) (s'.node r.task)) : s'.Faithful r := by
  obtain ⟨pid, code, cause⟩ := follows.settled faithful.exited
  refine ⟨faithful.task.trans_le count, follows.exited.mpr faithful.exited, ?_, ?_⟩
  · rw [pid]
    exact faithful.pid
  · rw [code, cause]
    exact faithful.status

theorem Faithful.same (faithful : s.Faithful r) (count : s.count ≤ s'.count)
    (node : s'.node r.task = s.node r.task) : s'.Faithful r :=
  faithful.keep count (node ▸ .children _ _)

theorem Sound.grow (sound : s.Sound byPid lists) (grows : Grows s s') (shaped : s'.Shaped)
    (represents : s'.zombies.Represents s'.Live lists) : s'.Sound byPid lists := by
  -- an exited task is an old one, and so is the parent of any task
  have old : ∀ c < s'.count, (s'.node c).exitState = .exited → c < s.count := by
    intro c within exited
    by_contra beyond
    exact (grows.fresh c (not_lt.mp beyond) within).1 exited
  have reported : ∀ c, s'.Reported c ↔ s.Reported c := fun c => by rw [Reported, grows.reports, Reported]
  refine ⟨shaped, represents, ?_, ?_, ?_, ?_, ?_, ?_, ?_⟩
  · intro n c mem
    obtain ⟨inside, exited, p, parent, place⟩ := sound.listed n c mem
    refine ⟨inside.trans_le grows.count, (grows.old c inside).exited.mpr exited, p, ?_, ?_⟩
    · rw [(grows.old c inside).parent]
      exact parent
    · refine place.imp_right fun orphan => ⟨orphan.1, ?_⟩
      exact (grows.old p (sound.parent c p inside parent)).exited.mpr orphan.2
  · intro c p within exited parent unreported
    have inside := old c within exited
    rw [(grows.old c inside).parent] at parent
    have bound := sound.parent c p inside parent
    have kept := sound.kept c p inside ((grows.old c inside).exited.mp exited) parent (mt (reported c).mpr unreported)
    exact ⟨fun running => kept.1 ((grows.old p bound).running running),
      fun exited => kept.2 ((grows.old p bound).exited.mp exited)⟩
  · intro c p within alive parent
    by_cases inside : c < s.count
    · rw [(grows.old c inside).parent] at parent
      have bound := sound.parent c p inside parent
      intro exited
      refine sound.orphans c p inside ?_ parent ((grows.old p bound).exited.mp exited)
      exact fun exited => alive ((grows.old c inside).exited.mpr exited)
    · obtain ⟨bound, parentAlive⟩ := (grows.fresh c (not_lt.mp inside) within).2 p parent
      exact fun exited => parentAlive ((grows.old p bound).exited.mp exited)
  · intro n c any mem parent
    rw [(grows.old c (sound.listed n c mem).1).parent] at parent
    exact mt (reported c).mp (sound.fresh n c any mem parent)
  · intro r mem
    rw [grows.reports] at mem
    have faithful := sound.faithful r mem
    exact faithful.keep grows.count (grows.old _ faithful.task)
  · rw [grows.reports]
    exact sound.once
  · intro n wait waiting
    rw [grows.waiting] at waiting
    obtain ⟨live, awaited⟩ := sound.waits n wait waiting
    refine ⟨⟨live.1.trans_le grows.count, fun exited => live.2 ((grows.old n live.1).exited.mp exited)⟩, ?_⟩
    cases wait with
    | anyChild => exact awaited
    | child c =>
      obtain ⟨one, pid, null, bound, parent, unreported⟩ := awaited
      refine ⟨one, pid, null, bound.trans_le grows.count, ?_, mt (reported c).mp unreported⟩
      rw [(grows.old c bound).parent]
      exact parent

theorem live_insert (count : s'.count = s.count + 1)
    (exited : ∀ m < s.count, ((s'.node m).exitState = .exited ↔ (s.node m).exitState = .exited))
    (new : (s'.node s.count).exitState ≠ .exited) : s'.Live = insert s.count s.Live := by
  ext m
  simp only [Live, Set.mem_ofPred_eq, Set.mem_insert_iff, count]
  rcases lt_trichotomy m s.count with older | rfl | beyond
  · simp [Nat.lt_succ_of_lt _, older, older.ne, exited m _]
  · simp [new]
  · have outside : ¬ m < s.count + 1 := by omega
    have outside' : ¬ m < s.count := by omega
    simp [outside, outside', beyond.ne']

end Tree

variable {n code cause : Nat}

section Build

variable {m : Nat}

theorem build_node (inside : n < s.count) (m : Nat) :
    (taskNodeBuild n code cause s).node m =
      if m = s.count then { pid := s.nextPid, parent := some n, exitState := .running,
                            exitCode := code, exitCause := cause, children := [] }
      else if m = n then { s.node n with children := s.count :: (s.node n).children }
      else s.node m := by
  have apart : n ≠ s.count := inside.ne
  simp only [taskNodeBuild, setNode]
  by_cases own : m = n
  · subst own
    simp [if_neg apart]
  · by_cases new : m = s.count
    · simp [new, if_neg apart.symm]
    · simp only [if_neg own, if_neg new]

theorem build_older (code cause : Nat) (inside : n < s.count) (older : m < s.count) :
    ∃ children, (taskNodeBuild n code cause s).node m = { s.node m with children } := by
  rw [build_node inside, if_neg (older.ne)]
  by_cases own : m = n
  · subst own
    exact ⟨_, if_pos rfl⟩
  · exact ⟨_, if_neg own⟩

theorem build_new (inside : n < s.count) :
    (taskNodeBuild n code cause s).node s.count =
      { pid := s.nextPid, parent := some n, exitState := .running, exitCode := code,
        exitCause := cause, children := [] } := by
  rw [build_node inside, if_pos rfl]

theorem older_or_new (within : m < (taskNodeBuild n code cause s).count) : m < s.count ∨ m = s.count :=
  Nat.lt_succ_iff_lt_or_eq.mp within

theorem build_parent_iff (inside : n < s.count) (c m : Nat) :
    (c < (taskNodeBuild n code cause s).count ∧ ((taskNodeBuild n code cause s).node c).parent = some m) ↔
      (c = s.count ∧ n = m) ∨ (c < s.count ∧ (s.node c).parent = some m) := by
  by_cases new : c = s.count
  · subst new
    rw [build_new inside]
    simp [taskNodeBuild, setNode]
  · by_cases older : c < s.count
    · obtain ⟨_, same⟩ := build_older code _ inside older
      rw [same]
      simp only [new, older, false_and, false_or, true_and]
      exact ⟨fun both => both.2, fun parent => ⟨Nat.lt_succ_of_lt older, parent⟩⟩
    · simp only [new, older, false_and, or_false, iff_false, not_and]
      intro within
      rcases older_or_new within with older' | same
      · exact absurd older' older
      · exact absurd same new

theorem build_children (inside : n < s.count) (older : m < s.count) :
    ((taskNodeBuild n code cause s).node m).children =
      if m = n then s.count :: (s.node m).children else (s.node m).children := by
  rw [build_node inside, if_neg (older.ne)]
  by_cases own : m = n
  · rw [if_pos own, if_pos own, own]
  · rw [if_neg own, if_neg own]

theorem Tree.Shaped.build_children_iff (shaped : s.Shaped) (inside : n < s.count)
    (within : m < (taskNodeBuild n code cause s).count) (c : Nat) :
    c ∈ ((taskNodeBuild n code cause s).node m).children ↔
      c < (taskNodeBuild n code cause s).count ∧ ((taskNodeBuild n code cause s).node c).parent = some m := by
  rw [build_parent_iff inside]
  rcases older_or_new within with older | rfl
  · rw [build_children inside older]
    by_cases own : m = n
    · rw [if_pos own, mem_cons, shaped.children m older]
      simp [own]
    · rw [if_neg own, shaped.children m older]
      simp [Ne.symm own]
  · rw [build_new inside]
    have apart : n ≠ s.count := inside.ne
    simp only [not_mem_nil, apart, and_false, false_or, false_iff, not_and]
    intro older parent
    exact lt_irrefl _ (shaped.parent c _ older parent)

theorem Tree.Shaped.build (shaped : s.Shaped) (inside : n < s.count) (room : s.count < maxTaskNodes) :
    (taskNodeBuild n code cause s).Shaped := by
  refine ⟨Nat.lt_succ_of_lt shaped.roots, ?_, ?_, ?_, fun m => shaped.build_children_iff inside, ?_, ?_⟩
  · have fits : maxTaskNodes < wordSize := by decide
    change wadd s.nextPid 1 = s.count + 1
    rw [shaped.nextPid]
    exact wadd_eq (by omega)
  · intro m within
    rcases older_or_new within with older | rfl
    · obtain ⟨_, same⟩ := build_older code _ inside older
      rw [same]
      exact shaped.pid m older
    · rw [build_new inside]
      exact shaped.nextPid
  · intro m p within parent
    refine Nat.lt_succ_of_lt ?_
    rcases (build_parent_iff inside m p).mp ⟨within, parent⟩ with ⟨_, rfl⟩ | ⟨older, parent⟩
    · exact inside
    · exact shaped.parent m p older parent
  · intro m within
    rcases older_or_new within with older | rfl
    · have unborn : s.count ∉ (s.node m).children := by
        rw [shaped.children m older]
        exact fun both => lt_irrefl _ both.1
      rw [build_children inside older]
      split
      · exact nodup_cons.mpr ⟨unborn, shaped.nodup m older⟩
      · exact shaped.nodup m older
    · rw [build_new inside]
      exact nodup_nil
  · obtain ⟨_, same⟩ := build_older code _ inside shaped.roots
    rw [same]
    exact shaped.init

theorem Tree.Sound.build (sound : s.Sound byPid lists) (inside : n < s.count)
    (alive : (s.node n).exitState ≠ .exited) (room : s.count < maxTaskNodes) :
    (taskNodeBuild n code cause s).Sound byPid lists := by
  have grows : Tree.Grows s (taskNodeBuild n code cause s) := by
    refine ⟨Nat.le_succ _, fun m older => ?_, ?_, rfl, rfl⟩
    · obtain ⟨_, same⟩ := build_older code cause inside older
      exact same ▸ .children _ _
    · intro m beyond within
      have new : m = s.count := (older_or_new within).resolve_left (not_lt.mpr beyond)
      rw [new, build_new inside]
      refine ⟨nofun, ?_⟩
      intro p parent
      cases parent
      exact ⟨inside, alive⟩
  refine sound.grow grows (sound.toShaped.build inside room) ?_
  have unlisted : lists s.count = [] :=
    sound.represents.outside _ fun live => lt_irrefl _ live.1
  have initialised := listInit_represents sound.represents s.count
  rw [← unlisted, update_eq_self] at initialised
  rw [live_insert rfl (fun m older => (grows.old m older).exited) (by rw [build_new inside]; exact nofun)]
  exact initialised

end Build

theorem Tree.setNode_node (node : TaskNode) (m : Nat) :
    (s.setNode n node).node m = if m = n then node else s.node m := rfl

theorem Tree.Shaped.setNode {node : TaskNode} (shaped : s.Shaped) (pid : node.pid = (s.node n).pid)
    (parent : node.parent = (s.node n).parent) (children : node.children = (s.node n).children)
    (init : n = initNode → node.exitState ≠ .exited) : (s.setNode n node).Shaped := by
  have same : ∀ m, ((s.setNode n node).node m).pid = (s.node m).pid ∧
      ((s.setNode n node).node m).parent = (s.node m).parent ∧
      ((s.setNode n node).node m).children = (s.node m).children := by
    intro m
    rw [setNode_node]
    split
    next here =>
      subst here
      exact ⟨pid, parent, children⟩
    · exact ⟨rfl, rfl, rfl⟩
  refine ⟨shaped.roots, shaped.nextPid, ?_, ?_, ?_, ?_, ?_⟩
  · intro m inside
    rw [(same m).1]
    exact shaped.pid m inside
  · intro m p inside
    rw [(same m).2.1]
    exact shaped.parent m p inside
  · intro m inside c
    rw [(same m).2.2, (same c).2.1]
    exact shaped.children m inside c
  · intro m inside
    rw [(same m).2.2]
    exact shaped.nodup m inside
  · rw [setNode_node]
    split
    next here =>
      exact init here.symm
    · exact shaped.init

theorem Tree.Sound.setNode {node : TaskNode} (sound : s.Sound byPid lists) (alive : (s.node n).exitState ≠ .exited)
    (pid : node.pid = (s.node n).pid) (parent : node.parent = (s.node n).parent)
    (children : node.children = (s.node n).children)
    (state : node.exitState = .exiting ∨ node.exitState = (s.node n).exitState) :
    (s.setNode n node).Sound byPid lists := by
  have alive' : node.exitState ≠ .exited := by
    rcases state with exiting | same
    · rw [exiting]
      exact nofun
    · rw [same]
      exact alive
  have follows : ∀ m, Follows (s.node m) ((s.setNode n node).node m) := by
    intro m
    rw [setNode_node]
    split
    next here =>
      rw [here]
      refine ⟨parent, ⟨fun exited => absurd exited alive', fun exited => absurd exited alive⟩, fun running => ?_,
        fun exited => absurd exited alive⟩
      rcases state with exiting | same
      · rw [exiting] at running
        contradiction
      · rwa [same] at running
    · exact .children _ _
  refine sound.grow ⟨le_rfl, fun m _ => follows m, fun m beyond within => absurd within (not_lt.mpr beyond), rfl, rfl⟩
    (sound.toShaped.setNode pid parent children fun _ => alive') ?_
  have live : (s.setNode n node).Live = s.Live := by
    simp only [Tree.Live, ne_eq, (follows _).exited]
    rfl
  rw [live]
  exact sound.represents

theorem Tree.Sound.exit (sound : s.Sound byPid lists) (alive : (s.node n).exitState ≠ .exited) :
    (taskNodeExit n code cause s).Sound byPid lists := by
  have status : (s.setNode n { s.node n with exitCode := code, exitCause := cause }).Sound byPid lists :=
    sound.setNode alive rfl rfl rfl (.inr rfl)
  have alive' : ((s.setNode n { s.node n with exitCode := code, exitCause := cause }).node n).exitState ≠ .exited := by
    rw [setNode_node, if_pos rfl]
    exact alive
  rw [taskNodeExit]
  split
  · exact status.setNode alive' rfl rfl rfl (.inl rfl)
  · exact status

variable {c : Nat}

/-- The state of the parent is what the loop tests, so every child becomes a zombie of init. -/
theorem reparent_fold (exited : (s.node n).exitState = .exited) (children : List Nat) :
    children.foldl (reparent n) s = { s with
      zombies := children.foldl (fun links c => listAdd (.inr c) (.inl initNode) links) s.zombies } := by
  induction children generalizing s with
  | nil => rfl
  | cons c _ ih =>
    rw [foldl_cons, foldl_cons]
    have turn : reparent n s c = s.addZombie c initNode := by exact if_pos exited
    rw [turn]
    exact ih exited

/-- The lists after `n` has joined that of its parent `p` and its children that of init. -/
def zombiesAfter (s : Tree) (n p : Nat) : Links (Nat ⊕ Nat) :=
  (s.node n).children.foldl (fun links c => listAdd (.inr c) (.inl initNode) links)
    (if p ≠ n ∧ (s.node p).exitState = .running then listAdd (.inr n) (.inl p) s.zombies else s.zombies)

theorem zombify_eq (ran : taskNodeZombify n s = .ok s') : (s.node n).pid ≠ 1 ∧ ∃ p, (s.node n).parent = some p ∧
      s' = { s.setNode n { s.node n with exitState := .exited } with zombies := zombiesAfter s n p } := by
  have own : (s.setNode n { s.node n with exitState := .exited }).node n = { s.node n with exitState := .exited } := by
    rw [setNode_node, if_pos rfl]
  rw [taskNodeZombify] at ran
  simp only [own] at ran
  split at ran
  · contradiction
  next notFirst =>
    refine ⟨notFirst, ?_⟩
    split at ran
    · contradiction
    next p parent =>
      refine ⟨p, parent, ?_⟩
      have running : taskNodeEnsureNotExiting p (s.setNode n { s.node n with exitState := .exited }) =
          decide (p ≠ n ∧ (s.node p).exitState = .running) := by
        rw [taskNodeEnsureNotExiting, setNode_node]
        by_cases self : p = n
        · simp [self]
        · simp [self]
      cases ran
      rw [running]
      by_cases joins : p ≠ n ∧ (s.node p).exitState = .running
      · simp only [decide_eq_true joins, if_true, addZombie, own, zombiesAfter, if_pos joins]
        rw [reparent_fold (by exact congrArg TaskNode.exitState own)]
        rfl
      · simp only [decide_eq_false joins, Bool.false_eq_true, if_false, own, zombiesAfter, if_neg joins]
        rw [reparent_fold (by exact congrArg TaskNode.exitState own)]
        rfl

/-- What becomes of the lists: the one of `n` is given up, `n` joins that of a running parent,
and its children join that of init. -/
def Passed (s : Tree) (n : Nat) (lists after : Nat → List Nat) : Prop :=
  ∀ j c, c ∈ after j ↔ (j ≠ n ∧ c ∈ lists j) ∨
    (c = n ∧ (s.node n).parent = some j ∧ (s.node j).exitState = .running) ∨
    (j = initNode ∧ c ∈ (s.node n).children)

theorem live_erase :
    (s.setNode n { s.node n with exitState := .exited }).Live = s.Live \ {n} := by
  ext m
  simp only [Tree.Live, Set.mem_ofPred_eq, Set.mem_sdiff, Set.mem_singleton_iff, setNode_node]
  by_cases here : m = n
  · simp [here]
  · simp only [here, not_false_eq_true, and_true]
    rfl

theorem update_nil_mem (j c : Nat) : c ∈ update lists n [] j ↔ j ≠ n ∧ c ∈ lists j := by
  by_cases here : j = n
  · simp [here]
  · simp [here]

section

variable (sound : s.Sound byPid lists) (inside : n < s.count) (alive : (s.node n).exitState ≠ .exited)
include sound inside alive

theorem Tree.Sound.joined {p : Nat} (parent : (s.node n).parent = some p) (other : p ≠ n) :
    ∃ joined, (if p ≠ n ∧ (s.node p).exitState = .running
        then listAdd (.inr n) (.inl p) s.zombies else s.zombies).Represents (s.Live \ {n}) joined ∧
      ∀ j c, c ∈ joined j ↔ (j ≠ n ∧ c ∈ lists j) ∨
        (c = n ∧ (s.node n).parent = some j ∧ (s.node j).exitState = .running) := by
  have unlisted : ∀ j, n ∉ lists j := fun j mem => alive (sound.listed j n mem).2.1
  have given := sound.represents.drop n
  by_cases running : (s.node p).exitState = .running
  · rw [if_pos ⟨other, running⟩]
    have head : p ∈ s.Live \ {n} := by
      refine ⟨⟨sound.parent n p inside parent, ?_⟩, other⟩
      rw [running]
      exact nofun
    obtain ⟨after, added, placed⟩ := listAdd_placed given head fun j mem => unlisted j ((update_nil_mem j n).mp mem).2
    refine ⟨after, added, ?_⟩
    intro j c
    rw [placed, update_nil_mem, parent]
    by_cases self : c = n
    · subst self
      simp only [if_true, unlisted, and_false, false_or, true_and, Option.some.injEq]
      constructor
      · rintro rfl
        exact ⟨rfl, running⟩
      · exact fun both => both.1.symm
    · simp [self]
  · rw [if_neg fun both => running both.2]
    refine ⟨_, given, ?_⟩
    intro j c
    rw [update_nil_mem, parent]
    constructor
    · exact .inl
    · rintro (kept | ⟨_, same, runs⟩)
      · exact kept
      · cases same
        exact absurd runs running

theorem Tree.Sound.passed {p : Nat} (notInit : n ≠ initNode)
    (children : ∀ c ∈ (s.node n).children, (s.node c).exitState = .exited) (parent : (s.node n).parent = some p) :
    ∃ after, (zombiesAfter s n p).Represents (s.Live \ {n}) after ∧ Passed s n lists after := by
  have other : p ≠ n := by
    rintro rfl
    exact alive (children p ((sound.children p inside p).mpr ⟨inside, parent⟩))
  -- a child that is on a list is on that of `n`
  have apart : ∀ c ∈ (s.node n).children, ∀ j, c ∈ lists j → j = n := by
    intro c mem j inJ
    obtain ⟨_, _, q, parentC, place⟩ := sound.listed j c inJ
    rw [((sound.children n inside c).mp mem).2] at parentC
    cases parentC
    exact (place.resolve_right fun orphan => alive orphan.2).symm
  have notChild : n ∉ (s.node n).children := fun mem => alive (children n mem)
  obtain ⟨joined, joins, joinedMem⟩ := sound.joined inside alive parent other
  have init : initNode ∈ s.Live \ {n} := ⟨⟨sound.roots, sound.init⟩, Ne.symm notInit⟩
  refine ⟨_, listAdd_all joins init (sound.nodup n inside) ?_, ?_⟩
  · intro c mem j inJoined
    rcases (joinedMem j c).mp inJoined with ⟨elsewhere, inJ⟩ | ⟨self, _⟩
    · exact elsewhere (apart c mem j inJ)
    · exact notChild (self ▸ mem)
  · intro j c
    by_cases here : j = initNode
    · subst here
      rw [update_self, mem_append, mem_reverse, joinedMem]
      simp only [true_and]
      exact or_comm.trans or_assoc
    · rw [update_of_ne here, joinedMem]
      simp [here]

end

structure Exits (s s' : Tree) (n : Nat) : Prop where
  count : s'.count = s.count
  self : (s'.node n).exitState = .exited
  parent : ∀ m, (s'.node m).parent = (s.node m).parent
  other : ∀ m, m ≠ n → s'.node m = s.node m

theorem setNode_exits (zombies : Links (Nat ⊕ Nat)) :
    Exits s { s.setNode n { s.node n with exitState := .exited } with zombies } n := by
  refine ⟨rfl, ?_, fun m => ?_, fun m apart => ?_⟩
  · exact (congrArg TaskNode.exitState (setNode_node _ n)).trans (by rw [if_pos rfl])
  · refine (congrArg TaskNode.parent (setNode_node _ m)).trans ?_
    split
    next here =>
      rw [here]
    · rfl
  · exact (setNode_node _ m).trans (if_neg apart)

section Exit

variable {after : Nat → List Nat} (sound : s.Sound byPid lists) (exits : Exits s s' n) (inside : n < s.count)
variable (alive : (s.node n).exitState ≠ .exited) (children : ∀ c ∈ (s.node n).children, (s.node c).exitState = .exited)
include sound exits

omit sound in
theorem Exits.settled (alive : (s.node n).exitState ≠ .exited) {m : Nat} (exited : (s.node m).exitState = .exited) :
    s'.node m = s.node m := by
  refine exits.other m ?_
  rintro rfl
  exact alive exited

include inside alive children

theorem Tree.Sound.exits_listed (passed : Passed s n lists after) (j c : Nat) (mem : c ∈ after j) :
    c < s'.count ∧ (s'.node c).exitState = .exited ∧
      ∃ p, (s'.node c).parent = some p ∧ (p = j ∨ j = initNode ∧ (s'.node p).exitState = .exited) := by
  rw [exits.count, exits.parent]
  rcases (passed j c).mp mem with ⟨_, inJ⟩ | ⟨rfl, parentN, _⟩ | ⟨rfl, isChild⟩
  · obtain ⟨bound, exited, q, parentC, place⟩ := sound.listed j c inJ
    rw [exits.settled alive exited]
    refine ⟨bound, exited, q, parentC, place.imp_right fun orphan => ⟨orphan.1, ?_⟩⟩
    rw [exits.settled alive orphan.2]
    exact orphan.2
  · exact ⟨inside, exits.self, j, parentN, .inl rfl⟩
  · obtain ⟨bound, parentC⟩ := (sound.children n inside c).mp isChild
    have exited := children c isChild
    rw [exits.settled alive exited]
    exact ⟨bound, exited, n, parentC, .inr ⟨rfl, exits.self⟩⟩

theorem Tree.Sound.exits_kept (notInit : n ≠ initNode) (passed : Passed s n lists after) {q : Nat}
    (bound : c < s.count) (exited : (s'.node c).exitState = .exited) (parentC : (s.node c).parent = some q)
    (unreported : ¬ s.Reported c) :
    ((s'.node q).exitState = .running → c ∈ after q) ∧ ((s'.node q).exitState = .exited → c ∈ after initNode) := by
  by_cases here : c = n
  · -- the task itself joins the list of a running parent, and its parent has not exited
    subst here
    have notSelf : q ≠ c := by
      rintro rfl
      exact alive (children q ((sound.children q inside q).mpr ⟨inside, parentC⟩))
    rw [exits.other q notSelf]
    refine ⟨fun running => ?_, fun exitedQ => ?_⟩
    · exact (passed q c).mpr (.inr (.inl ⟨rfl, parentC, running⟩))
    · exact absurd exitedQ (sound.orphans c q inside alive parentC)
  · rw [exits.other c here] at exited
    by_cases ofN : q = n
    · subst ofN
      refine ⟨fun running => ?_, fun _ => ?_⟩
      · exact absurd (running.symm.trans exits.self) (by decide)
      · exact (passed _ c).mpr (.inr (.inr ⟨rfl, (sound.children q inside c).mpr ⟨bound, parentC⟩⟩))
    · have kept := sound.kept c q bound exited parentC unreported
      rw [exits.other q ofN]
      refine ⟨fun running => ?_, fun exitedQ => ?_⟩
      · exact (passed q c).mpr (.inl ⟨ofN, kept.1 running⟩)
      · exact (passed _ c).mpr (.inl ⟨Ne.symm notInit, kept.2 exitedQ⟩)

omit alive in
theorem Tree.Sound.exits_orphans {q : Nat} (bound : c < s.count) (aliveC : (s'.node c).exitState ≠ .exited)
    (parentC : (s.node c).parent = some q) : (s'.node q).exitState ≠ .exited := by
  have notSelf : c ≠ n := by
    rintro rfl
    exact aliveC exits.self
  rw [exits.other c notSelf] at aliveC
  have notChild : q ≠ n := by
    rintro rfl
    exact aliveC (children c ((sound.children q inside c).mpr ⟨bound, parentC⟩))
  rw [exits.other q notChild]
  exact sound.orphans c q bound aliveC parentC

end Exit

theorem Tree.Sound.zombify (sound : s.Sound byPid lists) (inside : n < s.count)
    (alive : (s.node n).exitState ≠ .exited) (idle : s.waiting n = none)
    (children : ∀ c ∈ (s.node n).children, (s.node c).exitState = .exited)
    (ran : taskNodeZombify n s = .ok s') : ∃ after, s'.Sound byPid after := by
  obtain ⟨notFirst, p, parent, rfl⟩ := zombify_eq ran
  have notInit : n ≠ initNode := by
    rintro rfl
    exact notFirst (sound.pid _ inside)
  obtain ⟨after, represents, passed⟩ := sound.passed inside alive notInit children parent
  have shaped : (s.setNode n { s.node n with exitState := .exited }).Shaped :=
    sound.toShaped.setNode rfl rfl rfl fun same => absurd same notInit
  have exits := setNode_exits (s := s) (n := n) (zombiesAfter s n p)
  refine ⟨after, { shaped with }, ?_, ?_, ?_, ?_, ?_, ?_, sound.once, ?_⟩
  · rw [← live_erase] at represents
    exact represents
  · exact sound.exits_listed exits inside alive children passed
  · intro c q bound exited parentC
    rw [exits.parent] at parentC
    exact sound.exits_kept exits inside alive children notInit passed bound exited parentC
  · intro c q bound aliveC parentC
    rw [exits.parent] at parentC
    exact sound.exits_orphans exits inside children bound aliveC parentC
  · intro j c any mem parentC
    rw [exits.parent] at parentC
    rcases (passed j c).mp mem with ⟨_, inJ⟩ | ⟨rfl, _⟩ | ⟨rfl, isChild⟩
    · exact sound.fresh j c any inJ parentC
    · rintro ⟨r, mem, rfl⟩
      exact alive (sound.faithful r mem).exited
    · rw [((sound.children n inside c).mp isChild).2] at parentC
      cases parentC
      contradiction
  · intro r mem
    have faithful := sound.faithful r mem
    exact faithful.same le_rfl (exits.settled alive faithful.exited)
  · intro m wait waiting
    obtain ⟨live, awaited⟩ := sound.waits m wait waiting
    have notSelf : m ≠ n := by
      rintro rfl
      cases idle.symm.trans waiting
    refine ⟨⟨live.1, ?_⟩, ?_⟩
    · rw [exits.other m notSelf]
      exact live.2
    · cases wait with
      | anyChild => exact awaited
      | child c =>
        rw [Awaited, exits.parent]
        exact awaited

section Waits

variable (sound : s.Sound byPid lists)
include sound

theorem Tree.Sound.setWaiting {wait : Option Wait}
    (live : n ∈ s.Live) (awaited : ∀ w, wait = some w → s.Awaited byPid n w) : (s.setWaiting n wait).Sound byPid lists := by
  have same : ∀ m w, s.Awaited byPid m w → (s.setWaiting n wait).Awaited byPid m w := by
    intro m w
    cases w with
    | anyChild | child => exact id
  refine { sound with faithful := ?_, waits := ?_ }
  · intro r mem
    exact (sound.faithful r mem).same le_rfl rfl
  · intro m w waiting
    simp only [Tree.setWaiting] at waiting
    split at waiting
    next here =>
      rw [here]
      exact ⟨live, same n w (awaited w waiting)⟩
    · obtain ⟨live, awaited⟩ := sound.waits m w waiting
      exact ⟨live, same m w awaited⟩

/-- A first report of a child of `n` ends the call of `n` and concerns no other. -/
theorem Tree.Sound.report {zombies : Links (Nat ⊕ Nat)} {after : Nat → List Nat} (faithful : s.Faithful r)
    (unreported : ¬ s.Reported r.task) (own : (s.node r.task).parent = some n)
    (represents : zombies.Represents s.Live after) (gone : byPid n = false → r.task ∉ after n)
    (sub : ∀ j c, c ∈ after j → c ∈ lists j) (others : ∀ j c, c ≠ r.task → c ∈ lists j → c ∈ after j) :
    ({ s with zombies, reports := r :: s.reports }.setWaiting n none).Sound byPid after := by
  have reported : ∀ c, ({ s with zombies, reports := r :: s.reports }.setWaiting n none).Reported c ↔
      c = r.task ∨ s.Reported c := by
    intro c
    simp [Tree.Reported, Tree.setWaiting, eq_comm]
  refine ⟨{ sound with }, represents, fun j c mem => sound.listed j c (sub j c mem), ?_, sound.orphans, ?_, ?_, ?_, ?_⟩
  · intro c p bound exited parent stillUnreported
    rw [reported, not_or] at stillUnreported
    obtain ⟨apart, before⟩ := stillUnreported
    have kept := sound.kept c p bound exited parent before
    exact ⟨fun running => others p c apart (kept.1 running), fun exitedP => others initNode c apart (kept.2 exitedP)⟩
  · intro j c any mem parent
    rw [reported]
    rintro (rfl | before)
    · cases own.symm.trans parent
      exact gone any mem
    · exact sound.fresh j c any (sub j c mem) parent before
  · intro r' mem
    have faithful' : s.Faithful r' := by
      rcases mem_cons.mp mem with rfl | old
      · exact faithful
      · exact sound.faithful r' old
    exact faithful'.same le_rfl rfl
  · refine nodup_cons.mpr ⟨?_, sound.once⟩
    intro mem
    obtain ⟨r', old, task⟩ := mem_map.mp mem
    exact unreported ⟨r', old, task⟩
  · intro m w waiting
    simp only [Tree.setWaiting] at waiting
    split at waiting
    · contradiction
    next elsewhere =>
      obtain ⟨live, awaited⟩ := sound.waits m w waiting
      refine ⟨live, ?_⟩
      cases w with
      | anyChild => exact awaited
      | child c =>
        obtain ⟨one, pid, null, bound, parent, before⟩ := awaited
        refine ⟨one, pid, null, bound, parent, ?_⟩
        rw [reported]
        rintro (rfl | again)
        · exact elsewhere (Option.some.inj (parent.symm.trans own))
        · exact before again

theorem Tree.Sound.reap (live : n ∈ s.Live) {zombie : Option Nat} (ran : reapZombie n s = .ok (s', zombie)) :
    (zombie = none ∧ s' = s ∧ lists n = []) ∨
      ∃ z, zombie = some z ∧ listFirst s.zombies (.inl n) = .inr z ∧ z ∈ lists n ∧
        s' = { s with zombies := listRm (.inr z) s.zombies } := by
  rw [reapZombie] at ran
  split at ran
  next empty =>
    cases ran
    exact .inl ⟨rfl, rfl, (listEmpty_iff sound.represents live).mp empty⟩
  next some =>
    cases content : lists n with
    | nil => exact absurd ((listEmpty_iff sound.represents live).mpr content) some
    | cons z =>
      have first := listFirst_eq sound.represents content
      rw [first] at ran
      cases ran
      exact .inr ⟨z, rfl, first, mem_cons_self, rfl⟩

theorem Tree.Sound.turn (live : n ∈ s.Live) {wait : Wait} {returned : Bool} (awaited : s.Awaited byPid n wait)
    (own : byPid n = false → s.ownFirst n = true) (ran : waitTurn n s wait = .ok (s', returned)) :
    (returned = false ∧ s' = s) ∨
      returned = true ∧ s'.waiting = s.waiting ∧ ∃ after, (s'.setWaiting n none).Sound byPid after := by
  cases wait with
  | anyChild statLoc =>
    obtain ⟨⟨middle, zombie⟩, reaped, rest⟩ := bind_returns ran
    rcases sound.reap live reaped with ⟨rfl, same, _⟩ | ⟨z, rfl, first, mem, same⟩
    · rw [same] at rest
      cases rest
      exact .inl ⟨rfl, rfl⟩
    · rw [same] at rest
      cases rest
      obtain ⟨bound, exited, _⟩ := sound.listed n z mem
      have faithful : s.Faithful (.mk z (s.node z).pid statLoc
          (if statLoc then some (mkStatcode (s.node z).exitCode (s.node z).exitCause) else none)) :=
        ⟨bound, exited, rfl, fun given => if_pos given⟩
      have parent : (s.node z).parent = some n := by
        have checked := own awaited
        rw [ownFirst, first] at checked
        exact of_decide_eq_true checked
      refine .inr ⟨rfl, rfl, _, sound.report faithful (sound.fresh n z awaited mem parent) parent
        (listRm_represents sound.represents mem) (fun _ => erased_fresh sound.represents mem n)
        (fun j _ inJ => ((erased_iff sound.represents mem j).mp inJ).2) fun j _ apart inJ => ?_⟩
      exact (erased_iff sound.represents mem j).mpr ⟨apart, inJ⟩
  | child c pid _ =>
    obtain ⟨one, rfl, rfl, bound, parent, unreported⟩ := awaited
    rw [waitTurn] at ran
    split at ran
    next exited =>
      cases ran
      have faithful : s.Faithful { task := c, pid := c, statLoc := false, stored := none } := by
        refine ⟨bound, exited, ?_, nofun⟩
        rw [sound.pid c bound]
      exact .inr ⟨rfl, rfl, lists, sound.report faithful unreported parent sound.represents
        (fun any => absurd (one.symm.trans any) (by decide)) (fun _ _ => id) fun _ _ _ => id⟩
    · cases ran
      exact .inl ⟨rfl, rfl⟩

theorem Tree.Sound.resume (checked : orderly byPid s (.resume n) = true)
    (ran : Tasks.resume n s = .ok s') : ∃ after, s'.Sound byPid after := by
  rw [Tasks.resume] at ran
  split at ran
  · cases ran
    exact ⟨lists, sound⟩
  next wait waiting =>
    obtain ⟨live, awaited⟩ := sound.waits n wait waiting
    obtain ⟨⟨middle, returned⟩, turned, rest⟩ := bind_returns ran
    have own : byPid n = false → s.ownFirst n = true := by
      intro any
      rwa [orderly, any, Bool.false_or] at checked
    rcases sound.turn live awaited own turned with ⟨rfl, rfl⟩ | ⟨rfl, _, reported⟩
    · cases rest
      exact ⟨lists, sound⟩
    · cases rest
      exact reported

omit sound in
theorem findChild_found {pid : Int} (shaped : s.Shaped) (inside : n < s.count)
    (found : findChild n pid s = some c) : c < s.count ∧ (s.node c).parent = some n ∧ pid = c := by
  have mem := mem_of_find?_eq_some found
  have same := find?_some found
  obtain ⟨bound, parent⟩ := (shaped.children n inside c).mp mem
  rw [decide_eq_true_eq, shaped.pid c bound] at same
  exact ⟨bound, parent, same.symm⟩

omit sound in
theorem setWaiting_idle (idle : s.waiting n = none) : s.setWaiting n none = s := by
  have same : (fun m => if m = n then none else s.waiting m) = s.waiting := by
    funext m
    split
    next here => rw [here, idle]
    · rfl
  rw [Tree.setWaiting, same]

theorem Tree.Sound.waitpid {pid : Int} {statLoc : Bool} {options : Nat} (live : n ∈ s.Live) (idle : s.waiting n = none)
    (checked : orderly byPid s (.waitpid n pid statLoc options) = true)
    (ran : sysWaitpid n pid statLoc options s = .ok s') : ∃ after, s'.Sound byPid after := by
  have turn {wait : Wait} {returned : Bool} {middle : Tree} (awaited : s.Awaited byPid n wait)
      (own : byPid n = false → s.ownFirst n = true) (turned : waitTurn n s wait = .ok (middle, returned)) :
      (returned = false ∧ middle = s) ∨ returned = true ∧ ∃ after, middle.Sound byPid after := by
    refine (sound.turn live awaited own turned).imp_right fun ⟨done, same, after, reported⟩ => ⟨done, after, ?_⟩
    rwa [setWaiting_idle (by rw [same, idle])] at reported
  rw [sysWaitpid] at ran
  cases one : byPid n with
  | false =>
    simp only [orderly, one, Bool.false_eq_true, if_false, Bool.and_eq_true, decide_eq_true_eq] at checked
    obtain ⟨any, own⟩ := checked
    rw [if_pos any] at ran
    have awaited : s.Awaited byPid n (.anyChild statLoc) := one
    obtain ⟨⟨middle, returned⟩, turned, rest⟩ := bind_returns ran
    rcases turn awaited (fun _ => own) turned with ⟨rfl, rfl⟩ | ⟨rfl, reported⟩
    · dsimp only [Bool.false_eq_true] at rest
      split at rest
      · contradiction
      · split at rest
        · cases rest
          exact ⟨lists, sound⟩
        · cases rest
          exact ⟨lists, sound.setWaiting live fun w same => by cases same; exact awaited⟩
    · cases rest
      exact reported
  | true =>
    simp only [orderly, one, if_true, Bool.and_eq_true, decide_eq_true_eq, Bool.not_eq_true'] at checked
    obtain ⟨⟨positive, null⟩, alive⟩ := checked
    rw [if_neg (by omega), if_pos positive] at ran
    split at ran
    · contradiction
    next c found =>
      obtain ⟨bound, parent, same⟩ := findChild_found sound.toShaped live.1 found
      rw [found] at alive
      have awaited : s.Awaited byPid n (.child c pid statLoc) := by
        refine ⟨one, same, null, bound, parent, ?_⟩
        rintro ⟨r, mem, rfl⟩
        exact of_decide_eq_true alive (sound.faithful r mem).exited
      obtain ⟨⟨middle, returned⟩, turned, rest⟩ := bind_returns ran
      rcases turn awaited (fun any => absurd (one.symm.trans any) (by decide)) turned with ⟨rfl, rfl⟩ | ⟨rfl, reported⟩
      · cases rest
        exact ⟨lists, sound.setWaiting live fun w same => by cases same; exact awaited⟩
      · cases rest
        exact reported

end Waits

theorem Tree.Sound.pids_nodup (sound : s.Sound byPid lists) : (s.reports.map Report.pid).Nodup := by
  have pids : s.reports.map Report.pid = (s.reports.map Report.task).map Int.ofNat := by
    rw [map_map]
    refine map_congr_left ?_
    intro r mem
    have faithful := sound.faithful r mem
    rw [faithful.pid, sound.pid _ faithful.task]
    rfl
  rw [pids]
  exact sound.once.map fun _ _ => Int.ofNat.inj

theorem schedInit_sound : schedInit.Sound byPid (fun _ => []) := by
  have alive : ∀ n, (schedInit.node n).exitState ≠ .exited := fun _ => nofun
  refine ⟨⟨by decide, rfl, fun _ _ => rfl, fun _ _ _ => nofun, ?_, fun _ _ => nodup_nil,
    alive _⟩, ⟨?_, fun _ => nodup_nil, nofun, fun _ _ => rfl⟩, fun _ _ => nofun,
    fun c _ _ exited => absurd exited (alive c), fun _ _ _ _ => nofun, fun _ _ _ => nofun, nofun, nodup_nil,
    fun _ _ => nofun⟩
  · intro n _ c
    simp [schedInit, emptyNode]
  · intro n _
    have cell : ∀ m, schedInit.zombies (.inl m) = { prev := .inl m, next := .inl m } := by
      intro m
      by_cases init : m = initNode
      · subst init
        rfl
      · by_cases idle : m = idleNode
        · subst idle
          rfl
        · simp [schedInit, listInit, Links.setNext, Links.setPrev, init, idle]
    exact ⟨congrArg Link.next (cell n), congrArg Link.prev (cell n)⟩

theorem inUser_iff : s.inUser n = true ↔ n < s.count ∧ n ≠ idleNode ∧ s.waiting n = none := by
  simp [inUser, and_assoc]

theorem Tree.Sound.step {event : TaskEvent} (sound : s.Sound byPid lists)
    (checked : orderly byPid s event = true) (enabled : tasks.enabled event s = true)
    (ran : tasks.perform event s = .ok s') : ∃ after, s'.Sound byPid after := by
  cases event with
  | fork =>
    simp only [tasks, Bool.and_eq_true, decide_eq_true_eq, inUser_iff] at enabled
    obtain ⟨⟨⟨inside, _⟩, running⟩, room⟩ := enabled
    cases ran
    refine ⟨lists, sound.build inside ?_ room⟩
    rw [running]
    exact nofun
  | exit =>
    simp only [tasks, Bool.and_eq_true, decide_eq_true_eq] at enabled
    cases ran
    exact ⟨lists, sound.exit enabled.2⟩
  | zombify =>
    simp only [tasks, Bool.and_eq_true, decide_eq_true_eq, inUser_iff] at enabled
    obtain ⟨⟨inside, _, idle⟩, alive⟩ := enabled
    refine sound.zombify inside alive idle (fun c mem => ?_) ran
    exact of_decide_eq_true (all_eq_true.mp checked c mem)
  | waitpid =>
    simp only [tasks, Bool.and_eq_true, decide_eq_true_eq, inUser_iff] at enabled
    obtain ⟨⟨inside, _, idle⟩, running⟩ := enabled
    refine sound.waitpid ⟨inside, ?_⟩ idle checked ran
    rw [running]
    exact nofun
  | resume => exact sound.resume checked ran

/-- Where parents exit after their children and each task keeps to one of the two ways to wait, for
children of its own, `waitpid` reports exited tasks only, each once and with its status.  The lists of
zombies are well formed and hold no task that has not exited, an exited task that has not been reported
is on the list of its running parent or of init, and the parent of a task that has not exited has not
exited either. -/
theorem children_reaped_once {byPid : Nat → Bool} {s : Tree}
    (reached : tasks.Reaches (fun s event => orderly byPid s event) schedInit s) :
    (∀ r ∈ s.reports, s.Faithful r) ∧ (s.reports.map Report.pid).Nodup ∧
    (∃ lists, s.zombies.Represents s.Live lists ∧ (∀ n c, c ∈ lists n → (s.node c).exitState = .exited) ∧
      ∀ c p, c < s.count → (s.node c).exitState = .exited → (s.node c).parent = some p → ¬ s.Reported c →
        ((s.node p).exitState = .running → c ∈ lists p) ∧ ((s.node p).exitState = .exited → c ∈ lists initNode)) ∧
    (∀ c p, c < s.count → (s.node c).exitState ≠ .exited → (s.node c).parent = some p →
      (s.node p).exitState ≠ .exited) := by
  obtain ⟨lists, sound⟩ : ∃ lists, s.Sound byPid lists := by
    refine reached.preserves (fun s => ∃ lists, s.Sound byPid lists) ⟨_, schedInit_sound⟩ ?_
    intro before event after holds checked enabled ran
    obtain ⟨lists, sound⟩ := holds
    exact sound.step checked enabled ran
  refine ⟨sound.faithful, sound.pids_nodup, ⟨lists, sound.represents, ?_, sound.kept⟩, sound.orphans⟩
  exact fun n c mem => (sound.listed n c mem).2.1

theorem children_reaped_once_two : ∃ s, tasks.Reaches (fun s event => orderly (fun n => n = 3) s event) schedInit s ∧
    s.reports = [⟨4, 4, false, none⟩, ⟨2, 2, true, some 0x700⟩] ∧ (∀ r ∈ s.reports, s.Faithful r) ∧
    (s.reports.map Report.pid).Nodup := by
  obtain ⟨s, reached, observed⟩ : ∃ s, tasks.Reaches (fun s event => orderly (fun n => n = 3) s event) schedInit s ∧
      s.reports = [⟨4, 4, false, none⟩, ⟨2, 2, true, some 0x700⟩] :=
    Machine.run_exists [.fork 1 0 0, .fork 1 0 0, .waitpid 1 (-1) true wnohang, .waitpid 1 (-1) true 0, .fork 3 0 0,
      .exit 2 7 0, .zombify 2, .waitpid 3 4 false 0, .resume 1, .resume 3, .exit 4 1 0, .zombify 4, .resume 3]
      (by decide +kernel)
  obtain ⟨faithful, nodup, _⟩ := children_reaped_once reached
  exact ⟨s, reached, observed, faithful, nodup⟩

/-- A parent that exits first makes init report a running task; a task waited for by its pid is
reported again; and its status is not stored. -/
theorem running_child_reaped :
    (∃ s, tasks.Reaches (fun _ _ => True) schedInit s ∧ s.reports = [⟨3, 3, false, none⟩] ∧
      (s.node 3).exitState = .running ∧ (s.node 3).parent = some 2 ∧ (s.node 2).exitState = .exited) ∧
    (∃ s, tasks.Reaches (fun _ _ => True) schedInit s ∧
      s.reports = [⟨2, 2, true, some 0x700⟩, ⟨2, 2, true, none⟩] ∧ (s.node 2).exitState = .exited) := by
  constructor
  · exact Machine.run_exists [.fork 1 0 0, .fork 2 0 0, .exit 2 7 0, .zombify 2, .waitpid 1 (-1) false 0]
      (by decide +kernel)
  · exact Machine.run_exists [.fork 1 0 0, .exit 2 7 0, .zombify 2, .waitpid 1 2 true 0, .waitpid 1 (-1) true 0]
      (by decide +kernel)

end KOs.Sched.Tasks

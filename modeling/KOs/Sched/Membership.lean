import KOs.Sched.Groups
import Mathlib.Algebra.BigOperators.Group.Finset.Piecewise

namespace KOs.Sched.Groups

open KOs.Common KOs.Data Function List Option GroupState

variable {s : GroupState} {lists : Nat → List Nat} {borrowed : List Nat} {out : Option Nat}

def GroupState.refsHeld (s : GroupState) : Nat := ∑ t ∈ Finset.range s.count, s.refs t

/-- The invariant, while a call holds references to `borrowed` and has taken `out` from its list. -/
structure Sound (borrowed : List Nat) (out : Option Nat) (s : GroupState) (lists : Nat → List Nat) : Prop where
  pids : ∀ t, t < s.count → s.pid t = t
  nextPid : s.nextPid = s.count
  tasks : ∀ t, t ∈ s.tasks ↔ t < s.count
  sessions : ∀ t, t < s.count → s.session t < s.sessionCount
  sessionLeaders : ∀ c, c < s.sessionCount → s.sessionLeader c < s.count
  groups : ∀ g, g ∈ s.pgroups ↔ g < s.groupCount
  leaders : ∀ g, g < s.groupCount → s.leader g < s.count
  sole : ∀ g h, g < s.groupCount → h < s.groupCount → s.leader g = s.leader h → g = h
  named : ∀ t, t < s.count → some t ≠ out → s.pgroup t < s.groupCount
  holds : s.members.Represents {g | g < s.groupCount} lists
  placed : ∀ t g, t ∈ lists g ↔ t < s.count ∧ some t ≠ out ∧ s.pgroup t = g
  referenced : ∀ g, g < s.groupCount → (lists g).length + borrowed.count (s.leader g) < s.refs (s.leader g)
  alive : ∀ t, t < s.count → borrowed.count t < s.refs t
  /-- Each task has a reference of its own, one to the leader of its session and one to that of its group. -/
  total : s.refsHeld + out.toList.length = 3 * s.count + borrowed.length
  few : s.count ≤ Tasks.maxTaskNodes

variable {n : Nat}

theorem taskNodeGet_ok (alive : 0 < s.refs n) : taskNodeGet n s = .ok (s.hold n) := by
  have some : s.refs n ≠ 0 := alive.ne'
  simp [taskNodeGet, some]

theorem taskNodePut_ok (more : 1 < s.refs n) : taskNodePut n s = .ok (s.release n) := by
  have some : s.refs n ≠ 0 := by omega
  have left : s.refs n - 1 ≠ 0 := by omega
  simp [taskNodePut, some, left, release]

theorem hold_refs (room : s.refs n + 1 < wordSize) : (s.hold n).refs = update s.refs n (s.refs n + 1) := by
  rw [hold, wadd_eq room]

theorem hold_refsHeld (inside : n < s.count) (room : s.refs n + 1 < wordSize) : (s.hold n).refsHeld = s.refsHeld + 1 := by
  have mem := Finset.mem_range.mpr inside
  have counts : (s.hold n).count = s.count := rfl
  simp only [refsHeld, counts, hold_refs room, Finset.sum_update_of_mem mem,
    Finset.sum_eq_add_sum_sdiff_singleton_of_mem mem s.refs]
  omega

theorem release_refsHeld (inside : n < s.count) (alive : 0 < s.refs n) :
    (s.release n).refsHeld + 1 = s.refsHeld := by
  have mem := Finset.mem_range.mpr inside
  simp only [refsHeld, release, Finset.sum_update_of_mem mem,
    Finset.sum_eq_add_sum_sdiff_singleton_of_mem mem s.refs]
  omega

theorem Sound.positive (sound : Sound borrowed out s lists) (inside : n < s.count) : 0 < s.refs n :=
  Nat.zero_lt_of_lt (sound.alive n inside)

/-- There are too few tasks for a count to wrap. -/
theorem Sound.room (sound : Sound borrowed out s lists) (brief : borrowed.length ≤ 1) (inside : n < s.count) :
    s.refs n + 1 < wordSize := by
  have total := sound.total
  have few := sound.few
  have part : s.refsHeld = s.refs n + _ := Finset.sum_eq_add_sum_sdiff_singleton_of_mem (Finset.mem_range.mpr inside) s.refs
  have bound : Tasks.maxTaskNodes = 2 ^ 26 := rfl
  rw [wordSize]
  omega

theorem Sound.get (sound : Sound borrowed out s lists) (brief : borrowed.length ≤ 1) (known : n < s.count) :
    taskNodeGet n s = .ok (s.hold n) ∧ Sound (n :: borrowed) out (s.hold n) lists := by
  have room := sound.room brief known
  have counted : ∀ m k, k + borrowed.count m < s.refs m → k + (n :: borrowed).count m < (s.hold n).refs m := by
    intro m k before
    by_cases same : m = n
    · subst same
      simpa [hold_refs room, ← add_assoc] using before
    · simpa [GroupState.hold, same, Ne.symm same] using before
  refine ⟨taskNodeGet_ok (sound.positive known), { sound with
    referenced := fun g inside => counted _ _ (sound.referenced g inside)
    alive := fun t inside => by simpa using counted t 0 (by simpa using sound.alive t inside)
    total := ?_ }⟩
  have before := sound.total
  rw [hold_refsHeld known room, length_cons]
  exact (add_right_comm _ _ _).trans (congrArg (· + 1) before)

theorem Sound.put (sound : Sound (n :: borrowed) out s lists) (known : n < s.count) :
    taskNodePut n s = .ok (s.release n) ∧ Sound borrowed out (s.release n) lists := by
  have counted : ∀ m k, k + (n :: borrowed).count m < s.refs m → k + borrowed.count m < (s.release n).refs m := by
    intro m k before
    by_cases same : m = n
    · subst same
      simp only [GroupState.release, update_self, count_cons_self] at before ⊢
      omega
    · simpa [GroupState.release, same, Ne.symm same] using before
  have alive := sound.alive n known
  rw [count_cons_self] at alive
  refine ⟨taskNodePut_ok (by omega), { sound with
    referenced := fun g inside => counted _ _ (sound.referenced g inside)
    alive := fun t inside => by simpa using counted t 0 (by simpa using sound.alive t inside)
    total := ?_ }⟩
  have before := sound.total
  rw [← release_refsHeld known (sound.positive known), add_right_comm] at before
  exact Nat.succ.inj before

variable {t : Nat}

/-- The task is taken from the list of its group, and its reference to the leader becomes one of the call. -/
theorem Sound.unlist (sound : Sound borrowed none s lists) (inside : t < s.count) :
    Sound (s.leader (s.pgroup t) :: borrowed) (some t) { s with members := listRm (.inr t) s.members }
      (update lists (s.pgroup t) ((lists (s.pgroup t)).erase t)) := by
  have mem : t ∈ lists (s.pgroup t) := (sound.placed t _).mpr ⟨inside, by simp, rfl⟩
  have named := sound.named t inside (by simp)
  have referenced := sound.referenced _ named
  have pos : 0 < (lists (s.pgroup t)).length := length_pos_of_mem mem
  have shorter : ((lists (s.pgroup t)).erase t).length = (lists (s.pgroup t)).length - 1 := length_erase_of_mem mem
  exact { sound with
    named := fun u below _ => sound.named u below (by simp)
    holds := listRm_represents sound.holds mem
    placed := by
      intro u g
      rw [erased_iff sound.holds mem, sound.placed]
      simp only [ne_eq, some.injEq, reduceCtorEq, not_false_eq_true, true_and]
      tauto
    referenced := by
      intro g known
      by_cases here : g = s.pgroup t
      · subst here
        simp only [update_self, count_cons_self, shorter]
        omega
      · have other : s.leader g ≠ s.leader _ := fun same => here (sound.sole _ _ known named same)
        simpa [here, other.symm] using sound.referenced g known
    alive := by
      intro u below
      by_cases here : u = s.leader (s.pgroup t)
      · subst here
        simp only [count_cons_self]
        omega
      · simpa [Ne.symm here] using sound.alive u below
    total := congrArg (· + 1) sound.total }

theorem Sound.leave (sound : Sound borrowed none s lists) (inside : t < s.count) :
    pgroupRm t s = .ok ({ s with members := listRm (.inr t) s.members }.release (s.leader (s.pgroup t))) ∧
      Sound borrowed (some t) ({ s with members := listRm (.inr t) s.members }.release (s.leader (s.pgroup t)))
        (update lists (s.pgroup t) ((lists (s.pgroup t)).erase t)) :=
  (sound.unlist inside).put (sound.leaders _ (sound.named t inside (by simp)))

/-- The task is put on the list of a group, with a reference to the leader. -/
def GroupState.enter (t g : Nat) (s : GroupState) : GroupState :=
  { s.hold (s.leader g) with
    pgroup := Function.update s.pgroup t g
    members := listAdd (.inr t) (.inl g) s.members }

variable {g me : Nat} {parent : Option Nat} {pgid pid : Int}

theorem Sound.enlist (sound : Sound (s.leader g :: borrowed) (some t) s lists) (inside : t < s.count)
    (known : g < s.groupCount) :
    Sound borrowed none { s with pgroup := update s.pgroup t g, members := listAdd (.inr t) (.inl g) s.members }
      (update lists g (t :: lists g)) := by
  have absent : ∀ h, t ∉ lists h := fun h mem => ((sound.placed t h).mp mem).2.1 rfl
  exact { sound with
    named := by
      intro u below _
      by_cases same : u = t
      · simpa [same] using known
      · simpa [same] using sound.named u below (by simpa using same)
    holds := listAdd_represents sound.holds known absent
    placed := by
      intro u h
      rw [added_iff, sound.placed]
      by_cases same : u = t
      · simp [same, inside, eq_comm]
      · simp [same]
    referenced := by
      intro h below
      have before := sound.referenced h below
      by_cases here : h = g
      · subst here
        simp only [update_self, length_cons, count_cons_self] at before ⊢
        omega
      · have other : s.leader h ≠ s.leader g := fun same => here (sound.sole _ _ below known same)
        simpa [here, other.symm] using before
    alive := fun u below => count_le_count_cons.trans_lt (sound.alive u below)
    total := Nat.succ.inj sound.total }

theorem Sound.enter (sound : Sound borrowed (some t) s lists) (brief : borrowed.length ≤ 1) (inside : t < s.count)
    (known : g < s.groupCount) :
    pgroupAdd t g s = .ok (s.enter t g) ∧ Sound borrowed none (s.enter t g) (update lists g (t :: lists g)) := by
  obtain ⟨got, held⟩ := sound.get brief (sound.leaders g known)
  exact ⟨by rw [pgroupAdd, got]; rfl, Sound.enlist held inside known⟩

def GroupState.found (t : Nat) (s : GroupState) : GroupState :=
  { s with
    groupCount := s.groupCount + 1
    leader := Function.update s.leader s.groupCount t
    members := listInit (.inl s.groupCount) s.members
    pgroups := s.groupCount :: s.pgroups }

theorem Sound.found (sound : Sound borrowed out s lists) (inside : t < s.count)
    (first : ∀ g < s.groupCount, s.leader g ≠ t) : Sound borrowed out (s.found t) lists := by
  have unused : lists s.groupCount = [] := sound.holds.outside _ (Nat.lt_irrefl _)
  have cases : ∀ g < s.groupCount + 1, g = s.groupCount ∨ g < s.groupCount ∧ g ≠ s.groupCount := by omega
  exact { sound with
    groups := by
      simp only [GroupState.found, mem_cons, sound.groups]
      omega
    leaders := by
      intro g below
      rcases cases g below with rfl | ⟨known, other⟩
      · simpa [GroupState.found] using inside
      · simpa [GroupState.found, other] using sound.leaders g known
    sole := by
      intro g h below under
      rcases cases g below with rfl | ⟨known, other⟩ <;> rcases cases h under with rfl | ⟨met, apart⟩
      · simp
      · simpa [GroupState.found, apart] using fun same => absurd same.symm (first h met)
      · simpa [GroupState.found, other] using fun same => absurd same (first g known)
      · simpa [GroupState.found, other, apart] using sound.sole g h known met
    named := fun u below listed => Nat.lt_succ_of_lt (sound.named u below listed)
    holds := by
      have heads : insert s.groupCount {g | g < s.groupCount} = {g | g < s.groupCount + 1} := by
        ext g
        simp only [Set.mem_insert_iff, Set.mem_ofPred_eq]
        omega
      have both := listInit_represents sound.holds s.groupCount
      rw [heads, ← unused, update_eq_self] at both
      exact both
    referenced := by
      intro g below
      rcases cases g below with rfl | ⟨known, other⟩
      · simpa [GroupState.found, unused] using sound.alive t inside
      · simpa [GroupState.found, other] using sound.referenced g known
    total := sound.total }

theorem pgroupCreate_ok (alive : 0 < s.refs t) : pgroupCreate t s = .ok ((s.found t).enter t s.groupCount) := by
  simp only [pgroupCreate, pgroupAdd]
  rw [taskNodeGet_ok (by simpa using alive)]
  rfl

theorem Sound.create (sound : Sound borrowed (some t) s lists) (brief : borrowed.length ≤ 1) (inside : t < s.count)
    (first : ∀ g < s.groupCount, s.leader g ≠ t) :
    pgroupCreate t s = .ok ((s.found t).enter t s.groupCount) ∧
      Sound borrowed none ((s.found t).enter t s.groupCount) (update lists s.groupCount (t :: lists s.groupCount)) := by
  refine ⟨pgroupCreate_ok (sound.positive inside), ?_⟩
  exact ((sound.found inside first).enter brief inside (Nat.lt_succ_self _)).2

/-- The node that `task_node_build` makes, before it has a session. -/
def GroupState.conceive (parent : Option Nat) (s : GroupState) : GroupState :=
  { s with
    count := s.count + 1
    nextPid := s.nextPid + 1
    pid := Function.update s.pid s.count s.nextPid
    parent := Function.update s.parent s.count parent
    refs := Function.update s.refs s.count 1
    tasks := s.count :: s.tasks }

theorem conceive_refsHeld (parent : Option Nat) : (s.conceive parent).refsHeld = s.refsHeld + 1 := by
  simp [refsHeld, conceive, Finset.sum_range_succ, Finset.sum_update_of_notMem Finset.notMem_range_self]

/-- And with its session, to whose leader it has a reference. -/
def GroupState.bear (parent : Option Nat) (session sessionCount : Nat) (sessionLeader : Nat → Nat) (s : GroupState) : GroupState :=
  { (s.conceive parent).hold (sessionLeader session) with
    session := Function.update s.session s.count session
    sessionCount
    sessionLeader }

section Bear

variable {session sessionCount : Nat} {sessionLeader : Nat → Nat}
variable (room : (s.conceive parent).refs (sessionLeader session) + 1 < wordSize)
include room

theorem bear_refs (t : Nat) :
    update s.refs s.count 1 t ≤ (s.bear parent session sessionCount sessionLeader).refs t := by
  simp only [bear, hold_refs room]
  by_cases led : t = sessionLeader session
  iterate 2
    · simp [conceive, led]

theorem Sound.bear (sound : Sound [] none s lists) (more : s.count < Tasks.maxTaskNodes) (joined : session < sessionCount)
    (sessions : ∀ t < s.count, s.session t < sessionCount)
    (sessionLeaders : ∀ c < sessionCount, sessionLeader c < s.count + 1) :
    Sound [] (some s.count) (s.bear parent session sessionCount sessionLeader) lists := by
  have cases : ∀ t < s.count + 1, t = s.count ∨ t < s.count ∧ t ≠ s.count := by omega
  have kept : ∀ t < s.count, s.refs t ≤ (s.bear parent session sessionCount sessionLeader).refs t := by
    intro t below
    simpa [below.ne] using bear_refs room t
  exact {
    pids := by
      intro t below
      rcases cases t below with rfl | ⟨old, other⟩
      · simpa [GroupState.bear, conceive, hold] using sound.nextPid
      · simpa [GroupState.bear, conceive, hold, other] using sound.pids t old
    nextPid := congrArg (· + 1) sound.nextPid
    tasks := by
      simp only [GroupState.bear, conceive, hold, mem_cons, sound.tasks]
      omega
    sessions := by
      intro t below
      rcases cases t below with rfl | ⟨old, other⟩
      · simpa [GroupState.bear] using joined
      · simpa [GroupState.bear, other] using sessions t old
    sessionLeaders
    groups := sound.groups
    leaders := fun g known => Nat.lt_succ_of_lt (sound.leaders g known)
    sole := sound.sole
    named := by
      intro t below old
      exact sound.named t ((cases t below).resolve_left (by simpa using old)).1 (by simp)
    holds := sound.holds
    placed := by
      intro t g
      rw [sound.placed]
      simp only [ne_eq, reduceCtorEq, not_false_eq_true, true_and, some.injEq]
      constructor
      · exact fun ⟨below, group⟩ => ⟨Nat.lt_succ_of_lt below, below.ne, group⟩
      · exact fun ⟨below, other, group⟩ => ⟨((cases t below).resolve_left other).1, group⟩
    referenced := fun g known => (sound.referenced g known).trans_le (kept _ (sound.leaders g known))
    alive := by
      intro t below
      rcases cases t below with rfl | ⟨old, _⟩
      · simpa [Nat.succ_le_iff] using bear_refs room s.count
      · exact (sound.alive t old).trans_le (kept t old)
    total := by
      have before := sound.total
      have given : (s.bear parent session sessionCount sessionLeader).refsHeld = s.refsHeld + 2 :=
        (hold_refsHeld (sessionLeaders _ joined) room).trans (congrArg (· + 1) (conceive_refsHeld _))
      rw [given]
      simp only [toList_none, toList_some, length_nil, length_singleton, GroupState.bear, conceive, hold] at before ⊢
      omega
    few := more }

end Bear

theorem Sound.fork {parent : Nat} (sound : Sound [] none s lists) (inside : parent < s.count)
    (more : s.count < Tasks.maxTaskNodes) :
    ∃ s' lists, taskNodeBuild (some parent) s = .ok s' ∧ Sound [] none s' lists := by
  have joined := sound.sessions parent inside
  have led := sound.sessionLeaders _ joined
  have known := sound.named parent inside (by simp)
  have older : s.sessionLeader (s.session parent) ≠ s.count := led.ne
  have room : (s.conceive (some parent)).refs (s.sessionLeader (s.session parent)) + 1 < wordSize := by
    simpa [conceive, older] using sound.room (by decide) led
  have born := sound.bear room more joined sound.sessions fun c old => Nat.lt_succ_of_lt (sound.sessionLeaders c old)
  obtain ⟨_, entered⟩ := born.enter (by decide) (Nat.lt_succ_self _) known
  have alive := sound.positive led
  have leads := born.positive (born.leaders _ known)
  refine ⟨_, _, ?_, entered⟩
  simp only [taskNodeBuild, sessionAdd]
  rw [taskNodeGet_ok (by simpa [older] using alive)]
  simp only [pgroupAdd, ok_bind, pure_ok]
  rw [taskNodeGet_ok (by exact leads)]
  rfl

theorem Sound.root (sound : Sound [] none s lists) (more : s.count < Tasks.maxTaskNodes) :
    ∃ s' lists, taskNodeBuild none s = .ok s' ∧ s'.count = s.count + 1 ∧ Sound [] none s' lists := by
  have leader : ∀ c < s.sessionCount + 1, update s.sessionLeader s.sessionCount s.count c < s.count + 1 := by
    intro c below
    by_cases same : c = s.sessionCount
    · simp [same]
    · simpa [same] using Nat.lt_succ_of_lt (sound.sessionLeaders c (by omega))
  have room : (s.conceive none).refs (update s.sessionLeader s.sessionCount s.count s.sessionCount) + 1 < wordSize := by
    simp [conceive, wordSize]
  have born := sound.bear room more (Nat.lt_succ_self _) (fun t below => Nat.lt_succ_of_lt (sound.sessions t below))
    leader
  obtain ⟨_, entered⟩ := born.create (by decide) (Nat.lt_succ_self _) fun g known => (sound.leaders g known).ne
  refine ⟨_, _, ?_, ?_, entered⟩
  · simp only [taskNodeBuild, sessionCreate, sessionAdd]
    rw [taskNodeGet_ok (by simp)]
    simp only [ok_bind, pure_ok]
    rw [pgroupCreate_ok (by exact born.positive (Nat.lt_succ_self _))]
    rfl
  · rfl

theorem noTasks_sound : Sound [] none noTasks fun _ => [] := by
  constructor <;> simp [noTasks, refsHeld]
  exact ⟨by simp, by simp, by simp, by simp⟩

theorem schedInit_sound : ∃ s lists, schedInit = .ok s ∧ Sound [] none s lists := by
  obtain ⟨idle, _, built, one, sound⟩ := noTasks_sound.root (by decide)
  obtain ⟨both, lists, again, _, sound⟩ := sound.root (one ▸ by decide)
  exact ⟨both, lists, by simp only [schedInit, built, again, ok_bind], sound⟩

/-- What `setpgid` asks for can be done: the task leads no group yet, or the group is there. -/
def Fits (s : GroupState) (node : Nat) (pgid : Int) : Prop :=
  if pgid = 0 ∨ pgid = s.pid node then ∀ g ∈ s.pgroups, s.leader g ≠ node else (pgroupFind pgid s).isSome = true

instance {node : Nat} {pgid : Int} : Decidable (Fits s node pgid) := by
  unfold Fits
  infer_instance

theorem Sound.changeGroup {node : Nat} (sound : Sound [node] none s lists) (inside : node < s.count)
    (fits : Fits s node pgid) :
    ∃ s' lists, changeGroup node pgid s = .ok (0, s') ∧ Sound [] none s' lists := by
  obtain ⟨left, without⟩ := sound.leave inside
  by_cases own : pgid = 0 ∨ pgid = s.pid node
  · rw [Fits, if_pos own] at fits
    obtain ⟨made, within⟩ := without.create le_rfl inside fun g known => fits g ((sound.groups g).mpr known)
    obtain ⟨given, done⟩ := within.put inside
    refine ⟨_, _, ?_, done⟩
    simp only [Groups.changeGroup, if_pos own, left, made, given, ok_bind, pure_ok]
  · rw [Fits, if_neg own] at fits
    obtain ⟨pg, found⟩ := isSome_iff_exists.mp fits
    have known : pg < s.groupCount := (sound.groups pg).mp (mem_of_find?_eq_some found)
    obtain ⟨joined, within⟩ := without.enter le_rfl inside known
    obtain ⟨given, done⟩ := within.put inside
    refine ⟨_, _, ?_, done⟩
    simp only [Groups.changeGroup, if_neg own, found, left, joined, given, ok_bind, pure_ok]

/-- The task that a call of `setpgid` by `me` is about, if it may be. -/
def target (s : GroupState) (me : Nat) (pid : Int) : Option Nat :=
  if pid ≠ 0 ∧ pid ≠ s.pid me then
    (s.tasks.find? fun t => (s.pid t : Int) = pid).filter fun node =>
      (isWithin s (s.pid me) (s.count + 1) (some node)).toOption = some true
  else some me

/-- A call of `setpgid` is refused at once, or it succeeds. -/
def Orderly (s : GroupState) : GroupEvent → Prop
  | .fork _ => True
  | .setpgid me pid pgid => pid < 0 ∨ pgid < 0 ∨ ∃ node ∈ target s me pid, Fits s node pgid

theorem Orderly.aims (orderly : Orderly s (.setpgid me pid pgid))
    (lawful : ¬ (pid < 0 ∨ pgid < 0)) : ∃ node ∈ target s me pid, Fits s node pgid :=
  (or_assoc.mpr orderly).resolve_left lawful

theorem isWithin_hold {pid bound : Nat} {cur : Option Nat} :
    isWithin (s.hold n) pid bound cur = isWithin s pid bound cur := by
  induction bound generalizing cur with
  | zero => rfl
  | succ _ ih =>
    cases cur with
    | none => rfl
    | some =>
      rw [isWithin, ih]
      rfl

theorem Sound.setpgid {node : Nat} (sound : Sound [] none s lists) (caller : me < s.count)
    (lawful : ¬ (pid < 0 ∨ pgid < 0)) (aimed : target s me pid = some node) (fits : Fits s node pgid) :
    ∃ s' lists, sysSetpgid me pid pgid s = .ok (0, s') ∧ Sound [] none s' lists := by
  by_cases other : pid ≠ 0 ∧ pid ≠ s.pid me
  · rw [target, if_pos other, filter_eq_some_iff] at aimed
    obtain ⟨found, related⟩ := aimed
    have inside : node < s.count := (sound.tasks node).mp (mem_of_find?_eq_some found)
    have alive := sound.positive inside
    have within : isWithin s (s.pid me) (s.count + 1) (some node) = .ok true := toOption_returns (by simpa using related)
    obtain ⟨s', lists, changed, done⟩ := (sound.get (by decide) inside).2.changeGroup inside (show Fits (s.hold node) node pgid from fits)
    refine ⟨s', lists, ?_, done⟩
    simp only [sysSetpgid, if_neg lawful, if_pos other, taskNodeFind, found, taskNodeGet_ok alive, ok_bind, ok_map]
    have counts : (s.hold node).count = s.count := rfl
    have pids : (s.hold node).pid = s.pid := rfl
    simp [isWithin_hold, counts, pids, within, changed]
  · rw [target, if_neg other] at aimed
    cases aimed
    have alive := sound.positive caller
    obtain ⟨s', lists, changed, done⟩ := (sound.get (by decide) caller).2.changeGroup caller (show Fits (s.hold me) me pgid from fits)
    refine ⟨s', lists, ?_, done⟩
    simp only [sysSetpgid, if_neg lawful, if_neg other, taskNodeGet_ok alive, changed, ok_bind]

/-- The groups are told apart by the pids of their leaders. -/
structure Identified (s : GroupState) : Prop where
  unique : ∀ g ∈ s.pgroups, ∀ h ∈ s.pgroups, s.pid (s.leader g) = s.pid (s.leader h) → g = h
  listed : ∃ lists, s.members.Represents {g | g ∈ s.pgroups} lists ∧
    ∀ t ∈ s.tasks, s.pgroup t ∈ s.pgroups ∧ ∀ g, t ∈ lists g ↔ s.pgroup t = g
  /-- Whoever asks for the group of a task gets what the task gets itself. -/
  asked : ∀ me ∈ s.tasks, ∀ t ∈ s.tasks, s.pid t ≠ 0 → sysGetpgid me (s.pid t) s = sysGetpgid t 0 s
  together : ∀ t ∈ s.tasks, ∀ u ∈ s.tasks, sysGetpgid t 0 s = sysGetpgid u 0 s → s.pgroup t = s.pgroup u
  signalled : ∀ t ∈ s.tasks, ∃ enough, ∀ bound, enough ≤ bound → ∃ reached, pgroupSendSignal bound (s.pgroup t) s = .ok reached ∧
    ∀ u ∈ s.tasks, u ∈ reached ↔ s.pgroup u = s.pgroup t

theorem release_hold (room : s.refs n + 1 < wordSize) : (s.hold n).release n = s := by
  simp [hold, wadd_eq room, release]

section

variable (sound : Sound [] none s lists)
include sound

theorem Sound.find (inside : t < s.count) :
    s.tasks.find? (fun u => (s.pid u : Int) = (s.pid t : Int)) = some t := by
  obtain ⟨u, found⟩ := isSome_iff_exists.mp (find?_isSome.mpr ⟨t, (sound.tasks t).mpr inside, by simp⟩ :
      (s.tasks.find? fun u => (s.pid u : Int) = (s.pid t : Int)).isSome)
  have known : u < s.count := (sound.tasks u).mp (mem_of_find?_eq_some found)
  have hit := find?_some found
  have same : s.pid u = s.pid t := Int.ofNat_inj.mp (of_decide_eq_true hit)
  rw [sound.pids u known, sound.pids t inside] at same
  rw [found, same]

theorem Sound.getpgid (inside : t < s.count) (other : s.pid t ≠ 0)
    (caller : me < s.count) : sysGetpgid me (s.pid t) s = .ok (s.pid (s.leader (s.pgroup t)), s) := by
  by_cases own : s.pid t = s.pid me
  · rw [sound.pids t inside, sound.pids me caller] at own
    simp [sysGetpgid, own]
  · have alive := sound.positive inside
    have room := sound.room (by decide) inside
    have more : 1 < (s.hold t).refs t := by simpa [hold_refs room] using alive
    have asks : ¬ ((s.pid t : Int) = 0 ∨ (s.pid t : Int) = s.pid me) := by omega
    simp only [sysGetpgid, if_neg asks, taskNodeFind, sound.find inside, taskNodeGet_ok alive, taskNodePut_ok more,
      release_hold room, ok_bind, pure_ok, ok_map]
    rfl

theorem Sound.identified : Identified s := by
  have own : ∀ t, sysGetpgid t 0 s = .ok (s.pid (s.leader (s.pgroup t)), s) := fun t => by simp [sysGetpgid]
  have unique : ∀ g ∈ s.pgroups, ∀ h ∈ s.pgroups, s.pid (s.leader g) = s.pid (s.leader h) → g = h := by
    intro g first h second same
    rw [sound.groups] at first second
    rw [sound.pids _ (sound.leaders g first), sound.pids _ (sound.leaders h second)] at same
    exact sound.sole g h first second same
  have grouped : ∀ t ∈ s.tasks, s.pgroup t ∈ s.pgroups := fun t mem =>
    (sound.groups _).mpr (sound.named t ((sound.tasks t).mp mem) (by simp))
  have placed : ∀ t ∈ s.tasks, ∀ g, t ∈ lists g ↔ s.pgroup t = g := by
    intro t mem g
    rw [sound.placed]
    simp [(sound.tasks t).mp mem]
  refine ⟨unique, ⟨lists, ?_, fun t mem => ⟨grouped t mem, placed t mem⟩⟩, ?_, ?_, ?_⟩
  · have heads : {g | g ∈ s.pgroups} = {g | g < s.groupCount} := Set.ext sound.groups
    rw [heads]
    exact sound.holds
  · intro me caller t mem other
    rw [own, sound.getpgid ((sound.tasks t).mp mem) other ((sound.tasks me).mp caller)]
  · intro t first u second same
    exact unique _ (grouped t first) _ (grouped u second) (Int.ofNat_inj.mp (Prod.mk.inj (Except.ok.inj same)).1)
  · intro t mem
    refine ⟨(lists (s.pgroup t)).length + 1, fun bound enough => ⟨lists _, ?_, fun u known => placed u known _⟩⟩
    exact listWalk_segment (sound.holds.ring _ ((sound.groups _).mp (grouped t mem))) enough

theorem Sound.step {event : GroupEvent} (orderly : Orderly s event) (enabled : grouping.enabled event s = true) :
    ∃ s' lists, grouping.perform event s = .ok s' ∧ Sound [] none s' lists := by
  cases event with
  | fork =>
    simp only [grouping, Bool.and_eq_true, decide_eq_true_eq] at enabled
    exact sound.fork enabled.1 enabled.2
  | setpgid me pid pgid =>
    have caller : me < s.count := by simpa [grouping] using enabled
    by_cases refused : pid < 0 ∨ pgid < 0
    · exact ⟨s, lists, by simp [grouping, sysSetpgid, refused], sound⟩
    · obtain ⟨node, aimed, fits⟩ := orderly.aims refused
      obtain ⟨s', lists, ran, done⟩ := sound.setpgid caller refused aimed fits
      exact ⟨s', lists, by simp [grouping, ran], done⟩

end

def FailsClean (s : GroupState) : Prop :=
  ∀ me pid pgid ret s', me ∈ s.tasks → Orderly s (.setpgid me pid pgid) → sysSetpgid me pid pgid s = .ok (ret, s') → ret < 0 → s' = s

theorem Sound.failsClean (sound : Sound [] none s lists) : FailsClean s := by
  intro me pid pgid ret s' mem orderly ran failed
  by_cases refused : pid < 0 ∨ pgid < 0
  · simp only [sysSetpgid, if_pos refused, Except.ok.injEq, Prod.mk.injEq] at ran
    exact ran.2.symm
  · obtain ⟨node, aimed, fits⟩ := orderly.aims refused
    obtain ⟨_, _, succeeded, _⟩ := sound.setpgid ((sound.tasks me).mp mem) refused aimed fits
    rw [succeeded] at ran
    cases ran
    contradiction

instance (event : GroupEvent) : Decidable (Orderly s event) := by
  cases event with
  | fork => exact inferInstanceAs (Decidable True)
  | setpgid me pid pgid => exact inferInstanceAs (Decidable (pid < 0 ∨ pgid < 0 ∨ ∃ node ∈ target s me pid, Fits s node pgid))

theorem Sound.reached {start : GroupState} (sound : Sound [] none start lists)
    (path : grouping.Reaches Orderly start s) : ∃ lists, Sound [] none s lists := by
  apply path.preserves (fun s => ∃ lists, Sound [] none s lists) ⟨lists, sound⟩
  intro before event after ⟨lists, sound⟩ orderly enabled ran
  obtain ⟨_, lists, returned, sound⟩ := sound.step orderly enabled
  cases returned.symm.trans ran
  exact ⟨lists, sound⟩

theorem setpgid_keeps_identity {start s : GroupState} (init : schedInit = .ok start)
    (path : grouping.Reaches Orderly start s) :
    Identified s ∧ FailsClean s ∧ (∀ t ∈ s.tasks, 0 < s.refs t ∧ s.refs t < 2 ^ 32) ∧
      ∀ event, Orderly s event → grouping.enabled event s = true → ∃ s', grouping.perform event s = .ok s' := by
  obtain ⟨_, _, built, sound⟩ := schedInit_sound
  cases init.symm.trans built
  obtain ⟨lists, sound⟩ := sound.reached path
  refine ⟨sound.identified, sound.failsClean, fun t mem => ?_, fun event orderly enabled => ?_⟩
  · have inside := (sound.tasks t).mp mem
    exact ⟨sound.positive inside, Nat.lt_of_succ_lt (sound.room (by decide) inside)⟩
  · obtain ⟨s', _, ran, _⟩ := sound.step orderly enabled
    exact ⟨s', ran⟩

theorem setpgid_keeps_identity_two : ∃ start s, schedInit = .ok start ∧ grouping.Reaches Orderly start s ∧
    s.pgroup 3 ≠ s.pgroup 2 ∧ Identified s := by
  obtain ⟨start, init, s, ran, apart⟩ : ∃ start ∈ schedInit.toOption,
      ∃ s ∈ grouping.run Orderly [.fork 1, .setpgid 1 2 0, .fork 2, .setpgid 3 0 1] start, s.pgroup 3 ≠ s.pgroup 2 := by
    decide +kernel
  have reached : grouping.Reaches Orderly start s := Machine.run_reaches ran
  exact ⟨start, s, toOption_returns init, reached, apart,
    (setpgid_keeps_identity (toOption_returns init) reached).1⟩

theorem setpgid_splits_group : (∃ start s, schedInit = .ok start ∧ grouping.Reaches (fun _ _ => True) start s ∧
      sysGetpgid 2 0 s = sysGetpgid 3 0 s ∧ s.pgroup 2 ≠ s.pgroup 3 ∧ ¬ Identified s) ∧
    ∃ start s, schedInit = .ok start ∧ sysSetpgid 1 0 99 start = .ok (-eperm, s) ∧ s.refs 1 = start.refs 1 + 1 := by
  constructor
  · obtain ⟨start, init, s, ran, same, apart, second, third⟩ : ∃ start ∈ schedInit.toOption,
        ∃ s ∈ grouping.run (fun _ _ => True) [.fork 1, .setpgid 2 0 0, .fork 2, .setpgid 2 0 0] start,
        s.pid (s.leader (s.pgroup 2)) = s.pid (s.leader (s.pgroup 3)) ∧ s.pgroup 2 ≠ s.pgroup 3 ∧ 2 ∈ s.tasks ∧
        3 ∈ s.tasks := by decide +kernel
    have answers : sysGetpgid 2 0 s = sysGetpgid 3 0 s := by simp [sysGetpgid, same]
    exact ⟨start, s, toOption_returns init, Machine.run_reaches ran, answers, apart,
      fun identified => apart (identified.together 2 second 3 third answers)⟩
  · obtain ⟨start, init, ⟨_, s⟩, ran, ⟨⟩, more⟩ : ∃ start ∈ schedInit.toOption,
        ∃ result ∈ (sysSetpgid 1 0 99 start).toOption, result.1 = -eperm ∧ result.2.refs 1 = start.refs 1 + 1 := by
      decide +kernel
    exact ⟨start, s, toOption_returns init, toOption_returns ran, more⟩

/-- What looking up a pid, and asking for its group, is to do. -/
structure LooksUp (me : Nat) (pid : Int) (s : GroupState) : Prop where
  found : (∃ t ∈ s.tasks, (s.pid t : Int) = pid) →
    ∃ t ∈ s.tasks, (s.pid t : Int) = pid ∧
      taskNodeFind pid s = .ok (t, { s with refs := update s.refs t (s.refs t + 1) })
  missed : (∀ t ∈ s.tasks, (s.pid t : Int) ≠ pid) → ∃ node, taskNodeFind pid s = .ok (node, s)
  asked : ∃ ret, sysGetpgid me pid s = .ok (ret, s)

theorem sysGetpgid_of_find {pid : Int} {t : Nat} (me : Nat) (alive : 0 < s.refs t) (room : s.refs t + 1 < wordSize)
    (ran : taskNodeFind pid s = .ok (t, s.hold t)) : ∃ ret, sysGetpgid me pid s = .ok (ret, s) := by
  by_cases own : pid = 0 ∨ pid = s.pid me
  · exact ⟨_, if_pos own⟩
  · have more : 1 < (s.hold t).refs t := by simpa [hold_refs room] using alive
    simp [sysGetpgid, own, ran, taskNodePut_ok more, release_hold room]

/-- It does so exactly if the first task found has that pid, and a reference that can be counted up. -/
theorem looksUp_iff (me : Nat) (pid : Int) (s : GroupState) :
    LooksUp me pid s ↔ ∃ t, s.tasks.find? (fun t => (s.pid t : Int) = pid) = some t ∧
      0 < s.refs t ∧ s.refs t + 1 < wordSize := by
  constructor
  · intro looks
    cases first : s.tasks.find? (fun t => (s.pid t : Int) = pid) with
    | none =>
      obtain ⟨node, ran⟩ := looks.missed (by simpa using first)
      simp [taskNodeFind, first] at ran
    | some t =>
      obtain ⟨_, _, _, ran⟩ := looks.found ⟨t, mem_of_find?_eq_some first, by simpa using find?_some first⟩
      have alive : 0 < s.refs t := by
        refine Nat.pos_of_ne_zero fun dead => ?_
        simp [taskNodeFind, first, taskNodeGet, dead] at ran
      refine ⟨t, rfl, alive, ?_⟩
      simp only [taskNodeFind, first, taskNodeGet_ok alive, ok_map, Except.ok.injEq, Prod.mk.injEq] at ran
      obtain ⟨rfl, counted⟩ := ran
      have next := congrFun (congrArg GroupState.refs counted) t
      simp only [hold, update_self] at next
      exact next ▸ wadd_lt _ 1
  · rintro ⟨t, first, alive, room⟩
    have mem := mem_of_find?_eq_some first
    have same : (s.pid t : Int) = pid := by simpa using find?_some first
    have ran : taskNodeFind pid s = .ok (t, s.hold t) := by simp [taskNodeFind, first, taskNodeGet_ok alive]
    refine ⟨fun _ => ⟨t, mem, same, ?_⟩, fun none => absurd same (none t mem), sysGetpgid_of_find me alive room ran⟩
    rw [ran, hold, wadd_eq room]

/-- With only the idle task and init there is no task of the pid 7. -/
theorem looksUp_stray : ∃ s, schedInit = .ok s ∧ taskNodeFind 7 s = .error .strayEntry ∧
    sysGetpgid 1 7 s = .error .strayEntry := by
  refine ⟨_, rfl, ?_, ?_⟩ <;> rfl

end KOs.Sched.Groups

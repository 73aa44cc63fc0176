import KOs.Sched.RunQueue

namespace KOs.Sched

open KOs.Common KOs.Data List

variable {κ τ : Type}

def requeued (s : Scheduler κ τ) (c : κ) (items : List τ) : List τ :=
  if (s.thread (s.current c)).state = .awake then s.current c :: items else items

/-- The thread `lock_next_current` settles on, and what it leaves in the queue. -/
def Chosen (s : Scheduler κ τ) (c : κ) (items : List τ) (next : τ) (rest : List τ) : Prop :=
  (s.taskingUp = true ∧ requeued s c items = next :: rest) ∨
    ((s.taskingUp = false ∨ requeued s c items = []) ∧ next = s.idleTask c ∧
      rest = requeued s c items)

/-- Only the queue, the task nodes and the count of running tasks may differ. -/
structure Kept (before after : Scheduler κ τ) : Prop where
  thread : after.thread = before.thread
  current : after.current = before.current
  idleTask : after.idleTask = before.idleTask
  taskingUp : after.taskingUp = before.taskingUp
  timers : after.timers = before.timers

structure Switched [DecidableEq κ] [DecidableEq τ] (c : κ) (before after : Scheduler κ τ) (next : τ)
    (items : List τ) : Prop where
  queue : Holds after.queuedThreads items
  current : ∀ d, after.current d = if d = c then next else before.current d
  state : ∀ t, (after.thread t).state = (before.thread t).state
  insem : ∀ t, (after.thread t).insem = (before.thread t).insem
  active : ∀ t, (after.thread t).active =
    if t = next then true else if t = before.current c then false else (before.thread t).active
  idleTask : after.idleTask = before.idleTask
  timers : after.timers = before.timers

variable {s : Scheduler κ τ} {items : List τ} {c : κ} {rest : List τ} {next : τ}
variable {t : τ} {d : κ}

section

variable (holds : RunQueue s items)
include holds

theorem RunQueue.requeued_awake (mem : t ∈ requeued s c items) :
    (s.thread t).state = .awake ∧ (t = s.current c ∨ (s.thread t).active = false) := by
  rw [requeued] at mem
  split at mem
  next awake =>
    rcases mem_cons.mp mem with same | older
    · rw [same]
      exact ⟨awake, .inl rfl⟩
    · obtain ⟨state, inactive⟩ := (holds.ready t).mp older
      exact ⟨state, .inr inactive⟩
  · obtain ⟨state, inactive⟩ := (holds.ready t).mp mem
    exact ⟨state, .inr inactive⟩

theorem requeued_nodup (c : κ) : (requeued s c items).Nodup := by
  rw [requeued]
  split
  next awake =>
    refine nodup_cons.mpr ⟨?_, holds.queue.nodup⟩
    intro mem
    have active := holds.current_active (by rw [awake]; decide)
    rw [((holds.ready _).mp mem).2] at active
    contradiction
  · exact holds.queue.nodup

theorem RunQueue.mem_requeued (t : τ) :
    t ∈ requeued s c items ↔ (s.thread t).state = .awake ∧ (t = s.current c ∨ (s.thread t).active = false) := by
  constructor
  · exact holds.requeued_awake
  · intro ⟨awake, either⟩
    rw [requeued]
    rcases either with same | inactive
    · rw [← same, if_pos awake]
      exact mem_cons_self
    · have mem := (holds.ready t).mpr ⟨awake, inactive⟩
      split
      · exact mem_cons_of_mem _ mem
      · exact mem

variable (chosen : Chosen s c items next rest)
include chosen

theorem RunQueue.chosen_runs : ((s.thread next).state = .idle ∨ (s.thread next).state = .awake) ∧
      (s.current c ≠ next → (s.thread next).active = false) := by
  rcases chosen with ⟨_, content⟩ | ⟨_, isIdle, _⟩
  · obtain ⟨awake, either⟩ := holds.requeued_awake (content ▸ mem_cons_self)
    refine ⟨.inr awake, ?_⟩
    intro ne
    rcases either with same | inactive
    · exact absurd same.symm ne
    · exact inactive
  · refine ⟨.inl ((holds.idle next).mpr ⟨c, isIdle.symm⟩), ?_⟩
    intro ne
    cases active : (s.thread next).active with
    | false => rfl
    | true =>
      rw [isIdle] at active ne
      exact absurd (holds.idleActive c active) ne

theorem RunQueue.chosen_idle (isTask : s.idleTask d = next) : d = c := by
  rcases chosen with ⟨_, content⟩ | ⟨_, isIdle, _⟩
  · have state := (holds.requeued_awake (content ▸ mem_cons_self)).1
    rw [← isTask, (holds.idle _).mpr ⟨d, rfl⟩] at state
    contradiction
  · exact holds.idleDistinct d c (isTask.trans isIdle)

theorem RunQueue.chosen_elsewhere (ne : d ≠ c) :
    s.current d ≠ next := by
  intro same
  obtain ⟨runnable, inactive⟩ := holds.chosen_runs chosen
  have asleep := inactive fun here => ne (holds.single d c (same.trans here.symm))
  rcases runnable with isIdle | awake
  · obtain ⟨e, isTask⟩ := (holds.idle next).mp isIdle
    have here := holds.idleHere d e (same.trans isTask.symm)
    exact ne (here.trans (holds.chosen_idle chosen isTask))
  · have running := (holds.running next (by rw [awake]; decide)).mpr ⟨d, same⟩
    rw [asleep] at running
    contradiction

theorem RunQueue.mem_rest (t : τ) :
    t ∈ rest ↔ t ≠ next ∧ (s.thread t).state = .awake ∧ (t = s.current c ∨ (s.thread t).active = false) := by
  rw [← holds.mem_requeued]
  rcases chosen with ⟨_, content⟩ | ⟨_, isIdle, content⟩
  · have distinct := requeued_nodup holds c
    rw [content] at distinct ⊢
    obtain ⟨apart, _⟩ := nodup_cons.mp distinct
    constructor
    · intro mem
      exact ⟨fun same => apart (same ▸ mem), mem_cons_of_mem next mem⟩
    · intro ⟨ne, mem⟩
      exact (mem_cons.mp mem).resolve_left ne
  · rw [content]
    constructor
    · intro mem
      refine ⟨?_, mem⟩
      intro same
      have awake := (holds.requeued_awake mem).1
      rw [same, isIdle, (holds.idle _).mpr ⟨c, rfl⟩] at awake
      contradiction
    · exact fun both => both.2

end

variable [DecidableEq τ]

variable (holds : RunQueue s items)
include holds

/-- The exit of the last thread of `init` is the one way not to return. -/
theorem deactivateThread_cases (c : κ) : ((s.thread (s.current c)).state = .exited ∧
        deactivateThread (s.current c) s = .error (.panicf "init exited" [])) ∨
      ∃ after, deactivateThread (s.current c) s = .ok after ∧
        Holds after.queuedThreads (requeued s c items) ∧ Kept s after := by
  cases state : (s.thread (s.current c)).state with
  | building => exact absurd state (holds.built c)
  | idle =>
    right
    refine ⟨s, ?_, ?_, ⟨rfl, rfl, rfl, rfl, rfl⟩⟩
    · simp only [deactivateThread, state]
    · rw [requeued, if_neg (by rw [state]; decide)]
      exact holds.queue
  | awake =>
    right
    have active : (s.thread (s.current c)).active = true :=
      holds.current_active (by rw [state]; decide)
    have fresh : s.current c ∉ items := by
      intro mem
      rw [((holds.ready _).mp mem).2] at active
      contradiction
    refine ⟨{ s.enqueue (s.current c) with tasksGoing := s.tasksGoing - 1 }, ?_, ?_,
      ⟨rfl, rfl, rfl, rfl, rfl⟩⟩
    · simp only [deactivateThread, state, active, Bool.not_true, bugOn_false]
      rfl
    · rw [requeued, if_pos state]
      exact holds.queue.add fresh
  | sleeping =>
    right
    refine ⟨{ s with tasksGoing := s.tasksGoing - 1 }, ?_, ?_, ⟨rfl, rfl, rfl, rfl, rfl⟩⟩
    · simp only [deactivateThread, state]
    · rw [requeued, if_neg (by rw [state]; decide)]
      exact holds.queue
  | exited =>
    have queue : Holds s.queuedThreads (requeued s c items) := by
      rw [requeued, if_neg (by rw [state]; decide)]
      exact holds.queue
    simp only [deactivateThread, state]
    split
    · rw [taskNodeZombify]
      split
      · exact .inl ⟨trivial, rfl⟩
      · exact .inr ⟨_, rfl, queue, ⟨rfl, rfl, rfl, rfl, rfl⟩⟩
    · exact .inr ⟨_, rfl, queue, ⟨rfl, rfl, rfl, rfl, rfl⟩⟩

variable {middle : Scheduler κ τ}

theorem lockNextCurrent_exists (queue : Holds middle.queuedThreads (requeued s c items)) (kept : Kept s middle) :
    ∃ after next rest, lockNextCurrent c middle = .ok (after, next) ∧ Chosen s c items next rest ∧
      Holds after.queuedThreads rest ∧ Kept s after := by
  have idles : (s.taskingUp = false ∨ requeued s c items = []) →
      lockNextCurrent c middle = .ok (middle, middle.idleTask c) →
      ∃ after next rest, lockNextCurrent c middle = .ok (after, next) ∧ Chosen s c items next rest ∧
        Holds after.queuedThreads rest ∧ Kept s after := by
    intro none ran
    rw [kept.idleTask] at ran
    exact ⟨middle, s.idleTask c, requeued s c _, ran, .inr ⟨none, rfl, rfl⟩, queue, kept⟩
  cases up : s.taskingUp with
  | false =>
    apply idles (.inl up)
    rw [lockNextCurrent, kept.taskingUp, up]
    rfl
  | true =>
    cases content : requeued s c items with
    | nil =>
      apply idles (.inr content)
      have empty := queue.empty_iff.mpr content
      rw [lockNextCurrent, kept.taskingUp, up, empty]
      rfl
    | cons next rest =>
      have nonempty : listEmpty middle.queuedThreads (.inl ()) = false := by
        cases test : listEmpty middle.queuedThreads (.inl ()) with
        | false => rfl
        | true =>
          rw [queue.empty_iff.mp test] at content
          contradiction
      have awake : (s.thread next).state = .awake :=
        (holds.requeued_awake (content ▸ mem_cons_self)).1
      rw [content] at queue
      refine ⟨{ middle with
        queuedThreads := listRm (.inr next) middle.queuedThreads
        tasksGoing := middle.tasksGoing + 1 }, next, rest, ?_, .inl ⟨up, content⟩, queue.pop, { kept with }⟩
      simp only [lockNextCurrent, kept.taskingUp, up, nonempty, queue.first, kept.thread, awake]
      rfl

variable [DecidableEq κ]

theorem finishSchedSwitch_exists (chosen : Chosen s c items next rest)
    (queue : Holds middle.queuedThreads rest) (kept : Kept s middle) :
    ∃ after, finishSchedSwitch c (s.current c) next middle = .ok after ∧ Switched c s after next rest := by
  obtain ⟨runnable, inactive⟩ := holds.chosen_runs chosen
  generalize switched : (({ middle with
      current := fun other => if other = c then next else middle.current other } : Scheduler κ τ).setActive
        (s.current c) false).setActive next true = after
  have state : ∀ t, (after.thread t).state = (s.thread t).state := by
    intro t
    rw [← switched, setActive_state, setActive_state]
    exact congrArg (fun thread => (thread t).state) kept.thread
  refine ⟨after, ?_, ?_, ?_, state, ?_, ?_, ?_, ?_⟩
  · have free : (decide (s.current c ≠ next) && (middle.thread next).active) = false := by
      by_cases same : s.current c = next
      · simp [same]
      · rw [kept.thread, inactive same, Bool.and_false]
    have fit : ((after.thread next).state != .idle && (after.thread next).state != .awake) = false := by
      rw [state]
      rcases runnable with isIdle | awake
      · rw [isIdle]
        decide
      · rw [awake]
        decide
    simp only [finishSchedSwitch, free, bugOn_false, switched, fit, ok_bind]
    rfl
  · rw [← switched]
    exact queue
  · intro d
    rw [← switched, ← kept.current]
    rfl
  · intro t
    rw [← switched]
    simp only [Scheduler.setActive, Scheduler.modify, kept.thread]
    split
    next same =>
      split
      · simp_all
      · simp_all
    · split <;> simp_all
  · intro t
    rw [← switched, setActive_active, setActive_active]
    simp only [kept.thread]
  · rw [← switched, ← kept.idleTask]
    rfl
  · rw [← switched, ← kept.timers]
    rfl

theorem doSchedSwitch_cases (c : κ) : ((s.thread (s.current c)).state = .exited ∧
        doSchedSwitch c s = .error (.panicf "init exited" [])) ∨
      ∃ after next rest, doSchedSwitch c s = .ok after ∧ Chosen s c items next rest ∧ Switched c s after next rest := by
  rcases deactivateThread_cases holds c with ⟨exited, failed⟩ | ⟨first, ran, queue, kept⟩
  · left
    refine ⟨exited, ?_⟩
    rw [doSchedSwitch, failed]
    rfl
  · right
    obtain ⟨second, next, rest, locked, chosen, queue', kept'⟩ :=
      lockNextCurrent_exists holds queue kept
    obtain ⟨after, finished, switched⟩ := finishSchedSwitch_exists holds chosen queue' kept'
    refine ⟨after, next, rest, ?_, chosen, switched⟩
    simp only [doSchedSwitch, ran, locked, finished, ok_bind]

variable {after : Scheduler κ τ}

theorem doSchedSwitch_returns (ran : doSchedSwitch c s = .ok after) :
    ∃ next rest, Chosen s c items next rest ∧ Switched c s after next rest := by
  rcases doSchedSwitch_cases holds c with ⟨_, failed⟩ | ⟨_, next, rest, expected, step⟩
  · cases ran.symm.trans failed
  · cases ran.symm.trans expected
    exact ⟨next, rest, step⟩

theorem RunQueue.switched_running (switched : Switched c s after next rest) (notIdle : (s.thread t).state ≠ .idle) :
    (after.thread t).active = true ↔ ∃ d, after.current d = t := by
  rw [switched.active]
  simp only [switched.current]
  by_cases isNext : t = next
  · simp only [if_pos isNext, true_iff]
    exact ⟨c, by rw [if_pos rfl, isNext]⟩
  · rw [if_neg isNext]
    by_cases isOld : t = s.current c
    · rw [if_pos isOld]
      refine iff_of_false (by decide) ?_
      rintro ⟨d, there⟩
      by_cases here : d = c
      · rw [if_pos here] at there
        exact isNext there.symm
      · rw [if_neg here, isOld] at there
        exact here (holds.single d c there)
    · rw [if_neg isOld, holds.running t notIdle]
      constructor
      · rintro ⟨d, there⟩
        refine ⟨d, ?_⟩
        rw [if_neg fun here => isOld (by rw [← there, here])]
        exact there
      · rintro ⟨d, there⟩
        by_cases here : d = c
        · rw [if_pos here] at there
          exact absurd there.symm isNext
        · rw [if_neg here] at there
          exact ⟨d, there⟩

theorem RunQueue.switched_idle (chosen : Chosen s c items next rest)
    (switched : Switched c s after next rest) (active : (after.thread (s.idleTask d)).active = true) :
    after.current d = s.idleTask d := by
  rw [switched.active] at active
  rw [switched.current]
  by_cases isNext : s.idleTask d = next
  · rw [if_pos (holds.chosen_idle chosen isNext), isNext]
  · rw [if_neg isNext] at active
    by_cases isOld : s.idleTask d = s.current c
    · rw [if_pos isOld] at active
      contradiction
    · rw [if_neg isOld] at active
      have there := holds.idleActive d active
      rw [if_neg fun here => isOld (by rw [← there, here])]
      exact there

theorem RunQueue.switched (chosen : Chosen s c items next rest) (switched : Switched c s after next rest) :
    RunQueue after rest := by
  refine ⟨switched.queue, ?_, ?_, ?_, ?_, ?_, ?_, ?_, ?_⟩
  · intro t
    rw [holds.mem_rest chosen, switched.state, switched.active]
    by_cases isNext : t = next
    · simp [isNext]
    · by_cases isOld : t = s.current c
      · subst isOld
        simp [isNext]
      · simp [isNext, isOld]
  · intro t
    rw [switched.state]
    exact holds.switched_running switched
  · intro d e same
    rw [switched.current, switched.current] at same
    by_cases hereD : d = c
    · by_cases hereE : e = c
      · rw [hereD, hereE]
      · rw [if_pos hereD, if_neg hereE] at same
        exact absurd same.symm (holds.chosen_elsewhere chosen hereE)
    · by_cases hereE : e = c
      · rw [if_neg hereD, if_pos hereE] at same
        exact absurd same (holds.chosen_elsewhere chosen hereD)
      · rw [if_neg hereD, if_neg hereE] at same
        exact holds.single d e same
  · intro d
    rw [switched.state, switched.current]
    split
    · rcases (holds.chosen_runs chosen).1 with isIdle | awake
      · rw [isIdle]
        decide
      · rw [awake]
        decide
    · exact holds.built d
  · intro t
    rw [switched.state, switched.idleTask]
    exact holds.idle t
  · intro d e same
    rw [switched.current, switched.idleTask] at same
    split at same
    next here =>
      rw [here, holds.chosen_idle chosen same.symm]
    · exact holds.idleHere d e same
  · intro d
    rw [switched.idleTask]
    exact holds.switched_idle chosen switched
  · rw [switched.idleTask]
    exact holds.idleDistinct

end KOs.Sched

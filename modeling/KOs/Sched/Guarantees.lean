import KOs.Sched.Runs

namespace KOs.Sched

open KOs.Common KOs.Data

variable {κ τ : Type}

def booted (idleTask : κ → τ) (isIdle : τ → Bool) : Scheduler κ τ where
  thread t :=
    { active := false
      state := if isIdle t then .idle else .building
      insem := false
      shouldDie := false
      sigPending := 0
      node := 0 }
  nodes n := { pid := n, exitState := .running, exitCode := 0, exitCause := 0, threads := [] }
  queuedThreads := ⟨fun node => ⟨node, node⟩⟩
  pollThreads := ⟨fun node => ⟨node, node⟩⟩
  threadCount := 0
  tasksGoing := 0
  suspendedThreads := 0
  taskingUp := false
  current := idleTask
  idleTask := idleTask
  timers := []

theorem booted_started {idleTask : κ → τ} {isIdle : τ → Bool} (idle : ∀ t, isIdle t = true ↔ ∃ c, idleTask c = t)
    (distinct : ∀ c d, idleTask c = idleTask d → c = d) : (booted idleTask isIdle).Started := by
  have unlinked : Holds (⟨fun node => ⟨node, node⟩⟩ : Links (Unit ⊕ τ)) [] := by
    refine ⟨fun _ _ => ⟨rfl, rfl⟩, fun _ => List.nodup_nil, ?_, fun _ _ => rfl⟩
    intro i j a mem
    contradiction
  have state : ∀ t, ((booted idleTask isIdle).thread t).state =
      if isIdle t then .idle else .building := fun _ => rfl
  refine ⟨unlinked, unlinked, rfl, rfl, fun _ => rfl, ?_, ?_, rfl, distinct⟩
  · intro t
    rw [state]
    split
    · exact .inr rfl
    · exact .inl rfl
  · intro t
    rw [state]
    refine Iff.trans ?_ (idle t)
    cases isIdle t with
    | true | false => simp

def ExactlyOne (p q r : Prop) : Prop := (p ∧ ¬ q ∧ ¬ r) ∨ (¬ p ∧ q ∧ ¬ r) ∨ (¬ p ∧ ¬ q ∧ r)

def Running (s : Scheduler κ τ) (items : List τ) (t : τ) : Prop :=
  (s.thread t).active = true ∧ (∃! c, s.current c = t) ∧ t ∉ items

def Ready [DecidableEq τ] (s : Scheduler κ τ) (items : List τ) (t : τ) : Prop :=
  (s.thread t).active = false ∧ (s.thread t).state = .awake ∧ items.count t = 1

def Asleep (s : Scheduler κ τ) (items : List τ) (t : τ) : Prop :=
  (s.thread t).active = false ∧ (s.thread t).state = .sleeping ∧ t ∉ items

def AllAlive (s : Scheduler κ τ) : Prop := ∀ t, (s.thread t).state ≠ .exited

/-- Sound, and alive: what runs without exits keep. -/
def Lively (s : Scheduler κ τ) : Prop := Sound s ∧ AllAlive s

variable {start : Scheduler κ τ}

theorem Scheduler.Started.lively (started : start.Started) : Lively start := by
  refine ⟨started.sound, ?_⟩
  intro t exited
  rcases started.state t with building | idle
  · rw [building] at exited
    contradiction
  · rw [idle] at exited
    contradiction

theorem Lively.unmoved {before after : Scheduler κ τ} (lively : Lively before)
    (same : Unmoved before after) : Lively after := by
  refine ⟨lively.1.unmoved same, ?_⟩
  intro t
  rw [same.state]
  exact lively.2 t

variable {event : Event κ τ}

theorem Event.quiet_of_livesOn (livesOn : event.livesOn = true) :
    event.quiet = true := by
  cases event with
  | suspend | notify => cases livesOn
  | _ => rfl

variable [DecidableEq τ] {s s' : Scheduler κ τ} {items : List τ} {t : τ} {c : κ}

theorem RunQueue.places (holds : RunQueue s items) (scheduled : Scheduled s t) (alive : (s.thread t).state ≠ .exited) :
    ExactlyOne (Running s items t) (Ready s items t) (Asleep s items t) := by
  cases active : (s.thread t).active with
  | true =>
    left
    refine ⟨⟨active, ?_, ?_⟩, ?_, ?_⟩
    · obtain ⟨c, here⟩ := (holds.running t scheduled.2).mp active
      exact ⟨c, here, fun d there => holds.single d c (there.trans here.symm)⟩
    · intro mem
      have inactive := ((holds.ready t).mp mem).2
      rw [active] at inactive
      contradiction
    · intro ready
      rw [ready.1] at active
      contradiction
    · intro asleep
      rw [asleep.1] at active
      contradiction
  | false =>
    right
    cases state : (s.thread t).state with
    | building => exact absurd state scheduled.1
    | idle => exact absurd state scheduled.2
    | exited => exact absurd state alive
    | awake =>
      left
      refine ⟨?_, ⟨active, state, ?_⟩, ?_⟩
      · intro running
        rw [running.1] at active
        contradiction
      · exact List.count_eq_one_of_mem holds.queue.nodup ((holds.ready t).mpr ⟨state, active⟩)
      · intro asleep
        rw [asleep.2.1] at state
        contradiction
    | sleeping =>
      right
      refine ⟨?_, ?_, ⟨active, state, ?_⟩⟩
      · intro running
        rw [running.1] at active
        contradiction
      · intro ready
        rw [ready.2.1] at state
        contradiction
      · intro mem
        rw [((holds.ready t).mp mem).1] at state
        contradiction

variable [DecidableEq κ]

theorem Sound.state_step (sound : Sound s) (livesOn : event.livesOn = true) (ran : event.perform s = .ok s') (t : τ) :
    (s'.thread t).state = (s.thread t).state ∨ (s'.thread t).state = .awake ∨
      ∃ c, event = .sleepPrepare c ∧ s.current c = t ∧ (s'.thread t).state = .sleeping := by
  cases event with
  | taskingUp =>
    cases ran
    exact .inl rfl
  | schedule =>
    cases ran
    rw [threadSchedule_state]
    split
    · exact .inr (.inl rfl)
    · exact .inl rfl
  | sleepPrepare c =>
    obtain ⟨_, _, rfl⟩ := threadSleepPrepare_ok ran
    rw [setState_state]
    split
    next mine =>
      exact .inr (.inr ⟨c, rfl, mine.symm, rfl⟩)
    · exact .inl rfl
  | wake =>
    cases ran
    rw [threadWake, doWake_state]
    split
    · exact .inr (.inl rfl)
    · exact .inl rfl
  | poke =>
    cases ran
    rw [threadPoke]
    split
    · rw [doWake_state]
      split
      · exact .inr (.inl rfl)
      · exact .inl rfl
    · exact .inl rfl
  | switch c =>
    obtain ⟨items, holds⟩ := sound.queue
    obtain ⟨_, _, _, switched⟩ := doSchedSwitch_returns holds ran
    exact .inl (switched.state t)
  | msleep | timer | sendSignal | exit | die | suspend | notify => cases livesOn

theorem AllAlive.step (alive : AllAlive s) (sound : Sound s) (livesOn : event.livesOn = true)
    (ran : event.perform s = .ok s') : AllAlive s' := by
  intro t exited
  rcases sound.state_step livesOn ran t with same | awake | ⟨_, _, _, asleep⟩
  · exact alive t (same.symm.trans exited)
  · rw [awake] at exited
    contradiction
  · rw [asleep] at exited
    contradiction

theorem Lively.step (lively : Lively s) (livesOn : event.livesOn = true) (enabled : event.enabled s = true)
    (ran : event.perform s = .ok s') : Lively s' := by
  obtain ⟨sound, alive⟩ := lively
  refine ⟨sound.step (Event.quiet_of_livesOn livesOn) ?_ enabled ran, alive.step sound livesOn ran⟩
  exact fun t _ gone => alive t gone.1

theorem Lively.run {allowed : Scheduler κ τ → Event κ τ → Prop} (lively : Lively start)
    (path : (machine κ τ).Reaches allowed start s) (livesOn : ∀ s event, allowed s event → event.livesOn = true) :
    Lively s :=
  path.preserves Lively lively (fun _ _ _ holds permitted enabled ran =>
    holds.step (livesOn _ _ permitted) enabled ran)

def LeavesAwake (t : τ) (s : Scheduler κ τ) (event : Event κ τ) : Prop :=
  event.livesOn = true ∧ ∀ c, event = .sleepPrepare c → s.current c ≠ t

theorem awake_step (sound : Sound s) (awake : (s.thread t).state = .awake) (leaves : LeavesAwake t s event)
    (ran : event.perform s = .ok s') :
    (s'.thread t).state = .awake := by
  rcases sound.state_step leaves.1 ran t with same | stays | ⟨c, prepares, mine, _⟩
  · exact same.trans awake
  · exact stays
  · exact absurd mine (leaves.2 c prepares)

/-- Every scheduled thread is in one place, and switches find only threads that
can run. -/
structure QueueGuarantee (s : Scheduler κ τ) : Prop where
  places : ∃ items, Holds s.queuedThreads items ∧ ∀ t, Scheduled s t →
    ExactlyOne (Running s items t) (Ready s items t) (Asleep s items t)
  switches : ∀ c, ∃ middle popped next after, deactivateThread (s.current c) s = .ok middle ∧
    lockNextCurrent c middle = .ok (popped, next) ∧ doSchedSwitch c s = .ok after ∧
    (next = s.idleTask c ∨
      (s.thread next).state = .awake ∧ ((s.thread next).active = false ∨ next = s.current c))
  noLostWakeup : ∀ t later, (s.thread t).state = .sleeping →
    (machine κ τ).Reaches (LeavesAwake t) (threadWake t s) later →
    (later.thread t).state = .awake ∧ ((later.thread t).active = true ∨
      ∃ items, Holds later.queuedThreads items ∧ t ∈ items)

theorem Lively.switches (lively : Lively s) (c : κ) :
    ∃ middle popped next after, deactivateThread (s.current c) s = .ok middle ∧
      lockNextCurrent c middle = .ok (popped, next) ∧ doSchedSwitch c s = .ok after ∧
      (next = s.idleTask c ∨
        (s.thread next).state = .awake ∧ ((s.thread next).active = false ∨ next = s.current c)) := by
  obtain ⟨⟨⟨items, holds⟩, _⟩, alive⟩ := lively
  rcases deactivateThread_cases holds c with ⟨exited, _⟩ | ⟨middle, ran, queue, kept⟩
  · exact absurd exited (alive _)
  obtain ⟨popped, next, rest, locked, chosen, queue', kept'⟩ := lockNextCurrent_exists holds queue kept
  obtain ⟨after, finished, _⟩ := finishSchedSwitch_exists holds chosen queue' kept'
  refine ⟨middle, popped, next, after, ran, locked, ?_, ?_⟩
  · simp only [doSchedSwitch, ran, locked, finished, ok_bind]
  · rcases chosen with ⟨_, content⟩ | ⟨_, isIdle, _⟩
    · obtain ⟨awake, either⟩ := holds.requeued_awake (content ▸ List.mem_cons_self)
      exact .inr ⟨awake, either.symm⟩
    · exact .inl isIdle

theorem Lively.noLostWakeup (lively : Lively s) {later : Scheduler κ τ} (asleep : (s.thread t).state = .sleeping)
    (path : (machine κ τ).Reaches (LeavesAwake t) (threadWake t s) later) :
    (later.thread t).state = .awake ∧ ((later.thread t).active = true ∨
      ∃ items, Holds later.queuedThreads items ∧ t ∈ items) := by
  have scheduled : Scheduled s t := by
    rw [Scheduled, asleep]
    decide
  have woken : Lively (threadWake t s) := by
    have enabled : (Event.wake t : Event κ τ).enabled s = true := decide_eq_true scheduled
    exact lively.step rfl enabled rfl
  have awake : ((threadWake t s).thread t).state = .awake := by rw [threadWake, doWake_state, if_pos ⟨rfl, asleep⟩]
  have final : Lively later ∧ (later.thread t).state = .awake := by
    refine path.preserves (fun s => Lively s ∧ (s.thread t).state = .awake) ⟨woken, awake⟩ ?_
    rintro before event after ⟨lively, awake⟩ leaves enabled ran
    exact ⟨lively.step leaves.1 enabled ran, awake_step lively.1 awake leaves ran⟩
  obtain ⟨⟨⟨⟨items, holds⟩, _⟩, _⟩, stillAwake⟩ := final
  refine ⟨stillAwake, ?_⟩
  cases active : (later.thread t).active with
  | true => exact .inl rfl
  | false => exact .inr ⟨items, holds.queue, (holds.ready t).mpr ⟨stillAwake, active⟩⟩

theorem run_queue_invariant {start : Scheduler κ τ} (started : start.Started)
    (path : (machine κ τ).Reaches (fun _ event => event.livesOn = true) start s) :
    QueueGuarantee s := by
  have lively := started.lively.run path fun _ _ livesOn => livesOn
  obtain ⟨items, holds⟩ := lively.1.queue
  refine ⟨⟨items, holds.queue, ?_⟩, lively.switches, ?_⟩
  · exact fun t scheduled => holds.places scheduled (lively.2 t)
  · exact fun t later asleep continued => lively.noLostWakeup asleep continued

def twoProcessors : Scheduler (Fin 2) (Fin 4) :=
  booted (fun c => c.castLE (by decide)) (fun t => decide (t.val < 2))

theorem twoProcessors_started : twoProcessors.Started :=
  booted_started (by decide) (by decide)

theorem run_queue_invariant_twoProcessors : ∃ s : Scheduler (Fin 2) (Fin 4),
    QueueGuarantee s ∧ s.current 0 = 2 ∧ s.current 1 = 3 ∧ (s.thread 3).state = .sleeping := by
  obtain ⟨s, reached, observed⟩ : ∃ s, (machine (Fin 2) (Fin 4)).Reaches (fun _ event => event.livesOn = true)
      twoProcessors s ∧ s.current 0 = 2 ∧ s.current 1 = 3 ∧ (s.thread 3).state = .sleeping :=
    Machine.run_exists [.taskingUp, .schedule 2 7, .switch 0, .schedule 3 8, .switch 1, .sleepPrepare 1]
      (by decide +kernel)
  exact ⟨s, run_queue_invariant twoProcessors_started reached, observed⟩

/-- Every wake-up finds its thread still in circulation. -/
def WakesLiving (s : Scheduler κ τ) (event : Event κ τ) : Prop :=
  event.quiet = true ∧ ∀ t, event.wakes = some t → ¬ Gone s t

theorem exited_never_queued {start : Scheduler κ τ} (started : start.Started)
    (path : (machine κ τ).Reaches WakesLiving start s) :
    (∃ items, Holds s.queuedThreads items ∧ ∀ t ∈ items, (s.thread t).state ≠ .exited) ∧
      ∀ c code, doSchedSwitch c s ≠ .error (.panicf "illegal state %u" [code]) := by
  have sound := started.sound.run path (fun _ _ living => living.1) fun _ _ living => living.2
  obtain ⟨items, holds⟩ := sound.queue
  refine ⟨⟨items, holds.queue, ?_⟩, ?_⟩
  · intro t mem
    rw [((holds.ready t).mp mem).1]
    decide
  · intro c code failed
    rcases doSchedSwitch_cases holds c with ⟨_, exits⟩ | ⟨_, _, _, ran, _⟩
    · rw [exits] at failed
      exact absurd (Fault.panicf.inj (Except.error.inj failed)).1 (by decide)
    · rw [ran] at failed
      cases failed

def oneProcessor : Scheduler (Fin 1) (Fin 3) := booted (fun _ => 0) (fun t => decide (t.val < 1))

theorem oneProcessor_started : oneProcessor.Started := booted_started (by decide) (by decide)

/-- A sleeper is killed by a signal, and its timer runs out afterwards. -/
theorem exited_queued_by_timer : ∃ s,
    (machine (Fin 1) (Fin 3)).Reaches (fun _ event => event.quiet = true) oneProcessor s ∧
      listFirst s.queuedThreads (.inl ()) = .inr 1 ∧ (s.thread 1).state = .exited ∧
      doSchedSwitch 0 s = .error (.panicf "illegal state %u" [3]) := by
  obtain ⟨s, reached, first, state, switch⟩ : ∃ s,
      (machine (Fin 1) (Fin 3)).Reaches (fun _ event => event.quiet = true) oneProcessor s ∧
      listFirst s.queuedThreads (.inl ()) = .inr 1 ∧ (s.thread 1).state = .exited ∧
      ((doSchedSwitch 0 s).map fun _ => ()) = .error (.panicf "illegal state %u" [3]) :=
    Machine.run_exists [.taskingUp, .schedule 1 7, .switch 0, .msleep 0, .switch 0, .sendSignal 1 15, .switch 0,
      .exit 0 15 1, .die 0, .switch 0, .timer 1] (by decide +kernel)
  exact ⟨s, reached, first, state, map_fails switch⟩

theorem exited_never_queued_oneProcessor : ∃ s : Scheduler (Fin 1) (Fin 3), (s.thread 1).state = .exited ∧
    (∃ items, Holds s.queuedThreads items ∧ ∀ t ∈ items, (s.thread t).state ≠ .exited) ∧
      ∀ c code, doSchedSwitch c s ≠ .error (.panicf "illegal state %u" [code]) := by
  obtain ⟨s, reached, state⟩ : ∃ s, (machine (Fin 1) (Fin 3)).Reaches
      (fun s event => event.quiet = true ∧ ∀ t, event.wakes = some t → (s.thread t).state ≠ .exited) oneProcessor s ∧
      (s.thread 1).state = .exited :=
    Machine.run_exists [.taskingUp, .schedule 1 7, .switch 0, .msleep 0, .switch 0, .timer 1, .switch 0, .exit 0 0 0,
      .die 0, .switch 0] (by decide +kernel)
  have path : (machine (Fin 1) (Fin 3)).Reaches WakesLiving oneProcessor s :=
    reached.mono fun _ _ ⟨quiet, living⟩ => ⟨quiet, fun t wakes gone => living t wakes gone.1⟩
  exact ⟨s, state, exited_never_queued oneProcessor_started path⟩

end KOs.Sched

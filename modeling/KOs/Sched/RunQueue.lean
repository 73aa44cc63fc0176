import KOs.Sched.Threads

namespace KOs.Sched

open KOs.Common KOs.Data

/-! The run queue and the processors agree: a thread is queued exactly when it is
awake and runs nowhere. -/

variable {κ τ : Type}

section Updates

variable [DecidableEq τ] (s : Scheduler κ τ) (t u : τ)

theorem setState_state (state : ThreadState) :
    ((s.setState t state).thread u).state = if u = t then state else (s.thread u).state := by
  simp only [Scheduler.setState, Scheduler.modify]
  split <;> simp_all

@[simp] theorem setState_active (state : ThreadState) :
    ((s.setState t state).thread u).active = (s.thread u).active := by
  simp only [Scheduler.setState, Scheduler.modify]
  split <;> simp_all

@[simp] theorem setState_insem (state : ThreadState) :
    ((s.setState t state).thread u).insem = (s.thread u).insem := by
  simp only [Scheduler.setState, Scheduler.modify]
  split <;> simp_all

theorem setActive_active (active : Bool) :
    ((s.setActive t active).thread u).active = if u = t then active else (s.thread u).active := by
  simp only [Scheduler.setActive, Scheduler.modify]
  split <;> simp_all

@[simp] theorem setActive_state (active : Bool) :
    ((s.setActive t active).thread u).state = (s.thread u).state := by
  simp only [Scheduler.setActive, Scheduler.modify]
  split <;> simp_all

theorem threadBuild_same (node : Nat) : ((threadBuild t node s).thread t).active = false := by
  simp [threadBuild, Scheduler.setNode, Scheduler.modify]

theorem threadBuild_other (node : Nat) {t u : τ} (ne : u ≠ t) :
    (threadBuild t node s).thread u = s.thread u :=
  if_neg ne

end Updates

structure RunQueue (s : Scheduler κ τ) (items : List τ) : Prop where
  queue : Holds s.queuedThreads items
  ready : ∀ t, t ∈ items ↔ (s.thread t).state = .awake ∧ (s.thread t).active = false
  running : ∀ t, (s.thread t).state ≠ .idle → ((s.thread t).active = true ↔ ∃ c, s.current c = t)
  single : ∀ c d, s.current c = s.current d → c = d
  built : ∀ c, (s.thread (s.current c)).state ≠ .building
  idle : ∀ t, (s.thread t).state = .idle ↔ ∃ c, s.idleTask c = t
  idleHere : ∀ c d, s.current c = s.idleTask d → c = d
  idleActive : ∀ c, (s.thread (s.idleTask c)).active = true → s.current c = s.idleTask c
  idleDistinct : ∀ c d, s.idleTask c = s.idleTask d → c = d

variable {s s' : Scheduler κ τ} {items : List τ} {t : τ} {c : κ}

theorem RunQueue.current_active (holds : RunQueue s items) (notIdle : (s.thread (s.current c)).state ≠ .idle) :
    (s.thread (s.current c)).active = true :=
  (holds.running _ notIdle).mpr ⟨c, rfl⟩

theorem RunQueue.frame (holds : RunQueue s items) (queue : s'.queuedThreads = s.queuedThreads)
    (state : ∀ t, (s'.thread t).state = (s.thread t).state)
    (active : ∀ t, (s'.thread t).active = (s.thread t).active) (current : s'.current = s.current)
    (idleTask : s'.idleTask = s.idleTask) : RunQueue s' items := by
  obtain ⟨inQueue, ready, running, single, built, idle, idleHere, idleActive, idleDistinct⟩ := holds
  refine ⟨queue ▸ inQueue, ?_, ?_, ?_, ?_, ?_, ?_, ?_, ?_⟩ <;>
    simp only [state, active, current, idleTask] <;> assumption

variable [DecidableEq τ]

theorem RunQueue.requeue (holds : RunQueue s items) {state : ThreadState} {links : Links (Unit ⊕ τ)} {queued : List τ}
    (queue : Holds links queued) (notIdle : (s.thread t).state ≠ .idle) (stays : state ≠ .idle)
    (built : state ≠ .building) (ready : ∀ u, u ∈ queued ↔
      (if u = t then state else (s.thread u).state) = .awake ∧ (s.thread u).active = false) :
    RunQueue { s.setState t state with queuedThreads := links } queued := by
  refine ⟨queue, fun u => ?_, fun u => ?_, holds.single, fun d => ?_, fun u => ?_, holds.idleHere, fun d => ?_,
    holds.idleDistinct⟩
  · dsimp only
    rw [setState_state, setState_active, ready]
  · dsimp only
    rw [setState_state, setState_active]
    by_cases same : u = t
    · subst same
      exact fun _ => holds.running u notIdle
    · rw [if_neg same]
      exact holds.running u
  · dsimp only
    rw [setState_state]
    split
    · exact built
    · exact holds.built d
  · dsimp only
    rw [setState_state]
    by_cases same : u = t
    · subst same
      rw [if_pos rfl]
      exact iff_of_false stays fun idle => notIdle ((holds.idle u).mpr idle)
    · rw [if_neg same]
      exact holds.idle u
  · dsimp only
    rw [setState_active]
    exact holds.idleActive d

theorem RunQueue.restate (holds : RunQueue s items) {state : ThreadState}
    (notIdle : (s.thread t).state ≠ .idle) (stays : state ≠ .idle) (built : state ≠ .building)
    (before : (s.thread t).state ≠ .awake ∨ (s.thread t).active = true)
    (after : state ≠ .awake ∨ (s.thread t).active = true) :
    RunQueue (s.setState t state) items := by
  refine holds.requeue holds.queue notIdle stays built fun u => ?_
  rw [holds.ready]
  by_cases same : u = t
  · subst same
    rw [if_pos rfl]
    have absent : ∀ {state : ThreadState}, state ≠ .awake ∨ (s.thread u).active = true →
        ¬ (state = .awake ∧ (s.thread u).active = false) := by
      rintro _ (asleep | active) ⟨awake, inactive⟩
      · exact asleep awake
      · rw [active] at inactive
        contradiction
    exact iff_of_false (absent before) (absent after)
  · rw [if_neg same]

theorem threadSleepPrepare_ok (ran : threadSleepPrepare c s = .ok s') :
    (s.thread (s.current c)).active = true ∧ (s.thread (s.current c)).state = .awake ∧
      s' = s.setState (s.current c) .sleeping := by
  simp only [threadSleepPrepare] at ran
  cases active : (s.thread (s.current c)).active with
  | false =>
    rw [active] at ran
    contradiction
  | true =>
    cases state : (s.thread (s.current c)).state with
    | awake =>
      rw [active, state] at ran
      cases ran
      exact ⟨rfl, rfl, rfl⟩
    | building | sleeping | exited | idle =>
      rw [active, state] at ran
      contradiction

theorem RunQueue.sleepPrepare (holds : RunQueue s items) (ran : threadSleepPrepare c s = .ok s') :
    RunQueue s' items := by
  obtain ⟨active, awake, rfl⟩ := threadSleepPrepare_ok ran
  apply holds.restate
  · rw [awake]
    decide
  · decide
  · decide
  · exact .inr active
  · exact .inr active

theorem RunQueue.enqueued (holds : RunQueue s items) (fresh : t ∉ items)
    (asleep : (s.thread t).state ≠ .awake) (notIdle : (s.thread t).state ≠ .idle)
    (inactive : (s.thread t).active = false) :
    RunQueue ((s.setState t .awake).enqueue t) (t :: items) := by
  refine holds.requeue (holds.queue.add fresh) notIdle (by decide) (by decide) fun u => ?_
  rw [List.mem_cons, holds.ready]
  by_cases same : u = t
  · subst same
    simp [inactive]
  · simp [same]

def Gone (s : Scheduler κ τ) (t : τ) : Prop :=
  (s.thread t).state = .exited ∧ (s.thread t).active = false

def Scheduled (s : Scheduler κ τ) (t : τ) : Prop :=
  (s.thread t).state ≠ .building ∧ (s.thread t).state ≠ .idle

theorem doWake_awake (awake : (s.thread t).state = .awake) : doWake t s = s := by
  rw [doWake, if_neg fun ne => ne awake]

theorem doWake_sleeping_active (asleep : (s.thread t).state = .sleeping)
    (active : (s.thread t).active = true) : doWake t s = s.setState t .awake := by
  simp [doWake, asleep, active]

theorem doWake_sleeping_inactive (asleep : (s.thread t).state = .sleeping)
    (inactive : (s.thread t).active = false) : doWake t s = (s.setState t .awake).enqueue t := by
  simp [doWake, asleep, inactive]

theorem doWake_exited_active (exited : (s.thread t).state = .exited)
    (active : (s.thread t).active = true) : doWake t s = s := by
  simp [doWake, exited, active]

def Enqueues (s : Scheduler κ τ) (t : τ) : Prop :=
  (s.thread t).state ≠ .awake ∧ (s.thread t).active = false

instance (s : Scheduler κ τ) (t : τ) : Decidable (Enqueues s t) := inferInstanceAs (Decidable (_ ∧ _))

variable (holds : RunQueue s items)
include holds

theorem RunQueue.doWake (scheduled : Scheduled s t) (living : ¬ Gone s t) :
    RunQueue (doWake t s) (if Enqueues s t then t :: items else items) := by
  cases state : (s.thread t).state with
  | building => exact absurd state scheduled.1
  | idle => exact absurd state scheduled.2
  | awake =>
    rw [doWake_awake state, if_neg fun enqueues => enqueues.1 state]
    exact holds
  | sleeping =>
    have asleep : (s.thread t).state ≠ .awake := by
      rw [state]
      decide
    cases active : (s.thread t).active with
    | true =>
      rw [doWake_sleeping_active state active, if_neg (by simp [Enqueues, active])]
      exact holds.restate scheduled.2 (by decide) (by decide) (.inr active) (.inr active)
    | false =>
      rw [doWake_sleeping_inactive state active, if_pos ⟨asleep, active⟩]
      exact holds.enqueued (fun mem => asleep ((holds.ready t).mp mem).1) asleep scheduled.2 active
  | exited =>
    cases active : (s.thread t).active with
    | true =>
      rw [doWake_exited_active state active, if_neg (by simp [Enqueues, active])]
      exact holds
    | false => exact absurd ⟨state, active⟩ living

theorem RunQueue.threadPoke (scheduled : Scheduled s t) :
    RunQueue (threadPoke t s)
      (if (s.thread t).state = .sleeping ∧ (s.thread t).active = false then t :: items else items) := by
  rw [Sched.threadPoke]
  by_cases asleep : (s.thread t).state = .sleeping
  · have living : ¬ Gone s t := by
      intro gone
      rw [gone.1] at asleep
      contradiction
    have woken := holds.doWake scheduled living
    simpa only [asleep, if_true, true_and, Enqueues, ne_eq, reduceCtorEq, not_false_eq_true] using woken
  · rw [if_neg asleep, if_neg fun both => asleep both.1]
    exact holds

theorem RunQueue.threadSchedule (building : (s.thread t).state = .building) (node : Nat) :
    RunQueue (threadSchedule t (threadBuild t node s)) (t :: items) := by
  have notIdle : (s.thread t).state ≠ .idle := by
    rw [building]
    decide
  have inactive : (s.thread t).active = false := by
    cases active : (s.thread t).active with
    | false => rfl
    | true =>
      obtain ⟨c, here⟩ := (holds.running t notIdle).mp active
      exact absurd (here ▸ building) (holds.built c)
  have fresh : t ∉ items := by
    intro mem
    have awake := ((holds.ready t).mp mem).1
    rw [building] at awake
    contradiction
  generalize changed : ({ threadBuild t node s with
    threadCount := (threadBuild t node s).threadCount + 1 } : Scheduler κ τ).setState t .sleeping = middle
  have state : (middle.thread t).state = .sleeping := by rw [← changed, setState_state, if_pos rfl]
  have active : (middle.thread t).active = false := by
    rw [← changed, setState_active]
    exact threadBuild_same s t node
  rw [Sched.threadSchedule, changed, doWake_sleeping_inactive state active]
  apply (holds.enqueued fresh (by rw [building]; decide) notIdle inactive).frame
  · rw [← changed]
    rfl
  · intro u
    show ((middle.setState t .awake).thread u).state = ((s.setState t .awake).thread u).state
    rw [setState_state, setState_state, ← changed, setState_state]
    by_cases same : u = t
    · rw [if_pos same, if_pos same]
    · rw [if_neg same, if_neg same, if_neg same]
      exact congrArg Thread.state (threadBuild_other s node same)
  · intro u
    show ((middle.setState t .awake).thread u).active = ((s.setState t .awake).thread u).active
    rw [setState_active, setState_active, ← changed, setState_active]
    by_cases same : u = t
    · subst same
      rw [inactive]
      exact threadBuild_same s u node
    · exact congrArg Thread.active (threadBuild_other s node same)
  · rw [← changed]
    rfl
  · rw [← changed]
    rfl

theorem RunQueue.threadDie (notIdle : (s.thread (s.current c)).state ≠ .idle) : RunQueue (threadDie c s) items :=
  holds.restate notIdle (by decide) (by decide) (Or.inr (holds.current_active notIdle)) (Or.inl (by decide))

end KOs.Sched

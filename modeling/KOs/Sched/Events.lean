import KOs.Data.Transition
import KOs.Sched.Switch

namespace KOs.Sched

open KOs.Common KOs.Data

/-! The scheduler as a system of processors and threads.

Each event is one region under a lock, and the current thread of a processor may
take any event that the code lets it take.  A thread that returns to user mode is
awake, and so are the threads that exit.
-/

inductive Event (κ τ : Type) where
  /-- The boot processor enters `sched_loop`. -/
  | taskingUp
  | schedule (t : τ) (node : Nat)
  | sleepPrepare (c : κ)
  | wake (t : τ)
  | poke (t : τ)
  | switch (c : κ)
  | msleep (c : κ)
  | timer (t : τ)
  | sendSignal (t : τ) (sig : UInt32)
  | exit (c : κ) (code cause : Nat)
  | die (c : κ)
  | suspend (c : κ)
  | notify (bound : Nat)
deriving DecidableEq, Repr

variable {κ τ : Type}

instance (s : Scheduler κ τ) (t : τ) : Decidable (Scheduled s t) :=
  inferInstanceAs (Decidable (_ ∧ _))

/-- The thread an event wakes whatever state it is in. -/
def Event.wakes : Event κ τ → Option τ
  | .wake t => some t
  | .timer t => some t
  | _ => none

def Event.quiet : Event κ τ → Bool
  | .suspend _ => false
  | .notify _ => false
  | _ => true

/-- Threads are scheduled, sleep and wake, and none exits. -/
def Event.livesOn : Event κ τ → Bool
  | .taskingUp => true
  | .schedule _ _ => true
  | .sleepPrepare _ => true
  | .wake _ => true
  | .poke _ => true
  | .switch _ => true
  | _ => false

/-- Every processor is in its idle task, and no thread has been scheduled. -/
structure Scheduler.Started (s : Scheduler κ τ) : Prop where
  queue : Holds s.queuedThreads []
  poll : Holds s.pollThreads []
  suspended : s.suspendedThreads = 0
  timers : s.timers = []
  inactive : ∀ t, (s.thread t).active = false
  state : ∀ t, (s.thread t).state = .building ∨ (s.thread t).state = .idle
  idle : ∀ t, (s.thread t).state = .idle ↔ ∃ c, s.idleTask c = t
  current : s.current = s.idleTask
  distinct : ∀ c d, s.idleTask c = s.idleTask d → c = d

/-- The run queue is sound, and only scheduled threads have timers. -/
structure Sound (s : Scheduler κ τ) : Prop where
  queue : ∃ items, RunQueue s items
  timers : ∀ t ∈ s.timers, Scheduled s t

variable {s s' : Scheduler κ τ} {items : List τ} {t u : τ} {c : κ}

theorem Scheduler.Started.runQueue (started : s.Started) : RunQueue s [] := by
  refine ⟨started.queue, ?_, ?_, ?_, ?_, started.idle, ?_, ?_, started.distinct⟩
  · intro t
    refine iff_of_false List.not_mem_nil ?_
    intro ⟨awake, _⟩
    rcases started.state t with building | idle
    · rw [building] at awake
      contradiction
    · rw [idle] at awake
      contradiction
  · intro t notIdle
    rw [started.inactive t]
    refine iff_of_false (by decide) ?_
    intro ⟨c, here⟩
    rw [started.current] at here
    exact notIdle ((started.idle t).mpr ⟨c, here⟩)
  · intro c d same
    rw [started.current] at same
    exact started.distinct c d same
  · intro c
    rw [started.current, (started.idle _).mpr ⟨c, rfl⟩]
    decide
  · intro c d same
    rw [started.current] at same
    exact started.distinct c d same
  · intro c active
    rw [started.inactive] at active
    contradiction

theorem Scheduler.Started.sound (started : s.Started) : Sound s := by
  refine ⟨⟨[], started.runQueue⟩, ?_⟩
  rw [started.timers]
  intro t mem
  contradiction

structure Unmoved (before after : Scheduler κ τ) : Prop where
  state : ∀ t, (after.thread t).state = (before.thread t).state
  active : ∀ t, (after.thread t).active = (before.thread t).active
  queuedThreads : after.queuedThreads = before.queuedThreads
  pollThreads : after.pollThreads = before.pollThreads
  suspendedThreads : after.suspendedThreads = before.suspendedThreads
  current : after.current = before.current
  idleTask : after.idleTask = before.idleTask
  timers : after.timers = before.timers

theorem Unmoved.refl (s : Scheduler κ τ) : Unmoved s s :=
  ⟨fun _ => rfl, fun _ => rfl, rfl, rfl, rfl, rfl, rfl, rfl⟩

theorem Unmoved.trans {first second third : Scheduler κ τ} (earlier : Unmoved first second)
    (later : Unmoved second third) : Unmoved first third :=
  ⟨fun t => (later.state t).trans (earlier.state t),
    fun t => (later.active t).trans (earlier.active t),
    later.queuedThreads.trans earlier.queuedThreads, later.pollThreads.trans earlier.pollThreads,
    later.suspendedThreads.trans earlier.suspendedThreads, later.current.trans earlier.current,
    later.idleTask.trans earlier.idleTask, later.timers.trans earlier.timers⟩

theorem RunQueue.unmoved (holds : RunQueue s items) (same : Unmoved s s') : RunQueue s' items :=
  holds.frame same.queuedThreads same.state same.active same.current same.idleTask

variable [DecidableEq τ]

theorem markDie_frame (t u : τ) (s : Scheduler κ τ) :
    ((threadMarkDie t s).thread u).state = (s.thread u).state ∧
      ((threadMarkDie t s).thread u).active = (s.thread u).active := by
  simp only [threadMarkDie, Scheduler.modify]
  split <;> simp_all

theorem markDie_all (threads : List τ) (s : Scheduler κ τ) :
    Unmoved s (threads.foldl (fun s t => threadMarkDie t s) s) := by
  induction threads generalizing s with
  | nil => exact .refl s
  | cons t _ ih =>
    have first : Unmoved s (threadMarkDie t s) :=
      ⟨fun u => (markDie_frame t u s).1, fun u => (markDie_frame t u s).2, rfl, rfl, rfl, rfl, rfl,
        rfl⟩
    exact first.trans (ih (threadMarkDie t s))

theorem taskNodeExit_unmoved (c : κ) (code cause : Nat) (s : Scheduler κ τ) :
    Unmoved s (taskNodeExit c code cause s) := by
  rw [taskNodeExit]
  split
  · show Unmoved s _
    refine Unmoved.trans ?_ (markDie_all _ _)
    exact ⟨fun _ => rfl, fun _ => rfl, rfl, rfl, rfl, rfl, rfl, rfl⟩
  · exact ⟨fun _ => rfl, fun _ => rfl, rfl, rfl, rfl, rfl, rfl, rfl⟩

theorem signalled_unmoved (t : τ) (pending : UInt32) (s : Scheduler κ τ) :
    Unmoved s (s.modify t (fun thread => { thread with sigPending := pending })) := by
  have fields : ∀ u, ((s.modify t fun thread => { thread with sigPending := pending }).thread
      u).state = (s.thread u).state ∧ ((s.modify t fun thread =>
        { thread with sigPending := pending }).thread u).active = (s.thread u).active := by
    intro u
    simp only [Scheduler.modify]
    split <;> simp_all
  exact ⟨fun u => (fields u).1, fun u => (fields u).2, rfl, rfl, rfl, rfl, rfl, rfl⟩

variable [DecidableEq κ]

def Event.enabled (event : Event κ τ) (s : Scheduler κ τ) : Bool :=
  match event with
  | .taskingUp => true
  | .schedule t _ => (s.thread t).state = .building
  | .sleepPrepare c => (s.thread (s.current c)).state ≠ .idle
  | .wake t => Scheduled s t
  | .poke t => Scheduled s t
  | .switch _ => true
  | .msleep c => (s.thread (s.current c)).state ≠ .idle
  | .timer t => t ∈ s.timers
  | .sendSignal t _ => Scheduled s t
  | .exit c _ _ => (s.thread (s.current c)).state = .awake
  | .die c => (s.thread (s.current c)).state = .awake && (s.thread (s.current c)).shouldDie
  | .suspend c => (s.thread (s.current c)).state ≠ .idle
  | .notify _ => true

def Event.perform (event : Event κ τ) (s : Scheduler κ τ) : Except Fault (Scheduler κ τ) :=
  match event with
  | .taskingUp => .ok { s with taskingUp := true }
  | .schedule t node => .ok (threadSchedule t (threadBuild t node s))
  | .sleepPrepare c => threadSleepPrepare c s
  | .wake t => .ok (threadWake t s)
  | .poke t => .ok (threadPoke t s)
  | .switch c => doSchedSwitch c s
  | .msleep c => sysMsleep c s
  | .timer t => .ok (sleepCallback t s)
  | .sendSignal t sig => .ok (threadSendSignal t sig s)
  | .exit c code cause => .ok (taskNodeExit c code cause s)
  | .die c => .ok (threadDie c s)
  | .suspend c => schedSuspendPendingInterrupt c s
  | .notify bound => schedInterruptNotify bound s

def machine (κ τ : Type) [DecidableEq κ] [DecidableEq τ] :
    Machine (Scheduler κ τ) (Event κ τ) Fault where
  enabled := Event.enabled
  perform := Event.perform

end KOs.Sched

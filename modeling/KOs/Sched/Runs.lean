import KOs.Sched.Events

namespace KOs.Sched

open KOs.Common KOs.Data

variable {κ τ : Type} {s s' : Scheduler κ τ} {items : List τ} {t : τ} {c : κ} {u : τ}

theorem Scheduled.congr (scheduled : Scheduled s u) (same : (s'.thread u).state = (s.thread u).state) :
    Scheduled s' u := by
  rw [Scheduled, same]
  exact scheduled

theorem Sound.unmoved (sound : Sound s) (same : Unmoved s s') : Sound s' := by
  obtain ⟨items, holds⟩ := sound.queue
  refine ⟨⟨items, holds.unmoved same⟩, ?_⟩
  rw [same.timers]
  exact fun u mem => (sound.timers u mem).congr (same.state u)

variable [DecidableEq τ]

theorem doWake_eq (t : τ) (s : Scheduler κ τ) : ∃ queuedThreads, doWake t s =
    { (if (s.thread t).state = .sleeping then s.setState t .awake else s) with queuedThreads } := by
  rw [doWake]
  split
  · dsimp only
    split <;> split <;> exact ⟨_, rfl⟩
  next awake =>
    rw [if_neg (by rw [not_not.mp awake]; decide)]
    exact ⟨_, rfl⟩

theorem doWake_state (t u : τ) (s : Scheduler κ τ) :
    ((doWake t s).thread u).state =
      if u = t ∧ (s.thread t).state = .sleeping then .awake else (s.thread u).state := by
  obtain ⟨_, same⟩ := doWake_eq t s
  rw [same]
  by_cases asleep : (s.thread t).state = .sleeping
  · simp [asleep, setState_state]
  · simp [asleep]

theorem doWake_insem (t u : τ) (s : Scheduler κ τ) :
    ((doWake t s).thread u).insem = (s.thread u).insem := by
  obtain ⟨_, same⟩ := doWake_eq t s
  rw [same]
  split
  · exact setState_insem s t u .awake
  · rfl

structure Woken (before after : Scheduler κ τ) : Prop where
  pollThreads : after.pollThreads = before.pollThreads
  suspendedThreads : after.suspendedThreads = before.suspendedThreads
  timers : after.timers = before.timers

theorem doWake_woken (t : τ) (s : Scheduler κ τ) : Woken s (doWake t s) := by
  obtain ⟨_, same⟩ := doWake_eq t s
  rw [same]
  split <;> exact ⟨rfl, rfl, rfl⟩

theorem threadPoke_woken (t : τ) (s : Scheduler κ τ) : Woken s (threadPoke t s) := by
  rw [threadPoke]
  split
  · exact doWake_woken t s
  · exact ⟨rfl, rfl, rfl⟩

theorem Scheduled.doWake (scheduled : Scheduled s u) (t : τ) : Scheduled (doWake t s) u := by
  rw [Scheduled, doWake_state]
  split
  · exact ⟨by decide, by decide⟩
  · exact scheduled

theorem Scheduled.threadPoke (scheduled : Scheduled s u) (t : τ) :
    Scheduled (threadPoke t s) u := by
  rw [Sched.threadPoke]
  split
  · exact scheduled.doWake t
  · exact scheduled

theorem Scheduled.setState (scheduled : Scheduled s u) {state : ThreadState} (built : state ≠ .building)
    (notIdle : state ≠ .idle) : Scheduled (s.setState t state) u := by
  rw [Scheduled, setState_state]
  split
  · exact ⟨built, notIdle⟩
  · exact scheduled

theorem threadSchedule_state (t u : τ) (node : Nat) (s : Scheduler κ τ) :
    ((threadSchedule t (threadBuild t node s)).thread u).state =
      if u = t then .awake else (s.thread u).state := by
  rw [threadSchedule, doWake_state, setState_state, setState_state]
  by_cases same : u = t
  · simp [same]
  · simp only [same, if_false, false_and]
    exact congrArg Thread.state (threadBuild_other s node same)

theorem threadSchedule_woken (t : τ) (node : Nat) (s : Scheduler κ τ) :
    Woken s (threadSchedule t (threadBuild t node s)) := by
  obtain ⟨pollThreads, suspendedThreads, timers⟩ :=
    doWake_woken t ({ threadBuild t node s with
      threadCount := (threadBuild t node s).threadCount + 1 }.setState t .sleeping)
  exact ⟨pollThreads, suspendedThreads, timers⟩

theorem Sound.wake (sound : Sound s) (scheduled : Scheduled s t) (living : ¬ Gone s t) :
    Sound (threadWake t s) := by
  obtain ⟨items, holds⟩ := sound.queue
  refine ⟨⟨_, holds.doWake scheduled living⟩, ?_⟩
  rw [threadWake, (doWake_woken t s).timers]
  exact fun u mem => (sound.timers u mem).doWake t

theorem Sound.poke (sound : Sound s) (scheduled : Scheduled s t) : Sound (threadPoke t s) := by
  obtain ⟨items, holds⟩ := sound.queue
  refine ⟨⟨_, holds.threadPoke scheduled⟩, ?_⟩
  rw [(threadPoke_woken t s).timers]
  exact fun u mem => (sound.timers u mem).threadPoke t

theorem Sound.sleepPrepare (sound : Sound s) (ran : threadSleepPrepare c s = .ok s') :
    Sound s' ∧ s'.current = s.current ∧ Scheduled s' (s.current c) := by
  obtain ⟨items, holds⟩ := sound.queue
  have result := holds.sleepPrepare ran
  obtain ⟨_, _, rfl⟩ := threadSleepPrepare_ok ran
  refine ⟨⟨⟨items, result⟩, ?_⟩, rfl, ?_⟩
  · exact fun u mem => (sound.timers u mem).setState (by decide) (by decide)
  · rw [Scheduled, setState_state, if_pos rfl]
    exact ⟨by decide, by decide⟩

variable [DecidableEq κ]

theorem Sound.switch (sound : Sound s) (ran : doSchedSwitch c s = .ok s') : Sound s' := by
  obtain ⟨items, holds⟩ := sound.queue
  obtain ⟨_, rest, chosen, switched⟩ := doSchedSwitch_returns holds ran
  refine ⟨⟨rest, holds.switched chosen switched⟩, ?_⟩
  rw [switched.timers]
  exact fun t mem => (sound.timers t mem).congr (switched.state t)

theorem Sound.step {event : Event κ τ} (sound : Sound s) (quiet : event.quiet = true)
    (living : ∀ t, event.wakes = some t → ¬ Gone s t) (enabled : event.enabled s = true)
    (ran : event.perform s = .ok s') : Sound s' := by
  cases event with
  | taskingUp =>
    cases ran
    obtain ⟨items, holds⟩ := sound.queue
    exact ⟨⟨items, { holds with }⟩, sound.timers⟩
  | schedule t node =>
    cases ran
    obtain ⟨items, holds⟩ := sound.queue
    refine ⟨⟨t :: items, holds.threadSchedule (of_decide_eq_true enabled) node⟩, ?_⟩
    rw [(threadSchedule_woken t node s).timers]
    intro u mem
    rw [Scheduled, threadSchedule_state]
    split
    · exact ⟨by decide, by decide⟩
    · exact sound.timers u mem
  | sleepPrepare => exact (sound.sleepPrepare ran).1
  | wake t =>
    cases ran
    exact sound.wake (of_decide_eq_true enabled) (living t rfl)
  | poke =>
    cases ran
    exact sound.poke (of_decide_eq_true enabled)
  | switch => exact sound.switch ran
  | msleep =>
    obtain ⟨middle, prepared, rest⟩ := bind_returns ran
    cases rest
    obtain ⟨⟨⟨items, holds⟩, timers⟩, same, scheduled⟩ := sound.sleepPrepare prepared
    refine ⟨⟨items, { holds with }⟩, ?_⟩
    intro u mem
    rcases List.mem_cons.mp mem with here | older
    · rw [here, same]
      exact scheduled
    · exact timers u older
  | timer t =>
    cases ran
    obtain ⟨⟨items, holds⟩, timers⟩ := sound
    have scheduled : Scheduled s t := timers t (of_decide_eq_true enabled)
    have fired : Sound { s with timers := s.timers.erase t } :=
      ⟨⟨items, { holds with }⟩,
        fun u mem => timers u (List.mem_of_mem_erase mem)⟩
    exact fired.wake scheduled (living t rfl)
  | sendSignal t sig =>
    cases ran
    have same := signalled_unmoved t ((s.thread t).sigPending ||| (1 <<< sig)) s
    have scheduled : Scheduled s t := of_decide_eq_true enabled
    exact (sound.unmoved same).poke (scheduled.congr (same.state t))
  | exit c code cause =>
    cases ran
    exact sound.unmoved (taskNodeExit_unmoved c code _ s)
  | die =>
    cases ran
    have awake := of_decide_eq_true (Bool.and_eq_true_iff.mp enabled).1
    obtain ⟨items, holds⟩ := sound.queue
    refine ⟨⟨items, holds.threadDie (by rw [awake]; decide)⟩, ?_⟩
    exact fun u mem => (sound.timers u mem).setState (by decide) (by decide)
  | suspend | notify => cases quiet

theorem Sound.run {allowed : Scheduler κ τ → Event κ τ → Prop} {start : Scheduler κ τ}
    (sound : Sound start) (path : (machine κ τ).Reaches allowed start s)
    (quiet : ∀ s event, allowed s event → event.quiet = true)
    (living : ∀ s event, allowed s event → ∀ t, event.wakes = some t → ¬ Gone s t) : Sound s :=
  path.preserves Sound sound (fun _ _ _ holds permitted enabled ran =>
    holds.step (quiet _ _ permitted) (living _ _ permitted) enabled ran)

end KOs.Sched

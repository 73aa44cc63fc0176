import KOs.Sched.Guarantees

namespace KOs.Sched

open KOs.Common KOs.Data

variable {κ τ : Type}

/-- `poll_threads` holds these threads, and `suspended_threads` is their number. -/
structure Polls (s : Scheduler κ τ) (items : List τ) : Prop where
  list : Holds s.pollThreads items
  count : s.suspendedThreads = UInt32.ofNat items.length

def PollKept (before after : Scheduler κ τ) : Prop :=
  after.pollThreads = before.pollThreads ∧ after.suspendedThreads = before.suspendedThreads

/-- A thread suspends only when it is not on the list already. -/
def SuspendsOnce (s : Scheduler κ τ) (event : Event κ τ) : Prop :=
  ∀ c items, event = .suspend c → Holds s.pollThreads items → s.current c ∉ items

variable {s s' : Scheduler κ τ} {items : List τ} {t : τ} {c : κ}

theorem Polls.kept (polls : Polls s items) (kept : PollKept s s') : Polls s' items := by
  refine ⟨?_, kept.2.trans polls.count⟩
  rw [kept.1]
  exact polls.list

theorem Unmoved.pollKept (same : Unmoved s s') : PollKept s s' :=
  ⟨same.pollThreads, same.suspendedThreads⟩

theorem Woken.pollKept (same : Woken s s') : PollKept s s' :=
  ⟨same.pollThreads, same.suspendedThreads⟩

variable [DecidableEq τ]

theorem sleepPrepare_pollKept (ran : threadSleepPrepare c s = .ok s') : PollKept s s' := by
  obtain ⟨_, _, rfl⟩ := threadSleepPrepare_ok ran
  exact ⟨rfl, rfl⟩

theorem deactivateThread_pollKept (ran : deactivateThread t s = .ok s') : PollKept s s' := by
  rw [deactivateThread] at ran
  cases state : (s.thread t).state with
  | idle | sleeping =>
    rw [state] at ran
    cases ran
    exact ⟨rfl, rfl⟩
  | awake =>
    rw [state] at ran
    obtain ⟨_, _, rest⟩ := bind_returns ran
    cases rest
    exact ⟨rfl, rfl⟩
  | exited =>
    simp only [state, taskNodeZombify] at ran
    split at ran
    · split at ran
      · cases ran
      · cases ran
        exact ⟨rfl, rfl⟩
    · cases ran
      exact ⟨rfl, rfl⟩
  | building =>
    rw [state] at ran
    cases ran

variable {next : τ} {event : Event κ τ}

theorem lockNextCurrent_pollKept (ran : lockNextCurrent c s = .ok (s', next)) :
    PollKept s s' := by
  rw [lockNextCurrent] at ran
  split at ran
  · split at ran
    · cases ran
    · dsimp only at ran
      split at ran
      · cases ran
        exact ⟨rfl, rfl⟩
      · cases ran
  · cases ran
    exact ⟨rfl, rfl⟩

theorem Polls.suspend (polls : Polls s items) (fresh : s.current c ∉ items)
    (ran : schedSuspendPendingInterrupt c s = .ok s') : Polls s' (s.current c :: items) := by
  have inserted : Polls { s with
      pollThreads := listAdd (.inr (s.current c)) (.inl ()) s.pollThreads
      suspendedThreads := s.suspendedThreads + 1 } (s.current c :: items) := by
    refine ⟨polls.list.add fresh, ?_⟩
    rw [polls.count, List.length_cons, UInt32.ofNat_add]
    rfl
  exact inserted.kept (sleepPrepare_pollKept ran)

variable {bound : Nat}

theorem polls_notified (ran : schedInterruptNotify bound s = .ok s') :
    Polls s' [] := by
  obtain ⟨⟨_, walked⟩, _, rest⟩ := bind_returns ran
  dsimp only at rest
  split at rest
  · cases rest
  next none =>
    cases rest
    exact ⟨holds_init _, not_not.mp none⟩

theorem notifyLoop_walks {node : Unit ⊕ τ} (chained : s.pollThreads.Segment node (items.map .inr) (.inl ()))
    (enough : items.length < bound) :
    ∃ after, whileLoop (fun loop => decide (loop.1 ≠ .inl ())) notifyTurn .unfinished bound
        ((s.pollThreads node).next, s) = .ok (.inl (), after) ∧
      after.suspendedThreads + UInt32.ofNat items.length = s.suspendedThreads := by
  induction items generalizing node s bound with
  | nil =>
    obtain ⟨bound, rfl⟩ := Nat.exists_eq_add_one_of_ne_zero (enough.ne')
    rw [chained.1]
    exact ⟨s, whileLoop_stops (by simp), by simp⟩
  | cons t items ih =>
    obtain ⟨bound, rfl⟩ := Nat.exists_eq_add_one_of_ne_zero ((Nat.zero_lt_of_lt enough).ne')
    obtain ⟨⟨next, _⟩, rest⟩ := chained
    let woken := doWake t { s with suspendedThreads := s.suspendedThreads - 1 }
    have kept : PollKept { s with suspendedThreads := s.suspendedThreads - 1 } woken :=
      (doWake_woken t _).pollKept
    have rest' : woken.pollThreads.Segment (.inr t) (items.map .inr) (.inl ()) := by
      rw [kept.1]
      exact rest
    obtain ⟨after, walked, count⟩ := ih rest' (Nat.lt_of_succ_lt_succ enough)
    refine ⟨after, ?_, ?_⟩
    · rw [next, whileLoop_turns (by simp) (show notifyTurn (.inr t, s) =
        .ok _ from rfl)]
      exact walked
    · rw [List.length_cons, UInt32.ofNat_add, ← UInt32.add_assoc, count, kept.2]
      exact UInt32.sub_add_cancel _ _

theorem Polls.notify_exists (polls : Polls s items) (enough : items.length < bound) :
    ∃ after, schedInterruptNotify bound s = .ok after := by
  have chained := polls.list.ring () (Set.mem_univ _)
  obtain ⟨after, walked, count⟩ := notifyLoop_walks chained enough
  have none : after.suspendedThreads = 0 := by
    rw [polls.count] at count
    exact UInt32.add_eq_right.mp count
  rw [schedInterruptNotify, listFirst, walked]
  simp [none]

theorem notify_diverges (first : listFirst s.pollThreads (.inl ()) = .inr t)
    (self : (s.pollThreads (.inr t)).next = .inr t) (bound : Nat) :
    schedInterruptNotify bound s = .error .unfinished := by
  let stuck : (Unit ⊕ τ) × Scheduler κ τ → Prop := fun loop =>
    loop.1 = .inr t ∧ (loop.2.pollThreads (.inr t)).next = .inr t
  have turns : ∀ loop, stuck loop → decide (loop.1 ≠ .inl ()) = true ∧
      ∃ next, notifyTurn loop = .ok next ∧ stuck next := by
    rintro ⟨pos, s⟩ ⟨here, back⟩
    cases here
    have kept := (doWake_woken t { s with suspendedThreads := s.suspendedThreads - 1 }).pollKept
    refine ⟨by simp, _, rfl, ?_, ?_⟩
    · rw [kept.1]
      exact back
    · rw [kept.1]
      exact back
  have begins : stuck (.inr t, s) := ⟨rfl, self⟩
  rw [schedInterruptNotify, first, whileLoop_diverges begins turns _]
  rfl

variable [DecidableEq κ]

theorem finishSchedSwitch_pollKept {old : τ} (ran : finishSchedSwitch c old next s = .ok s') :
    PollKept s s' := by
  obtain ⟨_, _, rest⟩ := bind_returns ran
  obtain ⟨_, _, last⟩ := bind_returns rest
  cases last
  exact ⟨rfl, rfl⟩

theorem doSchedSwitch_pollKept (ran : doSchedSwitch c s = .ok s') : PollKept s s' := by
  obtain ⟨middle, deactivated, rest⟩ := bind_returns ran
  obtain ⟨⟨popped, next⟩, locked, last⟩ := bind_returns rest
  have first := deactivateThread_pollKept deactivated
  have second := lockNextCurrent_pollKept locked
  have third := finishSchedSwitch_pollKept last
  exact ⟨third.1.trans (second.1.trans first.1), third.2.trans (second.2.trans first.2)⟩

theorem Event.quiet_pollKept (quiet : event.quiet = true) (ran : event.perform s = .ok s') : PollKept s s' := by
  cases event with
  | taskingUp | die =>
    cases ran
    exact ⟨rfl, rfl⟩
  | schedule t node =>
    cases ran
    exact (threadSchedule_woken t node s).pollKept
  | sleepPrepare => exact sleepPrepare_pollKept ran
  | wake t =>
    cases ran
    exact (doWake_woken t s).pollKept
  | poke t =>
    cases ran
    exact (threadPoke_woken t s).pollKept
  | switch => exact doSchedSwitch_pollKept ran
  | msleep =>
    obtain ⟨middle, prepared, rest⟩ := bind_returns ran
    cases rest
    have kept := sleepPrepare_pollKept prepared
    exact ⟨kept.1, kept.2⟩
  | timer t =>
    cases ran
    exact (doWake_woken t { s with timers := s.timers.erase t }).pollKept
  | sendSignal t sig =>
    cases ran
    have poked := (threadPoke_woken t (s.modify t fun thread =>
      { thread with sigPending := thread.sigPending ||| (1 <<< sig) })).pollKept
    exact ⟨poked.1, poked.2⟩
  | exit c code cause =>
    cases ran
    exact (taskNodeExit_unmoved c code _ s).pollKept
  | suspend | notify => cases quiet

theorem polls_step (polls : ∃ items, Polls s items) (once : SuspendsOnce s event)
    (ran : event.perform s = .ok s') : ∃ items, Polls s' items := by
  obtain ⟨items, polls⟩ := polls
  cases event with
  | suspend c => exact ⟨_, polls.suspend (once c _ rfl polls.list) ran⟩
  | notify => exact ⟨[], polls_notified ran⟩
  | _ => exact ⟨items, polls.kept (Event.quiet_pollKept rfl ran)⟩

structure PollGuarantee (s : Scheduler κ τ) (items : List τ) : Prop where
  list : Holds s.pollThreads items
  once : items.Nodup
  count : s.suspendedThreads = UInt32.ofNat items.length
  notifies : ∀ bound, items.length < bound → ∃ after, schedInterruptNotify bound s = .ok after

theorem poll_list_integrity {start : Scheduler κ τ} (started : start.Started)
    (path : (machine κ τ).Reaches SuspendsOnce start s) : ∃ items, PollGuarantee s items := by
  obtain ⟨items, polls⟩ := path.preserves (fun s => ∃ items, Polls s items) ⟨[], started.poll, started.suspended⟩
    fun _ _ _ polls once _ ran => polls_step polls once ran
  exact ⟨items, polls.list, polls.list.nodup, polls.count, fun _ enough => polls.notify_exists enough⟩

def threeThreads : Scheduler (Fin 2) (Fin 5) :=
  booted (fun c => c.castLE (by decide)) (fun t => decide (t.val < 2))

theorem threeThreads_started : threeThreads.Started := booted_started (by decide) (by decide)

theorem poll_list_integrity_twoInterrupts : ∃ (s : Scheduler (Fin 2) (Fin 5)) (items : List (Fin 5)),
    s.suspendedThreads = 1 ∧ listFirst s.pollThreads (.inl ()) = .inr 2 ∧ PollGuarantee s items := by
  obtain ⟨s, reached, count, first⟩ : ∃ s, (machine (Fin 2) (Fin 5)).Reaches
      (fun s event => (event.quiet || listEmpty s.pollThreads (.inl ()) || decide (event = .notify 2)) = true)
      threeThreads s ∧ s.suspendedThreads = 1 ∧ listFirst s.pollThreads (.inl ()) = .inr 2 :=
    Machine.run_exists [.taskingUp, .schedule 2 7, .switch 1, .suspend 1, .switch 1, .notify 2, .switch 1, .suspend 1]
      (by decide +kernel)
  have path : (machine (Fin 2) (Fin 5)).Reaches SuspendsOnce threeThreads s := by
    refine reached.mono ?_
    rintro state event test c items rfl holds
    have empty : listEmpty state.pollThreads (.inl ()) = true := by simpa [Event.quiet] using test
    rw [holds.empty_iff.mp empty]
    exact List.not_mem_nil
  obtain ⟨items, guarantee⟩ := poll_list_integrity threeThreads_started path
  exact ⟨s, items, count, first, guarantee⟩

/-- A thread is poked while it waits on the second processor, and suspends again
before the first processor notifies. -/
theorem poked_thread_polls_twice : ∃ s : Scheduler (Fin 2) (Fin 5),
    (machine (Fin 2) (Fin 5)).Reaches (fun _ event => (event.livesOn || !event.quiet) = true) threeThreads s ∧
      (∀ items, ¬ Holds s.pollThreads items) ∧ s.suspendedThreads = 2 ∧
      ∀ bound, schedInterruptNotify bound s = .error .unfinished := by
  obtain ⟨s, reached, first, self, count⟩ : ∃ s,
      (machine (Fin 2) (Fin 5)).Reaches (fun _ event => (event.livesOn || !event.quiet) = true) threeThreads s ∧
      listFirst s.pollThreads (.inl ()) = .inr 2 ∧ (s.pollThreads (.inr 2)).next = .inr 2 ∧ s.suspendedThreads = 2 :=
    Machine.run_exists [.taskingUp, .schedule 2 7, .switch 1, .schedule 3 8, .switch 0, .suspend 1, .schedule 4 9,
      .switch 1, .poke 2, .sleepPrepare 1, .switch 1, .suspend 1] (by decide +kernel)
  have diverges := notify_diverges first self
  refine ⟨s, reached, ?_, count, diverges⟩
  intro items holds
  -- a well-formed list would let the loop end, whatever the counter says
  obtain ⟨after, walked, _⟩ := notifyLoop_walks (holds.ring () (Set.mem_univ _)) (Nat.lt_succ_self items.length)
  have cut := diverges (items.length + 1)
  rw [schedInterruptNotify, listFirst, walked] at cut
  simp only [ok_bind] at cut
  split at cut <;> cases cut

end KOs.Sched

import KOs.Sched.Guarantees

namespace KOs.Sched

open KOs.Common KOs.Data List

variable {κ τ : Type}

structure Observed (κ τ : Type) where
  sched : Scheduler κ τ
  /-- The queued threads, the one that entered first at the front. -/
  entries : List τ

/-- The thread the event puts in the queue, if any. -/
def Event.entered (event : Event κ τ) (s : Scheduler κ τ) : List τ :=
  match event with
  | .schedule t _ => [t]
  | .wake t => if Enqueues s t then [t] else []
  | .poke t => if (s.thread t).state = .sleeping ∧ (s.thread t).active = false then [t] else []
  | .switch c => if (s.thread (s.current c)).state = .awake then [s.current c] else []
  | _ => []

/-- The threads a switch can take, once it has put the current one back. -/
def Observed.waiting (o : Observed κ τ) (c : κ) : List τ :=
  o.entries ++ (Event.switch c).entered o.sched

/-- A thread that enters the queue finds it empty. -/
def EntersEmpty (o : Observed κ τ) (event : Event κ τ) : Prop :=
  event.entered o.sched ≠ [] → o.entries = []

/-- A switch takes the thread that entered first, and so not the one whose quantum
has run out while another waits. -/
structure FirstCome (o : Observed κ τ) (c : κ) (after : Scheduler κ τ) : Prop where
  first : after.current c ∈ o.waiting c → (o.waiting c).head? = some (after.current c)
  quantum : (o.sched.thread (o.sched.current c)).state = .awake → o.entries ≠ [] →
    after.current c ≠ o.sched.current c

/-- The queue holds the remembered threads, the last to enter in front. -/
structure Tracked (o : Observed κ τ) : Prop where
  lively : Lively o.sched
  queue : RunQueue o.sched o.entries.reverse

variable {o o' : Observed κ τ} {s s' : Scheduler κ τ} {items : List τ} {c : κ}

theorem Event.entered_length (event : Event κ τ) (s : Scheduler κ τ) :
    (event.entered s).length ≤ 1 := by
  cases event with
  | wake | poke | switch =>
    simp only [Event.entered]
    split <;> simp
  | _ => simp [Event.entered]

theorem Event.entered_reverse (event : Event κ τ) (s : Scheduler κ τ) :
    (event.entered s).reverse = event.entered s := by
  have short := event.entered_length s
  cases content : event.entered s with
  | nil => rfl
  | cons _ others =>
    rw [content] at short
    cases others with
    | nil => rfl
    | cons => simp at short

theorem Observed.waiting_reverse (o : Observed κ τ) (c : κ) :
    (o.waiting c).reverse = requeued o.sched c o.entries.reverse := by
  rw [Observed.waiting, reverse_append, Event.entered_reverse, requeued, Event.entered]
  split <;> rfl

variable {event : Event κ τ}

theorem EntersEmpty.short (empty : EntersEmpty o event) (short : o.entries.length ≤ 1) :
    (o.entries ++ event.entered o.sched).length ≤ 1 := by
  cases content : event.entered o.sched with
  | nil =>
    rw [append_nil]
    exact short
  | cons =>
    have one := event.entered_length o.sched
    rw [content] at one
    rw [empty (by simp [content]), nil_append]
    exact one

variable [DecidableEq κ] [DecidableEq τ]

def Observed.enabled (event : Event κ τ) (o : Observed κ τ) : Bool := event.enabled o.sched

def Observed.perform (event : Event κ τ) (o : Observed κ τ) : Except Fault (Observed κ τ) := do
  let after ← event.perform o.sched
  let entries := o.entries ++ event.entered o.sched
  return {
    sched := after
    entries :=
      match event with
      | .switch c => entries.erase (after.current c)
      | _ => entries }

def observing (κ τ : Type) [DecidableEq κ] [DecidableEq τ] :
    Machine (Observed κ τ) (Event κ τ) Fault where
  enabled := Observed.enabled
  perform := Observed.perform

theorem RunQueue.entered_step (holds : RunQueue s items) (alive : AllAlive s) (livesOn : event.livesOn = true)
    (noSwitch : ∀ c, event ≠ .switch c) (enabled : event.enabled s = true) (ran : event.perform s = .ok s') :
    RunQueue s' (event.entered s ++ items) := by
  cases event with
  | taskingUp =>
    cases ran
    exact { holds with }
  | schedule _ node =>
    cases ran
    exact holds.threadSchedule (of_decide_eq_true enabled) node
  | sleepPrepare => exact holds.sleepPrepare ran
  | wake t =>
    cases ran
    have woken := holds.doWake (of_decide_eq_true enabled) fun gone => alive t gone.1
    simp only [Event.entered]
    split
    next enqueues =>
      rwa [if_pos enqueues] at woken
    next stays =>
      rwa [if_neg stays] at woken
  | poke =>
    cases ran
    have poked := holds.threadPoke (of_decide_eq_true enabled)
    simp only [Event.entered]
    split
    next enqueues =>
      rwa [if_pos enqueues] at poked
    next stays =>
      rwa [if_neg stays] at poked
  | switch c => exact absurd rfl (noSwitch c)
  | msleep | timer | sendSignal | exit | die | suspend | notify => cases livesOn

variable {after : Scheduler κ τ}

theorem Tracked.switch (tracked : Tracked o) (ran : doSchedSwitch c o.sched = .ok after) :
    RunQueue after ((o.waiting c).erase (after.current c)).reverse ∧
      ((o.waiting c).getLast? = some (after.current c) ∨ after.current c ∉ o.waiting c) := by
  obtain ⟨next, rest, chosen, switched⟩ := doSchedSwitch_returns tracked.queue ran
  have here : after.current c = next := by rw [switched.current, if_pos rfl]
  have final := tracked.queue.switched chosen switched
  have distinct := requeued_nodup tracked.queue c
  rw [here]
  rw [Chosen, ← o.waiting_reverse c] at chosen
  rw [← o.waiting_reverse c] at distinct
  rcases chosen with ⟨_, front⟩ | ⟨_, isIdle, remain⟩
  · have order : o.waiting c = rest.reverse ++ [next] := by rw [← reverse_cons, ← front, reverse_reverse]
    rw [front] at distinct
    have absent : next ∉ rest.reverse := fun mem =>
      (nodup_cons.mp distinct).1 (mem_reverse.mp mem)
    rw [order, erase_append_right _ absent, erase_cons_head, append_nil, reverse_reverse]
    exact ⟨final, .inl getLast?_concat⟩
  · have absent : next ∉ o.waiting c := by
      intro mem
      rw [← mem_reverse, o.waiting_reverse c] at mem
      have awake := (tracked.queue.requeued_awake mem).1
      rw [isIdle, (tracked.queue.idle _).mpr ⟨c, rfl⟩] at awake
      contradiction
    rw [erase_of_not_mem absent, ← remain]
    exact ⟨final, .inr absent⟩

theorem Tracked.step (tracked : Tracked o) (livesOn : event.livesOn = true) (enabled : Observed.enabled event o = true)
    (ran : Observed.perform event o = .ok o') :
    Tracked o' := by
  obtain ⟨after, performed, rest⟩ := bind_returns ran
  have lively := tracked.lively.step livesOn enabled performed
  cases event with
  | switch =>
    cases rest
    exact ⟨lively, (tracked.switch performed).1⟩
  | _ =>
    cases rest
    refine ⟨lively, ?_⟩
    rw [reverse_append, Event.entered_reverse]
    refine tracked.queue.entered_step tracked.lively.2 livesOn ?_ enabled performed
    intro c same
    cases same

theorem entries_short (short : o.entries.length ≤ 1) (empty : EntersEmpty o event)
    (ran : Observed.perform event o = .ok o') :
    o'.entries.length ≤ 1 := by
  obtain ⟨after, _, rest⟩ := bind_returns ran
  have bound := empty.short short
  cases event with
  | switch =>
    cases rest
    exact length_erase_le.trans bound
  | _ =>
    cases rest
    exact bound

theorem Tracked.firstCome (tracked : Tracked o) (short : o.entries.length ≤ 1) (empty : EntersEmpty o (.switch c))
    (ran : doSchedSwitch c o.sched = .ok after) : FirstCome o c after := by
  constructor
  · intro mem
    rcases (tracked.switch ran).2 with last | absent
    · have bound : (o.waiting c).length ≤ 1 := empty.short short
      cases content : o.waiting c with
      | nil => simp [content] at mem
      | cons _ others =>
        rw [content] at bound last
        cases others with
        | nil => exact last
        | cons => simp at bound
    · exact absurd mem absent
  · intro awake nonempty
    have enters : (Event.switch c).entered o.sched ≠ [] := by
      rw [Event.entered, if_pos awake]
      exact cons_ne_nil _ _
    exact absurd (empty enters) nonempty

theorem no_overtaking {start : Scheduler κ τ} (started : start.Started)
    (path : (observing κ τ).Reaches (fun o event => event.livesOn = true ∧ EntersEmpty o event) ⟨start, []⟩ o) :
    Holds o.sched.queuedThreads o.entries.reverse ∧ ∀ c, EntersEmpty o (.switch c) →
        ∃ after, doSchedSwitch c o.sched = .ok after ∧ FirstCome o c after := by
  obtain ⟨tracked, short⟩ := path.preserves (fun o => Tracked o ∧ o.entries.length ≤ 1)
    ⟨⟨started.lively, started.runQueue⟩, Nat.zero_le 1⟩
    (fun before event after ⟨tracked, short⟩ permitted enabled ran =>
      ⟨tracked.step permitted.1 enabled ran, entries_short short permitted.2 ran⟩)
  refine ⟨tracked.queue.queue, ?_⟩
  intro c empty
  obtain ⟨_, _, _, after, _, _, ran, _⟩ := tracked.lively.switches c
  exact ⟨after, ran, tracked.firstCome short empty ran⟩

theorem no_overtaking_handover : ∃ (o : Observed (Fin 1) (Fin 3)) (after : Scheduler (Fin 1) (Fin 3)),
    o.entries = [2] ∧ after.current 0 = 2 ∧ FirstCome o 0 after := by
  obtain ⟨o, reached, entries, asleep, dispatched⟩ : ∃ o, (observing (Fin 1) (Fin 3)).Reaches
      (fun o event => event.livesOn = true ∧ (event.entered o.sched = [] ∨ o.entries = [])) ⟨oneProcessor, []⟩ o ∧
      o.entries = [2] ∧ (o.sched.thread (o.sched.current 0)).state = .sleeping ∧
      ((doSchedSwitch 0 o.sched).map fun after => after.current 0) = .ok 2 :=
    Machine.run_exists [.taskingUp, .schedule 1 7, .switch 0, .sleepPrepare 0, .schedule 2 8] (by decide +kernel)
  have path : (observing (Fin 1) (Fin 3)).Reaches
      (fun o event => event.livesOn = true ∧ EntersEmpty o event) ⟨oneProcessor, []⟩ o :=
    reached.mono fun _ _ ⟨livesOn, either⟩ => ⟨livesOn, fun enters => either.resolve_left enters⟩
  have empty : EntersEmpty o (.switch 0) := by
    intro enters
    rw [Event.entered, asleep] at enters
    contradiction
  obtain ⟨after, switched, firstCome⟩ := (no_overtaking oneProcessor_started path).2 0 empty
  rw [switched] at dispatched
  exact ⟨o, after, entries, Except.ok.inj dispatched, firstCome⟩

/-- A thread whose quantum runs out is dispatched again before one that waits. -/
theorem expired_overtakes_waiting : ∃ (o : Observed (Fin 1) (Fin 3)) (after : Scheduler (Fin 1) (Fin 3)),
    (observing (Fin 1) (Fin 3)).Reaches (fun _ event => event.livesOn = true) ⟨oneProcessor, []⟩ o ∧
      o.entries = [1] ∧ o.sched.current 0 = 2 ∧ (o.sched.thread 2).state = .awake ∧
      doSchedSwitch 0 o.sched = .ok after ∧ after.current 0 = 2 ∧ ¬ FirstCome o 0 after := by
  obtain ⟨o, reached, entries, current, awake, dispatched⟩ : ∃ o,
      (observing (Fin 1) (Fin 3)).Reaches (fun _ event => event.livesOn = true) ⟨oneProcessor, []⟩ o ∧
      o.entries = [1] ∧ o.sched.current 0 = 2 ∧ (o.sched.thread 2).state = .awake ∧
      ((doSchedSwitch 0 o.sched).map fun after => after.current 0) = .ok 2 :=
    Machine.run_exists [.taskingUp, .schedule 1 7, .schedule 2 8, .switch 0] (by decide +kernel)
  obtain ⟨after, switched, again⟩ := map_returns dispatched
  refine ⟨o, after, reached, entries, current, awake, switched, again, ?_⟩
  intro firstCome
  refine firstCome.quantum ?_ ?_ (again.trans current.symm)
  · rw [current]
    exact awake
  · rw [entries]
    exact cons_ne_nil _ _

end KOs.Sched

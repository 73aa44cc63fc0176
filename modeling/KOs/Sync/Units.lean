import KOs.Sched.Guarantees
import KOs.Sync.Regions

namespace KOs.Sync

open KOs.Common KOs.Data KOs.Sched

variable {κ τ : Type}

/-- Every thread that waits is on the list or has been woken. -/
structure Places (w : World κ τ) : Prop where
  lively : Lively w.sched
  list : Waitlist w.toState
  inside : ∀ t, (w.sched.thread t).insem = true → w.place t ≠ .outside
  scheduled : ∀ t, w.place t ≠ .outside → Scheduled w.sched t
  woken : ∀ t, t ∈ w.woken ↔ w.place t ≠ .outside ∧ (w.sched.thread t).insem = false
  nodup : w.woken.Nodup

/-- There is a unit for every woken thread, and units come from ups. -/
structure Units (initial : Nat) (w : World κ τ) : Prop where
  enough : w.woken.length ≤ w.sem.count.toNat
  balance : w.downs + w.sem.count.toNat ≤ initial + w.ups

variable {w w' : World κ τ} {t u : τ} {c : κ} {outcome : Outcome}

theorem Places.absent (places : Places w) (outside : w.place t = .outside) :
    (w.sched.thread t).insem = false := by
  cases insem : (w.sched.thread t).insem with
  | false => rfl
  | true => exact absurd outside (places.inside t insem)

theorem Places.frame (places : Places w) (lively : Lively w'.sched) (sem : w'.sem = w.sem) (woken : w'.woken = w.woken)
    (place : ∀ t, w'.place t = .outside ↔ w.place t = .outside)
    (insem : ∀ t, (w'.sched.thread t).insem = (w.sched.thread t).insem)
    (scheduled : ∀ t, Scheduled w.sched t → Scheduled w'.sched t) : Places w' := by
  obtain ⟨items, holds, flags⟩ := places.list
  refine ⟨lively, ⟨items, sem ▸ holds, ?_⟩, ?_, ?_, ?_, woken ▸ places.nodup⟩
  · intro t
    rw [insem]
    exact flags t
  · intro t
    rw [insem, ne_eq, place]
    exact places.inside t
  · intro t inside
    rw [ne_eq, place] at inside
    exact scheduled t (places.scheduled t inside)
  · intro t
    rw [woken, insem, ne_eq, place]
    exact places.woken t

variable [DecidableEq τ]

theorem Places.moved (places : Places w) (place : Place) (lively : Lively w'.sched)
    (list : Waitlist w'.toState) (woken : w'.woken = w.woken.erase t)
    (placed : ∀ u, w'.place u = if u = t then place else w.place u)
    (insem : ∀ u, (w'.sched.thread u).insem =
      if u = t then decide (place ≠ .outside) else (w.sched.thread u).insem)
    (scheduled : ∀ u, Scheduled w.sched u → Scheduled w'.sched u)
    (here : place ≠ .outside → Scheduled w'.sched t) : Places w' := by
  refine ⟨lively, list, ?_, ?_, ?_, woken ▸ places.nodup.erase t⟩
  · intro u
    rw [insem, placed]
    split
    · exact of_decide_eq_true
    · exact places.inside u
  · intro u
    rw [placed]
    split
    next same =>
      rw [same]
      exact here
    · exact fun inside => scheduled u (places.scheduled u inside)
  · intro u
    rw [woken, placed, insem, places.nodup.mem_erase_iff]
    split
    next same =>
      simp [same]
    next ne =>
      simp only [ne, ne_eq, not_false_eq_true, true_and]
      exact places.woken u

variable {after : State κ τ} {initial : Nat}

theorem Units.region {caller : Caller} (units : Units initial w) (reserved : outcome = .obtained →
      w.sched.current c ∈ w.woken ∨ w.woken.length < w.sem.count.toNat) (region : Region c w.toState after outcome)
    (ran : w.settle (w.sched.current c) caller (after, outcome) = .ok w') : Units initial w' := by
  obtain ⟨enough, balance⟩ := units
  obtain ⟨_, _, result⟩ := bind_returns ran
  have fewer : (w.woken.erase (w.sched.current c)).length ≤ w.woken.length := List.length_erase_le
  cases outcome with
  | obtained =>
    obtain ⟨_, some, rfl⟩ := region
    cases result
    have pos : 1 ≤ w.sem.count.toNat :=
      Nat.one_le_iff_ne_zero.mpr fun zero => some (UInt32.toNat_inj.mp zero)
    have count : (w.sem.count - 1).toNat = w.sem.count.toNat - 1 :=
      UInt32.toNat_sub_of_le _ _ (UInt32.le_iff_toNat_le.mpr pos)
    refine ⟨?_, ?_⟩
    · show (w.woken.erase (w.sched.current c)).length ≤ (w.sem.count - 1).toNat
      rcases reserved rfl with mem | spare
      · rw [List.length_erase_of_mem mem, count]
        omega
      · omega
    · show w.downs + 1 + (w.sem.count - 1).toNat ≤ initial + w.ups
      omega
  | gaveUp =>
    cases result
    refine ⟨?_, ?_⟩
    · exact fewer.trans (region.2.count ▸ enough)
    · exact region.2.count ▸ balance
  | waits =>
    obtain ⟨middle, _, flagged, sched, _, rfl⟩ := region
    cases result
    refine ⟨?_, ?_⟩
    · exact fewer.trans (flagged.count ▸ enough)
    · exact flagged.count ▸ balance

theorem Units.up (units : Units initial w) (list : Waitlist w.toState) (room : w.sem.count.toNat + 1 < 2 ^ 32)
    (ran : semaphoreUp w.toState = .ok after) :
    Units initial { w with toState := after, woken := w.sem.first ++ w.woken, ups := w.ups + 1 } := by
  obtain ⟨enough, balance⟩ := units
  obtain ⟨result, expected, raised, _, either⟩ := up_exists list
  rw [expected] at ran
  cases ran
  have count : after.sem.count.toNat = w.sem.count.toNat + 1 := by
    rw [raised, UInt32.toNat_add]
    exact Nat.mod_eq_of_lt room
  have one : w.sem.first.length ≤ 1 := by
    rcases either with ⟨none, _⟩ | ⟨t, first, _⟩
    · simp [none]
    · simp [first]
  refine ⟨?_, ?_⟩
  · show (w.sem.first ++ w.woken).length ≤ after.sem.count.toNat
    rw [List.length_append]
    omega
  · show w.downs + after.sem.count.toNat ≤ initial + (w.ups + 1)
    omega

structure Steady (initial : Nat) (w : World κ τ) : Prop where
  places : Places w
  units : Units initial w

variable [DecidableEq κ] {event : Sched.Event κ τ}

theorem insem_step {before after : Scheduler κ τ} (sound : Sound before) (livesOn : event.livesOn = true)
    (ran : event.perform before = .ok after) (t : τ) :
    (after.thread t).insem = (before.thread t).insem ∨
      ∃ node, event = .schedule t node ∧ (after.thread t).insem = false := by
  cases event with
  | taskingUp =>
    cases ran
    exact .inl rfl
  | schedule u node =>
    cases ran
    rw [threadSchedule, doWake_insem, setState_insem]
    by_cases same : t = u
    · subst same
      exact .inr ⟨node, rfl, by simp [threadBuild, Scheduler.setNode, Scheduler.modify]⟩
    · exact .inl (congrArg Thread.insem (threadBuild_other _ node same))
  | sleepPrepare =>
    obtain ⟨_, _, rfl⟩ := threadSleepPrepare_ok ran
    exact .inl (setState_insem _ _ t .sleeping)
  | wake u =>
    cases ran
    exact .inl (doWake_insem u t _)
  | poke u =>
    cases ran
    rw [threadPoke]
    split
    · exact .inl (doWake_insem u t _)
    · exact .inl rfl
  | switch c =>
    obtain ⟨items, holds⟩ := sound.queue
    obtain ⟨_, _, _, switched⟩ := doSchedSwitch_returns holds ran
    exact .inl (switched.insem t)
  | msleep | timer | sendSignal | exit | die | suspend | notify => cases livesOn

theorem scheduled_step {before after : Scheduler κ τ} (sound : Sound before) (livesOn : event.livesOn = true)
    (ran : event.perform before = .ok after) (scheduled : Scheduled before t) : Scheduled after t := by
  rcases sound.state_step livesOn ran t with same | awake | ⟨_, _, _, asleep⟩
  · exact scheduled.congr same
  · rw [Scheduled, awake]
    decide
  · rw [Scheduled, asleep]
    decide

theorem Places.scheduler {sched : Scheduler κ τ} (places : Places w) (livesOn : event.livesOn = true)
    (enabled : event.enabled w.sched = true) (ran : event.perform w.sched = .ok sched) : Places { w with sched } := by
  refine places.frame (places.lively.step livesOn enabled ran) rfl rfl (fun _ => Iff.rfl) ?_
    fun t scheduled => scheduled_step places.lively.1 livesOn ran scheduled
  intro t
  rcases insem_step places.lively.1 livesOn ran t with same | ⟨node, rfl, cleared⟩
  · exact same
  · have building : (w.sched.thread t).state = .building := of_decide_eq_true enabled
    have outside : w.place t = .outside := by
      by_contra inside
      exact (places.scheduled t inside).1 building
    rw [places.absent outside]
    exact cleared

theorem Places.region {caller : Caller} (places : Places w) (region : Region c w.toState after outcome)
    (ran : w.settle (w.sched.current c) caller (after, outcome) = .ok w') : Places w' := by
  obtain ⟨_, _, result⟩ := bind_returns ran
  cases outcome with
  | obtained =>
    obtain ⟨absent, _, rfl⟩ := region
    cases result
    refine places.moved .outside places.lively places.list rfl (fun _ => rfl) ?_
      (fun _ scheduled => scheduled) fun inside => absurd rfl inside
    intro u
    split
    next same =>
      rw [same]
      exact absent
    · rfl
  | gaveUp =>
    obtain ⟨list, flagged⟩ := region
    cases result
    exact places.moved .outside (places.lively.unmoved flagged.unmoved) list rfl
      (fun _ => rfl) flagged.insem (fun u scheduled => scheduled.congr (flagged.unmoved.state u))
      fun inside => absurd rfl inside
  | waits =>
    obtain ⟨middle, list, flagged, sched, prepared, rfl⟩ := region
    cases result
    have lively := places.lively.unmoved flagged.unmoved
    obtain ⟨_, awake, rfl⟩ := threadSleepPrepare_ok prepared
    have current : middle.sched.current c = w.sched.current c := by rw [flagged.unmoved.current]
    have enabled : (Sched.Event.sleepPrepare c : Sched.Event κ τ).enabled middle.sched = true := by
      simp [Sched.Event.enabled, awake]
    obtain ⟨items, holds, flags⟩ := list
    refine places.moved (.yielding _) (lively.step rfl enabled prepared)
      ⟨items, holds, ?_⟩ rfl (fun _ => rfl) ?_ ?_ ?_
    · intro u
      simp only [World.settled, setState_insem]
      exact flags u
    · intro u
      simp only [World.settled, setState_insem]
      exact flagged.insem u
    · intro u scheduled
      exact (scheduled.congr (flagged.unmoved.state u)).setState (by decide) (by decide)
    · intro _
      simp only [Scheduled, World.settled, setState_state, current, if_true]
      decide

theorem Places.up (places : Places w) (ran : semaphoreUp w.toState = .ok after) :
    Places { w with toState := after, woken := w.sem.first ++ w.woken, ups := w.ups + 1 } := by
  obtain ⟨result, expected, _, list, either⟩ := up_exists places.list
  rw [expected] at ran
  cases ran
  rcases either with ⟨none, same⟩ | ⟨t, first, present, same⟩
  · rw [none, List.nil_append]
    obtain ⟨items, holds, flags⟩ := list
    refine ⟨same ▸ places.lively, ⟨items, holds, flags⟩, ?_, ?_, ?_, places.nodup⟩
    · rw [same]
      exact places.inside
    · rw [same]
      exact places.scheduled
    · rw [same]
      exact places.woken
  · have inside := places.inside t present
    have unmoved := setInsem_unmoved t false w.sched
    have scheduled : Scheduled (setInsem t false w.sched) t :=
      (places.scheduled t inside).congr (unmoved.state t)
    have enabled : (Sched.Event.wake t : Sched.Event κ τ).enabled (setInsem t false w.sched) = true :=
      decide_eq_true scheduled
    have lively := (places.lively.unmoved unmoved).step rfl enabled rfl
    have insem : ∀ u, (after.sched.thread u).insem =
        if u = t then false else (w.sched.thread u).insem := by
      intro u
      rw [same, threadWake, doWake_insem, setInsem_insem]
    rw [first, List.singleton_append]
    refine ⟨same ▸ lively, list, ?_, ?_, ?_, ?_⟩
    · intro u
      rw [insem]
      split
      · exact fun impossible => absurd impossible (by decide)
      · exact places.inside u
    · intro u waits
      rw [same]
      exact ((places.scheduled u waits).congr (unmoved.state u)).doWake t
    · intro u
      rw [List.mem_cons, insem]
      split
      next here =>
        simp [here, inside]
      next ne =>
        simpa [ne] using places.woken u
    · refine List.nodup_cons.mpr ⟨?_, places.nodup⟩
      rw [places.woken, present]
      rintro ⟨_, absent⟩
      contradiction

/-- A down that begins leaves a unit for every woken thread, and the count does
not wrap. -/
def Spares (w : World κ τ) (action : Action κ τ) : Prop :=
  match action with
  | .down _ _ _ => w.sem.count = 0 ∨ w.woken.length < w.sem.count.toNat
  | .up => w.sem.count.toNat + 1 < 2 ^ 32
  | _ => True

instance (w : World κ τ) : (action : Action κ τ) → Decidable (Spares w action)
  | .down _ _ _ => inferInstanceAs (Decidable (_ ∨ _))
  | .up => inferInstanceAs (Decidable (_ < _))
  | .sched _ => inferInstanceAs (Decidable True)
  | .resume _ _ => inferInstanceAs (Decidable True)
  | .yield _ => inferInstanceAs (Decidable True)

theorem Steady.step {action : Action κ τ} (steady : Steady initial w) (spares : Spares w action)
    (enabled : action.enabled w = true) (ran : action.perform w = .ok w') : Steady initial w' := by
  obtain ⟨places, units⟩ := steady
  cases action with
  | sched =>
    obtain ⟨sched, performed, rest⟩ := bind_returns ran
    cases rest
    obtain ⟨both, _⟩ := Bool.and_eq_true_iff.mp enabled
    obtain ⟨livesOn, can⟩ := Bool.and_eq_true_iff.mp both
    exact ⟨places.scheduler livesOn can performed, units.enough, units.balance⟩
  | down =>
    obtain ⟨⟨after, outcome⟩, began, rest⟩ := bind_returns ran
    have absent := places.absent (of_decide_eq_true (Bool.and_eq_true_iff.mp enabled).2)
    have region := begin_returns places.list absent began
    refine ⟨places.region region rest, units.region ?_ region rest⟩
    intro obtained
    subst obtained
    exact .inr (spares.resolve_left region.2.1)
  | yield c =>
    rw [Action.perform] at ran
    cases here : w.place (w.sched.current c) with
    | yielding =>
      rw [here] at ran
      obtain ⟨sched, switched, rest⟩ := bind_returns ran
      cases rest
      have performed : (Sched.Event.switch c).perform w.sched = .ok sched := switched
      have moved : Places { w with sched } := places.scheduler rfl rfl performed
      refine ⟨moved.frame moved.lively rfl rfl ?_ (fun _ => rfl) fun _ scheduled => scheduled,
        units.enough, units.balance⟩
      intro u
      simp only [World.setPlace]
      split
      next same =>
        simp [same, here]
      · rfl
    | outside | yielded =>
      rw [here] at ran
      cases ran
      exact ⟨places, units⟩
  | resume c =>
    rw [Action.perform] at ran
    cases here : w.place (w.sched.current c) with
    | yielded =>
      rw [here] at ran
      obtain ⟨⟨after, outcome⟩, resumed, rest⟩ := bind_returns ran
      have region := resume_returns places.list resumed
      refine ⟨places.region region rest, units.region ?_ region rest⟩
      intro obtained
      subst obtained
      refine .inl ((places.woken _).mpr ⟨?_, region.1⟩)
      rw [here]
      exact Place.noConfusion
    | outside | yielding =>
      rw [here] at ran
      cases ran
      exact ⟨places, units⟩
  | up =>
    obtain ⟨after, raised, rest⟩ := bind_returns ran
    cases rest
    exact ⟨places.up raised, units.up places.list spares raised⟩

end KOs.Sync

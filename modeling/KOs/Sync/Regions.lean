import KOs.Sched.Runs
import KOs.Sync.Semaphore

namespace KOs.Sync

open KOs.Common KOs.Data KOs.Sched

variable {κ τ : Type}

/-- `BUG_ON(!sem->count)` of `_semaphore_down_end_obtained`. -/
def shortage : Fault := .bug "inc/sync/semaphore-post.h" 39

def Waitlist (s : State κ τ) : Prop :=
  ∃ items, Holds s.sem.waiters items ∧ ∀ t, t ∈ items ↔ (s.sched.thread t).insem = true

/-- Only the flag of one thread and the list have changed. -/
structure Flagged [DecidableEq τ] (before after : State κ τ) (t : τ) (insem : Bool) : Prop where
  unmoved : Unmoved before.sched after.sched
  count : after.sem.count = before.sem.count
  insem : ∀ u, (after.sched.thread u).insem =
    if u = t then insem else (before.sched.thread u).insem

variable {s s' : State κ τ} {t : τ} {c : κ} {cond : Bool} {outcome : Outcome} {fault : Fault}

theorem obtained_fails (ran : tryDownObtained s = .error fault) :
    s.sem.count = 0 := by
  by_contra some
  have checked : (s.sem.count == 0) = false := beq_eq_false_iff_ne.mpr some
  rw [tryDownObtained, semaphoreDownEndObtained, checked] at ran
  cases ran

variable [DecidableEq τ]

theorem setInsem_insem (t u : τ) (insem : Bool) (s : Scheduler κ τ) :
    ((setInsem t insem s).thread u).insem = if u = t then insem else (s.thread u).insem := by
  simp only [setInsem, Scheduler.modify]
  split <;> simp_all

theorem setInsem_unmoved (t : τ) (insem : Bool) (s : Scheduler κ τ) :
    Unmoved s (setInsem t insem s) := by
  have fields : ∀ u, ((setInsem t insem s).thread u).state = (s.thread u).state ∧
      ((setInsem t insem s).thread u).active = (s.thread u).active := by
    intro u
    simp only [setInsem, Scheduler.modify]
    split <;> simp_all
  exact ⟨fun u => (fields u).1, fun u => (fields u).2, rfl, rfl, rfl, rfl, rfl, rfl⟩

theorem waitlistAdd_exists (list : Waitlist s) (absent : (s.sched.thread t).insem = false) :
    ∃ after, semaphoreWaitlistAdd t s = .ok after ∧ Waitlist after ∧ Flagged s after t true := by
  obtain ⟨items, holds, flags⟩ := list
  have fresh : t ∉ items := by
    rw [flags, absent]
    decide
  refine ⟨{ sched := setInsem t true s.sched
            sem := { s.sem with waiters := listAdd (.inr t) (.inl ()) s.sem.waiters } },
    by rw [semaphoreWaitlistAdd, absent]; rfl, ⟨t :: items, holds.add fresh, ?_⟩,
    setInsem_unmoved t true s.sched, rfl, fun u => setInsem_insem t u true s.sched⟩
  intro u
  rw [List.mem_cons, flags, setInsem_insem]
  split <;> simp_all

theorem waitlistRm_exists (list : Waitlist s) (present : (s.sched.thread t).insem = true) :
    ∃ after, semaphoreWaitlistRm t s = .ok after ∧ Waitlist after ∧ Flagged s after t false := by
  obtain ⟨items, holds, flags⟩ := list
  refine ⟨{ sched := setInsem t _ s.sched
            sem := { s.sem with waiters := listRm (.inr t) s.sem.waiters } },
    by rw [semaphoreWaitlistRm, present]; rfl, ⟨items.erase t, holds.rm ((flags t).mpr present), ?_⟩,
    setInsem_unmoved t _ s.sched, rfl, fun u => setInsem_insem t u false s.sched⟩
  intro u
  rw [holds.nodup.mem_erase_iff, flags, setInsem_insem]
  split <;> simp_all

def Region (c : κ) (before after : State κ τ) : Outcome → Prop
  | .obtained =>
      (before.sched.thread (before.sched.current c)).insem = false ∧ before.sem.count ≠ 0 ∧
        after = { before with sem := { before.sem with count := before.sem.count - 1 } }
  | .gaveUp => Waitlist after ∧ Flagged before after (before.sched.current c) false
  | .waits =>
      ∃ middle, Waitlist middle ∧ Flagged before middle (before.sched.current c) true ∧
        ∃ sched, threadSleepPrepare c middle.sched = .ok sched ∧ after = { middle with sched }

theorem obtained_returns (absent : (s.sched.thread (s.sched.current c)).insem = false)
    (ran : tryDownObtained s = .ok (s', outcome)) : Region c s s' outcome := by
  obtain ⟨taken, ended, rest⟩ := bind_returns ran
  obtain ⟨_, checked, result⟩ := bind_returns ended
  cases rest
  cases result
  refine ⟨absent, ?_, rfl⟩
  intro none
  rw [none] at checked
  cases checked

variable (list : Waitlist s)
include list

theorem turn_returns (present : (s.sched.thread (s.sched.current c)).insem = true)
    (ran : tryDownTurn c cond s = .ok (s', outcome)) : Region c s s' outcome := by
  cases cond with
  | true =>
    obtain ⟨yielded, ended, rest⟩ := bind_returns ran
    obtain ⟨_, _, prepares⟩ := bind_returns ended
    obtain ⟨sched, prepared, result⟩ := bind_returns prepares
    cases rest
    cases result
    refine ⟨s, list, ⟨.refl _, rfl, ?_⟩, sched, prepared, rfl⟩
    intro u
    split
    next same =>
      rw [same, present]
    · rfl
  | false =>
    obtain ⟨removed, ended, rest⟩ := bind_returns ran
    obtain ⟨after, expected, list', flagged⟩ := waitlistRm_exists list present
    rw [semaphoreDownEndGaveup, expected] at ended
    cases ended
    cases rest
    exact ⟨list', flagged⟩

theorem turn_fails (present : (s.sched.thread (s.sched.current c)).insem = true)
    (ran : tryDownTurn c cond s = .error fault) : fault ≠ shortage := by
  cases cond with
  | true =>
    simp only [tryDownTurn, semaphoreDownYield, threadSleepPrepare, present, if_true, Bool.not_true, bugOn_false,
      ok_bind, pure_ok] at ran
    intro short
    subst short
    cases active : (s.sched.thread (s.sched.current c)).active with
    | false =>
      simp only [active, Bool.not_false, bugOn_true] at ran
      exact absurd (Fault.bug.inj (Except.error.inj ran)).1 (by decide)
    | true =>
      simp only [active, Bool.not_true, bugOn_false] at ran
      cases awake : (s.sched.thread (s.sched.current c)).state != .awake with
      | true =>
        simp only [awake, bugOn_true] at ran
        exact absurd (Fault.bug.inj (Except.error.inj ran)).1 (by decide)
      | false =>
        simp only [awake, bugOn_false] at ran
        cases ran
  | false =>
    obtain ⟨after, expected, _⟩ := waitlistRm_exists list present
    rw [tryDownTurn, if_neg (by decide), semaphoreDownEndGaveup, expected] at ran
    cases ran

omit list in
theorem Region.joined {joined : State κ τ} (flagged : Flagged s joined (s.sched.current c) true)
    (region : Region c joined s' outcome) : Region c s s' outcome := by
  have current : joined.sched.current c = s.sched.current c := by rw [flagged.unmoved.current]
  cases outcome with
  | obtained =>
    have absent := region.1
    rw [current, flagged.insem, if_pos rfl] at absent
    cases absent
  | gaveUp =>
    obtain ⟨list, left⟩ := region
    refine ⟨list, flagged.unmoved.trans left.unmoved, left.count.trans flagged.count, ?_⟩
    intro u
    rw [left.insem, flagged.insem, current]
    split <;> rfl
  | waits =>
    obtain ⟨middle, list, stays, sched, prepared, result⟩ := region
    refine ⟨middle, list, ⟨flagged.unmoved.trans stays.unmoved, stays.count.trans flagged.count, ?_⟩,
      sched, prepared, result⟩
    intro u
    rw [stays.insem, flagged.insem, current]
    split <;> rfl

section

variable (absent : (s.sched.thread (s.sched.current c)).insem = false)
include absent

theorem begin_eq (cond : Bool) : (s.sem.count ≠ 0 ∧ tryDownBegin c cond s = tryDownObtained s) ∨
      ∃ joined, Waitlist joined ∧ Flagged s joined (s.sched.current c) true ∧
        tryDownBegin c cond s = tryDownTurn c cond joined := by
  by_cases none : s.sem.count = 0
  · obtain ⟨joined, added, list', flagged⟩ := waitlistAdd_exists list absent
    refine .inr ⟨joined, list', flagged, ?_⟩
    have still : (joined.sem.count != 0) = false := by
      rw [flagged.count, none]
      rfl
    simp [tryDownBegin, semaphoreDownBegin, none, added, still]
  · refine .inl ⟨none, ?_⟩
    simp [tryDownBegin, semaphoreDownBegin, none]

theorem begin_returns (ran : tryDownBegin c cond s = .ok (s', outcome)) : Region c s s' outcome := by
  rcases begin_eq list absent cond with ⟨_, same⟩ | ⟨joined, list', flagged, same⟩
  · rw [same] at ran
    exact obtained_returns absent ran
  · rw [same] at ran
    have present : (joined.sched.thread (joined.sched.current c)).insem = true := by
      rw [flagged.insem, flagged.unmoved.current, if_pos rfl]
    exact (turn_returns list' present ran).joined flagged

theorem begin_fails (ran : tryDownBegin c cond s = .error fault) : fault ≠ shortage := by
  rcases begin_eq list absent cond with ⟨some, same⟩ | ⟨joined, list', flagged, same⟩
  · rw [same] at ran
    exact absurd (obtained_fails ran) some
  · rw [same] at ran
    have present : (joined.sched.thread (joined.sched.current c)).insem = true := by
      rw [flagged.insem, flagged.unmoved.current, if_pos rfl]
    exact turn_fails list' present ran

end

theorem resume_returns (ran : tryDownResume c cond s = .ok (s', outcome)) :
    Region c s s' outcome := by
  rw [tryDownResume] at ran
  split at ran
  next present =>
    exact turn_returns list present ran
  next absent =>
    exact obtained_returns (Bool.not_eq_true _ ▸ absent) ran

theorem resume_fails (enough : (s.sched.thread (s.sched.current c)).insem = false → s.sem.count ≠ 0)
    (ran : tryDownResume c cond s = .error fault) : fault ≠ shortage := by
  rw [tryDownResume] at ran
  split at ran
  next present =>
    exact turn_fails list present ran
  next absent =>
    exact absurd (obtained_fails ran) (enough (Bool.not_eq_true _ ▸ absent))

theorem up_exists :
    ∃ after, semaphoreUp s = .ok after ∧ after.sem.count = s.sem.count + 1 ∧ Waitlist after ∧
      ((s.sem.first = [] ∧ after.sched = s.sched) ∨ ∃ t, s.sem.first = [t] ∧ (s.sched.thread t).insem = true ∧
          after.sched = threadWake t (setInsem t false s.sched)) := by
  obtain ⟨items, holds, flags⟩ := list
  let raised : State κ τ := { s with sem := { s.sem with count := s.sem.count + 1 } }
  cases items with
  | nil =>
    have empty : listEmpty s.sem.waiters (.inl ()) = true := holds.empty_iff.mpr rfl
    have head : listFirst s.sem.waiters (.inl ()) = .inl () :=
      (Links.Represents.next_head_eq_self_iff holds (Set.mem_univ ())).mpr rfl
    refine ⟨raised, by simp [semaphoreUp, empty, raised], rfl, ⟨[], holds, flags⟩, .inl ⟨?_, rfl⟩⟩
    rw [Semaphore.first, head]
  | cons t items =>
    have some : listEmpty s.sem.waiters (.inl ()) = false := by
      rw [← Bool.not_eq_true, holds.empty_iff]
      exact List.cons_ne_nil _ _
    have head : listFirst s.sem.waiters (.inl ()) = .inr t := holds.first
    have present : (s.sched.thread t).insem = true := (flags t).mp List.mem_cons_self
    refine ⟨{ sched := threadWake t _
              sem := { count := s.sem.count + 1, waiters := listRm (.inr t) s.sem.waiters } },
      ?_, rfl, ⟨items, holds.pop, ?_⟩, .inr ⟨t, ?_, present, rfl⟩⟩
    · simp [semaphoreUp, semaphoreWaitlistRm, some, head, present]
    · intro u
      have distinct := List.nodup_cons.mp holds.nodup
      have before := flags u
      rw [threadWake, doWake_insem, setInsem_insem]
      split
      next same =>
        simp [same, distinct.1]
      next ne =>
        simpa [ne] using before
    · rw [Semaphore.first, head]

end KOs.Sync

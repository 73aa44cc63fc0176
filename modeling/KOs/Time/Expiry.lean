import KOs.Time.Timer
import Mathlib.Data.List.Perm.Basic

namespace KOs.Time

open KOs.Common KOs.Data List

def NotYet (millis : Nat) : List Nat → Prop
  | [] => True
  | ms :: earlier => (ms :: earlier).sum < millis ∧ NotYet millis earlier

def FirstDue (millis : Nat) : List Nat → Prop
  | [] => False
  | ms :: earlier => millis ≤ (ms :: earlier).sum ∧ NotYet millis earlier

instance (millis : Nat) : (ticks : List Nat) → Decidable (NotYet millis ticks)
  | [] => inferInstanceAs (Decidable True)
  | ms :: earlier =>
      have := instDecidableNotYet millis earlier
      inferInstanceAs (Decidable ((ms :: earlier).sum < millis ∧ NotYet millis earlier))

instance (millis : Nat) : (ticks : List Nat) → Decidable (FirstDue millis ticks)
  | [] => inferInstanceAs (Decidable False)
  | ms :: earlier => inferInstanceAs (Decidable (millis ≤ (ms :: earlier).sum ∧ NotYet millis earlier))

/-- Every timer that has been created is active and not due yet, or has fired, once and
when it was due. -/
structure OnTime (s : Timers) : Prop where
  waiting : ∀ timer ∈ s.active, NotYet timer.millis timer.ticks
  punctual : ∀ timer ∈ s.fired, FirstDue timer.millis timer.ticks
  once : ((s.active ++ s.fired).map Timer.id).Perm (List.range s.created)

structure Timer.Waits (left : Nat) (timer : Timer) : Prop where
  total : timer.ticks.sum + left = timer.millis
  notYet : NotYet timer.millis timer.ticks

/-- Each timer of the list waits for the deltas up to its own. -/
def Timed (base : Nat) : List Timer → Prop
  | [] => True
  | timer :: rest => timer.Waits (base + timer.delta) ∧ Timed (base + timer.delta) rest

section Lists

variable {base ms left : Nat} {timer new : Timer} {active after : List Timer}

theorem Timer.Waits.count (waits : timer.Waits (ms + left)) (pos : 0 < left) :
    (timer.count ms).Waits left := by
  have total := waits.total
  have sum : (ms :: timer.ticks).sum = ms + timer.ticks.sum := sum_cons
  refine ⟨?_, ?_, waits.notYet⟩
  iterate 2
    · simp only [Timer.count, sum]
      omega

theorem Timer.Waits.setDelta {delta : Nat} (waits : timer.Waits left) :
    Timer.Waits left { timer with delta } :=
  ⟨waits.total, waits.notYet⟩

theorem Timed.count (timed : Timed (ms + base) active) (pos : 0 < base) :
    Timed base (active.map (Timer.count ms)) := by
  induction active generalizing base with
  | nil => trivial
  | cons _ _ ih =>
    obtain ⟨waits, timed⟩ := timed
    rw [add_assoc] at waits timed
    exact ⟨waits.count (by omega), ih timed (by omega)⟩

theorem Timer.Waits.due {passed : Nat} (waits : timer.Waits passed) (full : passed ≤ ms) :
    FirstDue timer.millis (timer.count ms).ticks := by
  refine ⟨?_, waits.notYet⟩
  have total := waits.total
  rw [sum_cons]
  omega

theorem expireLoop_timed (timed : Timed base active) (split : ms = base + left) :
    Timed 0 (removeLoop (expireLoop left (active.map (Timer.count ms))).2) ∧
      (∀ timer ∈ (expireLoop left (active.map (Timer.count ms))).1, FirstDue timer.millis timer.ticks) ∧
      (expireLoop left (active.map (Timer.count ms))).1.map Timer.id ++
        (removeLoop (expireLoop left (active.map (Timer.count ms))).2).map Timer.id = active.map Timer.id := by
  induction active generalizing base left with
  | nil => simp [expireLoop, removeLoop, Timed]
  | cons timer _ ih =>
    obtain ⟨waits, timed⟩ := timed
    simp only [map_cons, expireLoop, decrementTimer, Timer.count]
    by_cases stays : left < timer.delta
    · have smaller : min timer.delta left = left := by omega
      have remains : timer.delta - left ≠ 0 := by omega
      have later : ms + (timer.delta - left) = base + timer.delta := by omega
      rw [← later] at waits timed
      simp only [smaller, remains, ne_eq, not_false_eq_true, if_true, removeLoop, Timed, zero_add]
      refine ⟨⟨(waits.count (by omega)).setDelta, timed.count (by omega)⟩, by simp, ?_⟩
      simp [map_map, Function.comp_def, Timer.count]
    · have smaller : min timer.delta left = timer.delta := by omega
      simp only [smaller, Nat.sub_self, ne_eq, not_true_eq_false, if_false, removeLoop]
      obtain ⟨kept, punctual, ids⟩ := ih timed (show ms = base + timer.delta + (left - timer.delta) by omega)
      refine ⟨kept, ?_, ?_⟩
      · simp only [mem_cons, forall_eq_or_imp]
        exact ⟨waits.due (by omega), punctual⟩
      · simp only [map_cons, cons_append]
        exact congrArg _ ids

theorem createLoop_timed (ran : createLoop new active = .ok after) (timed : Timed base active)
    (waits : new.Waits (base + new.delta)) :
    Timed base after ∧ (after.map Timer.id).Perm (new.id :: active.map Timer.id) := by
  induction active generalizing base new after with
  | nil => simp [createLoop] at ran
  | cons timer _ ih =>
    obtain ⟨first, timed⟩ := timed
    simp only [createLoop] at ran
    split at ran
    next here =>
      cases ran
      have same : base + new.delta + (timer.delta - new.delta) = base + timer.delta := by
        simp only [Bool.or_eq_true, decide_eq_true_eq] at here
        omega
      refine ⟨⟨waits, ?_, ?_⟩, .refl _⟩
      · simp only [same]
        exact first.setDelta
      · simp only [same]
        exact timed
    next further =>
      simp only [Bool.or_eq_true, decide_eq_true_eq, not_or, Nat.not_lt] at further
      split at ran
      next rest' placed =>
        cases ran
        have same : base + timer.delta + (new.delta - timer.delta) = base + new.delta := by omega
        obtain ⟨kept, ids⟩ := ih placed timed (by simp only [same]; exact waits.setDelta)
        refine ⟨⟨first, kept⟩, ?_⟩
        exact (ids.cons _).trans (.swap _ _ _)
      · contradiction

theorem createLoop_places (fits : new.delta < (active.map Timer.delta).sum ∨
      new.delta = (active.map Timer.delta).sum ∧ ∃ last ∈ active.getLast?, last.delta = 0) :
    ∃ after, createLoop new active = .ok after := by
  induction active generalizing new with
  | nil => simp at fits
  | cons timer rest ih =>
    simp only [createLoop]
    split
    · exact ⟨_, rfl⟩
    next further =>
      simp only [Bool.or_eq_true, decide_eq_true_eq, not_or, Nat.not_lt] at further
      simp only [map_cons, sum_cons] at fits
      have shorter : ∃ after, createLoop { new with delta := new.delta - timer.delta } rest = .ok after := by
        apply ih
        cases rest with
        | nil =>
          simp only [map_nil, sum_nil, getLast?_singleton, Option.mem_def, Option.some.injEq, exists_eq_left'] at fits
          omega
        | cons =>
          rcases fits with less | ⟨same, zero⟩
          · exact .inl (by dsimp only; omega)
          · exact .inr ⟨by dsimp only; omega, zero⟩
      obtain ⟨rest', placed⟩ := shorter
      exact ⟨timer :: rest', by simp only [placed]⟩

end Lists

/-- The last active timer is due later than the new one, or at the same time as the one
in front of it and the new one, or there is none. -/
def Fits (s : Timers) : TimerEvent → Prop
  | .create millis => s.active = [] ∨ millis < (s.active.map Timer.delta).sum ∨
      millis = (s.active.map Timer.delta).sum ∧ ∃ last ∈ s.active.getLast?, last.delta = 0
  | .tick _ => True

structure Timers.Sound (s : Timers) : Prop where
  timed : Timed 0 s.active
  punctual : ∀ timer ∈ s.fired, FirstDue timer.millis timer.ticks
  once : ((s.active ++ s.fired).map Timer.id).Perm (List.range s.created)

section Steps

variable {s : Timers}

theorem Timers.Sound.create {millis : Nat} (sound : s.Sound) (fits : Fits s (.create millis)) :
    (timerCreate millis s).Sound := by
  have fresh : Timer.Waits (0 + millis) { delta := millis, id := s.created, millis, ticks := [] } :=
    ⟨by simp, trivial⟩
  have once := sound.once
  rw [map_append] at once
  have placed : ∃ active, (timerCreate millis s).active = active ∧ Timed 0 active ∧
      (active.map Timer.id).Perm (s.created :: s.active.map Timer.id) := by
    have timed := sound.timed
    simp only [Fits] at fits
    simp only [timerCreate]
    cases list : s.active with
    | nil => exact ⟨_, rfl, ⟨fresh, trivial⟩, .refl _⟩
    | cons first rest =>
      rw [list] at timed fits
      have found : ∃ active, createLoop { delta := millis, id := s.created, millis, ticks := [] }
          (first :: rest) = .ok _ := createLoop_places (fits.resolve_left (by simp))
      obtain ⟨active, ran⟩ := found
      obtain ⟨kept, ids⟩ := createLoop_timed ran timed fresh
      exact ⟨active, by simp only [ran], kept, ids⟩
  obtain ⟨active, result, timed, ids⟩ := placed
  refine ⟨by rw [result]; exact timed, sound.punctual, ?_⟩
  have grown := (ids.append_right _).trans (once.cons s.created)
  rw [result, map_append]
  exact grown.trans (by simpa [timerCreate, range_succ] using (perm_append_singleton _ _).symm)

theorem Timers.Sound.tick (sound : s.Sound) (now : Nat) : (timeTick now s).Sound := by
  have whole : wsub now s.lastNow = 0 + wsub now s.lastNow := by rw [zero_add]
  obtain ⟨timed, punctual, ids⟩ := expireLoop_timed sound.timed whole
  refine ⟨timed, ?_, ?_⟩
  · simp only [timeTick, mem_append]
    rintro timer (old | new)
    · exact sound.punctual _ old
    · exact punctual _ new
  · have once := sound.once
    rw [map_append, ← ids] at once
    refine .trans ?_ once
    simp only [timeTick, map_append]
    rw [← append_assoc, append_assoc _ _ (s.fired.map Timer.id)]
    exact perm_append_comm

theorem Timed.notYet {base : Nat} {active : List Timer} (timed : Timed base active) :
    ∀ timer ∈ active, NotYet timer.millis timer.ticks := by
  induction active generalizing base with
  | nil => simp
  | cons _ _ ih =>
    obtain ⟨waits, timed⟩ := timed
    simp only [mem_cons, forall_eq_or_imp]
    exact ⟨waits.notYet, ih timed⟩

theorem Timers.Sound.onTime (sound : s.Sound) : OnTime s :=
  ⟨sound.timed.notYet, sound.punctual, sound.once⟩

end Steps

/-- Where every timer finds its place in the loop, every timer fires on time. -/
theorem timers_on_time {s : Timers} (path : timers.Reaches Fits timerInit s) : OnTime s := by
  apply Timers.Sound.onTime
  refine path.preserves Timers.Sound ⟨trivial, by simp [timerInit], .refl _⟩ ?_
  intro before event after sound fits _ ran
  cases event with
  | create =>
    cases ran
    exact sound.create fits
  | tick now =>
    cases ran
    exact sound.tick now

instance (s : Timers) : DecidablePred (Fits s)
  | .create _ => inferInstanceAs (Decidable (_ ∨ _ ∨ _ ∧ ∃ last ∈ s.active.getLast?, _))
  | .tick _ => .isTrue trivial

theorem timers_on_time_three : ∃ s, timers.Reaches Fits timerInit s ∧ s.fired.map Timer.id = [1, 2, 0] ∧ OnTime s := by
  obtain ⟨s, reached, fired⟩ : ∃ s, timers.Reaches Fits timerInit s ∧ s.fired.map Timer.id = [1, 2, 0] :=
    Machine.run_exists [.create 300, .create 100, .create 200, .tick 150, .tick 320] (by decide +kernel)
  exact ⟨s, reached, fired, timers_on_time reached⟩

/-- A timer of 200 milliseconds is created after one of 100: at 100 it has fired, and the other one has not. -/
theorem later_timer_fires_first : ∃ s, timers.Reaches (fun _ _ => True) timerInit s ∧
    s.fired.map Timer.id = [1] ∧ ¬ OnTime s := by
  have outcome : timers.run (fun _ _ => True) [.create 100, .create 200, .tick 100] timerInit =
      some { active := [{ delta := 100, id := 0, millis := 100, ticks := [100] }], lastNow := 100, created := 2,
             fired := [{ delta := 0, id := 1, millis := 200, ticks := [100] }] } := by decide +kernel
  refine ⟨_, Machine.run_reaches outcome, rfl, ?_⟩
  intro onTime
  have punctual := onTime.punctual _ (mem_singleton_self _)
  exact absurd punctual (by decide)

/-- The milliseconds up to the end of timer `i` of the list. -/
def dueAt (active : List Timer) (i : Nat) : Nat := ((active.take (i + 1)).map Timer.delta).sum

/-- A tick of so many milliseconds takes `n` timers off the list. -/
structure Expires (elapsed : Nat) (active fired after : List Timer) (n : Nat) : Prop where
  within : n ≤ active.length
  due : ∀ i < active.length, i < n ↔ dueAt active i ≤ elapsed
  called : fired.map Timer.id = (active.take n).map Timer.id
  kept : after.map Timer.id = (active.drop n).map Timer.id
  sooner : ∀ i, n + i < active.length → dueAt after i + elapsed = dueAt active (n + i)

theorem expireLoop_expires (elapsed : Nat) (active : List Timer) : ∃ n, Expires elapsed active
    (expireLoop elapsed active).1 (removeLoop (expireLoop elapsed active).2) n := by
  induction active generalizing elapsed with
  | nil => exact ⟨0, by simp, by simp, rfl, rfl, by simp⟩
  | cons timer _ ih =>
    by_cases stays : elapsed < timer.delta
    · have remains : timer.delta - elapsed ≠ 0 := by omega
      simp only [expireLoop, decrementTimer, Nat.min_eq_right (stays.le), remains, ne_eq,
        not_false_eq_true, if_true, removeLoop]
      refine ⟨0, by simp, ?_, rfl, rfl, ?_⟩
      · simp only [dueAt, take_succ_cons, map_cons, sum_cons]
        omega
      · simp only [dueAt, take_succ_cons, map_cons, sum_cons, zero_add]
        omega
    · obtain ⟨n, expires⟩ := ih _
      simp only [expireLoop, decrementTimer, min_eq_left (not_lt.mp stays), Nat.sub_self, ne_eq,
        not_true_eq_false, if_false, removeLoop]
      refine ⟨n + 1, by simpa using expires.within, ?_, by simp [expires.called], expires.kept, ?_⟩
      · intro i inside
        cases i with
        | zero => simp [dueAt]; omega
        | succ i =>
          have due := expires.due i (by simpa using inside)
          simp only [dueAt, take_succ_cons, map_cons, sum_cons] at due ⊢
          omega
      · intro i inside
        have sooner := expires.sooner i (by simp at inside; omega)
        rw [Nat.add_right_comm]
        simp only [dueAt, take_succ_cons, map_cons, sum_cons] at sooner ⊢
        omega

theorem wsub_uptime (previous current : Nat) : (wsub (current % wordSize) (previous % wordSize) : Int) =
    ((current : Int) - previous) % wordSize := by
  simp only [wsub, wordSize]
  omega

/-- A tick calls back the timers that are due and no others, in their order. -/
theorem time_tick_expires_due (s : Timers) (previous current : Nat) :
    ∃ (elapsed n : Nat) (fired : List Timer), (elapsed : Int) = ((current : Int) - previous) % wordSize ∧
      (timeTick (current % wordSize) { s with lastNow := previous % wordSize }).fired = s.fired ++ fired ∧
      Expires elapsed s.active fired
        (timeTick (current % wordSize) { s with lastNow := previous % wordSize }).active n := by
  obtain ⟨n, expires⟩ := expireLoop_expires (wsub (current % wordSize) (previous % wordSize))
    (s.active.map (Timer.count (wsub (current % wordSize) (previous % wordSize))))
  refine ⟨_, n, _, wsub_uptime previous current, rfl, ?_⟩
  have deltas : ∀ i, dueAt (s.active.map (Timer.count (wsub (current % wordSize) (previous % wordSize)))) i =
      dueAt s.active i := by
    simp [dueAt, ← map_take, Function.comp_def, Timer.count]
  obtain ⟨within, due, called, kept, sooner⟩ := expires
  simp only [length_map, deltas, ← map_take, ← map_drop, map_map] at within due called kept sooner
  exact ⟨within, due, called, kept, sooner⟩

end KOs.Time

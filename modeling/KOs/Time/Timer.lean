import KOs.Common.Fault
import KOs.Data.Transition
import KOs.Data.Word
import Mathlib.Algebra.Ring.Nat

namespace KOs.Time

open KOs.Common KOs.Data

/-! The timers of `time/timer.c`.

`active_timers` is the list of its entries; a delta counts from the timer in front.
`time_tick` and `timer_create` behind its `cache_alloc` run under `timer_lock`, so each
is one step; a callback is only remembered.
-/

structure Timer where
  delta : Nat
  id : Nat
  /-- What `timer_create` was called with. -/
  millis : Nat
  /-- The milliseconds of the ticks since then, those of the last one in front. -/
  ticks : List Nat
deriving DecidableEq, Repr

structure Timers where
  active : List Timer
  lastNow : Nat
  created : Nat
  /-- The timers whose callbacks have been called, in order. -/
  fired : List Timer
deriving DecidableEq, Repr

/-- The loop of `timer_create`.  It ends at a timer, or with what is then left of the
delta. -/
def createLoop (new : Timer) : List Timer → Except Timer (List Timer)
  | [] => .error new
  | timer :: rest =>
      if new.delta = 0 || new.delta < timer.delta then
        .ok (new :: { timer with delta := timer.delta - new.delta } :: rest)
      else
        match createLoop { new with delta := new.delta - timer.delta } rest with
        | .ok rest => .ok (timer :: rest)
        | .error new => .error new

/-- `list_add_before(&new->list, active_timers.prev)` -/
def addBeforeLast (new : Timer) : List Timer → List Timer
  | [] => [new]
  | [last] => [new, last]
  | timer :: next :: rest => timer :: addBeforeLast new (next :: rest)

def timerCreate (millis : Nat) (s : Timers) : Timers :=
  let new := { delta := millis, id := s.created, millis, ticks := [] }
  let active :=
    match s.active with
    | [] => [new]
    | first :: rest =>
        match createLoop new (first :: rest) with
        | .ok active => active
        | .error new => addBeforeLast new (first :: rest)
  { s with active, created := s.created + 1 }

def decrementTimer (timer : Timer) (ms : Nat) : Timer × Nat :=
  let diff := min timer.delta ms
  ({ timer with delta := timer.delta - diff }, ms - diff)

/-- The first loop of `time_tick`: the timers that it calls back, and the list. -/
def expireLoop (left : Nat) : List Timer → List Timer × List Timer
  | [] => ([], [])
  | timer :: rest =>
      let (timer, left) := decrementTimer timer left
      if timer.delta ≠ 0 then ([], timer :: rest)
      else
        let (fired, rest) := expireLoop left rest
        (timer :: fired, timer :: rest)

def removeLoop : List Timer → List Timer
  | [] => []
  | timer :: rest => if timer.delta ≠ 0 then timer :: rest else removeLoop rest

def Timer.count (ms : Nat) (timer : Timer) : Timer := { timer with ticks := ms :: timer.ticks }

/-- `time_tick`, with what `uptime` returns. -/
def timeTick (now : Nat) (s : Timers) : Timers :=
  let left := wsub now s.lastNow
  let (fired, active) := expireLoop left (s.active.map (Timer.count left))
  { s with active := removeLoop active, lastNow := now, fired := s.fired ++ fired }

inductive TimerEvent where
  | create (millis : Nat)
  | tick (now : Nat)
deriving DecidableEq, Repr

def timers : Machine Timers TimerEvent Fault where
  enabled event _ :=
    match event with
    | .create millis => decide (millis < wordSize)
    | .tick now => decide (now < wordSize)
  perform event s :=
    match event with
    | .create millis => .ok (timerCreate millis s)
    | .tick now => .ok (timeTick now s)

/-- No timers yet; `last_now` is a variable of the data segment. -/
def timerInit : Timers := { active := [], lastNow := 0, created := 0, fired := [] }

/-- `_unsafe_uptime` of `time/clock.c`, with what the active clock reads. -/
def unsafeUptime (active : Option UInt32) (read : UInt64) : UInt64 :=
  match active with
  | some freq => 1000 * read / freq.toUInt64
  | none => 0

theorem unsafeUptime_toNat (freq : UInt32) (read : UInt64) :
    (unsafeUptime (some freq) read).toNat = 1000 * read.toNat % 2 ^ 64 / freq.toNat := by
  simp [unsafeUptime]

/-- The milliseconds of these ticks, in order and exact. -/
structure Uptimes (freq : UInt32) (earlier later : UInt64) : Prop where
  ordered : unsafeUptime (some freq) earlier ≤ unsafeUptime (some freq) later
  exact : ∀ ticks ∈ [earlier, later], 1000 * ticks.toNat / freq.toNat < 2 ^ 64 →
    (unsafeUptime (some freq) ticks).toNat = 1000 * ticks.toNat / freq.toNat

theorem Uptimes.of_small (le : earlier ≤ later) (small : 1000 * later.toNat < 2 ^ 64) : Uptimes freq earlier later := by
  have le : earlier.toNat ≤ later.toNat := le
  refine ⟨?_, ?_⟩
  · rw [UInt64.le_iff_toNat_le, unsafeUptime_toNat, unsafeUptime_toNat, Nat.mod_eq_of_lt small,
      Nat.mod_eq_of_lt (by omega)]
    exact Nat.div_le_div_right (by omega)
  · intro ticks mem _
    have : ticks.toNat ≤ later.toNat := by grind
    rw [unsafeUptime_toNat, Nat.mod_eq_of_lt (by omega)]

/-- The ticks whose milliseconds are the first that do not fit start again near 0. -/
theorem Uptimes.not_ordered (pos : 0 < freq) : ¬ Uptimes freq 18446744073709551 18446744073709552 := by
  intro uptimes
  have ordered := uptimes.ordered
  rw [UInt64.le_iff_toNat_le, unsafeUptime_toNat, unsafeUptime_toNat] at ordered
  have before : 18446744073709551000 / 2 ^ 32 ≤ 18446744073709551000 / freq.toNat :=
    Nat.div_le_div_left (freq.toNat_lt.le) pos
  have after := Nat.div_le_self 384 freq.toNat
  simp at ordered
  omega

/-- Up to a reading the uptime is right and never goes back exactly if the product with that reading fits. -/
theorem uptimes_iff (freq : UInt32) (pos : 0 < freq) (read : UInt64) :
    (∀ later ≤ read, ∀ earlier ≤ later, Uptimes freq earlier later) ↔ 1000 * read.toNat < 2 ^ 64 := by
  constructor
  · intro all
    by_contra large
    have reached : 18446744073709552 ≤ read := by
      rw [UInt64.le_iff_toNat_le]
      simp
      omega
    exact Uptimes.not_ordered pos (all _ reached _ (by decide))
  · intro small later below earlier le
    have below : later.toNat ≤ read.toNat := below
    exact .of_small le (by omega)

theorem uptimes_hour : Uptimes 3000000000 3000000000 10800000000000 :=
  (uptimes_iff 3000000000 (by decide) 10800000000000).mpr (by decide) _ (by decide) _ (by decide)

/-- After 71 days of a clock at 3 GHz. -/
theorem uptime_goes_back : unsafeUptime (some 3000000000) 18446744073709551 = 6148914691 ∧
    unsafeUptime (some 3000000000) 18446744073709552 = 0 := by
  decide

end KOs.Time

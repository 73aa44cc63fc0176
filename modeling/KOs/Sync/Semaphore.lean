import KOs.Sched.Events

namespace KOs.Sync

open KOs.Common KOs.Data KOs.Sched

/-! The semaphore of `sync/semaphore.c` and of the two headers.

A down is one or more regions under the lock of the semaphore, a new one each time
its thread comes back from `sched_switch`.  Each ends with the unit obtained, with
the thread having given up, or with the thread asleep on the list of waiters.
-/

structure Semaphore (τ : Type) where
  count : UInt32
  waiters : Links (Unit ⊕ τ)

/-- What the lock of the semaphore protects, and the threads. -/
structure State (κ τ : Type) where
  sched : Scheduler κ τ
  sem : Semaphore τ

inductive Outcome where
  | obtained
  | gaveUp
  | waits
deriving DecidableEq, Repr

variable {κ τ : Type} [DecidableEq τ]

/-- The cells of the waiters keep what they held; only the head is written. -/
def semaphoreInit (count : UInt32) (cells : Links (Unit ⊕ τ)) : Semaphore τ where
  count
  waiters := listInit (.inl ()) cells

def setInsem (t : τ) (insem : Bool) (s : Scheduler κ τ) : Scheduler κ τ :=
  s.modify t (fun thread => { thread with insem })

def semaphoreWaitlistAdd (t : τ) (s : State κ τ) : Except Fault (State κ τ) := do
  let waiters := listAdd (.inr t) (.inl ()) s.sem.waiters
  bugOn (s.sched.thread t).insem "inc/sync/semaphore-post.h" 11
  return { sched := setInsem t true s.sched, sem := { s.sem with waiters } }

def semaphoreWaitlistRm (t : τ) (s : State κ τ) : Except Fault (State κ τ) := do
  let waiters := listRm (.inr t) s.sem.waiters
  bugOn (!(s.sched.thread t).insem) "inc/sync/semaphore-post.h" 20
  return { sched := setInsem t false s.sched, sem := { s.sem with waiters } }

/-- Whether the list of waiters was skipped, beside the state. -/
def semaphoreDownBegin (c : κ) (s : State κ τ) : Except Fault (State κ τ × Bool) := do
  let s ← if s.sem.count = 0 then semaphoreWaitlistAdd (s.sched.current c) s else .ok s
  return (s, s.sem.count != 0)

def semaphoreDownEndObtained (s : State κ τ) : Except Fault (State κ τ) := do
  bugOn (s.sem.count == 0) "inc/sync/semaphore-post.h" 39
  return { s with sem := { s.sem with count := s.sem.count - 1 } }

def semaphoreDownEndGaveup (c : κ) (s : State κ τ) : Except Fault (State κ τ) :=
  semaphoreWaitlistRm (s.sched.current c) s

/-- `_semaphore_down_yield` up to its switch. -/
def semaphoreDownYield (c : κ) (s : State κ τ) : Except Fault (State κ τ) := do
  bugOn (!(s.sched.thread (s.sched.current c)).insem) "inc/sync/semaphore-post.h" 55
  let sched ← threadSleepPrepare c s.sched
  return { s with sched }

/-! The regions of `try_semaphore_down_while_condition`; `cond` is what its
condition evaluates to. -/

def tryDownObtained (s : State κ τ) : Except Fault (State κ τ × Outcome) := do
  let s ← semaphoreDownEndObtained s
  return (s, .obtained)

def tryDownTurn (c : κ) (cond : Bool) (s : State κ τ) : Except Fault (State κ τ × Outcome) :=
  if cond then do
    let s ← semaphoreDownYield c s
    return (s, .waits)
  else do
    let s ← semaphoreDownEndGaveup c s
    return (s, .gaveUp)

def tryDownBegin (c : κ) (cond : Bool) (s : State κ τ) : Except Fault (State κ τ × Outcome) := do
  let (s, skipped) ← semaphoreDownBegin c s
  if skipped then tryDownObtained s else tryDownTurn c cond s

/-- Back from `sched_switch`, with the lock taken again: the test of the loop. -/
def tryDownResume (c : κ) (cond : Bool) (s : State κ τ) : Except Fault (State κ τ × Outcome) :=
  if (s.sched.thread (s.sched.current c)).insem then tryDownTurn c cond s else tryDownObtained s

def semaphoreUp (s : State κ τ) : Except Fault (State κ τ) :=
  let s := { s with sem := { s.sem with count := s.sem.count + 1 } }
  if listEmpty s.sem.waiters (.inl ()) then .ok s
  else
    match listFirst s.sem.waiters (.inl ()) with
    | .inl _ => .error .strayEntry
    | .inr waiting => do
        let s ← semaphoreWaitlistRm waiting s
        return { s with sched := threadWake waiting s.sched }

/-! The semaphore in use.

A thread that waits has released the lock and is about to call `sched_switch`, or
has come back from it.  Until the switch it may be preempted, which is a switch
of its processor like any other.
-/

inductive Caller where
  | semaphoreDown
  | tryDown
deriving DecidableEq, Repr

inductive Place where
  | outside
  | yielding (caller : Caller)
  | yielded (caller : Caller)
deriving DecidableEq, Repr

inductive Action (κ τ : Type) where
  | sched (event : Sched.Event κ τ)
  | down (c : κ) (caller : Caller) (cond : Bool)
  | yield (c : κ)
  | resume (c : κ) (cond : Bool)
  | up

structure World (κ τ : Type) extends State κ τ where
  place : τ → Place
  /-- The threads an up has taken off the list and that have not come back yet. -/
  woken : List τ
  /-- Downs that obtained their unit, and ups, since the start. -/
  downs : Nat
  ups : Nat

/-- The condition of `semaphore_down` is `true`. -/
def Caller.cond (caller : Caller) (cond : Bool) : Bool :=
  match caller with
  | .semaphoreDown => true
  | .tryDown => cond

def World.setPlace (w : World κ τ) (t : τ) (place : Place) : World κ τ :=
  { w with place := fun other => if other = t then place else w.place other }

def Outcome.place (outcome : Outcome) (caller : Caller) : Place :=
  match outcome with
  | .obtained => .outside
  | .gaveUp => .outside
  | .waits => .yielding caller

def World.settled (w : World κ τ) (t : τ) (caller : Caller) (region : State κ τ × Outcome) :
    World κ τ where
  toState := region.1
  place other := if other = t then region.2.place caller else w.place other
  woken := w.woken.erase t
  downs := w.downs + (if region.2 = .obtained then 1 else 0)
  ups := w.ups

/-- What follows a region: `semaphore_down` does not expect to have given up. -/
def World.settle (w : World κ τ) (t : τ) (caller : Caller) (region : State κ τ × Outcome) :
    Except Fault (World κ τ) := do
  bugOn (caller == .semaphoreDown && region.2 == .gaveUp) "src/sync/semaphore.c" 10
  return w.settled t caller region

def Semaphore.first (sem : Semaphore τ) : List τ :=
  match listFirst sem.waiters (.inl ()) with
  | .inl _ => []
  | .inr t => [t]

variable [DecidableEq κ]

def Action.enabled (action : Action κ τ) (w : World κ τ) : Bool :=
  match action with
  | .sched event =>
      event.livesOn && event.enabled w.sched &&
        match event with
        | .sleepPrepare c => decide (w.place (w.sched.current c) = .outside)
        | _ => true
  | .down c _ _ =>
      decide ((w.sched.thread (w.sched.current c)).state = .awake) &&
        decide (w.place (w.sched.current c) = .outside)
  | .yield c =>
      match w.place (w.sched.current c) with
      | .yielding _ => true
      | _ => false
  | .resume c _ =>
      match w.place (w.sched.current c) with
      | .yielded _ => true
      | _ => false
  | .up => true

def Action.perform (action : Action κ τ) (w : World κ τ) : Except Fault (World κ τ) :=
  match action with
  | .sched event => do
      let sched ← event.perform w.sched
      return { w with sched }
  | .down c caller cond => do
      let region ← tryDownBegin c (caller.cond cond) w.toState
      w.settle (w.sched.current c) caller region
  | .yield c =>
      match w.place (w.sched.current c) with
      | .yielding caller => do
          let sched ← doSchedSwitch c w.sched
          return { w.setPlace (w.sched.current c) (.yielded caller) with sched }
      | _ => .ok w
  | .resume c cond =>
      match w.place (w.sched.current c) with
      | .yielded caller => do
          let region ← tryDownResume c (caller.cond cond) w.toState
          w.settle (w.sched.current c) caller region
      | _ => .ok w
  | .up => do
      let state ← semaphoreUp w.toState
      return { w with toState := state, woken := w.sem.first ++ w.woken, ups := w.ups + 1 }

def machine (κ τ : Type) [DecidableEq κ] [DecidableEq τ] : Machine (World κ τ) (Action κ τ) Fault where
  enabled := Action.enabled
  perform := Action.perform

end KOs.Sync

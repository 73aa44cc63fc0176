import KOs.Net.Locking
import KOs.Time.Timer

namespace KOs.Net.Spin

open KOs.Data KOs.Data.LockCode KOs.Sync.Spin Ports

/-! Where timers and sockets wait for a lock of their own processor, and where they do not give one back. -/

def ArpCacheEntry.rearms (entry : ArpCacheEntry) : Bool :=
  decide (entry.state = .unresolved) && !decide (entry.retrys + 1 ≥ arpRetrys)

def Destination.asks : Destination → Bool
  | .broadcast => false
  | .known entry => decide (entry.state = .unresolved) && decide (entry.retrys = -1)
  | .unknown => true

def TimerCallback.rearms : TimerCallback → Bool
  | .arpWatchdog entry => entry.rearms
  | .tcpResendSyn sock => !(hasFlag sock.flags sockFlagClosed || sock.state = .closed) && sock.dst.asks
  | .sleepCallback => false
  | .endBeep => false

theorem arpWatchdog_eq (entry : ArpCacheEntry) :
    arpWatchdog entry = holding .arpCacheEntry
      [if entry.rearms then arpAskAgain else if entry.state = .unresolved then arpGiveUp else skip] := by
  rcases entry with ⟨state, retrys⟩
  cases state <;> by_cases last : retrys + 1 ≥ arpRetrys <;> simp [arpWatchdog, ArpCacheEntry.rearms, last]

/-- How code ends that either starts a timer under `timer_lock` or takes it back as it was. -/
def ends (rearms : Bool) : LockEnd SpinLock := if rearms then .deadlock .timerLock else .returns [.timerLock]

theorem arpResolve_verdict (dst : Destination) :
    (holding .tcpConn [tcpQueueAdd (arpResolve connCallback dst)]).verdict [.timerLock] = .ends (ends dst.asks) := by
  rcases dst with _ | ⟨state, retrys⟩ | _
  · decide +kernel
  · cases state with
    | unresolved =>
      by_cases fresh : retrys = -1
      · subst fresh
        decide +kernel
      · have quiet : arpResolve connCallback (.known ⟨.unresolved, retrys⟩) =
            arpResolve connCallback (.known ⟨.unresolved, 0⟩) := by
          simp [arpResolve, fresh, (by decide : (0 : Int8) ≠ -1)]
        have asks : (Destination.known ⟨.unresolved, retrys⟩).asks = false := by simp [Destination.asks, fresh]
        rw [quiet, asks]
        decide +kernel
    | resolved => exact (by decide +kernel : LockCode.verdict (holding .tcpConn
        [tcpQueueAdd (arpResolve connCallback (.known ⟨.resolved, 0⟩))]) [.timerLock] = .ends (ends false))
  · decide +kernel

theorem TimerCallback.call_verdict (callback : TimerCallback) :
    callback.call.verdict [.timerLock] = .ends (ends callback.rearms) := by
  cases callback with
  | arpWatchdog entry =>
    show (Spin.arpWatchdog entry).verdict _ = .ends (ends entry.rearms)
    rw [arpWatchdog_eq]
    cases entry.rearms <;> cases entry.state <;> decide +kernel
  | tcpResendSyn sock =>
    show (Spin.tcpResendSyn sock).verdict _ = .ends (ends (!_ && _))
    rw [Spin.tcpResendSyn]
    cases gone : (hasFlag sock.flags sockFlagClosed || decide (sock.state = .closed)) with
    | true => rfl
    | false => exact arpResolve_verdict sock.dst
  | sleepCallback | endBeep => decide +kernel

def expired (left : Nat) : List Timer → List Timer
  | [] => []
  | timer :: rest => if timer.delta ≤ left then timer :: expired (left - timer.delta) rest else []

def rearming (left : Nat) (timers : List Timer) : Bool := (expired left timers).any (·.callback.rearms)

theorem expired_map (callback : Nat → TimerCallback) (left : Nat) (timers : List Time.Timer) :
    (expired left (timers.map fun timer => ⟨timer.delta, callback timer.id⟩)).map Timer.callback =
      (Time.expireLoop left timers).1.map fun timer => callback timer.id := by
  induction timers generalizing left with
  | nil => rfl
  | cons timer _ ih =>
    by_cases due : timer.delta ≤ left
    · simp [expired, Time.expireLoop, Time.decrementTimer, due, ih]
    · have more : timer.delta - left ≠ 0 := by omega
      simp [expired, Time.expireLoop, Time.decrementTimer, due, Nat.min_eq_right (Nat.le_of_not_le due), more]

/-- What a tick calls back under `timer_lock` is what it fires. -/
theorem timeTick_calls (callback : Nat → TimerCallback) (now : Nat) (s : Time.Timers) :
    ((Time.timeTick now s).fired.map fun timer => callback timer.id) =
      (s.fired.map fun timer => callback timer.id) ++ (expired (wsub now s.lastNow)
        (s.active.map fun timer => ⟨timer.delta, callback timer.id⟩)).map Timer.callback := by
  have counted := expired_map callback (wsub now s.lastNow) (s.active.map (Time.Timer.count (wsub now s.lastNow)))
  rw [List.map_map] at counted
  rw [Time.timeTick, List.map_append, ← counted]
  rfl

theorem expireLoop_cons (left : Nat) (timer : Timer) (rest : List Timer) :
    expireLoop left (timer :: rest) =
      if timer.delta ≤ left then steps [timer.callback.call, cacheFree, expireLoop (left - timer.delta) rest]
      else skip := by
  by_cases due : timer.delta ≤ left
  · simp [expireLoop, due]
  · have more : timer.delta - left ≠ 0 := by omega
    simp [expireLoop, due, Nat.min_eq_right (Nat.le_of_not_le due), more]

theorem expireLoop_verdict (timers : List Timer) (left : Nat) :
    (expireLoop left timers).verdict [.timerLock] = .ends (ends (rearming left timers)) := by
  induction timers generalizing left with
  | nil => rfl
  | cons timer _ ih =>
    rw [expireLoop_cons, rearming, expired]
    split
    · have freed : cacheFree.verdict [.timerLock] = .ends (.returns [.timerLock]) := by decide +kernel
      have called := timer.callback.call_verdict
      cases rearms : timer.callback.rearms <;> rw [rearms] at called <;> rw [List.any_cons, rearms]
      · rw [steps, verdict_seq called, steps, verdict_seq freed, steps, steps, verdict_seq_skip, ih]
        rfl
      · rw [steps, verdict, called]
        rfl
    · rfl

theorem timeTick_balanced_iff (now lastNow : Nat) (timers : List Timer) :
    Balanced (timeTick now lastNow timers) [] ↔ rearming (wsub now lastNow) timers = false := by
  have read : uptime.verdict [.timerLock] = .ends (.returns [.timerLock]) := by decide +kernel
  have looped := expireLoop_verdict timers (wsub now lastNow)
  cases rearms : rearming (wsub now lastNow) timers with
  | true =>
    have found : (timeTick now lastNow timers).verdict [] = .ends (.deadlock .timerLock) := by
      simp [timeTick, holding, steps, verdict, read, looped, rearms, ends]
    simp [balanced_iff found]
  | false =>
    have found : (timeTick now lastNow timers).verdict [] = .ends (.returns []) := by
      simp [timeTick, holding, steps, verdict, read, looped, rearms, ends]
    simp [balanced_iff found]

theorem sockCreate_balanced_iff (families : Nat → Option SockFamily) (family type protocol : Nat) :
    Balanced (sockCreate families family type protocol) [] ↔ families family ≠ none := by
  rw [sockCreate]
  cases families family with
  | none => simp [balanced_iff (by decide : (acquire SpinLock.familyLock).verdict [] = .ends (.returns [.familyLock]))]
  | some found =>
    have opened : ∀ proto, (steps [holding .familyLock [], sockOpen proto]).verdict [] = .ends (.returns []) := by
      intro proto
      cases proto <;> decide +kernel
    simp only [ne_eq, reduceCtorEq, not_false_eq_true, iff_true]
    cases found.find type protocol with
    | none => exact (balanced_iff (by decide)).mpr rfl
    | some proto => exact (balanced_iff (opened _)).mpr rfl

/-- The port is free and the first one of the list, which `tcp_bind` leaves to `tcp_bind_port`. -/
def BindsFirst (ports : Ports.Table) (family ip port : Nat) : Prop :=
  let host := Ports.swapUint16 port
  family = afInet ∧ ip = Ports.ipAny ∧ ports.portsSock port = none ∧ Ports.ephemeralStart ≤ host ∧
    ports.ephemeralNext = wsub host Ports.ephemeralStart % Ports.portNum

theorem tcpBind_balanced_iff (ports : Ports.Table) (family ip port : Nat) :
    Balanced (tcpBind ports family ip port) [] ↔ ¬ BindsFirst ports family ip port := by
  have nothing : Balanced (skip : Code) [] := (balanced_iff rfl).mpr rfl
  have region : Balanced (holding SpinLock.portLock [skip]) [] := (balanced_iff (by decide)).mpr rfl
  have waits : ¬ Balanced (holding SpinLock.portLock [tcpBindPort]) [] := by
    simp [balanced_iff (by decide : (holding .portLock [tcpBindPort]).verdict [] = .ends (.deadlock .portLock))]
  rw [tcpBind, tcpBindTake, BindsFirst]
  by_cases inet : family = afInet <;> simp only [inet, true_and, false_and, not_false_eq_true, if_true, if_false]
  · by_cases any : ip = ipAny
    · cases ports.portsSock port <;> by_cases high : ephemeralStart ≤ swapUint16 port <;>
        by_cases first : ports.ephemeralNext = wsub (swapUint16 port) ephemeralStart % portNum <;>
        simp [any, high, first, region, waits]
    · simp [any, nothing]
  · simp [nothing]

/-- Where `tcp_bind` waits for the lock that it holds, the model of the ports has it not return. -/
theorem tcpBind_unfinished {ports : Ports.Table} {family ip port : Nat} (first : BindsFirst ports family ip port)
    (id : Nat) (sock : Ports.Sock) : Ports.tcpBind id ip port sock ports = .error .unfinished := by
  obtain ⟨_, any, unbound, high, next⟩ := first
  simp [Ports.tcpBind, takePort, Table.setSock, any, unbound, high, ← next, Except.map]

/-- `tcp_accept`, `tcp_handle` and `tcp_close` whatever they are given and find. -/
inductive Call where
  | timeTick (now lastNow : Nat) (timers : List Timer)
  | sockCreate (families : Nat → Option SockFamily) (family type protocol : Nat)
  | tcpBind (ports : Ports.Table) (family ip port : Nat)
  | tcpAccept
  | tcpHandle
  | tcpClose

def Call.code : Call → Code
  | .timeTick now lastNow timers => Spin.timeTick now lastNow timers
  | .sockCreate families family type protocol => Spin.sockCreate families family type protocol
  | .tcpBind ports family ip port => Spin.tcpBind ports family ip port
  | .tcpAccept => Spin.tcpAccept
  | .tcpHandle => Spin.tcpHandle
  | .tcpClose => Spin.tcpClose

/-- No callback of the tick starts a timer; the family is registered; the port is not the first one of the free
list. -/
def Call.Orderly : Call → Prop
  | .timeTick now lastNow timers => rearming (wsub now lastNow) timers = false
  | .sockCreate families family _ _ => families family ≠ none
  | .tcpBind ports family ip port => ¬ BindsFirst ports family ip port
  | .tcpAccept => True
  | .tcpHandle => True
  | .tcpClose => True

/-- A call of a timer or of a socket takes no lock twice and gives back what it takes, unless a callback of the tick
starts a timer, no family is registered, or the port to bind is the first one of the free list. -/
theorem calls_balanced_iff (call : Call) : Balanced call.code [] ↔ call.Orderly := by
  cases call with
  | timeTick now lastNow timers => exact timeTick_balanced_iff now lastNow timers
  | sockCreate families family type protocol => exact sockCreate_balanced_iff families family type protocol
  | tcpBind ports family ip port => exact tcpBind_balanced_iff ports family ip port
  | tcpAccept | tcpHandle | tcpClose => exact iff_of_true ((balanced_iff (by decide +kernel)).mpr rfl) trivial

/-- The timer of an address that has been asked for once expires; `socket` is called with a family that nobody has
registered; the first ephemeral port is asked for. -/
theorem calls_wait_for_themselves :
    ¬ Balanced (Call.timeTick 500 0 [⟨500, .arpWatchdog ⟨.unresolved, 0⟩⟩]).code [] ∧
      ¬ Balanced (Call.sockCreate (fun _ => none) 2 1 0).code [] ∧
      ¬ Balanced (Call.tcpBind Ports.ephemeralInit afInet Ports.ipAny (Ports.swapUint16 Ports.ephemeralStart)).code
        [] := by
  refine ⟨?_, ?_, ?_⟩ <;> intro balanced
  · have waits : Ends (Call.timeTick 500 0 [⟨500, .arpWatchdog ⟨.unresolved, 0⟩⟩]).code [] (.deadlock .timerLock) :=
      ends_of_verdict (by decide +kernel)
    cases balanced _ waits
  · cases balanced _ (.acquire List.not_mem_nil)
  · have waits : Ends (Call.tcpBind ephemeralInit afInet ipAny
        (swapUint16 ephemeralStart)).code [] (.deadlock .portLock) := ends_of_verdict (by decide +kernel)
    cases balanced _ waits

end KOs.Net.Spin

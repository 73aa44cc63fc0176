import KOs.Common.Fault
import KOs.Data.Circular
import KOs.Data.Loop

namespace KOs.Common

open KOs.Data List

/-! The ring that `log/log.c` keeps the kernel's messages in. -/

def logBuffSize : Nat := 32768

structure Log where
  front : Nat
  logBuff : Nat → UInt8
  console : List UInt8

structure LogAppend extends Log where
  coppied : Nat

/-- One turn of the loop: `str` is not advanced.  `attached` is `con_global && enabled`. -/
def logbuffChunk (attached : Bool) (str : List UInt8) (l : LogAppend) : LogAppend :=
  let chunkLen := min (str.length - l.coppied) (logBuffSize - l.front)
  { logBuff := store l.logBuff l.front (str.take chunkLen)
    console := if attached then l.console ++ str else l.console
    coppied := l.coppied + chunkLen
    front := (l.front + chunkLen) % logBuffSize }

def logbuffAppend (attached : Bool) (str : List UInt8) (s : Log) : Except Fault Log :=
  (whileLoop (fun l => l.coppied < str.length) (fun l => .ok (logbuffChunk attached str l)) .unfinished
    (str.length + 1) { s with coppied := 0 }).map LogAppend.toLog

def logbuffAppends : List (Bool × List UInt8) → Log → Except Fault Log
  | [], s => .ok s
  | (attached, str) :: rest, s => do logbuffAppends rest (← logbuffAppend attached str s)

/-- Read circularly, `log_buff` ends at `front` with the last of `bytes`. -/
structure Log.Holds (s : Log) (bytes : List UInt8) : Prop where
  front : s.front = bytes.length % logBuffSize
  kept : ∀ i < min bytes.length logBuffSize,
    bytes[bytes.length - 1 - i]? = some (s.logBuff ((s.front + logBuffSize - 1 - i) % logBuffSize))

variable {s : Log} {bytes str : List UInt8}

theorem logbuffAppend_straight (attached : Bool) (front : s.front < logBuffSize)
    (fits : s.front + str.length ≤ logBuffSize) :
    logbuffAppend attached str s = .ok {
      front := (s.front + str.length) % logBuffSize
      logBuff := store s.logBuff s.front str
      console := if attached then s.console ++ str else s.console } := by
  rw [logbuffAppend]
  cases str with
  | nil =>
    have same : store s.logBuff s.front [] = s.logBuff := by
      funext _
      exact store_outside (lt_or_ge ..)
    rw [whileLoop_stops rfl, same]
    simp [Nat.mod_eq_of_lt front]
  | cons _ rest =>
    have chunk : min (rest.length + 1) (logBuffSize - s.front) = rest.length + 1 := by
      rw [length_cons] at fits
      omega
    simp [whileLoop, logbuffChunk, chunk]

theorem Log.Holds.append (holds : s.Holds bytes) (fits : bytes.length % logBuffSize + str.length ≤ logBuffSize)
    (console : List UInt8) :
    Log.Holds { front := (s.front + str.length) % logBuffSize, logBuff := store s.logBuff s.front str, console }
      (bytes ++ str) := by
  have kept := holds.kept
  refine ⟨by simp [holds.front], fun i below => ?_⟩
  simp only [length_append, logBuffSize, holds.front] at *
  by_cases new : i < str.length
  · have index : ((bytes.length % 32768 + str.length) % 32768 + 32768 - 1 - i) % 32768 - bytes.length % 32768 =
        bytes.length + str.length - 1 - i - bytes.length := by omega
    rw [getElem?_append_right (by omega), store, if_pos (by omega), index, getElem?_eq_getElem (by omega)]
    rfl
  · rw [getElem?_append_left (by omega), store_outside (by omega)]
    have older := kept (i - str.length) (by omega)
    have index : bytes.length + str.length - 1 - i = bytes.length - 1 - (i - str.length) := by omega
    rw [index, older]
    congr 2
    omega

/-- No message goes around the end of the ring that `total` bytes have been put in. -/
def Straights : Nat → List (Bool × List UInt8) → Prop
  | _, [] => True
  | total, (_, str) :: rest => total % logBuffSize + str.length ≤ logBuffSize ∧ Straights (total + str.length) rest

theorem logbuffAppends_holds {messages : List (Bool × List UInt8)} (holds : s.Holds bytes)
    (straights : Straights bytes.length messages) :
    ∃ s', logbuffAppends messages s = .ok s' ∧ s'.Holds (bytes ++ messages.flatMap Prod.snd) ∧
      s'.console = s.console ++ (messages.filter Prod.fst).flatMap Prod.snd := by
  induction messages generalizing s bytes with
  | nil => exact ⟨s, rfl, by simpa using holds, by simp⟩
  | cons message _ ih =>
    obtain ⟨attached, str⟩ := message
    obtain ⟨fits, straights⟩ := straights
    have front : s.front < logBuffSize := holds.front ▸ Nat.mod_lt _ (by decide)
    rw [logbuffAppends, logbuffAppend_straight _ front (holds.front ▸ fits)]
    obtain ⟨s', ran, after, console⟩ := ih (holds.append fits _) (by simpa using straights)
    refine ⟨s', ran, by simpa using after, console.trans ?_⟩
    cases attached <;> simp

def Log.init : Log := { front := 0, logBuff := fun _ => 0, console := [] }

theorem log_keeps_recent (messages : List (Bool × List UInt8)) (straights : Straights 0 messages) :
    ∃ s, logbuffAppends messages .init = .ok s ∧ s.Holds (messages.flatMap Prod.snd) ∧
      s.console = (messages.filter Prod.fst).flatMap Prod.snd := by
  have empty : Log.init.Holds [] := ⟨rfl, by simp⟩
  exact logbuffAppends_holds empty straights

theorem log_keeps_recent_two : ∃ s, logbuffAppends [(true, [10]), (false, [72, 105])] .init = .ok s ∧
    s.Holds [10, 72, 105] ∧ s.console = [10] :=
  log_keeps_recent [(true, [10]), (false, [72, 105])] ⟨by decide, by decide, trivial⟩

/-- Two bytes for the last cell and the first: the first byte goes into both, and
the console is given the message twice. -/
theorem log_repeats : ∃ s, logbuffAppends [(false, replicate 32767 46), (true, [72, 105])] .init = .ok s ∧
    s.logBuff 32767 = 72 ∧ s.logBuff 0 = 72 ∧ s.console = [72, 105, 72, 105] := by
  have fits : Log.init.front + (replicate 32767 (46 : UInt8)).length ≤ logBuffSize := by
    rw [length_replicate]
    decide
  rw [logbuffAppends, logbuffAppend_straight false (by decide) fits, length_replicate]
  generalize store Log.init.logBuff Log.init.front (replicate 32767 46) = cells
  simp [logbuffAppends, logbuffAppend, whileLoop, logbuffChunk, Log.init, logBuffSize, store]

end KOs.Common

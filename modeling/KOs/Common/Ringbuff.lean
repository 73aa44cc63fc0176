import KOs.Common.Fault
import KOs.Data.Circular
import KOs.Data.Word
import Mathlib.Data.Nat.Basic

namespace KOs.Common

open KOs.Data

/-! The ring buffer of `common/ringbuff.h`.

Addresses and amounts are 32-bit numbers.  The memory is shared with the buffers
of the callers; the ranges of the storage that `memcpy` is called on are recorded.
-/

structure RingbuffHead where
  start : Nat
  stop : Nat
  front : Nat
  back : Nat
deriving DecidableEq, Repr

structure Ringbuff where
  head : RingbuffHead
  memory : Nat → UInt8
  copied : List (Nat × Nat)

/-- `_do_ringbuff_init`, with the storage that `kmalloc` returned. -/
def doRingbuffInit (buff len typesize : Nat) : RingbuffHead where
  start := buff
  front := buff
  back := buff
  stop := wadd buff (wmul (wadd len 1) typesize)

def ringbuffChunksizeRead (rb : RingbuffHead) : Nat :=
  if rb.front ≤ rb.back then wsub rb.back rb.front
  else wsub rb.stop rb.front

def ringbuffChunksizeWrite (rb : RingbuffHead) (typesize : Nat) : Nat :=
  if rb.front ≤ rb.back then
    wsub (wsub rb.stop rb.back) (if rb.front = rb.start then typesize else 0)
  else wsub (wsub rb.front rb.back) typesize

def ringbuffAdvance (rb : RingbuffHead) (position amt line : Nat) : Except Fault Nat := do
  let moved := wadd position amt
  let moved := if moved = rb.stop then rb.start else moved
  bugOn (decide (rb.stop ≤ moved)) "inc/common/ringbuff.h" line
  return moved

def ringbuffAdvanceFront (rb : RingbuffHead) (amt : Nat) : Except Fault RingbuffHead := do
  let front ← ringbuffAdvance rb rb.front amt 96
  return { rb with front }

def ringbuffAdvanceBack (rb : RingbuffHead) (amt : Nat) : Except Fault RingbuffHead := do
  let back ← ringbuffAdvance rb rb.back amt 104
  return { rb with back }

def ringbuffIsEmpty (rb : RingbuffHead) : Bool := rb.front == rb.back

def ringbuffIsFull (rb : RingbuffHead) (typesize : Nat) : Bool := rb.front == wadd rb.back typesize

def ringbuffSpaceUsed (rb : RingbuffHead) (typesize : Nat) : Except Fault Nat := do
  let bytesLeft :=
    if rb.front ≤ rb.back then wsub rb.back rb.front
    else wadd (wsub rb.stop rb.front) (wsub rb.back rb.start)
  bugOn (bytesLeft % typesize != 0) "inc/common/ringbuff.h" 125
  return bytesLeft / typesize

def ringbuffSpaceLeft (rb : RingbuffHead) (typesize : Nat) : Except Fault Nat := do
  let bytesLeft :=
    if rb.back < rb.front then wsub rb.front rb.back
    else wadd (wsub rb.stop rb.back) (wsub rb.front rb.start)
  bugOn (bytesLeft % typesize != 0) "inc/common/ringbuff.h" 137
  return wsub (bytesLeft / typesize) 1

/-- The amount goes through an `ssize_t` and back. -/
def doRingbuffReadChunk (rb : Ringbuff) (buff len : Nat) : Except Fault (Ringbuff × Nat) := do
  let chunkLen := ringbuffChunksizeRead rb.head
  let amt := min len chunkLen
  let memory := copy rb.memory buff rb.head.front amt
  let head ← ringbuffAdvanceFront rb.head amt
  return ({ head, memory, copied := rb.copied ++ [(rb.head.front, amt)] }, amt)

def doRingbuffRead (rb : Ringbuff) (buff len : Nat) : Except Fault (Ringbuff × Int) := do
  let (rb, amt) ← doRingbuffReadChunk rb buff len
  if amt < len ∧ ¬ ringbuffIsEmpty rb.head then
    let (rb, more) ← doRingbuffReadChunk rb (wadd buff amt) (wsub len amt)
    return (rb, signed (wadd amt more))
  else return (rb, signed amt)

def doRingbuffWriteChunk (rb : Ringbuff) (buff len typesize : Nat) : Except Fault (Ringbuff × Nat) := do
  let chunkLen := ringbuffChunksizeWrite rb.head typesize
  let amt := min len chunkLen
  let memory := copy rb.memory rb.head.back buff amt
  let head ← ringbuffAdvanceBack rb.head amt
  return ({ head, memory, copied := rb.copied ++ [(rb.head.back, amt)] }, amt)

def doRingbuffWrite (rb : Ringbuff) (buff len typesize : Nat) : Except Fault (Ringbuff × Int) := do
  let (rb, amt) ← doRingbuffWriteChunk rb buff len typesize
  if amt < len ∧ ¬ ringbuffIsFull rb.head typesize then
    let (rb, more) ← doRingbuffWriteChunk rb (wadd buff amt) (wsub len amt) typesize
    return (rb, signed (wadd amt more))
  else return (rb, signed amt)

variable {len amt typesize : Nat}

section Parts

/-- A request, in two parts if there is more after the first one. -/
def inParts (chunk : Ringbuff → Nat → Nat → Except Fault (Ringbuff × Nat)) (ends : RingbuffHead → Bool) (rb : Ringbuff)
    (buff len : Nat) : Except Fault (Ringbuff × Int) := do
  let (rb, amt) ← chunk rb buff len
  if amt < len ∧ ¬ ends rb.head then
    let (rb, more) ← chunk rb (wadd buff amt) (wsub len amt)
    return (rb, signed (wadd amt more))
  else return (rb, signed amt)

variable {rb middle after : Ringbuff} {buff more : Nat} {ends : RingbuffHead → Bool}

theorem doRingbuffWrite_eq : doRingbuffWrite rb buff len typesize =
    inParts (doRingbuffWriteChunk · · · typesize) (ringbuffIsFull · typesize) rb buff len := rfl

variable {chunk : Ringbuff → Nat → Nat → Except Fault (Ringbuff × Nat)} (ran : chunk rb buff len = .ok (middle, amt))
include ran

theorem inParts_once (single : ¬ (amt < len ∧ ¬ ends middle.head)) (small : 2 * amt < wordSize) :
    inParts chunk ends rb buff len = .ok (middle, (amt : Int)) := by
  rw [inParts, ran]
  simp only [ok_bind]
  rw [if_neg single, signed_eq small]
  rfl

theorem inParts_twice (second : amt < len ∧ ¬ ends middle.head)
    (ran' : chunk middle (buff + amt) (len - amt) = .ok (after, more))
    (room : buff + len ≤ wordSize) (bounded : len < wordSize) (small : 2 * (amt + more) < wordSize) :
    inParts chunk ends rb buff len = .ok (after, ((amt + more : Nat) : Int)) := by
  have short := second.1
  rw [inParts, ran]
  simp only [bind, Except.bind]
  rw [if_pos second, wadd_eq (by omega), wsub_eq (short.le) bounded, ran']
  simp only [pure, Except.pure]
  rw [wadd_eq (by omega), signed_eq small]

end Parts

/-! The positions, as offsets into the storage.

One element always stays unused, so equal positions mean an empty buffer.
-/

structure Cursors (typesize size first used : Nat) (rb : RingbuffHead) : Prop where
  positive : 0 < typesize
  stop : rb.stop = rb.start + size
  bounded : rb.stop < wordSize
  inside : first < size
  front : rb.front = rb.start + first
  back : rb.back = rb.start + (first + used) % size
  gap : used + typesize ≤ size
  firstAligned : typesize ∣ first
  usedAligned : typesize ∣ used
  sizeAligned : typesize ∣ size

theorem dvd_min {divisor a b : Nat} (left : divisor ∣ a) (right : divisor ∣ b) : divisor ∣ min a b := by
  rcases Nat.le_total a b with le | le
  · rwa [min_eq_left le]
  · rwa [Nat.min_eq_right le]

namespace Cursors

variable {size first used : Nat} {rb : RingbuffHead}

section

variable (cursors : Cursors typesize size first used rb)
include cursors

theorem back_offset :
    (first + used) % size = if first + used < size then first + used else first + used - size :=
  mod_of_lt_two_mul (by
    have gap := cursors.gap
    have inside := cursors.inside
    omega)

theorem places : 0 < typesize ∧ used + typesize ≤ size ∧ first < size ∧ rb.start + size < wordSize ∧
    ((first + used) % size = first + used ∧ first + used < size ∨
      (first + used) % size = first + used - size ∧ size ≤ first + used) := by
  have offset := cursors.back_offset
  refine ⟨cursors.positive, cursors.gap, cursors.inside, cursors.stop ▸ cursors.bounded, ?_⟩
  split at offset <;> omega

theorem back_lt : (first + used) % size < size :=
  Nat.mod_lt _ (Nat.zero_lt_of_lt cursors.inside)

theorem first_cases : first = 0 ∨ typesize ≤ first := by
  rcases Nat.eq_zero_or_pos first with zero | pos
  · exact .inl zero
  · exact .inr (Nat.le_of_dvd pos cursors.firstAligned)

theorem readable_dvd (aligned : typesize ∣ len) :
    typesize ∣ min len (min used (size - first)) :=
  dvd_min aligned (dvd_min cursors.usedAligned (Nat.dvd_sub cursors.sizeAligned cursors.firstAligned))

theorem back_dvd : typesize ∣ (first + used) % size :=
  (Nat.dvd_mod_iff cursors.sizeAligned).mpr (Nat.dvd_add cursors.firstAligned cursors.usedAligned)

theorem writable_dvd (aligned : typesize ∣ len) :
    typesize ∣ min len (min (size - typesize - used) (size - (first + used) % size)) :=
  dvd_min aligned (dvd_min (Nat.dvd_sub (Nat.dvd_sub cursors.sizeAligned (Nat.dvd_refl _)) cursors.usedAligned)
    (Nat.dvd_sub cursors.sizeAligned cursors.back_dvd))

theorem chunksizeRead : ringbuffChunksizeRead rb = min used (size - first) := by
  rw [ringbuffChunksizeRead, cursors.front, cursors.back, cursors.stop]
  obtain ⟨pos, gap, inside, bounded, offset | offset⟩ := cursors.places
  · rw [if_pos (by omega), wsub_eq (by omega) (by omega)]
    omega
  · rw [if_neg (by omega), wsub_eq (by omega) bounded]
    omega

theorem chunksizeWrite :
    ringbuffChunksizeWrite rb typesize = min (size - typesize - used) (size - (first + used) % size) := by
  rw [ringbuffChunksizeWrite, cursors.front, cursors.back, cursors.stop]
  obtain ⟨pos, gap, inside, bounded, offset | offset⟩ := cursors.places
  · rw [if_pos (by omega), wsub_eq (by omega) bounded]
    -- with the front at the start the unused element is the last one of the storage
    rcases cursors.first_cases with zero | element
    · rw [if_pos (by omega), wsub_eq (by omega) (by omega)]
      omega
    · rw [if_neg (by omega), wsub_eq (by omega) (by omega)]
      omega
  · have between : wsub (rb.start + first) (rb.start + (first + used) % size) =
        first - (first + used) % size := by
      rw [wsub_eq (by omega) (by omega)]
      omega
    rw [if_neg (by omega), between, wsub_eq (by omega) (by omega)]
    omega

theorem advance {offset : Nat} (line : Nat) (inside : offset < size) (straight : offset + amt ≤ size) :
    ringbuffAdvance rb (rb.start + offset) amt line = .ok (rb.start + (offset + amt) % size) := by
  have bounded := cursors.bounded
  have stop := cursors.stop
  have moved : wadd (rb.start + offset) amt = rb.start + (offset + amt) := by rw [wadd_eq (by omega), add_assoc]
  rw [ringbuffAdvance, moved]
  by_cases around : offset + amt = size
  · rw [if_pos (by omega), around, Nat.mod_self, decide_eq_false (by omega)]
    rfl
  · rw [if_neg (by omega), Nat.mod_eq_of_lt (by omega), decide_eq_false (by omega)]
    rfl

theorem isEmpty_iff : ringbuffIsEmpty rb = true ↔ used = 0 := by
  have places := cursors.places
  rw [ringbuffIsEmpty, beq_iff_eq, cursors.front, cursors.back]
  omega

/-- The test misses the full buffer whose front is at the start. -/
theorem isFull_iff : ringbuffIsFull rb typesize = true ↔ used + typesize = size ∧ first ≠ 0 := by
  have places := cursors.places
  have lt := cursors.back_lt
  have room : (first + used) % size + typesize ≤ size := by
    obtain ⟨place, placed⟩ := cursors.back_dvd
    obtain ⟨count, counted⟩ := cursors.sizeAligned
    rw [placed, counted] at lt
    rw [placed, counted, ← Nat.mul_succ]
    exact Nat.mul_le_mul_left _ (Nat.lt_of_mul_lt_mul_left lt)
  rw [ringbuffIsFull, beq_iff_eq, cursors.front, cursors.back, wadd_eq (by omega)]
  omega

theorem spaceUsed : ringbuffSpaceUsed rb typesize = .ok (used / typesize) := by
  have bytes : (if rb.front ≤ rb.back then wsub rb.back rb.front
      else wadd (wsub rb.stop rb.front) (wsub rb.back rb.start)) = used := by
    rw [cursors.front, cursors.back, cursors.stop]
    obtain ⟨pos, gap, inside, bounded, offset | offset⟩ := cursors.places
    · rw [if_pos (by omega), wsub_eq (by omega) (by omega)]
      omega
    · rw [if_neg (by omega), wsub_eq (by omega) bounded, wsub_eq (by omega) (by omega), wadd_eq (by omega)]
      omega
  rw [ringbuffSpaceUsed, bytes, Nat.mod_eq_zero_of_dvd cursors.usedAligned]
  rfl

theorem spaceLeft : ringbuffSpaceLeft rb typesize = .ok (wsub ((size - used) / typesize) 1) := by
  have bytes : (if rb.back < rb.front then wsub rb.front rb.back
      else wadd (wsub rb.stop rb.back) (wsub rb.front rb.start)) = size - used := by
    rw [cursors.front, cursors.back, cursors.stop]
    obtain ⟨pos, gap, inside, bounded, offset | offset⟩ := cursors.places
    · rw [if_neg (by omega), wsub_eq (by omega) bounded, wsub_eq (by omega) (by omega), wadd_eq (by omega)]
      omega
    · rw [if_pos (by omega), wsub_eq (by omega) (by omega)]
      omega
  rw [ringbuffSpaceLeft, bytes, Nat.mod_eq_zero_of_dvd (Nat.dvd_sub cursors.sizeAligned cursors.usedAligned)]
  rfl

theorem advanceFront (available : amt ≤ used) (straight : first + amt ≤ size) (aligned : typesize ∣ amt) :
    ∃ after, ringbuffAdvanceFront rb amt = .ok after ∧ after.start = rb.start ∧
      Cursors typesize size ((first + amt) % size) (used - amt) after := by
  have moved := cursors.advance 96 cursors.inside straight
  rw [← cursors.front] at moved
  refine ⟨{ rb with front := rb.start + (first + amt) % size }, ?_, rfl, ?_⟩
  · rw [ringbuffAdvanceFront, moved]
    rfl
  · have pos : 0 < size := Nat.zero_lt_of_lt cursors.inside
    have back : ((first + amt) % size + (used - amt)) % size = (first + used) % size := by
      rw [Nat.mod_add_mod]
      congr 1
      omega
    exact { cursors with
      inside := Nat.mod_lt _ pos
      front := rfl
      back := by rw [back]; exact cursors.back
      gap := (Nat.add_le_add_right (Nat.sub_le _ _) _).trans cursors.gap
      firstAligned := (Nat.dvd_mod_iff cursors.sizeAligned).mpr (Nat.dvd_add cursors.firstAligned aligned)
      usedAligned := Nat.dvd_sub cursors.usedAligned aligned }

theorem advanceBack (available : used + amt + typesize ≤ size) (straight : (first + used) % size + amt ≤ size)
    (aligned : typesize ∣ amt) :
    ∃ after, ringbuffAdvanceBack rb amt = .ok after ∧ after.start = rb.start ∧
      Cursors typesize size first (used + amt) after := by
  have moved := cursors.advance 104 cursors.back_lt straight
  rw [← cursors.back, Nat.mod_add_mod] at moved
  refine ⟨{ rb with back := rb.start + (first + used + amt) % size }, ?_, rfl, ?_⟩
  · rw [ringbuffAdvanceBack, moved]
    rfl
  · exact { cursors with
      back := by rw [add_assoc]
      gap := available
      usedAligned := Nat.dvd_add cursors.usedAligned aligned }

end

end Cursors

end KOs.Common

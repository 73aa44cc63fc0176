import KOs.Common.Ringbuff

namespace KOs.Common

open KOs.Data Ringbuff

/-! The ring buffer as a bounded queue.

A request is split where the storage ends.  Below the bytes of the queue are
followed through both parts; the elements are looked at after that.
-/

def Apart (buff count : Nat) (rb : RingbuffHead) : Prop :=
  ∀ address, buff ≤ address → address < buff + count → address < rb.start ∨ rb.stop ≤ address

variable {buff : Nat}

variable {count : Nat} {rb : RingbuffHead}

theorem Apart.cases (apart : Apart buff count rb)
    (storage : rb.start < rb.stop) : count = 0 ∨ buff + count ≤ rb.start ∨ rb.stop ≤ buff := by
  by_contra _
  rcases Nat.le_total buff rb.start with before | inside
  · have _ := apart rb.start before (by omega)
    omega
  · have _ := apart buff le_rfl (by omega)
    omega

theorem Apart.part (apart : Apart buff count rb) {skip part : Nat}
    (within : skip + part ≤ count) : Apart (buff + skip) part rb := by
  intro address lower upper
  exact apart _ (by omega) (by omega)

theorem Apart.same {after : RingbuffHead} (apart : Apart buff count rb)
    (start : after.start = rb.start) (stop : after.stop = rb.stop) : Apart buff count after := by
  intro address lower upper
  rw [start, stop]
  exact apart _ lower upper

structure Ring (typesize size first : Nat) (rb : Ringbuff) (bytes : List UInt8) : Prop where
  cursors : Cursors typesize size first bytes.length rb.head
  circular : Circular rb.memory rb.head.start size first bytes
  copied : ∀ range ∈ rb.copied, rb.head.start ≤ range.1 ∧ range.1 + range.2 ≤ rb.head.stop

variable {amt : Nat}
variable {typesize len : Nat} {rb : Ringbuff}

namespace Ring

variable {size first : Nat} {bytes : List UInt8}
variable (ring : Ring typesize size first rb bytes)

section

include ring

theorem storage : rb.head.start < rb.head.stop := by
  have stop := ring.cursors.stop
  have inside := ring.cursors.inside
  omega

/-- A buffer beside the storage leaves no room for an amount with the sign bit. -/
theorem beside (room : buff + len ≤ wordSize) (apart : Apart buff len rb.head) : len = 0 ∨ len + size ≤ wordSize := by
  have stopOf := ring.cursors.stop
  have bounded := ring.cursors.bounded
  rcases apart.cases ring.storage with none | before | behind <;> omega

theorem min_lt : min len bytes.length < size := by
  have gap := ring.cursors.gap
  have pos := ring.cursors.positive
  omega

theorem len_lt (room : buff + len ≤ wordSize) (apart : Apart buff len rb.head) : len < wordSize := by
  have inside := ring.cursors.inside
  have pos := wordSize_positive
  rcases ring.beside room apart with none | some <;> omega

theorem amount_lt (room : buff + len ≤ wordSize) (apart : Apart buff len rb.head) (asked : amt ≤ len)
    (held : amt < size) :
    2 * amt < wordSize := by
  have pos := wordSize_positive
  rcases ring.beside room apart with none | some <;> omega

theorem memory_frame (memory : Nat → UInt8) (same : ∀ address, rb.head.start ≤ address → address < rb.head.stop →
      memory address = rb.memory address) :
    Ring typesize size first { rb with memory } bytes := by
  have stop := ring.cursors.stop
  have inside := ring.cursors.inside
  refine ⟨ring.cursors, ring.circular.frame (by omega) ?_, ring.copied⟩
  intro offset within
  exact same _ (Nat.le_add_right _ _) (by omega)

theorem copied_append {offset : Nat} (straight : offset + amt ≤ size) :
    ∀ range ∈ rb.copied ++ [(rb.head.start + offset, amt)],
      rb.head.start ≤ range.1 ∧ range.1 + range.2 ≤ rb.head.stop := by
  have stop := ring.cursors.stop
  intro range mem
  rcases List.mem_append.mp mem with old | new
  · exact ring.copied _ old
  · rw [List.mem_singleton.mp new]
    exact ⟨Nat.le_add_right _ _, by simp only; omega⟩

end

include ring

theorem readChunk (aligned : typesize ∣ len) (apart : Apart buff len rb.head)
    (least : amt = min len (min bytes.length (size - first))) :
    ∃ after, doRingbuffReadChunk rb buff len = .ok (after, amt) ∧
      Ring typesize size ((first + amt) % size) after (bytes.drop amt) ∧
      after.head.start = rb.head.start ∧ after.head.stop = rb.head.stop ∧
      span after.memory buff amt = bytes.take amt ∧
      ∀ address, address < buff ∨ buff + amt ≤ address → after.memory address = rb.memory address := by
  have cursors := ring.cursors
  have inside := cursors.inside
  have available : amt ≤ bytes.length := by omega
  have straight : first + amt ≤ size := by omega
  have amtAligned : typesize ∣ amt := least ▸ cursors.readable_dvd aligned
  obtain ⟨head, advanced, start, moved⟩ := cursors.advanceFront available straight amtAligned
  have stop : head.stop = rb.head.stop := by rw [moved.stop, start, cursors.stop]
  have copiedRange : (rb.head.front, amt) = (rb.head.start + first, amt) := by rw [cursors.front]
  refine ⟨{ head, memory := copy rb.memory buff rb.head.front amt,
            copied := rb.copied ++ [(rb.head.front, amt)] }, ?_, ?_, start, stop, ?_, ?_⟩
  · rw [doRingbuffReadChunk, cursors.chunksizeRead, ← least, advanced]
    rfl
  · -- the bytes still in the buffer are not where the copy went
    have kept : Circular (copy rb.memory buff rb.head.front amt) rb.head.start size first bytes := by
      refine ring.circular.frame (by omega) ?_
      intro offset within
      refine copy_outside ?_
      by_contra _
      have outside := apart (rb.head.start + offset) (by omega) (by omega)
      have stopOf := cursors.stop
      omega
    refine ⟨?_, ?_, ?_⟩
    · rwa [List.length_drop]
    · rw [start]
      exact kept.drop amt
    · rw [start, stop, copiedRange]
      exact ring.copied_append straight
  · rw [span_copy, cursors.front]
    exact ring.circular.take available straight
  · intro _ outside
    exact copy_outside outside

theorem read (aligned : typesize ∣ len) (room : buff + len ≤ wordSize)
    (apart : Apart buff len rb.head) (least : amt = min len bytes.length) :
    ∃ after first', doRingbuffRead rb buff len = .ok (after, (amt : Int)) ∧
      Ring typesize size first' after (bytes.drop amt) ∧
      after.head.start = rb.head.start ∧ span after.memory buff amt = bytes.take amt := by
  have cursors := ring.cursors
  have bounded := ring.len_lt room apart
  have small : 2 * amt < wordSize :=
    ring.amount_lt room apart (least ▸ min_le_left _ _) (least ▸ ring.min_lt)
  generalize least' : min len _ = amt'
  obtain ⟨middle, ran, ring', start, stop, taken, _⟩ := ring.readChunk aligned apart least'.symm
  by_cases second : amt' < len ∧ ¬ ringbuffIsEmpty middle.head
  · have apart' : Apart _ _ middle.head :=
      (apart.part ((Nat.add_sub_cancel' (Nat.le_of_lt second.1)).le)).same start stop
    have alignedRest : typesize ∣ len - amt' :=
      Nat.dvd_sub aligned (least' ▸ cursors.readable_dvd aligned)
    have total := two_parts (size - (first + amt') % size) least'.symm (by
      intro stopped
      have around : first + amt' = size := by
        rw [stopped]
        exact Nat.add_sub_cancel' (cursors.inside.le)
      rw [around, Nat.mod_self]
      exact (Nat.sub_le _ _).trans ((Nat.le_add_right _ _).trans cursors.gap))
    rw [← least, ← List.length_drop] at total
    generalize least'' :
      min (len - amt') _ = more at total
    obtain ⟨after, ran', ring'', start', _, taken', frame'⟩ :=
      ring'.readChunk alignedRest apart' least''.symm
    rw [List.drop_drop, total] at ring''
    subst total
    refine ⟨after, _, inParts_twice ran second ran' room bounded small, ring'', start'.trans start, ?_⟩
    have earlier : span after.memory buff amt' = span middle.memory buff amt' :=
      span_congr fun i within => frame' _ (.inl (Nat.add_lt_add_left within buff))
    rw [span_add, earlier, taken, taken', List.take_add]
  · have total : amt' = amt := by
      rw [least]
      refine two_parts_single least'.symm fun short => ?_
      have empty := ring'.cursors.isEmpty_iff.mp (not_not.mp fun other => second ⟨short, other⟩)
      rwa [List.length_drop] at empty
    subst total
    exact ⟨middle, _, inParts_once ran second small, ring', start, taken⟩

theorem writeChunk (buff : Nat) (aligned : typesize ∣ len)
    (least : amt = min len (min (size - typesize - bytes.length) (size - (first + bytes.length) % size))) :
    ∃ after, doRingbuffWriteChunk rb buff len typesize = .ok (after, amt) ∧
      Ring typesize size first after (bytes ++ span rb.memory buff amt) ∧
      after.head.start = rb.head.start ∧ after.head.stop = rb.head.stop ∧
      ∀ address, address < rb.head.start ∨ rb.head.stop ≤ address → after.memory address = rb.memory address := by
  have cursors := ring.cursors
  have gap := cursors.gap
  have lt := cursors.back_lt
  have stopOf := cursors.stop
  have available : bytes.length + amt + typesize ≤ size := by omega
  have straight : (first + bytes.length) % size + amt ≤ size := by omega
  have amtAligned : typesize ∣ amt := least ▸ cursors.writable_dvd aligned
  obtain ⟨head, advanced, start, moved⟩ := cursors.advanceBack available straight amtAligned
  have stop : head.stop = rb.head.stop := by rw [moved.stop, start, cursors.stop]
  refine ⟨{ head, memory := copy rb.memory rb.head.back buff amt,
            copied := rb.copied ++ [(rb.head.back, amt)] }, ?_, ⟨?_, ?_, ?_⟩, start, stop, ?_⟩
  · rw [doRingbuffWriteChunk, cursors.chunksizeWrite, ← least, advanced]
    rfl
  · rwa [List.length_append, span_length]
  · rw [start]
    refine ring.circular.append cursors.inside rfl (by rw [span_length]; omega) ?_ ?_ (by rw [span_length]; omega)
    · intro i item found
      obtain ⟨within, _⟩ := List.getElem?_eq_some_iff.mp found
      rw [span_length] at within
      rw [span_getElem? _ _ within] at found
      rw [← cursors.back]
      exact (copy_inside within).trans (Option.some.inj found)
    · intro _ outside
      rw [span_length] at outside
      refine copy_outside ?_
      rw [cursors.back]
      omega
  · rw [start, stop, cursors.back]
    exact ring.copied_append straight
  · intro _ _
    refine copy_outside ?_
    rw [cursors.back]
    omega

theorem write (aligned : typesize ∣ len) (room : buff + len ≤ wordSize)
    (apart : Apart buff len rb.head) (least : amt = min len (size - typesize - bytes.length)) :
    ∃ after, doRingbuffWrite rb buff len typesize = .ok (after, (amt : Int)) ∧
      Ring typesize size first after (bytes ++ span rb.memory buff amt) ∧
      after.head.start = rb.head.start := by
  have cursors := ring.cursors
  have bounded := ring.len_lt room apart
  have small : 2 * amt < wordSize := by
    refine ring.amount_lt room apart (least ▸ min_le_left _ _) ?_
    have gap := cursors.gap
    have some := cursors.positive
    omega
  generalize least' : min len _ = amt'
  obtain ⟨middle, ran, ring', start, _, frame⟩ := ring.writeChunk buff aligned least'.symm
  have used : (bytes ++ span rb.memory buff amt').length = bytes.length + amt' := by
    rw [List.length_append, span_length]
  by_cases second : amt' < len ∧ ¬ ringbuffIsFull middle.head typesize
  · have alignedRest : typesize ∣ len - amt' :=
      Nat.dvd_sub aligned (least' ▸ cursors.writable_dvd aligned)
    have total := two_parts (size - (first + (bytes.length + amt')) % size) least'.symm (by
      intro stopped
      have around : (first + bytes.length) % size + amt' = size := by
        rw [stopped]
        exact Nat.add_sub_cancel' (cursors.back_lt.le)
      rw [← add_assoc, ← Nat.mod_add_mod, around, Nat.mod_self, Nat.sub_sub, Nat.sub_sub]
      exact Nat.sub_le_sub_left (Nat.zero_le _) size)
    rw [← least, Nat.sub_sub _, ← used] at total
    generalize least'' : min _ (min _
      (size - (first + (bytes ++ span rb.memory buff amt').length) % size)) = more at total
    obtain ⟨after, ran', ring'', start', _⟩ :=
      ring'.writeChunk _ alignedRest least''.symm
    -- the rest of the data has not been touched by the first part
    have source : span middle.memory (buff + amt') more = span rb.memory (buff + amt') more := by
      refine span_congr fun i within => frame _ (apart _ ?_ ?_) <;> omega
    rw [source, List.append_assoc, ← span_add, total] at ring''
    subst total
    rw [doRingbuffWrite_eq]
    exact ⟨after, inParts_twice ran second ran' room bounded small, ring'', start'.trans start⟩
  · have total : amt' = amt := by
      rw [least]
      refine two_parts_single least'.symm fun short => ?_
      have full := ring'.cursors.isFull_iff.mp (not_not.mp fun other => second ⟨short, other⟩)
      omega
    subst total
    rw [doRingbuffWrite_eq]
    exact ⟨middle, inParts_once ran second small, ring', start⟩

end Ring

def bytesOf (elements : List (Vector UInt8 typesize)) : List UInt8 :=
  elements.flatMap Vector.toList

theorem bytesOf_length (elements : List (Vector UInt8 typesize)) :
    (bytesOf elements).length = elements.length * typesize := by
  induction elements with
  | nil => simp [bytesOf]
  | cons _ _ ih =>
    simp only [bytesOf, List.flatMap_cons, List.length_append, Vector.length_toList, List.length_cons, Nat.succ_mul] at ih ⊢
    omega

theorem bytesOf_append (elements added : List (Vector UInt8 typesize)) :
    bytesOf (elements ++ added) = bytesOf elements ++ bytesOf added :=
  List.flatMap_append

theorem bytesOf_take (elements : List (Vector UInt8 typesize)) (count : Nat) :
    bytesOf (elements.take count) = (bytesOf elements).take (count * typesize) := by
  have whole := bytesOf_append (elements.take count) (elements.drop count)
  rw [List.take_append_drop] at whole
  rcases Nat.le_total count elements.length with within | beyond
  · have length : (bytesOf (elements.take count)).length = count * typesize := by
      rw [bytesOf_length, List.length_take_of_le within]
    rw [whole, ← length, List.take_left']
    rfl
  · rw [List.take_of_length_le beyond, List.take_of_length_le]
    rw [bytesOf_length]
    exact Nat.mul_le_mul_right _ beyond

theorem bytesOf_drop (elements : List (Vector UInt8 typesize)) (count : Nat) :
    bytesOf (elements.drop count) = (bytesOf elements).drop (count * typesize) := by
  have whole := bytesOf_append (elements.take count) (elements.drop count)
  rw [List.take_append_drop, bytesOf_take] at whole
  have halves := List.take_append_drop (count * typesize) (bytesOf elements)
  exact List.append_cancel_left (whole.symm.trans halves.symm)

inductive Request (typesize : Nat) where
  | write (buff : Nat) (elements : List (Vector UInt8 typesize))
  | read (buff n : Nat)

structure Answer where
  amt : Int
  delivered : List UInt8
deriving DecidableEq, Repr

def Request.Proper (start stop : Nat) : Request typesize → Prop
  | .write buff elements => buff + elements.length * typesize ≤ wordSize ∧
      ∀ address, buff ≤ address → address < buff + elements.length * typesize →
        address < start ∨ stop ≤ address
  | .read buff n => buff + n * typesize ≤ wordSize ∧
      ∀ address, buff ≤ address → address < buff + n * typesize → address < start ∨ stop ≤ address

/-- `ringbuff_write` of elements that the caller has put into its buffer, and
`ringbuff_read` with what the caller then finds there. -/
def Ringbuff.request (rb : Ringbuff) : Request typesize → Except Fault (Ringbuff × Answer)
  | .write buff elements => do
      let memory := store rb.memory buff (bytesOf elements)
      let (rb, amt) ← doRingbuffWrite { rb with memory } buff (wmul elements.length typesize) typesize
      return (rb, { amt, delivered := [] })
  | .read buff n => do
      let (rb, amt) ← doRingbuffRead rb buff (wmul n typesize)
      return (rb, { amt, delivered := span rb.memory buff amt.toNat })

def Ringbuff.requests (rb : Ringbuff) : List (Request typesize) → Except Fault (Ringbuff × List Answer)
  | [] => .ok (rb, [])
  | request :: rest => do
      let (rb, answer) ← rb.request request
      let (rb, answers) ← rb.requests rest
      return (rb, answer :: answers)

def fifoRequest (len : Nat) (queue : List (Vector UInt8 typesize)) :
    Request typesize → List (Vector UInt8 typesize) × Answer
  | .write _ elements =>
      let stored := min elements.length (len - queue.length)
      (queue ++ elements.take stored, { amt := (stored * typesize : Nat), delivered := [] })
  | .read _ n =>
      let returned := min n queue.length
      (queue.drop returned,
        { amt := (returned * typesize : Nat), delivered := bytesOf (queue.take returned) })

def fifoRequests (len : Nat) (queue : List (Vector UInt8 typesize)) :
    List (Request typesize) → List (Vector UInt8 typesize) × List Answer
  | [] => (queue, [])
  | request :: rest =>
      let (queue, answer) := fifoRequest len queue request
      let (queue, answers) := fifoRequests len queue rest
      (queue, answer :: answers)

/-- The buffer of `len` elements at `start` holds the elements of the queue. -/
structure Queues (typesize len start : Nat) (rb : Ringbuff) (queue : List (Vector UInt8 typesize)) : Prop where
  start : rb.head.start = start
  ring : ∃ first, Ring typesize ((len + 1) * typesize) first rb (bytesOf queue)

namespace Queues

variable {start : Nat} {queue : List (Vector UInt8 typesize)}
variable (queues : Queues typesize len start rb queue)

section

include queues

theorem stop :
    rb.head.stop = start + (len + 1) * typesize := by
  obtain ⟨first, ring⟩ := queues.ring
  rw [ring.cursors.stop, queues.start]

theorem capacity : queue.length ≤ len := by
  obtain ⟨first, ring⟩ := queues.ring
  have gap := ring.cursors.gap
  rw [bytesOf_length, Nat.succ_mul] at gap
  exact Nat.le_of_mul_le_mul_right (Nat.le_of_add_le_add_right gap) ring.cursors.positive

theorem spaceUsed :
    ringbuffSpaceUsed rb.head typesize = .ok queue.length := by
  obtain ⟨first, ring⟩ := queues.ring
  rw [ring.cursors.spaceUsed, bytesOf_length, Nat.mul_div_left _ ring.cursors.positive]

theorem spaceLeft :
    ringbuffSpaceLeft rb.head typesize = .ok (len - queue.length) := by
  have capacity := queues.capacity
  obtain ⟨first, ring⟩ := queues.ring
  have pos := ring.cursors.positive
  have bound := ring.cursors.bounded
  have elements : len + 1 ≤ (len + 1) * typesize := Nat.le_mul_of_pos_right _ pos
  rw [ring.cursors.stop] at bound
  rw [ring.cursors.spaceLeft, bytesOf_length, ← Nat.sub_mul, Nat.mul_div_left _ pos, wsub_eq (by omega) (by omega)]
  congr 1
  omega

end

theorem init (buff len : Nat) (memory : Nat → UInt8) (pos : 0 < typesize)
    (fits : buff + (len + 1) * typesize < wordSize) :
    Queues typesize len buff { head := doRingbuffInit buff len typesize, memory, copied := [] } [] := by
  have element : len + 1 ≤ (len + 1) * typesize := Nat.le_mul_of_pos_right _ pos
  have stop : (doRingbuffInit buff len typesize).stop = buff + (len + 1) * typesize := by
    have plusOne : wadd len 1 = len + 1 := wadd_eq (by omega)
    have product : wmul (len + 1) typesize = (len + 1) * typesize := wmul_eq (by omega)
    rw [doRingbuffInit, plusOne, product]
    exact wadd_eq fits
  refine ⟨rfl, 0, ?_, circular_nil _ _ _ _, ?_⟩
  · exact {
      positive := pos
      stop
      bounded := by rw [stop]; exact fits
      inside := by omega
      front := rfl
      back := by
        show buff = buff + (0 + 0) % _
        rfl
      gap := by
        rw [Nat.succ_mul]
        exact Nat.add_le_add_right (Nat.zero_le _) _
      firstAligned := Nat.dvd_zero _
      usedAligned := Nat.dvd_zero _
      sizeAligned := Nat.dvd_mul_left _ _ }
  · intro _ mem
    contradiction

section

include queues

theorem write {elements : List (Vector UInt8 typesize)}
    (proper : (Request.write buff elements).Proper start (start + (len + 1) * typesize)) :
    ∃ after, rb.request (.write buff elements) = .ok (after, (fifoRequest len queue (.write buff elements)).2) ∧
      Queues typesize len start after (fifoRequest len queue (.write buff elements)).1 := by
  obtain ⟨room, apart⟩ := proper
  obtain ⟨first, ring⟩ := queues.ring
  rw [← queues.stop, ← queues.start] at apart
  have length : elements.length * typesize = (bytesOf elements).length := (bytesOf_length _).symm
  have filled := ring.memory_frame (store rb.memory buff (bytesOf elements)) (by
    intro address lower upper
    refine store_outside ?_
    by_contra _
    have outside := apart address (by omega) (by omega)
    omega)
  have product : wmul elements.length typesize = elements.length * typesize :=
    wmul_eq (ring.len_lt room apart)
  have least : min elements.length (len - queue.length) * typesize =
      min (elements.length * typesize) ((len + 1) * typesize - typesize - (bytesOf queue).length) := by
    rw [bytesOf_length, Nat.succ_mul, Nat.add_sub_cancel, ← Nat.sub_mul, Nat.mul_min_mul_right]
  obtain ⟨after, ran, ring', start'⟩ := filled.write (Nat.dvd_mul_left _ _) room apart least
  refine ⟨after, ?_, start'.trans queues.start, first, ?_⟩
  · rw [request, product, ran]
    rfl
  · have taken : span (store rb.memory buff (bytesOf elements)) buff
        (min elements.length (len - queue.length) * typesize) =
        bytesOf (elements.take (min elements.length (len - queue.length))) := by
      rw [bytesOf_take, ← span_take _ _ (Nat.mul_le_mul_right _ (min_le_left _ _)), length, span_store]
    rw [fifoRequest, bytesOf_append, ← taken]
    exact ring'

theorem read {n : Nat} (proper : (Request.read buff n : Request typesize).Proper start (start + (len + 1) * typesize)) :
    ∃ after, rb.request (.read buff n : Request typesize) = .ok (after, (fifoRequest len queue (.read buff n)).2) ∧
      Queues typesize len start after (fifoRequest len queue (.read buff n)).1 := by
  obtain ⟨room, apart⟩ := proper
  obtain ⟨first, ring⟩ := queues.ring
  rw [← queues.stop, ← queues.start] at apart
  have product : wmul n typesize = n * typesize := wmul_eq (ring.len_lt room apart)
  have least : min n queue.length * typesize = min (n * typesize) (bytesOf queue).length := by
    rw [bytesOf_length, Nat.mul_min_mul_right]
  obtain ⟨after, first', ran, ring', start', delivered⟩ :=
    ring.read (Nat.dvd_mul_left _ _) room apart least
  refine ⟨after, ?_, start'.trans queues.start, first', ?_⟩
  · rw [request, product, ran, fifoRequest, bytesOf_take, ← delivered]
    rfl
  · rw [fifoRequest, bytesOf_drop]
    exact ring'

theorem request (asked : Request typesize) (proper : asked.Proper start (start + (len + 1) * typesize)) :
    ∃ after, rb.request asked = .ok (after, (fifoRequest len queue asked).2) ∧
      Queues typesize len start after (fifoRequest len queue asked).1 := by
  cases asked with
  | write => exact queues.write proper
  | read => exact queues.read proper

theorem requests (asked : List (Request typesize))
    (proper : ∀ request ∈ asked, request.Proper start (start + (len + 1) * typesize)) :
    ∃ after, rb.requests asked = .ok (after, (fifoRequests len queue asked).2) ∧
      Queues typesize len start after (fifoRequests len queue asked).1 := by
  induction asked generalizing rb queue with
  | nil => exact ⟨rb, rfl, queues⟩
  | cons first _ ih =>
    obtain ⟨middle, ran, queues'⟩ := queues.request first (proper first List.mem_cons_self)
    obtain ⟨after, ran', queues''⟩ :=
      ih queues' fun request mem => proper request (List.mem_cons_of_mem _ mem)
    refine ⟨after, ?_, queues''⟩
    rw [requests, ran]
    simp only [ok_bind]
    rw [ran']
    rfl

theorem inside :
    (start ≤ rb.head.front ∧ rb.head.front < start + (len + 1) * typesize) ∧
    (start ≤ rb.head.back ∧ rb.head.back < start + (len + 1) * typesize) ∧
    ∀ range ∈ rb.copied, start ≤ range.1 ∧ range.1 + range.2 ≤ start + (len + 1) * typesize := by
  obtain ⟨first, ring⟩ := queues.ring
  have inside := ring.cursors.inside
  have back := ring.cursors.back_lt
  refine ⟨?_, ?_, ?_⟩
  · rw [ring.cursors.front, queues.start]
    omega
  · rw [ring.cursors.back, queues.start]
    omega
  · intro range mem
    rw [← queues.stop, ← queues.start]
    exact ring.copied _ mem

end

end Queues

/-- Every run of reads and writes answers as the bounded queue does, and the
buffer then holds what the queue holds. -/
theorem ringbuff_bounded_fifo (typesize len buff : Nat) (memory : Nat → UInt8) (positive : 1 ≤ typesize)
    (fits : buff + (len + 1) * typesize < 2 ^ 32) (asked : List (Request typesize))
    (proper : ∀ request ∈ asked, request.Proper buff (buff + (len + 1) * typesize)) :
    ∃ rb : Ringbuff, Ringbuff.requests { head := doRingbuffInit buff len typesize, memory, copied := [] } asked =
        .ok (rb, (fifoRequests len [] asked).2) ∧
      Queues typesize len buff rb (fifoRequests len [] asked).1 ∧
      (buff ≤ rb.head.front ∧ rb.head.front < buff + (len + 1) * typesize) ∧
      (buff ≤ rb.head.back ∧ rb.head.back < buff + (len + 1) * typesize) ∧
      ∀ range ∈ rb.copied, buff ≤ range.1 ∧ range.1 + range.2 ≤ buff + (len + 1) * typesize := by
  have start := Queues.init buff len memory positive fits
  obtain ⟨rb, ran, queues⟩ := start.requests asked proper
  exact ⟨rb, ran, queues, queues.inside⟩

theorem ringbuff_bounded_fifo_three :
    ∃ rb answers, Ringbuff.requests { head := doRingbuffInit 16 3 1, memory := fun _ => 0, copied := [] }
        [.write 64 [#v[1], #v[2], #v[3], #v[4], #v[5]], .read 128 2, .write 64 [#v[6], #v[7]], .read 128 9] =
          .ok (rb, answers) ∧
      answers = [{ amt := 3, delivered := [] }, { amt := 2, delivered := [1, 2] },
        { amt := 2, delivered := [] }, { amt := 3, delivered := [3, 6, 7] }] := by
  obtain ⟨rb, ran, _⟩ := ringbuff_bounded_fifo 1 3 16 (fun _ => 0) (by decide) (by decide)
    [.write 64 [#v[1], #v[2], #v[3], #v[4], #v[5]], .read 128 2, .write 64 [#v[6], #v[7]], .read 128 9]
    (by
      intro request mem
      simp only [List.mem_cons, List.not_mem_nil, or_false] at mem
      rcases mem with rfl | rfl | rfl | rfl <;>
        exact ⟨by decide, fun address lower upper => Or.inr (Nat.le_trans (by decide) lower)⟩)
  exact ⟨rb, _, ran, rfl⟩

/-! The observers, and `keybuff_append` of `driver/console/keyboard.c`. -/

/-- The address is that of `code` on the stack. -/
def keybuffAppend (keyrb : Ringbuff) (address : Nat) (code : UInt8) : Except Fault (Ringbuff × Answer) :=
  if ringbuffIsFull keyrb.head 1 then .error (.panicf "keybuff full" [])
  else keyrb.request (.write address [#v[code]])

/-- The observers agree with each other and with a write of one element. -/
structure Observed (typesize len : Nat) (rb : Ringbuff) : Prop where
  full : ringbuffIsFull rb.head typesize = true ↔ ringbuffSpaceLeft rb.head typesize = .ok 0
  stores : ∀ buff (element : Vector UInt8 typesize), (Request.write buff [element]).Proper rb.head.start rb.head.stop →
    ∃ after amt, rb.request (.write buff [element]) = .ok (after, { amt, delivered := [] }) ∧
      (ringbuffSpaceLeft rb.head typesize = .ok 0 ↔ amt = 0)
  empty : ringbuffIsEmpty rb.head = true ↔ ringbuffSpaceUsed rb.head typesize = .ok 0
  total : ∃ used left, ringbuffSpaceUsed rb.head typesize = .ok used ∧
    ringbuffSpaceLeft rb.head typesize = .ok left ∧ used + left = len
  appends : typesize = 1 → ∀ address code, (Request.write address [#v[code]]).Proper rb.head.start rb.head.stop →
    keybuffAppend rb address code = .error (.panicf "keybuff full" []) ∨
      ∃ after, keybuffAppend rb address code = .ok (after, { amt := 1, delivered := [] })

def Straight (typesize : Nat) (rb : RingbuffHead) : Prop :=
  rb.front = rb.start ∧ rb.back + typesize = rb.stop

theorem Queues.full_iff {start : Nat} {queue : List (Vector UInt8 typesize)}
    (queues : Queues typesize len start rb queue) :
    (Straight typesize rb.head → queue.length = len ∧ ringbuffIsFull rb.head typesize = false) ∧
      (¬ Straight typesize rb.head → (ringbuffIsFull rb.head typesize = true ↔ queue.length = len)) := by
  obtain ⟨first, ring⟩ := queues.ring
  have places := ring.cursors.places
  have bytes : queue.length = len ↔ (bytesOf queue).length + typesize = (len + 1) * typesize := by
    rw [bytesOf_length, Nat.succ_mul, Nat.add_right_cancel_iff, Nat.mul_left_inj (by omega)]
  rw [← Bool.not_eq_true, ring.cursors.isFull_iff, bytes, Straight, ring.cursors.front, ring.cursors.back,
    ring.cursors.stop]
  omega

theorem Queues.observed {start : Nat} {queue : List (Vector UInt8 typesize)}
    (queues : Queues typesize len start rb queue) (apart : ¬ Straight typesize rb.head) :
    Observed typesize len rb := by
  have left := queues.spaceLeft
  have capacity := queues.capacity
  have full := queues.full_iff.2 apart
  have none : ringbuffSpaceLeft rb.head typesize = .ok 0 ↔ queue.length = len := by
    rw [left, Except.ok.injEq]
    omega
  obtain ⟨first, ring⟩ := queues.ring
  have pos := ring.cursors.positive
  refine ⟨full.trans none.symm, fun buff element proper => ?_, ?_,
    ⟨queue.length, _, queues.spaceUsed, left, by omega⟩, fun bytes address code proper => ?_⟩
  · rw [queues.start, queues.stop] at proper
    obtain ⟨after, ran, _⟩ := queues.write proper
    refine ⟨after, _, ran, none.trans ?_⟩
    rw [Int.natCast_eq_zero, Nat.mul_eq_zero, List.length_singleton]
    omega
  · rw [ring.cursors.isEmpty_iff, queues.spaceUsed, bytesOf_length, Except.ok.injEq, Nat.mul_eq_zero]
    omega
  · subst bytes
    rw [queues.start, queues.stop] at proper
    obtain ⟨after, ran, _⟩ := queues.write proper
    rw [keybuffAppend]
    split
    case isTrue => exact .inl rfl
    case isFalse room =>
      have below : queue.length ≠ len := fun filled => room (full.mpr filled)
      have stored : min 1 (len - queue.length) = 1 := by omega
      rw [ran, fifoRequest, List.length_singleton, stored]
      exact .inr ⟨after, rfl⟩

/-- In every state that is reached they agree, except with the last slot filled
while nothing has been read from the first. -/
theorem ringbuff_observed_iff (typesize len buff : Nat) (memory : Nat → UInt8) (positive : 1 ≤ typesize)
    (fits : buff + (len + 1) * typesize < 2 ^ 32) (asked : List (Request typesize))
    (proper : ∀ request ∈ asked, request.Proper buff (buff + (len + 1) * typesize)) :
    ∃ rb answers, Ringbuff.requests { head := doRingbuffInit buff len typesize, memory, copied := [] } asked =
        .ok (rb, answers) ∧
      (Observed typesize len rb ↔ ¬ Straight typesize rb.head) := by
  obtain ⟨rb, ran, queues⟩ := (Queues.init buff len memory positive fits).requests asked proper
  refine ⟨rb, _, ran, fun observed straight => ?_, queues.observed⟩
  obtain ⟨filled, unseen⟩ := queues.full_iff.1 straight
  have full := observed.full.mpr (by rw [queues.spaceLeft, filled, Nat.sub_self])
  rw [unseen] at full
  exact Bool.false_ne_true full

theorem ringbuff_observed_two : ∃ rb answers, Ringbuff.requests
      { head := doRingbuffInit 16 3 1, memory := fun _ => 0, copied := [] }
      [.write 64 [#v[1], #v[2], #v[3]], .read 128 1] = .ok (rb, answers) ∧
    (Observed 1 3 rb ↔ ¬ Straight 1 rb.head) :=
  ringbuff_observed_iff 1 3 16 (fun _ => 0) (by decide) (by decide) _ (by
    intro request mem
    simp only [List.mem_cons, List.not_mem_nil, or_false] at mem
    rcases mem with rfl | rfl <;>
      exact ⟨by decide, fun address lower upper => Or.inr (Nat.le_trans (by decide) lower)⟩)

/-- The hundredth key is dropped: the buffer of `KEYBUFFLEN` bytes has no room
and does not call itself full. -/
theorem keybuff_drops : (do
      let (keyrb, _) ← Ringbuff.requests { head := doRingbuffInit 16 99 1, memory := fun _ => 0, copied := [] }
        [.write 256 (List.replicate 99 #v[30])]
      let (_, answer) ← keybuffAppend keyrb 256 30
      return (ringbuffIsFull keyrb.head 1, (ringbuffSpaceLeft keyrb.head 1).toOption, answer.amt)) =
    Except.ok (false, some 0, 0) := by
  decide +kernel

end KOs.Common

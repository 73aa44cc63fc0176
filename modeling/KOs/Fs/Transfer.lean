import KOs.Fs.Contents

namespace KOs.Fs

open KOs.Common KOs.Data List Option

variable {r : Record} {contents : List UInt8} {file : Handle} {len off : Nat}

variable {c : Chunk}

theorem chunkRead_eq (len : Nat) (inside : off ≤ c.used) (small : c.used < wordSize) :
    chunkRead c len off = .ok (span c.buff off (min (c.used - off) len)) := by
  have check : decide (c.used < off) = false := decide_eq_false (by omega)
  rw [chunkRead, check, wsub_eq inside small]
  rfl

variable {reading : Reading}

theorem readTurn_eq {c : Nat} {chunk : Chunk} {bytes : List UInt8} (here : reading.c = some c)
    (found : r.chunks[c]? = some chunk)
    (ran : chunkRead chunk (wsub len reading.amt) (wadd off reading.amt % chunkSize) = .ok bytes) :
    readTurn r len off reading = .ok
      { amt := wadd reading.amt bytes.length
        c := listNext r.chunks c
        cursor :=
          if wsub len (wadd reading.amt bytes.length) = 0 then
            cursorAfter r.chunks c (wadd off (wadd reading.amt bytes.length))
          else reading.cursor
        buff := reading.buff ++ bytes } := by
  have inner : listIsLast c = false := rfl
  simp only [readTurn, here, chunkAt, found, inner, Bool.or_false, decide_eq_true_eq]
  change (chunkRead chunk _ _).bind _ = _
  rw [ran]
  rfl

structure ReadSoFar (chunks : List Chunk) (contents : List UInt8) (len off : Nat) (reading : Reading) : Prop where
  amount : reading.amt ≤ len
  inside : off + reading.amt ≤ contents.length
  buff : reading.buff = (contents.drop off).take reading.amt
  place :
    reading.amt = len ∧ reading.cursor = cursorAt chunks.length (off + len) ∨
    reading.amt < len ∧ reading.cursor = cursorAt chunks.length off ∧
      (reading.c = some ((off + reading.amt) / chunkSize) ∧ (off + reading.amt) / chunkSize < chunks.length ∨
        reading.c = none ∧ off + reading.amt = contents.length)

def Reading.left (chunks : List Chunk) (reading : Reading) : Nat :=
  reading.c.elim 0 (chunks.length - ·)

variable {chunks : List Chunk} {position : Nat}

theorem Holds.chunk (holds : Holds chunks contents) (inside : position ≤ contents.length)
    (here : position / chunkSize < chunks.length) :
    ∃ c, chunks[position / chunkSize]? = some c ∧ position % chunkSize ≤ c.used ∧ c.used ≤ chunkSize ∧
      position / chunkSize * chunkSize + c.used ≤ contents.length ∧
      (position / chunkSize + 1 < chunks.length → c.used = chunkSize) ∧
      (chunks.length = position / chunkSize + 1 → contents.length = position / chunkSize * chunkSize + c.used) := by
  have found := getElem?_eq_getElem here
  have place := Nat.div_add_mod' position chunkSize
  have below := Nat.mod_lt position chunkSize_positive
  have filled := Paged.filled holds _ here
  rw [usedAt_eq found] at filled
  refine ⟨_, found, by omega, by omega, by omega, ?_, ?_⟩
  · exact (filled_of_holds holds).full _ _ found
  · intro last
    have reach := holds.reach
    rw [last, Nat.succ_mul] at reach
    omega

section

variable (holds : Holds r.chunks contents) (small : contents.length < wordSize) (word : len < wordSize)
include holds small word

theorem readTurn_exists
    {c : Nat} {chunk : Chunk} (here : reading.c = some c) (place : c = (off + reading.amt) / chunkSize)
    (found : r.chunks[c]? = some chunk) (short : reading.amt ≤ len) (inside : off + reading.amt ≤ contents.length)
    (offset : (off + reading.amt) % chunkSize ≤ chunk.used) (within : c * chunkSize + chunk.used ≤ contents.length) :
    ∃ amount, PageStep chunkSize (off + reading.amt) chunk.used (len - reading.amt) amount ∧
      readTurn r len off reading = .ok
        { amt := reading.amt + amount
          c := listNext r.chunks c
          cursor :=
            if len - (reading.amt + amount) = 0 then cursorAfter r.chunks c (off + (reading.amt + amount))
            else reading.cursor
          buff := reading.buff ++ (contents.drop (off + reading.amt)).take amount } := by
  subst place
  have wrapped : wadd off reading.amt = off + reading.amt := wadd_eq (by omega)
  have step := pageStep offset (len - reading.amt)
  have bytes := chunkRead_eq (len - reading.amt) offset (by omega)
  generalize min _ (len - reading.amt) = amount at step bytes
  have asked := step.asked
  have reached := step.inside
  have split := Nat.div_add_mod' (off + reading.amt) chunkSize
  have wholly : (off + reading.amt) % chunkSize + amount ≤ usedAt r.chunks ((off + reading.amt) / chunkSize) := by
    rw [usedAt_eq found]
    omega
  have read := holds.read (List.getElem?_eq_some_iff.mp found).1 wholly
  rw [buffAt_eq found, Nat.div_add_mod'] at read
  rw [read] at bytes
  have length : ((contents.drop (off + reading.amt)).take amount).length = amount := by
    rw [List.length_take_of_le]
    rw [List.length_drop]
    omega
  have turned := readTurn_eq here found (by rw [wrapped, wsub_eq short word]; exact bytes)
  rw [length, wadd_eq (by omega), wsub_eq (by omega) word, wadd_eq (by omega)] at turned
  exact ⟨amount, step, turned⟩

theorem readTurn_step (soFar : ReadSoFar r.chunks contents len off reading) (goes : readGoes len reading = true) :
    ∃ next, readTurn r len off reading = .ok next ∧ ReadSoFar r.chunks contents len off next ∧
      next.left r.chunks < reading.left r.chunks := by
  obtain ⟨amount, inside, buff, place⟩ := soFar
  obtain ⟨more, entered⟩ := Bool.and_eq_true_iff.mp goes
  rw [wsub_eq amount word, bne_iff_ne] at more
  rcases place with ⟨done, _⟩ | ⟨_, cursor, ⟨here, page⟩ | ⟨behind, _⟩⟩
  · omega
  · -- one more chunk is read, to its end or to the end of the request
    obtain ⟨chunk, found, offset, within, used, full, last⟩ := holds.chunk inside page
    obtain ⟨n, step, turned⟩ := readTurn_exists holds small word here rfl found amount inside offset used
    have starts := Nat.div_mul_le_self (off + reading.amt) chunkSize
    obtain ⟨asked, reached, reaches⟩ := step
    refine ⟨_, turned, ⟨by simp only; omega, by simp only; omega, ?_, ?_⟩, ?_⟩
    · simp only
      rw [buff, take_add, drop_drop]
    · simp only
      by_cases complete : reading.amt + n = len
      · left
        refine ⟨complete, ?_⟩
        rw [if_pos (by omega), complete]
        exact cursorAfter_eq page (by omega) (by omega)
      · right
        have ends := reaches (by omega)
        rw [if_neg (by omega), listNext_eq]
        refine ⟨by omega, cursor, ?_⟩
        by_cases next : (off + reading.amt) / chunkSize + 1 < r.chunks.length
        · have edge : off + (reading.amt + n) = ((off + reading.amt) / chunkSize + 1) * chunkSize := by
            rw [Nat.succ_mul, ← add_assoc, ends, full next]
          left
          rw [if_pos next, edge, Nat.mul_div_cancel _ chunkSize_positive]
          exact ⟨rfl, next⟩
        · right
          exact ⟨if_neg next, by omega⟩
    · simp only [Reading.left, here, listNext_eq]
      split
      · simp only [elim_some]
        omega
      · simp only [elim_some, elim_none]
        omega
  · rw [behind] at entered
    contradiction

theorem readLoop_exists (inside : off ≤ contents.length) (page : off / chunkSize < r.chunks.length) :
    ∃ final, whileLoop (readGoes len) (readTurn r len off) Fault.unfinished (r.chunks.length + 1)
        { amt := 0, c := some (off / chunkSize), cursor := some (off / chunkSize), buff := [] } = .ok final ∧
      final.amt = min len (contents.length - off) ∧
      final.buff = (contents.drop off).take final.amt ∧
      final.cursor = cursorAt r.chunks.length (if off + len ≤ contents.length then off + len else off) := by
  have cursor : some (off / chunkSize) = cursorAt r.chunks.length off := by rw [cursorAt, if_pos page]
  have initial : ReadSoFar r.chunks contents len off
      { amt := 0, c := some (off / chunkSize), cursor := some (off / chunkSize), buff := [] } := by
    refine ⟨Nat.zero_le _, inside, by simp, ?_⟩
    rcases Nat.eq_zero_or_pos len with rfl | pos
    · exact .inl ⟨rfl, cursor⟩
    · exact .inr ⟨pos, cursor, .inl ⟨rfl, page⟩⟩
  obtain ⟨final, ran, ⟨amount, within, buff, place⟩, stopped⟩ :=
    whileLoop_exists _ initial (Nat.lt_succ_of_le (Nat.sub_le _ _))
      fun reading soFar goes => readTurn_step holds small word soFar goes
  refine ⟨final, ran, ?_⟩
  rcases place with ⟨met, tracked⟩ | ⟨short, kept, ⟨here, _⟩ | ⟨_, ends⟩⟩
  · rw [if_pos (by omega)]
    exact ⟨by omega, buff, tracked⟩
  · -- the loop would go on
    rw [readGoes, here, wsub_eq amount word, isSome_some, Bool.and_true, bne_eq_false_iff_eq] at stopped
    omega
  · rw [if_neg (by omega)]
    exact ⟨by omega, buff, kept⟩

/-- A read returns what is between the offset and the end, as far as it is asked for.
The chunk follows only when the request is met. -/
theorem ramfsFileRead_eq (tracks : Tracks r.chunks contents.length file) :
    ramfsFileRead r file len = .ok
      ({ cursor := cursorAt r.chunks.length
          (if file.offset + len ≤ contents.length then file.offset + len else file.offset)
         offset := file.offset + min len (contents.length - file.offset) },
        signed (min len (contents.length - file.offset)), (contents.drop file.offset).take len) := by
  have inside := tracks.inside
  by_cases page : file.offset / chunkSize < r.chunks.length
  · have cursor : file.cursor = some (file.offset / chunkSize) := by rw [tracks.cursor, cursorAt, if_pos page]
    obtain ⟨final, ran, amount, buff, after⟩ := readLoop_exists holds small word inside page
    have bytes : final.buff = (contents.drop file.offset).take len := by
      rw [buff, amount, ← length_drop, ← take_eq_take_min]
    simp only [ramfsFileRead, recordRead, cursor]
    rw [ran]
    change Except.ok _ = _
    rw [after, bytes, amount, wadd_eq (by omega)]
  · -- behind the last chunk there is nothing to read
    have cursor : file.cursor = none := by rw [tracks.cursor, cursorAt, if_neg page]
    have ends : file.offset = contents.length := by
      have reach := holds.reach
      have place := Nat.div_add_mod' file.offset chunkSize
      have scaled := Nat.mul_le_mul_right chunkSize (not_lt.mp page)
      omega
    have nothing : min len (contents.length - file.offset) = 0 := by omega
    have chunk : cursorAt r.chunks.length
        (if file.offset + len ≤ contents.length then file.offset + len else file.offset) = file.cursor := by
      rw [tracks.cursor]
      congr 1
      split <;> omega
    have empty : (contents.drop file.offset).take len = [] := by rw [ends, drop_length, take_nil]
    rw [nothing, chunk, empty]
    simp only [ramfsFileRead, recordRead, cursor]
    rw [← cursor]
    rfl

end

theorem chunkWrite_eq (recordSize : Nat) (buff : List UInt8) (len : Nat) (inside : off < chunkSize)
    (used : c.used ≤ chunkSize)
    (small : recordSize + (max c.used (off + min (chunkSize - off) len) - c.used) < wordSize) :
    chunkWrite c recordSize buff len off = .ok
      ({ used := max c.used (off + min (chunkSize - off) len)
         buff := store c.buff off (buff.take (min (chunkSize - off) len)) },
        recordSize + (max c.used (off + min (chunkSize - off) len) - c.used),
        min (chunkSize - off) len) := by
  have check : decide (chunkSize ≤ off) = false := decide_eq_false (by omega)
  have sizes : chunkSize < wordSize := by decide
  rw [chunkWrite, check, wsub_eq (inside.le) sizes]
  change Except.ok _ = _
  rw [wadd_eq (by omega), wsub_eq (Nat.le_max_left _ _) (by omega), wadd_eq small]

variable {i : Nat} {added data : List UInt8} {writing : Writing}

theorem usedAt_set (here : i < chunks.length) (c : Chunk) :
    usedAt (chunks.set i c) i = c.used := by
  exact usedAt_eq (by simp [here])

theorem buffAt_set (here : i < chunks.length) (c : Chunk) :
    buffAt (chunks.set i c) i = c.buff := by
  exact buffAt_eq (by simp [here])

/-- The chunk of a position after bytes have been stored there. -/
def Chunk.written (c : Chunk) (offset : Nat) (added : List UInt8) : Chunk where
  used := max c.used (offset + added.length)
  buff := store c.buff offset added

section

variable (holds : Holds chunks contents) (inside : position ≤ contents.length)
  (here : position / chunkSize < chunks.length) (found : chunks[position / chunkSize]? = some c)
  (fits : position % chunkSize + added.length ≤ chunkSize)
include holds inside here found fits

theorem Holds.write :
    Holds (chunks.set (position / chunkSize) (c.written (position % chunkSize) added))
      (splice contents position added) := by
  have other : ∀ k ≠ position / chunkSize,
      (chunks.set (position / chunkSize) (c.written (position % chunkSize) added))[k]? = chunks[k]? := by
    intro k ne
    exact getElem?_set_ne ne.symm
  have written := Paged.write holds here (by rw [Nat.div_add_mod']; exact inside) fits
    (usedAt_set here (c.written (position % chunkSize) _) |>.trans (by rw [usedAt_eq found]; rfl))
    (fun k ne => by rw [usedAt, other k ne]; rfl)
    (buffAt_set here (c.written (position % chunkSize) _) |>.trans (by rw [buffAt_eq found]; rfl))
    fun k ne => by rw [buffAt, other k ne]; rfl
  rw [Nat.div_add_mod'] at written
  rwa [Holds, length_set]

theorem Holds.write_length :
    (splice contents position added).length =
      contents.length + (max c.used (position % chunkSize + added.length) - c.used) := by
  have place := Nat.div_add_mod' position chunkSize
  have filled := Paged.filled holds _ here
  rw [usedAt_eq found] at filled
  rw [splice_length inside, filled]
  omega

end

def Compact (chunks : List Chunk) (contents : List UInt8) : Prop :=
  chunks.length * chunkSize < contents.length + chunkSize

theorem chunkFor_exists (holds : Holds r.chunks contents) (inside : position ≤ contents.length) :
    ∃ r', chunkFor r (cursorAt r.chunks.length position) = (r', position / chunkSize) ∧
      Holds r'.chunks contents ∧ r'.size = r.size ∧ position / chunkSize < r'.chunks.length ∧
      r.chunks.length ≤ r'.chunks.length ∧
      (r'.chunks.length = r.chunks.length ∨ r'.chunks.length = position / chunkSize + 1) := by
  rw [cursorAt]
  split
  next page =>
    exact ⟨r, rfl, holds, rfl, page, le_rfl, .inl rfl⟩
  next behind =>
    have reach := holds.reach
    have place := Nat.div_add_mod' position chunkSize
    have scaled := Nat.mul_le_mul_right chunkSize (not_lt.mp behind)
    have ends : contents.length = r.chunks.length * chunkSize := by omega
    have page : position / chunkSize = r.chunks.length := by
      have same : position = r.chunks.length * chunkSize := by omega
      rw [same, Nat.mul_div_cancel _ chunkSize_positive]
    have length : (chunkAlloc r).chunks.length = r.chunks.length + 1 := by simp [chunkAlloc]
    have last : (chunkAlloc r).chunks[r.chunks.length]? =
        some { used := 0, buff := r.blank r.chunks.length } := by simp [chunkAlloc]
    have other : ∀ k ≠ r.chunks.length, (chunkAlloc r).chunks[k]? = r.chunks[k]? := by
      intro k ne
      simp only [chunkAlloc]
      rcases Nat.lt_or_gt_of_ne ne with earlier | later
      · exact getElem?_append_left earlier
      · rw [getElem?_eq_none (by rw [length_append, length_singleton]; omega), getElem?_eq_none (by omega)]
    refine ⟨chunkAlloc r, by rw [page]; rfl, ?_, rfl, by omega, by omega, .inr (by omega)⟩
    rw [Holds, length]
    refine Paged.extend holds ends (usedAt_eq last) ?_ ?_
    · intro k ne
      rw [usedAt, other k ne]
      rfl
    · intro k ne
      rw [buffAt, other k ne]
      rfl

structure WriteSoFar (before : Record) (contents data : List UInt8) (off : Nat) (writing : Writing) : Prop where
  amount : writing.amt ≤ data.length
  holds : Holds writing.r.chunks (splice contents off (data.take writing.amt))
  size : writing.r.size = (splice contents off (data.take writing.amt)).length
  grown : before.chunks.length ≤ writing.r.chunks.length
  compact : Compact before.chunks contents →
    Compact writing.r.chunks (splice contents off (data.take writing.amt))
  place :
    writing.amt = data.length ∧ writing.cursor = cursorAt writing.r.chunks.length (off + data.length) ∨
    writing.amt < data.length ∧ writing.c = cursorAt writing.r.chunks.length (off + writing.amt)

theorem writeTurn_eq {r' : Record} {c size written : Nat}
    {chunk chunk' : Chunk} (target : chunkFor writing.r writing.c = (r', c))
    (found : r'.chunks[c]? = some chunk)
    (ran : chunkWrite chunk r'.size (data.drop writing.amt) (wsub len writing.amt)
      (wadd off writing.amt % chunkSize) = .ok (chunk', size, written)) :
    writeTurn data len off writing = .ok (if wsub len (wadd writing.amt written) ≠ 0 then
        { writing with
          r := { r' with chunks := r'.chunks.set c chunk', size }
          amt := wadd writing.amt written
          c := listNext (r'.chunks.set c chunk') c }
      else
        { r := { r' with chunks := r'.chunks.set c chunk', size }
          amt := wadd writing.amt written
          c := some c
          cursor := cursorAfter (r'.chunks.set c chunk') c (wadd off (wadd writing.amt written)) }) := by
  simp only [writeTurn, target, chunkAt, found]
  change (chunkWrite chunk _ _ _ _).bind _ = _
  rw [ran]
  change (if _ then _ else _) = _
  split <;> rfl

theorem chunkWrite_exists (data : List UInt8) (holds : Holds r.chunks contents) (size : r.size = contents.length)
    (inside : position ≤ contents.length) (page : position / chunkSize < r.chunks.length)
    (small : contents.length < wordSize) (word : position + data.length < wordSize) :
    ∃ chunk chunk' amount, r.chunks[position / chunkSize]? = some chunk ∧
      PageStep chunkSize position chunkSize data.length amount ∧
      chunkWrite chunk r.size data data.length (position % chunkSize) =
        .ok (chunk', (splice contents position (data.take amount)).length, amount) ∧
      Holds (r.chunks.set (position / chunkSize) chunk') (splice contents position (data.take amount)) := by
  obtain ⟨chunk, found, _, used, -, -, -⟩ := holds.chunk inside page
  have below := Nat.mod_lt position chunkSize_positive
  have step := pageStep (below.le) data.length
  have fits : position % chunkSize + (data.take (min (chunkSize - position % chunkSize) data.length)).length ≤
      chunkSize := by
    rw [length_take]
    omega
  have written := holds.write inside page found fits
  have longer := holds.write_length inside page found fits
  have ran := chunkWrite_eq r.size data data.length below used
  generalize min _ data.length = amount at step written longer ran
  have taken : (data.take amount).length = amount := length_take_of_le step.asked
  have length := splice_length inside (data.take amount)
  have asked := step.asked
  refine ⟨chunk, _, amount, found, step, ?_, written⟩
  rw [ran (by omega), longer, size, Chunk.written, taken]

theorem writeTurn_step {before : Record} (inside : off ≤ contents.length) (small : contents.length < wordSize)
    (word : off + data.length < wordSize) (soFar : WriteSoFar before contents data off writing)
    (goes : writeGoes data.length writing = true) :
    ∃ next, writeTurn data data.length off writing = .ok next ∧ WriteSoFar before contents data off next ∧
      data.length - next.amt < data.length - writing.amt := by
  obtain ⟨amount, holds, size, grown, compact, place⟩ := soFar
  rw [writeGoes, wsub_eq amount (by omega), bne_iff_ne] at goes
  rcases place with ⟨done, _⟩ | ⟨_, here⟩
  · omega
  · have length := splice_length inside (data.take writing.amt)
    rw [length_take_of_le amount] at length
    obtain ⟨r', target, holds', size', page, grown', count⟩ :=
      chunkFor_exists holds (show off + writing.amt ≤ _ by omega)
    rw [← here] at target
    have left : (data.drop writing.amt).length = data.length - writing.amt := length_drop
    obtain ⟨chunk, chunk', n, found, step, ran, written⟩ := chunkWrite_exists (data.drop writing.amt)
      holds' (size'.trans size) (by omega) page (by omega) (by omega)
    have pos := step.positive (Nat.mod_lt _ chunkSize_positive) (by omega)
    have starts := Nat.div_mul_le_self (off + writing.amt) chunkSize
    obtain ⟨asked, reached, reaches⟩ := step
    rw [left] at ran asked reaches
    have turned : writeTurn data data.length off writing = _ := writeTurn_eq target found
      (by rw [wadd_eq (by omega), wsub_eq amount (by omega)]; exact ran)
    rw [splice_take_add inside amount] at written turned
    rw [wadd_eq (by omega), wsub_eq (by omega) (by omega), wadd_eq (by omega)] at turned
    have dense : Compact before.chunks contents → Compact (r'.chunks.set ((off + writing.amt) / chunkSize) chunk')
          (splice contents off (data.take (writing.amt + n))) := by
      intro initially
      have earlier := compact initially
      have longer := splice_length inside (data.take (writing.amt + n))
      rw [length_take_of_le (by omega)] at longer
      rw [Compact] at earlier ⊢
      rw [length_set]
      rcases count with same | new
      · rw [same]
        omega
      · rw [new, Nat.succ_mul]
        omega
    refine ⟨_, turned, ?_⟩
    by_cases more : data.length - (writing.amt + n) ≠ 0
    · rw [if_pos more]
      have edge := reaches (by omega)
      rw [add_assoc] at edge
      refine ⟨⟨by simp only; omega, written, rfl, ?_, dense, .inr ⟨by simp only; omega, ?_⟩⟩, by simp only; omega⟩
      · simp only [length_set]
        omega
      · exact listNext_eq_cursorAt edge
    · rw [if_neg more]
      have all : writing.amt + n = data.length := by omega
      refine ⟨⟨all.le, written, rfl, ?_, dense, .inl ⟨all, ?_⟩⟩, by simp only; omega⟩
      · simp only [length_set]
        omega
      · simp only
        rw [all]
        exact cursorAfter_eq (by rw [length_set]; exact page) (by omega) (by omega)

theorem ramfsFileWrite_exists (data : List UInt8) (holds : Holds r.chunks contents)
    (size : r.size = contents.length) (small : contents.length < wordSize)
    (word : file.offset + data.length < wordSize) (tracks : Tracks r.chunks contents.length file) :
    ∃ r', ramfsFileWrite r file data = .ok
        (r', { cursor := cursorAt r'.chunks.length (file.offset + data.length)
               offset := file.offset + data.length }, signed data.length) ∧
      Holds r'.chunks (splice contents file.offset data) ∧
      r'.size = (splice contents file.offset data).length ∧ r.chunks.length ≤ r'.chunks.length ∧
      (Compact r.chunks contents → Compact r'.chunks (splice contents file.offset data)) := by
  have initial : WriteSoFar r contents data file.offset { r, amt := 0, c := file.cursor, cursor := file.cursor } := by
    refine ⟨Nat.zero_le _, by simpa using holds, by simpa using size, le_rfl, by simp, ?_⟩
    rcases Nat.eq_zero_or_pos data.length with empty | pos
    · exact .inl ⟨empty.symm, by rw [empty]; exact tracks.cursor⟩
    · exact .inr ⟨pos, tracks.cursor⟩
  have loop : ∃ final, whileLoop (writeGoes data.length) (writeTurn data data.length file.offset)
        Fault.unfinished (data.length + 1) { r, amt := 0, c := file.cursor, cursor := file.cursor } = .ok _ ∧
      WriteSoFar r _ data file.offset final ∧ writeGoes data.length _ = false :=
    whileLoop_exists (fun writing => data.length - writing.amt) initial (Nat.lt_succ_self _)
      fun writing soFar goes => writeTurn_step tracks.inside small word soFar goes
  obtain ⟨final, ran, ⟨amount, written, length, grown, compact, place⟩, stopped⟩ := loop
  rw [writeGoes, wsub_eq amount (by omega), bne_eq_false_iff_eq] at stopped
  have all : final.amt = data.length := by omega
  rw [all, take_length] at written length compact
  rcases place with ⟨_, cursor⟩ | ⟨short, _⟩
  · refine ⟨final.r, ?_, written, length, grown, compact⟩
    simp only [ramfsFileWrite, recordWrite]
    rw [ran]
    change Except.ok _ = _
    rw [cursor, all, wadd_eq word]
  · omega

end KOs.Fs

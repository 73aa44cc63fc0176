import KOs.Data.Transition
import KOs.Fs.Transfer

namespace KOs.Fs

open KOs.Common KOs.Data List

variable {r : Record} {contents : List UInt8}

theorem Holds.compact_cursor (holds : Holds r.chunks contents) (compact : Compact r.chunks contents) :
    cursorAt r.chunks.length contents.length =
      if contents.length % chunkSize = 0 then none else some (r.chunks.length - 1) := by
  have reach := holds.reach
  rw [Compact] at compact
  simp only [chunkSize] at reach compact
  by_cases even : contents.length % chunkSize = 0
  · have behind : ¬ contents.length / chunkSize < r.chunks.length := by
      simp only [chunkSize] at even ⊢
      omega
    rw [cursorAt, if_pos even, if_neg behind]
  · have last : contents.length / chunkSize = r.chunks.length - 1 := by
      simp only [chunkSize] at even ⊢
      omega
    have page : r.chunks.length - 1 < r.chunks.length := by
      simp only [chunkSize] at even
      omega
    rw [cursorAt, if_neg even, last, if_pos page]

theorem Filled.holds_contents (filled : Filled r.chunks) : Holds r.chunks r.contents :=
  filled.holds

structure ReadRun where
  file : Handle
  delivered : List UInt8

def fileReads (r : Record) : Machine ReadRun Nat Fault where
  enabled len _ := decide (len < wordSize)
  perform len run := do
    let (file, _, bytes) ← ramfsFileRead r run.file len
    return { file, delivered := run.delivered ++ bytes }

/-- The read ends inside the file, or starts in the chunk where the file ends. -/
def KeepsChunk (r : Record) (run : ReadRun) (len : Nat) : Prop :=
  run.file.offset + len ≤ r.contents.length ∨
    run.file.offset / chunkSize = r.contents.length / chunkSize

instance (r : Record) (run : ReadRun) (len : Nat) : Decidable (KeepsChunk r run len) :=
  inferInstanceAs (Decidable (_ ∨ _))

structure Delivered (r : Record) (run : ReadRun) : Prop where
  tracks : Tracks r.chunks r.contents.length run.file
  delivered : run.delivered = r.contents.take run.file.offset

theorem Delivered.step {run next : ReadRun} {len : Nat} (filled : Filled r.chunks)
    (small : r.contents.length < wordSize) (before : Delivered r run) (keeps : KeepsChunk r run len)
    (word : len < wordSize) (ran : (fileReads r).perform len run = .ok next) : Delivered r next := by
  have inside := before.tracks.inside
  have read := ramfsFileRead_eq filled.holds_contents small word before.tracks
  simp only [fileReads] at ran
  rw [read] at ran
  cases ran
  refine ⟨⟨by simp only; omega, ?_⟩, ?_⟩
  · simp only [cursorAt]
    rcases keeps with within | chunk
    · have amount : min len (r.contents.length - run.file.offset) = len := by omega
      rw [if_pos within, amount]
    · by_cases within : run.file.offset + len ≤ r.contents.length
      · have amount : min len (r.contents.length - run.file.offset) = len := by omega
        rw [if_pos within, amount]
      · have ends : run.file.offset + min len (r.contents.length - run.file.offset) = r.contents.length := by omega
        rw [if_neg within, ends, chunk]
  · simp only
    rw [before.delivered, take_add, ← length_drop, ← take_eq_take_min]

/-- A freshly opened handle delivers the contents once, as long as no read goes past the
end from an earlier chunk than the one the file ends in, except for the last one. -/
theorem reads_deliver_once {r : Record} {run : ReadRun} {len : Nat} (filled : Filled r.chunks)
    (small : 2 * r.contents.length < wordSize)
    (reached : (fileReads r).Reaches (KeepsChunk r) { file := ramfsFileOpen r, delivered := [] } run)
    (word : len < wordSize) :
    ∃ file bytes, ramfsFileRead r run.file len = .ok (file, bytes.length, bytes) ∧
      bytes = (r.contents.drop run.file.offset).take len ∧
      file.offset = run.file.offset + bytes.length ∧
      run.delivered = r.contents.take run.file.offset ∧
      (bytes = [] → 0 < len → run.delivered = r.contents) ∧
      (run.file.offset = r.contents.length → bytes = []) := by
  have state : Delivered r run := by
    refine reached.preserves (Delivered r) ⟨ramfsFileOpen_tracks r _, rfl⟩ ?_
    intro before len after holds keeps enabled ran
    exact holds.step filled (by omega) keeps (of_decide_eq_true enabled) ran
  have read := ramfsFileRead_eq filled.holds_contents (by omega) word state.tracks
  have length : ((r.contents.drop run.file.offset).take len).length =
      min len (r.contents.length - run.file.offset) := by
    rw [length_take, length_drop]
  rw [signed_eq (by omega), ← length] at read
  refine ⟨_, _, read, rfl, rfl, state.delivered, ?_, ?_⟩
  · intro nothing pos
    have none : min len (r.contents.length - run.file.offset) = 0 := by rw [← length, nothing, length_nil]
    rw [state.delivered, take_of_length_le (by omega)]
  · intro ends
    rw [ends, drop_length, take_nil]

def oneChunk (used : Nat) (buff : Nat → UInt8) : Record where
  chunks := [{ used, buff }]
  size := used
  blank _ _ := 0

theorem oneChunk_filled {used : Nat} (buff : Nat → UInt8) (fits : used ≤ chunkSize) :
    Filled (oneChunk used buff).chunks := by
  refine ⟨?_, ?_⟩
  · intro i c _ more
    exact absurd more (by simp [oneChunk])
  · intro c mem
    rw [mem_singleton.mp mem]
    exact fits

theorem reads_deliver_once_three :
    (oneChunk 3 (UInt8.ofNat <| 10 + ·)).contents = [10, 11, 12] ∧
      ∃ run : ReadRun, run.delivered = [10, 11, 12] ∧ run.file.offset = 3 ∧
        ∃ file, ramfsFileRead (oneChunk 3 (UInt8.ofNat <| 10 + ·)) run.file 4 = .ok (file, 0, []) := by
  have contents : (oneChunk 3 (UInt8.ofNat <| 10 + ·)).contents = [10, 11, 12] := by rfl
  obtain ⟨run, reached, delivered, offset⟩ : ∃ run, (fileReads (oneChunk 3 (UInt8.ofNat <| 10 + ·))).Reaches
      (KeepsChunk (oneChunk 3 (UInt8.ofNat <| 10 + ·)))
      { file := ramfsFileOpen (oneChunk 3 (UInt8.ofNat <| 10 + ·)), delivered := [] } run ∧
      run.delivered = [10, 11, 12] ∧ run.file.offset = 3 :=
    Machine.run_exists [2, 5] (by decide +kernel)
  obtain ⟨file, bytes, read, _, _, _, _, ends⟩ :=
    reads_deliver_once (oneChunk_filled _ (by decide)) (by rw [contents]; decide) reached (show 4 < wordSize by decide)
  have nothing : bytes = [] := ends (by rw [offset, contents]; rfl)
  subst nothing
  exact ⟨contents, run, delivered, offset, file, read⟩

/-- After a read past the end of a file of one full chunk, the next one starts over. -/
theorem full_chunk_delivered_again :
    ∃ r file, Filled r.chunks ∧ r.contents.length = 1024 ∧
      ramfsFileRead r (ramfsFileOpen r) 2000 = .ok (file, 1024, r.contents) ∧
      file.offset = r.contents.length ∧
      ∃ file', ramfsFileRead r file 2000 = .ok (file', 1024, r.contents) := by
  have length : (oneChunk 1024 fun _ => 7).contents.length = 1024 := by decide +kernel
  refine ⟨oneChunk 1024 fun _ => 7, { cursor := some 0, offset := 1024 },
    oneChunk_filled _ (by decide), length, ?_, length.symm, { cursor := some 0, offset := 2048 }, ?_⟩
  · decide +kernel
  · decide +kernel

def writes : Record → Handle → List (List UInt8) → Except Fault (Record × Handle × List Int)
  | r, file, [] => .ok (r, file, [])
  | r, file, data :: rest => do
      let (r, file, amt) ← ramfsFileWrite r file data
      let (r, file, amts) ← writes r file rest
      return (r, file, amt :: amts)

theorem writes_exists {file : Handle} (parts : List (List UInt8)) (holds : Holds r.chunks contents)
    (size : r.size = contents.length) (compact : Compact r.chunks contents)
    (tracks : Tracks r.chunks contents.length file) (ends : file.offset = contents.length)
    (small : 2 * (contents.length + parts.flatten.length) < wordSize) :
    ∃ r' file', writes r file parts = .ok (r', file', parts.map (fun data => (data.length : Int))) ∧
      Holds r'.chunks (contents ++ parts.flatten) ∧ r'.size = (contents ++ parts.flatten).length ∧
      Compact r'.chunks (contents ++ parts.flatten) ∧
      Tracks r'.chunks (contents ++ parts.flatten).length file' ∧
      file'.offset = (contents ++ parts.flatten).length := by
  induction parts generalizing r file contents with
  | nil =>
    rw [flatten_nil, append_nil]
    exact ⟨r, file, rfl, holds, size, compact, tracks, ends⟩
  | cons data rest ih =>
    rw [flatten_cons, length_append] at small
    obtain ⟨r', ran, written, length, _, dense⟩ :=
      ramfsFileWrite_exists data holds size (by omega) (by omega) tracks
    rw [ends, splice_end] at written length dense
    rw [ends, ← length_append] at ran
    have tracked : Tracks r'.chunks (contents ++ data).length
        { cursor := cursorAt r'.chunks.length (contents ++ data).length, offset := (contents ++ data).length } :=
      ⟨le_rfl, rfl⟩
    obtain ⟨r'', file'', others, result⟩ := ih written length (dense compact) tracked rfl (by rw [length_append]; omega)
    rw [signed_eq (by omega)] at ran
    refine ⟨r'', file'', ?_, ?_⟩
    · rw [writes, ran]
      change (writes r' _ rest).bind _ = _
      rw [others]
      rfl
    · rw [flatten_cons, ← append_assoc]
      exact result

theorem written_file (blank : Nat → Nat → UInt8) (parts : List (List UInt8)) (small : parts.flatten.length < 2 ^ 31) :
    ∃ r file, writes (recordCreate blank) (ramfsFileOpen (recordCreate blank)) parts =
        .ok (r, file, parts.map (fun data => (data.length : Int))) ∧
      Holds r.chunks parts.flatten ∧ r.size = parts.flatten.length ∧ Compact r.chunks parts.flatten ∧
      Tracks r.chunks parts.flatten.length file ∧ file.offset = parts.flatten.length := by
  have empty : Holds (recordCreate blank).chunks [] := Filled.holds ⟨by simp [recordCreate], by simp [recordCreate]⟩
  have built := writes_exists parts empty rfl (by simp [Compact, recordCreate, chunkSize])
    (ramfsFileOpen_tracks _ _) rfl (by simp only [wordSize, length_nil]; omega)
  rwa [nil_append] at built

/-- Writing one string after the other to a new file builds their concatenation. -/
theorem sequential_writes_build_file (blank : Nat → Nat → UInt8) (parts : List (List UInt8))
    (small : parts.flatten.length < 2 ^ 31) :
    ∃ r file, writes (recordCreate blank) (ramfsFileOpen (recordCreate blank)) parts =
        .ok (r, file, parts.map (fun data => (data.length : Int))) ∧
      r.contents = parts.flatten ∧
      (∀ i c, r.chunks[i]? = some c → i + 1 < r.chunks.length → c.used = chunkSize) ∧
      r.size = parts.flatten.length ∧ file.offset = parts.flatten.length ∧
      file.cursor = (if parts.flatten.length % chunkSize = 0 then none else some (r.chunks.length - 1)) := by
  obtain ⟨r, file, ran, holds, size, compact, tracks, offset⟩ := written_file blank parts small
  refine ⟨r, file, ran, holds.eq_contents, (filled_of_holds holds).full, size, offset, ?_⟩
  rw [tracks.cursor, offset]
  exact holds.compact_cursor compact

theorem sequential_writes_build_file_three :
    ∃ r file, writes (recordCreate (fun _ _ => 0)) (ramfsFileOpen (recordCreate (fun _ _ => 0)))
        [[1, 2], [], [3]] = .ok (r, file, [2, 0, 1]) ∧ r.contents = [1, 2, 3] ∧ file.cursor = some (r.chunks.length - 1) := by
  obtain ⟨r, file, ran, contents, _, _, _, cursor⟩ :=
    sequential_writes_build_file (fun _ _ => 0) [[1, 2], [], [3]] (by decide)
  exact ⟨r, file, ran, contents, cursor⟩

def seekSet : Nat := 0

/-- The loop of `ramfs_file_seek`, with the place of the chunk in front in the list. -/
def seekLoop (offset : Nat) : List Chunk → Nat → Nat → Except Fault Nat
  | [], _, _ => .error (.panicf "ramfs - seek beyond EOF" [])
  | c :: rest, i, pos =>
      if wsub offset pos < chunkSize then
        if wsub offset pos > c.used then .error (.panicf "ramfs - seek beyond EOF" []) else .ok i
      else seekLoop offset rest (i + 1) (wadd pos chunkSize)

def ramfsFileSeek (r : Record) (offset whence : Nat) : Except Fault (Handle × Nat) :=
  if whence ≠ seekSet then .error (.panicf "ramfs - unimplemented whence value %d" [whence])
  else (seekLoop offset r.chunks 0 0).map (fun c => ({ cursor := some c, offset }, offset))

theorem seekLoop_eq {chunks : List Chunk} {offset i : Nat} (word : offset < wordSize) (behind : i * chunkSize ≤ offset)
    (used : ∀ c, chunks[offset / chunkSize - i]? = some c → offset % chunkSize ≤ c.used) :
    seekLoop offset chunks i (i * chunkSize) = if offset / chunkSize < i + chunks.length then .ok (offset / chunkSize)
      else .error (.panicf "ramfs - seek beyond EOF" []) := by
  induction chunks generalizing i with
  | nil =>
    have past := (Nat.le_div_iff_mul_le chunkSize_positive).mpr behind
    simp [seekLoop, past]
  | cons c _ ih =>
    rw [seekLoop, wsub_eq behind word, length_cons]
    by_cases near : offset - i * chunkSize < chunkSize
    · have here : offset / chunkSize = i ∧ offset - i * chunkSize = offset % chunkSize := by
        simp only [chunkSize] at *
        omega
      rw [here.1, Nat.sub_self] at used
      have within := used c rfl
      rw [if_pos near, here.2, if_neg (not_lt.mpr within), here.1, if_pos (Nat.lt_add_of_pos_right (Nat.succ_pos _))]
    · have index : (i + 1) * chunkSize ≤ offset ∧ offset / chunkSize - i = offset / chunkSize - (i + 1) + 1 := by
        simp only [chunkSize] at *
        omega
      rw [index.2] at used
      have next : (i + 1) * chunkSize = i * chunkSize + chunkSize := Nat.succ_mul i chunkSize
      rw [if_neg near, wadd_eq (by omega), ← next, ih index.1 used, Nat.add_right_comm, add_assoc]

theorem Holds.seek (holds : Holds r.chunks contents) {k : Nat} (inside : k ≤ contents.length)
    (small : contents.length < wordSize) : ramfsFileSeek r k seekSet =
      if k / chunkSize < r.chunks.length then .ok ({ cursor := cursorAt r.chunks.length k, offset := k }, k)
      else .error (.panicf "ramfs - seek beyond EOF" []) := by
  have loop : seekLoop k r.chunks 0 (0 * chunkSize) = _ := seekLoop_eq (by omega) (by omega) (by
    intro c found
    obtain ⟨c', found', used, _⟩ := holds.chunk inside (List.getElem?_eq_some_iff.mp found).1
    rw [Option.some.inj (found.symm.trans found')]
    exact used)
  rw [Nat.zero_mul, zero_add] at loop
  simp only [ramfsFileSeek, ne_eq, not_true_eq_false, if_false, loop, cursorAt]
  split <;> rfl

theorem Holds.chunk_iff (holds : Holds r.chunks contents) (compact : Compact r.chunks contents) {k : Nat}
    (inside : k ≤ contents.length) :
    k / chunkSize < r.chunks.length ↔ k < contents.length ∨ contents.length % chunkSize ≠ 0 := by
  have reach := holds.reach
  simp only [Compact, chunkSize] at *
  omega

/-- A position that has no chunk of its own, at the end of full chunks, is not found. -/
theorem seek_accepts_iff (blank : Nat → Nat → UInt8) (parts : List (List UInt8)) (small : parts.flatten.length < 2 ^ 31)
    {k : Nat} (inside : k ≤ parts.flatten.length) :
    ∃ r written amts, writes (recordCreate blank) (ramfsFileOpen (recordCreate blank)) parts = .ok (r, written, amts) ∧
      ((∃ file, ramfsFileSeek r k seekSet = .ok (file, k) ∧ (∀ n, k + n ≤ parts.flatten.length → ∃ after,
          ramfsFileRead r file n = .ok (after, n, (parts.flatten.drop k).take n)) ∧
        ∀ data, k + data.length < 2 ^ 31 → ∃ r' after, ramfsFileWrite r file data = .ok (r', after, data.length) ∧
          r'.contents = splice parts.flatten k data) ↔
        k < parts.flatten.length ∨ parts.flatten.length % chunkSize ≠ 0) := by
  obtain ⟨r, written, ran, holds, size, compact, _⟩ := written_file blank parts small
  refine ⟨r, written, _, ran, ?_⟩
  rw [holds.seek inside (by simp only [wordSize]; omega), ← holds.chunk_iff compact inside]
  have tracks : Tracks r.chunks parts.flatten.length { cursor := cursorAt r.chunks.length k, offset := k } :=
    ⟨inside, rfl⟩
  constructor
  · rintro ⟨file, sought, _⟩
    by_contra none
    rw [if_neg none] at sought
    contradiction
  · intro found
    rw [if_pos found]
    refine ⟨_, rfl, fun n fits => ?_, fun data fits => ?_⟩
    · have all : min n (parts.flatten.length - k) = n := by omega
      rw [ramfsFileRead_eq holds (by simp only [wordSize]; omega) (by simp only [wordSize]; omega) tracks]
      simp only [all, signed_eq (show 2 * n < wordSize by simp only [wordSize]; omega)]
      exact ⟨_, rfl⟩
    · obtain ⟨r', wrote, holds', _⟩ := ramfsFileWrite_exists data holds size (by simp only [wordSize]; omega)
        (by simp only [wordSize]; omega) tracks
      rw [signed_eq (by simp only [wordSize]; omega)] at wrote
      exact ⟨r', _, wrote, holds'.eq_contents⟩

theorem seek_accepts_middle : ∃ r written amts,
    writes (recordCreate (fun _ _ => 0)) (ramfsFileOpen (recordCreate (fun _ _ => 0))) [[1, 2, 3]] = .ok (r, written, amts) ∧
      ∃ file after, ramfsFileSeek r 1 seekSet = .ok (file, 1) ∧ ramfsFileRead r file 2 = .ok (after, 2, [2, 3]) := by
  obtain ⟨r, written, amts, ran, accepts⟩ := seek_accepts_iff (fun _ _ => 0) [[1, 2, 3]] (by decide) (k := 1) (by decide)
  obtain ⟨file, sought, reads, _⟩ := accepts.mpr (by decide)
  obtain ⟨after, read⟩ := reads 2 (by decide)
  exact ⟨r, written, amts, ran, file, after, sought, read⟩

/-- The position 0 of an empty file. -/
theorem seek_empty_file : writes (recordCreate (fun _ _ => 0)) (ramfsFileOpen (recordCreate (fun _ _ => 0))) [] =
      .ok (recordCreate (fun _ _ => 0), ramfsFileOpen (recordCreate (fun _ _ => 0)), []) ∧
    ramfsFileSeek (recordCreate (fun _ _ => 0)) 0 seekSet = .error (.panicf "ramfs - seek beyond EOF" []) :=
  ⟨rfl, rfl⟩

end KOs.Fs

import KOs.Fs.Sequential

namespace KOs.Fs

open KOs.Common KOs.Data List

/-- A file, the handles that are open on it, and the writes so far, the last one first. -/
structure Shared where
  r : Record
  files : List Handle
  history : List (Nat × List UInt8)

inductive FileEvent where
  | opens
  | reads (file len : Nat)
  | writes (file : Nat) (data : List UInt8)

def latest : List (Nat × List UInt8) → Nat → Option UInt8
  | [], _ => none
  | (start, data) :: older, position =>
      if start ≤ position ∧ position < start + data.length then data[position - start]?
      else latest older position

def sharedFile : Machine Shared FileEvent Fault where
  enabled event shared :=
    match event with
    | .opens => true
    | .reads file len =>
        match shared.files[file]? with
        | some f => decide (f.offset + len ≤ shared.r.size)
        | none => false
    | .writes file data => decide (file < shared.files.length) && decide (data.length < wordSize)
  perform event shared :=
    match event with
    | .opens => .ok { shared with files := shared.files ++ [ramfsFileOpen shared.r] }
    | .reads file len =>
        match shared.files[file]? with
        | some f => do
            let (f, _, _) ← ramfsFileRead shared.r f len
            return { shared with files := shared.files.set file f }
        | none => .error .strayEntry
    | .writes file data =>
        match shared.files[file]? with
        | some f => do
            let (r, f', _) ← ramfsFileWrite shared.r f data
            return { r, files := shared.files.set file f', history := (f.offset, data) :: shared.history }
        | none => .error .strayEntry

/-- Nothing is transferred, or the handle is not one without a chunk that the end of the
file has moved away from. -/
def NotStale (r : Record) (file : Handle) (amount : Nat) : Prop :=
  amount = 0 ∨ (file.cursor = none → file.offset = r.size)

instance (r : Record) (file : Handle) (amount : Nat) : Decidable (NotStale r file amount) :=
  inferInstanceAs (Decidable (_ ∨ _))

/-- The condition on the steps; a file stays shorter than `ssize_t` can count. -/
def Current (shared : Shared) : FileEvent → Prop
  | .opens => True
  | .reads file len => ∀ f ∈ shared.files[file]?, NotStale shared.r f len
  | .writes file data => ∀ f ∈ shared.files[file]?,
      NotStale shared.r f data.length ∧ 2 * (f.offset + data.length) < wordSize

instance (shared : Shared) : (event : FileEvent) → Decidable (Current shared event)
  | .opens => inferInstanceAs (Decidable True)
  | .reads file len => inferInstanceAs (Decidable (∀ f ∈ shared.files[file]?, NotStale shared.r f len))
  | .writes file data => inferInstanceAs (Decidable (∀ f ∈ shared.files[file]?,
      NotStale shared.r f data.length ∧ 2 * (f.offset + data.length) < wordSize))

/-- A handle that has been left behind by others; without a chunk it was at the end once. -/
structure Follows (r : Record) (file : Handle) : Prop where
  inside : file.offset ≤ r.size
  chunk : ∀ c, file.cursor = some c → c = file.offset / chunkSize ∧ c < r.chunks.length
  edge : file.cursor = none → file.offset % chunkSize = 0

structure Coherent (shared : Shared) : Prop where
  filled : Filled shared.r.chunks
  size : shared.r.size = shared.r.contents.length
  compact : Compact shared.r.chunks shared.r.contents
  small : 2 * shared.r.size < wordSize
  files : ∀ file ∈ shared.files, Follows shared.r file
  history : ∀ position : Nat, shared.r.contents[position]? = latest shared.history position

variable {contents : List UInt8}
variable {r : Record} {i : Nat}

theorem compact_of_used (holds : Holds r.chunks contents) (used : ∀ c ∈ r.chunks, 0 < c.used) :
    Compact r.chunks contents := by
  rw [Compact]
  cases count : r.chunks.length with
  | zero =>
    exact Nat.add_pos_right _ chunkSize_positive
  | succ last =>
    have found := getElem?_eq_getElem (l := r.chunks) (i := last) (by omega)
    have pos := used _ (mem_of_getElem? found)
    have filled := Paged.filled holds last (by omega)
    rw [usedAt_eq found] at filled
    rw [Nat.succ_mul]
    omega

variable {file : Handle}

theorem Tracks.follows (holds : Holds r.chunks contents) (size : r.size = contents.length)
    (tracks : Tracks r.chunks contents.length file) : Follows r file := by
  have inside := tracks.inside
  have cursor := tracks.cursor
  rw [cursorAt] at cursor
  refine ⟨by omega, ?_, ?_⟩
  · intro c found
    split at cursor
    · rw [cursor] at found
      cases found
      exact ⟨rfl, by assumption⟩
    · rw [cursor] at found
      contradiction
  · intro missing
    split at cursor
    · rw [cursor] at missing
      contradiction
    next behind =>
      have reach := holds.reach
      simp only [chunkSize] at reach behind ⊢
      omega

theorem Follows.grow {r' : Record} (follows : Follows r file) (longer : r.size ≤ r'.size)
    (more : r.chunks.length ≤ r'.chunks.length) : Follows r' file := by
  refine ⟨follows.inside.trans longer, ?_, follows.edge⟩
  intro c found
  obtain ⟨place, within⟩ := follows.chunk c found
  exact ⟨place, within.trans_le more⟩

variable {shared : Shared}

theorem Coherent.tracks (coherent : Coherent shared) (follows : Follows shared.r file)
    (current : file.cursor = none → file.offset = shared.r.size) :
    Tracks shared.r.chunks shared.r.contents.length file := by
  have inside := follows.inside
  have size := coherent.size
  refine ⟨by omega, ?_⟩
  cases cursor : file.cursor with
  | some c =>
    obtain ⟨place, within⟩ := follows.chunk c cursor
    rw [cursorAt, ← place, if_pos within]
  | none =>
    have ends : file.offset = shared.r.contents.length := by rw [current cursor, size]
    have even := follows.edge cursor
    rw [ends] at even
    rw [ends, coherent.filled.holds_contents.compact_cursor coherent.compact, if_pos even]

theorem Coherent.read (coherent : Coherent shared) {len : Nat} (found : shared.files[i]? = some file)
    (within : file.offset + len ≤ shared.r.size) (fresh : NotStale shared.r file len) :
    ∃ file', ramfsFileRead shared.r file len =
        .ok (file', len, (shared.r.contents.drop file.offset).take len) ∧ Follows shared.r file' := by
  have follows := coherent.files file (mem_of_getElem? found)
  have size := coherent.size
  have small := coherent.small
  have holds := coherent.filled.holds_contents
  by_cases current : file.cursor = none → file.offset = shared.r.size
  · have tracks := coherent.tracks follows current
    have amount : min len (shared.r.contents.length - file.offset) = len := by omega
    have word : len < wordSize := by omega
    have read := ramfsFileRead_eq holds (by omega) word tracks
    rw [amount, if_pos (by omega), signed_eq (by omega)] at read
    refine ⟨_, read, Tracks.follows holds size ⟨?_, rfl⟩⟩
    simp only
    omega
  · -- a stale handle is not asked for anything
    have nothing : len = 0 := fresh.resolve_right current
    have missing : file.cursor = none := by
      by_contra present
      exact current fun absent => absurd absent present
    subst nothing
    refine ⟨file, ?_, follows⟩
    rw [ramfsFileRead, recordRead, missing, take_zero]
    rfl

theorem Coherent.write (coherent : Coherent shared) {data : List UInt8} (found : shared.files[i]? = some file)
    (fresh : NotStale shared.r file data.length) (short : 2 * (file.offset + data.length) < wordSize) :
    ∃ r' file', ramfsFileWrite shared.r file data = .ok (r', file', data.length) ∧
      Coherent { r := r', files := shared.files.set i file', history := (file.offset, data) :: shared.history } ∧
      r'.contents = splice shared.r.contents file.offset data := by
  have follows := coherent.files file (mem_of_getElem? found)
  have inside := follows.inside
  have size := coherent.size
  have small := coherent.small
  have holds := coherent.filled.holds_contents
  by_cases current : file.cursor = none → file.offset = shared.r.size
  · have tracks := coherent.tracks follows current
    obtain ⟨r', ran, written, length, grown, dense⟩ :=
      ramfsFileWrite_exists data holds size (by omega) (by omega) tracks
    have contents : r'.contents = splice shared.r.contents file.offset data := written.eq_contents
    have longer := splice_length (show file.offset ≤ shared.r.contents.length by omega) data
    rw [signed_eq (by omega)] at ran
    refine ⟨r', _, ran, ⟨filled_of_holds written, by rw [length, contents], ?_, ?_, ?_, ?_⟩, contents⟩
    · rw [contents]
      exact dense coherent.compact
    · simp only
      omega
    · intro other mem
      rcases mem_or_eq_of_mem_set mem with earlier | rfl
      · exact (coherent.files _ earlier).grow (by simp only; omega) grown
      · exact Tracks.follows written length ⟨by simp only; omega, rfl⟩
    · intro position
      rw [contents, splice_getElem? (by omega), latest, coherent.history _]
  · have nothing : data = [] := eq_nil_of_length_eq_zero (fresh.resolve_right current)
    subst nothing
    have ran : ramfsFileWrite shared.r file [] = .ok (shared.r, file, 0) := by
      have stops : writeGoes 0 { r := shared.r, amt := 0, c := file.cursor, cursor := file.cursor } = false := by
        rw [writeGoes, wsub_eq (Nat.le_refl 0) wordSize_positive]
        rfl
      rw [ramfsFileWrite, recordWrite, length_nil, whileLoop_stops stops]
      change Except.ok _ = _
      rw [wadd_eq (by simp only; omega)]
      rfl
    refine ⟨shared.r, file, ran, ⟨coherent.filled, size, coherent.compact, small, ?_, ?_⟩, by simp⟩
    · intro other mem
      rcases mem_or_eq_of_mem_set mem with earlier | rfl
      · exact coherent.files _ earlier
      · exact follows
    · intro position
      rw [latest, if_neg (by simp only [length_nil]; omega)]
      exact coherent.history _

theorem Coherent.step {before after : Shared} {event : FileEvent} (coherent : Coherent before)
    (current : Current before event) (enabled : sharedFile.enabled event before = true)
    (ran : sharedFile.perform event before = .ok after) : Coherent after := by
  cases event with
  | opens =>
    cases ran
    refine { coherent with files := ?_ }
    intro file mem
    rcases mem_append.mp mem with earlier | new
    · exact coherent.files file earlier
    · rw [mem_singleton.mp new]
      exact Tracks.follows coherent.filled.holds_contents coherent.size (ramfsFileOpen_tracks _ _)
  | reads i =>
    simp only [sharedFile] at enabled ran
    cases found : before.files[i]? with
    | none =>
      rw [found] at enabled
      contradiction
    | some file =>
      simp only [found, decide_eq_true_eq] at enabled ran
      obtain ⟨file', read, follows⟩ := coherent.read found enabled (current file found)
      rw [read] at ran
      cases ran
      refine { coherent with files := ?_ }
      intro other mem
      rcases mem_or_eq_of_mem_set mem with earlier | rfl
      · exact coherent.files _ earlier
      · exact follows
  | writes i =>
    simp only [sharedFile] at ran
    cases found : before.files[i]? with
    | none =>
      rw [found] at ran
      contradiction
    | some file =>
      simp only [found] at ran
      obtain ⟨fresh, short⟩ := current file found
      obtain ⟨r', file', written, result, _⟩ := coherent.write found fresh short
      rw [written] at ran
      cases ran
      exact result

/-- Handles on one file see each other's writes, as long as none is used that has lost its
chunk: a read returns what was last written at each position, and a write changes the
positions it is made at and no others. -/
theorem handles_coherent {r : Record} {shared : Shared} (filled : Filled r.chunks)
    (used : ∀ c ∈ r.chunks, 0 < c.used) (size : r.size = r.contents.length) (small : 2 * r.size < wordSize)
    (reached : sharedFile.Reaches Current { r, files := [], history := [(0, r.contents)] } shared) {i : Nat}
    {file : Handle} (found : shared.files[i]? = some file) :
    (∀ len, file.offset + len ≤ shared.r.size → NotStale shared.r file len →
      ∃ file' bytes, ramfsFileRead shared.r file len = .ok (file', len, bytes) ∧ bytes.length = len ∧
        ∀ k, k < len → bytes[k]? = latest shared.history (file.offset + k)) ∧
    (∀ data, NotStale shared.r file data.length → 2 * (file.offset + data.length) < wordSize →
      ∃ r' file', ramfsFileWrite shared.r file data = .ok (r', file', data.length) ∧
        ∀ position : Nat, r'.contents[position]? =
          if file.offset ≤ position ∧ position < file.offset + data.length then data[position - file.offset]?
          else shared.r.contents[position]?) := by
  have initial : Coherent { r, files := [], history := [(0, r.contents)] } := by
    refine ⟨filled, size, ?_, small, by simp, ?_⟩
    · exact compact_of_used filled.holds_contents used
    · intro position
      change r.contents[position]? = _
      rw [latest, latest]
      split
      · rfl
      · rw [getElem?_eq_none (by omega)]
  have coherent : Coherent shared :=
    reached.preserves Coherent initial fun _ _ _ holds current enabled ran => holds.step current enabled ran
  refine ⟨?_, ?_⟩
  · intro len within fresh
    have length := coherent.size
    obtain ⟨file', read, _⟩ := coherent.read found within fresh
    refine ⟨file', _, read, ?_, ?_⟩
    · rw [length_take_of_le]
      rw [length_drop]
      omega
    · intro k bound
      rw [getElem?_take_of_lt bound, getElem?_drop, coherent.history]
  · intro data fresh short
    obtain ⟨r', file', ran, _, contents⟩ := coherent.write found fresh short
    refine ⟨r', file', ran, ?_⟩
    intro position
    have inside := (coherent.files file (mem_of_getElem? found)).inside
    have length := coherent.size
    rw [contents, splice_getElem? (by omega)]

theorem handles_coherent_overwrite :
    ∃ (shared : Shared) (file : Handle), shared.history = [(1, [9]), (0, [1, 2]), (0, [])] ∧ shared.files[2]? = some file ∧
      file.offset = 0 ∧
      ∃ file' bytes, ramfsFileRead shared.r file 2 = .ok (file', 2, bytes) ∧ bytes[1]? = some 9 := by
  obtain ⟨shared, reached, history, found, size⟩ : ∃ shared, sharedFile.Reaches Current
        { r := recordCreate fun _ _ => 0, files := [], history := [(0, [])] } shared ∧
      shared.history = [(1, [9]), (0, [1, 2]), (0, [])] ∧ shared.files[2]? = some { cursor := some 0, offset := 0 } ∧
      shared.r.size = 2 :=
    Machine.run_exists [.opens, .writes 0 [1, 2], .opens, .reads 1 1, .writes 1 [9], .opens] (by decide +kernel)
  have created : Filled (recordCreate fun _ _ => 0).chunks :=
    ⟨by simp [recordCreate], by simp [recordCreate]⟩
  obtain ⟨reads, _⟩ := handles_coherent created (by simp [recordCreate]) rfl (by decide) reached found
  obtain ⟨file', bytes, read, _, last⟩ := reads 2 (Nat.le_of_eq size.symm) (Or.inr (by simp))
  refine ⟨shared, _, history, found, rfl, file', bytes, read, ?_⟩
  rw [last 1 (by decide), history]
  rfl

/-- Two handles are opened on the same new file, and each writes one byte: the second byte
does not replace the first one. -/
theorem second_handle_misses_chunk :
    ∃ shared file, sharedFile.Reaches (fun _ _ => True)
        { r := recordCreate (fun _ _ => 0), files := [], history := [(0, [])] } shared ∧
      shared.history = [(0, [2]), (0, [1]), (0, [])] ∧ shared.files[2]? = some file ∧ file.offset = 0 ∧
      latest shared.history 0 = some 2 ∧
      ∃ file', ramfsFileRead shared.r file 1 = .ok (file', 1, [1]) := by
  obtain ⟨shared, reached, history, found, read⟩ : ∃ shared, sharedFile.Reaches (fun _ _ => True)
        { r := recordCreate fun _ _ => 0, files := [], history := [(0, [])] } shared ∧
      shared.history = [(0, [2]), (0, [1]), (0, [])] ∧ shared.files[2]? = some { cursor := some 0, offset := 0 } ∧
      ramfsFileRead shared.r { cursor := some 0, offset := 0 } 1 = .ok ({ cursor := some 0, offset := 1 }, 1, [1]) :=
    Machine.run_exists [.opens, .opens, .writes 0 [1], .writes 1 [2], .opens] (by decide +kernel)
  refine ⟨shared, _, reached, history, found, rfl, ?_, _, read⟩
  rw [history]
  rfl

end KOs.Fs

import KOs.Data.Paged
import KOs.Fs.Ramfs

namespace KOs.Fs

open KOs.Common KOs.Data List Chunk

def Chunk.bytes (c : Chunk) : List UInt8 := span c.buff 0 c.used

def Record.contents (r : Record) : List UInt8 := r.chunks.flatMap Chunk.bytes

/-- Every chunk but the last is full. -/
structure Filled (chunks : List Chunk) : Prop where
  full : ∀ i c, chunks[i]? = some c → i + 1 < chunks.length → c.used = chunkSize
  within : ∀ c ∈ chunks, c.used ≤ chunkSize

def usedAt (chunks : List Chunk) (i : Nat) : Nat := (chunks[i]?).elim 0 Chunk.used

def buffAt (chunks : List Chunk) (i : Nat) : Nat → UInt8 := (chunks[i]?).elim (fun _ => 0) Chunk.buff

def Holds (chunks : List Chunk) (contents : List UInt8) : Prop :=
  Paged chunkSize chunks.length (usedAt chunks) (buffAt chunks) contents

variable {chunks : List Chunk} {contents : List UInt8}

theorem chunkSize_positive : 0 < chunkSize := by decide

variable {c : Chunk} {i : Nat}

theorem usedAt_eq (found : chunks[i]? = some c) : usedAt chunks i = c.used := by
  rw [usedAt, found]
  rfl

theorem buffAt_eq (found : chunks[i]? = some c) : buffAt chunks i = c.buff := by
  rw [buffAt, found]
  rfl

theorem flatMap_bytes_length (full : ∀ c ∈ chunks, c.used = chunkSize) :
    (chunks.flatMap Chunk.bytes).length = chunks.length * chunkSize := by
  induction chunks with
  | nil => simp
  | cons c _ ih =>
    have first : c.bytes.length = chunkSize := by simp [bytes, full c mem_cons_self]
    rw [flatMap_cons, length_append, first,
      ih fun other mem => full other (mem_cons_of_mem _ mem), length_cons, Nat.succ_mul,
      add_comm]

theorem flatMap_bytes_split (found : chunks[i]? = some c) :
    chunks.flatMap Chunk.bytes =
      (chunks.take i).flatMap Chunk.bytes ++ (c.bytes ++ (chunks.drop (i + 1)).flatMap Chunk.bytes) := by
  obtain ⟨bound, rfl⟩ := List.getElem?_eq_some_iff.mp found
  rw [← List.flatMap_cons, ← List.drop_eq_getElem_cons _, ← List.flatMap_append, List.take_append_drop]

theorem Filled.take_length (filled : Filled chunks) (bound : i < chunks.length) :
    ((chunks.take i).flatMap Chunk.bytes).length = i * chunkSize := by
  rw [flatMap_bytes_length, List.length_take_of_le (bound.le)]
  intro c mem
  obtain ⟨k, found⟩ := List.mem_iff_getElem?.mp mem
  have early : k < i := by
    obtain ⟨within, _⟩ := List.getElem?_eq_some_iff.mp found
    rw [List.length_take] at within
    omega
  rw [List.getElem?_take_of_lt early] at found
  exact filled.full k c found (by omega)

theorem Filled.holds (filled : Filled chunks) : Holds chunks (chunks.flatMap Chunk.bytes) := by
  have split : ∀ i, (bound : i < chunks.length) → ∃ c, chunks[i]? = some c ∧ c.used ≤ chunkSize ∧
      (i + 1 < chunks.length → c.used = chunkSize) ∧
      (chunks.flatMap bytes).length =
        i * chunkSize + (c.used + ((chunks.drop (i + 1)).flatMap bytes).length) := by
    intro i bound
    have found := getElem?_eq_getElem bound
    refine ⟨_, found, filled.within _ (getElem_mem _), filled.full i _ found, ?_⟩
    rw [flatMap_bytes_split found, length_append, length_append, filled.take_length bound, bytes, span_length]
  refine ⟨?_, ?_, ?_, ?_⟩
  · cases last : chunks.length with
    | zero =>
      rw [eq_nil_of_length_eq_zero last]
      simp
    | succ i =>
      obtain ⟨c, _, within, _, length⟩ := split i (by omega)
      rw [drop_of_length_le (by omega)] at length
      rw [Nat.succ_mul]
      simp only [flatMap_nil, length_nil] at length
      omega
  · intro i bound
    obtain ⟨c, _, _, _, length⟩ := split i bound
    omega
  · intro i bound
    obtain ⟨c, found, within, full, length⟩ := split i bound
    rw [usedAt_eq found]
    by_cases last : i + 1 < chunks.length
    · have _ := full last
      omega
    · rw [drop_of_length_le (by omega)] at length
      simp only [flatMap_nil, length_nil] at length
      omega
  · intro i j bound inside
    obtain ⟨c, found, _⟩ := split i bound
    rw [usedAt_eq found] at inside
    rw [buffAt_eq found, flatMap_bytes_split found,
      getElem?_append_right (by rw [filled.take_length bound]; omega), filled.take_length bound,
      Nat.add_sub_cancel_left, getElem?_append_left (by simpa [bytes] using inside), bytes,
      span_getElem? _ _ inside, zero_add]

theorem filled_of_holds (holds : Holds chunks contents) : Filled chunks := by
  refine ⟨?_, ?_⟩
  · intro i c found more
    have starts := holds.starts (i + 1) more
    have filled := holds.filled i (Nat.lt_of_succ_lt more)
    rw [usedAt_eq found] at filled
    rw [Nat.succ_mul] at starts
    omega
  · intro c mem
    obtain ⟨i, found⟩ := List.mem_iff_getElem?.mp mem
    obtain ⟨bound, _⟩ := List.getElem?_eq_some_iff.mp found
    have filled := holds.filled i bound
    rw [usedAt_eq found] at filled
    omega

theorem Holds.eq_contents (holds : Holds chunks contents) : chunks.flatMap Chunk.bytes = contents :=
  Paged.unique (filled_of_holds holds).holds chunkSize_positive holds

/-- The chunk of a position, or none behind the last one. -/
def cursorAt (count position : Nat) : Option Nat :=
  if position / chunkSize < count then some (position / chunkSize) else none

theorem listNext_eq (chunks : List Chunk) (c : Nat) :
    listNext chunks c = if c + 1 < chunks.length then some (c + 1) else none := by
  rw [listNext, nextCell]
  by_cases more : c + 1 < chunks.length
  · rw [if_pos more, if_pos more]
  · rw [if_neg more, if_neg more]

theorem listNext_eq_cursorAt {c position : Nat} (ends : position = c * chunkSize + chunkSize) :
    listNext chunks c = cursorAt chunks.length position := by
  have page : position / chunkSize = c + 1 := by
    rw [ends, ← Nat.succ_mul]
    exact Nat.mul_div_cancel _ chunkSize_positive
  rw [listNext_eq, cursorAt, page]

theorem cursorAfter_eq {c position : Nat} (here : c < chunks.length) (after : c * chunkSize < position)
    (within : position ≤ c * chunkSize + chunkSize) :
    cursorAfter chunks c position = cursorAt chunks.length position := by
  rw [cursorAfter]
  simp only [chunkSize] at after within
  split
  next middle =>
    have page : position / chunkSize = c := by
      simp only [chunkSize] at middle ⊢
      omega
    rw [cursorAt, page, if_pos here]
  next edge =>
    apply listNext_eq_cursorAt
    simp only [chunkSize] at edge ⊢
    omega

/-- A handle whose chunk is the one of its offset. -/
structure Tracks (chunks : List Chunk) (size : Nat) (file : Handle) : Prop where
  inside : file.offset ≤ size
  cursor : file.cursor = cursorAt chunks.length file.offset

theorem ramfsFileOpen_tracks (r : Record) (size : Nat) : Tracks r.chunks size (ramfsFileOpen r) := by
  refine ⟨Nat.zero_le _, ?_⟩
  cases found : r.chunks with
  | nil | cons => simp [ramfsFileOpen, cursorAt, found]

end KOs.Fs

import KOs.Fs.Rootramfs
import Mathlib.Data.List.Infix
import Mathlib.Data.List.TakeWhile

namespace KOs.Fs

open KOs.Common KOs.Data List Packer

/-- `entry_t` with what follows it. -/
inductive RootEntry where
  | dir (name : Name)
  | frecord (name : Name) (contents : List UInt8)
deriving DecidableEq, Repr

namespace RootEntry

def name : RootEntry → Name
  | dir name => name
  | frecord name _ => name

def contents : RootEntry → List UInt8
  | dir _ => []
  | frecord _ contents => contents

/-- The call of `nftw` for the entry, below a directory whose name has no separator. -/
def visit (top : Name) : RootEntry → Visit
  | dir name => { filepath := top ++ directorySeparator :: name, typeflag := .ftwD, contents := [] }
  | frecord name contents =>
      { filepath := top ++ directorySeparator :: name, typeflag := .ftwF, contents }

def bytes : RootEntry → List UInt8
  | dir name => entryTypeDir :: (wordBytes name.length ++ name)
  | frecord name contents =>
      entryTypeFrecord :: (wordBytes name.length ++ name) ++ (wordBytes contents.length ++ contents)

/-- Whether a pathname is cut at a position: at a separator, but not at the first character nor
at the one behind a cut. -/
def cutAt (pathname : Name) : Nat → Bool
  | 0 => false
  | i + 1 => !cutAt pathname i && pathname[i + 1]? = some directorySeparator

def partsFrom (pathname : Name) (start count : Nat) : List Call :=
  ((List.range' start count).filter (cutAt pathname)).map
    (fun i => .vfsCreate (pathname.take i) (0o040000 ||| 0o755))

def calls : RootEntry → List Call
  | dir name =>
      .loading (name ++ [directorySeparator]) :: partsFrom (name ++ [directorySeparator]) 0 (name.length + 1)
  | frecord name contents =>
      [.loading name, .vfsCreate name (0o100000 ||| 0o755), .vfsOpenFile, .vfsWrite contents]

theorem contents_short (entry : RootEntry) : entry.contents.length + 4 < entry.bytes.length := by
  cases entry <;> simp [contents, bytes] <;> omega

structure Valid (entry : RootEntry) : Prop where
  nonempty : entry.name ≠ []
  nulFree : 0 ∉ entry.name

end RootEntry

def imageBytes (entries : List RootEntry) : List UInt8 := magic ++ entries.flatMap RootEntry.bytes

structure Packed (packer : Packer) (bytes : List UInt8) : Prop where
  off : packer.off = bytes.length
  image : span packer.buff 0 packer.off = bytes

variable {buff : Nat → UInt8} {capacity off : Nat} {bytes : List UInt8}
variable {address position : Nat} {name : Name}

theorem Packer.put_eq (fits : address + bytes.length ≤ capacity) :
    Packer.put { buff, capacity, off } address bytes = .ok { buff := store buff address bytes, capacity, off } :=
  if_pos fits

theorem Packer.advance_eq {amount : Nat} (small : off + amount < wordSize) :
    Packer.advance { buff, capacity, off } amount = { buff, capacity, off := off + amount } := by
  rw [advance, wadd_eq small]

theorem headerAlloc_eq (fits : 4 ≤ capacity) :
    headerAlloc { buff, capacity, off := 0 } = .ok { buff := store buff 0 magic, capacity, off := 4 } := by
  rw [headerAlloc, put_eq (by simpa [magic] using fits)]
  rfl

theorem entryAlloc_eq {filepath : Name} {type : UInt8} (fits : off + 5 + filepath.length ≤ capacity)
    (small : off + 5 + filepath.length < wordSize) :
    entryAlloc { buff, capacity, off } filepath type = .ok
      { buff := store (store (store buff off [type]) (off + 1) (wordBytes filepath.length)) (off + 5) filepath
        capacity
        off := off + 5 + filepath.length } := by
  have length : filepath.length % wordSize = filepath.length := Nat.mod_eq_of_lt (by omega)
  simp only [entryAlloc, length, advance_eq (show off + 5 < wordSize by omega), take_length]
  rw [put_eq (by simp only [length_singleton]; omega)]
  change (put _ _ _).bind _ = _
  rw [put_eq (by rw [wordBytes_length]; omega)]
  change (put _ _ _).bind _ = _
  rw [put_eq fits]
  change Except.ok (advance _ _) = _
  rw [advance_eq small]

variable {contents : List UInt8}

theorem freadTurn_eq (fits : off + contents.length ≤ capacity) (small : 2 * contents.length < wordSize) :
    freadTurn contents.length { packer := { buff, capacity, off }, b := 0, unread := contents, skipped := false } =
      .ok { packer := { buff := store buff off contents, capacity, off }
            b := contents.length, unread := [], skipped := false } := by
  have length : signed (contents.length % wordSize) = contents.length := by
    rw [Nat.mod_eq_of_lt (by omega), signed_eq small]
  simp only [freadTurn, take_length, drop_length, length, Int.add_zero, Int.toNat_natCast, Int.zero_add]
  have complete : ¬ (contents.length : Int) = -1 := by omega
  rw [if_neg (by omega), put_eq fits]
  rfl

theorem frecordAlloc_eq (fits : off + 4 + contents.length ≤ capacity) (small : off + 4 + contents.length < wordSize)
    (short : 2 * contents.length < wordSize) :
    frecordAlloc { buff, capacity, off } contents = .ok
      { buff := store (store buff (off + 4) contents) off (wordBytes contents.length)
        capacity
        off := off + 4 + contents.length } := by
  simp only [frecordAlloc, advance_eq (show off + 4 < wordSize by omega)]
  rw [freadTurn_eq fits short]
  change (whileLoop _ _ _ _ _).bind _ = _
  rw [whileLoop_stops (by simp [freadGoes])]
  change put (advance _ _) _ _ = _
  rw [advance_eq small, put_eq (by rw [wordBytes_length]; omega)]

theorem frecordAlloc_overruns (small : off + 4 < wordSize) (exceeds : capacity < off + 4 + contents.length) :
    frecordAlloc { buff, capacity, off } contents = .error (.outOfBounds "buff" (off + 4 + contents.length - 1)) := by
  simp only [frecordAlloc, advance_eq small, freadTurn, take_length, Int.add_zero, Int.toNat_natCast]
  rw [if_neg (by omega), put, if_neg (Nat.not_le_of_lt exceeds)]
  rfl

theorem span_pack (buff : Nat → UInt8) (off : Nat) (bytes : List UInt8) :
    span (store buff off bytes) 0 (off + bytes.length) = span buff 0 off ++ bytes := by
  simpa using span_store_append buff 0 off _

variable {packer : Packer}

theorem Packed.entry (packed : Packed packer bytes) (filepath : Name) (type : UInt8)
    (fits : bytes.length + 5 + filepath.length ≤ packer.capacity)
    (small : bytes.length + 5 + filepath.length < wordSize) :
    ∃ packer', entryAlloc packer filepath type = .ok packer' ∧
      Packed packer' (bytes ++ type :: (wordBytes filepath.length ++ filepath)) ∧
      packer'.capacity = packer.capacity := by
  obtain ⟨buff, capacity, off⟩ := packer
  obtain ⟨rfl, image⟩ := packed
  refine ⟨_, entryAlloc_eq fits small, ⟨by simp; omega, ?_⟩, rfl⟩
  have typed := span_pack buff bytes.length [type]
  have named := span_pack (store buff bytes.length [type]) (bytes.length + 1) (wordBytes filepath.length)
  have filled := span_pack (store (store buff bytes.length [type]) (bytes.length + 1) (wordBytes filepath.length))
  rw [length_singleton] at typed
  rw [wordBytes_length, add_assoc, typed, image] at named
  rw [filled, named]
  simp

theorem Packed.frecord (packed : Packed packer bytes) (contents : List UInt8)
    (fits : bytes.length + 4 + contents.length ≤ packer.capacity)
    (small : bytes.length + 4 + contents.length < wordSize) (short : 2 * contents.length < wordSize) :
    ∃ packer', frecordAlloc packer contents = .ok packer' ∧
      Packed packer' (bytes ++ (wordBytes contents.length ++ contents)) ∧
      packer'.capacity = packer.capacity := by
  obtain ⟨buff, capacity, off⟩ := packer
  obtain ⟨rfl, image⟩ := packed
  refine ⟨_, frecordAlloc_eq fits small short, ⟨by simp; omega, ?_⟩, rfl⟩
  have sized := span_pack buff bytes.length (wordBytes contents.length)
  have filled := span_pack (store buff bytes.length (wordBytes contents.length)) (bytes.length + 4) contents
  rw [wordBytes_length, image] at sized
  rw [store_comm (by rw [wordBytes_length]), filled, sized, append_assoc]

variable {top : Name}

theorem stripped (plain : directorySeparator ∉ top) (name : Name) :
    ((top ++ directorySeparator :: name).dropWhile (· ≠ directorySeparator)).tail = name := by
  rw [dropWhile_append_of_pos]
  · simp
  · intro c mem
    simpa using ne_of_mem_of_not_mem mem plain

theorem buildEntry_visit (plain : directorySeparator ∉ top) {entry : RootEntry} (valid : entry.Valid) :
    buildEntry packer (entry.visit top) = match entry with
      | .dir name => entryAlloc packer name entryTypeDir
      | .frecord name contents => (entryAlloc packer name entryTypeFrecord).bind (frecordAlloc · contents) := by
  cases entry with
  | dir | frecord =>
    simp only [buildEntry, RootEntry.visit, stripped plain]
    exact if_neg valid.nonempty

theorem Packed.build (packed : Packed packer bytes) (plain : directorySeparator ∉ top) {entry : RootEntry}
    (valid : entry.Valid) (fits : bytes.length + entry.bytes.length ≤ packer.capacity)
    (small : bytes.length + entry.bytes.length < wordSize) (short : 2 * entry.contents.length < wordSize) :
    ∃ packer', buildEntry packer (entry.visit top) = .ok packer' ∧ Packed packer' (bytes ++ entry.bytes) ∧
      packer'.capacity = packer.capacity := by
  rw [buildEntry_visit plain valid]
  cases entry with
  | dir name =>
    simp only [RootEntry.bytes, length_cons, length_append, wordBytes_length] at fits small
    exact packed.entry name _ (by omega) (by omega)
  | frecord name contents =>
    simp only [RootEntry.bytes, length_cons, length_append, wordBytes_length] at fits small
    obtain ⟨named, ran, entry, capacity⟩ := packed.entry name entryTypeFrecord (by omega) (by omega)
    obtain ⟨filled, stored, whole, same⟩ := entry.frecord contents
      (by simp only [length_append, length_cons, wordBytes_length]; omega)
      (by simp only [length_append, length_cons, wordBytes_length]; omega) short
    refine ⟨filled, ?_, by simpa [RootEntry.bytes] using whole, same.trans capacity⟩
    simp only
    rw [ran]
    exact stored

theorem Packer.put_returns {packer' : Packer} (ran : packer.put address bytes = .ok packer') :
    address + bytes.length ≤ packer.capacity ∧ packer' = { packer with buff := store packer.buff address bytes } := by
  rw [put] at ran
  split at ran
  next fits =>
    cases ran
    exact ⟨fits, rfl⟩
  · contradiction

theorem entryAlloc_returns {packer' : Packer} {filepath : Name} {type : UInt8}
    (small : packer.off + 5 + filepath.length < wordSize) (ran : entryAlloc packer filepath type = .ok packer') :
    packer.off + 5 + filepath.length ≤ packer.capacity ∧ packer'.off = packer.off + 5 + filepath.length ∧
      packer'.capacity = packer.capacity := by
  obtain ⟨buff, capacity, off⟩ := packer
  simp only at small
  have length : filepath.length % wordSize = filepath.length := Nat.mod_eq_of_lt (by omega)
  simp only [entryAlloc, length, advance_eq (show off + 5 < wordSize by omega), take_length] at ran
  obtain ⟨_, typed, ran⟩ := bind_returns ran
  obtain ⟨-, rfl⟩ := put_returns typed
  obtain ⟨_, sized, ran⟩ := bind_returns ran
  obtain ⟨-, rfl⟩ := put_returns sized
  obtain ⟨_, named, ran⟩ := bind_returns ran
  obtain ⟨fits, rfl⟩ := put_returns named
  cases ran
  exact ⟨fits, wadd_eq small, rfl⟩

theorem Packed.build_fits {packer' : Packer} (packed : Packed packer bytes) (plain : directorySeparator ∉ top)
    {entry : RootEntry} (valid : entry.Valid) (small : bytes.length + entry.bytes.length < wordSize)
    (built : buildEntry packer (entry.visit top) = .ok packer') :
    bytes.length + entry.bytes.length ≤ packer.capacity := by
  rw [← packed.off] at small ⊢
  rw [buildEntry_visit plain valid] at built
  cases entry with
  | dir name =>
    simp only [RootEntry.bytes, length_cons, length_append, wordBytes_length] at small ⊢
    have fits := (entryAlloc_returns (by omega) built).1
    omega
  | frecord name contents =>
    simp only [RootEntry.bytes, length_cons, length_append, wordBytes_length] at small ⊢
    obtain ⟨⟨buff, capacity, off⟩, named, filled⟩ := bind_returns built
    obtain ⟨_, rfl, rfl⟩ := entryAlloc_returns (by omega) named
    by_contra _
    rw [frecordAlloc_overruns (by omega) (by omega)] at filled
    contradiction

theorem Packed.buildAll (packed : Packed packer bytes) (plain : directorySeparator ∉ top) (entries : List RootEntry)
    (valid : ∀ entry ∈ entries, entry.Valid) (inside : bytes.length ≤ packer.capacity)
    (half : 2 * packer.capacity ≤ wordSize) (small : bytes.length + (entries.flatMap RootEntry.bytes).length < wordSize) :
    (packer.capacity < bytes.length + (entries.flatMap RootEntry.bytes).length ∧
        ∃ fault, buildEntries packer (entries.map (·.visit top)) = .error fault) ∨
      (bytes.length + (entries.flatMap RootEntry.bytes).length ≤ packer.capacity ∧
        ∃ packer', buildEntries packer (entries.map (·.visit top)) = .ok packer' ∧
          Packed packer' (bytes ++ entries.flatMap RootEntry.bytes)) := by
  induction entries generalizing packer bytes with
  | nil => exact .inr ⟨by simpa using inside, packer, rfl, by simpa using packed⟩
  | cons entry rest ih =>
    simp only [flatMap_cons, length_append] at small ⊢
    rw [map_cons, buildEntries]
    by_cases fits : bytes.length + entry.bytes.length ≤ packer.capacity
    · have short := entry.contents_short
      obtain ⟨next, built, behind, capacity⟩ := packed.build plain (valid entry mem_cons_self)
        fits (by omega) (by omega)
      have others := ih behind (fun other mem => valid other (mem_cons_of_mem _ mem))
        (by rw [length_append, capacity]; exact fits) (by rw [capacity]; exact half) (by rw [length_append]; omega)
      rw [built, ok_bind]
      simpa only [length_append, append_assoc, add_assoc, capacity] using others
    · cases built : buildEntry packer (entry.visit top) with
      | error fault => exact .inl ⟨by omega, fault, rfl⟩
      | ok => exact absurd (packed.build_fits plain (valid entry mem_cons_self) (by omega) built) fits

theorem mkrootramfs_cases (buff : Nat → UInt8) (plain : directorySeparator ∉ top) (entries : List RootEntry)
    (valid : ∀ entry ∈ entries, entry.Valid) (header : 4 ≤ capacity) (half : 2 * capacity ≤ wordSize)
    (small : (imageBytes entries).length < wordSize) :
    (capacity < (imageBytes entries).length ∧
        ∃ fault, mkrootramfs buff capacity (entries.map (·.visit top)) = .error fault) ∨
      ((imageBytes entries).length ≤ capacity ∧
        mkrootramfs buff capacity (entries.map (·.visit top)) = .ok (imageBytes entries)) := by
  have packed : Packed { buff := store buff 0 magic, capacity, off := 4 } magic := ⟨rfl, span_store buff 0 magic⟩
  rw [mkrootramfs, headerAlloc_eq header, ok_bind, imageBytes, length_append]
  rw [imageBytes, length_append] at small
  rcases packed.buildAll plain entries valid header half small with ⟨exceeds, fault, failed⟩ | ⟨fits, next, built, whole⟩
  · exact .inl ⟨exceeds, fault, by rw [failed, error_bind]⟩
  · exact .inr ⟨fits, by rw [built]; exact congrArg Except.ok whole.image⟩

variable {image : List UInt8} {after : List UInt8}

theorem bytesAt_middle (before : List UInt8) {middle : List UInt8} (whole : image = before ++ (middle ++ after))
    {count : Nat} (here : position = before.length) (length : count = middle.length) :
    bytesAt image position count = .ok middle := by
  subst whole here length
  rw [bytesAt, if_pos (by simp), drop_left, take_left]

theorem wordAt_middle (before : List UInt8) {value : Nat} (whole : image = before ++ (wordBytes value ++ after)) (here : position = before.length) (small : value < wordSize) :
    wordAt image position = .ok value := by
  rw [wordAt, bytesAt_middle _ whole here (wordBytes_length _).symm]
  change Except.ok (wordOf (wordBytes value)) = _
  rw [wordOf_wordBytes small]

theorem cString_eq (nulFree : 0 ∉ name) : cString name = name := by
  rw [cString, takeWhile_eq_self_iff]
  intro c mem
  simpa using ne_of_mem_of_not_mem mem nulFree

def LoadedSoFar (entries : List RootEntry) (loading : Loading) : Prop :=
  ∃ before after, entries = before ++ after ∧ loading.off = (imageBytes before).length ∧
    loading.calls = before.flatMap RootEntry.calls

theorem entry_named {tag : UInt8} {name rest before : List UInt8}
    (whole : image = before ++ tag :: (wordBytes name.length ++ (name ++ rest))) (small : name.length < wordSize) :
    bytesAt image before.length 1 = .ok [tag] ∧ wordAt image (before.length + 1) = .ok name.length ∧
      bytesAt image (before.length + 5) name.length = .ok name :=
  ⟨bytesAt_middle _ whole rfl rfl, wordAt_middle (before ++ [tag]) (by simpa using whole) (by simp) small,
    bytesAt_middle (before ++ tag :: wordBytes name.length) (by simpa using whole) (by simp) rfl⟩

variable {entries : List RootEntry}

section Loading

variable {answer : List Call → Int} (succeeds : ∀ calls, 0 ≤ answer calls)

include succeeds

theorem createParts_eq (first : Bool) (before rest : Name) (calls : List Call)
    (here : RootEntry.cutAt (before ++ rest) before.length = (!first && rest.head? = some directorySeparator)) :
    createParts answer first before rest calls =
      .ok (calls ++ RootEntry.partsFrom (before ++ rest) before.length rest.length) := by
  induction rest generalizing first before calls with
  | nil => simp [createParts, RootEntry.partsFrom]
  | cons c rest ih =>
    have split : before ++ c :: rest = before ++ [c] ++ rest := append_cons before c rest
    -- a cut is what the next character is not compared after
    have next : RootEntry.cutAt (before ++ [c] ++ rest) (before ++ [c]).length =
        (!RootEntry.cutAt (before ++ c :: rest) before.length && rest.head? = some directorySeparator) := by
      rw [← split, length_append, length_singleton, RootEntry.cutAt, split, ← head?_drop,
        ← length_singleton (a := c), ← length_append, drop_left]
    rw [createParts, RootEntry.partsFrom, length_cons, range'_succ, filter_cons, here]
    simp only [here, head?_cons, Option.some_inj] at next ⊢
    cases cut : (!first && decide (c = directorySeparator)) with
    | true =>
      have ok := succeeds (calls ++ [.vfsCreate before (0o040000 ||| 0o755)])
      have kept : ¬ (answer (calls ++ [.vfsCreate before (0o040000 ||| 0o755)]) < 0 ∧
          answer (calls ++ [.vfsCreate before (0o040000 ||| 0o755)]) ≠ -eexist) := by omega
      rw [cut] at next
      simp only [if_true, if_neg kept, map_cons, take_left]
      rw [ih _ _ _ next, split]
      simp [RootEntry.partsFrom]
    | false =>
      rw [cut] at next
      simp only [Bool.false_eq_true, if_false]
      rw [ih _ _ _ next, split]
      simp [RootEntry.partsFrom]

theorem entryReconstruct_eq {entry : RootEntry} (valid : entry.Valid) {before : List UInt8}
    (whole : image = before ++ (entry.bytes ++ after)) (small : image.length < wordSize) (calls : List Call) :
    entryReconstruct answer image before.length calls = .ok (calls ++ entry.calls, entry.bytes.length) := by
  cases entry with
  | dir name =>
    have nulFree : 0 ∉ name := valid.nulFree
    simp only [RootEntry.bytes, cons_append, append_assoc] at whole
    have length := congrArg length whole
    simp only [length_append, length_cons, wordBytes_length] at length
    obtain ⟨type, nameLen, named⟩ := entry_named whole (by omega)
    have pathname : cString (name ++ [directorySeparator]) = name ++ [directorySeparator] :=
      cString_eq (by simpa [directorySeparator] using nulFree)
    rw [entryReconstruct, type]
    simp only [if_true, nameLen, named, pathname, createParts_eq succeeds true [] _ _ rfl, ok_bind]
    rw [wadd_eq (by omega)]
    simp [RootEntry.calls, RootEntry.bytes]
    omega
  | frecord name contents =>
    have nulFree : 0 ∉ name := valid.nulFree
    simp only [RootEntry.bytes, cons_append, append_assoc] at whole
    have length := congrArg length whole
    simp only [length_append, length_cons, wordBytes_length] at length
    obtain ⟨type, nameLen, named⟩ := entry_named whole (by omega)
    have len : wordAt image (before.length + 5 + name.length) = .ok contents.length :=
      wordAt_middle (before ++ entryTypeFrecord :: (wordBytes name.length ++ name)) (by simpa using whole)
        (by simp; omega) (by omega)
    have data : bytesAt image (before.length + 5 + name.length + 4) contents.length = .ok contents :=
      bytesAt_middle (before ++ entryTypeFrecord :: (wordBytes name.length ++ (name ++ wordBytes contents.length)))
        (by simpa using whole) (by simp; omega) rfl
    have created := succeeds (calls ++ [.loading name, .vfsCreate name (0o100000 ||| 0o755)])
    have other : ¬ [entryTypeFrecord] = [entryTypeDir] := by decide
    rw [entryReconstruct, type]
    simp only [if_neg other, if_true, nameLen, named, cString_eq nulFree, if_neg (Int.not_lt.mpr created), len, data,
      ok_bind]
    rw [wadd_eq (show 5 + name.length < wordSize by omega), wadd_eq (show 5 + name.length + 4 < wordSize by omega),
      wadd_eq (by omega)]
    simp [RootEntry.calls, RootEntry.bytes]
    omega

section

variable (valid : ∀ entry ∈ entries, entry.Valid) (small : (imageBytes entries).length < wordSize)
include valid small

theorem loadTurn_step {loading : Loading} (soFar : LoadedSoFar entries loading)
    (goes : loadGoes (imageBytes entries).length loading = true) :
    ∃ next, loadTurn answer (imageBytes entries) loading = .ok next ∧ LoadedSoFar entries next ∧
      (imageBytes entries).length - next.off < (imageBytes entries).length - loading.off := by
  have more := of_decide_eq_true goes
  obtain ⟨before, after, rfl, off, calls⟩ := soFar
  cases after with
  | nil =>
    rw [append_nil] at more
    omega
  | cons entry after =>
    have whole : imageBytes (before ++ entry :: after) =
        imageBytes before ++ (entry.bytes ++ after.flatMap RootEntry.bytes) := by
      simp [imageBytes]
    have length := congrArg length whole
    simp only [length_append] at length
    have pos := entry.contents_short
    have read := entryReconstruct_eq succeeds (valid entry (by simp)) whole small loading.calls
    have moved : wadd loading.off entry.bytes.length = (imageBytes before).length + entry.bytes.length := by
      rw [off, wadd_eq (by omega)]
    rw [← off] at read
    refine ⟨{ off := wadd loading.off entry.bytes.length, calls := loading.calls ++ entry.calls }, ?_,
      ⟨before ++ [entry], after, by simp, by simp [moved, imageBytes, add_assoc], by simp [calls]⟩, ?_⟩
    · rw [loadTurn, read]
      rfl
    · simp only [moved]
      omega

theorem rootramfsLoad_eq :
    rootramfsLoad answer (imageBytes entries) (imageBytes entries).length =
      .ok (entries.flatMap RootEntry.calls, (imageBytes entries).length) := by
  have front : imageBytes entries = [] ++ (magic ++ entries.flatMap RootEntry.bytes) := rfl
  have header : bytesAt (imageBytes entries) 0 4 = .ok magic := bytesAt_middle [] front rfl rfl
  have loop : ∃ final, whileLoop (loadGoes (imageBytes entries).length) (loadTurn answer (imageBytes entries))
      Fault.unfinished _ { off := 4, calls := [] } = .ok _ ∧
      LoadedSoFar _ _ ∧ loadGoes (imageBytes _).length _ = false :=
    whileLoop_exists (fun loading => (imageBytes _).length - loading.off) ⟨[], entries, rfl, rfl, rfl⟩
      (Nat.lt_succ_of_le (Nat.sub_le _ _)) fun loading => loadTurn_step succeeds valid small
  obtain ⟨final, ran, ⟨before, after, rfl, off, calls⟩, stopped⟩ := loop
  have ends := of_decide_eq_false stopped
  have nothing : after = [] := by
    cases after with
    | nil => rfl
    | cons entry =>
      have pos := entry.contents_short
      simp only [imageBytes, flatMap_append, flatMap_cons, length_append] at ends off
      omega
  subst nothing
  rw [append_nil] at *
  rw [rootramfsLoad, header]
  simp only [ne_eq, not_true_eq_false, if_false, ran, ok_bind]
  rw [calls, off]
  rfl

end

end Loading

end KOs.Fs

import KOs.Arch.Growth
import KOs.Arch.Spaces
import KOs.Data.Coupling

namespace KOs.Arch.Paging

open KOs.Common KOs.Data KOs.Mm Function Option

variable {left right : Nat → Nat → BitVec 32}

section Bytes

def byteOf (lane : Nat) (word : BitVec 32) : BitVec 8 := word.extractLsb' (8 * lane) 8

theorem byteOf_withByte {place lane : Nat} (inside : place < 4) (small : lane < 4) (byte : UInt8) (word : BitVec 32) :
    byteOf place (withByte lane byte word) = if place = lane then BitVec.ofNat 8 byte.toNat else byteOf place word := by
  have mask : (0xFF : Nat) = 2 ^ 8 - 1 := by decide
  have bound : byte.toNat < 2 ^ 8 := byte.toNat_lt
  apply BitVec.eq_of_getLsbD_eq
  intro i below
  have inWord : 8 * place + i < 32 := by omega
  simp only [byteOf, withByte, mask, BitVec.getLsbD_extractLsb', below, decide_true, Bool.true_and, BitVec.getLsbD_or,
    BitVec.getLsbD_and, BitVec.getLsbD_not, BitVec.getLsbD_shiftLeft, BitVec.getLsbD_ofNat, inWord,
    Nat.testBit_two_pow_sub_one]
  by_cases same : place = lane
  · subst same
    have low : ¬ 8 * place + i < 8 * place := by omega
    have shifted : 8 * place + i - 8 * place = i := by omega
    simp only [low, shifted, below, decide_true, decide_false, Bool.not_false, Bool.true_and, Bool.and_true, Bool.not_true, Bool.and_false, Bool.false_or, if_true, BitVec.getLsbD_ofNat, show i < 32 by omega]
  · rw [if_neg same]
    rcases Nat.lt_or_gt_of_ne same with before | after
    · have low : 8 * place + i < 8 * lane := by omega
      simp [low, below]
    · have high : ¬ 8 * place + i - 8 * lane < 8 := by omega
      have clear : byte.toNat.testBit (8 * place + i - 8 * lane) = false :=
        Nat.testBit_lt_two_pow (bound.trans_le (Nat.pow_le_pow_right (by decide) (by omega)))
      simp [high, clear, below]

def SameByte (left right : Nat → Nat → BitVec 32) (frame off : Nat) : Prop :=
  byteOf (off % 4) (right frame (off / 4)) = byteOf (off % 4) (left frame (off / 4))

variable {frame off : Nat}

theorem SameByte.of_eq (same : right frame = left frame) : SameByte left right frame off := by
  rw [SameByte, same]

section

variable (same : SameByte left right frame off)
include same

theorem SameByte.putWord (place index : Nat) (word : BitVec 32) :
    SameByte (putWord left place index word) (putWord right place index word) frame off := by
  rw [SameByte, putWord_apply, putWord_apply]
  split
  · rfl
  · exact same

theorem SameByte.blank (table : Nat) (contents : Nat → BitVec 32) :
    SameByte (update left table contents) (update right table contents) frame off := by
  rw [SameByte, update_apply, update_apply]
  split
  · rfl
  · exact same

theorem SameByte.withTable (dir table i j : Nat) (entry blank word : BitVec 32) :
    SameByte (withTable left dir table i j entry blank word) (withTable right dir table i j entry blank word) frame off :=
  ((same.blank table _).putWord dir i entry).putWord table j word

theorem SameByte.cleared (flags : UInt32) (p n : Nat) :
    SameByte (cleared flags p n left) (cleared flags p n right) frame off := by
  rw [SameByte, Paging.cleared, Paging.cleared]
  split
  · dsimp only
    split
    · rfl
    · exact same
  · exact same

end

def putByte (words : Nat → Nat → BitVec 32) (frame off : Nat) (byte : UInt8) : Nat → Nat → BitVec 32 :=
  putWord words frame (off / 4) (withByte (off % 4) byte (words frame (off / 4)))

theorem byteOf_putByte (words : Nat → Nat → BitVec 32) (frame off : Nat) (byte : UInt8) (q place : Nat) :
    byteOf (place % 4) (putByte words frame off byte q (place / 4)) =
      if q = frame ∧ place = off then BitVec.ofNat 8 byte.toNat else byteOf (place % 4) (words q (place / 4)) := by
  rw [putByte]
  by_cases here : q = frame
  · subst here
    by_cases index : place / 4 = off / 4
    · have lanes : place % 4 = off % 4 ↔ place = off := by omega
      rw [index, putWord_here, byteOf_withByte (Nat.mod_lt _ (by decide)) (Nat.mod_lt _ (by decide))]
      simp [lanes]
    · have apart : place ≠ off := fun same => index (by rw [same])
      rw [putWord_beside index, if_neg fun both => apart both.2]
  · rw [putWord_elsewhere here, if_neg fun both => here both.1]

theorem SameByte.putByte (same : SameByte left right frame off) (place at_off : Nat) (byte : UInt8) :
    SameByte (putByte left place at_off byte) (putByte right place at_off byte) frame off := by
  rw [SameByte, byteOf_putByte, byteOf_putByte]
  split
  · rfl
  · exact same

theorem sameByte_putByte (left right : Nat → Nat → BitVec 32) (frame off : Nat) (byte : UInt8) :
    SameByte (putByte left frame off byte) (putByte right frame off byte) frame off := by
  rw [SameByte, byteOf_putByte, byteOf_putByte, if_pos ⟨rfl, rfl⟩, if_pos ⟨rfl, rfl⟩]

end Bytes

/-- The directory, its tables and the pages they lead to are frames of `free`. -/
structure Built (free : Set Nat) (dir : Nat) (words : Nat → Nat → BitVec 32) : Prop where
  own : dir ∈ free
  directory : Directory points (· < userTables) dir words
  linked : ∀ i, i < userTables → words dir i = 0 ∨ ∃ t ∈ free, points (words dir i) = some t
  pages : ∀ page w, page < userTables * numEntries → pageWord dir words page = some w → w ≠ 0 → frameOf w ∈ free

variable {dir : Nat}

variable {words words' : Nat → Nat → BitVec 32} {page : Nat}

theorem pageWord_congr (same : ∀ q ∈ spaceFrames dir words, words' q = words q)
    (inside : page < userTables * numEntries) :
    pageWord dir words' page = pageWord dir words page := by
  rw [pageWord, lookupWord, same dir (.inl rfl), pageWord, lookupWord]
  cases found : points (words dir (page / numEntries)) with
  | none => rfl
  | some t =>
    rw [map_some, map_some, same t (.inr ⟨_, page_table inside, found⟩)]

theorem spaceFrames_congr (same : words' dir = words dir) :
    spaceFrames dir words' = spaceFrames dir words := by
  rw [spaceFrames, spaceFrames, same]

theorem Built.congr {free : Set Nat} (built : Built free dir words)
    (same : ∀ q ∈ spaceFrames dir words, words' q = words q) : Built free dir words' := by
  have at_dir := same dir (.inl rfl)
  refine ⟨built.own, built.directory.of_same fun k _ => congrFun at_dir k, fun i below => ?_,
    fun page w inside found => ?_⟩
  · rw [at_dir]
    exact built.linked i below
  · rw [pageWord_congr same inside] at found
    exact built.pages page w inside found

variable {q : Nat}

theorem putWord_same (same : right q = left q) (frame index : Nat)
    (word : BitVec 32) : putWord right frame index word q = putWord left frame index word q := by
  by_cases here : q = frame
  · rw [← here, putWord, putWord, update_self, update_self, same]
  · rw [putWord_elsewhere here, putWord_elsewhere here, same]

variable {table : Nat}

theorem withTable_same (same : q = table ∨ right q = left q) (dir i j : Nat) (entry blank word : BitVec 32) :
    withTable right dir table i j entry blank word q = withTable left dir table i j entry blank word q := by
  refine putWord_same (putWord_same ?_ dir i _) _ j word
  by_cases here : q = table
  · rw [here, update_self, update_self]
  · rw [update_of_ne here, update_of_ne here]
    exact same.resolve_left here

theorem entryOf_user_ne_zero (phys : Nat) : entryOf phys userFlags ≠ 0 := by
  intro zero
  have present := isPresent_user phys
  rw [zero, isPresent_zero] at present
  contradiction

/-- A task in two stores.  Its address space is made of frames of `free`; the bytes at the addresses of
`written` are the same in both, and only pages of `touched` are mapped.  The frames outside `free` hold what
`left` and `right` say. -/
structure Twin (free : Set Nat) (left right : Nat → Nat → BitVec 32) (kind : Nat → Option Kind) (dir : Nat)
    (current : ArchThreadData) (written touched : Set Nat) (s t : Store) : Prop extends Placed kind dir current s where
  kernel : t.kernel = s.kernel
  kptab : t.kptabPhys = s.kptabPhys
  unused : freeSet s.frames ⊆ free
  built : Built free dir s.words
  tables : ∀ q ∈ spaceFrames dir s.words, t.words q = s.words q
  mapped : ∀ page w, page < userTables * numEntries → pageWord dir s.words page = some w → w ≠ 0 →
    page ∈ touched ∧ ∀ off, off < pageSize → page * pageSize + off ∈ written →
      SameByte s.words t.words (frameOf w) off
  held : ∀ v ∈ written, v < virtualBase → ∃ w, pageWord dir s.words (v / pageSize) = some w ∧ w ≠ 0
  kept : ∀ q, q ∉ free → s.words q = left q ∧ t.words q = right q

def Together (free : Set Nat) (left right : Nat → Nat → BitVec 32) (kind : Nat → Option Kind) (dir : Nat)
    (current : ArchThreadData) (written touched : Set Nat) (s t s' t' : Store) : Prop :=
  ∃ more, Twin free left right more dir current written touched s' t' ∧ Evolved kind s more s' ∧
    ∀ q off, SameByte s.words t.words q off → SameByte s'.words t'.words q off

variable {virt : Nat} {entry : BitVec 32}

section Twins

variable {free : Set Nat} {kind more : Nat → Option Kind} {current : ArchThreadData}
variable {written touched written' touched' : Set Nat} {s t s' t' s'' t'' : Store}
variable (twin : Twin free left right kind dir current written touched s t)

namespace Twin

section

include twin

theorem refl : Together free left right kind dir current written touched s t s t :=
  ⟨kind, twin, Evolved.refl kind s, fun _ _ same => same⟩

theorem mono (fewer : written' ⊆ written)
    (wider : touched ⊆ touched') : Twin free left right kind dir current written' touched' s t :=
  { twin with
    mapped := fun page w inside found some =>
      ⟨wider (twin.mapped page w inside found some).1,
        fun off small mem => (twin.mapped page w inside found some).2 off small (fewer mem)⟩
    held := fun v mem => twin.held v (fewer mem) }

end

end Twin

theorem Together.mono (together : Together free left right kind dir current written touched s t s' t')
    (fewer : written' ⊆ written) (wider : touched ⊆ touched') :
    Together free left right kind dir current written' touched' s t s' t' := by
  obtain ⟨more, twin, evolved, bytes⟩ := together
  exact ⟨more, twin.mono fewer wider, evolved, bytes⟩

theorem Together.after (evolved : Evolved kind s more s')
    (bytes : ∀ q off, SameByte s.words t.words q off → SameByte s'.words t'.words q off)
    (together : Together free left right more dir current written touched s' t' s'' t'') :
    Together free left right kind dir current written touched s t s'' t'' := by
  obtain ⟨most, twin, further, onward⟩ := together
  exact ⟨most, twin, evolved.trans further, fun q off same => onward q off (bytes q off same)⟩

namespace Twin

section

include twin

theorem known (mem : q ∈ spaceFrames dir s.words) : ∃ k, kind q = some k ∧ k ≠ .page := by
  rcases mem with rfl | ⟨i, below, found⟩
  · exact ⟨_, twin.directory, by decide⟩
  · exact ⟨_, twin.typed.points_table twin.directory below found, by decide⟩

theorem held_spaceFrames :
    Sound s.kernel.memory (spaceFrames dir s.words) := by
  refine twin.typed.sound.mono fun q mem => ?_
  obtain ⟨k, here, _⟩ := twin.known mem
  rw [Set.mem_ofPred_eq, here]
  nofun

theorem still (placed : Placed more dir current s')
    (kernel : t'.kernel = s'.kernel) (kptab : t'.kptabPhys = s'.kptabPhys)
    (fewer : freeSet s'.frames ⊆ freeSet s.frames)
    (same : ∀ q ∈ spaceFrames dir s.words, s'.words q = s.words q ∧ t'.words q = t.words q)
    (bytes : ∀ q off, SameByte s.words t.words q off → SameByte s'.words t'.words q off)
    (outside : ∀ q ∉ free, s'.words q = s.words q ∧ t'.words q = t.words q) :
    Twin free left right more dir current written touched s' t' := by
  have first : ∀ q ∈ spaceFrames dir s.words, s'.words q = s.words q := fun q mem => (same q mem).1
  have frames := spaceFrames_congr (first dir (.inl rfl))
  refine ⟨placed, kernel, kptab, fewer.trans twin.unused, twin.built.congr first, fun q mem => ?_,
    fun page w inside found some => ?_, fun v mem user => ?_, fun q beyond => ?_⟩
  · rw [frames] at mem
    rw [(same q mem).1, (same q mem).2, twin.tables q mem]
  · rw [pageWord_congr first inside] at found
    obtain ⟨here, each⟩ := twin.mapped page w inside found some
    exact ⟨here, fun off small mem => bytes _ _ (each off small mem)⟩
  · rw [pageWord_congr first (page_lt user)]
    exact twin.held v mem user
  · rw [(outside q beyond).1, (outside q beyond).2]
    exact twin.kept q beyond

theorem allocate {num : Nat} (pos : num ≠ 0) (flags : UInt32) :
    Coupled (fun a b => b.2 = a.2 ∧ ∃ more, Twin free left right more dir current written touched a.1 b.1 ∧
        Evolved kind s more a.1 ∧ (∀ q off, SameByte s.words t.words q off → SameByte a.1.words b.1.words q off) ∧
        ∀ q ∈ run a.2 num, more q = some .page ∧ q ∈ free ∧
          (flags &&& allocZero != 0 → ∀ off, SameByte a.1.words b.1.words q off))
      (allocPages num flags s) (allocPages num flags t) := by
  cases taken : Mm.allocPages num flags s.kernel.memory with
  | error reason =>
    rw [allocPages, allocPages, twin.kernel, taken]
    exact .stopped _
  | ok result =>
    obtain ⟨memory, page⟩ := result
    have sound := twin.typed.sound
    have granted := allocPages_granted sound pos taken
    have ran := allocPages_cleared sound pos taken
    have alike := allocPages_cleared (twin.kernel ▸ sound) pos (twin.kernel ▸ taken)
    obtain ⟨more, placed, evolved, pages⟩ := twin.toPlaced.allocate pos ran
    have bytes : ∀ q off, SameByte s.words t.words q off →
        SameByte _ _ q off :=
      fun q off same => same.cleared flags page num
    have inside : run page num ⊆ free := fun q mem => twin.unused (granted.free mem)
    rw [ran, alike]
    refine .returned ⟨rfl, more, twin.still placed ?_ twin.kptab evolved.memory.free (fun q mem => ?_) bytes
      fun q beyond => ?_, evolved, bytes, fun q mem => ⟨pages q mem, inside mem, fun zero off => ?_⟩⟩
    · dsimp only
      rw [twin.kernel]
    · obtain ⟨k, here, _⟩ := twin.known mem
      have apart := granted.fresh (twin.typed.held here)
      exact ⟨cleared_outside apart, cleared_outside apart⟩
    · have apart : q ∉ run page num := fun mem => beyond (inside mem)
      exact ⟨cleared_outside apart, cleared_outside apart⟩
    · apply SameByte.of_eq
      dsimp only at mem ⊢
      rw [cleared_inside zero mem, cleared_inside zero mem]

theorem table_free {i : Nat} (inside : i < userTables) (found : points (s.words dir i) = some table) :
    table ∈ free := by
  rcases twin.built.linked i inside with blank | ⟨other, listed, there⟩
  · rw [blank, points_zero] at found
    contradiction
  · rw [some.inj (found.symm.trans there)]
    exact listed

section

variable (present : entry ≠ 0) (own : frameOf entry ∈ free) (only : ∀ v ∈ written', v ∈ written ∨ v / pageSize = page)
  (same : ∀ off < pageSize, page * pageSize + off ∈ written' → SameByte s.words t.words (frameOf entry) off)
include present own only same

theorem updated (placed : Placed more dir current s') (kernel : t'.kernel = s'.kernel)
    (kptab : t'.kptabPhys = s'.kptabPhys) (fewer : freeSet s'.frames ⊆ freeSet s.frames)
    (step : Updated dir page entry s s')
    (linked : ∀ i < userTables, s'.words dir i = 0 ∨ ∃ table ∈ free, points (s'.words dir i) = some table)
    (tables : ∀ q ∈ spaceFrames dir s'.words, t'.words q = s'.words q)
    (bytes : ∀ q off, SameByte s.words t.words q off → SameByte s'.words t'.words q off)
    (outside : ∀ q ∉ free, s'.words q = s.words q ∧ t'.words q = t.words q) :
    Twin free left right more dir current written' (insert page touched) s' t' := by
  have before : ∀ other w, other < userTables * numEntries → other ≠ page → pageWord dir s'.words other = some w →
      w ≠ 0 → pageWord dir s.words other = some w := by
    intro other w below ne found nonzero
    rcases step.elsewhere other below ne with same | ⟨_, zero⟩
    · rw [← same, found]
    · rw [found] at zero
      exact absurd (some.inj zero) nonzero
  refine ⟨placed, kernel, kptab, fewer.trans twin.unused, ⟨twin.built.own, step.directory, linked,
    fun other w below found nonzero => ?_⟩, tables, fun other w below found nonzero => ?_, fun v mem user => ?_,
    fun q beyond => ?_⟩
  · by_cases here : other = page
    · rw [here, step.here] at found
      exact some.inj found ▸ own
    · exact twin.built.pages _ w below (before _ w below here found nonzero) nonzero
  · by_cases here : other = page
    · rw [here, step.here] at found
      cases found
      rw [here]
      exact ⟨Set.mem_insert _ _, fun off small mem => bytes _ _ (same off small mem)⟩
    · obtain ⟨known, each⟩ := twin.mapped _ w below (before _ w below here found nonzero) nonzero
      refine ⟨Set.mem_insert_of_mem _ known, fun off small mem => bytes _ _ (each off small ?_)⟩
      refine (only _ mem).resolve_right fun there => here ?_
      simp only [pageSize] at *
      omega
  · by_cases here : v / pageSize = page
    · rw [here, step.here]
      exact ⟨entry, rfl, present⟩
    · obtain ⟨w, found, nonzero⟩ := twin.held v ((only v mem).resolve_right here) user
      rcases step.elsewhere _ (page_lt user) here with same | ⟨missing, _⟩
      · exact ⟨w, same.trans found, nonzero⟩
      · rw [missing] at found
        contradiction
  · rw [(outside q beyond).1, (outside q beyond).2]
    exact twin.kept q beyond

theorem setEntry (inside : page < userTables * numEntries)
    (found : points (s.words dir (page / numEntries)) = some table)
    (placed : Placed more dir current { s with words := putWord s.words table (page % numEntries) entry }) :
    Twin free left right more dir current written' (insert page touched)
      { s with words := putWord s.words table (page % numEntries) entry }
      { t with words := putWord t.words table (page % numEntries) entry } := by
  have step := updated_present twin.held_spaceFrames twin.built.directory inside found entry
  have apart := twin.built.directory.apart _ table (page_table inside) found
  have theirs := twin.table_free (page_table inside) found
  have at_dir : putWord s.words table (page % numEntries) entry dir = s.words dir := putWord_elsewhere apart.symm
  refine twin.updated present own only same placed twin.kernel twin.kptab (fun _ free => free) step (fun i below => ?_)
    (fun q mem => ?_) (fun q off same => same.putWord _ _ _) fun q beyond => ?_
  · dsimp only
    rw [at_dir]
    exact twin.built.linked i below
  · rw [spaceFrames_congr at_dir] at mem
    exact putWord_same (twin.tables q mem) _ _ _
  · have other : q ≠ table := fun same => beyond (same ▸ theirs)
    exact ⟨putWord_elsewhere other, putWord_elsewhere other⟩

theorem addTable (zero : 0 ∉ free) {memory : Memory} (inside : page < userTables * numEntries)
    (missing : points (s.words dir (page / numEntries)) = none) (granted : Granted table 1 s.kernel.memory memory)
    (placed : Placed more dir current { s with
      kernel.memory := memory
      words := withTable s.words dir table (page / numEntries) (page % numEntries)
        (entryOf (pageToPhys table) userFlags) 0 entry }) :
    Twin free left right more dir current written' (insert page touched)
      { s with
        kernel.memory := memory
        words := withTable s.words dir table (page / numEntries) (page % numEntries)
          (entryOf (pageToPhys table) userFlags) 0 entry }
      { t with
        kernel.memory := memory
        words := withTable t.words dir table (page / numEntries) (page % numEntries)
          (entryOf (pageToPhys table) userFlags) 0 entry } := by
  have listed : table ∈ freeSet s.frames := granted.free (mem_run_one.mpr rfl)
  have theirs : table ∈ free := twin.unused listed
  have nonzero : table ≠ 0 := fun same => zero (same ▸ theirs)
  have fresh : table ≠ dir := by
    rintro rfl
    exact (twin.typed.held twin.directory).taken listed
  have names : points (entryOf (pageToPhys table) userFlags) = some table :=
    points_table (granted.backed _ (mem_run_one.mpr rfl)).range nonzero
  have step := updated_absent twin.held_spaceFrames twin.built.directory inside missing granted nonzero entry
  refine twin.updated present own only same placed ?_ twin.kptab granted.grown.free step (fun i below => ?_)
    (fun q mem => ?_) (fun q off same => same.withTable _ _ _ _ _ _ _) fun q beyond => ?_
  · dsimp only
    rw [twin.kernel]
  · dsimp only
    rw [Directory.withTable_dir fresh]
    split
    · exact .inr ⟨table, theirs, names⟩
    · exact twin.built.linked i below
  · refine withTable_same ?_ _ _ _ _ _ _
    rcases mem with rfl | ⟨i, below, found⟩
    · exact .inr (twin.tables q (.inl rfl))
    · dsimp only at found
      rw [Directory.withTable_dir fresh] at found
      split at found
      · exact .inl (some.inj (found.symm.trans names))
      · exact .inr (twin.tables q (.inr ⟨i, below, found⟩))
  · have other : q ≠ table := fun same => beyond (same ▸ theirs)
    have notDir : q ≠ dir := fun same => beyond (same ▸ twin.built.own)
    exact ⟨Directory.withTable_other notDir other, Directory.withTable_other notDir other⟩

end

theorem reaching {i : Nat} (inside : i < userTables) :
    Reaching current dir i s ∧ Reaching current dir i t := by
  have first := twin.typed.reaching twin.directory twin.addr inside
  refine ⟨first, ?_, ?_, ?_, first.inside, fun table found => ?_⟩
  · rw [Store.kmap, twin.kernel]
    exact first.room
  · rw [twin.kernel]
    exact first.directory
  · rw [Store.frames, twin.kernel]
    exact first.addr
  · rw [twin.tables dir (.inl rfl)] at found
    rw [twin.kernel]
    exact first.table _ found

theorem userMapPage_eq (user : virt < virtualBase) (phys : Nat) :
    userMapPage current virt phys s =
        userMapped dir (virt / pageSize / numEntries) (virt / pageSize % numEntries) phys s ∧
      userMapPage current virt phys t =
        userMapped dir (virt / pageSize / numEntries) (virt / pageSize % numEntries) phys t := by
  obtain ⟨index, inside⟩ := addrToDiridx_user user
  obtain ⟨here, there⟩ := twin.reaching inside
  have second : virt / pageSize % numEntries < numEntries := Nat.mod_lt _ (by decide)
  rw [userMapPage, userMapPage, index, addrToTabidx_eq]
  exact ⟨doUserMapPage_eq twin.typed.sound here second phys,
    doUserMapPage_eq (twin.kernel ▸ twin.typed.sound) there second phys⟩

theorem map (zero : 0 ∉ free) {phys : Nat} (user : virt < virtualBase)
    (page : kind (frameOf (entryOf phys userFlags)) = some .page) (own : frameOf (entryOf phys userFlags) ∈ free)
    (only : ∀ v ∈ written', v ∈ written ∨ v / pageSize = virt / pageSize)
    (same : ∀ off < pageSize, virt / pageSize * pageSize + off ∈ written' →
      SameByte s.words t.words (frameOf (entryOf phys userFlags)) off) :
    Coupled (Together free left right kind dir current written' (insert (virt / pageSize) touched) s t)
      (userMapPage current virt phys s) (userMapPage current virt phys t) := by
  obtain ⟨ran, alike⟩ := twin.userMapPage_eq user phys
  have forward : ∀ after, userMapPage current virt phys s = .ok after → Onward kind dir current s after :=
    fun _ => twin.toPlaced.map user page
  have present := entryOf_user_ne_zero phys
  rw [ran] at forward ⊢
  rw [alike, userMapped, userMapped, twin.tables dir (.inl rfl), twin.kernel]
  rw [userMapped] at forward
  cases found : points (s.words dir (virt / pageSize / numEntries)) with
  | some =>
    rw [found] at forward
    obtain ⟨more, placed, evolved⟩ := forward _ rfl
    have after := twin.setEntry present own only same (page_lt user) found placed
    rw [twin.kernel] at after
    exact .returned ⟨more, after, evolved, fun q off same => same.putWord _ _ _⟩
  | none =>
    rw [found] at forward
    cases taken : Mm.allocPages 1 allocZero s.kernel.memory with
    | error reason => exact .stopped _
    | ok =>
      rw [taken] at forward
      obtain ⟨more, placed, evolved⟩ := forward _ rfl
      have granted := allocPages_granted twin.typed.sound (by decide) taken
      have after := twin.addTable present own only same zero (page_lt user) found granted placed
      rw [twin.kernel] at after
      exact .returned ⟨more, after, evolved, fun q off same => same.withTable _ _ _ _ _ _ _⟩

theorem kmalloc (size : Nat) :
    Coupled (fun a b => b.2 = a.2 ∧ Together free left right kind dir current written touched s t a.1 b.1)
      (Paging.kmalloc size s) (Paging.kmalloc size t) := by
  have forward : ∀ after mem, Paging.kmalloc size s = .ok (after, mem) → Onward kind dir current s after :=
    fun _ _ => twin.toPlaced.kmalloc
  rw [Paging.kmalloc] at forward ⊢
  rw [Paging.kmalloc, twin.kernel]
  cases taken : Mm.kmalloc size s.kernel with
  | error reason => exact .stopped _
  | ok =>
    rw [taken] at forward
    obtain ⟨more, placed, evolved⟩ := forward _ _ rfl
    exact .returned ⟨rfl, more, twin.still placed rfl twin.kptab evolved.memory.free (fun _ _ => ⟨rfl, rfl⟩)
      (fun _ _ same => same) fun _ _ => ⟨rfl, rfl⟩, evolved, fun _ _ same => same⟩

theorem readFrame_space (mem : q ∈ spaceFrames dir s.words) (i : Nat) :
    readFrame q i s = s.words q i ∧ readFrame q i t = s.words q i := by
  obtain ⟨k, here, _⟩ := twin.known mem
  have none := twin.apart q k here
  rw [readFrame, none, readFrame, kptabTable_congr twin.kptab, none, twin.tables q mem]
  exact ⟨rfl, rfl⟩

theorem translate_same (user : virt < virtualBase) :
    translate current.cr3 virt t = translate current.cr3 virt s ∧ ∀ frame, translate current.cr3 virt s = .ok frame →
      ∃ w, pageWord dir s.words (virt / pageSize) = some w ∧ w ≠ 0 ∧ frameOf w = frame := by
  obtain ⟨index, inside⟩ := addrToDiridx_user user
  have range := (twin.typed.held twin.directory).range
  obtain ⟨first, second⟩ := twin.readFrame_space (.inl rfl) _
  rw [translate, translate, twin.cr3, pageToPhys_page range, index, first, second]
  rcases twin.built.linked _ inside with blank | ⟨table, _, found⟩
  · have absent : (flagsOf (0 : BitVec 32)).toNat &&& mmuflagPresent = 0 := by decide
    rw [blank, if_pos absent, if_pos absent]
    exact ⟨rfl, by simp⟩
  · have names : (physaddrOf _).toNat = table := (points_some.mp found).1
    obtain ⟨third, fourth⟩ := twin.readFrame_space (.inr ⟨_, inside, found⟩) _
    rw [names, third, fourth]
    refine ⟨rfl, fun frame ran => ?_⟩
    split at ran
    · cases ran
    · split at ran
      · cases ran
      next present =>
        cases ran
        refine ⟨s.words _ _, ?_, fun zero => present ?_, rfl⟩
        · rw [pageWord, lookupWord, found, addrToTabidx_eq]
          rfl
        · rw [zero]
          decide

theorem putByte {w : BitVec 32} (user : virt < virtualBase) (looked : pageWord dir s.words (virt / pageSize) = some w)
    (present : w ≠ 0) (page : kind (frameOf w) = some .page) (byte : UInt8)
    (placed : Placed more dir current { s with words := Paging.putByte s.words (frameOf w) (virt % pageSize) byte }) :
    Twin free left right more dir current (insert virt written) touched
      { s with words := Paging.putByte s.words (frameOf w) (virt % pageSize) byte }
      { t with words := Paging.putByte t.words (frameOf w) (virt % pageSize) byte } := by
  have own : frameOf w ∈ free := twin.built.pages _ w (page_lt user) looked present
  have aside : ∀ q ≠ frameOf w, ∀ words : Nat → Nat → BitVec 32,
      Paging.putByte _ _ (virt % pageSize) byte q = words q := fun q other words => putWord_elsewhere other
  have apart : ∀ q ∈ spaceFrames dir s.words, q ≠ frameOf w := by
    rintro q mem rfl
    obtain ⟨k, here, ne⟩ := twin.known mem
    rw [page] at here
    exact ne (some.inj here).symm
  have after : Twin free left right more dir current written touched
      { s with words := Paging.putByte s.words _ _ byte }
      { t with words := Paging.putByte t.words _ _ byte } := twin.still
    placed twin.kernel twin.kptab (fun _ free => free)
    (fun q mem => ⟨aside q (apart q mem) _, aside q (apart q mem) _⟩) (fun q off same => same.putByte _ _ _)
    fun q beyond => ⟨aside q (fun same => beyond (same ▸ own)) _, aside q (fun same => beyond (same ▸ own)) _⟩
  have kept : pageWord dir (Paging.putByte s.words (frameOf w) (virt % pageSize) byte) (virt / pageSize) = some w := by
    rw [pageWord_congr (fun q mem => aside q (apart q mem) _) (page_lt user), looked]
  refine { after with
    mapped := fun other v inside here nonzero => ?_
    held := fun v mem below => ?_ }
  · obtain ⟨known, each⟩ := after.mapped _ v inside here nonzero
    refine ⟨known, fun off small mem => ?_⟩
    rcases mem with eq | earlier
    · have place : other = virt / pageSize ∧ off = virt % pageSize := by
        simp only [pageSize] at *
        omega
      obtain ⟨rfl, rfl⟩ := place
      rw [some.inj (here.symm.trans kept)]
      exact sameByte_putByte _ _ _ _ _
    · exact each off small earlier
  · rcases mem with rfl | earlier
    · exact ⟨w, kept, present⟩
    · exact after.held v earlier below

theorem writeByte (user : virt < virtualBase) (byte : UInt8) :
    Coupled (Together free left right kind dir current (insert virt written) touched s t)
      (Paging.writeByte current.cr3 virt byte s) (Paging.writeByte current.cr3 virt byte t) := by
  obtain ⟨same, word⟩ := twin.translate_same user
  rw [Paging.writeByte, Paging.writeByte, same]
  cases found : translate current.cr3 virt s with
  | error reason => exact .stopped _
  | ok frame =>
    have page := twin.toPlaced.translate_page user found
    obtain ⟨w, looked, present, rfl⟩ := word frame found
    have none := twin.apart _ _ page
    have lane : virt % 4 = virt % pageSize % 4 := by
      simp only [pageSize]
      omega
    obtain ⟨more, placed, evolved⟩ := twin.toPlaced.writeWord page _
      (withByte (virt % 4) byte (readFrame (frameOf w) (getPageoff virt / 4) s))
    rw [writeFrame, none, readFrame, none] at placed evolved
    dsimp only [Except.map]
    rw [writeFrame, readFrame, none, writeFrame, readFrame, kptabTable_congr twin.kptab, none]
    rw [getPageoff_eq virt, lane] at placed evolved ⊢
    exact .returned ⟨more, twin.putByte user looked present page byte placed, evolved,
      fun q off same => same.putByte _ _ _⟩

theorem writeBytes (bytes : List UInt8) (user : virt + bytes.length ≤ virtualBase) :
    Coupled (Together free left right kind dir current (written ∪ Set.Ico virt (virt + bytes.length)) touched s t)
      (Paging.writeBytes current.cr3 virt bytes s) (Paging.writeBytes current.cr3 virt bytes t) := by
  induction bytes generalizing kind written s t virt with
  | nil =>
    refine .returned (twin.refl.mono (fun v mem => ?_) subset_rfl)
    rcases mem with earlier | ⟨low, high⟩
    · exact earlier
    · rw [List.length_nil] at high
      omega
  | cons byte _ ih =>
    rw [List.length_cons] at user
    have small : (virt + 1) % 2 ^ 32 = virt + 1 := by
      simp only [virtualBase] at user
      omega
    refine (twin.writeByte (by omega) byte).bind fun a b first => ?_
    obtain ⟨more, between, evolved, bytes⟩ := first
    refine (ih between (by omega)).mono fun a' b' second => .after evolved bytes (second.mono ?_ subset_rfl)
    rintro v (earlier | ⟨low, high⟩)
    · exact .inl (Set.mem_insert_of_mem _ earlier)
    · by_cases here : v = virt
      · exact .inl (here ▸ Set.mem_insert _ _)
      · rw [List.length_cons] at high
        exact .inr ⟨by omega, by omega⟩

theorem pageWord_same (user : virt < virtualBase) :
    lookupWord points dir t.words (addrToDiridx virt) (addrToTabidx virt) = pageWord dir s.words (virt / pageSize) ∧
      lookupWord points dir s.words (addrToDiridx virt) (addrToTabidx virt) = pageWord dir s.words (virt / pageSize) := by
  rw [pageWord_eq user, pageWord_eq user]
  exact ⟨pageWord_congr twin.tables (page_lt user), rfl⟩

theorem userGetPage_same (zero : 0 ∉ free) (user : virt < virtualBase) :
    ∃ page, userGetPage current virt s = .ok page ∧ userGetPage current virt t = .ok page ∧
      (page = none → ∀ v ∈ written, v < virtualBase → v / pageSize ≠ virt / pageSize) := by
  obtain ⟨index, inside⟩ := addrToDiridx_user user
  obtain ⟨first, second⟩ := twin.reaching (index ▸ inside)
  obtain ⟨right, left⟩ := twin.pageWord_same user
  refine ⟨_, by rw [userGetPage, first.doUserGetPage (addrToTabidx_lt virt), left]; rfl,
    by rw [userGetPage, second.doUserGetPage (addrToTabidx_lt virt), right]; rfl, ?_⟩
  intro none v mem below same
  obtain ⟨w, found, present⟩ := twin.held v mem below
  have own := twin.built.pages _ w (page_lt below) found present
  have nonzero : frameOf w * pageSize ≠ 0 := by
    intro product
    rcases Nat.mul_eq_zero.mp product with frame | size
    · exact zero (frame ▸ own)
    · contradiction
  rw [← same, found, elim_some] at none
  dsimp only at none
  rw [if_neg nonzero] at none
  contradiction

theorem resolveVirt_same (user : virt < virtualBase) :
    ∃ phys, resolveVirt current virt s = .ok phys ∧ resolveVirt current virt t = .ok phys := by
  obtain ⟨index, inside⟩ := addrToDiridx_user user
  obtain ⟨first, second⟩ := twin.reaching (index ▸ inside)
  obtain ⟨right, left⟩ := twin.pageWord_same user
  exact ⟨_, by rw [resolveVirt, first.dirLookupAddr (addrToTabidx_lt virt), left],
    by rw [resolveVirt, second.dirLookupAddr (addrToTabidx_lt virt), right]⟩

theorem userAllocPage (zero : 0 ∉ free) (user : virt < virtualBase) (flags : UInt32)
    (fresh : ∀ v ∈ written, v / pageSize ≠ virt / pageSize) :
    Coupled (fun a b => b.2 = a.2 ∧
        Together free left right kind dir current written (insert (virt / pageSize) touched) s t a.1 b.1)
      (Paging.userAllocPage current virt flags s) (Paging.userAllocPage current virt flags t) := by
  refine (twin.allocate one_ne_zero _).bind ?_
  rintro ⟨a, page⟩ ⟨b, _⟩ ⟨⟨⟩, more, between, evolved, bytes, pages⟩
  obtain ⟨here, own, _⟩ := pages page (mem_run_one.mpr rfl)
  have frame := Placed.frame_page (between.typed.held here).range
  refine (between.map zero user ?_ ?_ (fun v mem => .inl mem) ?_).bind ?_
  · rw [frame, here]
  · rw [frame]
    exact own
  · intro off _ mem
    have place : (virt / pageSize * pageSize + off) / pageSize = virt / pageSize := by
      simp only [pageSize] at *
      omega
    exact absurd place (fresh _ mem)
  · exact fun a' b' second => .returned ⟨rfl, .after evolved bytes second⟩

theorem userMapPages (zero : 0 ∉ free) {num : Nat} (aligned : virt % pageSize = 0)
    (user : virt + num * pageSize ≤ virtualBase)
    (pages : ∀ q ∈ run page num, kind q = some .page ∧ q ∈ free ∧ ∀ off, SameByte s.words t.words q off) :
    Coupled (Together free left right kind dir current (written ∪ Set.Ico virt (virt + num * pageSize))
        (touched ∪ Set.Ico (virt / pageSize) (virt / pageSize + num)) s t)
      (Paging.userMapPages current virt (pageToPhys page) num s)
      (Paging.userMapPages current virt (pageToPhys page) num t) := by
  refine Coupled.forLoop (fun i => Together free left right kind dir current (written ∪ Set.Ico virt (virt + i * pageSize))
    (touched ∪ Set.Ico (virt / pageSize) (virt / pageSize + i)) s t) ?_ ?_
  · refine twin.refl.mono (fun v mem => ?_) Set.subset_union_left
    rcases mem with earlier | ⟨low, high⟩
    · exact earlier
    · omega
  · rintro i a b below ⟨more, between, evolved, bytes⟩
    obtain ⟨here, own, same⟩ := pages (page + i) ⟨by omega, by omega⟩
    have range : page + i < pageCount := (twin.typed.held here).range
    obtain ⟨low, small, phys⟩ := page_row user below page
    have place : (virt + i * pageSize) / pageSize = virt / pageSize + i := by
      simp only [pageSize]
      omega
    have frame := Placed.frame_page range
    rw [small, phys]
    refine (between.map zero low ?_ ?_ (show ∀ v ∈ written ∪ Set.Ico virt (virt + (i + 1) * pageSize), _ from ?_) ?_).mono ?_
    · rw [frame, evolved.old _ _ here]
    · rw [frame]
      exact own
    · rintro v (earlier | ⟨above, high⟩)
      · exact .inl (.inl earlier)
      · by_cases old : v < virt + i * pageSize
        · exact .inl (.inr ⟨above, old⟩)
        · right
          simp only [pageSize] at *
          omega
    · intro off _ _
      rw [frame]
      exact bytes _ _ (same off)
    · refine fun a' b' second => .after evolved bytes (second.mono subset_rfl ?_)
      rintro p (rfl | earlier | ⟨above, high⟩)
      · rw [place]
        exact .inr ⟨by omega, by omega⟩
      · exact .inl earlier
      · exact .inr ⟨above, by omega⟩

end

end Twin

end Twins

end KOs.Arch.Paging

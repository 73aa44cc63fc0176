import KOs.Arch.Paging
import KOs.Mm.Window

namespace KOs.Arch.Paging

open KOs.Common KOs.Data KOs.Mm Function

/-! What the accesses of the kernel to directories and tables come to, and what `do_user_map_page` does. -/

def Present (kmap : Kmap) (w : Nat) : Prop := (kmap.entry w).flags &&& mmuflagPresent ≠ 0

structure Backed (memory : Memory) (q : Nat) : Prop where
  range : q < pageCount
  taken : q ∉ freeSet memory.frames
  mapped : ∃ w, w < memory.kmap.kernelNextPage ∧ (memory.frames.pages q).addr = windowAddr w ∧
    memory.kmap.frame w = q ∧ Present memory.kmap w

/-- The allocators are in order, and the frames of `held` are backed. -/
structure Sound (memory : Memory) (held : Set Nat) : Prop where
  consistent : Consistent memory.frames
  room : memory.kmap.kernelNextPage ≤ windowPages
  backed : ∀ q ∈ held, Backed memory q

/-- The pages of the window that have been mapped meanwhile. -/
structure Extended (before after : Memory) : Prop where
  next : before.kmap.kernelNextPage ≤ after.kmap.kernelNextPage
  entries : ∀ i, i < before.kmap.kernelNextPage ∨ after.kmap.kernelNextPage ≤ i →
    after.kmap.entry i = before.kmap.entry i
  window : ∀ i, before.kmap.kernelNextPage ≤ i → i < after.kmap.kernelNextPage →
    (after.kmap.entry i).flags = mmuflagWritable ||| mmuflagPresent

structure Granted (p n : Nat) (before after : Memory) : Prop extends Extended before after where
  free : run p n ⊆ freeSet before.frames
  shrunk : freeSet after.frames = freeSet before.frames \ run p n
  kept : ∀ q, q ∉ freeSet before.frames → after.frames.pages q = before.frames.pages q
  consistent : Consistent after.frames
  room : after.kmap.kernelNextPage ≤ windowPages
  backed : ∀ q ∈ run p n, Backed after q

/-- The fault of an allocation: there are no frames, or no more pages of the window. -/
def Exhausted (fault : Fault) : Prop :=
  (∃ n frames, fault = outOfMemory n frames) ∨ ∃ index, fault = .outOfBounds "kptab" index

variable {held : Set Nat} {p n q : Nat}

section Allocation

variable {before after : Memory} {flags : UInt32}

theorem granted_of_allocated (room : before.kmap.kernelNextPage ≤ windowPages) (pos : n ≠ 0)
    (done : PagesAllocated p n flags before after) : Granted p n before after := by
  obtain ⟨bound, next, _, new⟩ := done.mapped_run room pos
  obtain ⟨first, mapping, _⟩ := done.mapped
  obtain ⟨_, installs⟩ := mapPages_installs room mapping
  have present : ∀ i, before.kmap.kernelNextPage ≤ i → i < before.kmap.kernelNextPage + n →
      (after.kmap.entry i).flags = mmuflagWritable ||| mmuflagPresent := by
    intro i above below
    rw [installs.entry, if_pos ⟨above, below⟩]
  have extended : Extended before after :=
    ⟨by omega, fun i outside => installs.outside (by omega), fun i above below => present i above (by omega)⟩
  refine ⟨extended, done.allocated.free, done.allocated.shrunk, done.allocated.kept, done.allocated.consistent, bound,
    fun q inside => ?_⟩
  obtain ⟨j, rfl⟩ := Nat.exists_eq_add_of_le inside.1
  have below : j < n := by
    have last := inside.2
    omega
  obtain ⟨addr, frame⟩ := new j below
  refine ⟨(done.allocated.free inside).1, (done.allocated.used _ inside).not_mem_freeSet, _, by omega, addr, frame, ?_⟩
  rw [Present, present _ (by omega) (by omega)]
  decide

theorem allocPages_granted (sound : Sound before held) (pos : n ≠ 0)
    (ran : Mm.allocPages n flags before = .ok (after, p)) : Granted p n before after := by
  exact granted_of_allocated sound.room pos (allocPages_ok sound.consistent pos ran)

theorem allocPages_exhausted (sound : Sound before held) (pos : n ≠ 0) {fault : Fault}
    (ran : Mm.allocPages n flags before = .error fault) : Exhausted fault := by
  rcases allocPages_cases flags sound.consistent pos with failed | ⟨index, failed⟩ | ⟨memory, page, expected, _⟩
  · rw [failed] at ran
    cases ran
    exact .inl ⟨_, _, rfl⟩
  · rw [failed] at ran
    cases ran
    exact .inr ⟨_, rfl⟩
  · rw [expected] at ran
    contradiction

section

variable (granted : Granted p n before after)
include granted

theorem Granted.keeps (backed : Backed before q) : Backed after q := by
  obtain ⟨w, below, addr, frame, present⟩ := backed.mapped
  refine ⟨backed.range, ?_, w, below.trans_le granted.next, ?_, ?_, ?_⟩
  · rw [granted.shrunk]
    exact fun free => backed.taken free.1
  · rw [granted.kept q backed.taken, addr]
  · rw [Kmap.frame_eq, granted.entries w (.inl below), ← Kmap.frame_eq, frame]
  · rw [Present, granted.entries w (.inl below)]
    exact present

theorem Granted.fresh (backed : Backed before q) : q ∉ run p n :=
  fun inside => backed.taken (granted.free inside)

theorem Granted.addr (backed : Backed before q) : (after.frames.pages q).addr = (before.frames.pages q).addr := by
  rw [granted.kept q backed.taken]

end

theorem Sound.grant (sound : Sound before held) (granted : Granted p n before after) :
    Sound after (held ∪ run p n) := by
  refine ⟨granted.consistent, granted.room, fun q mem => ?_⟩
  rcases mem with old | new
  · exact granted.keeps (sound.backed q old)
  · exact granted.backed q new

theorem Sound.mono {fewer : Set Nat} (sound : Sound before held) (subset : fewer ⊆ held) : Sound before fewer :=
  ⟨sound.consistent, sound.room, fun q mem => sound.backed q (subset mem)⟩

theorem mem_run_one : q ∈ run p 1 ↔ q = p := by
  rw [mem_run]
  omega

/-- The frame that `alloc_page` takes: the first block of the first list that is not empty. -/
def nextFrame (frames : Frames) : Option Nat :=
  ((List.range' 0 (maxOrder + 1)).find? (fun order => !listEmpty frames.list (.inl order))).bind (fun order =>
    match listFirst frames.list (.inl order) with
    | .inl _ => none
    | .inr block => some block)

theorem doAllocPages_next {state next : Frames} (ran : doAllocPages 1 state = .ok (next, p)) :
    nextFrame state = some p := by
  have target : targetOrder 1 = 0 := by decide
  rw [doAllocPages, target] at ran
  rw [nextFrame]
  cases found : (List.range' 0 (maxOrder + 1 - 0)).find? (fun order => !listEmpty state.list (.inl order)) with
  | none =>
    rw [found] at ran
    contradiction
  | some order =>
    rw [found] at ran
    dsimp only at ran
    rw [Option.bind_some]
    cases first : listFirst state.list (.inl order) with
    | inl =>
      rw [first] at ran
      contradiction
    | inr =>
      rw [first] at ran
      obtain ⟨_, _, rest⟩ := bind_returns ran
      obtain ⟨_, _, rest⟩ := bind_returns rest
      obtain ⟨_, _, rest⟩ := bind_returns rest
      cases rest
      rfl

theorem allocPages_next (ran : Mm.allocPages 1 flags before = .ok (after, p)) : nextFrame before.frames = some p := by
  obtain ⟨⟨frames, page⟩, taken, rest⟩ := bind_returns ran
  obtain ⟨_, _, rest⟩ := bind_returns rest
  obtain ⟨_, _, rest⟩ := bind_returns rest
  cases rest
  exact doAllocPages_next taken

end Allocation

def entryOf (phys flags : Nat) : BitVec 32 := BitVec.ofNat 20 (phys >>> 12) ++ BitVec.ofNat 12 (flags &&& 0xFFF)

def frameOf (entry : BitVec 32) : Nat := (physaddrOf entry).toNat

/-- The table that `dir_get_tab` finds behind an entry; the frame 0 is none. -/
def points (entry : BitVec 32) : Option Nat := if frameOf entry = 0 then none else some (frameOf entry)

theorem withFlags_withPhysaddr (entry : BitVec 32) (phys flags : Nat) :
    withFlags (flags &&& 0xFFF) (withPhysaddr (phys >>> 12) entry) = entryOf phys flags := by
  rw [withFlags, withPhysaddr, physaddrOf, BitVec.extractLsb'_append_eq_left, entryOf]

variable {flags page : Nat} {entry : BitVec 32}

theorem frameOf_entryOf {phys : Nat} (small : phys < 2 ^ 32) : frameOf (entryOf phys flags) = phys / pageSize := by
  rw [frameOf, physaddrOf, entryOf, BitVec.extractLsb'_append_eq_left, BitVec.toNat_ofNat, Nat.shiftRight_eq_div_pow]
  simp only [pageSize]
  omega

theorem flagsOf_entryOf (phys flags : Nat) : (flagsOf (entryOf phys flags)).toNat = flags % 2 ^ 12 := by
  have mask : flags &&& 0xFFF = flags % 2 ^ 12 := Nat.and_two_pow_sub_one_eq_mod flags 12
  rw [flagsOf, entryOf, BitVec.extractLsb'_append_eq_right, BitVec.toNat_ofNat, mask, Nat.mod_mod]

def isPresent (entry : BitVec 32) : Bool := (flagsOf entry).toNat &&& mmuflagPresent ≠ 0

@[simp] theorem isPresent_zero : isPresent 0 = false := by decide

@[simp] theorem isPresent_user (phys : Nat) : isPresent (entryOf phys userFlags) = true := by
  have flags : userFlags % 2 ^ 12 &&& mmuflagPresent ≠ 0 := by decide
  rw [isPresent, flagsOf_entryOf, decide_eq_true flags]

@[simp] theorem frameOf_zero : frameOf 0 = 0 := by decide

@[simp] theorem points_zero : points 0 = none := by decide

theorem points_some {t : Nat} : points entry = some t ↔ frameOf entry = t ∧ t ≠ 0 := by
  rw [points]
  split
  next zero =>
    constructor
    · nofun
    · rintro ⟨same, nonzero⟩
      exact absurd (same.symm.trans zero) nonzero
  next nonzero =>
    constructor
    · rintro ⟨⟩
      exact ⟨rfl, nonzero⟩
    · rintro ⟨rfl, _⟩
      rfl

theorem points_none : points entry = none ↔ frameOf entry = 0 := by
  rw [points]
  split
  · exact iff_of_true rfl ‹_›
  · exact iff_of_false nofun ‹_›

theorem pageToPhys_lt (page : Nat) : pageToPhys page < 2 ^ 32 := by
  exact Nat.mod_lt _ (Nat.two_pow_pos 32)

theorem pageToPhys_page (range : page < pageCount) : pageToPhys page / pageSize = page := by
  simp only [pageToPhys, pageSize, pageCount, numEntries] at *
  omega

theorem points_table (range : page < pageCount) (nonzero : page ≠ 0) :
    points (entryOf (pageToPhys page) flags) = some page := by
  rw [points_some, frameOf_entryOf (pageToPhys_lt page), pageToPhys_page range]
  exact ⟨rfl, nonzero⟩

variable {s : Store} {i : Nat}

section Access

theorem frameAt_window {w off : Nat} (inside : w < windowPages) (small : off < pageSize) (present : Present s.kmap w) :
    frameAt (windowAddr w + off) s = .ok (s.kmap.frame w) := by
  have entry : s.kmap.kptab (w / numEntries) (w % numEntries) = s.kmap.entry w := rfl
  rw [frameAt, kptabIndex_window inside small, addrToTabidx_window small, Except.mapError]
  dsimp only [bind, Except.bind]
  rw [entry, if_neg present, Kmap.frame_eq]
  rfl

variable (room : s.kmap.kernelNextPage ≤ windowPages)

section

include room

section

variable (backed : Backed s.kernel.memory q)
include backed

theorem frameAt_backed {off : Nat} (small : off < pageSize) : frameAt ((s.frames.pages q).addr + off) s = .ok q := by
  obtain ⟨w, below, addr, frame, present⟩ := backed.mapped
  have inside : w < windowPages := below.trans_le room
  have found := frameAt_window inside small present
  rwa [← addr, Store.kmap, frame] at found

variable (inside : i < numEntries)
include inside

theorem entryAddr_backed : entryAddr (s.frames.pages q).addr i = (s.frames.pages q).addr + 4 * i ∧
      getPageoff ((s.frames.pages q).addr + 4 * i) / 4 = i ∧ 4 * i < pageSize := by
  obtain ⟨w, below, addr, _⟩ := backed.mapped
  have addr : (s.frames.pages q).addr = windowAddr w := addr
  have small : 4 * i < pageSize := by
    simp only [numEntries, pageSize] at *
    omega
  rw [addr, getPageoff_window small]
  exact ⟨Nat.mod_eq_of_lt (windowAddr_lt (below.trans_le room) small), by omega, small⟩

theorem load_backed : load (entryAddr (s.frames.pages q).addr i) s = .ok (s.words q i) := by
  obtain ⟨addr, place, small⟩ := entryAddr_backed room backed inside
  rw [addr, load, frameAt_backed room backed small, place]
  rfl

theorem store_backed (word : BitVec 32) : store (entryAddr (s.frames.pages q).addr i) word s =
      .ok { s with words := putWord s.words q i word } := by
  obtain ⟨addr, place, small⟩ := entryAddr_backed room backed inside
  rw [addr, store, frameAt_backed room backed small, place]
  rfl

theorem entrySet_backed (phys flags : Nat) : entrySet (s.frames.pages q).addr i phys flags s =
      .ok { s with words := putWord s.words q i (entryOf phys flags) } := by
  rw [entrySet, load_backed room backed inside, ok_bind, withFlags_withPhysaddr, store_backed room backed inside]

theorem entryGetPhys_backed :
    entryGetPhys (s.frames.pages q).addr i s = .ok (frameOf (s.words q i) * pageSize) := by
  have shifted : frameOf (s.words q i) <<< 12 = frameOf (s.words q i) * pageSize := Nat.shiftLeft_eq ..
  rw [entryGetPhys, load_backed room backed inside, ← shifted]
  rfl

theorem entryGetFlags_backed :
    entryGetFlags (s.frames.pages q).addr i s = .ok (flagsOf (s.words q i)).toNat := by
  have mask : (flagsOf (s.words q i)).toNat &&& 0xFFF = (flagsOf (s.words q i)).toNat := by
    rw [Nat.and_two_pow_sub_one_eq_mod _ 12, Nat.mod_eq_of_lt (flagsOf (s.words q i)).isLt]
  rw [entryGetFlags, load_backed room backed inside]
  exact congrArg Except.ok mask

end

end

theorem Backed.addr_ne_zero {memory : Memory} (backed : Backed memory q) : (memory.frames.pages q).addr ≠ 0 := by
  obtain ⟨w, _, addr, _⟩ := backed.mapped
  rw [addr, windowAddr, virtualBase]
  omega

include room

theorem virtToPhys_backed (backed : Backed s.kernel.memory q) :
    virtToPhys (s.frames.pages q).addr s.kmap = .ok (pageToPhys q) := by
  obtain ⟨w, below, addr, frame, _⟩ := backed.mapped
  have found : virtToPhys (windowAddr w + 0) s.kmap = .ok (pageSize * s.kmap.frame w + 0) :=
    virtToPhys_window (below.trans_le room) (by decide)
  have range := backed.range
  have phys : pageSize * q + 0 = pageToPhys q := by
    simp only [pageToPhys, pageSize, pageCount, numEntries] at *
    omega
  rwa [add_zero, Store.kmap, frame, phys, ← addr] at found

omit room in
theorem physToVirt_frame (q : Nat) (s : Store) : physToVirt (q * pageSize) s = (s.frames.pages q).addr := by
  rw [physToVirt, physToPage, Nat.mul_div_cancel q (by decide)]
  rfl

theorem dirGetTab_absent (backed : Backed s.kernel.memory q)
    (inside : i < numEntries) (absent : points (s.words q i) = none) :
    dirGetTab (s.frames.pages q).addr i s = .ok 0 := by
  rw [dirGetTab, direntryGetPhys, entryGetPhys_backed room backed inside, points_none.mp absent, zero_mul]
  rfl

theorem dirGetTab_present (backed : Backed s.kernel.memory q)
    (inside : i < numEntries) {t : Nat} (present : points (s.words q i) = some t) :
    dirGetTab (s.frames.pages q).addr i s = .ok (s.frames.pages t).addr := by
  obtain ⟨frame, nonzero⟩ := points_some.mp present
  have some : ¬ t * pageSize = 0 := by
    simp only [pageSize]
    omega
  rw [dirGetTab, direntryGetPhys, entryGetPhys_backed room backed inside, frame, ← physToVirt_frame]
  exact if_neg some

end Access

variable {addr : Nat}
variable {task : ArchThreadData} {dir j : Nat}

/-- The directory in the frame `dir` is the one of the task, and its table for `i` is backed. -/
structure Reaching (task : ArchThreadData) (dir i : Nat) (s : Store) : Prop where
  room : s.kmap.kernelNextPage ≤ windowPages
  directory : Backed s.kernel.memory dir
  addr : task.dir = (s.frames.pages dir).addr
  inside : i < numEntries
  table : ∀ t, points (s.words dir i) = some t → Backed s.kernel.memory t

theorem Reaching.dirGetTab (reaching : Reaching task dir i s) :
    points (s.words dir i) = none ∧ Paging.dirGetTab task.dir i s = .ok 0 ∨
      ∃ t, points (s.words dir i) = some t ∧ Backed s.kernel.memory t ∧ (s.frames.pages t).addr ≠ 0 ∧
        Paging.dirGetTab task.dir i s = .ok (s.frames.pages t).addr := by
  rw [reaching.addr]
  cases found : points (s.words dir i) with
  | none => exact .inl ⟨rfl, dirGetTab_absent reaching.room reaching.directory reaching.inside found⟩
  | some t =>
    exact .inr ⟨t, rfl, reaching.table t found, (reaching.table t found).addr_ne_zero,
      dirGetTab_present reaching.room reaching.directory reaching.inside found⟩

theorem Reaching.doUserGetPage (reaching : Reaching task dir i s) (second : j < numEntries) :
    Paging.doUserGetPage task i j s =
      .ok ((lookupWord points dir s.words i j).elim 0 (fun word => frameOf word * pageSize)) := by
  rw [Paging.doUserGetPage, lookupWord]
  rcases reaching.dirGetTab with ⟨missing, tab⟩ | ⟨t, found, backed, some, tab⟩
  · rw [tab, missing, ok_bind, if_pos rfl]
    rfl
  · rw [tab, found, ok_bind, if_neg some, tabentryGetPhys, entryGetPhys_backed reaching.room backed second]
    rfl

theorem Reaching.dirLookupAddr (reaching : Reaching task dir (addrToDiridx addr) s)
    (second : addrToTabidx addr < numEntries) : Paging.dirLookupAddr task.dir addr s =
      .ok ((lookupWord points dir s.words (addrToDiridx addr) (addrToTabidx addr)).elim 0
        (fun word => frameOf word * pageSize + addr % pageSize)) := by
  have size : pageSize = 2 ^ 12 := by decide
  have small : addr % pageSize < 2 ^ 12 := Nat.mod_lt _ (by decide)
  rw [Paging.dirLookupAddr, dirLookupTab, lookupWord]
  rcases reaching.dirGetTab with ⟨missing, tab⟩ | ⟨t, found, backed, some, tab⟩
  · rw [tab, missing, ok_bind, if_pos rfl]
    rfl
  · rw [tab, found, ok_bind, if_neg some, tabLookupAddr, tabentryGetPhys,
      entryGetPhys_backed reaching.room backed second, Except.map, getPageoff_eq, Option.map_some, Option.elim_some,
      size, ← Nat.shiftLeft_eq, ← size, Nat.shiftLeft_add_eq_or_of_lt small]

theorem Reaching.virtIsValid (user : addr < virtualBase) (reaching : Reaching task dir (addrToDiridx addr) s)
    (second : addrToTabidx addr < numEntries) : Paging.virtIsValid task addr s =
      .ok ((lookupWord points dir s.words (addrToDiridx addr) (addrToTabidx addr)).elim false isPresent) := by
  rw [Paging.virtIsValid, if_pos user, lookupWord]
  rcases reaching.dirGetTab with ⟨missing, tab⟩ | ⟨t, found, backed, some, tab⟩
  · rw [tab, missing, ok_bind, if_pos rfl]
    rfl
  · rw [tab, found, ok_bind, if_neg some, tabentryGetFlags, entryGetFlags_backed reaching.room backed second]
    rfl

def userTables : Nat := numEntries - kernelNumTables

theorem addrToDiridx_user (user : addr < virtualBase) :
    addrToDiridx addr = addr / pageSize / numEntries ∧ addr / pageSize / numEntries < userTables := by
  rw [addrToDiridx, page_of_masked]
  simp only [virtualBase, pageSize, numEntries, userTables, kernelNumTables] at *
  omega

theorem addrToTabidx_eq (addr : Nat) : addrToTabidx addr = addr / pageSize % numEntries := by
  rw [addrToTabidx, page_of_masked]
  simp only [pageSize, numEntries]
  omega

theorem addrToTabidx_lt (addr : Nat) : addrToTabidx addr < numEntries := Nat.mod_lt _ (by decide)

theorem userTables_lt (below : i < userTables) : i < numEntries := by
  simp only [userTables, numEntries, kernelNumTables] at *
  omega

variable {words : Nat → Nat → BitVec 32}
variable {s' : Store}

section Allocate

variable {flags : UInt32}

theorem clearPages_backed (room : s.kmap.kernelNextPage ≤ windowPages) (backed : ∀ q ∈ run p n, Backed s.kernel.memory q)
    (addrs : ∀ j < n, ((s.frames.pages p).addr + pageSize * j) % 2 ^ 32 = (s.frames.pages (p + j)).addr) :
    forLoop (fun i => clearPage ((pageToVirt p s.kernel.memory + pageSize * i) % 2 ^ 32)) n s =
      .ok { s with words := fun q => if p ≤ q ∧ q < p + n then fun _ => 0 else s.words q } := by
  induction n with
  | zero =>
    have none : (fun q => if p ≤ q ∧ q < p + 0 then (fun _ => (0 : BitVec 32)) else s.words q) = s.words := by
      funext q
      rw [if_neg (by omega)]
    rw [none]
    rfl
  | succ n ih =>
    have earlier := ih (fun q inside => backed q ⟨inside.1, Nat.lt_succ_of_lt inside.2⟩)
      fun j below => addrs j (Nat.lt_succ_of_lt below)
    have here : Backed s.kernel.memory (p + n) := backed _ ⟨by omega, by omega⟩
    rw [forLoop, earlier]
    dsimp only
    have addr : (pageToVirt p s.kernel.memory + pageSize * n) % 2 ^ 32 = (s.frames.pages (p + n)).addr :=
      addrs n (Nat.lt_succ_self n)
    rw [addr, clearPage]
    have found := frameAt_backed
      room here (show 0 < pageSize by decide)
    have found : frameAt (s.frames.pages (p + n)).addr
        { s with words := fun q => if p ≤ q ∧ q < p + n then fun _ => 0 else s.words q } = .ok (p + n) := found
    rw [found]
    refine congrArg (fun words => Except.ok { s with words }) ?_
    funext q
    by_cases same : q = p + n
    · rw [same, update_self, if_pos (by omega)]
    · rw [update_of_ne same]
      dsimp only
      by_cases old : p ≤ q ∧ q < p + n
      · rw [if_pos old, if_pos (by omega)]
      · rw [if_neg old, if_neg (by omega)]

/-- The pages that `ALLOC_ZERO` is given are cleared; no other word changes. -/
def cleared (flags : UInt32) (p n : Nat) (words : Nat → Nat → BitVec 32) : Nat → Nat → BitVec 32 :=
  if flags &&& allocZero != 0 then fun q => if p ≤ q ∧ q < p + n then fun _ => 0 else words q else words

theorem cleared_outside (outside : q ∉ run p n) :
    cleared flags p n words q = words q := by
  rw [cleared]
  split
  · exact if_neg outside
  · rfl

theorem cleared_inside (zero : flags &&& allocZero != 0) (inside : q ∈ run p n) :
    cleared flags p n words q = fun _ => 0 := by
  rw [cleared, if_pos zero]
  exact if_pos inside

theorem allocPages_cleared (sound : Sound s.kernel.memory held) (pos : n ≠ 0) {memory : Memory}
    (ran : Mm.allocPages n flags s.kernel.memory = .ok (memory, p)) :
    allocPages n flags s = .ok ({ s with kernel.memory := memory, words := cleared flags p n s.words }, p) := by
  have granted := allocPages_granted sound pos ran
  rw [allocPages, ran]
  dsimp only [bind, Except.bind]
  rw [cleared]
  split
  · have addrs : ∀ j < n, ((memory.frames.pages p).addr + pageSize * j) % 2 ^ 32 =
        (memory.frames.pages (p + j)).addr := by
      intro j below
      have done := allocPages_ok sound.consistent pos ran
      obtain ⟨bound, next, _, new⟩ := done.mapped_run sound.room pos
      have first := (new 0 (by omega)).1
      rw [add_zero, add_zero] at first
      rw [first, (new j below).1]
      have small := windowAddr_lt (show s.kernel.memory.kmap.kernelNextPage + j < windowPages by omega)
        (show 0 < pageSize by decide)
      simp only [windowAddr, pageSize] at *
      omega
    have all := clearPages_backed (s := { s with kernel.memory := memory }) granted.room granted.backed addrs
    rw [all]
    rfl
  · rfl

theorem allocPages_returns (sound : Sound s.kernel.memory held) (pos : n ≠ 0)
    (ran : allocPages n flags s = .ok (s', p)) :
    ∃ memory, s' = { s with kernel.memory := memory, words := cleared flags p n s.words } ∧
      Granted p n s.kernel.memory memory := by
  obtain ⟨⟨memory, page⟩, taken, _⟩ := bind_returns ran
  have all := allocPages_cleared sound pos taken
  rw [all] at ran
  cases ran
  exact ⟨memory, rfl, allocPages_granted sound pos taken⟩

theorem cleared_one (words : Nat → Nat → BitVec 32) :
    cleared allocZero p 1 words = update words p (fun _ => 0) := by
  have zero : (allocZero &&& allocZero != 0) = true := by decide
  rw [cleared, if_pos zero]
  funext q
  by_cases same : q = p
  · rw [same, update_self, if_pos (by omega)]
  · rw [update_of_ne same, if_neg (by omega)]

end Allocate

section Map

variable {phys : Nat}

/-- What `do_user_map_page` does with the directory in the frame `dir`. -/
inductive UserMapped (dir i j phys : Nat) (s : Store) : Store → Prop
  | present {t : Nat} (found : points (s.words dir i) = some t) :
      UserMapped dir i j phys s { s with words := putWord s.words t j (entryOf phys userFlags) }
  | absent {t : Nat} {memory : Memory} (missing : points (s.words dir i) = none)
      (taken : Mm.allocPages 1 allocZero s.kernel.memory = .ok (memory, t))
      (granted : Granted t 1 s.kernel.memory memory) :
      UserMapped dir i j phys s { s with
        kernel.memory := memory
        words := withTable s.words dir t i j (entryOf (pageToPhys t) userFlags) 0 (entryOf phys userFlags) }

theorem doUserMapPage_table {tab : Nat} (found : dirGetTab task.dir i s = .ok tab) (some : tab ≠ 0) :
    doUserMapPage task i j phys s = tabentrySet tab j phys userFlags s := by
  rw [doUserMapPage, found, ok_bind, if_neg some]

theorem doUserMapPage_fails {fault : Fault} (found : dirGetTab task.dir i s = .ok 0)
    (failed : allocPage allocZero s = .error fault) : doUserMapPage task i j phys s = .error fault := by
  rw [doUserMapPage, found, ok_bind, if_pos rfl, failed]
  rfl

theorem doUserMapPage_new {first second : Store} {t : Nat} (found : dirGetTab task.dir i s = .ok 0)
    (taken : allocPage allocZero s = .ok (first, t))
    (entered : direntrySet task.dir i (pageToPhys t) userFlags first = .ok second) :
    doUserMapPage task i j phys s = tabentrySet (pageToVirt t second.kernel.memory) j phys userFlags second := by
  rw [doUserMapPage, found, ok_bind, if_pos rfl, taken, ok_bind]
  dsimp only
  rw [entered, ok_bind]

/-- `do_user_map_page` as a function of the memory and of the directory. -/
def userMapped (dir i j phys : Nat) (s : Store) : Except Fault Store :=
  match points (s.words dir i) with
  | some t => .ok { s with words := putWord s.words t j (entryOf phys userFlags) }
  | none => (Mm.allocPages 1 allocZero s.kernel.memory).map (fun (memory, t) => { s with
      kernel.memory := memory
      words := withTable s.words dir t i j (entryOf (pageToPhys t) userFlags) 0 (entryOf phys userFlags) })

section

variable (sound : Sound s.kernel.memory held) (reaching : Reaching task dir i s) (second : j < numEntries) (phys : Nat)
include sound reaching second

theorem doUserMapPage_eq : doUserMapPage task i j phys s = userMapped dir i j phys s := by
  rw [userMapped]
  rcases reaching.dirGetTab with ⟨missing, tab⟩ | ⟨t, found, table, some, tab⟩
  · obtain ⟨_, backed, at_dir, first, _⟩ := reaching
    rw [missing]
    cases taken : Mm.allocPages 1 allocZero s.kernel.memory with
    | error fault =>
      have failed : allocPage allocZero s = .error fault := by
        rw [allocPage, allocPages, taken]
        rfl
      rw [doUserMapPage_fails tab failed]
      rfl
    | ok result =>
      obtain ⟨memory, t⟩ := result
      have granted := allocPages_granted sound (by decide) taken
      have ran := allocPages_cleared sound (by decide) taken
      rw [cleared_one] at ran
      have kept : (memory.frames.pages dir).addr = (s.frames.pages dir).addr := granted.addr backed
      have entered := entrySet_backed (s := { s with kernel.memory := memory, words := update s.words t (fun _ => 0) })
        granted.room (granted.keeps backed) first (pageToPhys t) userFlags
      dsimp only [Store.frames] at entered kept at_dir
      rw [kept, ← at_dir] at entered
      have written := entrySet_backed
        (s := { s with
          kernel.memory := memory
          words := putWord (update s.words t fun _ => 0) dir i (entryOf (pageToPhys t) userFlags) })
        granted.room (granted.backed t (mem_run_one.mpr rfl)) second phys userFlags
      rw [doUserMapPage_new tab ran entered, tabentrySet]
      exact written
  · rw [found, doUserMapPage_table tab some, tabentrySet, entrySet_backed sound.room table second]

theorem doUserMapPage_cases : (∃ s', doUserMapPage task i j phys s = .ok s' ∧ UserMapped dir i j phys s s') ∨
      ∃ fault, doUserMapPage task i j phys s = .error fault ∧ Exhausted fault := by
  rw [doUserMapPage_eq sound reaching second, userMapped]
  cases found : points (s.words dir i) with
  | some => exact .inl ⟨_, rfl, .present found⟩
  | none =>
    cases taken : Mm.allocPages 1 allocZero s.kernel.memory with
    | error fault => exact .inr ⟨fault, rfl, allocPages_exhausted sound (by decide) taken⟩
    | ok =>
      exact .inl ⟨_, rfl, .absent found taken (allocPages_granted sound (by decide) taken)⟩

end

end Map

end KOs.Arch.Paging

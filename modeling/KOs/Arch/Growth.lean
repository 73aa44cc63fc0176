import KOs.Arch.Access
import KOs.Arch.Kinds

namespace KOs.Arch.Paging

open KOs.Common KOs.Data KOs.Mm Function

structure Grown (before after : Memory) : Prop extends Extended before after where
  free : freeSet after.frames ⊆ freeSet before.frames
  pages : ∀ q, q ∉ freeSet before.frames → after.frames.pages q = before.frames.pages q

theorem Grown.refl (memory : Memory) : Grown memory memory where
  free := fun _ mem => mem
  pages := fun _ _ => rfl
  next := le_rfl
  entries := fun _ _ => rfl
  window := fun i above below => by omega

variable {before after : Memory}

theorem Grown.trans {between : Memory} (first : Grown before between) (second : Grown between after) :
    Grown before after := by
  have one := first.next
  have two := second.next
  refine ⟨⟨one.trans two, fun i outside => ?_, fun i above below => ?_⟩, fun q mem => first.free (second.free mem),
    fun q taken => ?_⟩
  · rw [second.entries i (by omega), first.entries i (by omega)]
  · by_cases earlier : i < between.kmap.kernelNextPage
    · rw [second.entries i (.inl earlier)]
      exact first.window i above earlier
    · exact second.window i (by omega) below
  · rw [second.pages q fun free => taken (first.free free), first.pages q taken]

theorem Granted.grown {p n : Nat} (granted : Granted p n before after) : Grown before after where
  toExtended := granted.toExtended
  free := fun q mem => by
    rw [granted.shrunk] at mem
    exact mem.1
  pages := granted.kept

/-- The uses of the frames; `kptab` is in frames that are never given out. -/
structure Arranged (kind : Nat → Option Kind) (s : Store) : Prop where
  typed : Typed kind s
  apart : ∀ q k, kind q = some k → kptabTable q s = none
  reserved : ∀ q, kptabTable q s ≠ none → q ∉ freeSet s.frames

structure Placed (kind : Nat → Option Kind) (dir : Nat) (current : ArchThreadData) (s : Store) : Prop
    extends Arranged kind s where
  directory : kind dir = some .directory
  addr : current.dir = (s.frames.pages dir).addr
  cr3 : current.cr3 = pageToPhys dir

/-- What has become of a store and of the uses of its frames. -/
structure Evolved (kind : Nat → Option Kind) (s : Store) (more : Nat → Option Kind) (s' : Store) : Prop where
  memory : Grown s.kernel.memory s'.kernel.memory
  kptab : s'.kptabPhys = s.kptabPhys
  old : ∀ q k, kind q = some k → more q = some k

theorem Evolved.refl (kind : Nat → Option Kind) (s : Store) : Evolved kind s kind s :=
  ⟨Grown.refl _, rfl, fun _ _ known => known⟩

theorem Evolved.trans {kind more most : Nat → Option Kind} {s s' s'' : Store} (first : Evolved kind s more s')
    (second : Evolved more s' most s'') : Evolved kind s most s'' :=
  ⟨first.memory.trans second.memory, second.kptab.trans first.kptab, fun q k known => second.old q k (first.old q k known)⟩

theorem Evolved.addr {kind more : Nat → Option Kind} {s s' : Store} (evolved : Evolved kind s more s')
    (typed : Typed kind s) {q : Nat} {k : Kind} (known : kind q = some k) :
    (s'.frames.pages q).addr = (s.frames.pages q).addr :=
  congrArg Page.addr (evolved.memory.pages q (typed.held known).taken)

def Onward (kind : Nat → Option Kind) (dir : Nat) (current : ArchThreadData) (s s' : Store) : Prop :=
  ∃ more, Placed more dir current s' ∧ Evolved kind s more s'

variable {virt mem page : Nat}
variable {num i : Nat}

theorem page_row (user : virt + num * pageSize ≤ virtualBase) (below : i < num) (page : Nat) :
    virt + i * pageSize < virtualBase ∧ (virt + i * pageSize) % 2 ^ 32 = virt + i * pageSize ∧
      (pageToPhys page + i * pageSize) % 2 ^ 32 = pageToPhys (page + i) := by
  simp only [virtualBase, pageSize, pageToPhys] at user ⊢
  omega

section Steps

variable {kind more : Nat → Option Kind} {dir : Nat} {current : ArchThreadData} {s s' s'' : Store}

theorem Onward.next (first : Onward kind dir current s s')
    (second : ∀ more, Placed more dir current s' → Evolved kind s more s' → Onward more dir current s' s'') :
    Onward kind dir current s s'' := by
  obtain ⟨more, placed, evolved⟩ := first
  obtain ⟨most, last, further⟩ := second more placed evolved
  exact ⟨most, last, evolved.trans further⟩

theorem kptabTable_congr (kptab : s'.kptabPhys = s.kptabPhys) (q : Nat) : kptabTable q s' = kptabTable q s := by
  rw [kptabTable, kptabTable, kptab]

variable {before after : Kernel} {size new : Nat}

theorem cacheAlloc_memory {cache : CacheRef} (ran : cacheAlloc cache before = .ok (after, mem)) :
    after.memory = before.memory ∨
      ∃ n flags p, n ≠ 0 ∧ Mm.allocPages n flags before.memory = .ok (after.memory, p) := by
  rw [cacheAlloc] at ran
  split at ran
  · obtain ⟨kernel, supplied, rest⟩ := bind_returns ran
    obtain ⟨⟨memory, page⟩, taken, made⟩ := bind_returns supplied
    obtain ⟨slabs, _, same⟩ := bind_returns made
    cases same
    obtain ⟨⟨slabs, object⟩, _, same⟩ := bind_returns rest
    cases same
    exact .inr ⟨1, _, page, one_ne_zero, taken⟩
  · obtain ⟨kernel, same, rest⟩ := bind_returns ran
    cases same
    obtain ⟨⟨slabs, object⟩, _, same⟩ := bind_returns rest
    cases same
    exact .inl rfl

theorem kallocCacheAlloc_memory (ran : kallocCacheAlloc size before = .ok (after, mem)) :
    after.memory = before.memory ∨
      ∃ n flags p, n ≠ 0 ∧ Mm.allocPages n flags before.memory = .ok (after.memory, p) := by
  rw [kallocCacheAlloc] at ran
  split at ran
  · cases ran
  · obtain ⟨index, _, rest⟩ := bind_returns ran
    obtain ⟨cache, _, rest⟩ := bind_returns rest
    exact cacheAlloc_memory rest

theorem kmalloc_memory (ran : Mm.kmalloc size before = .ok (after, mem)) :
    after.memory = before.memory ∨
      ∃ n flags p, n ≠ 0 ∧ Mm.allocPages n flags before.memory = .ok (after.memory, p) := by
  rw [Mm.kmalloc] at ran
  split at ran
  · obtain ⟨⟨kernel, object⟩, allocated, rest⟩ := bind_returns ran
    obtain ⟨page, _, rest⟩ := bind_returns rest
    obtain ⟨_, _, same⟩ := bind_returns rest
    cases same
    exact kallocCacheAlloc_memory allocated
  next large =>
    obtain ⟨⟨memory, page⟩, taken, same⟩ := bind_returns ran
    cases same
    refine .inr ⟨_, _, page, ?_, taken⟩
    rw [divUp]
    split
    · omega
    · exact Nat.succ_ne_zero _

section

variable (typed : Typed kind s)
include typed

theorem Typed.allocate {flags : UInt32} (pos : num ≠ 0) (ran : allocPages num flags s = .ok (s', page)) :
    ∃ more, Typed more s' ∧ Evolved kind s more s' ∧ (∀ q k, more q = some k → kind q = some k ∨ q ∈ freeSet s.frames) ∧
      ∀ q ∈ run page num, more q = some .page := by
  obtain ⟨memory, rfl, granted⟩ := allocPages_returns typed.sound pos ran
  obtain ⟨typed, old, only⟩ := typed.newPages granted fun _ => cleared_outside
  exact ⟨_, typed, ⟨granted.grown, rfl, old⟩, fun q k known => (only q k known).imp_right fun inside => granted.free inside,
    fun q inside => if_pos (mem_run.mp inside)⟩

theorem Typed.mapUser {phys : Nat} (directory : kind dir = some .directory)
    (addr : current.dir = (s.frames.pages dir).addr) (user : virt < virtualBase)
    (page : kind (frameOf (entryOf phys userFlags)) = some .page) (ran : userMapPage current virt phys s = .ok s') :
    ∃ more, Typed more s' ∧ Evolved kind s more s' ∧
      ∀ q k, more q = some k → kind q = some k ∨ q ∈ freeSet s.frames := by
  obtain ⟨index, inside⟩ := addrToDiridx_user user
  rw [userMapPage, index] at ran
  rcases doUserMapPage_cases typed.sound (typed.reaching directory addr inside) (addrToTabidx_lt virt) phys with
    ⟨after, expected, step⟩ | ⟨fault, failed, _⟩
  · rw [expected] at ran
    cases ran
    obtain ⟨more, next, old, only⟩ := typed.map directory inside page step
    refine ⟨more, next, ?_, only⟩
    cases step with
    | present => exact ⟨Grown.refl _, rfl, old⟩
    | absent _ _ granted => exact ⟨granted.grown, rfl, old⟩
  · rw [failed] at ran
    cases ran

end

theorem Arranged.evolve (arranged : Arranged kind s) (typed : Typed more s') (evolved : Evolved kind s more s')
    (only : ∀ q k, more q = some k → kind q = some k ∨ q ∈ freeSet s.frames) : Arranged more s' := by
  have same := kptabTable_congr evolved.kptab
  refine ⟨typed, fun q k known => ?_, fun q reserved free => ?_⟩
  · rw [same]
    rcases only q k known with old | free
    · exact arranged.apart q k old
    · by_contra table
      exact arranged.reserved q table free
  · rw [same] at reserved
    exact arranged.reserved q reserved (evolved.memory.free free)

theorem Arranged.newDirectory (arranged : Arranged kind s) {memory : Memory}
    (granted : Granted new 1 s.kernel.memory memory) :
    Placed (update kind new (some .directory)) new { cr3 := pageToPhys new, dir := (memory.frames.pages new).addr }
        { s with kernel.memory := memory, words := update s.words new (dirWords s.kptabPhys) } ∧
      Evolved kind s (update kind new (some .directory))
        { s with kernel.memory := memory, words := update s.words new (dirWords s.kptabPhys) } := by
  have free : new ∈ freeSet s.frames := granted.free (mem_run_one.mpr rfl)
  have evolved : Evolved kind s (update kind new (some .directory))
      { s with kernel.memory := memory, words := update s.words new (dirWords s.kptabPhys) } := by
    refine ⟨granted.grown, rfl, fun q k known => ?_⟩
    have other : q ≠ new := by
      rintro rfl
      exact (arranged.typed.held known).taken free
    rw [update_of_ne other, known]
  refine ⟨⟨arranged.evolve (arranged.typed.newDirectory granted) evolved fun q k known => ?_,
    update_self .., rfl, rfl⟩, evolved⟩
  by_cases here : q = new
  · exact .inr (here ▸ free)
  · rw [update_of_ne here] at known
    exact .inl known

theorem Arranged.replace (arranged : Arranged kind s) {next : ArchThreadData}
    (ran : archReplaceMem 0 s = .ok (s', next)) : ∃ more new, Placed more new next s' ∧ Evolved kind s more s' := by
  obtain ⟨memory, new, granted, rfl, rfl⟩ := archReplaceMem_new arranged.typed.sound ran
  obtain ⟨placed, evolved⟩ := arranged.newDirectory granted
  exact ⟨_, new, placed, evolved⟩

theorem archReplaceMem_back {olddir : Nat} (room : s.kmap.kernelNextPage ≤ windowPages)
    (backed : Backed s.kernel.memory new) (old : olddir = (s.frames.pages new).addr) :
    archReplaceMem olddir s = .ok (s, { cr3 := pageToPhys new, dir := (s.frames.pages new).addr }) := by
  have nonzero : olddir ≠ 0 := old ▸ backed.addr_ne_zero
  have page : virtToPage olddir s.kmap = .ok new := by
    rw [virtToPage, old, virtToPhys_backed room backed, ok_bind, physToPage, pageToPhys_page backed.range]
    rfl
  rw [archReplaceMem, if_neg nonzero, page, Except.map, ok_bind]
  rfl

namespace Placed

variable (placed : Placed kind dir current s)

section

include placed

theorem refl : Onward kind dir current s s := ⟨kind, placed, Evolved.refl kind s⟩

theorem evolve (typed : Typed more s') (evolved : Evolved kind s more s')
    (only : ∀ q k, more q = some k → kind q = some k ∨ q ∈ freeSet s.frames) : Placed more dir current s' := by
  refine ⟨placed.toArranged.evolve typed evolved only, evolved.old dir _ placed.directory, ?_, placed.cr3⟩
  exact placed.addr.trans (evolved.addr placed.typed placed.directory).symm

theorem allocate {flags : UInt32} (pos : num ≠ 0) (ran : allocPages num flags s = .ok (s', page)) :
    ∃ more, Placed more dir current s' ∧ Evolved kind s more s' ∧ ∀ q ∈ run page num, more q = some .page := by
  obtain ⟨more, typed, evolved, only, pages⟩ := placed.typed.allocate pos ran
  exact ⟨more, placed.evolve typed evolved only, evolved, pages⟩

theorem map {phys : Nat} (user : virt < virtualBase)
    (page : kind (frameOf (entryOf phys userFlags)) = some .page) (ran : userMapPage current virt phys s = .ok s') :
    Onward kind dir current s s' := by
  obtain ⟨more, typed, evolved, only⟩ := placed.typed.mapUser placed.directory placed.addr user page ran
  exact ⟨more, placed.evolve typed evolved only, evolved⟩

end

theorem frame_page (range : page < pageCount) : frameOf (entryOf (pageToPhys page) userFlags) = page := by
  rw [frameOf_entryOf (pageToPhys_lt page), pageToPhys_page range]

section

include placed

theorem userAllocPage {flags : UInt32} (user : virt < virtualBase)
    (ran : Paging.userAllocPage current virt flags s = .ok (s', page)) : Onward kind dir current s s' := by
  obtain ⟨⟨between, taken⟩, allocated, rest⟩ := bind_returns ran
  obtain ⟨after, mapped, same⟩ := bind_returns rest
  cases same
  obtain ⟨more, next, evolved, pages⟩ := placed.allocate (by decide) allocated
  have known := pages page (mem_run_one.mpr rfl)
  have named := frame_page (next.typed.held known).range
  obtain ⟨most, last, further⟩ := next.map user (by rw [named, known]) mapped
  exact ⟨most, last, evolved.trans further⟩

theorem userMapPages (user : virt + num * pageSize ≤ virtualBase) (pages : ∀ q ∈ run page num, kind q = some .page)
    (ran : Paging.userMapPages current virt (pageToPhys page) num s = .ok s') : Onward kind dir current s s' := by
  refine forLoop_preserves (fun _ next => Onward kind dir current s next) ran placed.refl ?_
  rintro i next after below ⟨more, between, evolved⟩ mapped
  have here := pages (page + i) ⟨by omega, by omega⟩
  have range : page + i < pageCount := (placed.typed.held here).range
  obtain ⟨low, small, phys⟩ := page_row user below page
  rw [small, phys] at mapped
  obtain ⟨most, last, further⟩ :=
    between.map low (by rw [frame_page range, evolved.old _ _ here]) mapped
  exact ⟨most, last, evolved.trans further⟩

theorem restore {olddir : Nat} {next : ArchThreadData}
    (directory : kind new = some .directory) (old : olddir = (s.frames.pages new).addr)
    (ran : archReplaceMem olddir s = .ok (s', next)) : s' = s ∧ Placed kind new next s := by
  rw [archReplaceMem_back placed.typed.sound.room (placed.typed.held directory) old] at ran
  cases ran
  exact ⟨rfl, placed.toArranged, directory, rfl, rfl⟩

theorem take {p n : Nat} {kernel : Kernel} (granted : Granted p n s.kernel.memory kernel.memory) :
    Onward kind dir current s { s with kernel } := by
  have typed : Typed kind { s with kernel.memory := kernel.memory, words := s.words } := by
    refine placed.typed.extend granted (fun _ _ known => known) (fun _ _ known => .inl known) (fun _ _ => rfl)
      fun q k i inside known => ?_
    rw [placed.typed.unknown granted inside] at known
    cases known
  have evolved : Evolved kind s kind { s with kernel } := ⟨granted.grown, rfl, fun _ _ known => known⟩
  exact ⟨kind, placed.evolve { typed with } evolved fun _ _ known => .inl known, evolved⟩

theorem same {kernel : Kernel} (memory : kernel.memory = s.kernel.memory) : Onward kind dir current s { s with kernel } := by
  have typed : Typed kind { s with kernel } := { placed.typed with sound := memory ▸ placed.typed.sound }
  have evolved : Evolved kind s kind { s with kernel } := ⟨memory ▸ Grown.refl _, rfl, fun _ _ known => known⟩
  exact ⟨kind, placed.evolve typed evolved fun _ _ known => .inl known, evolved⟩

theorem kmalloc (ran : Paging.kmalloc size s = .ok (s', mem)) :
    Onward kind dir current s s' := by
  obtain ⟨⟨kernel, addr⟩, allocated, same⟩ := map_returns ran
  cases same
  rcases kmalloc_memory allocated with same | ⟨n, flags, p, pos, taken⟩
  · exact placed.same same
  · exact placed.take (allocPages_granted placed.typed.sound pos taken)

theorem kernelWord (above : userTables ≤ i) (inside : i < numEntries) :
    load (entryAddr current.dir i) s = .ok (kernelEntry s.kptabPhys (i - userTables)) := by
  rw [placed.addr, load_backed placed.typed.sound.room (placed.typed.held placed.directory) inside,
    placed.typed.kernelHalf dir i placed.directory above inside]

end

section

include placed

theorem readFrame_kind {q : Nat} {k : Kind} (known : kind q = some k) (i : Nat) :
    readFrame q i s = s.words q i := by
  rw [readFrame, placed.apart q k known]

theorem translate_page {frame : Nat} (user : virt < virtualBase) (ran : translate current.cr3 virt s = .ok frame) :
    kind frame = some .page := by
  obtain ⟨index, inside⟩ := addrToDiridx_user user
  have typed := placed.typed
  have range := (typed.held placed.directory).range
  rw [translate, placed.cr3, pageToPhys_page range, placed.readFrame_kind placed.directory, index] at ran
  split at ran
  · cases ran
  next linked =>
    have table := (typed.directories dir _ placed.directory inside).resolve_left (fun zero => by
      rw [zero] at linked
      exact linked (by decide))
    rw [← frameOf, placed.readFrame_kind table] at ran
    split at ran
    · cases ran
    next present =>
      cases ran
      exact (typed.tables _ _ table (addrToTabidx_lt virt)).resolve_left (fun zero => by
        rw [zero] at present
        exact present (by decide))

theorem writeWord {frame : Nat} (page : kind frame = some .page) (index : Nat)
    (word : BitVec 32) : Onward kind dir current s (writeFrame frame index word s) := by
  have evolved : Evolved kind s kind { s with words := putWord s.words frame index word } :=
    ⟨Grown.refl _, rfl, fun _ _ known => known⟩
  rw [writeFrame, placed.apart _ _ page]
  exact ⟨kind, placed.evolve (placed.typed.write page _) evolved fun _ _ known => .inl known, evolved⟩

theorem writeByte {byte : UInt8} (user : virt < virtualBase) (ran : Paging.writeByte current.cr3 virt byte s = .ok s') :
    Onward kind dir current s s' := by
  obtain ⟨frame, found, rfl⟩ := map_returns ran
  exact placed.writeWord (placed.translate_page user found) _ _

theorem writeBytes {bytes : List UInt8} (user : virt + bytes.length ≤ virtualBase)
    (ran : Paging.writeBytes current.cr3 virt bytes s = .ok s') :
    Onward kind dir current s s' := by
  induction bytes generalizing kind s virt with
  | nil =>
    cases ran
    exact placed.refl
  | cons _ _ ih =>
    rw [List.length_cons] at user
    obtain ⟨next, first, ran⟩ := bind_returns ran
    refine (placed.writeByte (by omega) first).next fun more between _ => ?_
    exact ih between (by omega) ran

end

end Placed

end Steps

end KOs.Arch.Paging

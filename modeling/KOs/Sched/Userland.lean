import KOs.Arch.Fork
import KOs.Fs.Loading

namespace KOs.Sched

open KOs.Arch KOs.Arch.Paging KOs.Common KOs.Data KOs.Fs KOs.Mm Option

/-! What a task asks for memory with: `alloc_page` from `sched/syscall.c`, and `execve` of an ELF file. -/

def sysAllocPage (pidx : Nat) (current : ArchThreadData) (s : Store) : Except Fault Store := do
  let (s, page) ← allocPage 0 s
  userMapPage current (pidx * pageSize % 2 ^ 32) (pageToPhys page) s

structure Userland where
  store : Store
  current : ArchThreadData

inductive UserRequest (φ : Type) where
  | allocPage (pidx : Nat)
  | execve (ops : FileOps φ) (file : φ) (argv envp : List (List UInt8))

variable {φ : Type}

def serving : Machine Userland (UserRequest φ) Fault where
  enabled request _ :=
    match request with
    | .allocPage pidx => decide (pidx < 2 ^ 32)
    | .execve .. => true
  perform request s :=
    match request with
    | .allocPage pidx => (sysAllocPage pidx s.current s.store).map (fun store => { s with store })
    | .execve ops file argv envp => (loadElf ops file argv envp s.current s.store).map (fun (loaded, task, _) =>
        { store := loaded, current := task })

def UserRequest.InUserSpace : UserRequest φ → Prop
  | .allocPage pidx => pidx * pageSize % 2 ^ 32 < virtualBase
  | .execve ops file argv envp =>
      SegmentsInUserSpace ops file ∧ strtabEnd (strtabEnd uargsAddrStart argv) envp ≤ virtualBase

/-- The kernel half of the address space is as before, except for pages that the window has been extended with. -/
structure Userland.KernelHalfKept (before after : Userland) : Prop where
  directory : ∀ i, userTables ≤ i → i < numEntries → ∃ word,
    load (entryAddr before.current.dir i) before.store = .ok word ∧
      load (entryAddr after.current.dir i) after.store = .ok word
  next : before.store.kmap.kernelNextPage ≤ after.store.kmap.kernelNextPage
  tables : ∀ i, i < before.store.kmap.kernelNextPage ∨ after.store.kmap.kernelNextPage ≤ i →
    after.store.kmap.entry i = before.store.kmap.entry i
  /-- No user can reach the new pages. -/
  window : ∀ i, before.store.kmap.kernelNextPage ≤ i → i < after.store.kmap.kernelNextPage →
    (after.store.kmap.entry i).flags = mmuflagWritable ||| mmuflagPresent

section Kept

variable {kind : Nat → Option Kind} {dir : Nat} {current : ArchThreadData} {s s' : Store}

theorem sysAllocPage_onward (placed : Placed kind dir current s) {pidx : Nat}
    (user : pidx * pageSize % 2 ^ 32 < virtualBase) (ran : sysAllocPage pidx current s = .ok s') :
    Onward kind dir current s s' := by
  obtain ⟨⟨between, page⟩, allocated, mapped⟩ := bind_returns ran
  obtain ⟨more, next, evolved, pages⟩ := placed.allocate (by decide) allocated
  have known := pages page (mem_run_one.mpr rfl)
  obtain ⟨most, last, further⟩ :=
    next.map user (by rw [Placed.frame_page (next.typed.held known).range, known]) mapped
  exact ⟨most, last, evolved.trans further⟩

theorem kernelHalfKept_of_evolved {more : Nat → Option Kind} {new : Nat} {next : ArchThreadData}
    (evolved : Evolved kind s more s') (before : Placed kind dir current s) (after : Placed more new next s') :
    Userland.KernelHalfKept ⟨s, current⟩ ⟨s', next⟩ := by
  refine ⟨fun i above inside => ⟨_, before.kernelWord above inside, ?_⟩, evolved.memory.next, evolved.memory.entries,
    evolved.memory.window⟩
  rw [after.kernelWord above inside, evolved.kptab]

theorem serving_moved {request : UserRequest φ} {s s' : Userland} (placed : Placed kind dir s.current s.store)
    (user : request.InUserSpace) (ran : serving.perform request s = .ok s') :
    Moved kind s.store s'.store s'.current := by
  rw [serving] at ran
  cases request with
  | allocPage =>
    obtain ⟨store, allocated, rfl⟩ := map_returns ran
    obtain ⟨more, next, evolved⟩ := sysAllocPage_onward placed user allocated
    exact ⟨more, dir, next, evolved⟩
  | execve =>
    obtain ⟨⟨store, current, result⟩, loaded, rfl⟩ := map_returns ran
    exact loadElf_moved placed user.1 user.2 loaded

/-- What a task asks for in user space leaves the kernel half of its address space alone. -/
theorem user_requests_keep_kernel_half {start final : Userland} (placed : Placed kind dir start.current start.store)
    (path : (serving (φ := φ)).Reaches (fun _ request => request.InUserSpace) start final) :
    start.KernelHalfKept final := by
  have moved := path.preserves (fun s => Moved kind start.store s.store s.current)
    ⟨kind, dir, placed, Evolved.refl kind _⟩ ?_
  · obtain ⟨more, new, last, evolved⟩ := moved
    exact kernelHalfKept_of_evolved evolved placed last
  · rintro before request after ⟨more, new, between, evolved⟩ user _ ran
    obtain ⟨most, last, done, further⟩ := serving_moved between user ran
    exact ⟨most, last, done, evolved.trans further⟩

end Kept

theorem cacheInit_sound {before after : Kernel} (sound : Paging.Sound before.memory ∅) (ran : cacheInit before = .ok after) :
    Paging.Sound after.memory ∅ := by
  refine forLoop_preserves (fun _ kernel => Paging.Sound kernel.memory ∅) ran sound ?_
  intro i kernel next _ sound turn
  obtain ⟨⟨kernel, cache⟩, created, same⟩ := bind_returns turn
  cases same
  obtain ⟨⟨kernel, addr⟩, allocated, same⟩ := bind_returns created
  cases same
  rcases cacheAlloc_memory allocated with same | ⟨n, flags, p, pos, taken⟩
  · dsimp only
    rw [same]
    exact sound
  · exact (sound.grant (allocPages_granted sound pos taken)).mono nofun

/-- The frames of the list are claimed, the caches of `kmalloc` are made, and nothing is written yet. -/
def kernelStore (list : List Nat) : Option Store :=
  (claimList list (mmInit selfLinked)).bind (fun frames =>
    (cacheInit { bootKernel frames with memory := ⟨frames, unmapped⟩ }).toOption.map (fun kernel =>
      { kernel, words := fun _ _ => 0, kptabPhys := 0x100000 }))

variable {list : List Nat} {s : Store}

theorem kernelStore_sound (made : kernelStore list = some s) : Paging.Sound s.kernel.memory ∅ := by
  obtain ⟨frames, claimed, rest⟩ := bind_eq_some_iff.mp made
  obtain ⟨kernel, ran, rfl⟩ := map_eq_some_iff.mp rest
  exact cacheInit_sound (claimed_sound claimed) (toOption_returns ran)

/-- An ELF file with one segment: four bytes of the file, and zeroes to the end. -/
def elfFile (memsz : List UInt8) : List UInt8 :=
  [0x7F, 0x45, 0x4C, 0x46, 1, 1, 1] ++ List.replicate 9 0 ++ [2, 0, 3, 0, 1, 0, 0, 0, 0, 0x80, 0, 0, 52, 0, 0, 0] ++
    List.replicate 12 0 ++ [1, 0] ++ List.replicate 6 0 ++
    [1, 0, 0, 0, 84, 0, 0, 0, 0, 0x80, 0, 0, 0, 0, 0, 0, 4, 0, 0, 0] ++ memsz ++ List.replicate 8 0 ++ [1, 2, 3, 4]

def elfImage : List UInt8 := elfFile [8, 0, 0, 0]

/-- A file in memory, given by its offset. -/
def imageOps (image : List UInt8) : FileOps Nat where
  isDirectory _ := false
  seek off _ := (off, off)
  read bytes off := (off + ((image.drop off).take bytes).length, ((image.drop off).take bytes).length, (image.drop off).take bytes)

structure UserRun where
  first : Store
  start : Userland
  allocated : Store
  fresh : Userland
  final : Userland
  result : Loaded

def userRun (list : List Nat) (pidx : Nat) (image : List UInt8) : Option UserRun :=
  (kernelStore list).bind (fun first => (replaced first).bind (fun made =>
    (sysAllocPage pidx made.2 made.1).toOption.bind (fun allocated => (replaced allocated).bind (fun fresh =>
      (loadInto (imageOps image) 0 [[0x61]] [] made.2.dir fresh.2 fresh.1).toOption.map (fun loaded =>
        { first, start := ⟨made.1, made.2⟩, allocated, fresh := ⟨fresh.1, fresh.2⟩,
          final := ⟨loaded.1, loaded.2.1⟩, result := loaded.2.2 })))))

def keepsKptab (s : Store) : Bool :=
  (List.range kernelNumTables).all (fun k => (s.frames.pages (s.kptabPhys / pageSize + k)).flags != 0)

theorem keepsKptab_reserved (kept : keepsKptab s = true) (q : Nat) (table : kptabTable q s ≠ none) :
    q ∉ freeSet s.frames := by
  rw [kptabTable] at table
  split at table
  next inside =>
    intro free
    have flags := List.all_eq_true.mp kept (q - s.kptabPhys / pageSize) (List.mem_range.mpr (by omega))
    rw [Nat.add_sub_cancel' inside.1] at flags
    have clear : (s.frames.pages q).flags = 0 := free.2
    rw [clear] at flags
    contradiction
  · contradiction

theorem replaced_placed {first start : Store} {task : ArchThreadData} (sound : Paging.Sound first.kernel.memory ∅)
    (kept : keepsKptab first = true) (made : replaced first = some (start, task)) :
    ∃ kind dir, Placed kind dir task start := by
  have arranged : Arranged (fun _ => none) first := ⟨sound.typed, nofun, keepsKptab_reserved kept⟩
  obtain ⟨kind, dir, placed, _⟩ := arranged.replace (replaced_eq sound made)
  exact ⟨kind, dir, placed⟩

theorem userRun_reaches {pidx : Nat} {image : List UInt8} {r : UserRun}
    (ran : userRun list pidx image = some r) (kept : keepsKptab r.first = true) (small : pidx < 2 ^ 32)
    (user : pidx * pageSize % 2 ^ 32 < virtualBase) (segments : SegmentsInUserSpace (imageOps image) 0) :
    ∃ kind dir, Placed kind dir r.start.current r.start.store ∧
      (serving (φ := Nat)).Reaches (fun _ request => request.InUserSpace) r.start r.final := by
  obtain ⟨first, boot, rest⟩ := bind_eq_some_iff.mp ran
  obtain ⟨⟨start, current⟩, made, rest⟩ := bind_eq_some_iff.mp rest
  obtain ⟨allocated, called, rest⟩ := bind_eq_some_iff.mp rest
  obtain ⟨⟨fresh, next⟩, replaced, rest⟩ := bind_eq_some_iff.mp rest
  obtain ⟨⟨final, last, result⟩, loaded, rfl⟩ := map_eq_some_iff.mp rest
  obtain ⟨kind, dir, placed⟩ := replaced_placed (kernelStore_sound boot) kept made
  have called := toOption_returns called
  obtain ⟨more, between, _⟩ := sysAllocPage_onward placed user called
  have one : (serving (φ := Nat)).Step (fun _ request => request.InUserSpace) ⟨start, current⟩ ⟨allocated, current⟩ := by
    refine ⟨.allocPage pidx, user, decide_eq_true small, ?_⟩
    rw [serving]
    dsimp only
    rw [called]
    rfl
  have two : (serving (φ := Nat)).Step (fun _ request => request.InUserSpace) ⟨allocated, current⟩ ⟨final, last⟩ := by
    refine ⟨.execve _ 0 [[0x61]] [], ⟨segments, by decide⟩, rfl, ?_⟩
    rw [serving]
    dsimp only
    rw [loadElf, replaced_eq between.typed.sound replaced, ok_bind]
    dsimp only
    rw [toOption_returns loaded]
    rfl
  exact ⟨kind, dir, placed, .head one (.single two)⟩

theorem user_requests_keep_kernel_half_two : ∃ (kind : Nat → Option Kind) (dir : Nat) (start final : Userland),
    Placed kind dir start.current start.store ∧
      (serving (φ := Nat)).Reaches (fun _ request => request.InUserSpace) start final ∧
      start.current ≠ final.current ∧ start.KernelHalfKept final := by
  obtain ⟨r, ran, kept, ne⟩ : ∃ r ∈ userRun [8, 9, 10, 11, 12, 13, 14, 15, 17, 19, 21, 23, 25, 27, 29, 31, 33, 35, 37,
      39] 5 elfImage, keepsKptab r.first = true ∧ r.start.current ≠ r.final.current := by decide +kernel
  obtain ⟨kind, dir, placed, path⟩ := userRun_reaches ran kept (by decide) (by decide) (by decide +kernel)
  exact ⟨kind, dir, r.start, r.final, placed, path, ne, user_requests_keep_kernel_half placed path⟩

/-- The first call extends `kptab`; the second one puts a user table into the kernel half. -/
theorem alloc_page_changes_kernel_half : ∃ (kind : Nat → Option Kind) (dir : Nat) (start : Userland) (low high : Store),
    Placed kind dir start.current start.store ∧ sysAllocPage 1 start.current start.store = .ok low ∧
      low.kmap.entry start.store.kmap.kernelNextPage ≠ start.store.kmap.entry start.store.kmap.kernelNextPage ∧
      sysAllocPage 0xC0000 start.current start.store = .ok high ∧
      load (entryAddr start.current.dir 768) start.store = .ok (kernelEntry start.store.kptabPhys 0) ∧
      load (entryAddr start.current.dir 768) high ≠ .ok (kernelEntry start.store.kptabPhys 0) := by
  obtain ⟨_, boot, kept, ⟨store, current⟩, fresh, ⟨low, below, extended⟩, high, above, replaced⟩ : ∃ first ∈
      kernelStore [17, 19, 21, 23, 25, 27], keepsKptab first = true ∧ ∃ made ∈ replaced first,
      (∃ low ∈ (sysAllocPage 1 made.2 made.1).toOption,
        low.kmap.entry made.1.kmap.kernelNextPage ≠ made.1.kmap.entry made.1.kmap.kernelNextPage) ∧
      ∃ high ∈ (sysAllocPage 0xC0000 made.2 made.1).toOption,
        (load (entryAddr made.2.dir 768) high).toOption ≠ some (kernelEntry made.1.kptabPhys 0) := by decide +kernel
  obtain ⟨kind, dir, placed⟩ := replaced_placed (kernelStore_sound boot) kept fresh
  refine ⟨kind, dir, ⟨store, current⟩, low, high, placed, toOption_returns below, extended, toOption_returns above,
    placed.kernelWord (Nat.le_refl _) (by decide), fun same => replaced ?_⟩
  rw [same]
  rfl

end KOs.Sched

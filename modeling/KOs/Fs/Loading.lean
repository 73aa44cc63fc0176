import KOs.Arch.Growth
import KOs.Arch.Spaces
import KOs.Fs.Elf

namespace KOs.Fs

open KOs.Arch KOs.Arch.Paging KOs.Common KOs.Data KOs.Mm List

/-! `load_elf` stays in the user half, as long as the segments and the arguments do. -/

variable {phdr : Elf32Phdr} {tab : List (List UInt8)}

section Loading

variable {φ : Type} {ops : FileOps φ} {kind : Nat → Option Kind} {dir : Nat} {current : ArchThreadData} {s s' : Store}

theorem vfsRead_length (bytes : Nat) (file : φ) : (vfsRead ops bytes file).2.2.length ≤ bytes := by
  rw [vfsRead]
  split
  · exact Nat.zero_le _
  · exact length_take_le ..

/-- No byte of the segment is at an address of the kernel. -/
def Elf32Phdr.InUserSpace (phdr : Elf32Phdr) : Prop := phdr.pMemsz = 0 ∨ phdr.pVaddr + phdr.pMemsz ≤ virtualBase

instance (phdr : Elf32Phdr) : Decidable phdr.InUserSpace := inferInstanceAs (Decidable (_ ∨ _))

variable {addr start fin last : Nat} {l l' : Segments φ}

theorem ensurePage_onward (placed : Placed kind dir current s) (user : addr < virtualBase)
    (ran : ensurePage current addr s = .ok s') : Onward kind dir current s s' := by
  rw [ensurePage] at ran
  obtain ⟨page, _, rest⟩ := bind_returns ran
  split at rest
  · obtain ⟨⟨next, page⟩, allocated, rfl⟩ := map_returns rest
    exact placed.userAllocPage user allocated
  · cases rest
    exact placed.refl

theorem writeChunk_onward (placed : Placed kind dir current s) {left : Nat} {bytes : List UInt8}
    (page : addr + left ≤ virtualBase) (short : bytes.length ≤ left)
    (ran : writeBytes current.cr3 addr bytes s = .ok s') : Onward kind dir current s s' :=
  placed.writeBytes ((Nat.add_le_add_left short addr).trans page) ran

theorem chunk_user {l : Chunks φ} (user : phdr.pVaddr + phdr.pMemsz ≤ virtualBase)
    (going : l.bytesWritten < phdr.pMemsz) : phdr.pVaddr + l.bytesWritten < virtualBase ∧
      (phdr.pVaddr + l.bytesWritten) % 2 ^ 32 = phdr.pVaddr + l.bytesWritten ∧
      phdr.pVaddr + l.bytesWritten + (pageSize - (phdr.pVaddr + l.bytesWritten) % pageSize) ≤ virtualBase := by
  simp only [virtualBase, pageSize] at *
  omega

theorem loadChunk_onward {l l' : Chunks φ} (placed : Placed kind dir current l.store)
    (user : phdr.pVaddr + phdr.pMemsz ≤ virtualBase) (going : l.bytesWritten < phdr.pMemsz)
    (ran : loadChunk ops current phdr l = .ok l') : Onward kind dir current l.store l'.store := by
  obtain ⟨low, small, page⟩ := chunk_user user going
  rw [loadChunk, small] at ran
  obtain ⟨store, ensured, rest⟩ := bind_returns ran
  have first := ensurePage_onward placed low ensured
  dsimp only at rest
  split at rest
  · obtain ⟨written, ran, rest⟩ := bind_returns rest
    have second := first.next (fun more between _ =>
      writeChunk_onward between page ((vfsRead_length _ _).trans (min_le_left ..)) ran)
    split at rest
    · cases rest
      exact second
    · cases rest
      exact second
  · obtain ⟨written, ran, rest⟩ := bind_returns rest
    have second := first.next (fun more between _ => writeChunk_onward between page (by
      rw [length_replicate]
      exact min_le_left ..) ran)
    cases rest
    exact second

theorem loadSegment_onward (placed : Placed kind dir current l.store) (user : phdr.InUserSpace)
    (ran : loadSegment ops current phdr l = .ok l') :
    Onward kind dir current l.store l'.store := by
  rw [loadSegment] at ran
  dsimp only at ran
  split at ran
  · cases ran
    exact placed.refl
  · obtain ⟨chunks, looped, rfl⟩ := map_returns ran
    refine whileLoop_preserves (fun next => Onward kind dir current l.store next.store) looped placed.refl ?_
    intro next after reached going turn
    rw [Bool.and_eq_true, decide_eq_true_iff] at going
    have some : phdr.pMemsz ≠ 0 := by omega
    exact reached.next fun more between _ => loadChunk_onward between (user.resolve_left some) going.2 turn

def Chunks.left (memsz : Nat) (l : Chunks φ) : Nat := if l.failed then 0 else memsz - l.bytesWritten + 1

theorem loadChunk_left (filesz : phdr.pFilesz < 2 ^ 32) (memsz : phdr.pMemsz < 2 ^ 32) {l l' : Chunks φ}
    (fine : l.failed = false) (going : l.bytesWritten < phdr.pMemsz) (ran : loadChunk ops current phdr l = .ok l') :
    l'.left phdr.pMemsz < l.left phdr.pMemsz := by
  have some : 0 < pageSize - (phdr.pVaddr + l.bytesWritten) % 2 ^ 32 % pageSize :=
    Nat.sub_pos_of_lt (Nat.mod_lt _ (by decide))
  rw [loadChunk] at ran
  obtain ⟨store, _, rest⟩ := bind_returns ran
  dsimp only at rest
  split at rest
  · obtain ⟨written, _, rest⟩ := bind_returns rest
    split at rest
    · cases rest
      simp [Chunks.left, fine]
    · cases rest
      simp only [Chunks.left, fine, Bool.false_eq_true, if_false]
      omega
  · obtain ⟨written, _, rest⟩ := bind_returns rest
    cases rest
    simp only [Chunks.left, fine, Bool.false_eq_true, if_false]
    omega

theorem loadSegment_settles (filesz : phdr.pFilesz < 2 ^ 32) (memsz : phdr.pMemsz < 2 ^ 32) (l : Segments φ) :
    Settles (fun l : Chunks φ => !l.failed && decide (l.bytesWritten < phdr.pMemsz)) (loadChunk ops current phdr)
      { l with bytesWritten := 0 }
      (whileLoop (fun l => !l.failed && decide (l.bytesWritten < phdr.pMemsz)) (loadChunk ops current phdr) .unfinished
        (phdr.pMemsz + 2) { l with bytesWritten := 0 }) := by
  refine whileLoop_settles (Chunks.left phdr.pMemsz) ?_ (fun before after going ran => ?_)
  · rw [Chunks.left]
    split
    · omega
    · dsimp only
      omega
  · rw [Bool.and_eq_true, decide_eq_true_iff, Bool.not_eq_true'] at going
    exact loadChunk_left filesz memsz going.1 going.2 ran

def sevens : FileOps Unit where
  isDirectory _ := false
  seek n file := (file, n)
  read n file := (file, n, replicate n 7)

/-- Two bytes of the file and three zeroes are stored in a page that the load allocates. -/
theorem loadSegment_settles_page : ∃ start loaded, bootSpace [2, 3, 4] = some start ∧ loaded.bytesWritten = 5 ∧
    loaded.store.words 2 0 = 0x0707 ∧ Settles (fun l : Chunks Unit => !l.failed && decide (l.bytesWritten < 5))
      (loadChunk sevens start.task ⟨1, 0, 0x5000, 2, 5⟩) ⟨⟨start.store, (), false⟩, 0⟩ (.ok loaded) := by
  obtain ⟨start, booted, loaded, looped, count, word⟩ : ∃ start ∈ bootSpace [2, 3, 4], ∃ loaded ∈
      (whileLoop (fun l : Chunks Unit => !l.failed && decide (l.bytesWritten < 5))
        (loadChunk sevens start.task ⟨1, 0, 0x5000, 2, 5⟩) .unfinished 7 ⟨⟨start.store, (), false⟩, 0⟩).toOption,
      loaded.bytesWritten = 5 ∧ loaded.store.words 2 0 = 0x0707 := by decide +kernel
  have settles := @loadSegment_settles ⟨1, 0, 0x5000, 2, 5⟩ _ sevens start.task (by decide) (by decide)
    ⟨start.store, (), false⟩
  rw [toOption_returns looped] at settles
  exact ⟨start, loaded, booted, count, word, settles⟩

theorem loadPhdr_onward (placed : Placed kind dir current l.store)
    (user : phdr.pType = ptLoad → phdr.InUserSpace) (ran : loadPhdr ops current phdr l = .ok l') :
    Onward kind dir current l.store l'.store := by
  rw [loadPhdr] at ran
  split at ran
  · cases ran
    exact placed.refl
  · split at ran
    next load =>
      exact loadSegment_onward placed (user load) ran
    · split at ran
      · cases ran
      · cases ran

theorem loadPhdrs_onward {phdrs : List Elf32Phdr} (placed : Placed kind dir current l.store)
    (user : ∀ phdr ∈ phdrs, phdr.pType = ptLoad → phdr.InUserSpace) (ran : loadPhdrs ops current phdrs l = .ok l') :
    Onward kind dir current l.store l'.store := by
  induction phdrs generalizing kind l with
  | nil =>
    cases ran
    exact placed.refl
  | cons phdr _ ih =>
    obtain ⟨next, loaded, ran⟩ := bind_returns ran
    have first := loadPhdr_onward placed (user phdr mem_cons_self) loaded
    split at ran
    · cases ran
      exact first
    · exact first.next (fun more between _ =>
        ih between (fun phdr mem => user phdr (mem_cons_of_mem _ mem)) ran)

theorem designateSpace_onward (placed : Placed kind dir current s) {numPages : Nat} (pos : numPages ≠ 0)
    (user : start + numPages * pageSize ≤ virtualBase) (ran : designateSpace current start numPages s = .ok s') :
    Onward kind dir current s s' := by
  rw [designateSpace] at ran
  obtain ⟨phys, _, rest⟩ := bind_returns ran
  split at rest
  · cases rest
  · obtain ⟨⟨next, page⟩, allocated, mapped⟩ := bind_returns rest
    obtain ⟨more, between, evolved, pages⟩ := placed.allocate pos allocated
    obtain ⟨most, last, further⟩ := between.userMapPages user pages mapped
    exact ⟨most, last, evolved.trans further⟩

def stringBytes (tab : List (List UInt8)) : Nat := (tab.map (fun string => string.length + 1)).sum

def strtabEnd (start : Nat) (tab : List (List UInt8)) : Nat := start + 4 * (4 * tab.length + 1) + stringBytes tab

theorem stringBytes_cons (string : List UInt8) (rest : List (List UInt8)) :
    stringBytes (string :: rest) = string.length + 1 + stringBytes rest := by
  rw [stringBytes, map_cons, sum_cons, ← stringBytes]

theorem string_user {n : Nat} {string : List UInt8} {rest : List (List UInt8)}
    (pointers : start + 4 * (n + 1 + 1) ≤ virtualBase)
    (strings : fin + (string.length + 1 + stringBytes rest) ≤ virtualBase) :
    (start + 4) % 2 ^ 32 = start + 4 ∧ (fin + string.length + 1) % 2 ^ 32 = fin + string.length + 1 ∧
      start + (pointerBytes fin).length ≤ virtualBase ∧ fin + (string ++ [0]).length ≤ virtualBase := by
  have four : (pointerBytes fin).length = 4 := rfl
  rw [length_append, length_singleton]
  simp only [virtualBase] at *
  omega

theorem strtab_small (user : start + 4 * (4 * tab.length + 1) + stringBytes tab ≤ virtualBase) :
    (start + 4 * (4 * tab.length + 1)) % 2 ^ 32 = start + 4 * (4 * tab.length + 1) := by
  simp only [virtualBase] at user
  omega

section

variable (placed : Placed kind dir current s)
include placed

theorem writeStrtab_onward
    (pointers : start + 4 * (tab.length + 1) ≤ virtualBase) (strings : fin + stringBytes tab ≤ virtualBase)
    (ran : writeStrtab current.cr3 start fin tab s = .ok (s', last)) :
    Onward kind dir current s s' ∧ last = fin + stringBytes tab := by
  induction tab generalizing kind s start fin with
  | nil =>
    obtain ⟨next, written, same⟩ := map_returns ran
    cases same
    exact ⟨placed.writeBytes pointers written, rfl⟩
  | cons _ rest ih =>
    rw [length_cons] at pointers
    rw [stringBytes_cons] at strings ⊢
    obtain ⟨one, first, ran⟩ := bind_returns ran
    obtain ⟨two, second, ran⟩ := bind_returns ran
    obtain ⟨_, nextString, pointer, bytes⟩ := string_user pointers strings
    obtain ⟨more, between, evolved⟩ := placed.writeBytes pointer first
    obtain ⟨most, after, further⟩ := between.writeBytes bytes second
    obtain ⟨⟨all, done, rest⟩, same⟩ := ih after (by omega) (by omega) ran
    exact ⟨⟨all, done, evolved.trans (further.trans rest)⟩, by omega⟩

theorem buildStrtab_onward
    (user : strtabEnd start tab ≤ virtualBase) (ran : buildStrtab current.cr3 start tab s = .ok (s', last)) :
    Onward kind dir current s s' ∧ last = strtabEnd start tab := by
  rw [strtabEnd] at user ⊢
  rw [buildStrtab, strtab_small user] at ran
  exact writeStrtab_onward placed (by omega) user ran

/-- A task with another directory, after something has been done for it. -/
def Moved (kind : Nat → Option Kind) (s s' : Store) (next : ArchThreadData) : Prop :=
  ∃ more new, Placed more new next s' ∧ Evolved kind s more s'

theorem bootstrap_moved {ehdr : Elf32Ehdr} {argv envp : List (List UInt8)} {next : ArchThreadData} {result : Loaded} (user : strtabEnd (strtabEnd uargsAddrStart argv) envp ≤ virtualBase)
    (ran : bootstrap current ehdr argv envp s = .ok (s', next, result)) : Moved kind s s' next := by
  rw [bootstrap] at ran
  obtain ⟨one, stack, ran⟩ := bind_returns ran
  obtain ⟨two, args, ran⟩ := bind_returns ran
  obtain ⟨⟨three, uenvp⟩, first, ran⟩ := bind_returns ran
  obtain ⟨⟨four, last⟩, second, same⟩ := bind_returns ran
  cases same
  obtain ⟨more, placed, evolved⟩ := (designateSpace_onward placed (by decide) (by decide) stack).next
    fun more between _ => designateSpace_onward between (by decide) (by decide) args
  have inside : strtabEnd uargsAddrStart argv ≤ virtualBase := by
    rw [strtabEnd] at user
    omega
  obtain ⟨⟨most, placed, further⟩, rfl⟩ := buildStrtab_onward placed inside first
  obtain ⟨⟨all, placed, rest⟩, _⟩ := buildStrtab_onward placed user second
  exact ⟨all, dir, placed, evolved.trans (further.trans rest)⟩

end

def phdrsOf (ops : FileOps φ) (file : φ) : List Elf32Phdr :=
  match readEhdr ops file with
  | (_, .error _) => []
  | (file, .ok ehdr) =>
      match (readPhdrs ops ehdr file).2 with
      | .error _ => []
      | .ok phdrs => phdrs

def SegmentsInUserSpace (ops : FileOps φ) (file : φ) : Prop :=
  ∀ phdr ∈ phdrsOf ops file, phdr.pType = ptLoad → phdr.InUserSpace

instance (ops : FileOps φ) (file : φ) : Decidable (SegmentsInUserSpace ops file) :=
  inferInstanceAs (Decidable (∀ phdr ∈ phdrsOf ops file, phdr.pType = ptLoad → phdr.InUserSpace))

variable {file : φ} {argv envp : List (List UInt8)} {olddir new : Nat} {next : ArchThreadData} {result : Loaded}

variable (placed : Placed kind dir current s)
include placed

theorem giveUp_moved {errno : Int} (directory : kind new = some .directory)
    (old : olddir = (s.frames.pages new).addr) (ran : giveUp olddir errno s = .ok (s', next, result)) :
    Moved kind s s' next := by
  obtain ⟨⟨after, task⟩, replaced, same⟩ := map_returns ran
  cases same
  obtain ⟨rfl, back⟩ := placed.restore directory old replaced
  exact ⟨kind, new, back, Evolved.refl kind _⟩

theorem loadInto_moved (directory : kind new = some .directory)
    (old : olddir = (s.frames.pages new).addr) (segments : SegmentsInUserSpace ops file)
    (user : strtabEnd (strtabEnd uargsAddrStart argv) envp ≤ virtualBase)
    (ran : loadInto ops file argv envp olddir current s = .ok (s', next, result)) : Moved kind s s' next := by
  have kept : ∀ {more : Nat → Option Kind} {later : Store}, Evolved kind s more later →
      more new = some .directory ∧ olddir = (later.frames.pages new).addr := by
    intro more later evolved
    refine ⟨evolved.old new _ directory, old.trans ?_⟩
    exact (evolved.addr placed.typed directory).symm
  have abandon : ∀ {more : Nat → Option Kind} {later : Store} {errno : Int}, Placed more dir current later →
      Evolved kind s more later → giveUp olddir errno later = .ok (s', next, result) → Moved kind s s' next := by
    intro more later errno between evolved ran
    obtain ⟨most, dir', back, further⟩ := giveUp_moved between (kept evolved).1 (kept evolved).2 ran
    exact ⟨most, dir', back, evolved.trans further⟩
  obtain ⟨⟨one, _⟩, first, ran⟩ := bind_returns ran
  obtain ⟨more, between, evolved⟩ := placed.kmalloc first
  rw [SegmentsInUserSpace, phdrsOf] at segments
  dsimp only at ran
  split at ran
  · exact abandon between evolved ran
  next file' ehdr header =>
    rw [header] at segments
    dsimp only at segments
    obtain ⟨⟨two, _⟩, second, ran⟩ := bind_returns ran
    obtain ⟨most, between, further⟩ := between.kmalloc second
    have evolved := evolved.trans further
    split at ran
    · exact abandon between evolved ran
    next file'' phdrs table =>
      rw [table] at segments
      obtain ⟨l, loaded, ran⟩ := bind_returns ran
      obtain ⟨all, between, further⟩ := loadPhdrs_onward between segments loaded
      have evolved := evolved.trans further
      split at ran
      · exact abandon between evolved ran
      · obtain ⟨last, dir', done, rest⟩ := bootstrap_moved between user ran
        exact ⟨last, dir', done, evolved.trans rest⟩

theorem loadElf_moved (segments : SegmentsInUserSpace ops file)
    (user : strtabEnd (strtabEnd uargsAddrStart argv) envp ≤ virtualBase)
    (ran : loadElf ops file argv envp current s = .ok (s', next, result)) : Moved kind s s' next := by
  obtain ⟨⟨one, task⟩, replaced, ran⟩ := bind_returns ran
  obtain ⟨more, new, between, evolved⟩ := placed.toArranged.replace replaced
  have kept : current.dir = (one.frames.pages dir).addr := placed.addr.trans
    (evolved.addr placed.typed placed.directory).symm
  obtain ⟨most, dir', done, further⟩ :=
    loadInto_moved between (evolved.old dir _ placed.directory) kept segments user ran
  exact ⟨most, dir', done, evolved.trans further⟩

end Loading

end KOs.Fs

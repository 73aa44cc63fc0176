import KOs.Arch.Visible
import KOs.Fs.Loading

namespace KOs.Fs

open KOs.Arch KOs.Arch.Paging KOs.Common KOs.Data KOs.Mm List Set

/-- A read that reports all the bytes has brought them. -/
def WholeReads {φ : Type} (ops : FileOps φ) : Prop :=
  ∀ bytes file, (ops.read bytes file).2.1 = bytes → bytes ≤ (ops.read bytes file).2.2.length

def Elf32Phdr.addresses (phdr : Elf32Phdr) : Set Nat := Set.Ico phdr.pVaddr (phdr.pVaddr + phdr.pMemsz)

def loadedAddresses (phdrs : List Elf32Phdr) : Set Nat :=
  {v | ∃ phdr ∈ phdrs, phdr.pType = ptLoad ∧ v ∈ phdr.addresses}

def touchedPages (phdrs : List Elf32Phdr) : Set Nat := (fun v => v / pageSize) '' loadedAddresses phdrs

def SegmentsFillPages (phdrs : List Elf32Phdr) : Prop :=
  ∀ page ∈ touchedPages phdrs, ∀ off, off < pageSize → page * pageSize + off ∈ loadedAddresses phdrs

variable {tab : List (List UInt8)} {phdr : Elf32Phdr}

section Loading

variable {φ : Type} {ops : FileOps φ} {free : Set Nat} {left right : Nat → Nat → BitVec 32} {kind : Nat → Option Kind}
  {dir : Nat} {current : ArchThreadData} {written touched : Set Nat} {s t : Store}

theorem vfsRead_whole (whole : WholeReads ops) {bytes : Nat} {file : φ} (pos : 0 < bytes)
    (count : (vfsRead ops bytes file).2.1 = bytes) : (vfsRead ops bytes file).2.2.length = bytes := by
  rw [vfsRead] at count ⊢
  split
  next directory =>
    rw [if_pos directory] at count
    dsimp only [eisdir] at count
    omega
  next regular =>
    rw [if_neg regular] at count
    exact length_take_of_le (whole _ file count)

theorem ensurePage_twin (twin : Twin free left right kind dir current written touched s t) (zero : 0 ∉ free) {addr : Nat}
    (user : addr < virtualBase) (here : addr / pageSize ∈ touched) :
    Coupled (Together free left right kind dir current written touched s t) (ensurePage current addr s)
      (ensurePage current addr t) := by
  obtain ⟨page, found, again, missing⟩ := twin.userGetPage_same zero user
  rw [ensurePage, ensurePage, found, again, ok_bind, ok_bind]
  cases page with
  | some => exact .returned twin.refl
  | none =>
    have fresh : ∀ v ∈ written, v / pageSize ≠ addr / pageSize := by
      intro v mem same
      refine missing rfl v mem ?_ same
      simp only [virtualBase, pageSize] at *
      omega
    refine (twin.userAllocPage zero user 0 fresh).map ?_
    rintro a b ⟨_, more, last, evolved, bytes⟩
    rw [insert_eq_of_mem here] at last
    exact ⟨more, last, evolved, bytes⟩

structure ChunksTogether (free : Set Nat) (left right : Nat → Nat → BitVec 32) (kind : Nat → Option Kind) (dir : Nat)
    (current : ArchThreadData) (written touched : Set Nat) (phdr : Elf32Phdr) (s t : Store) (l m : Chunks φ) : Prop where
  file : m.file = l.file
  failed : m.failed = l.failed
  bytesWritten : m.bytesWritten = l.bytesWritten
  stores : Together free left right kind dir current
    (written ∪ Set.Ico phdr.pVaddr (phdr.pVaddr + l.bytesWritten)) touched s t l.store m.store

section

variable (whole : WholeReads ops) (zero : 0 ∉ free)
include whole zero

theorem loadChunk_twin (user : phdr.pVaddr + phdr.pMemsz ≤ virtualBase)
    (pages : ∀ v ∈ phdr.addresses, v / pageSize ∈ touched) {l m : Chunks φ}
    (together : ChunksTogether free left right kind dir current written touched phdr s t l m)
    (going : l.bytesWritten < phdr.pMemsz) :
    Coupled (ChunksTogether free left right kind dir current written touched phdr s t)
      (loadChunk ops current phdr l) (loadChunk ops current phdr m) := by
  obtain ⟨more, twin, evolved, kept⟩ := together.stores
  obtain ⟨low, small, page⟩ := chunk_user user going
  have here := pages (phdr.pVaddr + l.bytesWritten) ⟨by omega, by omega⟩
  rw [loadChunk, loadChunk, together.bytesWritten, small]
  refine (ensurePage_twin twin zero low here).bind fun a b ensured => ?_
  have stores : ∀ {bytes : List UInt8}, bytes.length ≤ pageSize - (phdr.pVaddr + l.bytesWritten) % pageSize →
      Coupled (Together free left right kind dir current
          (written ∪ Set.Ico phdr.pVaddr (phdr.pVaddr + (l.bytesWritten + bytes.length))) touched s t)
        (writeBytes current.cr3 (phdr.pVaddr + l.bytesWritten) bytes a)
        (writeBytes current.cr3 (phdr.pVaddr + l.bytesWritten) bytes b) := by
    intro bytes short
    obtain ⟨most, between, further, onward⟩ := ensured
    refine (between.writeBytes _ (by omega)).mono (fun a' b' wrote =>
      .after evolved kept (.after further onward (wrote.mono ?_ subset_rfl)))
    rintro v (earlier | ⟨above, high⟩)
    · exact .inl (.inl earlier)
    · by_cases old : v < phdr.pVaddr + l.bytesWritten
      · exact .inl (.inr ⟨above, old⟩)
      · exact .inr ⟨by omega, by omega⟩
  rw [together.file]
  dsimp only
  split
  next more =>
    generalize length : min _ (phdr.pFilesz - l.bytesWritten) = chunk
    have fits : chunk ≤ pageSize - (phdr.pVaddr + l.bytesWritten) % pageSize := length ▸ min_le_left ..
    refine (stores ((vfsRead_length _ l.file).trans fits)).bind fun a' b' wrote => ?_
    have step : (l.bytesWritten + chunk) % 2 ^ 32 = l.bytesWritten + chunk := by
      simp only [virtualBase] at page
      omega
    split
    · exact .returned ⟨rfl, rfl, rfl, wrote.mono (union_subset_union_right _
        (Set.Ico_subset_Ico_right (by dsimp only; omega))) subset_rfl⟩
    next count =>
      have some : 0 < pageSize - (phdr.pVaddr + l.bytesWritten) % pageSize :=
        Nat.sub_pos_of_lt (Nat.mod_lt _ (by decide))
      rw [vfsRead_whole whole (by omega) (not_not.mp count)] at wrote
      rw [step]
      exact .returned ⟨rfl, together.failed, rfl, wrote⟩
  · generalize length : min _ (phdr.pMemsz - l.bytesWritten) = chunk
    have fits : chunk ≤ pageSize - (phdr.pVaddr + l.bytesWritten) % pageSize := length ▸ min_le_left ..
    have step : (l.bytesWritten + chunk) % 2 ^ 32 = l.bytesWritten + chunk := by
      simp only [virtualBase] at page
      omega
    refine (stores (by rw [length_replicate]; exact fits)).bind fun a' b' wrote => ?_
    rw [length_replicate] at wrote
    rw [step]
    exact .returned ⟨rfl, together.failed, rfl, wrote⟩

structure SegmentsTogether (free : Set Nat) (left right : Nat → Nat → BitVec 32) (kind : Nat → Option Kind) (dir : Nat)
    (current : ArchThreadData) (written touched : Set Nat) (s t : Store) (l m : Segments φ) : Prop where
  file : m.file = l.file
  failed : m.failed = l.failed
  stores : Together free left right kind dir current (if l.failed then ∅ else written) touched s t l.store m.store

variable {l m : Segments φ}

theorem loadSegment_twin (user : phdr.InUserSpace)
    (pages : ∀ v ∈ phdr.addresses, v / pageSize ∈ touched) (file : m.file = l.file)
    (failed : m.failed = l.failed) (twin : Twin free left right kind dir current written touched l.store m.store) :
    Coupled (SegmentsTogether free left right kind dir current (written ∪ phdr.addresses) touched l.store m.store)
      (loadSegment ops current phdr l) (loadSegment ops current phdr m) := by
  rw [loadSegment, loadSegment, file]
  dsimp only
  split
  · exact .returned ⟨rfl, rfl, twin.refl.mono (empty_subset _) subset_rfl⟩
  · have initial : ChunksTogether free left right kind dir current written touched phdr l.store m.store
        { l with file := (vfsSeek ops phdr.pOffset l.file).1, bytesWritten := 0 }
        { m with file := (vfsSeek ops phdr.pOffset l.file).1, bytesWritten := 0 } := by
      refine ⟨rfl, failed, rfl, twin.refl.mono ?_ subset_rfl⟩
      rw [add_zero, Set.Ico_self, union_empty]
    refine (Coupled.whileLoop (ChunksTogether free left _ kind dir _ _ _ phdr l.store m.store)
      (phdr.pMemsz + 2) initial ?_ ?_).map ?_
    · intro l m together
      rw [together.failed, together.bytesWritten]
    · intro l m together going
      rw [Bool.and_eq_true, decide_eq_true_iff] at going
      have some : phdr.pMemsz ≠ 0 := by omega
      exact loadChunk_twin whole zero (user.resolve_left some) pages together going.2
    · rintro l' m' ⟨together, left⟩
      refine ⟨together.file, together.failed, together.stores.mono ?_ subset_rfl⟩
      split
      · exact empty_subset _
      next fine =>
        rw [Bool.and_eq_false_iff, Bool.not_eq_false', decide_eq_false_iff_not] at left
        have done := left.resolve_left fine
        exact union_subset_union_right _ (Set.Ico_subset_Ico_right (by omega))

theorem loadPhdr_twin (user : phdr.pType = ptLoad → phdr.InUserSpace)
    (pages : phdr.pType = ptLoad → ∀ v ∈ phdr.addresses, v / pageSize ∈ touched)
    (file : m.file = l.file) (failed : m.failed = l.failed)
    (twin : Twin free left right kind dir current written touched l.store m.store) :
    Coupled (SegmentsTogether free left right kind dir current
        (written ∪ loadedAddresses [phdr]) touched l.store m.store)
      (loadPhdr ops current phdr l) (loadPhdr ops current phdr m) := by
  rw [loadPhdr, loadPhdr]
  split
  next null =>
    refine .returned ⟨file, failed, twin.refl.mono ?_ subset_rfl⟩
    split
    · exact empty_subset _
    · rintro v (earlier | ⟨other, mem, load, _⟩)
      · exact earlier
      · rw [mem_singleton.mp mem, null] at load
        contradiction
  · split
    next load =>
      refine (loadSegment_twin whole zero (user load) (pages load) file failed twin).mono fun l' m' together => ?_
      refine ⟨together.file, together.failed, together.stores.mono ?_ subset_rfl⟩
      split
      · exact empty_subset _
      · rintro v (earlier | ⟨other, mem, _, inside⟩)
        · exact .inl earlier
        · rw [mem_singleton.mp mem] at inside
          exact .inr inside
    · split
      · exact .stopped _
      · exact .stopped _

theorem loadPhdrs_twin {phdrs : List Elf32Phdr} (user : ∀ phdr ∈ phdrs, phdr.pType = ptLoad → phdr.InUserSpace)
    (pages : ∀ v ∈ loadedAddresses phdrs, v / pageSize ∈ touched) (file : m.file = l.file)
    (fine : l.failed = false) (failed : m.failed = l.failed)
    (twin : Twin free left right kind dir current written touched l.store m.store) :
    Coupled (SegmentsTogether free left right kind dir current (written ∪ loadedAddresses phdrs) touched l.store m.store)
      (loadPhdrs ops current phdrs l) (loadPhdrs ops current phdrs m) := by
  induction phdrs generalizing kind written l m with
  | nil =>
    refine .returned ⟨file, failed, twin.refl.mono ?_ subset_rfl⟩
    rw [fine, if_neg Bool.false_ne_true]
    rintro v (earlier | ⟨_, none, _⟩)
    · exact earlier
    · contradiction
  | cons phdr _ ih =>
    refine (loadPhdr_twin whole zero (user phdr mem_cons_self) (fun load v inside =>
      pages v ⟨phdr, mem_cons_self, load, inside⟩) file failed twin).bind fun l' m' together => ?_
    obtain ⟨more, between, evolved, bytes⟩ := together.stores
    rw [together.failed]
    cases stopped : l'.failed with
    | true =>
      refine .returned ⟨together.file, together.failed, together.stores.mono ?_ subset_rfl⟩
      rw [stopped]
      exact empty_subset _
    | false =>
      rw [stopped] at between
      refine (ih (fun phdr mem => user phdr (mem_cons_of_mem _ mem)) ?_ together.file stopped
        together.failed between).mono ?_
      · rintro v ⟨other, mem, here⟩
        exact pages v ⟨other, mem_cons_of_mem _ mem, here⟩
      · intro a b last
        refine ⟨last.file, last.failed, .after evolved bytes (last.stores.mono ?_ subset_rfl)⟩
        split
        · exact empty_subset _
        · rintro v (earlier | ⟨other, mem, load, inside⟩)
          · exact .inl (.inl earlier)
          · rcases mem_cons.mp mem with rfl | later
            · exact .inl (.inr ⟨other, mem_singleton.mpr rfl, load, inside⟩)
            · exact .inr ⟨other, later, load, inside⟩

end

section

variable (twin : Twin free left right kind dir current written touched s t)
include twin
variable {start : Nat}

theorem designateSpace_twin (zero : 0 ∉ free) {numPages : Nat} (aligned : start % pageSize = 0) (pos : numPages ≠ 0)
    (user : start + numPages * pageSize ≤ virtualBase) :
    Coupled (Together free left right kind dir current (written ∪ Set.Ico start (start + numPages * pageSize))
        (touched ∪ Set.Ico (start / pageSize) (start / pageSize + numPages)) s t)
      (designateSpace current start numPages s) (designateSpace current start numPages t) := by
  have low : start < virtualBase := by
    simp only [pageSize] at user
    omega
  obtain ⟨phys, found, again⟩ := twin.resolveVirt_same low
  rw [designateSpace, designateSpace, found, again, ok_bind, ok_bind]
  split
  · exact .stopped _
  · refine (twin.allocate pos _).bind ?_
    rintro ⟨a, page⟩ ⟨b, _⟩ ⟨⟨⟩, more, between, evolved, bytes, pages⟩
    refine (between.userMapPages zero aligned user fun q mem => ?_).mono ?_
    · obtain ⟨here, own, cleared⟩ := pages q mem
      exact ⟨here, own, cleared (by decide)⟩
    · exact fun a' b' second => .after evolved bytes second

theorem writeStrtab_twin {fin : Nat}
    (pointers : start + 4 * (tab.length + 1) ≤ virtualBase) (strings : fin + stringBytes tab ≤ virtualBase) :
    Coupled (fun a b => b.2 = a.2 ∧ a.2 = fin + stringBytes tab ∧
        Together free left right kind dir current written touched s t a.1 b.1)
      (writeStrtab current.cr3 start fin tab s) (writeStrtab current.cr3 start fin tab t) := by
  induction tab generalizing kind s t start fin with
  | nil =>
    refine (twin.writeBytes (pointerBytes 0) pointers).map fun a b together => ?_
    exact ⟨rfl, rfl, together.mono subset_union_left subset_rfl⟩
  | cons string _ ih =>
    rw [length_cons] at pointers
    rw [stringBytes_cons] at strings ⊢
    obtain ⟨_, nextString, pointer, place⟩ := string_user pointers strings
    refine (twin.writeBytes (pointerBytes fin) pointer).bind fun a b first => ?_
    obtain ⟨more, between, evolved, bytes⟩ := first.mono subset_union_left subset_rfl
    refine (between.writeBytes (string ++ [0]) place).bind fun a' b' second => ?_
    obtain ⟨most, after, further, onward⟩ := second.mono subset_union_left subset_rfl
    refine (ih after (by omega) (by omega)).mono ?_
    rintro c d ⟨same, last, together⟩
    exact ⟨same, by omega, .after evolved bytes (.after further onward together)⟩

theorem buildStrtab_twin (user : strtabEnd start tab ≤ virtualBase) :
    Coupled (fun a b => b.2 = a.2 ∧ a.2 = strtabEnd start tab ∧
        Together free left right kind dir current written touched s t a.1 b.1)
      (buildStrtab current.cr3 start tab s) (buildStrtab current.cr3 start tab t) := by
  rw [strtabEnd] at user ⊢
  rw [buildStrtab, buildStrtab, strtab_small user]
  exact writeStrtab_twin twin (by omega) user

end

def ownPages : Set Nat := Set.Ico (ustackAddrStart / pageSize) (ustackAddrStart / pageSize + ustackNumPages) ∪
  Set.Ico (uargsAddrStart / pageSize) (uargsAddrStart / pageSize + uargsNumPages)

def ownAddresses : Set Nat := Set.Ico ustackAddrStart (ustackAddrStart + ustackNumPages * pageSize) ∪
  Set.Ico uargsAddrStart (uargsAddrStart + uargsNumPages * pageSize)

theorem bootstrap_twin {ehdr : Elf32Ehdr} {argv envp : List (List UInt8)}
    (twin : Twin free left right kind dir current written touched s t) (zero : 0 ∉ free)
    (user : strtabEnd (strtabEnd uargsAddrStart argv) envp ≤ virtualBase) :
    Coupled (fun a b => b.2 = a.2 ∧ a.2.1 = current ∧
        Together free left right kind dir current (written ∪ ownAddresses) (touched ∪ ownPages) s t a.1 b.1)
      (bootstrap current ehdr argv envp s) (bootstrap current ehdr argv envp t) := by
  have inside : strtabEnd uargsAddrStart argv ≤ virtualBase := by
    rw [strtabEnd] at user
    omega
  refine (designateSpace_twin twin zero (by decide) (by decide) (by decide)).bind fun a b first => ?_
  obtain ⟨more, between, evolved, bytes⟩ := first
  refine (designateSpace_twin between zero (by decide) (by decide) (by decide)).bind fun a b second => ?_
  obtain ⟨most, between, further, onward⟩ := second
  refine (buildStrtab_twin between inside).bind ?_
  rintro ⟨a, _⟩ ⟨b, _⟩ ⟨⟨⟩, rfl, all, between, again, kept⟩
  refine (buildStrtab_twin between user).bind ?_
  rintro ⟨a, last⟩ ⟨b, _⟩ ⟨⟨⟩, _, together⟩
  refine .returned ⟨rfl, rfl, .after evolved bytes (.after further onward (.after again kept ?_))⟩
  rw [ownAddresses, ownPages, ← union_assoc, ← union_assoc]
  exact together

/-- What a load has to meet for nothing of the former contents of frames to be left. -/
structure FillsPages (ops : FileOps φ) (file : φ) (argv envp : List (List UInt8)) : Prop where
  whole : WholeReads ops
  segments : SegmentsInUserSpace ops file
  fill : SegmentsFillPages (phdrsOf ops file)
  arguments : strtabEnd (strtabEnd uargsAddrStart argv) envp ≤ virtualBase

def EndAlike (s : Store) (a b : Store × ArchThreadData × Loaded) : Prop :=
  b.2 = a.2 ∧ freeSet a.1.frames ⊆ freeSet s.frames ∧ ∃ kind dir, Alike kind dir a.2.1 a.1 b.1

variable {file : φ} {argv envp : List (List UInt8)} {kind₀ : Nat → Option Kind} {dir₀ : Nat}
  {current₀ : ArchThreadData} {s₀ t₀ : Store}

variable (alike : Alike kind₀ dir₀ current₀ s₀ t₀)
include alike

theorem giveUp_twin (evolved : Evolved kind₀ s₀ kind s)
    (twin : Twin (freeSet s₀.frames) s₀.words t₀.words kind dir current written touched s t) (errno : Int) :
    Coupled (EndAlike s₀) (giveUp current₀.dir errno s) (giveUp current₀.dir errno t) := by
  have directory := evolved.old dir₀ _ alike.directory
  have backed := twin.typed.held directory
  have room := twin.typed.sound.room
  have addr : current₀.dir = (s.frames.pages dir₀).addr := alike.addr.trans (evolved.addr alike.typed alike.directory).symm
  have task : current₀ = { cr3 := pageToPhys dir₀, dir := (s.frames.pages dir₀).addr } := by rw [← alike.cr3, ← addr]
  have back : archReplaceMem current₀.dir s = .ok (s, current₀) := by rw [archReplaceMem_back room backed addr, ← task]
  have frames : t.frames = s.frames := by rw [Store.frames, twin.kernel, Store.frames]
  have again : archReplaceMem current₀.dir t = .ok (t, current₀) := by
    rw [archReplaceMem_back (by rw [Store.kmap, twin.kernel]; exact room) (by rw [twin.kernel]; exact backed)
      (by rw [frames]; exact addr), frames, ← task]
  have placed : Placed kind dir₀ current₀ s := ⟨twin.toArranged, directory, addr, alike.cr3⟩
  rw [giveUp, giveUp, back, again]
  exact .returned ⟨rfl, evolved.memory.free, kind, dir₀, alike.kept placed twin.kernel twin.kptab twin.kept⟩

omit alike in
theorem own_covered : ∀ page ∈ ownPages, ∀ off < pageSize, page * pageSize + off ∈ ownAddresses := by
  rintro page (⟨low, high⟩ | ⟨low, high⟩) off small
  · refine .inl ⟨?_, ?_⟩
    all_goals
      simp only [ustackAddrStart, ustackNumPages, pageSize] at *
      omega
  · refine .inr ⟨?_, ?_⟩
    all_goals
      simp only [uargsAddrStart, uargsNumPages, pageSize] at *
      omega

theorem loadInto_twin (zero : 0 ∉ freeSet s₀.frames) (evolved : Evolved kind₀ s₀ kind s)
    (twin : Twin (freeSet s₀.frames) s₀.words t₀.words kind dir current ∅ ∅ s t)
    (fills : FillsPages ops file argv envp) :
    Coupled (EndAlike s₀) (loadInto ops file argv envp current₀.dir current s)
      (loadInto ops file argv envp current₀.dir current t) := by
  refine (twin.kmalloc _).bind ?_
  rintro ⟨a, _⟩ ⟨b, _⟩ ⟨_, more, twin, further, _⟩
  have evolved := evolved.trans further
  have segments := fills.segments
  have fill := fills.fill
  rw [SegmentsInUserSpace, phdrsOf] at segments
  rw [phdrsOf] at fill
  dsimp only
  split
  · exact giveUp_twin alike evolved twin _
  next file' ehdr header =>
    rw [header] at segments fill
    dsimp only at segments fill
    refine (twin.kmalloc _).bind ?_
    rintro ⟨a, _⟩ ⟨b, _⟩ ⟨_, most, twin, further, _⟩
    have evolved := evolved.trans further
    split
    · exact giveUp_twin alike evolved twin _
    next file'' phdrs table =>
      rw [table] at segments fill
      have twin := twin.mono (fun _ mem => mem) (empty_subset (touchedPages phdrs))
      have pages : ∀ v ∈ loadedAddresses phdrs, v / pageSize ∈ touchedPages phdrs :=
        fun v mem => mem_image_of_mem _ mem
      refine (loadPhdrs_twin (l := ⟨a, file'', false⟩) (m := ⟨b, file'', false⟩) fills.whole zero segments pages
        rfl rfl rfl twin).bind fun l m together => ?_
      obtain ⟨all, twin, further, _⟩ := together.stores
      have evolved := evolved.trans further
      rw [together.failed]
      cases stopped : l.failed with
      | true => exact giveUp_twin alike evolved twin _
      | false =>
        rw [stopped, empty_union] at twin
        refine (bootstrap_twin twin zero fills.arguments).mono ?_
        rintro c d ⟨same, at_current, last, done, rest, _⟩
        refine ⟨same, (evolved.trans rest).memory.free, last, dir, ?_⟩
        rw [at_current]
        refine done.alike ?_
        rintro page (segment | own) _ off small
        · exact .inl (fill page segment off small)
        · exact .inr (own_covered page own off small)

theorem loadElf_twin (zero : 0 ∉ freeSet s₀.frames) (fills : FillsPages ops file argv envp) :
    Coupled (EndAlike s₀) (loadElf ops file argv envp current₀ s₀) (loadElf ops file argv envp current₀ t₀) := by
  refine (alike.toArranged.replace_twin alike.kernel alike.kptab).bind ?_
  rintro ⟨a, next⟩ ⟨b, _⟩ ⟨⟨⟩, more, new, twin, evolved⟩
  exact loadInto_twin alike zero evolved twin fills

end Loading

end KOs.Fs

import KOs.Fs.Residue
import KOs.Sched.Userland

namespace KOs.Sched

open KOs.Arch KOs.Arch.Paging KOs.Common KOs.Data KOs.Fs KOs.Mm Option

variable {φ : Type}

def serve (requests : List (UserRequest φ)) (s : Userland) : Except Fault Userland :=
  requests.foldlM (fun s request => serving.perform request s) s

/-- All that differs is the contents of free frames. -/
structure Userland.SameButFree (u v : Userland) : Prop where
  current : v.current = u.current
  kernel : v.store.kernel = u.store.kernel
  kptab : v.store.kptabPhys = u.store.kptabPhys
  words : ∀ q, q ∉ freeSet u.store.frames → v.store.words q = u.store.words q

def Userland.SameView (u v : Userland) : Prop :=
  v.current = u.current ∧ ∀ virt, userByte v.current.cr3 virt v.store = userByte u.current.cr3 virt u.store

def UserRequest.FillsPages : UserRequest φ → Prop
  | .allocPage _ => False
  | .execve ops file argv envp => Fs.FillsPages ops file argv envp

variable {u : Userland}

section Runs

variable {kind : Nat → Option Kind} {dir : Nat}

theorem serving_alike {request : UserRequest φ} {v : Userland} (alike : Alike kind dir u.current u.store v.store)
    (current : v.current = u.current) (zero : 0 ∉ freeSet u.store.frames) (fills : request.FillsPages) :
    Coupled (fun a b => b.current = a.current ∧ freeSet a.store.frames ⊆ freeSet u.store.frames ∧
        ∃ kind dir, Alike kind dir a.current a.store b.store)
      (serving.perform request u) (serving.perform request v) := by
  cases request with
  | allocPage => exact fills.elim
  | execve =>
    rw [serving]
    dsimp only
    rw [current]
    refine (loadElf_twin alike zero fills).map ?_
    rintro ⟨a, task, result⟩ ⟨b, _⟩ ⟨⟨⟩, fewer, more, new, alike⟩
    exact ⟨rfl, fewer, more, new, alike⟩

/-- Loads whose segments fill their pages show nothing of what the frames held before. -/
theorem loads_hide_former_contents {u v : Userland} (placed : Placed kind dir u.current u.store) (same : u.SameButFree v)
    (zero : 0 ∉ freeSet u.store.frames) (requests : List (UserRequest φ)) (fills : ∀ request ∈ requests, request.FillsPages) :
    Coupled Userland.SameView (serve requests u) (serve requests v) := by
  refine (Coupled.foldlM (fun a b : Userland => b.current = a.current ∧
    freeSet a.store.frames ⊆ freeSet u.store.frames ∧ ∃ kind dir, Alike kind dir a.current a.store b.store) ?_ ?_).mono ?_
  · exact ⟨same.current, fun _ free => free, kind, dir, placed.alike same.kernel same.kptab same.words⟩
  · rintro request mem a b ⟨current, fewer, more, new, alike⟩
    refine (serving_alike alike current (fun free => zero (fewer free)) (fills request mem)).mono ?_
    rintro a' b' ⟨task, less, rest⟩
    exact ⟨task, less.trans fewer, rest⟩
  · rintro a b ⟨current, _, more, new, alike⟩
    refine ⟨current, fun virt => ?_⟩
    rw [current]
    exact alike.userByte virt

end Runs

def Userland.withFrame (p : Nat) (word : BitVec 32) (u : Userland) : Userland where
  current := u.current
  store := { u.store with words := fun q i => if q = p then word else u.store.words q i }

theorem Userland.withFrame_same {p : Nat} (word : BitVec 32) (free : p < pageCount ∧ (u.store.frames.pages p).flags = 0)
    : u.SameButFree (u.withFrame p word) := by
  refine ⟨rfl, rfl, rfl, fun q taken => ?_⟩
  funext i
  refine if_neg ?_
  rintro rfl
  exact taken free

/-- A task of a kernel in which the frames of the list are free. -/
def newTask (list : List Nat) : Option (Store × Userland) :=
  (kernelStore list).bind (fun first => (replaced first).map (fun made => (first, ⟨made.1, made.2⟩)))

theorem newTask_exists {p : Userland → Prop} (list : List Nat)
    (outcome : ∃ made ∈ newTask list, keepsKptab made.1 = true ∧ p made.2) :
    ∃ kind dir, ∃ u : Userland, Placed kind dir u.current u.store ∧ p u := by
  obtain ⟨⟨first, u⟩, made, kept, holds⟩ := outcome
  obtain ⟨_, boot, rest⟩ := bind_eq_some_iff.mp made
  obtain ⟨⟨start, task⟩, fresh, same⟩ := map_eq_some_iff.mp rest
  cases same
  obtain ⟨kind, dir, placed⟩ := replaced_placed (kernelStore_sound boot) kept fresh
  exact ⟨kind, dir, _, placed, holds⟩

def elfPage : List UInt8 := elfFile [0, 0x10, 0, 0]

theorem imageOps_whole (image : List UInt8) : WholeReads (imageOps image) := by
  intro bytes file count
  exact Nat.le_of_eq (Int.ofNat_inj.mp count).symm

theorem elfPage_fills : Fs.FillsPages (imageOps elfPage) 0 [] [] := by
  have table : phdrsOf (imageOps elfPage) 0 = [⟨1, 84, 0x8000, 4, 0x1000⟩] := by decide +kernel
  refine ⟨imageOps_whole _, by decide +kernel, ?_, by decide⟩
  rw [table]
  rintro _ ⟨v, ⟨phdr, mem, _, low, high⟩, rfl⟩ off small
  obtain rfl := List.mem_singleton.mp mem
  refine ⟨_, List.mem_singleton.mpr rfl, rfl, ?_, ?_⟩
  all_goals
    simp only [pageSize] at *
    omega

def loadTask (image : List UInt8) (u : Userland) : Option Userland :=
  (replaced u.store).bind (fun fresh =>
    (loadInto (imageOps image) 0 [] [] u.current.dir fresh.2 fresh.1).toOption.map (fun loaded =>
      ⟨loaded.1, loaded.2.1⟩))

theorem loadTask_serve {image : List UInt8} {a : Userland} {held : Set Nat} (sound : Paging.Sound u.store.kernel.memory held)
    (ran : loadTask image u = some a) : serve [.execve (imageOps image) 0 [] []] u = .ok a := by
  obtain ⟨⟨fresh, task⟩, replaced, rest⟩ := bind_eq_some_iff.mp ran
  obtain ⟨⟨store, current, result⟩, loaded, rfl⟩ := map_eq_some_iff.mp rest
  have load : loadElf (imageOps image) 0 [] [] u.current u.store = .ok (store, current, result) := by
    rw [loadElf, replaced_eq sound replaced, ok_bind]
    exact toOption_returns loaded
  have performed : serving.perform (.execve (imageOps image) 0 [] []) u = .ok ⟨store, current⟩ := by
    rw [serving]
    dsimp only
    rw [load]
    rfl
  rw [serve, List.foldlM_cons, performed, ok_bind]
  rfl

/-- What user mode reads at an address that leads from the directory in `d` over the table in `t` to `f`. -/
def viewThrough (d t f virt : Nat) (a : Userland) : Option (BitVec 8) :=
  if a.current.cr3 / pageSize = d ∧ userCan (readFrame d (addrToDiridx virt) a.store) = true ∧
      frameOf (readFrame d (addrToDiridx virt) a.store) = t ∧ userCan (readFrame t (addrToTabidx virt) a.store) = true ∧
      frameOf (readFrame t (addrToTabidx virt) a.store) = f then
    some (byteOf (virt % 4) (readFrame f (getPageoff virt / 4) a.store))
  else none

theorem viewThrough_some {d t f virt : Nat} {a : Userland} {byte : BitVec 8} (found : viewThrough d t f virt a = some byte) :
    userByte a.current.cr3 virt a.store = some byte := by
  rw [viewThrough] at found
  split at found
  next path =>
    obtain ⟨rfl, first, rfl, second, rfl⟩ := path
    rw [userByte, first, second]
    exact found
  · contradiction

def pagePhdr : Elf32Phdr := ⟨1, 84, 0x8000, 4, 0x1000⟩

/-- The frame behind an address holds a zero there. -/
def clearAt (cr3 frame : Nat) (s : Store) (virt : Nat) : Bool :=
  decide ((translate cr3 virt s).toOption = some frame ∧ kptabTable frame s = none ∧
    s.words frame (getPageoff virt / 4) = 0)

theorem writeBytes_clear {cr3 frame virt count : Nat} {s : Store} (small : virt + count < 2 ^ 32)
    (clear : ∀ k < count, clearAt cr3 frame s (virt + k) = true) :
    writeBytes cr3 virt (List.replicate count 0) s = .ok s := by
  induction count generalizing virt with
  | zero => rfl
  | succ count ih =>
    obtain ⟨found, none, word⟩ := of_decide_eq_true (clear 0 (by omega))
    rw [Nat.add_zero] at found word
    have same : writeByte cr3 virt 0 s = .ok s := by
      rw [writeByte, toOption_returns found, Except.map, writeFrame, readFrame, none]
      have unchanged : withByte (virt % 4) 0 (s.words frame (getPageoff virt / 4)) = s.words frame (getPageoff virt / 4) := by
        simp [word, withByte]
      simp [unchanged, putWord]
    rw [List.replicate_succ, writeBytes, same, ok_bind, Nat.mod_eq_of_lt (by omega)]
    refine ih (by omega) fun k below => ?_
    rw [Nat.add_assoc, Nat.add_comm 1]
    exact clear (k + 1) (by omega)

theorem loadChunk_clear {ops : FileOps φ} {current : ArchThreadData} {phdr : Elf32Phdr} {l : Chunks φ}
    {virt frame page count : Nat} (addr : (phdr.pVaddr + l.bytesWritten) % 2 ^ 32 = virt)
    (chunkLen : min (pageSize - virt % pageSize) (phdr.pMemsz - l.bytesWritten) = count)
    (file : phdr.pFilesz ≤ l.bytesWritten) (there : userGetPage current virt l.store = .ok (some page))
    (small : virt + count < 2 ^ 32) (clear : ∀ k < count, clearAt current.cr3 frame l.store (virt + k) = true) :
    loadChunk ops current phdr l = .ok { l with bytesWritten := (l.bytesWritten + count) % 2 ^ 32 } := by
  simp only [loadChunk, addr, ensurePage, there, ok_bind, isNone_some, Bool.false_eq_true, if_false, pure_ok,
    if_neg (Nat.not_lt.mpr file), chunkLen, writeBytes_clear small clear]

/-- The load of the page up to the bytes of the file, and what follows when the rest of it is clear. -/
def loadPage (u : Userland) : Option (ArchThreadData × Chunks Nat × Userland) :=
  (replaced u.store).bind (fun fresh => (kmalloc 52 fresh.1).toOption.bind (fun ehdr =>
    (kmalloc 32 ehdr.1).toOption.bind (fun phdrs =>
      (loadChunk (imageOps elfPage) fresh.2 pagePhdr ⟨⟨phdrs.1, 84, false⟩, 0⟩).toOption.bind (fun l =>
        (bootstrap fresh.2 (.ofBytes (elfPage.take 52)) [] [] l.store).toOption.map (fun loaded =>
          (fresh.2, l, ⟨loaded.1, loaded.2.1⟩))))))

/-- The page is there after its first bytes, and clear behind them. -/
def clearBehind (frame : Nat) (task : ArchThreadData) (l : Chunks Nat) : Bool :=
  decide (l.bytesWritten = 4 ∧ l.failed = false ∧ (userGetPage task 0x8004 l.store).toOption = some (some frame)) &&
    (List.range 4092).all (fun k => clearAt task.cr3 frame l.store (0x8004 + k))

theorem loadPage_loadTask {task : ArchThreadData} {l : Chunks Nat} {a : Userland} {frame : Nat}
    (ran : loadPage u = some (task, l, a)) (clear : clearBehind frame task l = true) : loadTask elfPage u = some a := by
  obtain ⟨facts, clear⟩ := (Bool.and_eq_true _ _).mp clear
  obtain ⟨file, fine, there⟩ := of_decide_eq_true facts
  obtain ⟨⟨fresh, current⟩, replaced, rest⟩ := bind_eq_some_iff.mp ran
  obtain ⟨⟨ehdr, _⟩, first, rest⟩ := bind_eq_some_iff.mp rest
  obtain ⟨⟨phdrs, _⟩, second, rest⟩ := bind_eq_some_iff.mp rest
  obtain ⟨chunk, turned, rest⟩ := bind_eq_some_iff.mp rest
  obtain ⟨⟨store, last, result⟩, finished, same⟩ := map_eq_some_iff.mp rest
  cases same
  have turned : loadChunk (imageOps elfPage) current pagePhdr ⟨⟨phdrs, 84, false⟩, 0⟩ = .ok l := toOption_returns turned
  have filled : loadChunk (imageOps elfPage) current pagePhdr l =
      .ok { l with bytesWritten := (l.bytesWritten + 4092) % 2 ^ 32 } :=
    loadChunk_clear (by rw [file]; decide) (by rw [file]; decide) (by rw [file]; decide) (toOption_returns there) (by decide)
      fun k below => List.all_eq_true.mp clear k (List.mem_range.mpr below)
  have segments : loadPhdrs (imageOps elfPage) current [pagePhdr] ⟨phdrs, 84, false⟩ = .ok l.toSegments := by
    have seek : vfsSeek (imageOps elfPage) pagePhdr.pOffset 84 = (84, pagePhdr.pOffset) := rfl
    rw [loadPhdrs, loadPhdr, if_neg (by decide), if_pos (show pagePhdr.pType = ptLoad from rfl), loadSegment, seek]
    dsimp only
    rw [if_neg (not_not_intro rfl), whileLoop_turns rfl turned, whileLoop_turns (by simp [fine, file, pagePhdr]) filled,
      show pagePhdr.pMemsz = 4095 + 1 from rfl, whileLoop_stops (by simp [file])]
    simp [Except.map, loadPhdrs]
  have loaded : loadInto (imageOps elfPage) 0 [] [] u.current.dir current fresh = .ok (store, last, result) := by
    have header : readEhdr (imageOps elfPage) 0 = (52, .ok (.ofBytes (elfPage.take 52))) := by rfl
    have table : readPhdrs (imageOps elfPage) (.ofBytes (elfPage.take 52)) 52 = (84, .ok [pagePhdr]) := by rfl
    have first : Paging.kmalloc sizeofElf32Ehdr fresh = .ok (ehdr, _) := toOption_returns first
    rw [loadInto, header, first, ok_bind]
    change (Paging.kmalloc 32 ehdr >>= _) = _
    rw [toOption_returns second, ok_bind, table]
    dsimp only
    rw [segments, ok_bind, fine]
    exact toOption_returns finished
  rw [loadTask, replaced, Option.bind_some, loaded]
  rfl

/-- A new task that loads either program. -/
theorem newTask_loads : ∃ kind dir, ∃ u : Userland, Placed kind dir u.current u.store ∧
    ¬ (0 < pageCount ∧ (u.store.frames.pages 0).flags = 0) ∧ (31 < pageCount ∧ (u.store.frames.pages 31).flags = 0) ∧
    (∃ loaded ∈ loadPage u, clearBehind 31 loaded.1 loaded.2.1 = true ∧
      viewThrough 37 29 31 0x8002 loaded.2.2 = some 3 ∧ viewThrough 37 29 31 0x8010 loaded.2.2 = some 0) ∧
    (∃ a ∈ loadTask elfImage u, viewThrough 37 29 31 0x8010 a = some 0) ∧
    ∃ b ∈ loadTask elfImage (u.withFrame 31 0xAAAAAAAA), viewThrough 37 29 31 0x8010 b = some 0xAA :=
  newTask_exists [8, 9, 10, 11, 12, 13, 14, 15, 17, 19, 21, 23, 25, 27, 29, 31, 33, 35, 37, 39, 41] (by decide +kernel)

theorem loads_hide_former_contents_page : ∃ (kind : Nat → Option Kind) (dir : Nat) (u v a b : Userland),
    Placed kind dir u.current u.store ∧ u.SameButFree v ∧ v.store.words 31 0 = 0xAAAAAAAA ∧
      serve [.execve (imageOps elfPage) 0 [] []] u = .ok a ∧ serve [.execve (imageOps elfPage) 0 [] []] v = .ok b ∧
      a.SameView b ∧ userByte b.current.cr3 0x8002 b.store = some 3 ∧ userByte b.current.cr3 0x8010 b.store = some 0 := by
  obtain ⟨kind, dir, u, placed, zero, free, ⟨⟨task, l, a⟩, ran, clear, file, rest⟩, _⟩ := newTask_loads
  have same := Userland.withFrame_same 0xAAAAAAAA free
  have left := loadTask_serve placed.typed.sound (loadPage_loadTask ran clear)
  have coupled := loads_hide_former_contents placed same zero [.execve (imageOps elfPage) 0 [] []]
    fun request mem => List.mem_singleton.mp mem ▸ elfPage_fills
  rw [left] at coupled
  generalize right : serve _ (u.withFrame 31 0xAAAAAAAA) = other at coupled
  cases coupled with
  | returned view =>
    exact ⟨kind, dir, u, _, a, _, placed, same, rfl, left, right, view, (view.2 _).trans (viewThrough_some file),
      (view.2 _).trans (viewThrough_some rest)⟩

/-- After the load of a small program the rest of the page of its segment holds what the frame held before. -/
theorem load_shows_former_contents : ∃ (kind : Nat → Option Kind) (dir : Nat) (u v a b : Userland),
    Placed kind dir u.current u.store ∧ 0 ∉ freeSet u.store.frames ∧ u.SameButFree v ∧
      serve [.execve (imageOps elfImage) 0 [] []] u = .ok a ∧ serve [.execve (imageOps elfImage) 0 [] []] v = .ok b ∧
      userByte a.current.cr3 0x8010 a.store = some 0 ∧ userByte b.current.cr3 0x8010 b.store = some 0xAA := by
  obtain ⟨kind, dir, u, placed, zero, free, _, ⟨a, ran, seen⟩, b, again, other⟩ := newTask_loads
  exact ⟨kind, dir, u, _, a, b, placed, zero, Userland.withFrame_same 0xAAAAAAAA free,
    loadTask_serve placed.typed.sound ran, loadTask_serve placed.typed.sound again, viewThrough_some seen,
    viewThrough_some other⟩

end KOs.Sched

import KOs.Arch.Tables
import KOs.Mm.Heap.Guarantees

namespace KOs.Arch.Paging

open KOs.Common KOs.Data KOs.Mm Function Option

/-! `user_map_page` in use: the directory and the tables of a task are a map from pages to physical
addresses. -/

/-- A task, and what has been mapped for it: the last physical address for each page. -/
structure TaskSpace where
  store : Store
  task : ArchThreadData
  mapped : Nat → Option Nat

structure MapCall where
  virt : Nat
  phys : Nat
deriving DecidableEq, Repr

def FrameAddress (phys : Nat) : Prop := phys % pageSize = 0 ∧ phys ≠ 0 ∧ phys < 2 ^ 32

instance (phys : Nat) : Decidable (FrameAddress phys) :=
  inferInstanceAs (Decidable (phys % pageSize = 0 ∧ phys ≠ 0 ∧ phys < 2 ^ 32))

/-- Calls of `user_map_page` with user addresses and addresses of frames other than 0. -/
def mapping : Machine TaskSpace MapCall Fault where
  enabled call _ := decide (call.virt < virtualBase) && decide (FrameAddress call.phys)
  perform call s := (userMapPage s.task call.virt call.phys s.store).map (fun store =>
    { s with store, mapped := Function.update s.mapped (call.virt / pageSize) (some call.phys) })

structure Fresh (task : ArchThreadData) (s : Store) (dir : Nat) : Prop where
  sound : Sound s.kernel.memory {dir}
  addr : task.dir = (s.frames.pages dir).addr
  empty : ∀ i, i < userTables → points (s.words dir i) = none

structure TaskSpace.Refines (start : Store) (s : TaskSpace) : Prop where
  found : ∀ v, v < virtualBase → userGetPage s.task v s.store = .ok ((s.mapped (v / pageSize)).map physToPage)
  resolved : ∀ v phys, v < virtualBase → s.mapped (v / pageSize) = some phys →
    resolveVirt s.task v s.store = .ok (phys + v % pageSize)
  kernelHalf : ∀ i, userTables ≤ i → i < numEntries →
    load (entryAddr s.task.dir i) s.store = load (entryAddr s.task.dir i) start
  distinct : ∀ i j phys, i < userTables → j < userTables → direntryGetPhys s.task.dir i s.store = .ok phys →
    direntryGetPhys s.task.dir j s.store = .ok phys → phys ≠ 0 → i = j
  zeroed : ∀ v tab, v < virtualBase → s.mapped (v / pageSize) = none → dirLookupTab s.task.dir v s.store = .ok tab →
    tab ≠ 0 → load (entryAddr tab (addrToTabidx v)) s.store = .ok 0
  returns : ∀ call, mapping.enabled call s = true →
    (∃ store, userMapPage s.task call.virt call.phys s.store = .ok store) ∨
      ∃ fault, userMapPage s.task call.virt call.phys s.store = .error fault ∧ Exhausted fault

/-- If a table has to be allocated, the frame 0 is not the one that `alloc_page` takes. -/
def TableFits (s : TaskSpace) (call : MapCall) : Prop :=
  direntryGetPhys s.task.dir (addrToDiridx call.virt) s.store = .ok 0 → nextFrame s.store.frames ≠ some 0

/-- The frames of a directory and of its tables. -/
def spaceFrames (dir : Nat) (words : Nat → Nat → BitVec 32) : Set Nat :=
  {q | q = dir ∨ ∃ i, i < userTables ∧ points (words dir i) = some q}

def pageWord (dir : Nat) (words : Nat → Nat → BitVec 32) (page : Nat) : Option (BitVec 32) :=
  lookupWord points dir words (page / numEntries) (page % numEntries)

/-- What was mapped last for a page, and what its tables hold. -/
inductive PageEntry : Option Nat → Option (BitVec 32) → Prop where
  | missing : PageEntry none none
  | blank : PageEntry none (some 0)
  | mapped {phys : Nat} (legal : FrameAddress phys) : PageEntry (some phys) (some (entryOf phys userFlags))

structure TaskSpace.Tracks (start : Store) (dir : Nat) (s : TaskSpace) : Prop where
  sound : Sound s.store.kernel.memory (spaceFrames dir s.store.words)
  addr : s.task.dir = (s.store.frames.pages dir).addr
  directory : Directory points (· < userTables) dir s.store.words
  entries : ∀ page, page < userTables * numEntries → PageEntry (s.mapped page) (pageWord dir s.store.words page)
  kernelHalf : ∀ i, userTables ≤ i → s.store.words dir i = start.words dir i

variable {s : TaskSpace} {page : Nat}

variable {call : MapCall} {frames : Frames}

theorem mapping_enabled (enabled : mapping.enabled call s = true) :
    call.virt < virtualBase ∧ FrameAddress call.phys := by
  rw [mapping, Bool.and_eq_true, decide_eq_true_iff, decide_eq_true_iff] at enabled
  exact enabled

theorem mapping_returns {s' : TaskSpace} (ran : mapping.perform call s = .ok s') :
    ∃ store, userMapPage s.task call.virt call.phys s.store = .ok store ∧
      s' = { s with store, mapped := update s.mapped (call.virt / pageSize) (some call.phys) } := by
  rw [mapping] at ran
  dsimp only at ran
  obtain ⟨store, mapped, same⟩ := map_returns ran
  exact ⟨store, mapped, same.symm⟩

variable {v : Nat}

theorem page_lt (user : v < virtualBase) : v / pageSize < userTables * numEntries := by
  simp only [virtualBase, pageSize, userTables, numEntries, kernelNumTables] at *
  omega

theorem pageWord_eq {dir : Nat} {words : Nat → Nat → BitVec 32} (user : v < virtualBase) :
    lookupWord points dir words (addrToDiridx v) (addrToTabidx v) = pageWord dir words (v / pageSize) := by
  rw [(addrToDiridx_user user).1, addrToTabidx_eq, pageWord]

theorem page_eq_iff {other : Nat} :
    page / numEntries = other / numEntries ∧ page % numEntries = other % numEntries ↔ page = other := by
  simp only [numEntries]
  omega

structure Updated (dir page : Nat) (word : BitVec 32) (before after : Store) : Prop where
  sound : Sound after.kernel.memory (spaceFrames dir after.words)
  addr : (after.frames.pages dir).addr = (before.frames.pages dir).addr
  directory : Directory points (· < userTables) dir after.words
  here : pageWord dir after.words page = some word
  elsewhere : ∀ other, other < userTables * numEntries → other ≠ page →
    pageWord dir after.words other = pageWord dir before.words other ∨
      pageWord dir before.words other = none ∧ pageWord dir after.words other = some 0
  kernelHalf : ∀ i, userTables ≤ i → after.words dir i = before.words dir i

theorem page_table (inside : page < userTables * numEntries) : page / numEntries < userTables := by
  simp only [userTables, numEntries, kernelNumTables] at *
  omega

variable {dir phys : Nat}

theorem FrameAddress.entry (legal : FrameAddress phys) : frameOf (entryOf phys userFlags) * pageSize = phys := by
  obtain ⟨aligned, _, small⟩ := legal
  rw [frameOf_entryOf small]
  exact Nat.div_mul_cancel (Nat.dvd_of_mod_eq_zero aligned)

section Update

variable {t : Nat} {before : Store}

section

variable (sound : Sound before.kernel.memory (spaceFrames dir before.words))
  (directory : Directory points (· < userTables) dir before.words) (inside : page < userTables * numEntries)
include sound directory inside

theorem updated_present (found : points (before.words dir (page / numEntries)) = some t) (word : BitVec 32) :
    Updated dir page word before { before with words := putWord before.words t (page % numEntries) word } := by
  have first := page_table inside
  have apart := directory.apart _ t first found
  have same : putWord before.words t (page % numEntries) word dir = before.words dir :=
    putWord_elsewhere apart.symm
  have looked : ∀ other < userTables * numEntries,
      pageWord dir (putWord before.words t (page % numEntries) word) other =
        if other = page then some word else pageWord dir before.words other := by
    intro other below
    rw [pageWord, directory.lookup_set first found (page_table below), pageWord]
    simp only [page_eq_iff]
  refine ⟨?_, rfl, directory.set first found, ?_, fun other below ne => ?_, fun i _ => congrFun same i⟩
  · refine sound.mono fun q mem => ?_
    rcases mem with rfl | ⟨i, below, points⟩
    · exact .inl rfl
    · dsimp only at points
      rw [same] at points
      exact .inr ⟨i, below, points⟩
  · rw [looked page inside, if_pos rfl]
  · rw [looked _ below, if_neg ne]
    exact .inl rfl

theorem updated_absent (missing : points (before.words dir (page / numEntries)) = none) {memory : Memory}
    (granted : Granted t 1 before.kernel.memory memory) (nonzero : t ≠ 0) (word : BitVec 32) :
    Updated dir page word before { before with
      kernel.memory := memory
      words := withTable before.words dir t (page / numEntries) (page % numEntries)
        (entryOf (pageToPhys t) userFlags) 0 word } := by
  have table : Backed memory t := granted.backed t (mem_run_one.mpr rfl)
  have names : points (entryOf (pageToPhys t) userFlags) = some t := points_table table.range nonzero
  have new : ∀ q ∈ spaceFrames dir before.words, q ≠ t := by
    rintro q mem rfl
    exact granted.fresh (sound.backed q mem) (mem_run_one.mpr rfl)
  have fresh : t ≠ dir := (new dir (.inl rfl)).symm
  have unused : ∀ k < userTables, points (before.words dir k) ≠ some t :=
    fun k below here => new t (.inr ⟨k, below, here⟩) rfl
  have looked : ∀ other < userTables * numEntries,
      pageWord dir (withTable before.words dir t (page / numEntries) (page % numEntries)
        (entryOf (pageToPhys t) userFlags) 0 word) other =
        if other / numEntries = page / numEntries then
          some (if other % numEntries = page % numEntries then word else 0)
        else pageWord dir before.words other := by
    intro other below
    rw [pageWord, directory.lookup_grow fresh unused names (page_table below), pageWord]
  refine ⟨?_, granted.addr (sound.backed dir (.inl rfl)), directory.grow fresh unused names, ?_,
    fun other below ne => ?_, fun i above => ?_⟩
  · refine (sound.grant granted).mono fun q mem => ?_
    rcases mem with rfl | ⟨i, below, points⟩
    · exact .inl (.inl rfl)
    · dsimp only at points
      rw [Directory.withTable_dir fresh] at points
      split at points
      · rw [names] at points
        exact .inr (mem_run_one.mpr (some.inj points).symm)
      · exact .inl (.inr ⟨i, below, points⟩)
  · rw [looked page inside, if_pos rfl, if_pos rfl]
  · rw [looked _ below]
    split
    next same =>
      have place : ¬ other % numEntries = page % numEntries := fun both => ne (page_eq_iff.mp ⟨same, both⟩)
      refine .inr ⟨?_, by rw [if_neg place]⟩
      rw [pageWord, same, lookupWord, missing, map_none]
    · exact .inl rfl
  · have user := page_table inside
    dsimp only
    rw [Directory.withTable_dir fresh, if_neg (by omega)]

end

end Update

section Runs

variable {start : Store}

namespace TaskSpace.Tracks

section

variable (tracks : s.Tracks start dir) {i j : Nat}
include tracks

theorem reaching (inside : i < userTables) :
    Reaching s.task dir i s.store where
  room := tracks.sound.room
  directory := tracks.sound.backed dir (Or.inl rfl)
  addr := tracks.addr
  inside := userTables_lt inside
  table := fun t found => tracks.sound.backed t (Or.inr ⟨i, inside, found⟩)

theorem reaching_user (user : v < virtualBase) :
    Reaching s.task dir (addrToDiridx v) s.store := by
  obtain ⟨index, inside⟩ := addrToDiridx_user user
  rw [index]
  exact tracks.reaching inside

theorem userGetPage (user : v < virtualBase) :
    Paging.userGetPage s.task v s.store = .ok ((s.mapped (v / pageSize)).map physToPage) := by
  rw [Paging.userGetPage, (tracks.reaching_user user).doUserGetPage (addrToTabidx_lt v), pageWord_eq user, Except.map]
  have entry := tracks.entries _ (page_lt user)
  generalize s.mapped (v / pageSize) = last, pageWord dir s.store.words _ = word at entry ⊢
  cases entry with
  | missing => rfl
  | blank =>
    rw [elim_some, frameOf_zero, Nat.zero_mul]
    rfl
  | mapped legal => rw [elim_some, legal.entry, if_neg legal.2.1, map_some]

theorem resolveVirt (user : v < virtualBase) (mapped : s.mapped (v / pageSize) = some phys) :
    Paging.resolveVirt s.task v s.store = .ok (phys + v % pageSize) := by
  have entry := tracks.entries _ (page_lt user)
  rw [mapped] at entry
  rw [Paging.resolveVirt, (tracks.reaching_user user).dirLookupAddr (addrToTabidx_lt v), pageWord_eq user]
  generalize pageWord dir s.store.words _ = word at entry ⊢
  cases entry with
  | mapped legal => rw [elim_some, legal.entry]

theorem direntryGetPhys (inside : i < numEntries) :
    Paging.direntryGetPhys s.task.dir i s.store = .ok (frameOf (s.store.words dir i) * pageSize) := by
  rw [Paging.direntryGetPhys, tracks.addr,
    entryGetPhys_backed tracks.sound.room (tracks.sound.backed dir (.inl rfl)) inside]

theorem distinct (first : i < userTables) (second : j < userTables)
    (one : Paging.direntryGetPhys s.task.dir i s.store = .ok phys)
    (other : Paging.direntryGetPhys s.task.dir j s.store = .ok phys) (nonzero : phys ≠ 0) : i = j := by
  rw [tracks.direntryGetPhys (userTables_lt first)] at one
  rw [tracks.direntryGetPhys (userTables_lt second)] at other
  have frame := Except.ok.inj one
  have same : frameOf (s.store.words dir j) = frameOf (s.store.words dir i) :=
    Nat.eq_of_mul_eq_mul_right (by decide) ((Except.ok.inj other).trans frame.symm)
  have some : frameOf (s.store.words dir i) ≠ 0 := by
    intro zero
    rw [zero, Nat.zero_mul] at frame
    exact nonzero frame.symm
  exact tracks.directory.distinct i j _ first second (points_some.mpr ⟨rfl, some⟩) (points_some.mpr ⟨same, some⟩)

theorem zeroed {tab : Nat} (user : v < virtualBase) (never : s.mapped (v / pageSize) = none)
    (found : dirLookupTab s.task.dir v s.store = .ok tab) (some : tab ≠ 0) :
    load (entryAddr tab (addrToTabidx v)) s.store = .ok 0 := by
  have entry := tracks.entries _ (page_lt user)
  rw [never, ← pageWord_eq user, lookupWord] at entry
  rw [dirLookupTab] at found
  rcases (tracks.reaching_user user).dirGetTab with ⟨_, null⟩ | ⟨t, here, backed, _, at_tab⟩
  · rw [null] at found
    exact absurd (Except.ok.inj found).symm some
  · rw [at_tab] at found
    rw [here, Option.map_some] at entry
    rw [← Except.ok.inj found, load_backed tracks.sound.room backed (addrToTabidx_lt v)]
    generalize s.store.words t _ = word at entry ⊢
    cases entry
    rfl

theorem doUserMapPage (first : i < userTables) (second : j < numEntries) :
    (∃ store, Paging.doUserMapPage s.task i j phys s.store = .ok store ∧ UserMapped dir i j phys s.store store) ∨
      ∃ fault, Paging.doUserMapPage s.task i j phys s.store = .error fault ∧ Exhausted fault :=
  doUserMapPage_cases tracks.sound (tracks.reaching first) second phys

theorem update (legal : FrameAddress call.phys) {after : Store}
    (updated : Updated dir (call.virt / pageSize) (entryOf call.phys userFlags) s.store after) :
    TaskSpace.Tracks start dir { s with
      store := after
      mapped := update s.mapped (call.virt / pageSize) (some call.phys) } := by
  refine ⟨updated.sound, tracks.addr.trans updated.addr.symm, updated.directory, fun page below => ?_,
    fun i above => ?_⟩
  · dsimp only
    by_cases here : page = call.virt / pageSize
    · rw [here, update_self, updated.here]
      exact .mapped legal
    · have entry := tracks.entries page below
      rw [update_of_ne here]
      rcases updated.elsewhere page below here with same | ⟨missing, blank⟩
      · rw [same]
        exact entry
      · rw [missing] at entry
        rw [blank]
        generalize s.mapped page = last at entry
        cases entry
        exact .blank
  · rw [updated.kernelHalf i above, tracks.kernelHalf i above]

theorem step {s' : TaskSpace} (fits : TableFits s call) (enabled : mapping.enabled call s = true)
    (ran : mapping.perform call s = .ok s') : s'.Tracks start dir := by
  obtain ⟨user, legal⟩ := mapping_enabled enabled
  obtain ⟨store, mapped, rfl⟩ := mapping_returns ran
  obtain ⟨index, inside⟩ := addrToDiridx_user user
  rw [userMapPage, index, addrToTabidx_eq] at mapped
  rw [TableFits, index, tracks.direntryGetPhys (userTables_lt inside)] at fits
  apply tracks.update legal
  have second : call.virt / pageSize % numEntries < numEntries := Nat.mod_lt _ (by decide)
  rcases tracks.doUserMapPage inside second with ⟨after, expected, step⟩ | ⟨fault, failed, _⟩
  · rw [expected] at mapped
    cases mapped
    cases step with
    | present found => exact updated_present tracks.sound tracks.directory (page_lt user) found _
    | absent missing taken granted =>
      refine updated_absent tracks.sound tracks.directory (page_lt user) missing granted ?_ _
      rintro rfl
      rw [points_none.mp missing, Nat.zero_mul] at fits
      exact fits rfl (allocPages_next taken)
  · rw [failed] at mapped
    cases mapped

theorem refines (fresh : Fresh s.task start dir) : s.Refines start := by
  refine ⟨fun v user => tracks.userGetPage user, fun v phys user mapped => tracks.resolveVirt user mapped,
    fun i above below => ?_, fun i j phys => tracks.distinct, fun v tab => tracks.zeroed, fun call enabled => ?_⟩
  · have here := load_backed tracks.sound.room (tracks.sound.backed dir (.inl rfl)) below
    have there := load_backed fresh.sound.room (fresh.sound.backed dir rfl) below
    rw [← tracks.addr, tracks.kernelHalf i above] at here
    rw [← fresh.addr] at there
    rw [here, there]
  · obtain ⟨user, _⟩ := mapping_enabled enabled
    obtain ⟨index, inside⟩ := addrToDiridx_user user
    rw [userMapPage, index]
    rcases tracks.doUserMapPage inside (addrToTabidx_lt call.virt) with ⟨store, ran, _⟩ | failed
    · exact .inl ⟨store, ran⟩
    · exact .inr failed

end

end TaskSpace.Tracks

theorem Fresh.tracks {task : ArchThreadData} (fresh : Fresh task start dir) :
    TaskSpace.Tracks start dir { store := start, task, mapped := fun _ => none } := by
  have none : ∀ page < userTables * numEntries, pageWord dir start.words page = none := by
    intro page below
    rw [pageWord, lookupWord, fresh.empty _ (page_table below), map_none]
  refine ⟨fresh.sound.mono fun q mem => ?_, fresh.addr, ⟨fun i table below found => ?_,
    fun i j table below _ found => ?_⟩, fun page below => ?_, fun _ _ => rfl⟩
  · rcases mem with rfl | ⟨i, below, found⟩
    · rfl
    · rw [fresh.empty i below] at found
      contradiction
  iterate 2
    · rw [fresh.empty i below] at found
      contradiction
  · rw [none page below]
    exact .missing

/-- As long as the frame 0 is not taken for a table, the tables of a task are the map of what was mapped. -/
theorem page_tables_refine_map {task : ArchThreadData} {final : TaskSpace} (fresh : Fresh task start dir)
    (path : mapping.Reaches TableFits { store := start, task, mapped := fun _ => none } final) :
    final.Refines start := by
  have tracked := path.preserves (fun s => s.task = task ∧ s.Tracks start dir) ⟨rfl, fresh.tracks⟩ ?_
  · obtain ⟨same, tracks⟩ := tracked
    exact tracks.refines (same ▸ fresh)
  · rintro before call after ⟨same, tracks⟩ fits enabled ran
    refine ⟨?_, tracks.step fits enabled ran⟩
    obtain ⟨store, _, rfl⟩ := mapping_returns ran
    exact same

end Runs

/-- Frames claimed one after the other; there is no result if one of them is not permanent. -/
def claimList : List Nat → Frames → Option Frames
  | [], frames => some frames
  | index :: rest, frames =>
      if index < pageCount ∧ (frames.pages index).flags &&& pageFlagPerm ≠ 0 then
        (claimPage index frames).toOption.bind (claimList rest)
      else none

variable {list : List Nat}

theorem claimList_claims {start after : Frames} (earlier : Claims start frames)
    (ran : claimList list frames = some after) : Claims start after := by
  induction list generalizing frames with
  | nil =>
    cases ran
    exact earlier
  | cons _ rest ih =>
    rw [claimList] at ran
    split at ran
    next permanent =>
      obtain ⟨next, claimed, rest⟩ := bind_eq_some_iff.mp ran
      exact ih (earlier.claim permanent.1 permanent.2 (toOption_returns claimed)) rest
    · contradiction

theorem claimed_sound (ran : claimList list (mmInit selfLinked) = some frames) :
    Sound ⟨frames, unmapped⟩ ∅ where
  consistent := ((claimList_claims .none ran).reaches _).sound.consistent
  room := Nat.zero_le _
  backed := nofun

def blankStore (memory : Memory) : Store where
  kernel := { bootKernel memory.frames with memory }
  words _ _ := 0
  kptabPhys := 0x100000

/-- The frames of the list are claimed, and one of them is the directory of a task. -/
def bootSpace (list : List Nat) : Option TaskSpace :=
  (claimList list (mmInit selfLinked)).bind (fun frames =>
    (Mm.allocPages 1 0 ⟨frames, unmapped⟩).toOption.map (fun taken =>
      { store := blankStore taken.1
        task := { cr3 := pageToPhys taken.2, dir := pageToVirt taken.2 taken.1 }
        mapped := fun _ => none }))

theorem bootSpace_fresh (ran : bootSpace list = some s) :
    ∃ dir, Fresh s.task s.store dir ∧ s = { store := s.store, task := s.task, mapped := fun _ => none } := by
  obtain ⟨frames, claimed, rest⟩ := bind_eq_some_iff.mp ran
  obtain ⟨⟨memory, dir⟩, taken, rfl⟩ := map_eq_some_iff.mp rest
  have granted := allocPages_granted (claimed_sound claimed) (by decide) (toOption_returns taken)
  refine ⟨dir, ⟨⟨granted.consistent, granted.room, ?_⟩, rfl, fun i _ => points_zero⟩, rfl⟩
  rintro q rfl
  exact granted.backed q (mem_run_one.mpr rfl)

instance (s : TaskSpace) : DecidablePred (TableFits s) :=
  fun _ => inferInstanceAs (Decidable (_ → _))

theorem page_tables_refine_map_two : ∃ start s, mapping.Reaches TableFits start s ∧
    s.mapped 5 = some 0x8000 ∧ userGetPage s.task 0x5123 s.store = .ok (some 8) ∧ s.Refines start.store := by
  obtain ⟨start, booted, s, ran, mapped⟩ : ∃ start ∈ bootSpace [2, 3], ∃ s ∈ mapping.run TableFits
      [⟨0x5000, 0x7000⟩, ⟨0x6000, 0x9000⟩, ⟨0x5000, 0x8000⟩] start, s.mapped 5 = some 0x8000 := by decide +kernel
  have path := Machine.run_reaches ran
  obtain ⟨dir, fresh, shape⟩ := bootSpace_fresh booted
  have refines := page_tables_refine_map fresh (shape ▸ path)
  have page := refines.found 0x5123 (by decide)
  have number : 0x5123 / pageSize = 5 := by decide
  rw [number] at page
  rw [mapped] at page
  exact ⟨start, s, path, mapped, page, refines⟩

/-- The frame 0 is taken for a table: what is mapped in it is not found. -/
theorem page_tables_lose_page : ∃ start s, mapping.Reaches (fun _ _ => True) start s ∧
    (∃ dir, Fresh start.task start.store dir) ∧ s.mapped 5 = some 0x7000 ∧
    userGetPage s.task 0x5000 s.store = .ok none ∧ ¬ s.Refines start.store := by
  obtain ⟨start, booted, s, ran, mapped, lost⟩ : ∃ start ∈ bootSpace [0, 3],
      ∃ s ∈ mapping.run (fun _ _ => True) [⟨0x5000, 0x7000⟩] start,
      s.mapped 5 = some 0x7000 ∧ (userGetPage s.task 0x5000 s.store).toOption = some none := by decide +kernel
  obtain ⟨dir, fresh, _⟩ := bootSpace_fresh booted
  have lost := toOption_returns lost
  refine ⟨start, s, Machine.run_reaches ran, ⟨dir, fresh⟩, mapped, lost, fun refines => ?_⟩
  have page := refines.found 0x5000 (by decide)
  have number : 0x5000 / pageSize = 5 := by decide
  rw [number] at page
  rw [mapped, lost] at page
  cases page

end KOs.Arch.Paging

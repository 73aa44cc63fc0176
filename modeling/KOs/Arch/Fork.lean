import KOs.Arch.Copying
import KOs.Arch.Growth

namespace KOs.Arch.Paging

open KOs.Common KOs.Data KOs.Mm Option Function

/-- An address space that is built, with the frames that `alloc_pages` has returned for it. -/
structure Building where
  store : Store
  task : ArchThreadData
  obtained : List Nat

inductive BuildEvent where
  | alloc (num : Nat) (flags : UInt32)
  | map (virt frame : Nat)
  /-- Anything is written into a page. -/
  | write (frame : Nat) (contents : Nat → BitVec 32)

def building : Machine Building BuildEvent Fault where
  enabled event s :=
    match event with
    | .alloc num _ => decide (num ≠ 0)
    | .map virt frame => decide (virt < virtualBase) && decide (frame ∈ s.obtained)
    | .write frame _ => decide (frame ∈ s.obtained)
  perform event s :=
    match event with
    | .alloc num flags => (allocPages num flags s.store).map (fun taken =>
        { s with store := taken.1, obtained := List.range' taken.2 num ++ s.obtained })
    | .map virt frame => (userMapPage s.task virt (pageToPhys frame) s.store).map (fun store => { s with store })
    | .write frame contents => .ok { s with store.words := Function.update s.store.words frame contents }

def PageAt (task : ArchThreadData) (v : Nat) (s : Store) (q : Nat) : Prop :=
  virtIsValid task v s = .ok true ∧ resolveVirt task v s = .ok (q * pageSize + v % pageSize)

def TableAt (task : ArchThreadData) (i : Nat) (s : Store) (q : Nat) : Prop :=
  direntryGetPhys task.dir i s = .ok (q * pageSize) ∧
    ∃ flags, entryGetFlags task.dir i s = .ok flags ∧ flags &&& mmuflagPresent ≠ 0

/-- The frames of an address space: the directory, the tables of its user half and the pages. -/
inductive SpaceFrame (task : ArchThreadData) (s : Store) : Nat → Prop
  | directory {q : Nat} (here : frameAt task.dir s = .ok q) : SpaceFrame task s q
  | table {q i : Nat} (inside : i < userTables) (here : TableAt task i s q) : SpaceFrame task s q
  | page {q v : Nat} (user : v < virtualBase) (here : PageAt task v s q) : SpaceFrame task s q

structure Copied (parent child : ArchThreadData) (before after : Store) : Prop where
  mapped : ∀ v, v < virtualBase → ∃ valid, virtIsValid parent v before = .ok valid ∧ virtIsValid child v after = .ok valid
  contents : ∀ v q, v < virtualBase → PageAt parent v before q →
    ∃ copy, PageAt child v after copy ∧ after.words copy = before.words q
  fresh : ∀ q, SpaceFrame child after q → ¬ SpaceFrame parent before q
  apart : ∀ v copy, v < virtualBase → PageAt child v after copy → frameAt child.dir after ≠ .ok copy ∧
    ∀ i, i < userTables → ¬ TableAt child i after copy
  distinct : ∀ v w copy, v < virtualBase → w < virtualBase → PageAt child v after copy → PageAt child w after copy →
    v / pageSize = w / pageSize
  kept : ∀ q, SpaceFrame parent before q → after.words q = before.words q
  parent : ∀ v, v < virtualBase → virtIsValid parent v after = virtIsValid parent v before ∧
    resolveVirt parent v after = resolveVirt parent v before

def mappedPage (task : ArchThreadData) (s : Store) (page : Nat) : Bool :=
  (virtIsValid task (page * pageSize) s).toOption == some true

/-- The allocator does not answer with the frame 0 when it is asked for a table of the child. -/
def TablesFit (parent : ArchThreadData) (before : Store) : Prop :=
  (Request.table, 0) ∉
    answers allocate (requestsBelow (mappedPage parent before) (userTables * numEntries)) before.kernel.memory

variable {s : Store} {task : ArchThreadData} {dir v q : Nat}

theorem pageAt_iff (user : v < virtualBase) (reaching : Reaching task dir (v / pageSize / numEntries) s) :
    PageAt task v s q ↔ source dir s.words (v / pageSize) = some q := by
  rw [PageAt, reaching.virtIsValid_page user, reaching.resolveVirt_page user, source_eq_some]
  cases here : pageWord dir s.words (v / pageSize) with
  | none => simp
  | some word =>
    have cancel : frameOf word * pageSize + v % pageSize = q * pageSize + v % pageSize ↔ frameOf word = q := by
      rw [Nat.add_right_cancel_iff]
      exact Nat.mul_left_inj (by decide)
    simp only [elim_some, Except.ok.injEq, cancel, some.injEq, exists_eq_left']

theorem tableAt_word {i : Nat} (room : s.kmap.kernelNextPage ≤ windowPages) (backed : Backed s.kernel.memory dir)
    (addr : task.dir = (s.frames.pages dir).addr) (inside : i < userTables) (here : TableAt task i s q) :
    frameOf (s.words dir i) = q ∧ s.words dir i ≠ 0 := by
  obtain ⟨phys, flags, flagged, present⟩ := here
  rw [direntryGetPhys, addr, entryGetPhys_backed room backed (userTables_lt inside)] at phys
  rw [addr, entryGetFlags_backed room backed (userTables_lt inside)] at flagged
  refine ⟨Nat.eq_of_mul_eq_mul_right (by decide) (Except.ok.inj phys), fun zero => present ?_⟩
  rw [zero] at flagged
  rw [← Except.ok.inj flagged]
  decide

variable {page : Nat}

section Loops

variable {kind : Nat → Option Kind} {parent child count : Nat} {before : Store} {slot : Nat → Option Slot}
variable {childTask parentTask : ArchThreadData} {after : Store} (forking : Forking kind parent child before)

namespace Copying

section

variable (copying : Copying kind parent child before count slot after)
include copying forking

theorem reachingChild
    (at_child : childTask.dir = (before.frames.pages child).addr) {i : Nat} (inside : i < userTables) :
    Reaching childTask child i after where
  room := copying.sound.room
  directory := copying.known forking.childDir
  addr := at_child.trans (copying.child_addr forking).symm
  inside := userTables_lt inside
  table := fun _ found => copying.held (copying.table inside found)

theorem tableWords {k : Kind} (known : kind q = some k) (other : k ≠ .directory) : after.words q = before.words q := by
  apply copying.kept q (forking.old known)
  rintro rfl
  rw [forking.childDir] at known
  exact other (some.inj known).symm

theorem parentWords : after.words parent = before.words parent :=
  copying.kept _ (forking.old forking.parentDir) forking.apart

theorem reachingParent
    (at_parent : parentTask.dir = (before.frames.pages parent).addr) {i : Nat} (inside : i < userTables) :
    Reaching parentTask parent i after where
  room := copying.sound.room
  directory := copying.known forking.parentDir
  addr := by rw [at_parent, copying.pages _ (forking.old forking.parentDir)]
  inside := userTables_lt inside
  table := by
    intro t found
    rw [copying.parentWords forking] at found
    exact copying.known (forking.typed.points_table forking.parentDir inside found)

end

theorem source_child (copying : Copying kind parent child before (userTables * numEntries) slot after)
    (intact : Intact parent child before (userTables * numEntries) slot after) (inside : page < userTables * numEntries) :
    source parent before.words page = none ∧ source child after.words page = none ∨
      ∃ f g, source parent before.words page = some f ∧ source child after.words page = some g ∧
        slot g = some (.page page) ∧ after.words g = before.words f := by
  cases here : source parent before.words page with
  | none =>
    refine .inl ⟨rfl, ?_⟩
    rw [source_eq_none]
    rcases copying.blank page inside (.inr here) with missing | zero
    · rw [missing, elim_none]
    · rw [zero, elim_some, isPresent_zero]
  | some f =>
    obtain ⟨g, placed, word, contents⟩ := intact page f inside here
    refine .inr ⟨f, g, rfl, source_eq_some.mpr ⟨_, word, isPresent_user _, ?_⟩, placed, contents⟩
    rw [frameOf_entryOf (pageToPhys_lt g), pageToPhys_page (copying.held placed).range]

end Copying

theorem source_present {words : Nat → Nat → BitVec 32} (here : source dir words page = some q) :
    (pageWord dir words page).elim false isPresent = true := by
  obtain ⟨word, found, present, _⟩ := source_eq_some.mp here
  rw [found, elim_some, present]

theorem Typed.source_page (typed : Typed kind s)
    (directory : kind dir = some .directory) (inside : page < userTables * numEntries)
    (here : source dir s.words page = some q) : kind q = some .page := by
  obtain ⟨word, found, present, rfl⟩ := source_eq_some.mp here
  obtain ⟨t, linked, rfl⟩ := map_eq_some_iff.mp found
  have table := typed.points_table directory (page_table inside) linked
  rcases typed.tables t (page % numEntries) table (Nat.mod_lt _ (by decide)) with zero | page
  · rw [zero, isPresent_zero] at present
    contradiction
  · exact page

include forking

theorem Forking.spaceFrame
    (at_parent : parentTask.dir = (before.frames.pages parent).addr) (mem : SpaceFrame parentTask before q) :
    ∃ k, kind q = some k ∧ q ≠ child := by
  have backed := forking.typed.held forking.parentDir
  have room : before.kmap.kernelNextPage ≤ windowPages := forking.typed.sound.room
  have other : ∀ k, kind q = some k → k ≠ .directory → q ≠ child := by
    rintro k known ne rfl
    rw [forking.childDir] at known
    exact ne (some.inj known).symm
  cases mem with
  | directory here =>
    have found := frameAt_backed room backed (show 0 < pageSize by decide)
    rw [Nat.add_zero, ← at_parent, here] at found
    cases found
    exact ⟨_, forking.parentDir, forking.apart⟩
  | @table i inside here =>
    obtain ⟨rfl, some⟩ := tableAt_word room backed at_parent inside here
    have known := (forking.typed.directories parent i forking.parentDir inside).resolve_left some
    exact ⟨_, known, other _ known (by decide)⟩
  | page user here =>
    have reaching := forking.typed.reaching forking.parentDir at_parent (page_table (page_lt user))
    have known := forking.typed.source_page forking.parentDir (page_lt user) ((pageAt_iff user reaching).mp here)
    exact ⟨_, known, other _ known (by decide)⟩

section

variable (copying : Copying kind parent child before (userTables * numEntries) slot after)
include copying

section

variable (intact : Intact parent child before (userTables * numEntries) slot after)
  (at_child : childTask.dir = (before.frames.pages child).addr)
include intact at_child

theorem Copying.pageAt_child (user : v < virtualBase)
    (here : PageAt childTask v after q) : slot q = some (.page (v / pageSize)) := by
  have reaching := copying.reachingChild forking at_child (page_table (page_lt user))
  have found := (pageAt_iff user reaching).mp here
  rcases copying.source_child intact (page_lt user) with ⟨_, none⟩ | ⟨f, g, _, some, placed, _⟩
  · rw [none] at found
    contradiction
  · rw [some] at found
    exact Option.some.inj found ▸ placed

theorem Copying.spaceFrame (mem : SpaceFrame childTask after q) :
    q = child ∨ ∃ x, slot q = some x := by
  have now : childTask.dir = (after.frames.pages child).addr := at_child.trans (copying.child_addr forking).symm
  have backed := copying.known forking.childDir
  cases mem with
  | directory here =>
    have found := frameAt_backed copying.sound.room backed (show 0 < pageSize by decide)
    rw [Nat.add_zero, ← now, here] at found
    exact .inl (Except.ok.inj found)
  | @table i inside here =>
    obtain ⟨frame, some⟩ := tableAt_word copying.sound.room backed now inside here
    obtain ⟨t, slotted, word⟩ := (copying.entries i inside).resolve_left some
    rw [word, frameOf_entryOf (pageToPhys_lt t), pageToPhys_page (copying.held slotted).range] at frame
    exact .inr ⟨_, frame ▸ slotted⟩
  | page user here => exact .inr ⟨_, copying.pageAt_child forking intact at_child user here⟩

theorem Copying.done
    (at_parent : parentTask.dir = (before.frames.pages parent).addr) : Copied parentTask childTask before after := by
  have fromParent : ∀ v < virtualBase, Reaching parentTask parent (v / pageSize / numEntries) before :=
    fun v user => forking.typed.reaching forking.parentDir at_parent (page_table (page_lt user))
  have fromChild : ∀ v < virtualBase, Reaching childTask child (v / pageSize / numEntries) after :=
    fun v user => copying.reachingChild forking at_child (page_table (page_lt user))
  have toParent : ∀ v < virtualBase, Reaching parentTask parent (v / pageSize / numEntries) after :=
    fun v user => copying.reachingParent forking at_parent (page_table (page_lt user))
  refine ⟨fun v user => ?_, fun v q user here => ?_, fun q mine mem => ?_, fun v copy user here => ?_,
    fun v w copy user user' here there => ?_, fun q mem => ?_, fun v user => ?_⟩
  · rw [(fromParent v user).virtIsValid_page user, (fromChild v user).virtIsValid_page user]
    rcases copying.source_child intact (page_lt user) with ⟨first, second⟩ | ⟨f, g, first, second, _⟩
    · exact ⟨false, by rw [source_eq_none.mp first], by rw [source_eq_none.mp second]⟩
    · exact ⟨true, by rw [source_present first], by rw [source_present second]⟩
  · rw [pageAt_iff user (fromParent v user)] at here
    rcases copying.source_child intact (page_lt user) with ⟨none, _⟩ | ⟨f, g, first, second, _, contents⟩
    · rw [none] at here
      contradiction
    · rw [first] at here
      cases here
      exact ⟨g, (pageAt_iff user (fromChild v user)).mpr second, contents⟩
  · obtain ⟨k, known, other⟩ := forking.spaceFrame at_parent mem
    rcases copying.spaceFrame forking intact at_child mine with here | ⟨x, placed⟩
    · exact other here
    · exact forking.old known (copying.fresh q x placed)
  · have placed := copying.pageAt_child forking intact at_child user here
    have apart := copying.slot_apart forking placed
    have now : childTask.dir = (after.frames.pages child).addr := at_child.trans (copying.child_addr forking).symm
    have backed := copying.known forking.childDir
    constructor
    · intro same
      have found := frameAt_backed copying.sound.room backed (show 0 < pageSize by decide)
      rw [Nat.add_zero, ← now, same] at found
      exact apart (Except.ok.inj found)
    · intro i inside table
      obtain ⟨frame, some⟩ := tableAt_word copying.sound.room backed now inside table
      obtain ⟨t, slotted, word⟩ := (copying.entries i inside).resolve_left some
      rw [word, frameOf_entryOf (pageToPhys_lt t), pageToPhys_page (copying.held slotted).range] at frame
      rw [← frame, slotted] at placed
      cases placed
  · have first := copying.pageAt_child forking intact at_child user here
    rw [copying.pageAt_child forking intact at_child user' there] at first
    exact (Slot.page.inj (some.inj first)).symm
  · obtain ⟨k, known, other⟩ := forking.spaceFrame at_parent mem
    exact copying.kept q (forking.old known) other
  · have same : pageWord parent after.words (v / pageSize) = pageWord parent before.words (v / pageSize) := by
      refine pageWord_same (copying.parentWords forking) fun t found => ?_
      exact copying.tableWords forking
        (forking.typed.points_table forking.parentDir (page_table (page_lt user)) found) (by decide)
    constructor
    · rw [(toParent v user).virtIsValid_page user, (fromParent v user).virtIsValid_page user, same]
    · rw [(toParent v user).resolveVirt_page user, (fromParent v user).resolveVirt_page user, same]

end

omit copying in
omit forking in
theorem page_address (below : page < userTables * numEntries) :
    page * pageSize < virtualBase ∧ page * pageSize / pageSize = page := by
  simp only [virtualBase, pageSize, userTables, numEntries, kernelNumTables] at *
  omega

theorem Copying.lost (at_child : childTask.dir = (before.frames.pages child).addr)
    (at_parent : parentTask.dir = (before.frames.pages parent).addr) (below : page < userTables * numEntries)
    (here : had parent before page = true) (missing : Blank child after.words page) :
    ¬ Copied parentTask childTask before after := by
  intro copied
  obtain ⟨f, found⟩ := isSome_iff_exists.mp here
  obtain ⟨user, number⟩ := page_address below
  have reaching := forking.typed.reaching forking.parentDir at_parent (page_table (page_lt user))
  have toChild := copying.reachingChild forking at_child (page_table (page_lt user))
  have absent : (pageWord child after.words page).elim false isPresent = false := by
    rcases missing with none | zero
    · rw [none, elim_none]
    · rw [zero, elim_some, isPresent_zero]
  obtain ⟨valid, inParent, inChild⟩ := copied.mapped _ user
  rw [reaching.virtIsValid_page user, number, source_present found] at inParent
  rw [toChild.virtIsValid_page user, number, absent] at inChild
  cases inParent
  cases inChild

end

theorem mappedPage_eq
    (at_parent : parentTask.dir = (before.frames.pages parent).addr) (below : page < userTables * numEntries) :
    mappedPage parentTask before page = had parent before page := by
  obtain ⟨user, number⟩ := page_address below
  have reaching := forking.typed.reaching forking.parentDir at_parent (page_table (page_lt user))
  rw [mappedPage, reaching.virtIsValid_page user, number, had, source]
  cases pageWord parent before.words page with
  | none => rfl
  | some word => cases present : isPresent word <;> simp [present, Except.toOption]

theorem copyMem_copied (at_child : childTask.dir = (before.frames.pages child).addr)
    (at_parent : parentTask.dir = (before.frames.pages parent).addr)
    (blank : ∀ i < userTables, before.words child i = 0) :
    (∃ after, copyMem childTask parentTask before = .ok after ∧
      (Copied parentTask childTask before after ↔ TablesFit parentTask before)) ∨
      ∃ fault, copyMem childTask parentTask before = .error fault ∧ Exhausted fault := by
  refine (copyMem_cases forking at_child at_parent blank).imp_left ?_
  rintro ⟨after, ran, slot, copying, outcome⟩
  refine ⟨after, ran, ?_⟩
  rw [TablesFit, requestsBelow_congr fun page below => mappedPage_eq forking at_parent below]
  cases outcome with
  | intact intact served =>
    have all := served.answers_append []
    rw [List.append_nil] at all
    refine iff_of_true (copying.done forking intact at_child at_parent) ?_
    rwa [all, answers, List.append_nil]
  | lost below here missing unfit =>
    exact iff_of_false (copying.lost forking at_child at_parent below here missing) (not_not_intro unfit)

end Loops

/-- The address space of the task leads to frames that were obtained for it, and to no others. -/
def Building.Kept (s : Building) : Prop :=
  ∃ kind dir, Typed kind s.store ∧ kind dir = some .directory ∧ s.task.dir = (s.store.frames.pages dir).addr ∧
    ∀ q ∈ s.obtained, kind q = some .page

section Building

variable {s s' : Building}

theorem Building.Kept.step {event : BuildEvent} (kept : s.Kept) (enabled : building.enabled event s = true)
    (ran : building.perform event s = .ok s') : s'.Kept := by
  obtain ⟨kind, dir, typed, directory, addr, obtained⟩ := kept
  rw [building] at enabled ran
  cases event with
  | alloc num flags =>
    obtain ⟨⟨store, page⟩, taken, rfl⟩ := map_returns ran
    obtain ⟨more, next, evolved, _, pages⟩ := typed.allocate (of_decide_eq_true enabled) taken
    refine ⟨more, dir, next, evolved.old dir _ directory, addr.trans (evolved.addr typed directory).symm, fun q mem => ?_⟩
    rcases List.mem_append.mp mem with new | earlier
    · exact pages q (List.mem_range'_1.mp new)
    · exact evolved.old q _ (obtained q earlier)
  | map virt frame =>
    dsimp only at enabled ran
    rw [Bool.and_eq_true, decide_eq_true_iff, decide_eq_true_iff] at enabled
    obtain ⟨user, mem⟩ := enabled
    obtain ⟨store, mapped, rfl⟩ := map_returns ran
    have page := obtained frame mem
    obtain ⟨more, next, evolved, _⟩ := typed.mapUser directory addr user
      (by rw [Placed.frame_page (typed.held page).range, page]) mapped
    exact ⟨more, dir, next, evolved.old dir _ directory, addr.trans (evolved.addr typed directory).symm,
      fun q mem => evolved.old q _ (obtained q mem)⟩
  | write frame contents =>
    cases ran
    exact ⟨kind, dir, typed.write (obtained _ (of_decide_eq_true enabled)) _, directory, addr, obtained⟩

theorem building_task {event : BuildEvent} (ran : building.perform event s = .ok s') : s'.task = s.task := by
  rw [building] at ran
  cases event with
  | alloc =>
    obtain ⟨_, _, rfl⟩ := map_returns ran
    rfl
  | map =>
    dsimp only at ran
    obtain ⟨_, _, rfl⟩ := map_returns ran
    rfl
  | write =>
    cases ran
    rfl

end Building

theorem building_kept {first start : Store} {parent : ArchThreadData} {s : Building}
    (sound : Sound first.kernel.memory ∅) (made : archReplaceMem 0 first = .ok (start, parent))
    (path : building.Reaches (fun _ _ => True) { store := start, task := parent, obtained := [] } s) :
    s.task = parent ∧ s.Kept := by
  obtain ⟨memory, dir, granted, rfl, rfl⟩ := archReplaceMem_new sound made
  refine path.preserves (fun s => s.task = { cr3 := pageToPhys dir, dir := (memory.frames.pages dir).addr } ∧ s.Kept)
    ⟨rfl, _, dir, sound.typed.newDirectory granted, update_self .., rfl, nofun⟩ ?_
  rintro earlier event later ⟨same, kept⟩ _ enabled ran
  exact ⟨(building_task ran).trans same, kept.step enabled ran⟩

/-- `fork` copies the address space exactly if no table of the child is taken from the frame 0. -/
theorem fork_copies_space {first start before : Store} {parent child : ArchThreadData} {s : Building}
    (sound : Sound first.kernel.memory ∅) (made : archReplaceMem 0 first = .ok (start, parent))
    (path : building.Reaches (fun _ _ => True) { store := start, task := parent, obtained := [] } s)
    (fresh : archReplaceMem 0 s.store = .ok (before, child)) :
    (∃ after, copyMem child parent before = .ok after ∧ (Copied parent child before after ↔ TablesFit parent before)) ∨
      ∃ fault, copyMem child parent before = .error fault ∧ Exhausted fault := by
  obtain ⟨rfl, kind, parentDir, typed, directory, addr, _⟩ := building_kept sound made path
  obtain ⟨memory, childDir, granted, rfl, rfl⟩ := archReplaceMem_new typed.sound fresh
  have apart : parentDir ≠ childDir := by
    rintro rfl
    exact granted.fresh (typed.held directory) (mem_run_one.mpr rfl)
  have forking : Forking (update kind childDir (some .directory)) parentDir childDir
      { s.store with
        kernel.memory := memory
        words := update s.store.words childDir (dirWords s.store.kptabPhys) } :=
    ⟨typed.newDirectory granted, by rw [update_of_ne apart, directory], update_self .., apart⟩
  have at_parent : s.task.dir = (memory.frames.pages parentDir).addr :=
    addr.trans (granted.addr (typed.held directory)).symm
  refine copyMem_copied forking rfl at_parent fun i inside => ?_
  dsimp only
  rw [update_self, dirWords, if_neg (by omega)]

/-- `arch_replace_mem(t, NULL)`, with the words that it leaves in the directory. -/
def replaced (s : Store) : Option (Store × ArchThreadData) :=
  (Mm.allocPages 1 allocZero s.kernel.memory).toOption.map (fun taken =>
    ({ s with kernel.memory := taken.1, words := Function.update s.words taken.2 (dirWords s.kptabPhys) },
      { cr3 := pageToPhys taken.2, dir := pageToVirt taken.2 taken.1 }))

variable {held : Set Nat}

theorem replaced_eq {s' : Store} (sound : Sound s.kernel.memory held)
    (ran : replaced s = some (s', task)) : archReplaceMem 0 s = .ok (s', task) := by
  obtain ⟨⟨memory, dir⟩, taken, same⟩ := map_eq_some_iff.mp ran
  cases same
  rw [archReplaceMem, if_pos rfl, newDir_ok sound (toOption_returns taken), ok_bind]
  rfl

structure ForkRun where
  first : Store
  start : Store
  parent : ArchThreadData
  built : Building
  before : Store
  child : ArchThreadData
  after : Store

def forkRun (list : List Nat) (page : Nat) : Option ForkRun :=
  (claimList list (mmInit selfLinked)).bind (fun frames =>
    (replaced (blankStore ⟨frames, unmapped⟩)).bind (fun made =>
      (building.run (fun _ _ => True) [.alloc 1 0, .write page (fun _ => 7), .map 0x5000 page]
        { store := made.1, task := made.2, obtained := [] }).bind (fun built =>
        (replaced built.store).bind (fun fresh =>
          (copyMem fresh.2 made.2 fresh.1).toOption.map (fun after =>
            { first := blankStore ⟨frames, unmapped⟩, start := made.1, parent := made.2, built,
              before := fresh.1, child := fresh.2, after })))))

structure ForkRun.Runs (r : ForkRun) : Prop where
  sound : Sound r.first.kernel.memory ∅
  made : archReplaceMem 0 r.first = .ok (r.start, r.parent)
  path : building.Reaches (fun _ _ => True) { store := r.start, task := r.parent, obtained := [] } r.built
  fresh : archReplaceMem 0 r.built.store = .ok (r.before, r.child)
  between : Sound r.before.kernel.memory ∅
  copied : copyMem r.child r.parent r.before = .ok r.after

theorem forkRun_runs {list : List Nat} {r : ForkRun} (ran : forkRun list page = some r) : r.Runs := by
  obtain ⟨frames, claimed, rest⟩ := bind_eq_some_iff.mp ran
  obtain ⟨⟨start, parent⟩, made, rest⟩ := bind_eq_some_iff.mp rest
  obtain ⟨built, steps, rest⟩ := bind_eq_some_iff.mp rest
  obtain ⟨⟨before, child⟩, fresh, rest⟩ := bind_eq_some_iff.mp rest
  obtain ⟨after, copied, rfl⟩ := map_eq_some_iff.mp rest
  have sound : Sound (blankStore ⟨frames, unmapped⟩).kernel.memory ∅ := claimed_sound claimed
  have made := replaced_eq sound made
  have path : building.Reaches (fun _ _ => True) { store := start, task := parent, obtained := [] } built :=
    Machine.run_reaches steps
  obtain ⟨_, kind, _, typed, _⟩ := building_kept sound made path
  have fresh := replaced_eq typed.sound fresh
  obtain ⟨memory, childDir, granted, rfl, rfl⟩ := archReplaceMem_new typed.sound fresh
  exact ⟨sound, made, path, fresh, (typed.sound.grant granted).mono nofun, toOption_returns copied⟩

theorem tablesFit (sound : Sound s.kernel.memory held) (zero : 0 ∉ freeSet s.frames) : TablesFit task s := by
  intro mem
  refine answers_mem (fun memory => Sound memory ∅ ∧ 0 ∉ freeSet memory.frames) (· ≠ 0) ?_
    ⟨sound.mono nofun, zero⟩ mem rfl
  rintro request memory memory' q ⟨sound, zero⟩ taken
  have granted := allocPages_granted sound (by decide) taken
  refine ⟨⟨(sound.grant granted).mono nofun, fun free => ?_⟩, ?_⟩
  · rw [granted.shrunk] at free
    exact zero free.1
  · rintro rfl
    exact zero (granted.free (mem_run_one.mpr rfl))

theorem fork_copies_space_one : ∃ r : ForkRun, r.Runs ∧ virtIsValid r.parent 0x5000 r.before = .ok true ∧
    TablesFit r.parent r.before ∧ Copied r.parent r.child r.before r.after := by
  obtain ⟨r, ran, valid, flags⟩ : ∃ r ∈ forkRun [3, 5, 9, 17, 33, 65] 33,
      (virtIsValid r.parent 0x5000 r.before).toOption = some true ∧ (r.before.frames.pages 0).flags ≠ 0 := by
    decide +kernel
  have runs := forkRun_runs ran
  have fit : TablesFit r.parent r.before := tablesFit runs.between fun free => flags free.2
  refine ⟨r, runs, toOption_returns valid, fit, ?_⟩
  rcases fork_copies_space runs.sound runs.made runs.path runs.fresh with ⟨after, ran, copied⟩ | ⟨fault, failed, _⟩
  · rw [runs.copied] at ran
    cases ran
    exact copied.mpr fit
  · rw [runs.copied] at failed
    cases failed

/-- The table of the child is the frame 0: the child does not have the page of its parent. -/
theorem fork_loses_page : ∃ r : ForkRun, r.Runs ∧ virtIsValid r.parent 0x5000 r.before = .ok true ∧
    virtIsValid r.child 0x5000 r.after = .ok false ∧ ¬ Copied r.parent r.child r.before r.after := by
  obtain ⟨r, ran, valid, lost⟩ : ∃ r ∈ forkRun [0, 3, 5, 9, 17, 33] 17,
      (virtIsValid r.parent 0x5000 r.before).toOption = some true ∧
      (virtIsValid r.child 0x5000 r.after).toOption = some false := by decide +kernel
  have valid := toOption_returns valid
  have lost := toOption_returns lost
  refine ⟨r, forkRun_runs ran, valid, lost, fun copied => ?_⟩
  obtain ⟨both, here, there⟩ := copied.mapped 0x5000 (by decide)
  rw [valid] at here
  rw [lost] at there
  cases here
  cases there

end KOs.Arch.Paging

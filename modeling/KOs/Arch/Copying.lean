import KOs.Arch.Kinds
import KOs.Arch.Spaces
import KOs.Data.Requests

namespace KOs.Arch.Paging

open KOs.Common KOs.Data KOs.Mm Function Option

inductive Request where
  | page
  | table
deriving DecidableEq, Repr

def Request.flags : Request → UInt32
  | .page => allocCompound
  | .table => allocZero

def allocate (request : Request) (memory : Memory) : Except Fault (Memory × Nat) :=
  Mm.allocPages 1 request.flags memory

/-- The requests at one page: there is no table yet at the first page under an entry of the directory. -/
def requestsAt (mapped : Nat → Bool) (page : Nat) : List Request :=
  if mapped page then
    if ∃ earlier, earlier < page ∧ earlier / numEntries = page / numEntries ∧ mapped earlier then [.page]
    else [.page, .table]
  else []

def requestsBelow (mapped : Nat → Bool) (count : Nat) : List Request := (List.range count).flatMap (requestsAt mapped)

theorem requestsBelow_succ (mapped : Nat → Bool) (count : Nat) :
    requestsBelow mapped (count + 1) = requestsBelow mapped count ++ requestsAt mapped count := by
  simp [requestsBelow, List.range_succ]

variable {count : Nat}

section At

variable {mapped : Nat → Bool}

theorem requestsBelow_later (here : mapped count = true)
    (under : ∃ earlier < count, earlier / numEntries = count / numEntries ∧ mapped earlier = true) :
    requestsBelow mapped (count + 1) = requestsBelow mapped count ++ [.page] := by
  rw [requestsBelow_succ, requestsAt, if_pos here, if_pos under]

theorem requestsBelow_first (here : mapped count = true)
    (under : ¬ ∃ earlier < count, earlier / numEntries = count / numEntries ∧ mapped earlier = true) :
    requestsBelow mapped (count + 1) = requestsBelow mapped count ++ [.page] ++ [.table] := by
  rw [requestsBelow_succ, requestsAt, if_pos here, if_neg under, List.append_assoc, List.singleton_append]

end At

theorem requestsBelow_split (mapped : Nat → Bool) {total : Nat} (upto : count ≤ total) :
    ∃ rest, requestsBelow mapped total = requestsBelow mapped count ++ rest := by
  obtain ⟨_, rfl⟩ := Nat.exists_eq_add_of_le upto
  simp [requestsBelow, List.range_add]

theorem requestsBelow_congr {mapped other : Nat → Bool} (same : ∀ page < count, mapped page = other page) :
    requestsBelow mapped count = requestsBelow other count := by
  induction count with
  | zero => rfl
  | succ count ih =>
    have earlier : (∃ earlier < count, earlier / numEntries = count / numEntries ∧ mapped earlier) ↔
        ∃ earlier < count, earlier / numEntries = count / numEntries ∧ other earlier := by
      refine exists_congr fun page => and_congr_right fun below => and_congr_right fun _ => ?_
      rw [same page (Nat.lt_succ_of_lt below)]
    rw [requestsBelow_succ, requestsBelow_succ, ih fun page below => same page (Nat.lt_succ_of_lt below), requestsAt,
      requestsAt, same _ (Nat.lt_succ_self _)]
    simp only [earlier]

variable {words : Nat → Nat → BitVec 32} {page : Nat}
variable {s : Store} {task : ArchThreadData} {q : Nat}

section Pages

variable {dir v : Nat}

def source (dir : Nat) (words : Nat → Nat → BitVec 32) (page : Nat) : Option Nat :=
  ((pageWord dir words page).filter isPresent).map frameOf

theorem source_eq_some : source dir words page = some q ↔
    ∃ word, pageWord dir words page = some word ∧ isPresent word = true ∧ frameOf word = q := by
  simp [source, and_assoc]

theorem source_eq_none : source dir words page = none ↔ (pageWord dir words page).elim false isPresent = false := by
  cases word : pageWord dir words page with
  | none | some => simp [source, word]

section

variable (user : v < virtualBase) (reaching : Reaching task dir (v / pageSize / numEntries) s)
include user reaching

theorem Reaching.virtIsValid_page :
    Paging.virtIsValid task v s = .ok ((pageWord dir s.words (v / pageSize)).elim false isPresent) := by
  rw [← (addrToDiridx_user user).1] at reaching
  rw [reaching.virtIsValid user (addrToTabidx_lt v), pageWord_eq user]

theorem Reaching.resolveVirt_page :
    Paging.resolveVirt task v s =
      .ok ((pageWord dir s.words (v / pageSize)).elim 0 (fun word => frameOf word * pageSize + v % pageSize)) := by
  rw [← (addrToDiridx_user user).1] at reaching
  rw [Paging.resolveVirt, reaching.dirLookupAddr (addrToTabidx_lt v), pageWord_eq user]

end

end Pages

variable {i j : Nat}
variable {memory : Memory} {g phys : Nat}

section CopyEntry

variable {child : ArchThreadData} {tab flags : Nat}

theorem kmalloc_page (s : Store) : kmalloc pageSize s =
    (Mm.allocPages 1 allocCompound s.kernel.memory).map (fun taken =>
      ({ s with kernel.memory := taken.1 }, pageToVirt taken.2 taken.1)) := by
  have large : ¬ pageSize ≤ kallocCacheMax := by decide
  have one : divUp pageSize pageSize = 1 := by decide
  rw [kmalloc, Mm.kmalloc, if_neg large, one]
  cases Mm.allocPages 1 allocCompound s.kernel.memory with
  | error | ok => rfl

section

variable (entry : tabentryGetFlags tab j s = .ok flags)
include entry

theorem copyEntry_absent (absent : flags &&& mmuflagPresent = 0) :
    copyEntry child i tab j s = .ok s := by
  rw [copyEntry, entry, ok_bind, if_neg (not_not_intro absent)]
  rfl

theorem copyEntry_fails (present : flags &&& mmuflagPresent ≠ 0)
    {fault : Fault} (failed : Mm.allocPages 1 allocCompound s.kernel.memory = .error fault) :
    copyEntry child i tab j s = .error fault := by
  rw [copyEntry, entry, ok_bind, if_pos present, kmalloc_page, failed]
  rfl

theorem copyEntry_present (present : flags &&& mmuflagPresent ≠ 0) {copy : Nat} {next : Store}
    (taken : Mm.allocPages 1 allocCompound s.kernel.memory = .ok (memory, g))
    (found : tabentryGetPhys tab j { s with kernel.memory := memory } = .ok phys)
    (copied : copyPage (pageToVirt g memory) (physToVirt phys { s with kernel.memory := memory })
      { s with kernel.memory := memory } = .ok next)
    (back : virtToPhys (pageToVirt g memory) next.kmap = .ok copy) :
    copyEntry child i tab j s = doUserMapPage child i j copy next := by
  rw [copyEntry, entry, ok_bind, if_pos present, kmalloc_page, taken, Except.map, ok_bind]
  dsimp only
  rw [found, ok_bind, copied, ok_bind, back, ok_bind]

end

variable {f : Nat}

theorem copyPage_backed (room : s.kmap.kernelNextPage ≤ windowPages) (first : Backed s.kernel.memory q)
    (second : Backed s.kernel.memory f) :
    copyPage (s.frames.pages q).addr (s.frames.pages f).addr s =
      .ok { s with words := update s.words q (s.words f) } := by
  have small : 0 < pageSize := by decide
  have one := frameAt_backed room first small
  have other := frameAt_backed room second small
  rw [add_zero] at one other
  rw [copyPage, one, ok_bind, other, ok_bind]
  rfl

end CopyEntry

/-- What a frame of the child is used for. -/
inductive Slot where
  | table (i : Nat)
  | page (number : Nat)
deriving DecidableEq, Repr

def had (parent : Nat) (before : Store) (page : Nat) : Bool := (source parent before.words page).isSome

def Blank (child : Nat) (words : Nat → Nat → BitVec 32) (page : Nat) : Prop :=
  pageWord child words page = none ∨ pageWord child words page = some 0

/-- The entries of the child before `count`. -/
structure Copying (kind : Nat → Option Kind) (parent child : Nat) (before : Store) (count : Nat)
    (slot : Nat → Option Slot) (s : Store) : Prop where
  bounded : count ≤ userTables * numEntries
  sound : Sound s.kernel.memory {q | kind q ≠ none ∨ slot q ≠ none}
  pages : ∀ q, q ∉ freeSet before.frames → s.frames.pages q = before.frames.pages q
  fewer : freeSet s.frames ⊆ freeSet before.frames
  fresh : ∀ q x, slot q = some x → q ∈ freeSet before.frames
  kept : ∀ q, q ∉ freeSet before.frames → q ≠ child → s.words q = before.words q
  entries : ∀ i, i < userTables → s.words child i = 0 ∨
    ∃ t, slot t = some (.table i) ∧ s.words child i = entryOf (pageToPhys t) userFlags
  linked : ∀ i, i < userTables → s.words child i ≠ 0 →
    ∃ page, page < count ∧ page / numEntries = i ∧ had parent before page = true
  blank : ∀ page, page < userTables * numEntries → count ≤ page ∨ source parent before.words page = none →
    Blank child s.words page

/-- The pages before `count` have been copied. -/
def Intact (parent child : Nat) (before : Store) (count : Nat) (slot : Nat → Option Slot) (s : Store) : Prop :=
  ∀ page f, page < count → source parent before.words page = some f → ∃ g, slot g = some (.page page) ∧
    pageWord child s.words page = some (entryOf (pageToPhys g) userFlags) ∧ s.words g = before.words f

/-- As long as no table is the frame 0 the pages are copied; from then on one of them is missing. -/
inductive Outcome (parent child : Nat) (before : Store) (count : Nat) (slot : Nat → Option Slot) (s : Store) : Prop
  | intact {given : List (Request × Nat)} (pages : Intact parent child before count slot s)
      (served : Served allocate before.kernel.memory (requestsBelow (had parent before) count) given s.kernel.memory)
      (fit : (Request.table, 0) ∉ given)
  | lost {page : Nat} (below : page < count) (here : had parent before page = true) (missing : Blank child s.words page)
      (unfit : (Request.table, 0) ∈
        answers allocate (requestsBelow (had parent before) (userTables * numEntries)) before.kernel.memory)

def Progress (kind : Nat → Option Kind) (parent child : Nat) (before : Store) (count : Nat) (s : Store) : Prop :=
  ∃ slot, Copying kind parent child before count slot s ∧ Outcome parent child before count slot s

/-- What `copy_mem` is called with: two directories. -/
structure Forking (kind : Nat → Option Kind) (parent child : Nat) (before : Store) : Prop where
  typed : Typed kind before
  parentDir : kind parent = some .directory
  childDir : kind child = some .directory
  apart : parent ≠ child

variable {more : Nat → Option Slot} {s' : Store}

section Loops

variable {kind : Nat → Option Kind} {parent child : Nat} {before : Store} {slot : Nat → Option Slot}

theorem Forking.old (forking : Forking kind parent child before) {k : Kind} (known : kind q = some k) :
    q ∉ freeSet before.frames := (forking.typed.held known).taken

theorem pageWord_same {dir : Nat} {after : Nat → Nat → BitVec 32} (same : after dir = words dir)
    (tables : ∀ t, points (words dir (page / numEntries)) = some t → after t = words t) :
    pageWord dir after page = pageWord dir words page := by
  rw [pageWord, pageWord, lookupWord, lookupWord, same]
  cases found : points (words dir (page / numEntries)) with
  | none => rfl
  | some t => rw [map_some, map_some, tables t found]

namespace Copying

section

variable (copying : Copying kind parent child before count slot s)
include copying

theorem held {x : Slot} (known : slot q = some x) :
    Backed s.kernel.memory q := copying.sound.backed q (Or.inr (by simp [known]))

theorem known {k : Kind} (known : kind q = some k) :
    Backed s.kernel.memory q := copying.sound.backed q (Or.inl (by simp [known]))

variable (forking : Forking kind parent child before)
include forking

theorem old_words {k : Kind} (known : kind q = some k) (other : k ≠ .directory) : s.words q = before.words q := by
  apply copying.kept q (forking.old known)
  rintro rfl
  rw [forking.childDir] at known
  cases known
  contradiction

omit forking in
theorem table {t : Nat} (inside : i < userTables)
    (found : points (s.words child i) = some t) : slot t = some (.table i) := by
  rcases copying.entries i inside with zero | ⟨other, table, entry⟩
  · rw [zero, points_zero] at found
    contradiction
  · rw [entry, points_some, frameOf_entryOf (pageToPhys_lt _), pageToPhys_page (copying.held table).range] at found
    exact found.1 ▸ table

theorem slot_apart {x : Slot} (known : slot q = some x) : q ≠ child := by
  rintro rfl
  exact forking.old forking.childDir (copying.fresh q x known)

theorem directory : Directory points (· < userTables) child s.words := by
  refine ⟨fun i t inside found => ?_, fun i j t first second found again => ?_⟩
  · exact copying.slot_apart forking (copying.table inside found)
  · have one := copying.table first found
    rw [copying.table second again] at one
    cases one
    rfl

theorem space :
    Sound s.kernel.memory (spaceFrames child s.words) := by
  refine copying.sound.mono fun q mem => ?_
  rcases mem with rfl | ⟨i, inside, found⟩
  · refine .inl ?_
    rw [forking.childDir]
    nofun
  · refine .inr ?_
    rw [copying.table inside found]
    nofun

theorem child_addr : (s.frames.pages child).addr = (before.frames.pages child).addr := by
  rw [copying.pages _ (forking.old forking.childDir)]

end

section Copy

variable {g : Nat} {memory : Memory} (contents : Nat → BitVec 32)

section

variable (copying : Copying kind parent child before count slot s)
include copying

theorem write {next : Nat} {after : Nat → Nat → BitVec 32} (bounded : next ≤ userTables * numEntries)
    (upto : count ≤ next) (old : ∀ q ∉ freeSet before.frames, q ≠ child → after q = s.words q)
    (entries : ∀ i < userTables, after child i = s.words child i ∨
      (∃ t, slot t = some (.table i) ∧ after child i = entryOf (pageToPhys t) userFlags) ∧
        ∃ page < next, page / numEntries = i ∧ had parent before page = true)
    (blank : ∀ page < userTables * numEntries, next ≤ page ∨ source parent before.words page = none →
      Blank child s.words page → Blank child after page) :
    Copying kind parent child before next slot { s with words := after } := by
  refine { copying with
    bounded
    kept := fun q taken other => (old q taken other).trans (copying.kept q taken other)
    entries := fun i inside => ?_
    linked := fun i inside some => ?_
    blank := fun page inside nothing =>
      blank page inside nothing (copying.blank page inside (nothing.imp_left upto.trans)) }
  · rcases entries i inside with same | ⟨new, _⟩
    · dsimp only
      rw [same]
      exact copying.entries i inside
    · exact .inr new
  · rcases entries i inside with same | ⟨_, page⟩
    · dsimp only at some
      rw [same] at some
      obtain ⟨page, earlier, under⟩ := copying.linked i inside some
      exact ⟨page, earlier.trans_le upto, under⟩
    · exact page

section

variable (granted : Granted g 1 s.kernel.memory memory)
include granted

theorem unused {x : Slot} (known : slot q = some x) : q ≠ g := by
  rintro rfl
  exact (copying.held known).taken (granted.free (mem_run_one.mpr rfl))

theorem old_apart (taken : q ∉ freeSet before.frames) : q ≠ g := by
  rintro rfl
  exact taken (copying.fewer (granted.free (mem_run_one.mpr rfl)))

theorem grant (x : Slot) :
    Copying kind parent child before count (update slot g (some x)) { s with kernel.memory := memory } := by
  refine { copying with
    sound := (copying.sound.grant granted).mono fun q mem => ?_
    pages := fun q taken =>
      (granted.kept q fun inside => taken (copying.fewer inside)).trans (copying.pages q taken)
    fewer := fun q mem => ?_
    fresh := fun q y here => ?_
    entries := fun i inside =>
      (copying.entries i inside).imp_right fun ⟨t, table, entry⟩ => ⟨t, ?_, entry⟩ }
  · by_cases eq : q = g
    · exact .inr (mem_run_one.mpr eq)
    · rw [Set.mem_ofPred_eq, update_of_ne eq] at mem
      exact .inl mem
  · have smaller : q ∈ freeSet memory.frames := mem
    rw [granted.shrunk] at smaller
    exact copying.fewer smaller.1
  · by_cases eq : q = g
    · exact eq ▸ copying.fewer (granted.free (mem_run_one.mpr rfl))
    · rw [update_of_ne eq] at here
      exact copying.fresh q y here
  · rw [update_of_ne (copying.unused granted table), table]

end

variable (forking : Forking kind parent child before) (granted : Granted g 1 s.kernel.memory memory)
include forking granted

theorem copy_pageWord (below : page < userTables * numEntries) :
    pageWord child (update s.words g contents) page = pageWord child s.words page := by
  have apart : child ≠ g := copying.old_apart granted (forking.old forking.childDir)
  refine pageWord_same (update_of_ne apart ..) fun t found => update_of_ne ?_ ..
  exact copying.unused granted (copying.table (page_table below) found)

theorem copy :
    Copying kind parent child before count (update slot g (some (.page count)))
      { s with kernel.memory := memory, words := update s.words g contents } := by
  have apart : child ≠ g := copying.old_apart granted (forking.old forking.childDir)
  refine (copying.grant granted (.page count)).write copying.bounded le_rfl
    (fun q taken _ => update_of_ne (copying.old_apart granted taken) ..) (fun i _ => .inl ?_) fun page below _ blank => ?_
  · rw [update_of_ne apart]
  · rw [Blank, copying.copy_pageWord _ forking granted below]
    exact blank

theorem copy_intact (intact : Intact parent child before count slot s) :
    Intact parent child before count (update slot g (some (.page count)))
      { s with kernel.memory := memory, words := update s.words g contents } := by
  intro page f below here
  obtain ⟨copy, known, word, same⟩ := intact page f below here
  have other := copying.unused granted known
  refine ⟨copy, ?_, ?_, ?_⟩
  · rw [update_of_ne other, known]
  · rw [copying.copy_pageWord _ forking granted (below.trans_le copying.bounded), word]
  · dsimp only
    rw [update_of_ne other, same]

end

end Copy

end Copying

structure Entered (child count : Nat) (slot more : Nat → Option Slot) (s s' : Store) : Prop where
  elsewhere : ∀ page, page < userTables * numEntries → page ≠ count →
    pageWord child s'.words page = pageWord child s.words page ∨
      pageWord child s.words page = none ∧ pageWord child s'.words page = some 0
  slots : ∀ q x, slot q = some x → more q = some x
  copies : ∀ q page, slot q = some (.page page) → s'.words q = s.words q

inductive Entry (child count : Nat) (word : BitVec 32) (s s' : Store) : Prop
  | present (found : points (s.words child (count / numEntries)) ≠ none) (same : s'.kernel.memory = s.kernel.memory)
      (here : pageWord child s'.words count = some word)
  | table {t : Nat} (missing : points (s.words child (count / numEntries)) = none)
      (taken : allocate .table s.kernel.memory = .ok (s'.kernel.memory, t)) (nonzero : t ≠ 0)
      (here : pageWord child s'.words count = some word)
  | lost (missing : points (s.words child (count / numEntries)) = none)
      (taken : allocate .table s.kernel.memory = .ok (s'.kernel.memory, 0))
      (here : pageWord child s'.words count = none)

theorem Entered.blank (entered : Entered child count slot more s s') (below : page < userTables * numEntries)
    (other : page ≠ count) (blank : Blank child s.words page) :
    Blank child s'.words page := by
  rcases entered.elsewhere page below other with eq | ⟨_, zero⟩
  · rw [Blank, eq]
    exact blank
  · exact .inr zero

theorem Entered.intact (entered : Entered child count slot more s s') (bounded : count ≤ userTables * numEntries)
    {f : Nat} (known : slot g = some (.page count)) (here : source parent before.words count = some f)
    (contents : s.words g = before.words f)
    (word : pageWord child s'.words count = some (entryOf (pageToPhys g) userFlags))
    (intact : Intact parent child before count slot s) : Intact parent child before (count + 1) more s' := by
  intro page f' upto found
  by_cases last : page = count
  · subst last
    rw [here] at found
    cases found
    exact ⟨g, entered.slots g _ known, word, (entered.copies g _ known).trans contents⟩
  · obtain ⟨copy, placed, entry, same⟩ := intact page f' (by omega) found
    refine ⟨copy, entered.slots copy _ placed, ?_, (entered.copies copy _ placed).trans same⟩
    rcases entered.elsewhere page (by omega) last with eq | ⟨missing, _⟩
    · rw [eq, entry]
    · rw [entry] at missing
      contradiction

/-- A table in the frame 0 is not found again. -/
theorem pageWord_lost (directory : Directory points (· < userTables) child s.words) (apart : child ≠ 0)
    (missing : points (s.words child i) = none) (below : page < userTables * numEntries) (j : Nat) (word : BitVec 32) :
    pageWord child (withTable s.words child 0 i j (entryOf (pageToPhys 0) userFlags) 0 word) page =
      pageWord child s.words page := by
  have zero : points (entryOf (pageToPhys 0) userFlags) = none := by
    rw [points_none, frameOf_entryOf (pageToPhys_lt 0), pageToPhys_page (by decide)]
  rw [pageWord, pageWord, lookupWord, lookupWord, Directory.withTable_dir apart.symm]
  by_cases here : page / numEntries = i
  · rw [if_pos here, here, zero, missing, map_none, map_none]
  · rw [if_neg here]
    cases found : points (s.words child (page / numEntries)) with
    | none => rfl
    | some t =>
      have other : t ≠ child := directory.apart _ t (page_table below) found
      rw [map_some, map_some, Directory.withTable_other other (points_some.mp found).2]

namespace Copying

section

variable (copying : Copying kind parent child before count slot s)
include copying

theorem map (forking : Forking kind parent child before) (below : count < userTables * numEntries)
    (here : had parent before count = true)
    (step : UserMapped child (count / numEntries) (count % numEntries) phys s s') :
    ∃ more, Copying kind parent child before (count + 1) more s' ∧ Entered child count slot more s s' ∧
      Entry child count (entryOf phys userFlags) s s' := by
  have space := copying.space forking
  have directory := copying.directory forking
  have passed : ∀ {page}, count + 1 ≤ page ∨ source parent before.words page = none → page ≠ count := by
    rintro _ (past | none) rfl
    · omega
    · rw [had, none] at here
      contradiction
  cases step with
  | @present t found =>
    have table := copying.table (page_table below) found
    have apart := copying.slot_apart forking table
    have updated := updated_present space directory below found (entryOf phys userFlags)
    have entered : Entered child count slot slot s
        { s with words := putWord s.words t (count % numEntries) (entryOf phys userFlags) } := by
      refine ⟨updated.elsewhere, fun _ _ known => known, fun q page placed => putWord_elsewhere ?_⟩
      rintro rfl
      rw [table] at placed
      cases placed
    refine ⟨slot, copying.write below (Nat.le_succ _) (fun q taken _ => putWord_elsewhere ?_) (fun i _ => .inl ?_)
      fun page inside nothing => entered.blank inside (passed nothing), entered,
      .present (by rw [found]; nofun) rfl updated.here⟩
    · rintro rfl
      exact taken (copying.fresh q _ table)
    · exact congrFun (putWord_elsewhere apart.symm) i
  | @absent t memory missing taken granted =>
    have apart : child ≠ t := copying.old_apart granted (forking.old forking.childDir)
    have slots : ∀ q x, slot q = some x → update slot t (some (.table (count / numEntries))) q = some x := by
      intro q x placed
      rw [update_of_ne (copying.unused granted placed), placed]
    have copies : ∀ q page, slot q = some (.page page) →
        withTable s.words _ t (count / numEntries) (count % numEntries) (entryOf (pageToPhys t) userFlags) 0
          (entryOf phys userFlags) q = s.words q :=
      fun q page placed =>
        Directory.withTable_other (copying.slot_apart forking placed) (copying.unused granted placed)
    have settled : Entered child count slot (update slot t (some (.table (count / numEntries)))) s
        { s with
          kernel.memory := memory
          words := withTable s.words child t (count / numEntries) (count % numEntries)
            (entryOf (pageToPhys t) userFlags) 0 (entryOf phys userFlags) } ∧
        Entry child count (entryOf phys userFlags) s { s with
          kernel.memory := memory
          words := withTable s.words child t (count / numEntries) (count % numEntries)
            (entryOf (pageToPhys t) userFlags) 0 (entryOf phys userFlags) } := by
      by_cases zero : t = 0
      · subst zero
        refine ⟨⟨fun page inside _ => .inl (pageWord_lost directory apart missing inside _ _), slots, copies⟩,
          .lost missing taken ?_⟩
        rw [pageWord_lost directory apart missing below, pageWord, lookupWord, missing, map_none]
      · have updated := updated_absent space directory below missing granted zero (entryOf phys userFlags)
        exact ⟨⟨updated.elsewhere, slots, copies⟩, .table missing taken zero updated.here⟩
    obtain ⟨entered, entry⟩ := settled
    refine ⟨_, (copying.grant granted _).write below (Nat.le_succ _)
      (fun q taken other => Directory.withTable_other other (copying.old_apart granted taken)) (fun i inside => ?_)
      fun page inside nothing => entered.blank inside (passed nothing), entered, entry⟩
    rw [Directory.withTable_dir apart.symm]
    split
    next eq =>
      exact .inr ⟨⟨t, by rw [eq, update_self], rfl⟩, count, Nat.lt_succ_self _, eq.symm, here⟩
    · exact .inl rfl

theorem skip (below : count < userTables * numEntries) : Copying kind parent child before (count + 1) slot s :=
  copying.write below (Nat.le_succ _) (fun _ _ _ => rfl) (fun _ _ => .inl rfl) fun _ _ _ blank => blank

theorem under_iff (intact : Intact parent child before count slot s) (below : count < userTables * numEntries) :
    (∃ earlier < count, earlier / numEntries = count / numEntries ∧ had parent before earlier = true) ↔
      points (s.words child (count / numEntries)) ≠ none := by
  constructor
  · rintro ⟨earlier, first, under, here⟩ missing
    obtain ⟨f, found⟩ := isSome_iff_exists.mp here
    obtain ⟨g, _, word, _⟩ := intact earlier f first found
    rw [pageWord, under, lookupWord, missing, map_none] at word
    contradiction
  · intro found
    refine copying.linked _ (page_table below) fun zero => found ?_
    rw [zero, points_zero]

end

end Copying

namespace Outcome

theorem skip (outcome : Outcome parent child before count slot s) (nothing : source parent before.words count = none) :
    Outcome parent child before (count + 1) slot s := by
  have none : had parent before count = false := by rw [had, nothing, isSome_none]
  cases outcome with
  | intact pages served fit =>
    refine .intact (fun page f upto here => pages page f ?_ here) ?_ fit
    · have ne : page ≠ count := by
        rintro rfl
        rw [nothing] at here
        contradiction
      omega
    · rw [requestsBelow_succ, requestsAt, none, if_neg Bool.false_ne_true, List.append_nil]
      exact served
  | lost below here missing unfit => exact .lost (Nat.lt_succ_of_lt below) here missing unfit

theorem next (outcome : Outcome parent child before count slot s)
    (copying : Copying kind parent child before count slot s) (forking : Forking kind parent child before)
    (below : count < userTables * numEntries) {f : Nat}
    (taken : allocate .page s.kernel.memory = .ok (memory, g)) (granted : Granted g 1 s.kernel.memory memory)
    (here : source parent before.words count = some f)
    (entered : Entered child count (update slot g (some (.page count))) more
      { s with kernel.memory := memory, words := update s.words g (before.words f) } s')
    (entry : Entry child count (entryOf (pageToPhys g) userFlags)
      { s with kernel.memory := memory, words := update s.words g (before.words f) } s') :
    Outcome parent child before (count + 1) more s' := by
  have has : had parent before count = true := by rw [had, here, isSome_some]
  have known : update slot g (some (.page count)) g = some (.page count) := update_self ..
  have same : update s.words g (before.words f) child = s.words child :=
    update_of_ne (copying.old_apart granted (forking.old forking.childDir)) ..
  cases outcome with
  | @lost page earlier there missing unfit =>
    have inside := earlier.trans below
    refine .lost (Nat.lt_succ_of_lt earlier) there (entered.blank inside (earlier.ne) ?_) unfit
    rw [Blank, copying.copy_pageWord _ forking granted inside]
    exact missing
  | @intact _ pages served fit =>
    have under := copying.under_iff pages below
    have kept := entered.intact copying.bounded known here (update_self ..)
    have first := served.next taken
    cases entry with
    | present found eq word =>
      dsimp only at found
      rw [same] at found
      dsimp only at eq
      rw [← requestsBelow_later has (under.mpr found), ← eq] at first
      exact .intact (kept word (copying.copy_intact _ forking granted pages)) first (by simpa using fit)
    | @table t missing next nonzero word =>
      dsimp only at missing
      rw [same] at missing
      have second := first.next next
      rw [← requestsBelow_first has fun table => under.mp table missing] at second
      exact .intact (kept word (copying.copy_intact _ forking granted pages)) second (by simpa [nonzero.symm] using fit)
    | lost missing next word =>
      dsimp only at missing
      rw [same] at missing
      have second := first.next next
      rw [← requestsBelow_first has fun table => under.mp table missing] at second
      refine .lost (Nat.lt_succ_self _) has (.inl word) ?_
      obtain ⟨rest, split⟩ := requestsBelow_split _ (Nat.succ_le_of_lt below)
      rw [split, second.answers_append]
      simp

end Outcome

variable {parentTask : ArchThreadData}

namespace Copying

variable {t : Nat}

theorem page_indices (inside : j < numEntries) :
    (i * numEntries + j) / numEntries = i ∧ (i * numEntries + j) % numEntries = j := by
  simp only [numEntries] at *
  omega

theorem page_below (first : i < userTables) (second : j < numEntries) :
    i * numEntries + j < userTables * numEntries := by
  simp only [userTables, numEntries, kernelNumTables] at *
  omega

variable (forking : Forking kind parent child before) (addr : task.dir = (before.frames.pages child).addr)
include forking addr

theorem turn_present (first : i < userTables) (second : j < numEntries)
    (copying : Copying kind parent child before (i * numEntries + j) slot s)
    (outcome : Outcome parent child before (i * numEntries + j) slot s) (table : kind t = some .table)
    (found : points (before.words parent i) = some t) (present : isPresent (before.words t j) = true) :
    (∃ s', copyEntry task i (s.frames.pages t).addr j s = .ok s' ∧
      Progress kind parent child before (i * numEntries + j + 1) s') ∨
      ∃ fault, copyEntry task i (s.frames.pages t).addr j s = .error fault ∧ Exhausted fault := by
  obtain ⟨dirIndex, tabIndex⟩ := page_indices second
  have below := page_below first second
  have words := copying.old_words forking table (by decide)
  have flags := entryGetFlags_backed copying.sound.room (copying.known table) second
  rw [words] at flags
  have set : (flagsOf (before.words t j)).toNat &&& mmuflagPresent ≠ 0 := of_decide_eq_true present
  have page : kind (frameOf (before.words t j)) = some .page := by
    rcases forking.typed.tables t j table second with zero | page
    · rw [zero, isPresent_zero] at present
      contradiction
    · exact page
  generalize frame : frameOf _ = f at page
  have here : source parent before.words (i * numEntries + j) = some f := by
    rw [source_eq_some]
    refine ⟨before.words t j, ?_, present, frame⟩
    rw [pageWord, dirIndex, tabIndex, lookupWord, found, map_some]
  have contents := copying.old_words forking page (by decide)
  cases taken : Mm.allocPages 1 allocCompound s.kernel.memory with
  | error fault =>
    exact .inr ⟨fault, copyEntry_fails flags set taken, allocPages_exhausted copying.sound (by decide) taken⟩
  | ok result =>
    obtain ⟨memory, g⟩ := result
    have granted := allocPages_granted copying.sound (by decide) taken
    have fresh : Backed memory g := granted.backed g (mem_run_one.mpr rfl)
    have copied := copying.copy (before.words f) forking granted
    have phys := entryGetPhys_backed (s := { s with kernel.memory := memory }) granted.room
      (granted.keeps (copying.known table)) second
    have moved := copyPage_backed (s := { s with kernel.memory := memory }) granted.room fresh
      (granted.keeps (copying.known page))
    have back := virtToPhys_backed
      (s := { s with kernel.memory := memory, words := update s.words g (before.words f) }) granted.room fresh
    have at_table : (memory.frames.pages t).addr = (s.frames.pages t).addr := granted.addr (copying.known table)
    dsimp only [Store.frames] at phys moved back at_table
    rw [words, frame, at_table] at phys
    rw [contents] at moved
    have ran : copyEntry task i (s.frames.pages t).addr j s = doUserMapPage task i j (pageToPhys g)
        { s with kernel.memory := memory, words := update s.words g (before.words f) } := by
      refine copyEntry_present flags set taken phys ?_ back
      rw [physToVirt_frame]
      exact moved
    have at_child : task.dir = (memory.frames.pages child).addr :=
      (addr.trans (copying.child_addr forking).symm).trans (granted.addr (copying.known forking.childDir)).symm
    have reaching : Reaching task child i { s with kernel.memory := memory, words := update s.words g (before.words f) } :=
      ⟨granted.room, copied.known forking.childDir, at_child, userTables_lt first, fun u linked =>
        copied.sound.backed u (.inr (by rw [copied.table first linked]; exact some_ne_none _))⟩
    rw [ran]
    rcases doUserMapPage_cases copied.sound reaching second _ with ⟨s', done, step⟩ | failed
    · have numbered : UserMapped child ((i * numEntries + j) / numEntries) ((i * numEntries + j) % numEntries)
          (pageToPhys g) { s with kernel.memory := memory, words := update s.words g (before.words f) } s' := by
        rw [dirIndex, tabIndex]
        exact step
      obtain ⟨more, next, entered, entry⟩ := copied.map forking below (by rw [had, here, isSome_some]) numbered
      exact .inl ⟨s', done, more, next, outcome.next copying forking below taken granted here entered entry⟩
    · exact .inr failed

theorem turn (first : i < userTables) (second : j < numEntries)
    (progress : Progress kind parent child before (i * numEntries + j) s)
    (found : points (before.words parent i) = some t) :
    (∃ s', copyEntry task i (before.frames.pages t).addr j s = .ok s' ∧
      Progress kind parent child before (i * numEntries + j + 1) s') ∨
      ∃ fault, copyEntry task i (before.frames.pages t).addr j s = .error fault ∧ Exhausted fault := by
  obtain ⟨slot, copying, outcome⟩ := progress
  obtain ⟨dirIndex, tabIndex⟩ := page_indices second
  have table := forking.typed.points_table forking.parentDir first found
  rw [← copying.pages t (forking.old table)]
  cases present : isPresent (before.words t j) with
  | true => exact turn_present forking addr first second copying outcome table found present
  | false =>
    have words := copying.old_words forking table nofun
    have flags := entryGetFlags_backed copying.sound.room (copying.known table) second
    rw [words] at flags
    have nothing : source parent before.words (i * numEntries + j) = none := by
      rw [source_eq_none, pageWord, dirIndex, tabIndex, lookupWord, found, map_some, elim_some, present]
    have clear : (flagsOf (before.words t j)).toNat &&& mmuflagPresent = 0 :=
      Decidable.not_not.mp (of_decide_eq_false present)
    exact .inl ⟨s, copyEntry_absent flags clear, slot, copying.skip (page_below first second), outcome.skip nothing⟩

theorem turnTable (at_parent : parentTask.dir = (before.frames.pages parent).addr)
    (first : i < userTables) (progress : Progress kind parent child before (i * numEntries) s) :
    (∃ s', copyTable task parentTask i s = .ok s' ∧ Progress kind parent child before ((i + 1) * numEntries) s') ∨
      ∃ fault, copyTable task parentTask i s = .error fault ∧ Exhausted fault := by
  obtain ⟨slot, copying, outcome⟩ := progress
  have words : s.words parent = before.words parent := copying.kept parent (forking.old forking.parentDir) forking.apart
  have now : parentTask.dir = (s.frames.pages parent).addr := by
    rw [at_parent, copying.pages _ (forking.old forking.parentDir)]
  have backed := copying.known forking.parentDir
  have inside := userTables_lt first
  have whole : (i + 1) * numEntries = i * numEntries + numEntries := Nat.succ_mul ..
  cases found : points (before.words parent i) with
  | none =>
    have null : dirGetTab parentTask.dir i s = .ok 0 := by
      rw [now]
      exact dirGetTab_absent copying.sound.room backed inside (by rw [words, found])
    have skipped : ∀ j ≤ numEntries, Progress kind parent child before (i * numEntries + j) s := by
      intro j
      induction j with
      | zero =>
        intro _
        rw [add_zero]
        exact ⟨slot, copying, outcome⟩
      | succ j ih =>
        intro upto
        have below : j < numEntries := Nat.lt_of_succ_le upto
        obtain ⟨slot, copying, outcome⟩ := ih (below.le)
        rw [← add_assoc]
        refine ⟨slot, copying.skip (page_below first below), outcome.skip ?_⟩
        rw [source_eq_none, pageWord, (page_indices below).1, lookupWord, found, map_none, elim_none]
    have all := skipped numEntries le_rfl
    rw [← whole] at all
    refine .inl ⟨s, ?_, all⟩
    rw [copyTable, null, ok_bind, if_pos rfl]
    rfl
  | some t =>
    have table := forking.typed.points_table forking.parentDir first found
    have tab : dirGetTab parentTask.dir i s = .ok (before.frames.pages t).addr := by
      rw [now, ← copying.pages t (forking.old table)]
      exact dirGetTab_present copying.sound.room backed inside (by rw [words, found])
    have some : ¬ (before.frames.pages t).addr = 0 := (forking.typed.held table).addr_ne_zero
    rw [copyTable, tab, ok_bind, if_neg some, whole]
    refine forLoop_cases (fun j next => Progress kind parent child before (i * numEntries + j) next) Exhausted ?_ ?_
    · rw [add_zero]
      exact ⟨slot, copying, outcome⟩
    · intro j next below reached
      have step := turn forking addr first below reached found
      rwa [add_assoc] at step

end Copying

theorem Forking.start (forking : Forking kind parent child before)
    (blank : ∀ i < userTables, before.words child i = 0) : Progress kind parent child before 0 before := by
  refine ⟨fun _ => none, ⟨Nat.zero_le _, forking.typed.sound.mono fun q mem => ?_, fun _ _ => rfl,
    fun _ mem => mem, nofun, fun _ _ _ => rfl, fun i inside => .inl (blank i inside),
    fun i inside some => absurd (blank i inside) some, fun page below _ => .inl ?_⟩, .intact nofun .none nofun⟩
  · exact mem.elim (fun known => known) fun placed => absurd rfl placed
  · rw [pageWord, lookupWord, blank _ (page_table below), points_zero, map_none]

theorem copyMem_cases (forking : Forking kind parent child before) {childTask : ArchThreadData}
    (at_child : childTask.dir = (before.frames.pages child).addr)
    (at_parent : parentTask.dir = (before.frames.pages parent).addr)
    (blank : ∀ i < userTables, before.words child i = 0) :
    (∃ after, copyMem childTask parentTask before = .ok after ∧
      Progress kind parent child before (userTables * numEntries) after) ∨
      ∃ fault, copyMem childTask parentTask before = .error fault ∧ Exhausted fault := by
  refine forLoop_cases (fun i next => Progress kind parent child before (i * numEntries) next) Exhausted ?_ ?_
  · rw [zero_mul]
    exact forking.start blank
  · intro i next below reached
    exact Copying.turnTable forking at_child at_parent below reached

end Loops

end KOs.Arch.Paging

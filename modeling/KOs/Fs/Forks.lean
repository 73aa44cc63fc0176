import KOs.Fs.Contexts

namespace KOs.Fs

open KOs.Common KOs.Data List Option Ufd

/-! What a fork does to the count of a file.

The loops of `ufd_context_build` and `ufd_context_dup` stop one slot before the end
of the table, which keeps what was in its page.
-/

def lastSlot : Nat := maxNumFds - 1

def NoFiles (table : List Ufd) : Prop := ∀ i, i < maxNumFds → (table[i]?).bind Ufd.gfd = none

/-- The table is copied, and every file has been counted once for each of its slots. -/
def Copies (g g' : Gfdt) (src dst : List Ufd) : Prop :=
  (∀ i, i < maxNumFds → dst[i]? = src[i]?) ∧ ∀ f, g'.refs f = g.refs f + held (src.map Ufd.gfd) f

/-- The last slot holds no file, and the new page has the same in it. -/
def LastFree (src page : List Ufd) : Prop :=
  (src[lastSlot]?).bind Ufd.gfd = none ∧ page[lastSlot]? = src[lastSlot]?

variable {src page : List Ufd} {g : Gfdt}

theorem build_fold (page : List Ufd) (n i : Nat) :
    ((List.range n).foldl (fun table i => table.set i { flags := 0, gfd := none }) page)[i]? =
      if i < n then page[i]?.map (fun _ => { flags := 0, gfd := none }) else page[i]? := by
  induction n with
  | zero => rfl
  | succ n ih =>
    rw [range_succ, foldl_append, foldl_cons, foldl_nil, getElem?_set', ih]
    by_cases same : n = i
    · subst same
      rw [if_pos rfl, if_neg (lt_irrefl n), if_pos (Nat.lt_succ_self n)]
      rfl
    · rw [if_neg same]
      by_cases below : i < n
      · rw [if_pos below, if_pos (by omega)]
      · rw [if_neg below, if_neg (by omega)]

theorem build_getElem? (page : List Ufd) (i : Nat) :
    (ufdContextBuild page).table[i]? =
      if i < lastSlot then page[i]?.map (fun _ => { flags := 0, gfd := none }) else page[i]? := by
  unfold ufdContextBuild lastSlot
  rw [build_fold]

theorem build_noFiles_iff (page : List Ufd) :
    NoFiles (ufdContextBuild page).table ↔ (page[lastSlot]?).bind Ufd.gfd = none := by
  have size : lastSlot < maxNumFds := by decide
  constructor
  · intro empty
    have last := empty lastSlot size
    rwa [build_getElem?, if_neg (lt_irrefl _)] at last
  · intro last i _
    rw [build_getElem?]
    split
    · cases page[i]? with
      | none | some => rfl
    next beyond =>
      have atLast : i = lastSlot := by
        simp only [lastSlot] at beyond ⊢
        omega
      rw [atLast]
      exact last

theorem ufdtGet_eq (g : Gfdt) (length : src.length = maxNumFds) (i : Nat) :
    ufdtGet { gfdt := g, table := src } i = (src[i]?).bind Ufd.gfd := by
  rw [ufdtGet]
  cases present : ufdtIsPresent { gfdt := g, table := src } i with
  | true => rfl
  | false =>
    cases found : src[i]? with
    | none => rfl
    | some =>
      have inside : i < maxNumFds := length ▸ (List.getElem?_eq_some_iff.mp found).1
      simp only [ufdtIsPresent, inside, found, decide_true, Bool.true_and] at present
      exact (not_isSome_iff_eq_none.mp (by rw [present]; decide)).symm

structure Counts (g g' : Gfdt) : Prop where
  allocated : g'.allocated = g.allocated
  obtained : g'.obtained = g.obtained
  closed : g'.closed = g.closed

theorem dupTurn_gfdt (g : Gfdt) (length : src.length = maxNumFds) (table : List Ufd) (i : Nat) :
    (dupTurn src (g, table) i).1 = match (src[i]?).bind Ufd.gfd with
      | some gfd => gfdtGet g gfd
      | none => g := by
  cases found : (src[i]?).bind gfd with
  | none | some => simp only [dupTurn, ufdtGet_eq g length, found]

theorem dupTurn_counts (g : Gfdt) (length : src.length = maxNumFds) (table : List Ufd) (i : Nat) :
    Counts g (dupTurn src (g, table) i).1 := by
  rw [dupTurn_gfdt g length]
  split
  · exact ⟨rfl, rfl, rfl⟩
  · exact ⟨rfl, rfl, rfl⟩

theorem dupTurn_refs (length : src.length = maxNumFds) (table : List Ufd) (i f : Nat)
    (small : (src[i]?).bind Ufd.gfd = some f → g.refs f + 1 < wordSize) :
    (dupTurn src (g, table) i).1.refs f = g.refs f + if (src.map Ufd.gfd)[i]? = some (some f) then 1 else 0 := by
  rw [dupTurn_gfdt g length, getElem?_map]
  cases found : src[i]? with
  | none => rfl
  | some slot =>
    cases holder : slot.gfd with
    | none => simp [holder]
    | some e =>
      simp only [found, bind_some, holder] at small
      by_cases same : e = f
      · subst same
        simp [holder, gfdtGet, Gfdt.setRefs, wadd_eq (small rfl)]
      · simp [holder, same, gfdtGet, Gfdt.setRefs, Ne.symm same]

theorem dup_fold (length : src.length = maxNumFds) (pageLength : page.length = maxNumFds)
    (small : ∀ f, some f ∈ src.map Ufd.gfd → g.refs f + maxNumFds < wordSize) {n : Nat} (within : n ≤ maxNumFds) :
    ∃ g' table, (List.range n).foldl (dupTurn src) (g, page) = (g', table) ∧
      (∀ i, table[i]? = if i < n then src[i]? else page[i]?) ∧
      (∀ f, g'.refs f = g.refs f + held ((src.map Ufd.gfd).take n) f) ∧ Counts g g' := by
  induction n with
  | zero =>
    refine ⟨g, page, rfl, fun _ => rfl, ?_, rfl, rfl, rfl⟩
    intro f
    rfl
  | succ n ih =>
    obtain ⟨g', table, folded, copied, counted, kept⟩ := ih (by omega)
    have inside : n < src.length := by omega
    rw [range_succ, foldl_append, folded, foldl_cons, foldl_nil]
    refine ⟨(dupTurn src (g', table) n).1, table.set n (src.getD n { flags := 0, gfd := none }), rfl, ?_, ?_, ?_⟩
    · intro i
      rw [getElem?_set', copied]
      by_cases same : n = i
      · subst same
        have there : n < page.length := by omega
        simp [getElem?_eq_getElem inside, getElem?_eq_getElem there]
      · rw [if_neg same]
        by_cases below : i < n
        · rw [if_pos below, if_pos (by omega)]
        · rw [if_neg below, if_neg (by omega)]
    · intro f
      rw [dupTurn_refs length, counted, held_take_succ, add_assoc]
      intro holder
      have mem : some f ∈ src.map gfd := by
        obtain ⟨slot, found, holds⟩ := bind_eq_some_iff.mp holder
        exact mem_map.mpr ⟨slot, mem_of_getElem? found, holds⟩
      have room := small f mem
      have bound := held_le ((src.map gfd).take n) f
      rw [length_take] at bound
      rw [counted]
      omega
    · have turn := dupTurn_counts g' length table n
      exact ⟨turn.allocated.trans kept.allocated, turn.obtained.trans kept.obtained, turn.closed.trans kept.closed⟩

theorem held_lastSlot (length : src.length = maxNumFds) (f : Nat) :
    held (src.map Ufd.gfd) f =
      held ((src.map Ufd.gfd).take lastSlot) f + if (src[lastSlot]?).bind Ufd.gfd = some f then 1 else 0 := by
  have whole : (src.map gfd).take (lastSlot + 1) = src.map gfd := by
    refine take_of_length_le ?_
    rw [length_map, length]
    decide
  have split := held_take_succ (src.map gfd) lastSlot f
  rw [whole] at split
  rw [split, getElem?_map]
  cases src[lastSlot]? with
  | none => rfl
  | some => simp

section

variable (ufd : UfdContext) (length : ufd.table.length = maxNumFds) (pageLength : page.length = maxNumFds)
  (small : ∀ f, some f ∈ ufd.table.map Ufd.gfd → g.refs f + maxNumFds < wordSize)
include ufd length pageLength small

theorem dup_result :
    (∀ i, (ufdContextDup g ufd page).2.table[i]? = if i < lastSlot then ufd.table[i]? else page[i]?) ∧
      (∀ f, (ufdContextDup g ufd page).1.refs f = g.refs f + held ((ufd.table.map Ufd.gfd).take lastSlot) f) ∧
      Counts g (ufdContextDup g ufd page).1 := by
  obtain ⟨g', table, folded, result⟩ := dup_fold length pageLength small (n := lastSlot) (by decide)
  have dup : ufdContextDup g ufd page = (g', { refs := 1, table }) := by
    simp only [ufdContextDup, show _ - 1 = lastSlot from rfl, folded]
  rw [dup]
  exact result

theorem copies_iff :
    Copies g (ufdContextDup g ufd page).1 ufd.table (ufdContextDup g ufd page).2.table ↔ LastFree ufd.table page := by
  obtain ⟨copied, counted, _⟩ := dup_result ufd length pageLength small
  constructor
  · intro copies
    refine ⟨?_, ?_⟩
    · cases last : (ufd.table[lastSlot]?).bind gfd with
      | none => rfl
      | some f =>
        have raised := copies.2 f
        rw [counted, held_lastSlot length, if_pos last] at raised
        omega
    · have same := copies.1 lastSlot (by decide)
      rwa [copied, if_neg (lt_irrefl _)] at same
  · intro free
    refine ⟨?_, ?_⟩
    · intro i _
      rw [copied]
      split
      · rfl
      next beyond =>
        have atLast : i = lastSlot := by
          simp only [lastSlot] at beyond ⊢
          omega
        rw [atLast]
        exact free.2
    · intro f
      rw [counted, held_lastSlot length, free.1, if_neg (by simp), add_zero]

theorem dup_copied (free : LastFree ufd.table page) : (ufdContextDup g ufd page).2.table = ufd.table := by
  have copies := (copies_iff ufd length pageLength small).mpr free
  obtain ⟨copied, _⟩ := dup_result ufd length pageLength small
  apply ext_getElem?
  intro i
  by_cases inside : i < maxNumFds
  · exact copies.1 i inside
  · have beyond : ¬ i < lastSlot := by
      simp only [lastSlot]
      omega
    rw [copied, if_neg beyond, getElem?_eq_none (by omega), getElem?_eq_none (by omega)]

end

variable {s : Contexts} {ufd : UfdContext}

namespace Contexts

def tableSlots : Option UfdContext → List (Option Nat)
  | some ufd => ufd.table.map Ufd.gfd
  | none => []

/-- The slots of every table that has not been freed. -/
def slots (s : Contexts) : List (Option Nat) := s.ufds.flatMap tableSlots

structure Sound (s : Contexts) : Prop where
  tables : ∀ ufd, some ufd ∈ s.ufds → ufd.table.length = maxNumFds
  counted : Counted s.gfdt.allocated s.gfdt.refs s.slots
  closed : ∀ f, s.gfdt.closed.count f + (if s.gfdt.allocated f = true then 1 else 0) = s.gfdt.obtained f
  number : s.ufds.length ≤ maxTables

variable {s' : Contexts} {t u : Nat}

theorem obtainUfds_found (obtained : s.obtainUfds t = .ok (u, ufd)) : s.ufds[u]? = some (some ufd) := by
  obtain ⟨thread, _, ran⟩ := bind_returns obtained
  split at ran
  · split at ran
    next found =>
      cases ran
      exact found
    · contradiction
  · contradiction

theorem slots_split (found : s.ufds[u]? = some (some ufd)) :
    ∃ others, s.slots.Perm (ufd.table.map Ufd.gfd ++ others) ∧
      ∀ ufd' : UfdContext, ((s.ufds.set u (some ufd')).flatMap tableSlots).Perm (ufd'.table.map Ufd.gfd ++ others) := by
  obtain ⟨inside, here⟩ := List.getElem?_eq_some_iff.mp found
  have splits : ∀ ufd' : UfdContext, ((s.ufds.set u (some ufd')).flatMap tableSlots).Perm
      (ufd'.table.map gfd ++ ((s.ufds.take u).flatMap tableSlots ++ (s.ufds.drop (u + 1)).flatMap tableSlots)) := by
    intro ufd'
    rw [List.set_eq_take_append_cons_drop, if_pos inside, List.flatMap_append, List.flatMap_cons]
    exact List.perm_append_comm_assoc _ _ _
  refine ⟨_, ?_, splits⟩
  have same : s.ufds.set u (some ufd) = s.ufds := by rw [← here, List.set_getElem_self]
  have whole := splits ufd
  rwa [same] at whole

theorem flatMap_length {ufds : List (Option UfdContext)}
    (tables : ∀ ufd, some ufd ∈ ufds → ufd.table.length = maxNumFds) :
    (ufds.flatMap tableSlots).length ≤ ufds.length * maxNumFds := by
  induction ufds with
  | nil => exact Nat.zero_le _
  | cons first _ ih =>
    have here : (tableSlots first).length ≤ maxNumFds := by
      cases first with
      | none => exact Nat.zero_le _
      | some ufd =>
        rw [tableSlots, length_map]
        exact (tables ufd mem_cons_self).le
    have later := ih fun ufd mem => tables ufd (mem_cons_of_mem _ mem)
    rw [flatMap_cons, length_append, length_cons, Nat.succ_mul]
    omega

theorem tables_fit : maxTables * maxNumFds + maxNumFds + 1 < wordSize := by decide

namespace Sound

theorem slots_length (sound : s.Sound) : s.slots.length ≤ maxTables * maxNumFds :=
  (flatMap_length sound.tables).trans (Nat.mul_le_mul_right _ sound.number)

theorem refs_small (sound : s.Sound) {f : Nat} (mem : some f ∈ s.slots) :
    s.gfdt.refs f + maxNumFds < wordSize := by
  have bound := held_le s.slots f
  have length := sound.slots_length
  have fit := tables_fit
  rw [sound.counted.refs f (sound.counted.alive f mem)]
  omega

theorem mem_slots (found : s.ufds[u]? = some (some ufd)) {f : Nat} (mem : some f ∈ ufd.table.map Ufd.gfd) :
    some f ∈ s.slots :=
  mem_flatMap.mpr ⟨some ufd, mem_of_getElem? found, mem⟩

theorem call (sound : s.Sound) {event : FdEvent} (enabled : contexts.enabled (.call t event) s = true)
    (ran : s.call t event = .ok s') : s'.Sound := by
  obtain ⟨⟨u, ufd⟩, obtained, ran⟩ := bind_returns ran
  obtain ⟨after, performed, ran⟩ := bind_returns ran
  cases ran
  have can : descriptors.enabled event { gfdt := s.gfdt, table := ufd.table } = true := by
    simpa only [contexts, obtained] using enabled
  have found := obtainUfds_found obtained
  obtain ⟨others, whole, replaced⟩ := slots_split found
  have total := whole.length_eq
  have length := sound.slots_length
  have fit := tables_fit
  have own := sound.tables ufd (mem_of_getElem? found)
  rw [length_append, length_map, own] at total
  have among : Descriptors.Among others { gfdt := s.gfdt, table := ufd.table } :=
    ⟨own, sound.counted.perm whole, sound.closed, by omega⟩
  obtain ⟨after', performed', among', _⟩ := among.step can
  rw [performed'] at performed
  cases performed
  refine ⟨?_, ?_, among'.closed, ?_⟩
  · intro other mem
    rcases mem_or_eq_of_mem_set mem with older | new
    · exact sound.tables _ older
    · cases new
      exact among'.length
  · exact among'.counted.perm (replaced { ufd with table := after.table }).symm
  · rw [length_set]
    exact sound.number

theorem fork (sound : s.Sound) (enabled : contexts.enabled (.fork t page) s = true)
    (free : ∀ u ufd, s.obtainUfds t = .ok (u, ufd) → LastFree ufd.table page)
    (ran : s.threadFork t page = .ok s') : s'.Sound := by
  obtain ⟨⟨u, ufd⟩, obtained, ran⟩ := bind_returns ran
  obtain ⟨⟨v, fs⟩, _, ran⟩ := bind_returns ran
  simp only [contexts, Bool.and_eq_true, decide_eq_true_eq] at enabled
  obtain ⟨⟨_, pageLength⟩, room⟩ := enabled
  have found := obtainUfds_found obtained
  have own := sound.tables ufd (mem_of_getElem? found)
  have small : ∀ f, some f ∈ ufd.table.map gfd → s.gfdt.refs f + maxNumFds < wordSize :=
    fun f mem => sound.refs_small (mem_slots found mem)
  have table := dup_copied ufd own pageLength small (free u ufd obtained)
  have copies := (copies_iff ufd own pageLength small).mpr (free u ufd obtained)
  obtain ⟨_, _, kept⟩ := dup_result ufd own pageLength small
  generalize ufdContextDup s.gfdt ufd page = copied at ran table copies kept
  cases ran
  have slots' : (s.ufds ++ [some copied.2]).flatMap tableSlots = s.slots ++ ufd.table.map gfd := by
    rw [flatMap_append, flatMap_cons, flatMap_nil, append_nil, slots, tableSlots, table]
  refine ⟨?_, ?_, ?_, ?_⟩
  · intro other mem
    rcases mem_append.mp mem with older | new
    · exact sound.tables _ older
    · cases mem_singleton.mp new
      rw [table]
      exact own
  · simp only [slots, kept.allocated]
    rw [slots']
    exact sound.counted.append (fun f mem => sound.counted.alive f (mem_slots found mem)) copies.2
  · simp only [kept.allocated, kept.closed, kept.obtained]
    exact sound.closed
  · rw [length_append]
    exact room

end Sound

end Contexts

/-- Calls and forks; every fork finds the last slot free. -/
def SparesLast (s : Contexts) : ContextEvent → Prop
  | .call _ _ => True
  | .fork t page => ∀ u ufd, s.obtainUfds t = .ok (u, ufd) → LastFree ufd.table page
  | .exit _ => False

theorem build_length (page : List Ufd) : (ufdContextBuild page).table.length = page.length := by
  have folds : ∀ n, ((range n).foldl (fun table i => table.set i { flags := 0, gfd := none }) page).length =
      page.length := by
    intro n
    induction n with
    | zero => rfl
    | succ _ ih =>
      rw [range_succ, foldl_append, foldl_cons, foldl_nil, length_set, ih]
  unfold ufdContextBuild
  rw [folds]

theorem NoFiles.not_mem {table : List Ufd} (empty : NoFiles table) (length : table.length = maxNumFds) (f : Nat) :
    some f ∉ table.map Ufd.gfd := by
  intro mem
  obtain ⟨ufd, inTable, holder⟩ := mem_map.mp mem
  obtain ⟨i, inside, here⟩ := mem_iff_getElem.mp inTable
  have none := empty i (by omega)
  rw [getElem?_eq_getElem inside, here, bind_some, holder] at none
  contradiction

theorem single_sound (length : ufd.table.length = maxNumFds) (empty : NoFiles ufd.table)
    (fss : List (Option FsContext)) (threads : List ThreadRefs) :
    Contexts.Sound { gfdt := emptyDescriptors.gfdt, ufds := [some ufd], fss, threads } := by
  refine ⟨?_, ⟨?_, ?_⟩, ?_, ?_⟩
  · intro _ mem
    cases mem_singleton.mp mem
    exact length
  · intro f _
    contradiction
  · intro f mem
    obtain ⟨slot, there, holds⟩ := mem_flatMap.mp mem
    cases mem_singleton.mp there
    exact absurd holds (empty.not_mem length f)
  · intro f
    rfl
  · exact show 1 ≤ maxTables by decide

theorem contexts_sound {root : Path} (length : page.length = maxNumFds)
    (cleared : (page[lastSlot]?).bind Ufd.gfd = none)
    (reached : contexts.Reaches SparesLast (rootTaskInit root page) s) : s.Sound := by
  refine reached.preserves Contexts.Sound
    (single_sound ((build_length page).trans length) ((build_noFiles_iff page).mpr cleared) _ _) ?_
  intro before event after soundBefore allowed enabled ran
  cases event with
  | call => exact soundBefore.call enabled ran
  | fork => exact soundBefore.fork enabled allowed ran
  | exit => contradiction

theorem Contexts.Sound.copies_iff {t u : Nat} (sound : s.Sound)
    (obtained : s.obtainUfds t = .ok (u, ufd)) (pageLength : page.length = maxNumFds) :
    Copies s.gfdt (ufdContextDup s.gfdt ufd page).1 ufd.table (ufdContextDup s.gfdt ufd page).2.table ↔
      LastFree ufd.table page := by
  have found := obtainUfds_found obtained
  exact Fs.copies_iff ufd (sound.tables ufd (mem_of_getElem? found)) pageLength
    fun f mem => sound.refs_small (mem_slots found mem)

/-- In every run of calls and forks that find the last slot free, a file is counted once for
each slot of each table that holds it; and in every state of such a run a fork copies the whole
table exactly when the last slot is free, as a new table is empty exactly when its page has
nothing there. -/
theorem fork_copies_table {root : Path} {page : List Ufd} {s : Contexts} (length : page.length = maxNumFds)
    (cleared : (page[lastSlot]?).bind Ufd.gfd = none)
    (reached : contexts.Reaches SparesLast (rootTaskInit root page) s) :
    (∀ f, s.gfdt.allocated f = true → s.gfdt.refs f = held s.slots f) ∧
    (∀ t u ufd (newPage : List Ufd), s.obtainUfds t = .ok (u, ufd) → newPage.length = maxNumFds →
      (Copies s.gfdt (ufdContextDup s.gfdt ufd newPage).1 ufd.table (ufdContextDup s.gfdt ufd newPage).2.table ↔
        LastFree ufd.table newPage)) ∧
    (∀ newPage : List Ufd, NoFiles (ufdContextBuild newPage).table ↔ (newPage[lastSlot]?).bind Ufd.gfd = none) := by
  have sound := contexts_sound length cleared reached
  refine ⟨sound.counted.refs, ?_, build_noFiles_iff⟩
  intro t u ufd newPage obtained newLength
  exact sound.copies_iff obtained newLength

def clearPage : List Ufd := List.replicate maxNumFds { flags := 0, gfd := none }

theorem clearPage_length : clearPage.length = maxNumFds := length_replicate

theorem clearPage_last : (clearPage[lastSlot]?).bind Ufd.gfd = none := by decide +kernel

theorem build_clearPage : ufdContextBuild clearPage = { refs := 1, table := clearPage } := by
  have table : (ufdContextBuild clearPage).table = clearPage := by
    refine ext_getElem? ?_
    intro i
    rw [build_getElem?, clearPage, getElem?_replicate]
    by_cases inside : i < maxNumFds
    · rw [if_pos inside, map_some, ite_self]
    · rw [if_neg inside, map_none, ite_self]
  unfold ufdContextBuild at table ⊢
  dsimp only at table
  rw [table]

def clearTask : Contexts where
  gfdt := emptyDescriptors.gfdt
  ufds := [some { refs := 1, table := clearPage }]
  fss := [some (fsContextBuild { mount := 0, dentry := 0 })]
  threads := [{ ufd := some 0, fs := some 0 }]

theorem clearTask_eq : rootTaskInit { mount := 0, dentry := 0 } clearPage = clearTask := by
  rw [rootTaskInit, build_clearPage, clearTask]

instance (src page : List Ufd) : Decidable (LastFree src page) := inferInstanceAs (Decidable (_ ∧ _))

instance (s : Contexts) : DecidablePred (SparesLast s)
  | .call .. => .isTrue trivial
  | .fork t page => decidable_of_iff (∀ obtained ∈ (s.obtainUfds t).toOption, LastFree obtained.2.table page)
      ⟨fun all _ _ here => all _ (by rw [here]; rfl), fun all _ here => all _ _ (toOption_returns here)⟩
  | .exit _ => .isFalse id

theorem fork_copies_table_two :
    ∃ s u ufd, contexts.Reaches SparesLast (rootTaskInit { mount := 0, dentry := 0 } clearPage) s ∧
      s.obtainUfds 0 = .ok (u, ufd) ∧ held s.slots 7 = 2 ∧ s.gfdt.refs 7 = held s.slots 7 ∧
      Copies s.gfdt (ufdContextDup s.gfdt ufd clearPage).1 ufd.table (ufdContextDup s.gfdt ufd clearPage).2.table := by
  obtain ⟨s, reached, allocated, two, ⟨u, ufd⟩, obtained, free⟩ : ∃ s, contexts.Reaches SparesLast clearTask s ∧
      s.gfdt.allocated 7 = true ∧ held s.slots 7 = 2 ∧
      ∃ obtained ∈ (s.obtainUfds 0).toOption, LastFree obtained.2.table clearPage :=
    Machine.run_exists [.call 0 (.opens 7), .call 0 (.dups 0)] (by decide +kernel)
  have here : s.obtainUfds 0 = .ok (u, ufd) := toOption_returns obtained
  rw [← clearTask_eq] at reached
  obtain ⟨refs, copies, _⟩ := fork_copies_table clearPage_length clearPage_last reached
  exact ⟨s, u, ufd, reached, here, two, refs 7 allocated,
    (copies 0 u ufd clearPage here clearPage_length).mpr free⟩

/-- A file in the last slot is not in the copy, and a new table has there what its page had. -/
theorem last_slot_not_copied :
    (∃ s u ufd, contexts.Reaches SparesLast (rootTaskInit { mount := 0, dentry := 0 } clearPage) s ∧
      s.obtainUfds 0 = .ok (u, ufd) ∧
      ¬ Copies s.gfdt (ufdContextDup s.gfdt ufd clearPage).1 ufd.table (ufdContextDup s.gfdt ufd clearPage).2.table) ∧
    ¬ NoFiles (ufdContextBuild (List.replicate maxNumFds { flags := 0, gfd := some 7 })).table := by
  refine ⟨?_, ?_⟩
  · obtain ⟨s, reached, ⟨u, ufd⟩, obtained, full⟩ : ∃ s, contexts.Reaches SparesLast clearTask s ∧
        ∃ obtained ∈ (s.obtainUfds 0).toOption, ¬ LastFree obtained.2.table clearPage :=
      Machine.run_exists [.call 0 (.opens 7), .call 0 (.dup2s 0 511)] (by decide +kernel)
    have here : s.obtainUfds 0 = .ok (u, ufd) := toOption_returns obtained
    rw [← clearTask_eq] at reached
    refine ⟨s, u, ufd, reached, here, ?_⟩
    rw [(contexts_sound clearPage_length clearPage_last reached).copies_iff here clearPage_length]
    exact full
  · rw [build_noFiles_iff]
    decide +kernel

end KOs.Fs

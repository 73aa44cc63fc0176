import KOs.Data.References
import KOs.Data.Transition
import KOs.Fs.Fd

namespace KOs.Fs

open KOs.Common KOs.Data List Descriptors

namespace Descriptors

def slots (s : Descriptors) : List (Option Nat) := s.table.map Ufd.gfd

structure Sound (s : Descriptors) : Prop where
  length : s.table.length = maxNumFds
  counted : Counted s.gfdt.allocated s.gfdt.refs s.slots
  closed : ∀ f, s.gfdt.closed.count f + (if s.gfdt.allocated f = true then 1 else 0) = s.gfdt.obtained f

/-- A file is closed in the step that takes its last descriptor away, and no other. -/
def Closes (before after : Descriptors) : Prop :=
  ∀ f, after.gfdt.closed.count f = before.gfdt.closed.count f +
    if 0 < held before.slots f ∧ held after.slots f = 0 then 1 else 0

end Descriptors

variable {s s' : Descriptors} {ufd f : Nat}

theorem slots_getElem? (s : Descriptors) (ufd : Nat) : s.slots[ufd]? = (s.table[ufd]?).map Ufd.gfd := by
  simp [slots]

section

variable (length : s.table.length = maxNumFds)
include length

theorem ufdtIsPresent_iff :
    ufdtIsPresent s ufd = true ↔ ∃ f, s.slots[ufd]? = some (some f) := by
  rw [slots_getElem?, ufdtIsPresent]
  cases found : s.table[ufd]? with
  | none => simp
  | some =>
    have inside : ufd < maxNumFds := length ▸ (List.getElem?_eq_some_iff.mp found).1
    simp [inside, Option.isSome_iff_exists]

theorem slot_empty (inside : ufd < maxNumFds) (absent : ufdtIsPresent s ufd = false) : s.slots[ufd]? = some none := by
  have found := getElem?_eq_getElem (l := s.slots) (i := ufd) (by simp [slots, length, inside])
  cases slot : s.slots[ufd]? with
  | none =>
    rw [found] at slot
    contradiction
  | some gfd =>
    cases gfd with
    | none => rfl
    | some f =>
      rw [(ufdtIsPresent_iff length).mpr ⟨f, slot⟩] at absent
      contradiction

theorem ufdtFindNext_cases : (ufdtFindNext s < maxNumFds ∧ s.slots[ufdtFindNext s]? = some none ∧
      ∀ k < ufdtFindNext s, ufdtIsPresent s k = true) ∨
    (ufdtFindNext s = ufdInvalid ∧ ∀ k < maxNumFds, ufdtIsPresent s k = true) := by
  cases found : (range maxNumFds).find? (fun idx => !ufdtIsPresent s idx) with
  | some idx =>
    obtain ⟨absent, inside, lower⟩ := find?_range_eq_some.mp found
    have next : ufdtFindNext s = idx := by rw [ufdtFindNext, found]; rfl
    rw [mem_range] at inside
    rw [next]
    left
    exact ⟨inside, slot_empty length inside (by simpa using absent), fun k less => by simpa using lower k less⟩
  | none =>
    have next : ufdtFindNext s = ufdInvalid := by rw [ufdtFindNext, found]; rfl
    right
    refine ⟨next, ?_⟩
    intro k inside
    simpa using find?_eq_none.mp found k (mem_range.mpr inside)

end

theorem gfdtPut_eq {g : Gfdt} (positive : 0 < g.refs f) (small : g.refs f < wordSize) :
    gfdtPut g f =
      if g.refs f - 1 = 0 then gfdtFree (g.setRefs f (g.refs f - 1)) f else g.setRefs f (g.refs f - 1) := by
  have lowered : wsub (g.refs f) 1 = g.refs f - 1 := wsub_eq positive small
  have after : (g.setRefs f (g.refs f - 1)).refs f = g.refs f - 1 := if_pos rfl
  simp only [gfdtPut, if_pos (show g.refs f ≠ 0 by omega), lowered, after]

section Put

variable {g : Gfdt} (positive : 0 < g.refs f) (small : g.refs f < wordSize)

include positive small

theorem gfdtPut_refs (e : Nat) : (gfdtPut g f).refs e = g.refs e - if f = e then 1 else 0 := by
  have refs : (gfdtPut g f).refs e = if e = f then g.refs f - 1 else g.refs e := by
    rw [gfdtPut_eq positive small]
    split <;> rfl
  rw [refs]
  by_cases same : e = f
  · rw [if_pos same, if_pos same.symm, same]
  · rw [if_neg same, if_neg (Ne.symm same), Nat.sub_zero]

theorem gfdtPut_allocated (e : Nat) :
    (gfdtPut g f).allocated e = if f = e ∧ g.refs f - 1 = 0 then false else g.allocated e := by
  rw [gfdtPut_eq positive small]
  by_cases last : g.refs f - 1 = 0
  · simp [last, gfdtFree, Gfdt.setRefs, eq_comm]
  · simp [last, Gfdt.setRefs]

theorem gfdtPut_closed : (gfdtPut g f).closed = g.closed ++ if g.refs f - 1 = 0 then [f] else [] := by
  rw [gfdtPut_eq positive small]
  by_cases last : g.refs f - 1 = 0
  · simp [last, gfdtFree, Gfdt.setRefs]
  · simp [last, Gfdt.setRefs]

theorem gfdtPut_obtained : (gfdtPut g f).obtained = g.obtained := by
  rw [gfdtPut_eq positive small]
  split <;> rfl

end Put

theorem maxNumFds_valid : maxNumFds ≤ ufdInvalid := min_le_right _ _

variable {others : List (Option Nat)}

namespace Descriptors

/-- The table of one task among the slots of others, which hold files of the same `gfdt`. -/
structure Among (others : List (Option Nat)) (s : Descriptors) : Prop where
  length : s.table.length = maxNumFds
  counted : Counted s.gfdt.allocated s.gfdt.refs (s.slots ++ others)
  closed : ∀ f, s.gfdt.closed.count f + (if s.gfdt.allocated f = true then 1 else 0) = s.gfdt.obtained f
  small : others.length + maxNumFds + 1 < wordSize

def ClosesAmong (others : List (Option Nat)) (before after : Descriptors) : Prop :=
  ∀ f, after.gfdt.closed.count f = before.gfdt.closed.count f +
    if 0 < held (before.slots ++ others) f ∧ held (after.slots ++ others) f = 0 then 1 else 0

theorem sound_iff_among : s.Sound ↔ s.Among [] := by
  constructor
  · intro sound
    exact ⟨sound.length, by rw [append_nil]; exact sound.counted, sound.closed, by decide⟩
  · intro among
    exact ⟨among.length, by have counted := among.counted; rwa [append_nil] at counted, among.closed⟩

theorem closes_iff_among : s.Closes s' ↔ s.ClosesAmong [] s' := by
  rw [Closes, ClosesAmong, append_nil, append_nil]

theorem ClosesAmong.refl (s : Descriptors) : s.ClosesAmong others s := by
  intro f
  rw [if_neg (by omega)]
  rfl

theorem ClosesAmong.fill (empty : (s.slots ++ others)[ufd]? = some none)
    (slots' : s'.slots ++ others = (s.slots ++ others).set ufd (some f))
    (closed : s'.gfdt.closed = s.gfdt.closed) : s.ClosesAmong others s' := by
  intro e
  rw [closed, slots', held_fill empty, if_neg (by omega)]
  rfl

theorem ClosesAmong.clear (found : (s.slots ++ others)[ufd]? = some (some f))
    (slots' : s'.slots ++ others = (s.slots ++ others).set ufd none)
    (closed : s'.gfdt.closed = s.gfdt.closed ++ if held ((s.slots ++ others).set ufd none) f = 0 then [f] else []) :
    s.ClosesAmong others s' := by
  have positive := held_positive found
  intro e
  rw [closed, slots', count_append]
  by_cases same : f = e
  · subst same
    by_cases last : held ((s.slots ++ others).set ufd none) f = 0
    · simp [last, positive]
    · simp [last]
  · have kept := held_clear found e
    rw [if_neg same, Nat.sub_zero] at kept
    have other : count e (if held ((s.slots ++ others).set ufd none) f = 0 then [f] else []) = 0 := by
      split <;> simp [same]
    rw [other, kept, if_neg (by omega)]

theorem ClosesAmong.fill_held {middle : Descriptors} (closes : s.ClosesAmong others middle)
    (still : 0 < held (middle.slots ++ others) f) (empty : (middle.slots ++ others)[ufd]? = some none)
    (slots' : s'.slots ++ others = (middle.slots ++ others).set ufd (some f))
    (closed : s'.gfdt.closed = middle.gfdt.closed) : s.ClosesAmong others s' := by
  intro e
  rw [closed, closes e, slots', held_fill empty]
  by_cases same : f = e
  · subst same
    rw [if_pos rfl, if_neg (by omega), if_neg (by omega)]
  · rw [if_neg same, add_zero]

namespace Among

section

variable (among : s.Among others)
include among

theorem slots_length : s.slots.length = maxNumFds := by
  rw [slots, length_map, among.length]

theorem refs_small (allocated : s.gfdt.allocated f = true) :
    s.gfdt.refs f + 1 < wordSize := by
  have bound := held_le (s.slots ++ others) f
  have length := among.slots_length
  have small := among.small
  rw [length_append] at bound
  rw [among.counted.refs f allocated]
  omega

theorem install (allocated : s.gfdt.allocated f = true) (empty : s.slots[ufd]? = some none) :
    ∃ s', ufdtInstall s ufd f = .ok s' ∧ s'.Among others ∧ s'.table = s.table.set ufd { flags := 0, gfd := some f } ∧
      s'.slots ++ others = (s.slots ++ others).set ufd (some f) ∧ s'.gfdt.closed = s.gfdt.closed := by
  have bound := (List.getElem?_eq_some_iff.mp empty).1
  have inside : ufd < s.table.length := by simpa [slots] using bound
  have slots' : ({ gfdt := gfdtGet s.gfdt f, table := s.table.set ufd { flags := 0, gfd := some f } } :
      Descriptors).slots ++ others = (s.slots ++ others).set ufd (some f) := by
    rw [List.set_append_left _ _ bound]
    simp [slots, List.map_set]
  refine ⟨{ gfdt := gfdtGet s.gfdt f, table := s.table.set ufd { flags := 0, gfd := some f } }, ?_,
    ⟨?_, ?_, ?_, among.small⟩, rfl, slots', rfl⟩
  · exact if_pos inside
  · simpa using among.length
  · rw [slots']
    refine among.counted.fill allocated (by rw [List.getElem?_append_left bound, empty]) ?_
    intro other
    simp only [gfdtGet, Gfdt.setRefs, wadd_eq (among.refs_small allocated), eq_comm]
    split
    next same =>
      rw [same]
    · rfl
  · exact among.closed

theorem closeSlot (found : s.slots[ufd]? = some (some f)) :
    ∃ s', ufdtCloseSlot s ufd = .ok s' ∧ s'.Among others ∧ s'.slots = s.slots.set ufd none ∧ s'.gfdt.closed =
        s.gfdt.closed ++ if held ((s.slots ++ others).set ufd none) f = 0 then [f] else [] := by
  have bound := (List.getElem?_eq_some_iff.mp found).1
  have inside : ufd < s.table.length := by simpa [slots] using bound
  have found' : (s.slots ++ others)[ufd]? = some (some f) := by rw [List.getElem?_append_left bound, found]
  have allocated := among.counted.alive f (List.mem_of_getElem? found')
  have refs := among.counted.refs f allocated
  have positive := held_positive found'
  have small := among.refs_small allocated
  have left := held_clear found' f
  rw [if_pos rfl] at left
  have last : s.gfdt.refs f - 1 = held ((s.slots ++ others).set ufd none) f := by rw [refs, left]
  have counting : 0 < s.gfdt.refs f := by omega
  have word : s.gfdt.refs f < wordSize := by omega
  have slots' : ({ gfdt := gfdtPut s.gfdt f, table := s.table.set ufd { flags := 0, gfd := none } } :
      Descriptors).slots = s.slots.set ufd none := by
    simp [slots, List.map_set]
  have holder : (s.table[ufd]?).bind Ufd.gfd = some f := by
    rw [slots_getElem?] at found
    simpa [Option.bind_eq_some_iff] using found
  refine ⟨{ gfdt := gfdtPut s.gfdt f, table := s.table.set ufd { flags := 0, gfd := none } }, ?_,
    ⟨?_, ?_, ?_, among.small⟩, slots', ?_⟩
  · rw [ufdtCloseSlot, holder]
    exact if_pos inside
  · simpa using among.length
  · rw [slots', ← List.set_append_left _ _ bound]
    refine among.counted.clear found' ?_ ?_
    · exact gfdtPut_refs counting word
    · intro _
      rw [gfdtPut_allocated counting word, last]
  · intro other
    have once := among.closed other
    rw [gfdtPut_closed counting word, gfdtPut_obtained counting word, gfdtPut_allocated counting word, last,
      List.count_append]
    by_cases freed : f = other ∧ held ((s.slots ++ others).set ufd none) f = 0
    · obtain ⟨rfl, none⟩ := freed
      simp only [allocated, none, if_true, and_self, List.count_singleton_self] at once ⊢
      simpa using once
    · rw [if_neg freed]
      split
      next none =>
        have ne : f ≠ other := fun same => freed ⟨same, none⟩
        rw [List.count_singleton, if_neg (by simpa using ne)]
        exact once
      · exact once
  · rw [gfdtPut_closed counting word, last]

theorem add (allocated : s.gfdt.allocated f = true) :
    ∃ s' idx, ufdtAdd s f = .ok (s', idx) ∧ s'.Among others ∧ s.ClosesAmong others s' ∧
      (idx < maxNumFds ∧ s.slots[idx]? = some none ∧ (∀ k < idx, ufdtIsPresent s k = true) ∧
          s'.table = s.table.set idx { flags := 0, gfd := some f } ∨
        idx = ufdInvalid ∧ (∀ k < maxNumFds, ufdtIsPresent s k = true) ∧ s' = s) := by
  rw [ufdtAdd]
  rcases ufdtFindNext_cases among.length with ⟨inside, empty, lower⟩ | ⟨full, present⟩
  · have _ := maxNumFds_valid
    have bound := (List.getElem?_eq_some_iff.mp empty).1
    obtain ⟨s', ran, among', table, slots', closed⟩ := among.install allocated empty
    refine ⟨s', ufdtFindNext s, ?_, among', ?_, .inl ⟨inside, empty, lower, table⟩⟩
    · simp only [if_pos (show ufdtFindNext s ≠ ufdInvalid by omega), ran]
      rfl
    · exact ClosesAmong.fill (by rw [List.getElem?_append_left bound, empty]) slots' closed
  · refine ⟨s, ufdInvalid, ?_, among, ?_, .inr ⟨rfl, present, rfl⟩⟩
    · simp [full]
    · exact ClosesAmong.refl s

theorem close (ufd : Nat) :
    ∃ s' ret, ufdtClose s ufd = .ok (s', ret) ∧ s'.Among others ∧ s.ClosesAmong others s' := by
  rw [ufdtClose]
  cases present : ufdtIsPresent s ufd with
  | false => exact ⟨s, -ebadf, rfl, among, ClosesAmong.refl s⟩
  | true =>
    obtain ⟨f, found⟩ := (ufdtIsPresent_iff among.length).mp present
    have bound := (List.getElem?_eq_some_iff.mp found).1
    obtain ⟨s', ran, among', slots', closed⟩ := among.closeSlot found
    refine ⟨s', 0, ?_, among', ?_⟩
    · simp only [Bool.not_true, Bool.false_eq_true, if_false, ran]
      rfl
    · exact ClosesAmong.clear (by rw [List.getElem?_append_left bound, found])
        (by rw [slots', List.set_append_left _ _ bound]) closed

theorem replace {source : Nat} (apart : source ≠ ufd) (inside : ufd < maxNumFds)
    (holder : s.slots[source]? = some (some f)) :
    ∃ s', ufdtReplace s ufd f = .ok s' ∧ s'.Among others ∧ s.ClosesAmong others s' := by
  have bound : ufd < s.slots.length := by rw [among.slots_length]; exact inside
  have allocated := among.counted.alive f (List.mem_append_left others (List.mem_of_getElem? holder))
  cases present : ufdtIsPresent s ufd with
  | false =>
    have empty := slot_empty among.length inside present
    obtain ⟨s', ran, among', _, slots', closed⟩ := among.install allocated empty
    refine ⟨s', ?_, among', ?_⟩
    · rw [ufdtReplace, present]
      exact ran
    · exact ClosesAmong.fill (by rw [List.getElem?_append_left bound, empty]) slots' closed
  | true =>
    obtain ⟨g, found⟩ := (ufdtIsPresent_iff among.length).mp present
    obtain ⟨middle, closing, amongMiddle, slotsMiddle, closedMiddle⟩ := among.closeSlot found
    have still : middle.slots[source]? = some (some f) := by rw [slotsMiddle, List.getElem?_set_ne apart.symm, holder]
    have empty : middle.slots[ufd]? = some none := by rw [slotsMiddle, List.getElem?_set_self bound]
    have boundMiddle := (List.getElem?_eq_some_iff.mp empty).1
    have mem := List.mem_append_left others (List.mem_of_getElem? still)
    obtain ⟨s', ran, among', _, slots', closed⟩ :=
      amongMiddle.install (amongMiddle.counted.alive f mem) empty
    refine ⟨s', ?_, among', ?_⟩
    · rw [ufdtReplace, present]
      simp only [if_true, closing]
      exact ran
    · have cleared : s.ClosesAmong _ _ :=
        ClosesAmong.clear (by rw [List.getElem?_append_left bound, found])
          (by rw [slotsMiddle, List.set_append_left _ _ bound]) closedMiddle
      exact cleared.fill_held (List.count_pos_iff.mpr mem)
        (by rw [List.getElem?_append_left boundMiddle, empty]) slots' closed

end

end Among

end Descriptors

inductive FdEvent where
  /-- A file is obtained and added, as `open` does. -/
  | opens (f : Nat)
  /-- A file that has been obtained is added. -/
  | adds (f : Nat)
  | closes (ufd : Nat)
  | dups (ufd : Nat)
  | dup2s (ufd ufd2 : Nat)
deriving DecidableEq, Repr

/-- The cache hands out what is not allocated. -/
def descriptors : Machine Descriptors FdEvent Fault where
  enabled event s :=
    match event with
    | .opens f => !s.gfdt.allocated f
    | .adds f => s.gfdt.allocated f
    | .closes _ => true
    | .dups _ => true
    | .dup2s ufd ufd2 => decide (ufd ≠ ufd2) && decide (ufd < maxNumFds) && decide (ufd2 < maxNumFds)
  perform event s :=
    match event with
    | .opens f => (ufdtAdd { s with gfdt := gfdtObtain s.gfdt f } f).map Prod.fst
    | .adds f => (ufdtAdd s f).map Prod.fst
    | .closes ufd => (ufdtClose s ufd).map Prod.fst
    | .dups ufd => (sysDup s ufd).map Prod.fst
    | .dup2s ufd ufd2 => (sysDup2 s ufd ufd2).map Prod.fst

def emptyDescriptors : Descriptors where
  gfdt := { refs := fun _ => 0, gfdtEntriesInUse := 0, allocated := fun _ => false, obtained := fun _ => 0, closed := [] }
  table := List.replicate maxNumFds { flags := 0, gfd := none }

theorem emptyDescriptors_sound : emptyDescriptors.Sound := by
  refine ⟨length_replicate, ⟨?_, ?_⟩, ?_⟩
  · intro f _
    contradiction
  · intro f mem
    obtain ⟨slot, there, holds⟩ := mem_map.mp mem
    rw [eq_of_mem_replicate there] at holds
    contradiction
  · intro f
    rfl

namespace Descriptors.Among

theorem obtained (among : s.Among others) (fresh : s.gfdt.allocated f = false) :
    Among others { s with gfdt := gfdtObtain s.gfdt f } := by
  refine ⟨among.length, ?_, ?_, among.small⟩
  · exact among.counted.obtained fresh (fun _ => rfl) fun _ => rfl
  · intro e
    have once := among.closed e
    simp only [gfdtObtain]
    by_cases same : e = f
    · subst same
      simp only [fresh, Bool.false_eq_true, if_false, if_true] at once ⊢
      omega
    · simpa [same] using once

theorem ufdtGet_cases (among : s.Among others) (ufd : Nat) :
    ufdtGet s ufd = none ∨ ∃ f, ufdtGet s ufd = some f ∧ s.slots[ufd]? = some (some f) := by
  rw [ufdtGet]
  cases present : ufdtIsPresent s ufd with
  | false => exact .inl rfl
  | true =>
    obtain ⟨f, found⟩ := (ufdtIsPresent_iff among.length).mp present
    refine .inr ⟨f, ?_, found⟩
    rw [slots_getElem?] at found
    simpa [Option.bind_eq_some_iff] using found

theorem step (among : s.Among others) {event : FdEvent} (enabled : descriptors.enabled event s = true) :
    ∃ s', descriptors.perform event s = .ok s' ∧ s'.Among others ∧ s.ClosesAmong others s' := by
  cases event with
  | opens f =>
    have fresh : s.gfdt.allocated f = false := by simpa [descriptors] using enabled
    obtain ⟨s', idx, ran, among', closes, _⟩ := (among.obtained fresh).add (if_pos rfl)
    exact ⟨s', by simp only [descriptors, ran]; rfl, among', closes⟩
  | adds =>
    obtain ⟨s', idx, ran, among', closes, _⟩ := among.add enabled
    exact ⟨s', by simp only [descriptors, ran]; rfl, among', closes⟩
  | closes ufd =>
    obtain ⟨s', ret, ran, among', closes⟩ := among.close ufd
    exact ⟨s', by simp only [descriptors, ran]; rfl, among', closes⟩
  | dups ufd =>
    rcases among.ufdtGet_cases ufd with missing | ⟨f, got, found⟩
    · exact ⟨s, by simp only [descriptors, sysDup, missing]; rfl, among, ClosesAmong.refl s⟩
    · have mem := mem_append_left others (mem_of_getElem? found)
      obtain ⟨s', idx, ran, among', closes, _⟩ := among.add (among.counted.alive f mem)
      exact ⟨s', by simp only [descriptors, sysDup, got, ran]; rfl, among', closes⟩
  | dup2s ufd =>
    simp only [descriptors, Bool.and_eq_true, decide_eq_true_eq] at enabled
    obtain ⟨⟨apart, _⟩, inside⟩ := enabled
    rcases among.ufdtGet_cases ufd with missing | ⟨f, got, found⟩
    · exact ⟨s, by simp only [descriptors, sysDup2, missing]; rfl, among, ClosesAmong.refl s⟩
    · obtain ⟨s', ran, among', closes⟩ := among.replace apart inside found
      exact ⟨s', by simp only [descriptors, sysDup2, got, if_pos apart, ran]; rfl, among', closes⟩

end Descriptors.Among

theorem Descriptors.Sound.step (sound : s.Sound) {event : FdEvent} (enabled : descriptors.enabled event s = true) :
    ∃ s', descriptors.perform event s = .ok s' ∧ s'.Sound ∧ s.Closes s' := by
  obtain ⟨s', ran, among, closes⟩ := (sound_iff_among.mp sound).step enabled
  exact ⟨s', ran, sound_iff_among.mpr among, closes_iff_among.mpr closes⟩

/-- In every run from an empty table the count of an open file is the number of slots that
hold it; it is closed once, when the last of them goes; and a file is added at the lowest
empty slot. -/
theorem file_references_counted {s : Descriptors} (reached : descriptors.Reaches (fun _ _ => True) emptyDescriptors s) :
    (∀ f, s.gfdt.allocated f = true → s.gfdt.refs f = held s.slots f) ∧
    (∀ f, some f ∈ s.slots → s.gfdt.allocated f = true) ∧
    (∀ f, s.gfdt.closed.count f + (if s.gfdt.allocated f = true then 1 else 0) = s.gfdt.obtained f) ∧
    (∀ event, descriptors.enabled event s = true → ∃ s', descriptors.perform event s = .ok s' ∧
        ∀ f, s'.gfdt.closed.count f = s.gfdt.closed.count f +
          if 0 < held s.slots f ∧ held s'.slots f = 0 then 1 else 0) ∧
    (∀ f, s.gfdt.allocated f = true → ∃ s' idx, ufdtAdd s f = .ok (s', idx) ∧
      (idx < maxNumFds ∧ s.slots[idx]? = some none ∧ (∀ k, k < idx → ufdtIsPresent s k = true) ∧
          s'.table = s.table.set idx { flags := 0, gfd := some f } ∨
        idx = ufdInvalid ∧ (∀ k, k < maxNumFds → ufdtIsPresent s k = true) ∧ s' = s)) := by
  have sound : s.Sound := by
    refine reached.preserves Descriptors.Sound emptyDescriptors_sound ?_
    intro before event after soundBefore _ enabled ran
    obtain ⟨next, performed, soundNext, _⟩ := soundBefore.step enabled
    rw [performed] at ran
    cases ran
    exact soundNext
  refine ⟨sound.counted.refs, sound.counted.alive, sound.closed, ?_, ?_⟩
  · intro event enabled
    obtain ⟨s', performed, _, closes⟩ := sound.step enabled
    exact ⟨s', performed, closes⟩
  · intro f allocated
    obtain ⟨s', idx, ran, _, _, result⟩ := (sound_iff_among.mp sound).add allocated
    exact ⟨s', idx, ran, result⟩

theorem file_references_counted_dup2 :
    ∃ s, descriptors.Reaches (fun _ _ => True) emptyDescriptors s ∧ s.gfdt.closed = [8] ∧
      s.gfdt.refs 7 = held s.slots 7 ∧ held s.slots 7 = 3 := by
  obtain ⟨s, reached, closed, allocated, three⟩ : ∃ s, descriptors.Reaches (fun _ _ => True) emptyDescriptors s ∧
      s.gfdt.closed = [8] ∧ s.gfdt.allocated 7 = true ∧ held s.slots 7 = 3 :=
    Machine.run_exists [.opens 7, .opens 8, .dups 0, .dup2s 0 1, .dup2s 0 2] (by decide +kernel)
  exact ⟨s, reached, closed, (file_references_counted reached).1 7 allocated, three⟩

end KOs.Fs

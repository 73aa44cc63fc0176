import KOs.Data.Pool
import KOs.Data.Transition
import KOs.Mm.Pages

namespace KOs.Mm

open KOs.Arch KOs.Common KOs.Data List

structure Session where
  memory : Memory
  live : List (Nat × Nat)

def Session.frames (session : Session) : Frames := session.memory.frames

def Session.withFrames (session : Session) (frames : Frames) : Session :=
  { session with memory := { session.memory with frames } }

/-- What `mm_init` leaves before the first `claim_page`. -/
def Session.initial (list : Links (Nat ⊕ Nat)) (kmap : Kmap) : Session where
  memory := { frames := mmInit list, kmap }
  live := []

inductive Session.Step : Session → Session → Prop
  | claim {session : Session} {index : Nat} {frames : Frames} (range : index < pageCount)
      (permanent : (session.frames.pages index).flags &&& pageFlagPerm ≠ 0)
      (ran : claimPage index session.frames = .ok frames) :
      Step session (session.withFrames frames)
  | alloc {session : Session} {n p : Nat} {flags : UInt32} {memory : Memory} (positive : 1 ≤ n)
      (bounded : n ≤ 2 ^ maxOrder) (ran : allocPages n flags session.memory = .ok (memory, p)) :
      Step session { memory, live := (p, n) :: session.live }
  | free {session : Session} {p n : Nat} {frames : Frames} (member : (p, n) ∈ session.live)
      (ran : freePages p n session.frames = .ok frames) :
      Step session { session.withFrames frames with live := session.live.erase (p, n) }
  | freeOne {session : Session} {p k : Nat} {frames : Frames} (member : (p, 2 ^ k) ∈ session.live)
      (ran : freePage p session.frames = .ok frames) :
      Step session { session.withFrames frames with live := session.live.erase (p, 2 ^ k) }

def Session.Reaches : Session → Session → Prop := Relation.ReflTransGen Session.Step

/-- Frames claimed one after the other, as `find_free_pages` does. -/
inductive Claims (start : Frames) : Frames → Prop
  | none : Claims start start
  | claim {index : Nat} {before after : Frames} (earlier : Claims start before)
      (range : index < pageCount) (permanent : (before.pages index).flags &&& pageFlagPerm ≠ 0)
      (ran : claimPage index before = .ok after) : Claims start after

variable {frames : Frames} {list : Links (Nat ⊕ Nat)}

theorem Claims.reaches (kmap : Kmap) (claims : Claims (mmInit list) frames) :
    (Session.initial list kmap).Reaches ⟨⟨frames, kmap⟩, []⟩ := by
  induction claims with
  | none => exact .refl
  | @claim _ before after _ range permanent ran ih =>
    have step : Session.Step ⟨⟨before, kmap⟩, []⟩ ⟨⟨after, kmap⟩, []⟩ := .claim range permanent ran
    exact ih.tail step

variable {p : Nat}

theorem RunOrdered.block {pages : Nat → Page} {k : Nat} (ordered : RunOrdered pages p (2 ^ k)) :
    OrderedBlock pages k p := by
  have digit : Nat.log2 (2 ^ k) = k := Nat.log2_two_pow
  generalize size : 2 ^ k = n at ordered digit
  cases ordered with
  | nil =>
    have power := Nat.two_pow_pos k
    omega
  | cons _ piece => exact digit ▸ piece

def reservedSet (frames : Frames) : Set Nat :=
  {q | q < pageCount ∧ (frames.pages q).flags &&& pageFlagPerm ≠ 0}

def Session.pool (session : Session) : Pool (Nat × Nat) Nat where
  reserved := reservedSet session.frames
  free := freeSet session.frames
  live := session.live

def runRegion (key : Nat × Nat) : Set Nat := run key.1 key.2

structure Session.Sound (session : Session) : Prop where
  consistent : Consistent session.frames
  held : ∀ key ∈ session.live, key.2 ≠ 0 ∧ Held session.frames key.1 key.2
  permanent : ∀ q ∈ reservedSet session.frames, Permanent (session.frames.pages q)
  exclusive : session.pool.Exclusive runRegion

theorem InUse.not_perm {page : Page} (used : InUse page) :
    ¬ page.flags &&& pageFlagPerm ≠ 0 := by
  intro perm
  exact perm (beq_iff_eq.mp used.1)

theorem not_perm_of_free {q : Nat} (free : q ∈ freeSet frames) :
    ¬ (frames.pages q).flags &&& pageFlagPerm ≠ 0 := by
  rw [free.2]
  decide

variable {index : Nat} {n : Nat}

section Steps

variable {session : Session}

section

variable (sound : session.Sound)
include sound

section

variable {cells : Set Nat} (freed : Freed cells session.frames frames)
include freed

theorem Session.Sound.kept {key : Nat × Nat} (mem : key ∈ session.live) (apart : Disjoint (runRegion key) cells) :
    ∀ q ∈ runRegion key, frames.pages q = session.frames.pages q := by
  intro q owned
  apply freed.kept
  rw [freed.grown]
  exact not_or.mpr ⟨(sound.exclusive.free key mem q owned).1, Set.disjoint_left.mp apart owned⟩

theorem Session.Sound.reserved_freed : reservedSet frames = reservedSet session.frames \ cells := by
  ext q
  by_cases free : q ∈ freeSet frames
  · refine iff_of_false (fun reserved => not_perm_of_free free reserved.2) fun reserved => ?_
    rw [freed.grown] at free
    rcases free with old | new
    · exact sound.exclusive.reserved q reserved.1 old
    · exact reserved.2 new
  · have outside : q ∉ cells := by
      intro new
      rw [freed.grown] at free
      exact free (.inr new)
    simp [reservedSet, freed.kept q free, outside]

theorem Session.Sound.release {live : List (Nat × Nat)} (subset : ∀ key ∈ live, key ∈ session.live)
    (kept : ∀ key ∈ live, ∀ q ∈ runRegion key, frames.pages q = session.frames.pages q)
    (exclusive : Pool.Exclusive runRegion ⟨reservedSet session.frames \ cells, freeSet session.frames ∪ cells, live⟩) :
    Session.Sound { session.withFrames frames with live } := by
  rw [← sound.reserved_freed freed, ← freed.grown] at exclusive
  refine ⟨freed.consistent, ?_, ?_, exclusive⟩
  · intro key mem
    obtain ⟨nonempty, held⟩ := sound.held key (subset key mem)
    exact ⟨nonempty, held.of_pages_eq (kept key mem)⟩
  · intro q reserved
    have notFree : q ∉ freeSet frames := fun free => not_perm_of_free free reserved.2
    have before : q ∈ reservedSet session.frames \ cells := sound.reserved_freed freed ▸ reserved
    show Permanent (frames.pages q)
    rw [freed.kept q notFree]
    exact sound.permanent q before.1

end

theorem Session.Sound.give_kept (mem : (p, n) ∈ session.live) (freed : Freed (run p n) session.frames frames) :
    ∀ key ∈ session.live.erase (p, n), ∀ q ∈ runRegion key, frames.pages q = session.frames.pages q :=
  fun _ remaining => sound.kept freed (mem_of_mem_erase remaining) (sound.exclusive.apart mem remaining)

theorem Session.Sound.supply_kept (range : index < pageCount)
    (permanent : (session.frames.pages index).flags &&& pageFlagPerm ≠ 0) (freed : Freed {index} session.frames frames) :
    ∀ key ∈ session.live, ∀ q ∈ runRegion key, frames.pages q = session.frames.pages q := by
  intro key mem
  refine sound.kept freed mem (Set.disjoint_singleton_right.mpr fun owned => ?_)
  exact (sound.exclusive.free key mem index owned).2 ⟨range, permanent⟩

theorem Session.Sound.give (mem : (p, n) ∈ session.live) (freed : Freed (run p n) session.frames frames) :
    Session.Sound { session.withFrames frames with live := session.live.erase (p, n) } := by
  refine sound.release freed (fun _ => mem_of_mem_erase) (sound.give_kept mem freed) ?_
  have given : Pool.Step runRegion session.pool _ := .give mem
  have outside : reservedSet session.frames \ run p n = reservedSet session.frames :=
    sdiff_eq_left.mpr (Set.disjoint_right.mpr fun q owned => (sound.exclusive.free (p, n) mem q owned).2)
  rw [outside]
  exact given.exclusive sound.exclusive

theorem Session.Sound.supply (range : index < pageCount)
    (permanent : (session.frames.pages index).flags &&& pageFlagPerm ≠ 0) (freed : Freed {index} session.frames frames)
    : (session.withFrames frames).Sound := by
  refine sound.release freed (fun _ mem => mem) (sound.supply_kept range permanent freed) ?_
  have inside : {index} ⊆ session.pool.reserved := Set.singleton_subset_iff.mpr ⟨range, permanent⟩
  have supplied : Pool.Step runRegion session.pool _ := .supply inside
  exact supplied.exclusive sound.exclusive

theorem Session.Sound.take {memory : Memory} (pos : 1 ≤ n) (bounded : n ≤ 2 ^ maxOrder)
    (allocated : Allocated p n session.frames memory.frames) :
    Session.Sound { memory, live := (p, n) :: session.live } := by
  have held : Held memory.frames p n :=
    ⟨bounded, allocated.ordered, fun q mem => (allocated.free mem).1, allocated.used⟩
  have reservedSame : reservedSet memory.frames = reservedSet session.frames := by
    ext q
    by_cases free : q ∈ freeSet session.frames
    · have after : q ∉ reservedSet memory.frames := by
        intro reserved
        by_cases inRun : q ∈ run p n
        · exact (allocated.used q inRun).not_perm reserved.2
        · exact not_perm_of_free (allocated.shrunk ▸ ⟨free, inRun⟩) reserved.2
      exact iff_of_false after fun reserved => not_perm_of_free free reserved.2
    · simp [reservedSet, allocated.kept q free]
  have step : Pool.Step runRegion session.pool (Session.pool { memory, live := (p, n) :: session.live }) := by
    have inside : runRegion (p, n) ⊆ session.pool.free := allocated.free
    have taken : Pool.Step runRegion session.pool _ := .take inside
    have free : freeSet memory.frames = freeSet session.frames \ runRegion (p, n) := allocated.shrunk
    simp only [Session.pool, Session.frames] at taken ⊢
    rw [reservedSame, free]
    exact taken
  refine ⟨allocated.consistent, ?_, ?_, step.exclusive sound.exclusive⟩
  · intro key mem
    rcases mem_cons.mp mem with same | older
    · rw [same]
      exact ⟨Nat.ne_of_gt pos, held⟩
    · obtain ⟨nonempty, olderHeld⟩ := sound.held key older
      exact ⟨nonempty, olderHeld.of_pages_eq fun q owned =>
        allocated.kept q (sound.exclusive.free key older q owned).1⟩
  · intro q reserved
    have before : q ∈ reservedSet session.frames := reservedSame ▸ reserved
    show Permanent (memory.frames.pages q)
    rw [allocated.kept q (sound.exclusive.reserved q before)]
    exact sound.permanent q before

theorem Session.Sound.freePages_exists (mem : (p, n) ∈ session.live) :
    ∃ frames, freePages p n session.frames = .ok frames ∧ Freed (run p n) session.frames frames := by
  obtain ⟨nonempty, held⟩ := sound.held (p, n) mem
  exact Mm.freePages_exists sound.consistent held nonempty

theorem Session.Sound.freePage_exists {k : Nat} (mem : (p, 2 ^ k) ∈ session.live) :
    ∃ frames, freePage p session.frames = .ok frames ∧ Freed (run p (2 ^ k)) session.frames frames := by
  obtain ⟨_, bounded, ordered, range, used⟩ := sound.held _ mem
  have order : k ≤ maxOrder := (Nat.pow_le_pow_iff_right (by decide)).mp bounded
  exact Mm.freePage_exists sound.consistent ordered.block order range used

theorem Session.Sound.claimPage_exists (range : index < pageCount)
    (permanent : (session.frames.pages index).flags &&& pageFlagPerm ≠ 0) :
    ∃ frames, claimPage index session.frames = .ok frames ∧ Freed {index} session.frames frames :=
  Mm.claimPage_exists (sound.permanent _ ⟨range, permanent⟩) sound.consistent range

theorem Session.Sound.step {next : Session} (step : session.Step next) :
    next.Sound := by
  cases step with
  | claim range permanent ran =>
    obtain ⟨frames, expected, freed⟩ := sound.claimPage_exists range permanent
    rw [expected] at ran
    cases ran
    exact sound.supply range permanent freed
  | @alloc n p _ _ pos bounded ran =>
    have done := allocPages_ok sound.consistent (show n ≠ 0 by omega) ran
    exact sound.take pos bounded done.allocated
  | free mem ran =>
    obtain ⟨frames, expected, freed⟩ := sound.freePages_exists mem
    rw [expected] at ran
    cases ran
    exact sound.give mem freed
  | freeOne mem ran =>
    obtain ⟨frames, expected, freed⟩ := sound.freePage_exists mem
    rw [expected] at ran
    cases ran
    exact sound.give mem freed

end

end Steps

theorem mmInit_freeSet (list : Links (Nat ⊕ Nat)) : freeSet (mmInit list) = ∅ := by
  ext q
  simp only [freeSet, mmInit, Set.mem_ofPred_eq, Set.mem_empty_iff_false, iff_false, not_and]
  intro _
  decide

theorem initFreeLists_represents (list : Links (Nat ⊕ Nat)) (count : Nat) :
    (initFreeLists count list).Represents {k | k < count} (fun _ => []) := by
  induction count with
  | zero =>
    refine ⟨?_, fun _ => nodup_nil, ?_, fun _ _ => rfl⟩
    · intro i _
      contradiction
    · intro i j a mem
      contradiction
  | succ count ih =>
    have extended := listInit_represents ih count
    have heads : insert count {k | k < count} = {k | k < count + 1} := by
      ext k
      simp only [Set.mem_insert_iff, Set.mem_ofPred_eq]
      omega
    have lists : Function.update (fun _ : Nat => ([] : List Nat)) count [] = fun _ => [] :=
      Function.update_eq_self _ _
    rw [heads, lists] at extended
    simpa only [initFreeLists, range_succ, foldl_append, foldl_cons, foldl_nil] using extended

theorem Session.initial_sound (list : Links (Nat ⊕ Nat)) (kmap : Kmap) :
    (Session.initial list kmap).Sound := by
  have nothing := mmInit_freeSet list
  refine ⟨⟨⟨fun _ => [], ?_⟩, ?_⟩, ?_, ?_, ?_⟩
  · have heads : {k | k < maxOrder + 1} = orders := by
      ext k
      exact Nat.lt_succ_iff
    refine ⟨heads ▸ initFreeLists_represents list _, ?_, ?_⟩
    · intro k b
      refine iff_of_false not_mem_nil ?_
      intro maximal
      have inside := maximal.inside (start_mem_block k b)
      rw [Session.frames, Session.initial, nothing] at inside
      exact inside
    · intro k b mem
      contradiction
  · intro q test
    exact absurd test (by show ¬ isFree ⟨0, pageFlagPerm ||| pageFlagUsed, 0, 0⟩ = true; decide)
  · intro key mem
    contradiction
  · intro q _
    exact ⟨rfl, rfl⟩
  · refine ⟨?_, ?_, List.Pairwise.nil⟩
    · intro a _ free
      have inside : a ∈ freeSet (mmInit list) := free
      rw [nothing] at inside
      exact inside
    · intro key mem
      contradiction

theorem Session.Reaches.sound {kmap : Kmap} {session : Session} (path : (Session.initial list kmap).Reaches session) :
    session.Sound :=
  run_preserves Session.Sound path (Session.initial_sound list kmap) fun _ _ sound step => sound.step step

end KOs.Mm

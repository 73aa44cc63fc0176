import KOs.Mm.Buddy.Trim

namespace KOs.Mm

open KOs.Common KOs.Data

/-! `ripple_join` merges a released block with its buddy as long as the buddy is
a free block of the same order, and lists the block it ends with.

The code recognises a free buddy by its flags and its order field alone, which is
sound by `rippleCondition_iff`: while the rest of the free frames is listed, the
test succeeds exactly when the buddy is in the list of that order.
-/

def freeSet (state : Frames) : Set Nat :=
  {q | q < pageCount ∧ (state.pages q).flags = 0}

/-- `is_free` looks at two of the flags; no other flag is ever set alone. -/
def LegalFlags (state : Frames) : Prop :=
  ∀ q, isFree (state.pages q) = true → (state.pages q).flags = 0

variable {region : Set Nat} {before after start state : Frames} {k b : Nat}

theorem Reordered.freeSet_eq (changed : Reordered region before after) : freeSet after = freeSet before := by
  ext q
  simp [freeSet, changed.flags q]

theorem Reordered.legalFlags
    (changed : Reordered region before after) (legal : LegalFlags before) : LegalFlags after := by
  intro q test
  rw [changed.flags q]
  apply legal
  simpa only [isFree, changed.flags q] using test

theorem pair_dvd_pageCount (below : k < maxOrder) : 2 ^ (k + 1) ∣ pageCount := by
  have count : pageCount = 2 ^ 20 := by decide
  rw [count]
  apply Nat.pow_dvd_pow
  simp only [maxOrder] at below
  omega

section Loop

variable {state : Frames} {lists : Nat → List Nat} {free : Set Nat} {k b : Nat}

theorem rippleCondition_iff (legal : LegalFlags state) (ordered : OrderedBlock state.pages k b)
    (inside : block k b ⊆ freeSet state)
    (listed : FreeLists state lists (freeSet state \ block k b)) :
    rippleCondition (state, b) = true ↔ k < maxOrder ∧ buddy k b ∈ lists k := by
  have aligned := buddy_aligned ordered.aligned
  simp only [rippleCondition, getBuddy_eq ordered.head, ordered.head, Bool.and_eq_true, beq_iff_eq, decide_eq_true_eq]
  constructor
  · intro ⟨⟨test, order⟩, below⟩
    have inRange : buddy k b < pageCount := by
      apply pair_lt (pair_dvd_pageCount below) (inside (start_mem_block k b)).1
      exact (mem_pair_iff ordered.aligned).mpr (.inr (start_mem_block _ _))
    have outside : buddy k b ∉ block k b :=
      fun mem => buddy_disjoint ordered.aligned mem (start_mem_block _ _)
    obtain ⟨j, h, maximal, mem⟩ :=
      exists_maxBlock maxOrder (show buddy k b ∈ freeSet _ \ block k b from ⟨⟨inRange, legal _ test⟩, outside⟩)
    -- A listed block around the buddy that reached beyond it would hold `b`.
    have notLarger : ¬ k < j := by
      intro larger
      have nested := block_subset_of_mem (Nat.succ_le_of_lt larger) (blockBase_aligned (k + 1) b)
        maximal.aligned ((mem_pair_iff ordered.aligned).mpr (.inr (start_mem_block _ _))) mem
      have taken := maximal.inside (nested (mem_block_blockBase (k + 1) b))
      exact taken.2 (start_mem_block k b)
    have start : h = buddy k b := by
      rw [← blockBase_of_mem maximal.aligned mem, blockBase_of_aligned (aligned_of_le (by omega) aligned)]
    have found := (listed.blocks j h).mpr maximal
    have same : j = k := by rw [← (listed.ordered j h found).head, start, order]
    exact ⟨below, start ▸ same ▸ found⟩
  · intro ⟨below, found⟩
    have maximal := (listed.blocks k _).mp found
    have zero := (maximal.inside (start_mem_block _ _)).1.2
    exact ⟨⟨isFree_of_zero zero, (listed.ordered k _ found).head⟩, below⟩

theorem rippleBody_exists (ordered : OrderedBlock state.pages k b) (below : k < maxOrder)
    (inside : block k b ⊆ freeSet state)
    (listed : FreeLists state lists (freeSet state \ block k b)) (found : buddy k b ∈ lists k) :
    ∃ after, rippleBody (state, b) = .ok (after, blockBase (k + 1) b) ∧
      OrderedBlock after.pages (k + 1) (blockBase (k + 1) b) ∧
      block (k + 1) (blockBase (k + 1) b) ⊆ freeSet state ∧
      Listed after (freeSet state \ block (k + 1) (blockBase (k + 1) b)) ∧
      Reordered (freeSet state) state after := by
  have maximal := (listed.blocks k _).mp found
  have buddyOrdered := listed.ordered k _ found
  have pairInside : block (k + 1) (blockBase (k + 1) b) ⊆ freeSet state := by
    intro q mem
    rcases (mem_pair_iff ordered.aligned).mp mem with inB | inBuddy
    · exact inside inB
    · exact (maximal.inside inBuddy).1
  let master := blockBase (k + 1) b
  let unlinked := { state with list := listRm (.inr (buddy k b)) state.list }
  have masterAligned : 2 ^ (k + 1) ∣ master := blockBase_aligned _ _
  -- Whichever half `b` is, the two ordered blocks are the master and its upper half.
  have halves : OrderedBlock state.pages k master ∧ OrderedBlock state.pages k (master + 2 ^ k) := by
    rcases buddy_cases ordered.aligned with ⟨upper, base⟩ | ⟨lower, base⟩
    · have same : master = b := base
      rw [same, ← upper]
      exact ⟨ordered, buddyOrdered⟩
    · have same : master = buddy k b := base
      rw [same, lower]
      exact ⟨buddyOrdered, ordered⟩
  have masterZero := (pairInside (start_mem_block (k + 1) master)).2
  have slaveZero := (pairInside (upper_half_subset k master (start_mem_block _ _))).2
  have joined : joinBlock b unlinked = .ok (unlinked.setOrder master (k + 1), master) := by
    have foundMaster : getMaster unlinked b = master := getMaster_eq ordered.aligned ordered.head
    have foundBuddy : getBuddy unlinked master = master + 2 ^ k :=
      (getBuddy_eq halves.1.head).trans (buddy_lower masterAligned)
    have notMax : (k == maxOrder) = false := beq_eq_false_iff_ne.mpr (below.ne)
    have masterOrder : (unlinked.pages master).order = k := halves.1.head
    have slaveOrder : (unlinked.pages (master + 2 ^ k)).order = k := halves.2.head
    have masterFree : isFree (unlinked.pages master) = true := isFree_of_zero masterZero
    have slaveFree : isFree (unlinked.pages (master + 2 ^ k)) = true := isFree_of_zero slaveZero
    simp only [joinBlock, foundMaster, foundBuddy, masterOrder, slaveOrder, masterFree, slaveFree,
      notMax, bne_self_eq_false, Bool.not_true, bugOn_false]
    rfl
  refine ⟨unlinked.setOrder _ (k + 1), ?_, OrderedBlock.join masterAligned halves.1 halves.2, pairInside, ?_, ?_⟩
  · have stillFree : isFree ((unlinked.setOrder master (k + 1)).pages _) = true :=
      isFree_of_zero (by rw [setOrder_flags]; exact masterZero)
    simp only [rippleBody, getBuddy_eq ordered.head]
    rw [joined]
    simp only [Except.bind, stillFree, Bool.not_true, bugOn_false, bind]
    rfl
  · have rest : (freeSet state \ block k b) \ block k (buddy k b) = freeSet state \ block (k + 1) master := by
      ext q
      simp [show master = blockBase (k + 1) b from rfl, mem_pair_iff ordered.aligned, not_or, and_assoc]
    have listed' := rest ▸ listRm_listed listed found
    refine Listed.frame listed' (setOrder_list _ _ (k + 1)) ?_
    intro q mem
    have ne : q ≠ master := fun same => mem.2 (same ▸ start_mem_block _ _)
    rw [setOrder_order, if_neg ne]
  · have relinked : Reordered (freeSet state) state unlinked := .of_pages_eq rfl
    exact relinked.trans (reordered_setOrder (pairInside (start_mem_block (k + 1) _)))

end Loop

/-- What holds whenever the loop of `ripple_join` tests its condition. -/
def RippleInvariant (start : Frames) : Frames × Nat → Prop
  | (state, b) => ∃ k, k ≤ maxOrder ∧ OrderedBlock state.pages k b ∧
      block k b ⊆ freeSet state ∧ Listed state (freeSet state \ block k b) ∧
      Reordered (freeSet start) start state

theorem RippleInvariant.turn (legal : LegalFlags start)
    (holds : RippleInvariant start (state, b)) (enters : rippleCondition (state, b) = true) :
    ∃ next, rippleBody (state, b) = .ok next ∧ RippleInvariant start next ∧
      maxOrder - (next.1.pages next.2).order < maxOrder - (state.pages b).order := by
  obtain ⟨k, _, ordered, inside, ⟨lists, listed⟩, changed⟩ := holds
  obtain ⟨below, found⟩ :=
    (rippleCondition_iff (changed.legalFlags legal) ordered inside listed).mp enters
  obtain ⟨after, ran, joined, pairInside, rest, moved⟩ :=
    rippleBody_exists ordered below inside listed found
  have sameFree := moved.freeSet_eq
  refine ⟨_, ran, ⟨k + 1, below, joined, sameFree ▸ pairInside, sameFree ▸ rest, ?_⟩, ?_⟩
  · exact changed.trans (changed.freeSet_eq ▸ moved)
  · rw [joined.head, ordered.head]
    omega

theorem rippleInvariant_initial (ordered : OrderedBlock state.pages k b)
    (bounded : k ≤ maxOrder) (inside : block k b ⊆ freeSet state)
    (listed : Listed state (freeSet state \ block k b)) : RippleInvariant state (state, b) :=
  ⟨k, bounded, ordered, inside, listed, .refl _ _⟩

/-- Every buddy the loop is about to unlink is in the list of the block's order. -/
theorem ripple_unlinks_listed (legal : LegalFlags start)
    (holds : RippleInvariant start (state, b)) (enters : rippleCondition (state, b) = true) :
    ∃ lists, state.list.Represents orders lists ∧ getBuddy state b ∈ lists (state.pages b).order := by
  obtain ⟨k, _, ordered, inside, ⟨lists, listed⟩, changed⟩ := holds
  obtain ⟨_, found⟩ :=
    (rippleCondition_iff (changed.legalFlags legal) ordered inside listed).mp enters
  refine ⟨lists, listed.links, ?_⟩
  rw [getBuddy_eq ordered.head, ordered.head]
  exact found

theorem rippleJoin_exists (legal : LegalFlags state) (ordered : OrderedBlock state.pages k b) (bounded : k ≤ maxOrder)
    (inside : block k b ⊆ freeSet state) (listed : Listed state (freeSet state \ block k b)) :
    ∃ after, rippleJoin b state = .ok after ∧ Listed after (freeSet state) ∧ Reordered (freeSet state) state after := by
  have loop : ∃ final, whileLoop rippleCondition rippleBody .unfinished (maxOrder + 1) (state, b) =
      .ok final ∧ RippleInvariant state final ∧ rippleCondition final = false := by
    apply whileLoop_exists (fun next => maxOrder - (next.1.pages next.2).order)
      (rippleInvariant_initial ordered bounded inside listed) (Nat.lt_succ_of_le (Nat.sub_le _ _))
    intro next holds enters
    exact RippleInvariant.turn legal holds enters
  obtain ⟨⟨last, c⟩, ran, ⟨j, orderBound, ending, endInside, ⟨lists, rest⟩, changed⟩, exits⟩ := loop
  have zero := (endInside (start_mem_block j c)).2
  have alone : j < maxOrder → ¬ block j (buddy j c) ⊆ freeSet last \ block j c := by
    intro below buddyFree
    have maximal : MaxBlock (freeSet last \ block j c) maxOrder j (buddy j c) := by
      refine ⟨orderBound, buddy_aligned ending.aligned, buddyFree, fun _ extended => ?_⟩
      rw [buddy_pair ending.aligned] at extended
      exact (extended (mem_block_blockBase (j + 1) c)).2 (start_mem_block j c)
    have enters := (rippleCondition_iff (changed.legalFlags legal) ending endInside rest).mpr
      ⟨below, (rest.blocks j _).mpr maximal⟩
    rw [exits] at enters
    contradiction
  obtain ⟨after, added, pages, final⟩ := addToFreelists_exists ⟨lists, rest⟩ ending zero orderBound
    (fun q mem outside => outside.2 mem) alone
  have whole : freeSet last \ block j c ∪ block j c = freeSet state := by
    rw [Set.sdiff_union_of_subset endInside, changed.freeSet_eq]
  refine ⟨after, ?_, whole ▸ final, changed.trans (.of_pages_eq pages)⟩
  have headFree := isFree_of_zero (inside (start_mem_block k b)).2
  simp only [rippleJoin, headFree, Bool.not_true, bugOn_false, ran, ok_bind]
  exact added

end KOs.Mm

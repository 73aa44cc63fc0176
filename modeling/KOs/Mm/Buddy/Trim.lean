import KOs.Mm.Buddy.Blocks

namespace KOs.Mm

open KOs.Common KOs.Data

/-! `trim_block` cuts a block of `2 ^ k` frames down to the first `actual` ones. -/

/-- The `n` frames from `p` on are a row of ordered blocks, one for each binary
digit of `n`. -/
inductive RunOrdered (pages : Nat → Page) : Nat → Nat → Prop
  | nil (p : Nat) : RunOrdered pages p 0
  | cons {p n : Nat} (nonempty : n ≠ 0) (piece : OrderedBlock pages (Nat.log2 n) p)
      (rest : RunOrdered pages (p + 2 ^ Nat.log2 n) (n - 2 ^ Nat.log2 n)) : RunOrdered pages p n

def run (p n : Nat) : Set Nat := {q | p ≤ q ∧ q < p + n}

variable {p n k b actual : Nat} {pages : Nat → Page} {free : Set Nat}

theorem mem_run {q : Nat} : q ∈ run p n ↔ p ≤ q ∧ q < p + n := Iff.rfl

theorem RunOrdered.frame {changed : Nat → Page} (ordered : RunOrdered pages p n)
    (same : ∀ q ∈ run p n, (changed q).order = (pages q).order) : RunOrdered changed p n := by
  induction ordered with
  | nil p => exact .nil p
  | @cons p n nonempty piece rest ih =>
    have leading := Nat.add_sub_cancel' (Nat.log2_self_le nonempty)
    have power := Nat.two_pow_pos (Nat.log2 n)
    refine .cons nonempty (piece.frame ?_) (ih ?_)
    · intro q mem
      apply same
      simp only [mem_block, mem_run] at mem ⊢
      omega
    · intro q mem
      apply same
      simp only [mem_run] at mem ⊢
      omega

structure Reordered (region : Set Nat) (before after : Frames) : Prop where
  fields : ∀ q, after.pages q = { before.pages q with order := (after.pages q).order }
  outside : ∀ q, q ∉ region → after.pages q = before.pages q

theorem Reordered.refl (region : Set Nat) (state : Frames) : Reordered region state state :=
  ⟨fun _ => rfl, fun _ _ => rfl⟩

variable {region : Set Nat} {before after : Frames}

theorem Reordered.trans {middle : Frames} (first : Reordered region before middle)
    (second : Reordered region middle after) :
    Reordered region before after := by
  refine ⟨?_, ?_⟩
  · intro q
    rw [second.fields q, first.fields q]
  · intro q outside
    rw [second.outside q outside, first.outside q outside]

theorem Reordered.mono {small large : Set Nat} (changed : Reordered small before after) (inside : small ⊆ large) :
    Reordered large before after :=
  ⟨changed.fields, fun q outside => changed.outside q fun mem => outside (inside mem)⟩

theorem Reordered.flags (changed : Reordered region before after) (q : Nat) :
    (after.pages q).flags = (before.pages q).flags := by
  rw [changed.fields q]

variable {state : Frames}

theorem reordered_setOrder {index order : Nat} (mem : index ∈ region) :
    Reordered region state (state.setOrder index order) := by
  refine ⟨?_, ?_⟩
  · intro q
    simp only [Frames.setOrder, Frames.setPage]
    split
    next same =>
      rw [same]
    · rfl
  · intro q outside
    have ne : q ≠ index := fun same => outside (same ▸ mem)
    simp [Frames.setOrder, Frames.setPage, ne]

theorem Reordered.of_pages_eq (same : after.pages = before.pages) : Reordered region before after :=
  ⟨fun _ => by rw [same], fun _ _ => by rw [same]⟩

theorem splitBlock_eq (ordered : OrderedBlock state.pages (k + 1) b)
    (zero : ∀ q ∈ block (k + 1) b, (state.pages q).flags = 0) :
    splitBlock b state = .ok (state.setOrder b k, b + 2 ^ k) := by
  obtain ⟨lower, upper⟩ := ordered.split
  have slave : getBuddy (state.setOrder b k) b = b + 2 ^ k :=
    (getBuddy_eq lower.head).trans (buddy_lower ordered.aligned)
  have masterFree : isFree ((state.setOrder b k).pages b) = true :=
    isFree_of_zero (by simpa using zero b (start_mem_block _ _))
  have slaveFree : isFree ((state.setOrder b k).pages (b + 2 ^ k)) = true :=
    isFree_of_zero (by simpa using zero _ (upper_half_subset k b (start_mem_block _ _)))
  simp only [splitBlock, isSubblockMaster_of_ordered ordered, ordered.head, Nat.add_sub_cancel,
    slave, lower.head, upper.head, masterFree, slaveFree, Bool.not_true, bugOn_false,
    bne_self_eq_false]
  rfl

theorem trimLoop_turn (bound : Nat) (ordered : OrderedBlock state.pages (k + 1) b)
    (zero : ∀ q ∈ block (k + 1) b, (state.pages q).flags = 0) (pos : actual ≠ 0) (smaller : actual < 2 ^ (k + 1)) :
    trimLoop (bound + 1) b actual state =
      if actual ≤ 2 ^ k then
        (addToFreelists (b + 2 ^ k) (state.setOrder b k)).bind (trimLoop bound b actual)
      else trimLoop bound (b + 2 ^ k) (actual ^^^ 2 ^ k) (state.setOrder b k) := by
  have half : 2 ^ (k + 1) / 2 = 2 ^ k := by rw [Nat.pow_succ]; omega
  have notExact : actual ≠ 2 ^ (k + 1) := by omega
  have notSmaller : ¬ 2 ^ (k + 1) < actual := by omega
  have headFree := isFree_of_zero (zero b (start_mem_block _ _))
  have slaveFree : isFree ((state.setOrder b k).pages (b + 2 ^ k)) = true :=
    isFree_of_zero (by simpa using zero _ (upper_half_subset k b (start_mem_block _ _)))
  rw [trimLoop]
  simp only [ordered.head, pos, notExact, splitBlock_eq ordered zero, headFree, half, notSmaller, slaveFree,
    ordered.split.1.head, if_false, decide_false, Bool.not_true, bugOn_false, ok_bind]
  rfl

theorem runOrdered_block (ordered : OrderedBlock pages k b) :
    RunOrdered pages b (2 ^ k) := by
  have digit : Nat.log2 (2 ^ k) = k := Nat.log2_two_pow
  refine .cons (Nat.two_pow_pos k).ne' (by rw [digit]; exact ordered) ?_
  rw [digit, Nat.sub_self]
  exact .nil _

/-- With enough room, the loop keeps the first `actual` frames as a run and
releases the others. -/
theorem trimLoop_exists {bound : Nat} (ordered : OrderedBlock state.pages k b)
    (bounded : k ≤ maxOrder) (enough : k < bound) (zero : ∀ q ∈ block k b, (state.pages q).flags = 0)
    (listed : Listed state free) (apart : ∀ q ∈ block k b, q ∉ free) (pos : actual ≠ 0) (fits : actual ≤ 2 ^ k) :
    ∃ after, trimLoop bound b actual state = .ok after ∧ Listed after (free ∪ run (b + actual) (2 ^ k - actual)) ∧
      RunOrdered after.pages b actual ∧ Reordered (block k b) state after := by
  induction bound generalizing k b actual state free with
  | zero => omega
  | succ bound ih =>
    by_cases exact : actual = 2 ^ k
    · subst exact
      have nothing : free ∪ run (b + 2 ^ k) (2 ^ k - 2 ^ k) = free := by
        ext q
        simp only [Set.mem_union, mem_run]
        exact or_iff_left (by omega)
      refine ⟨state, by simp [trimLoop, ordered.head], ?_, runOrdered_block ordered, .refl _ _⟩
      rw [nothing]
      exact listed
    · cases k with
      | zero =>
        omega
      | succ k =>
        have turn := trimLoop_turn bound ordered zero pos (by omega)
        obtain ⟨lower, upper⟩ := ordered.split
        have inLower := lower_half_subset k b
        have inUpper := upper_half_subset k b
        have keptZero : ∀ q ∈ block (k + 1) b, ((state.setOrder b k).pages q).flags = 0 := by
          intro q mem
          rw [setOrder_flags]
          exact zero q mem
        have stillListed : Listed (state.setOrder b k) free := by
          refine listed.frame (setOrder_list _ b k) ?_
          intro q inFree
          have ne : q ≠ b := fun same => apart b (start_mem_block _ _) (same ▸ inFree)
          rw [setOrder_order, if_neg ne]
        have lowered : Reordered (block (k + 1) b) state (state.setOrder b k) :=
          reordered_setOrder (start_mem_block _ _)
        by_cases firstHalf : actual ≤ 2 ^ k
        · -- The slave is not needed. It goes to the free lists alone, since its
          -- buddy still holds frames of the run.
          have alone : k < maxOrder → ¬ block k (buddy k (b + 2 ^ k)) ⊆ free := by
            intro _ buddyFree
            rw [buddy_upper ordered.aligned] at buddyFree
            exact apart b (start_mem_block _ _) (buddyFree (start_mem_block _ _))
          obtain ⟨middle, added, pages, released⟩ := addToFreelists_exists stillListed upper
            (keptZero _ (inUpper (start_mem_block _ _))) (by omega)
            (fun q mem => apart q (inUpper mem)) alone
          have stillApart : ∀ q ∈ block k b, q ∉ free ∪ block k (b + 2 ^ k) := by
            intro q mem inside
            rcases inside with old | new
            · exact apart q (inLower mem) old
            · simp only [mem_block] at mem new
              omega
          obtain ⟨after, ran, final, ordering, changed⟩ := ih (pages ▸ lower) (by omega) (by omega)
            (fun q mem => by rw [pages]; exact keptZero q (inLower mem)) released
            stillApart pos firstHalf
          have region : free ∪ block k (b + 2 ^ k) ∪ run (b + actual) (2 ^ k - actual) =
              free ∪ run (b + actual) (2 ^ (k + 1) - actual) := by
            ext q
            simp only [Set.mem_union, mem_block, mem_run, or_assoc]
            apply or_congr_right
            omega
          refine ⟨after, ?_, region ▸ final, ordering, ?_⟩
          · rw [turn, if_pos firstHalf, added]
            exact ran
          · exact lowered.trans ((Reordered.of_pages_eq pages).trans (changed.mono inLower))
        · -- The master is full. The rest of the run is cut from the slave.
          have digit : Nat.log2 actual = k := by
            apply (Nat.log2_eq_iff pos).mpr
            omega
          have rest : actual ^^^ 2 ^ k = actual - 2 ^ k := by
            have cleared := xor_leading_bit pos
            rwa [digit] at cleared
          obtain ⟨after, ran, final, ordering, changed⟩ := ih upper (by omega) (by omega)
            (fun q mem => keptZero q (inUpper mem)) stillListed
            (fun q mem => apart q (inUpper mem)) (by omega : actual - 2 ^ k ≠ 0) (by omega)
          have region : run (b + 2 ^ k + (actual - 2 ^ k)) (2 ^ k - (actual - 2 ^ k)) =
              run (b + actual) (2 ^ (k + 1) - actual) := by
            ext q
            simp only [mem_run]
            omega
          refine ⟨after, ?_, region ▸ final, ?_, lowered.trans (changed.mono inUpper)⟩
          · rw [turn, if_neg firstHalf, rest]
            exact ran
          · refine .cons pos ?_ (by rw [digit]; exact ordering)
            rw [digit]
            apply lower.frame
            intro q mem
            rw [changed.outside q]
            intro inside
            simp only [mem_block] at mem inside
            omega

theorem trimBlock_exists (ordered : OrderedBlock state.pages k b)
    (bounded : k ≤ maxOrder) (zero : ∀ q ∈ block k b, (state.pages q).flags = 0) (listed : Listed state free)
    (apart : ∀ q ∈ block k b, q ∉ free) (pos : actual ≠ 0) (fits : actual ≤ 2 ^ k) :
    ∃ after, trimBlock b actual state = .ok after ∧ Listed after (free ∪ run (b + actual) (2 ^ k - actual)) ∧
      RunOrdered after.pages b actual ∧ Reordered (block k b) state after := by
  obtain ⟨after, ran, result⟩ := trimLoop_exists ordered bounded (Nat.lt_succ_of_le bounded) zero listed apart pos fits
  refine ⟨after, ?_, result⟩
  have headFree := isFree_of_zero (zero b (start_mem_block _ _))
  simp only [trimBlock, headFree, Bool.not_true, bugOn_false, beq_eq_false_iff_ne.mpr pos, ok_bind]
  exact ran

end KOs.Mm

import Mathlib.Data.Nat.Find
import Mathlib.Data.Set.Basic
import Mathlib.Tactic.Ring

namespace KOs.Data

/-! Aligned blocks of power-of-two size and the coarsest way to tile a set by
them.

The block of order `k` at `b` holds the `2 ^ k` numbers from `b` on.  Two aligned
blocks are nested or disjoint, so every set has exactly one tiling by blocks that
cannot be merged into a bigger one: its maximal blocks.
-/

def block (k b : Nat) : Set Nat := {q | b ≤ q ∧ q < b + 2 ^ k}

/-- The start of the aligned block of order `k` that `q` lies in. -/
def blockBase (k q : Nat) : Nat := q / 2 ^ k * 2 ^ k

/-- The other half of the next larger aligned block. -/
def buddy (k b : Nat) : Nat :=
  if b / 2 ^ k % 2 = 0 then b + 2 ^ k else b - 2 ^ k

/-- A block of `free`, of order at most `limit`, that is not part of a larger
such block. -/
structure MaxBlock (free : Set Nat) (limit k b : Nat) : Prop where
  order : k ≤ limit
  aligned : 2 ^ k ∣ b
  inside : block k b ⊆ free
  maximal : k < limit → ¬ block (k + 1) (blockBase (k + 1) b) ⊆ free

variable {j k a b q : Nat}

theorem mem_block : q ∈ block k b ↔ b ≤ q ∧ q < b + 2 ^ k := Iff.rfl

theorem start_mem_block (k b : Nat) : b ∈ block k b :=
  ⟨Nat.le_refl b, Nat.lt_add_of_pos_right (Nat.two_pow_pos k)⟩

theorem blockBase_aligned (k q : Nat) : 2 ^ k ∣ blockBase k q :=
  Nat.dvd_mul_left _ _

theorem mem_block_blockBase (k q : Nat) : q ∈ block k (blockBase k q) := by
  have split := Nat.div_add_mod' q (2 ^ k)
  constructor <;> unfold blockBase <;> omega

theorem blockBase_of_mem (aligned : 2 ^ k ∣ b) (mem : q ∈ block k b) : blockBase k q = b := by
  obtain ⟨c, rfl⟩ := aligned
  have quotient : q / 2 ^ k = c := by
    apply Nat.div_eq_of_lt_le
    · rw [mul_comm]
      exact mem.1
    · calc q < 2 ^ k * c + 2 ^ k := mem.2
        _ = (c + 1) * 2 ^ k := by ring
  rw [blockBase, quotient, mul_comm]

theorem blockBase_of_aligned (aligned : 2 ^ k ∣ b) : blockBase k b = b :=
  blockBase_of_mem aligned (start_mem_block k b)

theorem blockBase_trans (le : j ≤ k) (mem : a ∈ block j (blockBase j q)) :
    blockBase k a = blockBase k q := by
  have same := blockBase_of_mem (blockBase_aligned j q) mem
  have quotient : a / 2 ^ j = q / 2 ^ j :=
    Nat.eq_of_mul_eq_mul_right (Nat.two_pow_pos j) same
  have power : 2 ^ k = 2 ^ j * 2 ^ (k - j) := by rw [← Nat.pow_add, Nat.add_sub_cancel' le]
  unfold blockBase
  rw [power, ← Nat.div_div_eq_div_mul, ← Nat.div_div_eq_div_mul, quotient]

theorem block_nested (le : j ≤ k) (q : Nat) :
    block j (blockBase j q) ⊆ block k (blockBase k q) := by
  intro a mem
  rw [← blockBase_trans le mem]
  exact mem_block_blockBase k a

theorem block_subset_of_mem (le : j ≤ k) (alignedA : 2 ^ j ∣ a) (alignedB : 2 ^ k ∣ b)
    (inA : q ∈ block j a) (inB : q ∈ block k b) : block j a ⊆ block k b := by
  have nested := block_nested le q
  rwa [blockBase_of_mem alignedA inA, blockBase_of_mem alignedB inB] at nested

theorem aligned_of_le (le : j ≤ k) (aligned : 2 ^ k ∣ b) : 2 ^ j ∣ b :=
  Nat.dvd_trans (Nat.pow_dvd_pow 2 le) aligned

theorem lower_half_subset (k b : Nat) : block k b ⊆ block (k + 1) b := by
  intro q mem
  simp only [mem_block, Nat.pow_succ] at mem ⊢
  omega

theorem upper_half_subset (k b : Nat) : block k (b + 2 ^ k) ⊆ block (k + 1) b := by
  intro q mem
  simp only [mem_block, Nat.pow_succ] at mem ⊢
  omega

theorem buddy_cases (aligned : 2 ^ k ∣ b) :
    (buddy k b = b + 2 ^ k ∧ blockBase (k + 1) b = b) ∨ (buddy k b + 2 ^ k = b ∧ blockBase (k + 1) b = buddy k b) := by
  obtain ⟨c, rfl⟩ := aligned
  have pos := Nat.two_pow_pos k
  have index : 2 ^ k * c / 2 ^ k = c := Nat.mul_div_cancel_left c pos
  have pair : 2 ^ k * c / 2 ^ (k + 1) = c / 2 := by rw [Nat.pow_succ, ← Nat.div_div_eq_div_mul, index]
  obtain ⟨d, even | odd⟩ := Nat.even_or_odd' c
  · left
    subst even
    refine ⟨by simp [buddy, index], ?_⟩
    rw [blockBase, pair, Nat.pow_succ]
    have half : 2 * d / 2 = d := by omega
    rw [half]
    ring
  · right
    subst odd
    have upper : (2 * d + 1) % 2 ≠ 0 := by omega
    have half : (2 * d + 1) / 2 = d := by omega
    have start : buddy k (2 ^ k * (2 * d + 1)) = 2 ^ k * (2 * d) := by
      rw [buddy, index, if_neg upper, Nat.mul_succ, Nat.add_sub_cancel]
    refine ⟨by rw [start]; ring, ?_⟩
    rw [start, blockBase, pair, half, Nat.pow_succ]
    ring

theorem buddy_lower (aligned : 2 ^ (k + 1) ∣ b) : buddy k b = b + 2 ^ k := by
  rcases buddy_cases (aligned_of_le (Nat.le_succ k) aligned) with ⟨upper, _⟩ | ⟨lower, base⟩
  · exact upper
  · rw [blockBase_of_aligned aligned] at base
    omega

theorem buddy_upper (aligned : 2 ^ (k + 1) ∣ b) : buddy k (b + 2 ^ k) = b := by
  have pair := blockBase_of_mem aligned (upper_half_subset k b (start_mem_block k _))
  have halfAligned := Nat.dvd_add (aligned_of_le (Nat.le_succ k) aligned) (dvd_refl (2 ^ k))
  rcases buddy_cases halfAligned with ⟨_, base⟩ | ⟨_, _⟩ <;> omega

section

variable (aligned : 2 ^ k ∣ b)
include aligned

theorem buddy_aligned : 2 ^ k ∣ buddy k b := by
  rcases buddy_cases aligned with ⟨upper, _⟩ | ⟨lower, _⟩
  · rw [upper]
    exact Nat.dvd_add aligned (dvd_refl _)
  · rw [← lower] at aligned
    exact (Nat.dvd_add_left (dvd_refl _)).mp aligned

theorem mem_pair_iff :
    q ∈ block (k + 1) (blockBase (k + 1) b) ↔ q ∈ block k b ∨ q ∈ block k (buddy k b) := by
  simp only [mem_block, Nat.pow_succ]
  rcases buddy_cases aligned with ⟨upper, base⟩ | ⟨lower, base⟩
  · rw [base, upper]
    omega
  · rw [base]
    omega

theorem buddy_disjoint (inB : q ∈ block k b) : q ∉ block k (buddy k b) := by
  simp only [mem_block] at inB ⊢
  rcases buddy_cases aligned with ⟨upper, _⟩ | ⟨lower, _⟩ <;> omega

theorem buddy_pair :
    blockBase (k + 1) (buddy k b) = blockBase (k + 1) b :=
  blockBase_of_mem (blockBase_aligned _ _) ((mem_pair_iff aligned).mpr (Or.inr (start_mem_block k _)))

end

theorem pair_lt {limit : Nat} (aligned : 2 ^ (k + 1) ∣ limit) (below : b < limit)
    (mem : q ∈ block (k + 1) (blockBase (k + 1) b)) : q < limit := by
  obtain ⟨c, rfl⟩ := aligned
  have quotient : b / 2 ^ (k + 1) < c := Nat.div_lt_of_lt_mul below
  calc q < blockBase (k + 1) b + 2 ^ (k + 1) := mem.2
    _ = (b / 2 ^ (k + 1) + 1) * 2 ^ (k + 1) := by rw [blockBase]; ring
    _ ≤ c * 2 ^ (k + 1) := Nat.mul_le_mul_right _ quotient
    _ = 2 ^ (k + 1) * c := mul_comm _ _

/-- `q` has exactly `j` trailing zero bits. -/
def Trailing (q j : Nat) : Prop := 2 ^ j ∣ q ∧ ¬ 2 ^ (j + 1) ∣ q

theorem Trailing.unique {i : Nat} (left : Trailing q i) (right : Trailing q j) : i = j := by
  have ordered : ∀ {i j}, Trailing q i → Trailing q j → ¬ i < j := by
    intro i j small large below
    exact small.2 (aligned_of_le below large.1)
  have notBelow := ordered left right
  have notAbove := ordered right left
  omega

theorem trailing_upper_half (aligned : 2 ^ (k + 1) ∣ b) : Trailing (b + 2 ^ k) k := by
  constructor
  · exact Nat.dvd_add (aligned_of_le (Nat.le_succ k) aligned) (dvd_refl _)
  · intro divides
    have half : 2 ^ (k + 1) ∣ 2 ^ k := (Nat.dvd_add_right aligned).mp divides
    have tooBig := Nat.le_of_dvd (Nat.two_pow_pos k) half
    omega

theorem xor_leading_bit {n : Nat} (pos : n ≠ 0) :
    n ^^^ 2 ^ Nat.log2 n = n - 2 ^ Nat.log2 n := by
  have lower := Nat.log2_self_le pos
  have upper : n < 2 ^ (Nat.log2 n + 1) := Nat.lt_log2_self
  obtain ⟨rest, split⟩ := Nat.exists_eq_add_of_le lower
  have small : rest < 2 ^ Nat.log2 n := by
    omega
  have bits : n = 2 ^ Nat.log2 n ||| rest := by
    have disjoint := Nat.two_pow_add_eq_or_of_lt small 1
    rw [Nat.mul_one] at disjoint
    rw [← disjoint]
    exact split
  have cleared : (2 ^ Nat.log2 n ||| rest) ^^^ 2 ^ Nat.log2 n = rest := by
    apply Nat.eq_of_testBit_eq
    intro i
    by_cases top : Nat.log2 n = i
    · have clear : rest.testBit i = false := Nat.testBit_lt_two_pow (top ▸ small)
      simp [top, clear]
    · simp [top]
  rw [← bits] at cleared
  omega

section MaximalBlocks

variable {free : Set Nat} {limit : Nat}

/-- A maximal block is not the smaller of two that overlap: it would extend inside the other. -/
theorem MaxBlock.le_of_mem (small : MaxBlock free limit j a) (order : k ≤ limit) (aligned : 2 ^ k ∣ b)
    (inside : block k b ⊆ free) (inSmall : q ∈ block j a) (inLarge : q ∈ block k b) : k ≤ j := by
  refine not_lt.mp fun below => small.maximal (below.trans_le order) ?_
  have pair : blockBase (j + 1) a = blockBase (j + 1) q := by
    apply blockBase_trans (Nat.le_succ j)
    rw [blockBase_of_mem small.aligned inSmall]
    exact start_mem_block j a
  rw [pair]
  have nested := block_nested below q
  rw [blockBase_of_mem aligned inLarge] at nested
  exact nested.trans inside

theorem MaxBlock.eq_of_mem (left : MaxBlock free limit j a) (right : MaxBlock free limit k b)
    (inLeft : q ∈ block j a) (inRight : q ∈ block k b) : j = k ∧ a = b := by
  have same : j = k := Nat.le_antisymm (right.le_of_mem left.order left.aligned left.inside inRight inLeft)
    (left.le_of_mem right.order right.aligned right.inside inLeft inRight)
  subst same
  exact ⟨rfl, (blockBase_of_mem left.aligned inLeft).symm.trans (blockBase_of_mem right.aligned inRight)⟩

theorem exists_maxBlock (limit : Nat) (mem : q ∈ free) :
    ∃ k b, MaxBlock free limit k b ∧ q ∈ block k b := by
  classical
  let fits := fun k => block k (blockBase k q) ⊆ free
  have single : fits 0 := by
    intro a inside
    have same : a = q := by
      have unit := mem_block.mp inside
      simp only [blockBase, Nat.pow_zero, Nat.div_one, Nat.mul_one] at unit
      omega
    rwa [same]
  let k := Nat.findGreatest fits limit
  have fitting : fits k := Nat.findGreatest_spec (Nat.zero_le limit) single
  refine ⟨k, blockBase k q, ⟨Nat.findGreatest_le _, blockBase_aligned k q, fitting, ?_⟩, mem_block_blockBase k q⟩
  intro below extended
  rw [blockBase_trans (Nat.le_succ k) (start_mem_block k _)] at extended
  exact Nat.findGreatest_is_greatest (P := fits) (Nat.lt_succ_self k) below extended

theorem MaxBlock.buddy_not_maxBlock (holds : MaxBlock free limit k b) (below : k < limit) :
    ¬ MaxBlock free limit k (buddy k b) := by
  intro other
  apply holds.maximal below
  intro q mem
  rcases (mem_pair_iff holds.aligned).mp mem with inB | inBuddy
  · exact holds.inside inB
  · exact other.inside inBuddy

theorem maxBlock_diff_iff (holds : MaxBlock free limit k b) :
    MaxBlock free limit j a ↔ (j = k ∧ a = b) ∨ MaxBlock (free \ block k b) limit j a := by
  constructor
  · intro other
    by_cases meets : ∃ q ∈ block j a, q ∈ block k b
    · obtain ⟨q, inA, inB⟩ := meets
      exact .inl (other.eq_of_mem holds inA inB)
    · right
      refine ⟨other.order, other.aligned, ?_, ?_⟩
      · intro q inA
        exact ⟨other.inside inA, fun inB => meets ⟨q, inA, inB⟩⟩
      · intro below extended
        exact other.maximal below (extended.trans Set.sdiff_subset)
  · rintro (⟨rfl, rfl⟩ | other)
    · exact holds
    · refine ⟨other.order, other.aligned, other.inside.trans Set.sdiff_subset, ?_⟩
      intro below extended
      have startPair : a ∈ block (j + 1) (blockBase (j + 1) a) := mem_block_blockBase _ _
      apply other.maximal below
      intro q inPair
      refine ⟨extended inPair, fun inB => ?_⟩
      by_cases larger : j + 1 ≤ k
      · -- The pair lies in the removed block, but its first half avoids it.
        have nested := block_subset_of_mem larger (blockBase_aligned _ _) holds.aligned inPair inB
        exact (other.inside (start_mem_block j a)).2 (nested startPair)
      · -- The removed block lies in the pair and would extend inside it.
        have smaller : k + 1 ≤ j + 1 := by omega
        apply holds.maximal (by omega)
        have meets : q ∈ block (k + 1) (blockBase (k + 1) b) :=
          (mem_pair_iff holds.aligned).mpr (.inl inB)
        exact (block_subset_of_mem smaller (blockBase_aligned _ _) (blockBase_aligned _ _) meets inPair).trans extended

theorem maxBlock_union_iff (order : k ≤ limit) (aligned : 2 ^ k ∣ b)
    (apart : ∀ q ∈ block k b, q ∉ free) (alone : k < limit → ¬ block k (buddy k b) ⊆ free) :
    MaxBlock (free ∪ block k b) limit j a ↔ (j = k ∧ a = b) ∨ MaxBlock free limit j a := by
  have holds : MaxBlock (free ∪ block k b) limit k b := by
    refine ⟨order, aligned, Set.subset_union_right, fun below extended => alone below ?_⟩
    intro q inBuddy
    have covered := extended ((mem_pair_iff aligned).mpr (.inr inBuddy))
    rcases covered with inFree | inB
    · exact inFree
    · exact absurd inBuddy (buddy_disjoint aligned inB)
  have rest : (free ∪ block k b) \ block k b = free := by
    ext q
    constructor
    · rintro ⟨inFree | inB, outside⟩
      · exact inFree
      · exact absurd inB outside
    · intro inFree
      exact ⟨.inl inFree, fun inB => apart q inB inFree⟩
  have taken := maxBlock_diff_iff holds (j := j) (a := a)
  rwa [rest] at taken

end MaximalBlocks

end KOs.Data

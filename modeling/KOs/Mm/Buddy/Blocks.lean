import KOs.Data.Dyadic
import KOs.Mm.Frames

namespace KOs.Mm

open KOs.Common KOs.Data Function

/-! What the free lists hold, and the two ways a block changes its order.

The order field of a frame inside a block is left over from the join that last
swallowed it, and `split_block` reads it back: by `OrderedBlock` it is the number
of trailing zeros of the frame's index.
-/

structure OrderedBlock (pages : Nat → Page) (k b : Nat) : Prop where
  aligned : 2 ^ k ∣ b
  head : (pages b).order = k
  interior : ∀ q ∈ block k b, q ≠ b → Trailing q (pages q).order

variable {k b : Nat}
variable {pages : Nat → Page} {state after : Frames}

theorem OrderedBlock.frame {changed : Nat → Page} (ordered : OrderedBlock pages k b)
    (same : ∀ q ∈ block k b, (changed q).order = (pages q).order) :
    OrderedBlock changed k b := by
  refine ⟨ordered.aligned, ?_, ?_⟩
  · rw [same b (start_mem_block k b)]
    exact ordered.head
  · intro q mem notHead
    rw [same q mem]
    exact ordered.interior q mem notHead

theorem orderedBlock_zero (order : (pages b).order = 0) :
    OrderedBlock pages 0 b := by
  refine ⟨by simp, order, ?_⟩
  intro q mem notHead
  simp only [mem_block, Nat.pow_zero] at mem
  omega

variable {page : Page}

section Updates

variable (state : Frames) (index q : Nat)

@[simp] theorem setPage_same (page : Page) : (state.setPage index page).pages index = page :=
  if_pos rfl

theorem setPage_other {state : Frames} {index q : Nat} (ne : q ≠ index) :
    (state.setPage index page).pages q = state.pages q :=
  if_neg ne

theorem setPage_field {β : Type} (field : Page → β) (kept : field page = field (state.pages index)) :
    field ((state.setPage index page).pages q) = field (state.pages q) := by
  by_cases same : q = index
  · rw [same, setPage_same, kept]
  · rw [setPage_other same]

@[simp] theorem setOrder_order (order : Nat) :
    ((state.setOrder index order).pages q).order =
      if q = index then order else (state.pages q).order := by
  simp only [Frames.setOrder, Frames.setPage]
  split <;> rfl

@[simp] theorem setOrder_flags (order : Nat) :
    ((state.setOrder index order).pages q).flags = (state.pages q).flags :=
  setPage_field _ _ q Page.flags rfl

@[simp] theorem setOrder_list (order : Nat) : (state.setOrder index order).list = state.list := rfl

@[simp] theorem setFlags_order (flags : UInt8) :
    ((state.setFlags index flags).pages q).order = (state.pages q).order :=
  setPage_field _ _ q Page.order rfl

@[simp] theorem setCompoundNum_order (num : Nat) :
    ((state.setCompoundNum index num).pages q).order = (state.pages q).order :=
  setPage_field _ _ q Page.order rfl

@[simp] theorem setCompoundNum_flags (num : Nat) :
    ((state.setCompoundNum index num).pages q).flags = (state.pages q).flags :=
  setPage_field _ _ q Page.flags rfl

@[simp] theorem setCompoundNum_addr (num : Nat) :
    ((state.setCompoundNum index num).pages q).addr = (state.pages q).addr :=
  setPage_field _ _ q Page.addr rfl

end Updates

theorem isFree_of_zero (zero : page.flags = 0) : isFree page = true := by
  simp [isFree, zero]

theorem getBuddy_eq {page : Nat} (order : (state.pages page).order = k) :
    getBuddy state page = buddy k page := by
  simp [getBuddy, isMaster, getOrderIdx, buddy, order]

theorem getMaster_eq {page : Nat} (aligned : 2 ^ k ∣ page) (order : (state.pages page).order = k) :
    getMaster state page = blockBase (k + 1) page := by
  have split : getMaster state page =
      if page / 2 ^ k % 2 = 0 then page else page - 2 ^ k := by
    simp only [getMaster, getBuddy, isMaster, getOrderIdx, order, beq_iff_eq]
    split <;> simp_all
  rcases buddy_cases aligned with ⟨upper, base⟩ | ⟨lower, base⟩
  · have even : page / 2 ^ k % 2 = 0 := by
      by_contra odd
      rw [buddy, if_neg odd] at upper
      omega
    rw [split, if_pos even, base]
  · have odd : ¬ page / 2 ^ k % 2 = 0 := by
      intro even
      rw [buddy, if_pos even] at lower
      omega
    rw [split, if_neg odd, base]
    omega

theorem isSubblockMaster_of_ordered (ordered : OrderedBlock state.pages k b) :
    isSubblockMaster state b = true := by
  simp only [isSubblockMaster, ordered.head, getOrderIdx, Bool.or_eq_true, beq_iff_eq]
  cases k with
  | zero => exact .inl rfl
  | succ k =>
    obtain ⟨c, rfl⟩ := ordered.aligned
    rw [Nat.add_sub_cancel, Nat.pow_succ, Nat.mul_assoc, Nat.mul_div_cancel_left _ (Nat.two_pow_pos k)]
    omega

/-- The heads `mm_init` initialises. -/
def orders : Set Nat := {k | k ≤ maxOrder}

/-- The sequences in the free lists are the maximal blocks of `free`, in order. -/
structure FreeLists (state : Frames) (lists : Nat → List Nat) (free : Set Nat) : Prop where
  links : state.list.Represents orders lists
  blocks : ∀ k b, b ∈ lists k ↔ MaxBlock free maxOrder k b
  ordered : ∀ k b, b ∈ lists k → OrderedBlock state.pages k b

def Listed (state : Frames) (free : Set Nat) : Prop := ∃ lists, FreeLists state lists free

variable {lists : Nat → List Nat} {free : Set Nat}

theorem FreeLists.not_listed (listed : FreeLists state lists free) (outside : b ∉ free) (k : Nat) :
    b ∉ lists k := by
  intro mem
  exact outside (((listed.blocks k b).mp mem).inside (start_mem_block k b))

theorem FreeLists.frame (listed : FreeLists state lists free) (links : after.list = state.list)
    (same : ∀ q ∈ free, (after.pages q).order = (state.pages q).order) :
    FreeLists after lists free := by
  refine ⟨links ▸ listed.links, listed.blocks, ?_⟩
  intro k b mem
  apply (listed.ordered k b mem).frame
  intro q inside
  exact same q (((listed.blocks k b).mp mem).inside inside)

theorem Listed.frame (listed : Listed state free) (links : after.list = state.list)
    (same : ∀ q ∈ free, (after.pages q).order = (state.pages q).order) : Listed after free := by
  obtain ⟨lists, holds⟩ := listed
  exact ⟨lists, holds.frame links same⟩

theorem addToFreelists_exists (listed : Listed state free) (ordered : OrderedBlock state.pages k b)
    (zero : (state.pages b).flags = 0) (bounded : k ≤ maxOrder) (apart : ∀ q ∈ block k b, q ∉ free)
    (alone : k < maxOrder → ¬ block k (buddy k b) ⊆ free) :
    ∃ after, addToFreelists b state = .ok after ∧ after.pages = state.pages ∧ Listed after (free ∪ block k b) := by
  obtain ⟨lists, holds⟩ := listed
  have fresh : ∀ j, b ∉ lists j := holds.not_listed (apart b (start_mem_block k b))
  have added : addToFreelists b state = .ok { state with list := listAdd (.inr b) (.inl k) state.list } := by
    simp [addToFreelists, isFree_of_zero zero, isSubblockMaster_of_ordered ordered, ordered.head]
  refine ⟨_, added, rfl, update _ k (b :: lists k), listAdd_represents holds.links bounded fresh, ?_, ?_⟩
  · intro j a
    rw [added_iff, maxBlock_union_iff bounded ordered.aligned apart alone, ← holds.blocks, and_comm]
  · intro j a mem
    rcases (added_iff j).mp mem with ⟨rfl, rfl⟩ | old
    · exact ordered
    · exact holds.ordered j a old

theorem listRm_listed (holds : FreeLists state lists free) (mem : b ∈ lists k) :
    Listed { state with list := listRm (.inr b) state.list } (free \ block k b) := by
  have maximal := (holds.blocks k b).mp mem
  refine ⟨update _ k _, listRm_represents holds.links mem, ?_, ?_⟩
  · intro j a
    rw [erased_iff holds.links mem, holds.blocks, maxBlock_diff_iff maximal]
    constructor
    · intro ⟨ne, found⟩
      exact found.resolve_left fun eq => ne eq.2
    · intro remaining
      refine ⟨fun eq => ?_, .inr remaining⟩
      exact (remaining.inside (start_mem_block j a)).2 (eq ▸ start_mem_block k b)
  · intro j a inside
    exact holds.ordered j a ((erased_iff holds.links mem j).mp inside).2

theorem OrderedBlock.split (ordered : OrderedBlock state.pages (k + 1) b) :
    OrderedBlock (state.setOrder b k).pages k b ∧ OrderedBlock (state.setOrder b k).pages k (b + 2 ^ k) := by
  have pos := Nat.two_pow_pos k
  have upper : b + 2 ^ k ∈ block (k + 1) b := by
    rw [mem_block, Nat.pow_succ]
    omega
  have notHead : b + 2 ^ k ≠ b := by omega
  have halfAligned := aligned_of_le (Nat.le_succ k) ordered.aligned
  have slaveOrder := (ordered.interior _ upper notHead).unique (trailing_upper_half ordered.aligned)
  refine ⟨⟨halfAligned, by simp, ?_⟩, ⟨Nat.dvd_add halfAligned (Nat.dvd_refl _), by simp [slaveOrder], ?_⟩⟩
  · intro q mem ne
    rw [setOrder_order, if_neg ne]
    apply ordered.interior q _ ne
    simp only [mem_block, Nat.pow_succ] at mem ⊢
    omega
  · intro q mem ne
    simp only [mem_block] at mem
    have notStart : q ≠ b := by omega
    rw [setOrder_order, if_neg notStart]
    apply ordered.interior q _ notStart
    rw [mem_block, Nat.pow_succ]
    omega

theorem OrderedBlock.join {m : Nat} (aligned : 2 ^ (k + 1) ∣ m) (lower : OrderedBlock state.pages k m)
    (upper : OrderedBlock state.pages k (m + 2 ^ k)) :
    OrderedBlock (state.setOrder m (k + 1)).pages (k + 1) m := by
  refine ⟨aligned, by simp, ?_⟩
  intro q mem notHead
  rw [setOrder_order, if_neg notHead]
  simp only [mem_block, Nat.pow_succ] at mem
  by_cases inLower : q < m + 2 ^ k
  · exact lower.interior q ⟨mem.1, inLower⟩ notHead
  · by_cases slave : q = m + 2 ^ k
    · rw [slave, upper.head]
      exact trailing_upper_half aligned
    · exact upper.interior q ⟨by omega, by omega⟩ slave

end KOs.Mm

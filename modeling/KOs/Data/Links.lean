import Mathlib.Data.List.Chain
import Mathlib.Data.List.Nodup
import Mathlib.Data.Set.Insert

namespace KOs.Data

open Function List

/-! Circular doubly linked lists as a memory of link cells.

A node is the head of a list (`Sum.inl`) or an item (`Sum.inr`), and owns one cell.
`Represents` says which sequence of items hangs off each of a set of heads that
share one memory.  Other heads, and items outside every sequence, have
unconstrained cells.
-/

structure Link (ν : Type u) where
  prev : ν
  next : ν
deriving DecidableEq, Repr

structure Links (ν : Type u) where
  cell : ν → Link ν

namespace Links

instance {ν : Type u} : CoeFun (Links ν) (fun _ => ν → Link ν) := ⟨cell⟩

variable {ν : Type u} {links : Links ν}

section Cells

variable [DecidableEq ν]

def setPrev (links : Links ν) (node target : ν) : Links ν where
  cell other := if other = node then { links other with prev := target } else links other

def setNext (links : Links ν) (node target : ν) : Links ν where
  cell other := if other = node then { links other with next := target } else links other

@[simp] theorem setPrev_next (links : Links ν) (node target other : ν) :
    (links.setPrev node target other).next = (links other).next := by
  simp only [setPrev]
  split <;> rfl

@[simp] theorem setNext_prev (links : Links ν) (node target other : ν) :
    (links.setNext node target other).prev = (links other).prev := by
  simp only [setNext]
  split <;> rfl

variable {node target : ν}

theorem setPrev_idle (same : (links node).prev = target) :
    links.setPrev node target = links := by
  subst same
  have cells (other : ν) : links.setPrev node (links node).prev other = links other := by
    simp only [setPrev]
    split
    next here =>
      rw [here]
    · rfl
  exact congrArg Links.mk (funext cells)

theorem setNext_idle (same : (links node).next = target) :
    links.setNext node target = links := by
  subst same
  have cells (other : ν) : links.setNext node (links node).next other = links other := by
    simp only [setNext]
    split
    next here =>
      rw [here]
    · rfl
  exact congrArg Links.mk (funext cells)

theorem setPrev_prev (links : Links ν) (node target other : ν) :
    (links.setPrev node target other).prev =
      if other = node then target else (links other).prev := by
  simp only [setPrev]
  split <;> rfl

theorem setNext_next (links : Links ν) (node target other : ν) :
    (links.setNext node target other).next =
      if other = node then target else (links other).next := by
  simp only [setNext]
  split <;> rfl

end Cells

/-- `first`, the nodes of `middle`, and `last` are chained in this order, with
both pointers of every hop agreeing. -/
def Segment {ν : Type u} (links : Links ν) : ν → List ν → ν → Prop
  | first, [], last => (links first).next = last ∧ (links last).prev = first
  | first, node :: middle, last =>
      ((links first).next = node ∧ (links node).prev = first) ∧
        Segment links node middle last

section Segments

variable {changed : Links ν} {first last cut : ν} {middle before after : List ν}

theorem Segment.frame (chained : links.Segment first middle last)
    (forward : ∀ node ∈ first :: middle, (changed node).next = (links node).next)
    (backward : ∀ node ∈ middle ++ [last], (changed node).prev = (links node).prev) :
    changed.Segment first middle last := by
  induction middle generalizing first with
  | nil =>
    obtain ⟨next, prev⟩ := chained
    exact ⟨(forward _ (by simp)).trans next, (backward last (by simp)).trans prev⟩
  | cons node _ ih =>
    obtain ⟨⟨next, prev⟩, rest⟩ := chained
    refine ⟨⟨(forward _ (by simp)).trans next, (backward node (by simp)).trans prev⟩, ih rest ?_ ?_⟩
    · intro other mem
      exact forward _ (mem_cons_of_mem _ mem)
    · intro other mem
      exact backward _ (by simp only [cons_append]; exact mem_cons_of_mem node mem)

theorem segment_append :
    links.Segment first (before ++ cut :: after) last ↔
      links.Segment first before cut ∧ links.Segment cut after last := by
  induction before generalizing first with
  | nil => exact Iff.rfl
  | cons _ _ ih =>
    simp [Segment, ih, and_assoc]

theorem Segment.prev_last (chained : links.Segment first middle last) :
    (first :: middle).getLast? = some (links last).prev := by
  induction middle generalizing first with
  | nil => simp [chained.2]
  | cons _ _ ih =>
    rw [getLast?_cons_cons]
    exact ih chained.2

theorem Segment.next_first (chained : links.Segment first middle last) :
    (middle ++ [last]).head? = some (links first).next := by
  cases middle with
  | nil => simp [chained.1]
  | cons => simp [chained.1.1]

def Linked (links : Links ν) (x y : ν) : Prop :=
  (links x).next = y ∧ (links y).prev = x

theorem segment_iff : links.Segment first middle last ↔ (first :: middle ++ [last]).IsChain links.Linked := by
  induction middle generalizing first with
  | nil => simp [Segment, Linked]
  | cons _ _ ih => simp [Segment, ih, Linked]

variable {x p n : ν} {old new : List ν}

/-- The nodes `old` between `p` and `n` are exchanged for others, with no other pointer changed. -/
theorem chain_splice (chain : (x :: before ++ (old ++ after)).IsChain links.Linked)
    (distinct : (before ++ (old ++ after)).Nodup)
    (last : (x :: before).getLast? = some p) (first : after.head? = some n)
    (built : (p :: new ++ [n]).IsChain changed.Linked)
    (forward : ∀ y ∈ x :: before ++ after, y ≠ p → (changed y).next = (links y).next)
    (backward : ∀ y ∈ before ++ after, y ≠ n → (changed y).prev = (links y).prev) :
    (x :: before ++ (new ++ after)).IsChain changed.Linked := by
  obtain ⟨rest, rfl⟩ : ∃ rest, after = n :: rest := by
    cases after with
    | nil => contradiction
    | cons => cases first; exact ⟨_, rfl⟩
  rw [isChain_append] at chain
  obtain ⟨head, tail, join⟩ := chain
  have next : ∀ y ∈ before ++ rest, y ≠ (links p).next := by
    intro y mem
    cases old with
    | nil => have := (join p last n rfl).1; grind
    | cons o => have := (join p last o rfl).1; grind
  -- A hop that does not end in `n` does not begin in `p` either.
  have keep : ∀ y ∈ x :: before ++ n :: rest, ∀ z ∈ before ++ rest, links.Linked y z → changed.Linked y z := by
    intro y mem z here linked
    have apart : y ≠ p := fun same => next z here (same ▸ linked.1.symm)
    have other : z ≠ n := by grind
    exact ⟨(forward y mem apart).trans linked.1, (backward z (by grind) other).trans linked.2⟩
  have upper := head.imp_of_mem_tail_imp fun y z mem here => keep y (by grind) z (by grind)
  have lower := tail.right_of_append.imp_of_mem_tail_imp fun y z mem here => keep y (by grind) z (by grind)
  rw [cons_append, isChain_cons] at built
  refine isChain_append.mpr ⟨upper, isChain_split.mpr ⟨built.2, lower⟩, fun y here z there => ?_⟩
  cases last.symm.trans here
  exact built.1 z (by cases new <;> exact there)

end Segments

/-- Every head of `heads` is the start of a well-formed ring holding exactly its
items, and no item is in two rings. -/
structure Represents {ι : Type u} {α : Type v} (links : Links (ι ⊕ α)) (heads : Set ι)
    (lists : ι → List α) : Prop where
  ring : ∀ i ∈ heads, links.Segment (.inl i) ((lists i).map .inr) (.inl i)
  nodup : ∀ i, (lists i).Nodup
  separate : ∀ {i j a}, a ∈ lists i → a ∈ lists j → i = j
  outside : ∀ i, i ∉ heads → lists i = []

namespace Represents

variable {ι : Type u} {α : Type v} {links : Links (ι ⊕ α)} {heads : Set ι}
  {lists other : ι → List α}

section

variable (holds : links.Represents heads lists)
include holds
variable {i : ι} {a : α} {changed : Links (ι ⊕ α)}

theorem head_of_mem (mem : a ∈ lists i) :
    i ∈ heads := by
  by_contra missing
  rw [holds.outside i missing] at mem
  contradiction

theorem next_head_eq_self_iff (inside : i ∈ heads) : (links (.inl i)).next = .inl i ↔ lists i = [] := by
  have chained := holds.ring i inside
  cases content : lists i with
  | nil =>
    rw [content] at chained
    simpa using chained.1
  | cons =>
    rw [content] at chained
    simp [chained.1.1]

theorem next_head {rest : List α} (content : lists i = a :: rest) : (links (.inl i)).next = .inr a := by
  have chained := holds.ring i (holds.head_of_mem (content ▸ mem_cons_self))
  rw [content] at chained
  exact chained.1.1

theorem next_item (mem : a ∈ lists i) :
    (links (.inr a)).next = .inl i ∨ ∃ b ∈ lists i, (links (.inr a)).next = .inr b := by
  have chained := holds.ring i (holds.head_of_mem mem)
  obtain ⟨before, after, content⟩ := append_of_mem mem
  rw [content, map_append, map_cons, segment_append] at chained
  have following := mem_of_mem_head? chained.2.next_first
  simp only [mem_append, mem_map, mem_singleton] at following
  rcases following with ⟨b, inside, same⟩ | atHead
  · exact .inr ⟨b, by simp [content, inside], same.symm⟩
  · exact .inl atHead

theorem ring_frame {j : ι} (inside : j ∈ heads) (head : changed (.inl j) = links (.inl j))
    (items : ∀ a ∈ lists j, changed (.inr a) = links (.inr a)) :
    changed.Segment (.inl j) ((lists j).map .inr) (.inl j) := by
  have same : ∀ node, node = .inl j ∨ node ∈ (lists j).map .inr → changed node = links node := by
    intro node either
    rcases either with atHead | mem
    · rw [atHead]
      exact head
    · obtain ⟨a, inside, rfl⟩ := mem_map.mp mem
      exact items a inside
  apply (holds.ring j inside).frame
  · intro node mem
    rw [same node (mem_cons.mp mem)]
  · intro node mem
    rw [same node (by simpa [or_comm] using mem)]

/-- Building or rebuilding one ring without touching the cells of the others
replaces one sequence.  The new sequence may hold items of the old one and
unlinked items. -/
theorem replace [DecidableEq ι] {items : List α} (rebuilt : changed.Segment (.inl i) (items.map .inr) (.inl i))
    (distinct : items.Nodup) (owned : ∀ a ∈ items, ∀ j, a ∈ lists j → j = i)
    (others : ∀ j ≠ i, changed (.inl j) = links (.inl j))
    (entries : ∀ j ≠ i, ∀ a ∈ lists j, changed (.inr a) = links (.inr a)) :
    changed.Represents (insert i heads) (update lists i items) := by
  refine ⟨fun j inside => ?_, fun j => ?_, fun {j k a} inJ inK => ?_, fun j missing => ?_⟩
  · by_cases same : j = i
    · subst same
      rwa [update_self]
    · rw [update_of_ne same]
      exact holds.ring_frame (inside.resolve_left same) (others j same) (entries j same)
  · by_cases same : j = i
    · subst same
      rwa [update_self]
    · rw [update_of_ne same]
      exact holds.nodup j
  · by_cases left : j = i <;> by_cases right : k = i
    · exact left.trans right.symm
    · rw [left, update_self] at inJ
      rw [update_of_ne right] at inK
      exact absurd (owned a inJ k inK) right
    · rw [right, update_self] at inK
      rw [update_of_ne left] at inJ
      exact absurd (owned a inK j inJ) left
    · rw [update_of_ne left] at inJ
      rw [update_of_ne right] at inK
      exact holds.separate inJ inK
  · rw [update_of_ne fun same => missing (.inl same)]
    exact holds.outside j fun inside => missing (.inr inside)

/-- A part of one ring is exchanged for unlinked items. -/
theorem splice [DecidableEq ι] {before old after new : List α} {p n : ι ⊕ α} (inside : i ∈ heads)
    (content : lists i = before ++ (old ++ after)) (last : (.inl i :: before.map .inr).getLast? = some p)
    (first : (after.map Sum.inr ++ [Sum.inl i]).head? = some n) (fresh : ∀ a ∈ new, ∀ j, a ∉ lists j)
    (distinct : new.Nodup) (built : (p :: new.map .inr ++ [n]).IsChain changed.Linked)
    (forward : ∀ x, x ≠ p → x ∉ new.map .inr → (changed x).next = (links x).next)
    (backward : ∀ x, x ≠ n → x ∉ new.map .inr → (changed x).prev = (links x).prev) :
    changed.Represents heads (update lists i (before ++ (new ++ after))) := by
  have left := mem_of_getLast? last
  have right := mem_of_mem_head? first
  have kept : ∀ x, x ∉ new.map .inr → x ≠ .inl i → x ∉ (lists i).map .inr → changed x = links x := by
    intro x apart head item
    rw [content] at item
    have notLast : x ≠ p := by grind
    have notFirst : x ≠ n := by grind
    exact congrArg₂ Link.mk (backward x notFirst apart) (forward x notLast apart)
  have nodup := holds.nodup i
  rw [← Set.insert_eq_of_mem inside]
  refine holds.replace ?_ ?_ ?_ ?_ ?_
  · have ring := holds.ring i inside
    rw [segment_iff, content] at ring
    have chain : List.IsChain links.Linked
        (.inl i :: before.map .inr ++ (old.map .inr ++ (after.map .inr ++ [.inl i]))) := by
      simpa using ring
    have spliced := chain_splice chain ?_ last first built ?_ ?_
    · simpa [segment_iff] using spliced
    · have nodes := (content ▸ nodup).map (f := (Sum.inr : α → ι ⊕ α)) fun _ _ => Sum.inr.inj
      simp only [← append_assoc, ← map_append] at nodes ⊢
      exact nodup_append.mpr ⟨nodes, nodup_singleton _, by grind⟩
    · intro y mem ne
      exact forward y ne (by grind)
    · intro y mem ne
      exact backward y ne (by grind)
  · grind
  · intro a mem j inJ
    exact holds.separate inJ (by grind)
  · intro j ne
    exact kept _ (by simp) (by simp [ne]) (by simp)
  · intro j ne b mem
    have apart : b ∉ lists i := fun here => ne (holds.separate mem here)
    exact kept _ (by grind) (by simp) (by simpa using apart)

/-- The ring of a head that is given up may be left as it is. -/
theorem drop [DecidableEq ι] (i : ι) :
    links.Represents (heads \ {i}) (update lists i []) := by
  have kept : ∀ {j a}, a ∈ update lists i [] j → j ≠ i ∧ a ∈ lists j := by
    intro j a mem
    by_cases same : j = i
    · rw [same, update_self] at mem
      contradiction
    · rw [update_of_ne same] at mem
      exact ⟨same, mem⟩
  refine ⟨fun j inside => ?_, fun j => ?_, fun inJ inK => ?_, fun j missing => ?_⟩
  · rw [update_of_ne inside.2]
    exact holds.ring j inside.1
  · by_cases same : j = i
    · rw [same, update_self]
      exact nodup_nil
    · rw [update_of_ne same]
      exact holds.nodup j
  · exact holds.separate (kept inJ).2 (kept inK).2
  · by_cases same : j = i
    · rw [same, update_self]
    · rw [update_of_ne same]
      exact holds.outside j fun inside => missing ⟨inside, same⟩

end

end Represents

end Links

end KOs.Data

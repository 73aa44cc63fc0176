import KOs.Common.List
import KOs.Data.Word

namespace KOs.Common

open KOs.Data Function Links

/-! The hash tables of `common/hashtable.h`: chains whose nodes know the pointer to them. -/

def hashPrime : Nat := 0x9e370001

def hash32 (key bits : Nat) : Nat := wmul key hashPrime / 2 ^ (32 - bits)

structure Chains (ι β : Type) where
  /-- `first` of a head and `next` of a node. -/
  next : ι ⊕ β → Option β
  /-- Whose `first` or `next` is pointed to. -/
  pprev : β → Option (ι ⊕ β)

variable {ι β : Type} {size : Nat}

def hashtableIndex (size key : Nat) : Except Fault (Fin size) :=
  let index := hash32 key (Nat.log2 size)
  if h : index < size then .ok ⟨index, h⟩ else .error (.outOfBounds "hashtable" index)

/-- `CHAIN_FOR_EACH_ENTRY`: the entries its body is run for. -/
def chainForEach (c : Chains ι β) : Nat → Option β → Except Fault (List β)
  | _, none => .ok []
  | 0, some _ => .error .unfinished
  | bound + 1, some pos => (chainForEach c bound (c.next (.inr pos))).map (pos :: ·)

def hashtableForEachCollision (bound key : Nat) (c : Chains (Fin size) β) : Except Fault (List β) :=
  (hashtableIndex size key).bind fun i => chainForEach c bound (c.next (.inl i))

/-- The chains are the rings of `links`, without what points to the heads from behind them. -/
structure Mirrors (c : Chains (Fin size) β) (keys : β → Option Nat) (links : Links (Fin size ⊕ β))
    (lists : Fin size → List β) : Prop where
  holds : links.Represents Set.univ lists
  stored : ∀ i n, n ∈ lists i ↔ ∃ key, keys n = some key ∧ hashtableIndex size key = .ok i
  next_head : ∀ i, c.next (.inl i) = (links (.inl i)).next.getRight?
  next_node : ∀ i, ∀ n ∈ lists i, c.next (.inr n) = (links (.inr n)).next.getRight?
  pprev : ∀ i, ∀ n ∈ lists i, c.pprev n = some (links (.inr n)).prev

theorem hashtableIndex_ok (b key : Nat) : ∃ i, hashtableIndex (2 ^ b) key = .ok i := by
  have below : hash32 key (Nat.log2 (2 ^ b)) < 2 ^ b := by
    rw [Nat.log2_two_pow, hash32]
    refine Nat.div_lt_of_lt_mul ((Nat.mod_lt _ wordSize_positive).trans_le ?_)
    rw [← Nat.pow_add]
    exact Nat.pow_le_pow_right Nat.two_pos (by omega)
  exact ⟨⟨_, below⟩, dif_pos below⟩

theorem chainForEach_eq {x : ι ⊕ β} {rest : List β} {c : Chains ι β} {links : Links (ι ⊕ β)} {i : ι}
    (chained : links.Segment x (rest.map .inr) (.inl i)) (next : c.next x = (links x).next.getRight?)
    (nodes : ∀ n ∈ rest, c.next (.inr n) = (links (.inr n)).next.getRight?) :
    chainForEach c rest.length (c.next x) = .ok rest := by
  induction rest generalizing x with
  | nil => simp [next, chained.1, chainForEach]
  | cons n rest ih =>
    obtain ⟨⟨first, _⟩, chained⟩ := chained
    obtain ⟨node, nodes⟩ := List.forall_mem_cons.mp nodes
    simp [next, first, chainForEach, ih chained node nodes]

section Changes

variable [DecidableEq ι] [DecidableEq β]

def chainJoin (pprev : ι ⊕ β) (next : Option β) (c : Chains ι β) : Chains ι β where
  next := update c.next pprev next
  pprev b := if next = some b then some pprev else c.pprev b

def chainRm (n : β) (c : Chains ι β) : Except Fault (Chains ι β) :=
  match c.pprev n with
  | none => .error (.outOfBounds "pprev" 0)
  | some pprev =>
      let c := chainJoin pprev (c.next (.inr n)) c
      .ok ⟨update c.next (.inr n) none, update c.pprev n none⟩

def chainAddHead (n : β) (h : ι) (c : Chains ι β) : Chains ι β :=
  chainJoin (.inl h) (some n) (chainJoin (.inr n) (c.next (.inl h)) c)

def hashtableAdd (key : Nat) (n : β) (c : Chains (Fin size) β) : Except Fault (Chains (Fin size) β) :=
  (hashtableIndex size key).map (chainAddHead n · c)

/-- The tables that come about, with the keys that the nodes in them were added with. -/
inductive Hashed : Chains (Fin size) β → (β → Option Nat) → Prop where
  | init (empty : ∀ i, c.next (.inl i) = none) : Hashed c fun _ => none
  | add (before : Hashed c keys) (unlinked : keys n = none) (added : hashtableAdd key n c = .ok c') :
      Hashed c' (update keys n (some key))
  | rm (before : Hashed c keys) (linked : keys n ≠ none) (removed : chainRm n c = .ok c') :
      Hashed c' (update keys n none)

variable {b key : Nat} {c : Chains (Fin (2 ^ b)) β} {keys : β → Option Nat} {n : β} {i : Fin (2 ^ b)}
  {links : Links (Fin (2 ^ b) ⊕ β)} {lists : Fin (2 ^ b) → List β}

section

variable (mirrors : Mirrors c keys links lists)
include mirrors

theorem Mirrors.add (unlinked : keys n = none) (index : hashtableIndex (2 ^ b) key = .ok i) :
    Mirrors (chainAddHead n i c) (update keys n (some key)) (listAdd (.inr n) (.inl i) links)
      (update lists i (n :: lists i)) := by
  obtain ⟨holds, stored, head, node, pprev⟩ := mirrors
  have fresh : ∀ j, n ∉ lists j := by simp [stored, unlinked]
  have mem : ∀ j m, m ∈ update lists i (n :: lists i) j ↔ m = n ∧ j = i ∨ m ∈ lists j := fun _ _ => added_iff _
  refine ⟨listAdd_represents holds (Set.mem_univ i) fresh, ?_, fun j => ?_, fun j m here => ?_,
    fun j m here => ?_⟩
  · grind
  · simp [listAdd, listInsert, setNext_next, chainAddHead, chainJoin]
    grind
  · simp [listAdd, listInsert, setNext_next, chainAddHead, chainJoin]
    grind
  · simp [listAdd, listInsert, setPrev_prev, chainAddHead, chainJoin]
    grind [Sum.getRight?_eq_some_iff]

theorem Mirrors.rm (mem : n ∈ lists i) :
    ∃ c', chainRm n c = .ok c' ∧ Mirrors c' (update keys n none) (listRm (.inr n) links)
      (update lists i ((lists i).erase n)) := by
  obtain ⟨holds, stored, head, node, pprev⟩ := mirrors
  have erased (j m) := erased_iff holds mem (b := m) j
  refine ⟨_, by rw [chainRm, pprev i n mem], listRm_represents holds mem, ?_, fun j => ?_,
    fun j m here => ?_, fun j m here => ?_⟩
  · grind
  · simp [listRm, listJoin, setNext_next, chainJoin]
    grind
  · simp [listRm, listJoin, setNext_next, chainJoin]
    grind
  · simp [listRm, listJoin, setPrev_prev, chainJoin]
    grind [Sum.getRight?_eq_some_iff]

omit [DecidableEq β] in
theorem Mirrors.linked (linked : keys n ≠ none) : ∃ i, n ∈ lists i := by
  obtain ⟨key, stored⟩ := Option.ne_none_iff_exists'.mp linked
  obtain ⟨i, index⟩ := hashtableIndex_ok b key
  exact ⟨i, (mirrors.stored i n).mpr ⟨key, stored, index⟩⟩

end

theorem Hashed.mirrors (hashed : Hashed c keys) : ∃ links lists, Mirrors c keys links lists := by
  induction hashed with
  | init empty =>
    refine ⟨⟨fun x => ⟨x, x⟩⟩, fun _ => [], ⟨?_, ?_, ?_, ?_⟩, ?_, ?_, ?_, ?_⟩ <;> simp [Segment, empty]
  | add _ unlinked added ih =>
    obtain ⟨links, lists, mirrors⟩ := ih
    obtain ⟨i, index, rfl⟩ := map_returns added
    exact ⟨_, _, mirrors.add unlinked index⟩
  | rm _ linked removed ih =>
    obtain ⟨links, lists, mirrors⟩ := ih
    obtain ⟨i, mem⟩ := mirrors.linked linked
    obtain ⟨c', returned, after⟩ := mirrors.rm mem
    cases returned.symm.trans removed
    exact ⟨_, _, after⟩

theorem hashtable_refines (hashed : Hashed c keys) :
    (∀ key n, keys n = none → ∃ c', hashtableAdd key n c = .ok c') ∧
    (∀ n, keys n ≠ none → (∃ c', chainRm n c = .ok c') ∧
      ∃ x, c.pprev n = some x ∧ c.next x = some n ∧ ∀ m, x = .inr m → keys m ≠ none) ∧
    ∀ key, ∃ bound visited, hashtableForEachCollision bound key c = .ok visited ∧ visited.Nodup ∧
      ∀ n, (keys n = some key → n ∈ visited) ∧ (n ∈ visited → keys n ≠ none) := by
  obtain ⟨links, lists, mirrors⟩ := hashed.mirrors
  refine ⟨fun key n _ => ?_, fun n linked => ?_, fun key => ?_⟩
  · obtain ⟨i, index⟩ := hashtableIndex_ok b key
    exact ⟨_, by rw [hashtableAdd, index, ok_map]⟩
  · obtain ⟨i, mem⟩ := mirrors.linked linked
    obtain ⟨c', removed, _⟩ := mirrors.rm mem
    refine ⟨⟨c', removed⟩, _, mirrors.pprev i n mem, ?_⟩
    have ring := mirrors.holds.ring i (Set.mem_univ i)
    obtain ⟨before, after, content⟩ := List.append_of_mem mem
    rw [content, List.map_append, List.map_cons, segment_append] at ring
    have last := ring.1.prev_last
    have next := ((List.isChain_append.mp (segment_iff.mp ring.1)).2.2 _ last _ rfl).1
    have := List.mem_of_getLast? last
    have := mirrors.next_head i
    have := mirrors.next_node i
    have := mirrors.stored i
    grind
  · obtain ⟨i, index⟩ := hashtableIndex_ok b key
    have walk := chainForEach_eq (mirrors.holds.ring i (Set.mem_univ i)) (mirrors.next_head i) (mirrors.next_node i)
    refine ⟨_, lists i, by rwa [hashtableForEachCollision, index], mirrors.holds.nodup i, fun n => ?_⟩
    have := mirrors.stored i n
    grind

end Changes

theorem hashtable_refines_collision : hashtableIndex (2 ^ 1) 7 = hashtableIndex (2 ^ 1) 5 ∧
    ∃ (c c' : Chains (Fin (2 ^ 1)) Bool) (keys : Bool → Option Nat), Hashed c keys ∧
      keys false = some 7 ∧ keys true = some 5 ∧
      (∃ bound visited, hashtableForEachCollision bound 7 c = .ok visited ∧ false ∈ visited) ∧
      chainRm false c = .ok c' ∧
      ∃ bound visited, hashtableForEachCollision bound 5 c' = .ok visited ∧ true ∈ visited ∧ false ∉ visited := by
  have empty : Hashed (⟨fun _ => none, fun _ => none⟩ : Chains (Fin (2 ^ 1)) Bool) fun _ => none := .init fun _ => rfl
  obtain ⟨_, one⟩ := (hashtable_refines empty).1 7 false rfl
  have first := empty.add rfl one
  obtain ⟨c, two⟩ := (hashtable_refines first).1 5 true rfl
  have both := first.add rfl two
  obtain ⟨⟨c', removed⟩, _⟩ := (hashtable_refines both).2.1 false (by simp)
  obtain ⟨bound, visited, walked, _, members⟩ := (hashtable_refines both).2.2 7
  obtain ⟨bound', visited', walked', _, members'⟩ := (hashtable_refines (both.rm (by simp) removed)).2.2 5
  exact ⟨by decide, c, c', _, both, rfl, rfl, ⟨bound, visited, walked, (members false).1 rfl⟩, removed,
    bound', visited', walked', (members' true).1 rfl, fun stays => (members' false).2 stays rfl⟩

end KOs.Common

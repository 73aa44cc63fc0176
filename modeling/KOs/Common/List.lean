import KOs.Common.Fault
import KOs.Data.Links

namespace KOs.Common

open KOs.Data Function Links

/-! The intrusive lists of `common/list.h`.

A node of type `ι ⊕ α` is the cell of a list head `ι` or the cell embedded in an
object `α`.  The operations are the pointer assignments of the source in their
order, and the theorems say what they do to the sequences.
-/

section Operations

variable {ν : Type u} [DecidableEq ν]

def listInit (entry : ν) (links : Links ν) : Links ν :=
  (links.setNext entry entry).setPrev entry entry

def listEmpty (links : Links ν) (head : ν) : Bool :=
  (links head).next = head

def listInsert (new prev next : ν) (links : Links ν) : Links ν :=
  (((links.setPrev next new).setNext new next).setPrev new prev).setNext prev new

def listAdd (new old : ν) (links : Links ν) : Links ν :=
  listInsert new old (links old).next links

def listAddBefore (new old : ν) (links : Links ν) : Links ν :=
  listInsert new (links old).prev old links

def listJoin (first second : ν) (links : Links ν) : Links ν :=
  (links.setNext first second).setPrev second first

def listReplace (old new : ν) (links : Links ν) : Links ν :=
  let links := links.setNext new (links old).next
  let links := links.setPrev (links new).next new
  let links := links.setPrev new (links old).prev
  links.setNext (links new).prev new

def listRm (entry : ν) (links : Links ν) : Links ν :=
  listJoin (links entry).prev (links entry).next links

def listMove (entry head : ν) (links : Links ν) : Links ν :=
  listAdd entry head (listRm entry links)

def listMoveBefore (entry head : ν) (links : Links ν) : Links ν :=
  listAddBefore entry head (listRm entry links)

def listRotateLeft (head : ν) (links : Links ν) : Links ν :=
  if listEmpty links head then links else listMoveBefore (links head).next head links

/-- `list_first` before its `containerof`: the cell, not yet the object. -/
def listFirst (links : Links ν) (head : ν) : ν :=
  (links head).next

end Operations

variable {ι : Type u} {α : Type v}

section Walk

variable [DecidableEq ι] [DecidableEq α]

/-- `LIST_FOR_EACH_ENTRY` from the given cell on, with a body that leaves the list alone: the entries
it is run for. -/
def listWalk (links : Links (ι ⊕ α)) (head : ι) : Nat → ι ⊕ α → Except Fault (List α)
  | 0, _ => .error .unfinished
  | bound + 1, node =>
      if node = .inl head then .ok []
      else
        match node with
        | .inl _ => .error .strayEntry
        | .inr a => (listWalk links head bound (links (.inr a)).next).map (a :: ·)

theorem listWalk_segment {links : Links (ι ⊕ α)} {head : ι} {first : ι ⊕ α} {items : List α} {bound : Nat}
    (chained : links.Segment first (items.map .inr) (.inl head)) (enough : items.length < bound) :
    listWalk links head bound (links first).next = .ok items := by
  induction items generalizing first bound with
  | nil =>
    obtain ⟨bound, rfl⟩ := Nat.exists_eq_add_of_lt enough
    have next : (links first).next = .inl head := chained.1
    simp [listWalk, next]
  | cons _ _ ih =>
    obtain ⟨bound, rfl⟩ := Nat.exists_eq_succ_of_ne_zero ((Nat.lt_of_le_of_lt (Nat.zero_le _) enough).ne')
    obtain ⟨⟨next, _⟩, rest⟩ := chained
    simp [listWalk, next, ih rest (Nat.lt_of_succ_lt_succ enough)]

end Walk

section Sequences

variable {i : ι}

variable {links : Links (ι ⊕ α)} {heads : Set ι} {lists : ι → List α} {a : α} {ν : Type w} {entry node : ν}

theorem listFirst_eq (holds : links.Represents heads lists) {rest : List α}
    (content : lists i = a :: rest) : listFirst links (.inl i) = .inr a :=
  holds.next_head content

variable [DecidableEq ι] [DecidableEq α]

theorem listEmpty_iff (holds : links.Represents heads lists) (inside : i ∈ heads) :
    listEmpty links (.inl i) = true ↔ lists i = [] := by
  simpa [listEmpty] using holds.next_head_eq_self_iff inside

section

variable (holds : links.Represents heads lists)
include holds

section

variable (inside : i ∈ heads) (fresh : ∀ j, a ∉ lists j)
include inside fresh

theorem listInsert_represents {before after : List α} {p n : ι ⊕ α} (content : lists i = before ++ after)
    (last : (.inl i :: before.map .inr).getLast? = some p) (first : (after.map Sum.inr ++ [Sum.inl i]).head? = some n) :
    (listInsert (.inr a) p n links).Represents heads (update lists i (before ++ a :: after)) := by
  have left := List.mem_of_getLast? last
  have right := List.mem_of_mem_head? first
  have outside := fresh i
  rw [content] at outside
  have apart : p ≠ .inr a ∧ n ≠ .inr a := by grind
  refine holds.splice inside (show lists i = before ++ ([] ++ after) from content) last first (by simpa using fresh) (List.nodup_singleton a) ?_ ?_ ?_
  · simp [Linked, listInsert, setNext_next, setPrev_prev, apart, apart.1.symm]
  · intro x ne other
    simp at other
    simp [listInsert, setNext_next, ne, other]
  · intro x ne other
    simp at other
    simp [listInsert, setPrev_prev, ne, other]

theorem listAdd_represents : (listAdd (.inr a) (.inl i) links).Represents heads (update lists i (a :: lists i)) :=
  listInsert_represents holds inside fresh (List.nil_append _).symm rfl (holds.ring i inside).next_first

theorem listAddBefore_represents :
    (listAddBefore (.inr a) (.inl i) links).Represents heads (update lists i (lists i ++ [a])) :=
  listInsert_represents holds inside fresh (List.append_nil _).symm (holds.ring i inside).prev_last rfl

end

theorem listRm_represents (mem : a ∈ lists i) : (listRm (.inr a) links).Represents heads
      (update lists i ((lists i).erase a)) := by
  obtain ⟨before, after, _, content, erased⟩ := List.exists_erase_eq mem
  have inside := holds.head_of_mem mem
  have ring := holds.ring i inside
  rw [content, List.map_append, List.map_cons, segment_append] at ring
  rw [erased]
  refine holds.splice inside (show lists i = before ++ ([a] ++ after) from content) ring.1.prev_last ring.2.next_first (by simp) List.nodup_nil ?_ ?_ ?_
  · simp [Linked, listRm, listJoin, setNext_next, setPrev_prev]
  · intro x ne _
    simp [listRm, listJoin, setNext_next, ne]
  · intro x ne _
    simp [listRm, listJoin, setPrev_prev, ne]

variable {b : α}

omit holds [DecidableEq α] in
theorem added_iff (k : ι) : b ∈ update lists i (a :: lists i) k ↔ b = a ∧ k = i ∨ b ∈ lists k := by
  by_cases here : k = i
  · subst here
    simp
  · simp [here]

theorem listReplace_represents (mem : a ∈ lists i) (fresh : ∀ j, b ∉ lists j) :
    (listReplace (.inr a) (.inr b) links).Represents heads (update lists i ((lists i).replace a b)) := by
  obtain ⟨before, after, absent, content, _⟩ := List.exists_erase_eq mem
  have inside := holds.head_of_mem mem
  have ring := holds.ring i inside
  have distinct := holds.nodup i
  have outside := fresh i
  rw [content] at distinct outside
  rw [content, List.map_append, List.map_cons, segment_append] at ring
  have replaced : (before ++ a :: after).replace a b = before ++ ([b] ++ after) := by
    simp [List.replace_append, absent]
  have left := List.mem_of_getLast? ring.1.prev_last
  have right := List.mem_of_mem_head? ring.2.next_first
  have other : a ≠ b ∧ (links (.inr a)).prev ≠ .inr b ∧ (links (.inr a)).next ≠ .inr b ∧
      (links (.inr a)).next ≠ .inr a := by
    grind
  rw [content, replaced]
  refine holds.splice inside (show lists i = before ++ ([a] ++ after) from content) ring.1.prev_last ring.2.next_first
    (by simpa using fresh) (List.nodup_singleton b) ?_ ?_ ?_
  · simp [Linked, listReplace, setNext_next, setPrev_prev, other, other.2.1.symm, other.2.2.2.symm]
  · intro x ne apart
    simp at apart
    simp [listReplace, setNext_next, setPrev_prev, ne, apart, other.2.2.2.symm]
  · intro x ne apart
    simp at apart
    simp [listReplace, setPrev_prev, setNext_next, ne, apart]

theorem listAdd_placed (inside : i ∈ heads) (fresh : ∀ j, a ∉ lists j) :
    ∃ after, (listAdd (.inr a) (.inl i) links).Represents heads after ∧
      ∀ j b, b ∈ after j ↔ if b = a then j = i else b ∈ lists j := by
  refine ⟨_, listAdd_represents holds inside fresh, ?_⟩
  intro j b
  rw [added_iff]
  by_cases same : b = a
  · simp [same, fresh j]
  · simp [same]

theorem listAdd_all (inside : i ∈ heads) {items : List α}
    (distinct : items.Nodup) (fresh : ∀ a ∈ items, ∀ j, a ∉ lists j) :
    (items.foldl (fun links a => listAdd (.inr a) (.inl i) links) links).Represents heads
      (update lists i (items.reverse ++ lists i)) := by
  induction items generalizing links lists with
  | nil =>
    rw [List.reverse_nil, List.nil_append, update_eq_self]
    exact holds
  | cons a _ ih =>
    obtain ⟨apart, distinct⟩ := List.nodup_cons.mp distinct
    have added := listAdd_represents holds inside (fresh a List.mem_cons_self)
    have rest := ih added distinct ?_
    · rw [update_self, update_idem] at rest
      rwa [List.foldl_cons, List.reverse_cons, List.append_assoc, List.singleton_append]
    · intro b mem j inJ
      rcases (added_iff j).mp inJ with ⟨same, _⟩ | old
      · exact apart (same ▸ mem)
      · exact fresh b (List.mem_cons_of_mem a mem) j old

theorem erased_iff (mem : a ∈ lists i) (k : ι) :
    b ∈ update lists i ((lists i).erase a) k ↔ b ≠ a ∧ b ∈ lists k := by
  by_cases here : k = i
  · subst here
    rw [update_self, (holds.nodup k).mem_erase_iff]
  · rw [update_of_ne here]
    constructor
    · intro inK
      exact ⟨fun same => here (holds.separate inK (same ▸ mem)), inK⟩
    · exact fun both => both.2

theorem erased_fresh (mem : a ∈ lists i) (k : ι) : a ∉ update lists i ((lists i).erase a) k :=
  fun inK => ((erased_iff holds mem k).mp inK).1 rfl

theorem listMove_placed {j : ι} (mem : a ∈ lists i) (inside : j ∈ heads) :
    ∃ after, (listAdd (.inr a) (.inl j) (listRm (.inr a) links)).Represents heads after ∧
      ∀ k b, b ∈ after k ↔ if b = a then k = j else b ∈ lists k := by
  have removed := listRm_represents holds mem
  obtain ⟨after, placed, moved⟩ := listAdd_placed removed inside (erased_fresh holds mem)
  refine ⟨after, placed, ?_⟩
  intro k b
  rw [moved, erased_iff holds mem]
  by_cases same : b = a
  · simp [same]
  · simp [same]

theorem listRotateLeft_represents (inside : i ∈ heads) :
    (listRotateLeft (.inl i) links).Represents heads (update lists i ((lists i).tail ++ (lists i).take 1)) := by
  cases content : lists i with
  | nil =>
    have idle : update lists i [] = lists := by
      rw [← content, update_eq_self]
    simpa [listRotateLeft, (listEmpty_iff holds inside).mpr content, idle] using holds
  | cons a rest =>
    have busy : ¬listEmpty links (.inl i) := by simp [listEmpty_iff holds inside, content]
    have mem : a ∈ lists i := by simp [content]
    have moved := listAddBefore_represents (listRm_represents holds mem) inside (erased_fresh holds mem)
    simpa [listRotateLeft, busy, holds.next_head content, listMoveBefore, content] using moved

end

omit [DecidableEq ι] [DecidableEq α] in
theorem listRm_idle [DecidableEq ν] {links : Links ν} (forward : (links (links entry).prev).next = (links entry).next)
    (backward : (links (links entry).next).prev = (links entry).prev) : listRm entry links = links := by
  rw [listRm, listJoin, setNext_idle forward, setPrev_idle backward]

omit [DecidableEq ι] [DecidableEq α] in
theorem listAddBefore_prev [DecidableEq ν] {links : Links ν} {new old : ν} (apart : node ≠ new)
    (other : node ≠ old) : (listAddBefore new old links node).prev = (links node).prev := by
  simp [listAddBefore, listInsert, setPrev_prev, apart, other]

omit [DecidableEq ι] [DecidableEq α] in
theorem listRm_prev [DecidableEq ν] {links : Links ν}
    (apart : node ≠ (links entry).next) : (listRm entry links node).prev = (links node).prev := by
  simp [listRm, listJoin, setPrev_prev, apart]

/-- Initialising a head makes it a head of its own.  Re-initialising one drops its
whole sequence; the dropped entries keep their stale cells. -/
theorem listInit_represents (holds : links.Represents heads lists) (i : ι) :
    (listInit (.inl i) links).Represents (insert i heads) (update lists i []) := by
  apply holds.replace
  · simp [Links.Segment, listInit, setNext_next, setPrev_prev]
  · exact List.nodup_nil
  · simp
  · intro j ne
    simp [listInit, setNext, setPrev, ne]
  · intro j ne a _
    simp [listInit, setNext, setPrev]

end Sequences

/-! A list with a head of its own, as `DEFINE_LIST` makes. -/

section Single

variable {α : Type u} {links : Links (Unit ⊕ α)} {items : List α}

def Holds (links : Links (Unit ⊕ α)) (items : List α) : Prop :=
  links.Represents Set.univ (fun _ => items)

theorem Holds.nodup (holds : Holds links items) : items.Nodup := Links.Represents.nodup holds ()

variable {a : α}

theorem Holds.first (holds : Holds links (a :: items)) :
    listFirst links (.inl ()) = .inr a :=
  listFirst_eq holds rfl

theorem Holds.first_cell (holds : Holds links (a :: items)) :
    (links (.inr a)).prev = .inl () ∧ (links (.inr a)).next ∈ items.map .inr ++ [.inl ()] := by
  obtain ⟨⟨_, prev⟩, rest⟩ := Links.Represents.ring holds () (Set.mem_univ ())
  exact ⟨prev, List.mem_of_mem_head? rest.next_first⟩

theorem Holds.back (holds : Holds links items) : (links (listFirst links (.inl ()))).prev = .inl () := by
  have ring := Links.Represents.ring holds () (Set.mem_univ ())
  cases items with
  | nil =>
    obtain ⟨next, prev⟩ := ring
    rw [listFirst, next]
    exact prev
  | cons =>
    rw [holds.first]
    exact holds.first_cell.1

variable [DecidableEq α]

section

variable (holds : Holds links items)
include holds

theorem Holds.empty_iff :
    listEmpty links (.inl ()) = true ↔ items = [] :=
  listEmpty_iff holds (Set.mem_univ _)

omit holds [DecidableEq α] in
theorem update_unit (new : List α) : update (fun _ : Unit => items) () new = fun _ => new := rfl

theorem Holds.add (fresh : a ∉ items) :
    Holds (listAdd (.inr a) (.inl ()) links) (a :: items) := by
  have added := listAdd_represents holds (Set.mem_univ ()) fun _ => fresh
  rwa [update_unit] at added

theorem Holds.append (fresh : a ∉ items) :
    Holds (listAddBefore (.inr a) (.inl ()) links) (items ++ [a]) := by
  have added := listAddBefore_represents holds (Set.mem_univ ()) fun _ => fresh
  rwa [update_unit] at added

theorem Holds.rm (mem : a ∈ items) :
    Holds (listRm (.inr a) links) (items.erase a) := by
  have removed := listRm_represents (i := ()) holds mem
  rwa [update_unit] at removed

end

theorem Holds.pop (holds : Holds links (a :: items)) :
    Holds (listRm (.inr a) links) items := by
  have removed := holds.rm List.mem_cons_self
  rwa [List.erase_cons_head] at removed

theorem holds_init (links : Links (Unit ⊕ α)) : Holds (listInit (.inl ()) links) [] := by
  refine ⟨?_, fun _ => List.nodup_nil, ?_, fun _ _ => rfl⟩
  · intro i _
    simp [Links.Segment, listInit, setNext_next, setPrev_prev]
  · intro i j a mem
    contradiction

end Single

/-- What the operations do to the lists of a heap. -/
theorem list_operations {ι : Type u} {α : Type v} [DecidableEq ι] [DecidableEq α] {links : Links (ι ⊕ α)} {heads : Set ι}
    {lists : ι → List α} {i : ι} (holds : links.Represents heads lists) (inside : i ∈ heads) :
    (∀ a, (∀ j, a ∉ lists j) →
      (listAdd (.inr a) (.inl i) links).Represents heads (update lists i (a :: lists i)) ∧
      (listAddBefore (.inr a) (.inl i) links).Represents heads (update lists i (lists i ++ [a]))) ∧
    (∀ a j, a ∈ lists j →
      (listRm (.inr a) links).Represents heads (update lists j ((lists j).erase a)) ∧
      (let removed := update lists j ((lists j).erase a);
        (listMove (.inr a) (.inl i) links).Represents heads (update removed i (a :: removed i)) ∧
        (listMoveBefore (.inr a) (.inl i) links).Represents heads (update removed i (removed i ++ [a]))) ∧
      ∀ b, (∀ k, b ∉ lists k) →
        (listReplace (.inr a) (.inr b) links).Represents heads (update lists j ((lists j).replace a b))) ∧
    (listRotateLeft (.inl i) links).Represents heads (update lists i ((lists i).tail ++ (lists i).take 1)) := by
  refine ⟨fun a fresh => ⟨?_, ?_⟩, fun a j mem => ?_, listRotateLeft_represents holds inside⟩
  · exact listAdd_represents holds inside fresh
  · exact listAddBefore_represents holds inside fresh
  · have removed := listRm_represents holds mem
    have fresh := erased_fresh holds mem
    exact ⟨removed, ⟨listAdd_represents removed inside fresh, listAddBefore_represents removed inside fresh⟩,
      fun b => listReplace_represents holds mem⟩

theorem list_operations_two : ∃ links : Links (Unit ⊕ Bool), Holds links [false, true] ∧
    (listRotateLeft (.inl ()) links).Represents .univ (update (fun _ => [false, true]) () [true, false]) := by
  have holds := ((holds_init ⟨fun x => ⟨x, x⟩⟩).append (a := false) (by simp)).append (a := true) (by simp)
  exact ⟨_, holds, (list_operations holds (Set.mem_univ ())).2.2⟩

end KOs.Common

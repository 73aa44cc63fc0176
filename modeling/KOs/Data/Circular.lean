import Mathlib.Data.List.Induction

namespace KOs.Data

open List

/-! Sequences that are stored around a circle of cells.

The items start at an offset and go on at the first cell after the last one.
Copies are made between runs of cells that do not go around.
-/

variable {α : Type u}

theorem mod_of_lt_two_mul {offset size : Nat} (once : offset < size + size) :
    offset % size = if offset < size then offset else offset - size := by
  split
  next within =>
    exact Nat.mod_eq_of_lt within
  next beyond =>
    rw [Nat.mod_eq_sub_mod (Nat.le_of_not_lt beyond), Nat.mod_eq_of_lt (by omega)]

variable {len available straight amt i address : Nat}

/-- A request that stops at the last cell goes on at the first one; two parts get
all that is available. -/
theorem two_parts (rest : Nat)
    (least : amt = min len (min available straight)) (enough : amt = straight → available - amt ≤ rest) :
    amt + min (len - amt) (min (available - amt) rest) = min len available := by
  by_cases stopped : amt = straight
  · rw [Nat.min_eq_left (enough stopped)]
    omega
  · omega

theorem two_parts_single (least : amt = min len (min available straight)) (nothing : amt < len → available - amt = 0) :
    amt = min len available := by
  by_cases short : amt < len
  · have none := nothing short
    omega
  · omega

def span (cells : Nat → α) (start count : Nat) : List α :=
  (List.range count).map (fun i => cells (start + i))

/-- `memcpy` between runs that do not overlap. -/
def copy (cells : Nat → α) (target source count : Nat) : Nat → α := fun address =>
  if target ≤ address ∧ address < target + count then cells (source + (address - target))
  else cells address

def store (cells : Nat → α) (start : Nat) (items : List α) : Nat → α := fun address =>
  if start ≤ address then (items[address - start]?).getD (cells address) else cells address

variable {cells cells' : Nat → α} {start count target source : Nat} {items : List α}

@[simp] theorem span_length (cells : Nat → α) (start count : Nat) :
    (span cells start count).length = count := by
  simp [span]

theorem span_getElem? (cells : Nat → α) (start : Nat) (within : i < count) :
    (span cells start count)[i]? = some (cells (start + i)) := by
  simp [span, within]

theorem span_eq (length : items.length = count)
    (same : ∀ i < count, items[i]? = some (cells (start + i))) : span cells start count = items := by
  apply ext_getElem?
  intro i
  by_cases within : i < count
  · rw [span_getElem? cells _ within, same i within]
  · rw [getElem?_eq_none (by simpa using within), getElem?_eq_none (by omega)]

theorem span_congr (same : ∀ i < count, cells' (start + i) = cells (start + i)) :
    span cells' start count = span cells start count := by
  refine span_eq (span_length _ _ _) ?_
  intro i within
  rw [span_getElem? cells _ within, same i within]

theorem span_add (cells : Nat → α) (start first second : Nat) :
    span cells start (first + second) = span cells start first ++ span cells (start + first) second := by
  refine span_eq (by simp) ?_
  intro i within
  by_cases early : i < first
  · rw [getElem?_append_left (by simpa using early), span_getElem? cells _ early]
  · rw [getElem?_append_right (by simpa using early), span_length, span_getElem? cells _ (by omega)]
    congr 2
    omega

theorem span_take (cells : Nat → α) (start : Nat) {part : Nat} (le : part ≤ count) :
    (span cells start count).take part = span cells start part := by
  rw [← Nat.add_sub_cancel' le, span_add]
  exact take_left' (span_length _ _ _)

theorem copy_inside (within : i < count) :
    copy cells target source count (target + i) = cells (source + i) := by
  rw [copy, if_pos (by omega), Nat.add_sub_cancel_left]

theorem span_copy (cells : Nat → α) (target source count : Nat) :
    span (copy cells target source count) target count = span cells source count := by
  refine span_eq (span_length _ _ _) ?_
  intro i within
  rw [span_getElem? cells _ within, copy_inside within]

theorem copy_outside (outside : address < target ∨ target + count ≤ address) :
    copy cells target source count address = cells address := by
  rw [copy, if_neg (by omega)]

theorem span_store (cells : Nat → α) (start : Nat) (items : List α) :
    span (store cells start items) start items.length = items := by
  refine span_eq rfl ?_
  intro i within
  rw [store, if_pos (Nat.le_add_right _ _), Nat.add_sub_cancel_left, getElem?_eq_getElem within]
  rfl

theorem store_outside (outside : address < start ∨ start + items.length ≤ address) :
    store cells start items address = cells address := by
  rw [store]
  split
  · rw [getElem?_eq_none (by omega)]
    rfl
  · rfl

theorem store_comm {first second : List α} {later : Nat} (apart : start + first.length ≤ later) :
    store (store cells later second) start first = store (store cells start first) later second := by
  funext address
  by_cases before : address < start + first.length
  · have outer : store _ later second _ = store cells start first address :=
      store_outside (.inl (by omega))
    rw [outer]
    simp only [store]
    rw [if_neg (show ¬ later ≤ address by omega)]
  · rw [store_outside (by omega)]
    simp only [store]
    rw [getElem?_eq_none (show first.length ≤ address - start by omega), Option.getD_none, ite_self]

theorem span_store_append (cells : Nat → α) (start count : Nat) (items : List α) :
    span (store cells (start + count) items) start (count + items.length) = span cells start count ++ items := by
  rw [span_add, span_store]
  congr 1
  refine span_congr ?_
  intro i within
  exact store_outside (by omega)

def stores (cells : Nat → α) (writes : List (Nat × List α)) : Nat → α :=
  writes.foldl (fun cells w => store cells w.1 w.2) cells

def Beside (v w : Nat × List α) : Prop := v.1 + v.2.length ≤ w.1 ∨ w.1 + w.2.length ≤ v.1

theorem span_stores (cells : Nat → α) {writes : List (Nat × List α)} (apart : writes.Pairwise Beside)
    {w : Nat × List α} (mem : w ∈ writes) : span (stores cells writes) w.1 w.2.length = w.2 := by
  induction writes using reverseRecOn with
  | nil => contradiction
  | append_singleton _ last ih =>
    rw [pairwise_append] at apart
    rw [stores, foldl_append, foldl_cons, foldl_nil]
    rcases mem_append.mp mem with earlier | new
    · have beside := apart.2.2 w earlier last (mem_singleton_self last)
      refine (span_congr fun i within => store_outside ?_).trans (ih apart.1 earlier)
      rw [Beside] at beside
      omega
    · rw [mem_singleton.mp new, span_store]

def Circular (cells : Nat → α) (base size first : Nat) (items : List α) : Prop :=
  ∀ i item, items[i]? = some item → cells (base + (first + i) % size) = item

variable {base size first : Nat}

theorem circular_nil (cells : Nat → α) (base size first : Nat) : Circular cells base size first [] := by
  intro i item found
  simp at found

section

variable (circular : Circular cells base size first items)
include circular

theorem Circular.frame (pos : 0 < size)
    (same : ∀ offset < size, cells' (base + offset) = cells (base + offset)) :
    Circular cells' base size first items := by
  intro i item found
  rw [same _ (Nat.mod_lt _ pos)]
  exact circular i item found

theorem Circular.take (enough : count ≤ items.length) (straight : first + count ≤ size) :
    span cells (base + first) count = items.take count := by
  refine span_eq (length_take_of_le enough) ?_
  intro i within
  have inItems : i < items.length := Nat.lt_of_lt_of_le within enough
  have item := circular i _ (getElem?_eq_getElem inItems)
  rw [Nat.mod_eq_of_lt (by omega), ← Nat.add_assoc] at item
  rw [getElem?_take_of_lt within, getElem?_eq_getElem _, item]

theorem Circular.drop (count : Nat) :
    Circular cells base size ((first + count) % size) (items.drop count) := by
  intro i item found
  rw [Nat.mod_add_mod, Nat.add_assoc]
  refine circular _ item ?_
  rwa [getElem?_drop] at found

theorem Circular.append {added : List α} {back : Nat} (inside : first < size) (ends : back = (first + items.length) % size)
    (room : items.length + added.length ≤ size)
    (written : ∀ i item, added[i]? = some item → cells' (base + back + i) = item)
    (others : ∀ offset, offset < back ∨ back + added.length ≤ offset →
      cells' (base + offset) = cells (base + offset)) (straight : back + added.length ≤ size) :
    Circular cells' base size first (items ++ added) := by
  intro i item found
  by_cases early : i < items.length
  · rw [List.getElem?_append_left early] at found
    rw [others _ ?_]
    · exact circular i item found
    · -- an older item stands before the run, or beyond it when the run has gone around
      rw [mod_of_lt_two_mul (by omega)] at ends
      rw [mod_of_lt_two_mul (by omega)]
      split at ends <;> split <;> omega
  · rw [List.getElem?_append_right (Nat.le_of_not_lt early)] at found
    have within : i - items.length < added.length := by
      obtain ⟨bound, _⟩ := List.getElem?_eq_some_iff.mp found
      exact bound
    have place : base + (first + i) % size = base + back + (i - items.length) := by
      rw [Nat.add_assoc]
      rw [mod_of_lt_two_mul (by omega)] at ends
      rw [mod_of_lt_two_mul (by omega)]
      split at ends <;> split <;> omega
    rw [place]
    exact written _ item found

end

end KOs.Data

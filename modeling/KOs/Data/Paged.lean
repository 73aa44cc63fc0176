import KOs.Data.Circular

namespace KOs.Data

open List

/-! Sequences that are overwritten from an offset, and sequences kept in pages.

All pages but the last are full.
-/

variable {α : Type u}

def splice (items : List α) (start : Nat) (added : List α) : List α :=
  items.take start ++ added ++ items.drop (start + added.length)

variable {items added : List α} {start : Nat}

@[simp] theorem splice_nil (items : List α) (start : Nat) : splice items start [] = items := by
  simp [splice]

section

variable (inside : start ≤ items.length)
include inside

theorem splice_length (added : List α) :
    (splice items start added).length = max items.length (start + added.length) := by
  simp only [splice, length_append, length_take, length_drop]
  omega

theorem splice_getElem? (added : List α) (i : Nat) : (splice items start added)[i]? =
      if start ≤ i ∧ i < start + added.length then added[i - start]? else items[i]? := by
  have length : (items.take start).length = start := length_take_of_le inside
  rw [splice, append_assoc]
  by_cases before : i < start
  · rw [if_neg (by omega), getElem?_append_left (by omega), getElem?_take_of_lt before]
  · rw [getElem?_append_right (by omega), length]
    by_cases here : i < start + added.length
    · rw [if_pos (by omega), getElem?_append_left (by omega)]
    · rw [if_neg (by omega), getElem?_append_right (by omega), getElem?_drop]
      congr 1
      omega

theorem splice_splice (added more : List α) :
    splice (splice items start added) (start + added.length) more = splice items start (added ++ more) := by
  have reached : start + added.length ≤ (splice items start added).length := by
    rw [splice_length inside]
    exact Nat.le_max_right _ _
  apply ext_getElem?
  intro i
  rw [splice_getElem? reached, splice_getElem? inside, splice_getElem? inside, length_append]
  by_cases first : start ≤ i ∧ i < start + added.length
  · rw [if_neg (by omega), if_pos first, if_pos (by omega), getElem?_append_left (by omega)]
  · by_cases second : start + added.length ≤ i ∧ i < start + added.length + more.length
    · rw [if_pos second, if_pos (by omega), getElem?_append_right (by omega)]
      congr 1
      omega
    · rw [if_neg second, if_neg first, if_neg (by omega)]

theorem splice_take_add {count : Nat} (taken : count ≤ added.length) (more : Nat) :
    splice (splice items start (added.take count)) (start + count) ((added.drop count).take more) =
      splice items start (added.take (count + more)) := by
  have joined := splice_splice inside (added.take count) ((added.drop count).take more)
  rwa [length_take_of_le taken, ← take_add] at joined

end

variable {i size position limit : Nat}

theorem store_inside (start : Nat) (cells : Nat → α) {item : α} (found : added[i]? = some item) :
    store cells start added (start + i) = item := by
  rw [store, if_pos (Nat.le_add_right _ _), Nat.add_sub_cancel_left, found]
  rfl

theorem splice_end (items added : List α) : splice items items.length added = items ++ added := by
  simp [splice]

structure Paged (size count : Nat) (used : Nat → Nat) (cell : Nat → Nat → α) (items : List α) : Prop where
  reach : items.length ≤ count * size
  starts : ∀ i, i < count → i * size ≤ items.length
  filled : ∀ i, i < count → used i = min size (items.length - i * size)
  cells : ∀ i j, i < count → j < used i → items[i * size + j]? = some (cell i j)

theorem page_before {k : Nat} (size : Nat) (lt : k < i) : k * size + size ≤ i * size := by
  have scaled := Nat.mul_le_mul_right size (Nat.succ_le_of_lt lt)
  rwa [Nat.succ_mul] at scaled

/-- An amount that is transferred at a position, as much as is asked for and there is
before a limit in the page. -/
structure PageStep (size position limit left amount : Nat) : Prop where
  asked : amount ≤ left
  inside : position + amount ≤ position / size * size + limit
  reaches : amount < left → position + amount = position / size * size + limit

theorem pageStep (inside : position % size ≤ limit) (left : Nat) :
    PageStep size position limit left (min (limit - position % size) left) := by
  have place := Nat.div_add_mod' position size
  exact ⟨by omega, by omega, by omega⟩

theorem PageStep.positive {left amount : Nat} (step : PageStep size position limit left amount)
    (before : position % size < limit) (more : 0 < left) : 0 < amount := by
  have place := Nat.div_add_mod' position size
  have reaches := step.reaches
  omega

namespace Paged

variable {size count : Nat} {used used' : Nat → Nat} {cell cell' : Nat → Nat → α}

section

variable (paged : Paged size count used cell items)
include paged

theorem page (pos : 0 < size) (inside : position < items.length) :
    position / size < count ∧ position % size < used (position / size) := by
  have place := Nat.div_add_mod' position size
  have below := Nat.mod_lt position pos
  have page : position / size < count := by
    by_contra beyond
    have scaled := Nat.mul_le_mul_right size (Nat.le_of_not_lt beyond)
    have reach := paged.reach
    omega
  have filled := paged.filled _ page
  exact ⟨page, by omega⟩

theorem unique {items' : List α} (pos : 0 < size) (paged' : Paged size count used cell items') : items = items' := by
  have reach := paged.reach
  have reach' := paged'.reach
  have length : items.length = items'.length := by
    cases count with
    | zero => omega
    | succ last =>
      have filled := paged.filled last (Nat.lt_succ_self last)
      have filled' := paged'.filled last (Nat.lt_succ_self last)
      have starts := paged.starts last (Nat.lt_succ_self last)
      have starts' := paged'.starts last (Nat.lt_succ_self last)
      rw [Nat.succ_mul] at reach reach'
      omega
  apply ext_getElem?
  intro position
  by_cases inside : position < items.length
  · obtain ⟨page, within⟩ := paged.page pos inside
    have here := paged.cells _ _ page within
    have here' := paged'.cells _ _ page within
    rw [Nat.div_add_mod'] at here here'
    rw [here, here']
  · rw [getElem?_eq_none (by omega), getElem?_eq_none (by omega)]

theorem read {offset n : Nat} (page : i < count) (within : offset + n ≤ used i) :
    span (cell i) offset n = (items.drop (i * size + offset)).take n := by
  have filled := paged.filled i page
  refine span_eq ?_ ?_
  · rw [length_take_of_le]
    rw [length_drop]
    omega
  · intro j bound
    rw [getElem?_take_of_lt bound, getElem?_drop, Nat.add_assoc, paged.cells i _ page (by omega)]

theorem extend (full : items.length = count * size)
    (usedNew : used' count = 0) (usedOther : ∀ k ≠ count, used' k = used k)
    (cellOther : ∀ k ≠ count, cell' k = cell k) : Paged size (count + 1) used' cell' items := by
  refine ⟨by rw [Nat.succ_mul]; omega, ?_, ?_, ?_⟩
  · intro k page
    rcases Nat.lt_succ_iff_lt_or_eq.mp page with earlier | rfl
    · exact paged.starts k earlier
    · exact Nat.le_of_eq full.symm
  · intro k page
    rcases Nat.lt_succ_iff_lt_or_eq.mp page with earlier | rfl
    · rw [usedOther k (Nat.ne_of_lt earlier)]
      exact paged.filled k earlier
    · rw [usedNew]
      omega
  · intro k j page bound
    rcases Nat.lt_succ_iff_lt_or_eq.mp page with earlier | rfl
    · rw [usedOther k (Nat.ne_of_lt earlier)] at bound
      rw [cellOther k (Nat.ne_of_lt earlier)]
      exact paged.cells k j earlier bound
    · rw [usedNew] at bound
      exact absurd bound (Nat.not_lt_zero j)

theorem write {offset : Nat} (page : i < count)
    (inside : i * size + offset ≤ items.length) (fits : offset + added.length ≤ size)
    (usedHere : used' i = max (used i) (offset + added.length))
    (usedOther : ∀ k ≠ i, used' k = used k) (cellHere : cell' i = store (cell i) offset added)
    (cellOther : ∀ k ≠ i, cell' k = cell k) :
    Paged size count used' cell' (splice items (i * size + offset) added) := by
  have filledHere := paged.filled i page
  refine ⟨?_, ?_, ?_, ?_⟩
  · have _ := page_before size page
    have reach := paged.reach
    rw [splice_length inside]
    omega
  · intro k pageK
    have starts := paged.starts k pageK
    rw [splice_length inside]
    omega
  · intro k pageK
    rw [splice_length inside]
    rcases Nat.lt_trichotomy k i with earlier | rfl | later
    · have _ := page_before size earlier
      rw [usedOther k (Nat.ne_of_lt earlier), paged.filled k pageK]
      omega
    · rw [usedHere, filledHere]
      omega
    · have _ := page_before size later
      rw [usedOther k (Nat.ne_of_gt later), paged.filled k pageK]
      omega
  · intro k j pageK bound
    rw [splice_getElem? inside]
    rcases Nat.lt_trichotomy k i with earlier | rfl | later
    · have _ := page_before size earlier
      rw [usedOther k (Nat.ne_of_lt earlier)] at bound
      have filled := paged.filled k pageK
      rw [if_neg (by omega), cellOther k (Nat.ne_of_lt earlier)]
      exact paged.cells k j pageK bound
    · rw [usedHere] at bound
      rw [cellHere]
      by_cases written : offset ≤ j ∧ j < offset + added.length
      · have found := getElem?_eq_getElem (l := added) (i := j - offset) (by omega)
        have place : k * size + j - (k * size + offset) = j - offset := by omega
        have stored := store_inside offset (cell k) found
        rw [if_pos (by omega), place, found, ← stored, Nat.add_sub_cancel' written.1]
      · rw [if_neg (by omega), store_outside (by omega)]
        exact paged.cells k j page (by omega)
    · have _ := page_before size later
      rw [usedOther k (Nat.ne_of_gt later)] at bound
      rw [if_neg (by omega), cellOther k (Nat.ne_of_gt later)]
      exact paged.cells k j pageK bound

end

end Paged

end KOs.Data

import Mathlib.Data.List.Basic
import Mathlib.Algebra.Ring.Nat

namespace KOs.Data

open List Option

/-! A memory with 32-bit addresses, and what is copied into it.

A copy that runs past the last address goes on at the first one.
-/

universe u

variable {β : Type u}

def place (dest : BitVec 32) (values : List β) (memory : BitVec 32 → β) : BitVec 32 → β :=
  fun address => (values[(address - dest).toNat]?).getD (memory address)

variable {dest : BitVec 32} {values first second : List β} {memory : BitVec 32 → β}
variable {i count : Nat} {start : BitVec 32}

theorem toNat_add_sub_self (small : i < 2 ^ 32) : (dest + BitVec.ofNat 32 i - dest).toNat = i := by
  rw [BitVec.add_comm, BitVec.add_sub_cancel, BitVec.toNat_ofNat, Nat.mod_eq_of_lt small]

theorem place_inside (inside : i < values.length) (fits : values.length ≤ 2 ^ 32) :
    place dest values memory (dest + BitVec.ofNat 32 i) = values[i] := by
  have offset : (dest + BitVec.ofNat 32 i - dest).toNat = i := toNat_add_sub_self (by omega)
  rw [place, offset, getElem?_eq_getElem _, getD_some]

theorem place_outside {address : BitVec 32} (outside : values.length ≤ (address - dest).toNat) :
    place dest values memory address = memory address := by
  simp only [place, getElem?_eq_none outside, getD_none]

def contents (start : BitVec 32) (count : Nat) (memory : BitVec 32 → β) : List β :=
  (List.range count).map fun i => memory (start + BitVec.ofNat 32 i)

@[simp] theorem contents_length : (contents start count memory).length = count := by
  simp [contents]

theorem contents_getElem? (inside : i < count) :
    (contents start count memory)[i]? = some (memory (start + BitVec.ofNat 32 i)) := by
  simp [contents, inside]

theorem contents_place (fits : values.length ≤ 2 ^ 32) : contents dest values.length (place dest values memory) = values := by
  refine ext_getElem contents_length fun i _ inside => ?_
  simpa [contents] using place_inside _ fits

theorem place_append (fits : (first ++ second).length ≤ 2 ^ 32) :
    place (dest + BitVec.ofNat 32 first.length) second (place dest first memory) = place dest (first ++ second) memory := by
  funext address
  rw [length_append] at fits
  have behind : (address - (dest + BitVec.ofNat 32 first.length)).toNat =
      ((address - dest).toNat + 2 ^ 32 - first.length) % 2 ^ 32 := by
    simp only [BitVec.toNat_sub, BitVec.toNat_add, BitVec.toNat_ofNat]
    omega
  by_cases early : (address - dest).toNat < first.length
  · have past : second.length ≤ ((address - dest).toNat + 2 ^ 32 - first.length) % 2 ^ 32 := by omega
    simp only [place, behind, getElem?_eq_none past, getElem?_append_left early, getD_none]
  · have index : ((address - dest).toNat + 2 ^ 32 - first.length) % 2 ^ 32 = (address - dest).toNat - first.length := by
      omega
    have late : first.length ≤ (address - dest).toNat := not_lt.mp early
    simp only [place, behind, index, getElem?_append_right late, getElem?_eq_none late, getD_none]

section Fill

variable {old new : β} {count needed : Nat}

theorem fill_reaches (differ : old ≠ new) (fits : first.length + needed ≤ 2 ^ 32)
    (whole : contents dest (first.length + needed)
      (place (dest + BitVec.ofNat 32 first.length) (List.replicate count new) (place dest first fun _ => old)) =
        first ++ List.replicate needed new) : needed ≤ count := by
  by_contra short
  have early : count < needed := not_le.mp short
  have value := congrArg (fun values => values[first.length + count]?) whole
  have kept : place (dest + BitVec.ofNat 32 first.length) (replicate count new) (place dest first fun _ => old)
      (dest + BitVec.ofNat 32 (first.length + count)) = old := by
    rw [place_outside, place_outside]
    · rw [toNat_add_sub_self (by omega)]
      exact Nat.le_add_right _ _
    · apply Nat.le_of_eq
      rw [BitVec.ofNat_add, ← BitVec.add_assoc, toNat_add_sub_self (by omega), length_replicate]
  have filled : (first ++ replicate needed new)[first.length + count]? = some new := by
    rw [getElem?_append_right (Nat.le_add_right _ _), Nat.add_sub_cancel_left]
    exact getElem?_replicate_of_lt early
  rw [contents_getElem? (Nat.add_lt_add_left early first.length), kept, filled] at value
  exact differ (some.inj value)

theorem fill_stops (differ : old ≠ new) (fits : count ≤ 2 ^ 32)
    (kept : place (dest + BitVec.ofNat 32 first.length) (List.replicate count new) memory
      (dest + BitVec.ofNat 32 (first.length + needed)) = old) : count ≤ needed := by
  by_contra long
  have inside : needed < (replicate count new).length := by simpa using not_le.mp long
  rw [BitVec.ofNat_add, ← BitVec.add_assoc, place_inside inside (by simpa using fits), getElem_replicate] at kept
  exact differ kept.symm

end Fill

end KOs.Data

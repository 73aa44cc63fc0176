import Mathlib.Logic.Function.Basic

namespace KOs.Common

open Function List

/-! `memmove` of `lib/string.c`, for ranges that end inside the address space. -/

variable {β : Type u} (dest source : Nat)

/-- `d[i] = s[i]` -/
def copyByte (memory : Nat → β) (i : Nat) : Nat → β := update memory (dest + i) (memory (source + i))

def memmove (bytes : Nat) (memory : Nat → β) : Nat → β :=
  if dest < source then (range bytes).foldl (copyByte dest source) memory
  else (range bytes).reverse.foldl (copyByte dest source) memory

def moved (bytes : Nat) (memory : Nat → β) (address : Nat) : β :=
  if dest ≤ address ∧ address < dest + bytes then memory (source + (address - dest)) else memory address

variable {dest source} {memory : Nat → β}

/-- Upwards, the bytes still to be read are above those that have been written. -/
theorem copyByte_up (below : dest < source) (bytes : Nat) :
    (range bytes).foldl (copyByte dest source) memory = moved dest source bytes memory := by
  induction bytes with
  | zero => exact (funext fun address => if_neg (by omega)).symm
  | succ _ ih =>
    rw [range_succ, foldl_append, ih]
    funext _
    simp only [foldl_cons, foldl_nil, copyByte, update_apply, moved]
    grind

/-- Downwards, they are below. -/
theorem copyByte_down (above : source ≤ dest) (bytes : Nat) :
    (range bytes).reverse.foldl (copyByte dest source) memory = moved dest source bytes memory := by
  induction bytes generalizing memory with
  | zero => exact (funext fun address => if_neg (by omega)).symm
  | succ _ ih =>
    rw [range_succ, reverse_append, reverse_singleton, singleton_append, foldl_cons, ih]
    funext _
    simp only [copyByte, update_apply, moved]
    grind

theorem memmove_moves (dest source bytes : Nat) (memory : Nat → β) :
    (∀ i < bytes, memmove dest source bytes memory (dest + i) = memory (source + i)) ∧
      ∀ address, address < dest ∨ dest + bytes ≤ address → memmove dest source bytes memory address = memory address := by
  have all : memmove dest source bytes memory = moved dest source bytes memory := by
    rw [memmove]
    split
    next below =>
      exact copyByte_up below _
    next above =>
      exact copyByte_down (Nat.not_lt.mp above) _
  rw [all]
  refine ⟨fun i lt => ?_, fun address outside => ?_⟩
  · simp [moved, lt]
  · rw [moved, if_neg (by omega)]

end KOs.Common

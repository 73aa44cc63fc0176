import Mathlib.Order.Basic
import Mathlib.Algebra.Group.Nat.Defs

namespace KOs.Data

/-! Unsigned 32-bit arithmetic on natural numbers.

The size of the word is kept as a name, so that the arithmetic below never has
to look at the number.
-/

def wordSize : Nat := 2 ^ 32

theorem wordSize_positive : 0 < wordSize := by decide

def wadd (a b : Nat) : Nat := (a + b) % wordSize

def wsub (a b : Nat) : Nat := (a + (wordSize - b)) % wordSize

def wmul (a b : Nat) : Nat := (a * b) % wordSize

def signed (a : Nat) : Int := if 2 * a < wordSize then (a : Int) else (a : Int) - wordSize

variable {a : Nat} {b : Nat}

theorem wadd_eq (small : a + b < wordSize) : wadd a b = a + b :=
  Nat.mod_eq_of_lt small

theorem wmul_eq (small : a * b < wordSize) : wmul a b = a * b :=
  Nat.mod_eq_of_lt small

theorem wsub_eq (le : b ≤ a) (small : a < wordSize) : wsub a b = a - b := by
  have borrowed : a + (wordSize - b) = a - b + wordSize := by omega
  rw [wsub, borrowed, Nat.add_mod_right]
  exact Nat.mod_eq_of_lt (by omega)

theorem wadd_zero (small : a < wordSize) : wadd a 0 = a := wadd_eq small

theorem wadd_lt (a b : Nat) : wadd a b < wordSize := Nat.mod_lt _ wordSize_positive

theorem wadd_assoc (a b c : Nat) : wadd (wadd a b) c = wadd a (b + c) := by
  rw [wadd, wadd, wadd, Nat.mod_add_mod, Nat.add_assoc]

theorem wadd_wsub (small : a < wordSize) (le : b ≤ wordSize) : wadd (wsub a b) b = a := by
  have returned : a + (wordSize - b) + b = a + wordSize := by omega
  rw [wadd, wsub, Nat.mod_add_mod, returned, Nat.add_mod_right]
  exact Nat.mod_eq_of_lt small

theorem wadd_left_cancel {c : Nat} (smallB : b < wordSize) (smallC : c < wordSize) (same : wadd a b = wadd a c) :
    b = c := by
  simp only [wadd, wordSize] at same smallB smallC
  omega

theorem signed_eq (small : 2 * a < wordSize) : signed a = a :=
  if_pos small

theorem and_highBits {k : Nat} (small : a < wordSize) (bits : k ≤ 32) :
    a &&& (wordSize - 2 ^ k) = 2 ^ k * (a / 2 ^ k) := by
  have size : wordSize = 2 ^ k * 2 ^ (32 - k) := by
    rw [← Nat.pow_add, Nat.add_sub_of_le bits]
    rfl
  have mask : wordSize - 2 ^ k = 2 ^ k * (2 ^ (32 - k) - 1) := by rw [size, Nat.mul_sub, Nat.mul_one]
  have low : (a &&& (wordSize - 2 ^ k)) % 2 ^ k = 0 := by
    rw [Nat.and_mod_two_pow, mask, Nat.mul_mod_right, Nat.and_zero]
  have high : (a &&& (wordSize - 2 ^ k)) / 2 ^ k = a / 2 ^ k := by
    rw [Nat.and_div_two_pow, mask, Nat.mul_div_cancel_left _ (Nat.two_pow_pos k), Nat.and_two_pow_sub_one_eq_mod]
    exact Nat.mod_eq_of_lt (Nat.div_lt_of_lt_mul (size ▸ small))
  rw [← Nat.div_add_mod (a &&& (wordSize - 2 ^ k)) (2 ^ k), low, high, Nat.add_zero]

/-! Words in memory, the lowest byte first. -/

def wordBytes (value : Nat) : List UInt8 :=
  [UInt8.ofNat value, UInt8.ofNat (value / 256), UInt8.ofNat (value / 65536), UInt8.ofNat (value / 16777216)]

def wordOf : List UInt8 → Nat
  | [] => 0
  | byte :: bytes => byte.toNat + 256 * wordOf bytes

@[simp] theorem wordBytes_length (value : Nat) : (wordBytes value).length = 4 := rfl

theorem wordOf_wordBytes {value : Nat} (small : value < wordSize) : wordOf (wordBytes value) = value := by
  simp only [wordBytes, wordOf, UInt8.toNat_ofNat']
  simp only [wordSize] at small
  omega

end KOs.Data

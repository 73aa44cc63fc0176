import Mathlib.Algebra.BigOperators.Group.List.Basic
import Mathlib.Algebra.Ring.Nat

namespace KOs.Data

/-! Sums of 16-bit words in one's complement. -/

def onesAdd (a b : Nat) : Nat := if a + b < 0x10000 then a + b else a + b - 0xFFFF

def onesSum (words : List Nat) : Nat := words.foldl onesAdd 0

/-- The carries above bit 16 are added to the word below until there are none. -/
def foldCarries (sum : Nat) : Nat :=
  if above : sum >>> 16 = 0 then sum else foldCarries ((sum >>> 16) + (sum &&& 0xFFFF))
termination_by sum
decreasing_by
  have low : sum &&& 0xFFFF = sum % 2 ^ 16 := Nat.and_two_pow_sub_one_eq_mod sum 16
  rw [Nat.shiftRight_eq_div_pow] at above ⊢
  omega

/-- The words of bytes in memory, the first byte of each the lower one, zero behind the last byte. -/
def words : List UInt8 → List Nat
  | [] => []
  | [a] => [a.toNat]
  | a :: b :: rest => (a.toNat + 0x100 * b.toNat) :: words rest

def halves (value : Nat) : List Nat := [value % 0x10000, value / 0x10000]

section Sums

variable {ws : List Nat}

theorem foldl_onesAdd (small : ∀ w ∈ ws, w < 0x10000) {start : Nat} (low : start < 0x10000) :
    ws.foldl onesAdd start < 0x10000 ∧ ws.foldl onesAdd start % 0xFFFF = (start + ws.sum) % 0xFFFF ∧
      (ws.foldl onesAdd start = 0 ↔ start + ws.sum = 0) := by
  induction ws generalizing start with
  | nil => simpa using low
  | cons w _ ih =>
    have bound := small w List.mem_cons_self
    have added : onesAdd start w < 0x10000 ∧ onesAdd start w % 0xFFFF = (start + w) % 0xFFFF ∧
        (onesAdd start w = 0 ↔ start + w = 0) := by
      simp only [onesAdd]
      split <;> omega
    obtain ⟨below, same, zero⟩ := ih (fun v mem => small v (List.mem_cons_of_mem w mem)) added.1
    simp only [List.foldl_cons, List.sum_cons]
    omega

theorem onesSum_eq_iff (small : ∀ w ∈ ws, w < 0x10000) :
    onesSum ws = 0xFFFF ↔ 0 < ws.sum ∧ ws.sum % 0xFFFF = 0 := by
  have total := foldl_onesAdd small (show 0 < 0x10000 by decide)
  rw [onesSum]
  omega

theorem foldCarries_spec (sum : Nat) : foldCarries sum < 0x10000 ∧ foldCarries sum % 0xFFFF = sum % 0xFFFF ∧
    (foldCarries sum = 0 ↔ sum = 0) := by
  fun_induction foldCarries sum with
  | case1 sum none =>
    omega
  | case2 sum _ ih =>
    have low : sum &&& 0xFFFF = sum % 2 ^ 16 := Nat.and_two_pow_sub_one_eq_mod sum 16
    omega

theorem words_spec (bytes : List UInt8) :
    (∀ w ∈ words bytes, w < 0x10000) ∧ (words bytes).sum ≤ 0x8000 * (bytes.length + 1) := by
  fun_induction words bytes with
  | case1 => simp
  | case2 a =>
    have := a.toNat_lt
    simp
    omega
  | case3 a b rest ih =>
    have := a.toNat_lt
    have := b.toNat_lt
    simp only [List.mem_cons, forall_eq_or_imp, List.sum_cons, List.length_cons]
    exact ⟨⟨by omega, ih.1⟩, by omega⟩

end Sums

end KOs.Data

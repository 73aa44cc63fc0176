import Mathlib.Data.List.Nodup
import Mathlib.Algebra.Group.Nat.Defs

namespace KOs.Data

open List

/-! A queue that is served by numbered tickets.

The counters are words of any width and wrap: `head` is served and `tail` is given
out next.  The queue is shorter than the range of a word, so a ticket says where
its owner stands.
-/

variable {α : Type u} {w : Nat}

structure Serves (head tail : BitVec w) (ticket : α → Option (BitVec w)) (queue : List α) : Prop where
  nodup : queue.Nodup
  mem : ∀ a, a ∈ queue ↔ (ticket a).isSome = true
  tail : tail = head + BitVec.ofNat w queue.length
  each : ∀ (i : Nat) a, queue[i]? = some a → ticket a = some (head + BitVec.ofNat w i)
  short : queue.length < 2 ^ w

variable {head tail : BitVec w} {ticket ticket' : α → Option (BitVec w)} {queue rest : List α} {a : α}

theorem ofNat_eq_zero_of_lt {n : Nat} (small : n < 2 ^ w) (zero : BitVec.ofNat w n = 0#w) : n = 0 := by
  have value := congrArg BitVec.toNat zero
  rwa [BitVec.toNat_ofNat, Nat.mod_eq_of_lt small, BitVec.toNat_zero] at value

theorem serves_nil (head : BitVec w) : Serves head head (fun _ : α => none) [] := by
  refine ⟨nodup_nil, ?_, ?_, ?_, Nat.two_pow_pos w⟩
  · intro a
    simp
  · simp
  · intro i a found
    simp at found

namespace Serves

section

variable (serves : Serves head tail ticket queue)
include serves

theorem count : (tail - head).toNat = queue.length := by
  rw [serves.tail, BitVec.add_comm, BitVec.add_sub_cancel, BitVec.toNat_ofNat, Nat.mod_eq_of_lt serves.short]

theorem free_iff : head = tail ↔ queue = [] := by
  constructor
  · intro same
    have length := serves.count
    rw [← same, BitVec.sub_self, BitVec.toNat_zero] at length
    exact length_eq_zero_iff.mp length.symm
  · intro empty
    rw [serves.tail, empty, length_nil]
    simp

theorem front (served : ticket a = some head) :
    ∃ rest, queue = a :: rest := by
  have mem : a ∈ queue := by
    rw [serves.mem, served]
    rfl
  obtain ⟨i, found⟩ := List.mem_iff_getElem?.mp mem
  have own := serves.each i a found
  rw [served, Option.some.injEq] at own
  have zero : BitVec.ofNat w i = 0#w := by
    have cancelled := congrArg (fun word => word - head) own
    simpa [BitVec.add_comm head, BitVec.add_sub_cancel] using cancelled.symm
  have first : i = 0 := by
    refine ofNat_eq_zero_of_lt ?_ zero
    obtain ⟨within, _⟩ := List.getElem?_eq_some_iff.mp found
    exact Nat.lt_trans within serves.short
  subst first
  cases queue with
  | nil => simp at found
  | cons _ rest =>
    cases Option.some.inj found
    exact ⟨rest, rfl⟩

end

variable [DecidableEq α]

theorem join (serves : Serves head tail ticket queue) (absent : ticket a = none) (room : queue.length + 1 < 2 ^ w)
    (taken : ∀ b, ticket' b = if b = a then some tail else ticket b) :
    Serves head (tail + 1#w) ticket' (queue ++ [a]) := by
  have fresh : a ∉ queue := by
    rw [serves.mem, absent]
    simp
  refine ⟨?_, ?_, ?_, ?_, by simpa using room⟩
  · rw [← List.concat_eq_append]
    exact serves.nodup.concat fresh
  · intro b
    rw [List.mem_append, List.mem_singleton, serves.mem, taken]
    split
    next same =>
      simp [same]
    next ne =>
      simp [ne]
  · rw [serves.tail, List.length_append, List.length_singleton, BitVec.ofNat_add, BitVec.add_assoc]
  · intro i b found
    rw [taken]
    by_cases within : i < queue.length
    · rw [List.getElem?_append_left within] at found
      have ne : b ≠ a := fun same => fresh (same ▸ List.mem_of_getElem? found)
      rw [if_neg ne]
      exact serves.each i b found
    · rw [List.getElem?_append_right (Nat.le_of_not_lt within)] at found
      obtain ⟨last, same⟩ := List.getElem?_eq_some_iff.mp found
      have position : i = queue.length := by
        simp only [List.length_singleton] at last
        omega
      rw [if_pos (by simpa using same.symm), serves.tail, position]

theorem leave (serves : Serves head tail ticket (a :: rest))
    (left : ∀ b, ticket' b = if b = a then none else ticket b) :
    Serves (head + 1#w) tail ticket' rest := by
  obtain ⟨apart, distinct⟩ := nodup_cons.mp serves.nodup
  have shifted : ∀ n, head + BitVec.ofNat w (n + 1) = head + 1#w + BitVec.ofNat w n := by
    intro n
    rw [BitVec.ofNat_add, BitVec.add_comm (BitVec.ofNat w n), BitVec.add_assoc]
  refine ⟨distinct, ?_, ?_, ?_, Nat.lt_of_succ_lt serves.short⟩
  · intro b
    have before := serves.mem b
    rw [left]
    split
    next same =>
      simp [same, apart]
    next ne =>
      simpa [ne] using before
  · rw [serves.tail, length_cons, shifted]
  · intro i b found
    have ne : b ≠ a := fun same => apart (same ▸ mem_of_getElem? found)
    rw [left, if_neg ne, serves.each (i + 1) b (by simpa using found), shifted]

end Serves

end KOs.Data

import Mathlib.Data.List.Basic

namespace KOs.Data

open List

/-! Objects that are counted by the slots that refer to them.

An object is alive from when it is obtained until its count falls back to zero.
-/

variable {ρ : Type u} [DecidableEq ρ]

def held (slots : List (Option ρ)) (object : ρ) : Nat := slots.count (some object)

variable {slots : List (Option ρ)} {object : ρ} {i j : Nat}

theorem held_le (slots : List (Option ρ)) (object : ρ) : held slots object ≤ slots.length :=
  count_le_length

theorem held_positive (found : slots[i]? = some (some object)) : 0 < held slots object :=
  count_pos_iff.mpr (mem_of_getElem? found)

theorem held_append (slots added : List (Option ρ)) (object : ρ) :
    held (slots ++ added) object = held slots object + held added object :=
  count_append

theorem held_take_succ (slots : List (Option ρ)) (n : Nat) (object : ρ) :
    held (slots.take (n + 1)) object =
      held (slots.take n) object + if slots[n]? = some (some object) then 1 else 0 := by
  rw [take_add_one, held_append]
  cases found : slots[n]? with
  | none => simp [held]
  | some => simp [held, count_singleton]

theorem held_fill (empty : slots[i]? = some none) (other : ρ) :
    held (slots.set i (some object)) other = held slots other + if object = other then 1 else 0 := by
  obtain ⟨inside, here⟩ := List.getElem?_eq_some_iff.mp empty
  rw [held, List.count_set inside, here]
  simp [held]

theorem held_clear (found : slots[i]? = some (some object)) (other : ρ) :
    held (slots.set i none) other = held slots other - if object = other then 1 else 0 := by
  obtain ⟨inside, here⟩ := List.getElem?_eq_some_iff.mp found
  rw [held, List.count_set inside, here]
  simp [held]

/-- Every live object has the count of its slots, and no slot refers to another one. -/
structure Counted (alive : ρ → Bool) (refs : ρ → Nat) (slots : List (Option ρ)) : Prop where
  refs : ∀ object, alive object = true → refs object = held slots object
  alive : ∀ object, some object ∈ slots → alive object = true

namespace Counted

variable {alive alive' : ρ → Bool} {refs refs' : ρ → Nat}

section

variable (counted : Counted alive refs slots)
include counted

theorem held_dead (dead : alive object = false) : held slots object = 0 := by
  refine count_eq_zero.mpr ?_
  intro mem
  rw [counted.alive _ mem] at dead
  contradiction

theorem perm {slots' : List (Option ρ)} (same : slots.Perm slots') :
    Counted alive refs slots' := by
  refine ⟨?_, ?_⟩
  · intro object living
    rw [counted.refs _ living]
    exact same.count_eq _
  · intro object mem
    exact counted.alive _ (same.mem_iff.mpr mem)

theorem append {added : List (Option ρ)} (living : ∀ object, some object ∈ added → alive object = true)
    (refsNew : ∀ object, refs' object = refs object + held added object) :
    Counted alive refs' (slots ++ added) := by
  refine ⟨?_, ?_⟩
  · intro object alive
    rw [refsNew, held_append, counted.refs _ alive]
  · intro object mem
    rcases mem_append.mp mem with older | new
    · exact counted.alive _ older
    · exact living _ new

theorem obtained (dead : alive object = false)
    (aliveNew : ∀ other, alive' other = if other = object then true else alive other)
    (refsNew : ∀ other, refs' other = if other = object then 0 else refs other) :
    Counted alive' refs' slots := by
  refine ⟨?_, ?_⟩
  · intro other living
    rw [refsNew]
    rw [aliveNew] at living
    split
    next same =>
      rw [same, counted.held_dead dead]
    next ne =>
      rw [if_neg ne] at living
      exact counted.refs _ living
  · intro other mem
    rw [aliveNew]
    split
    · rfl
    · exact counted.alive _ mem

theorem fill (living : alive object = true) (empty : slots[i]? = some none)
    (refsNew : ∀ other, refs' other = refs other + if object = other then 1 else 0) :
    Counted alive refs' (slots.set i (some object)) := by
  refine ⟨?_, ?_⟩
  · intro other livingOther
    rw [refsNew, held_fill empty, counted.refs _ livingOther]
  · intro other mem
    rcases mem_or_eq_of_mem_set mem with earlier | same
    · exact counted.alive _ earlier
    · cases same
      exact living

theorem clear (found : slots[i]? = some (some object))
    (refsNew : ∀ other, refs' other = refs other - if object = other then 1 else 0)
    (aliveNew : ∀ other, alive' other =
      if object = other ∧ held (slots.set i none) object = 0 then false else alive other) :
    Counted alive' refs' (slots.set i none) := by
  refine ⟨?_, ?_⟩
  · intro other living
    have before : alive other = true := by
      rw [aliveNew] at living
      split at living
      · contradiction
      · exact living
    rw [refsNew, held_clear found, counted.refs _ before]
  · intro other mem
    have remains : 0 < held (slots.set i none) other := count_pos_iff.mpr mem
    rcases mem_or_eq_of_mem_set mem with earlier | cleared
    · have last : ¬ (object = other ∧ held (slots.set i none) object = 0) := by
        rintro ⟨rfl, none⟩
        omega
      rw [aliveNew, if_neg last]
      exact counted.alive _ earlier
    · contradiction

end

end Counted

end KOs.Data

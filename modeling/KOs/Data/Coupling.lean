import KOs.Data.Loop

namespace KOs.Data

/-! Two runs side by side, in code that can stop with an error.

Two results are coupled if both are the same error, or both are related values.
The rules follow the way the code is put together.
-/

universe u v w

variable {ε : Type u}

section Results

variable {α β γ δ : Type v}

inductive Coupled (related : α → β → Prop) : Except ε α → Except ε β → Prop
  | returned {a : α} {b : β} (holds : related a b) : Coupled related (.ok a) (.ok b)
  | stopped (reason : ε) : Coupled related (.error reason) (.error reason)

variable {related : α → β → Prop} {onward : γ → δ → Prop} {left : Except ε α} {right : Except ε β}

variable (coupled : Coupled related left right)
include coupled

theorem Coupled.mono {weaker : α → β → Prop}
    (weaken : ∀ a b, related a b → weaker a b) : Coupled weaker left right := by
  cases coupled with
  | returned holds => exact .returned (weaken _ _ holds)
  | stopped reason => exact .stopped _

theorem Coupled.bind {next : α → Except ε γ} {other : β → Except ε δ}
    (step : ∀ a b, related a b → Coupled onward (next a) (other b)) :
    Coupled onward (left >>= next) (right >>= other) := by
  cases coupled with
  | returned holds => exact step _ _ holds
  | stopped reason => exact .stopped _

theorem Coupled.map {f : α → γ} {g : β → δ}
    (step : ∀ a b, related a b → onward (f a) (g b)) : Coupled onward (left.map f) (right.map g) := by
  cases coupled with
  | returned holds => exact .returned (step _ _ holds)
  | stopped reason => exact .stopped _

end Results

section Loops

variable {σ τ : Type v} {s : σ} {t : τ}

theorem Coupled.forLoop {body : Nat → σ → Except ε σ} {other : Nat → τ → Except ε τ}
    (related : Nat → σ → τ → Prop) {count : Nat} (initial : related 0 s t)
    (step : ∀ index s t, index < count → related index s t →
      Coupled (related (index + 1)) (body index s) (other index t)) :
    Coupled (related count) (Data.forLoop body count s) (Data.forLoop other count t) := by
  induction count with
  | zero => exact .returned initial
  | succ count ih =>
    have reached := ih fun index s t below => step index s t (Nat.lt_succ_of_lt below)
    rw [Data.forLoop, Data.forLoop]
    generalize Data.forLoop body _ s = left at reached
    generalize Data.forLoop _ _ t = right at reached
    cases reached with
    | returned holds => exact step _ _ _ (Nat.lt_succ_self _) holds
    | stopped reason => exact .stopped _

theorem Coupled.whileLoop {condition : σ → Bool} {condition' : τ → Bool} {body : σ → Except ε σ}
    {other : τ → Except ε τ} (related : σ → τ → Prop) {cut : ε} (bound : Nat)
    (initial : related s t) (same : ∀ s t, related s t → condition' t = condition s)
    (step : ∀ s t, related s t → condition s = true → Coupled related (body s) (other t)) :
    Coupled (fun s t => related s t ∧ condition s = false)
      (Data.whileLoop condition body cut bound s) (Data.whileLoop condition' other cut bound t) := by
  induction bound generalizing s t with
  | zero => exact .stopped cut
  | succ _ ih =>
    rw [Data.whileLoop, Data.whileLoop, same s t initial]
    split
    next enters =>
      have turn := step s t initial enters
      generalize body s = left at turn
      generalize other t = right at turn
      cases turn with
      | returned holds => exact ih holds
      | stopped reason => exact .stopped _
    next leaves =>
      exact .returned ⟨initial, Bool.eq_false_iff.mpr leaves⟩

theorem Coupled.foldlM {ι : Type w} {body : σ → ι → Except ε σ} {other : τ → ι → Except ε τ}
    (related : σ → τ → Prop) {items : List ι} (initial : related s t)
    (step : ∀ item ∈ items, ∀ s t, related s t → Coupled related (body s item) (other t item)) :
    Coupled related (items.foldlM body s) (items.foldlM other t) := by
  induction items generalizing s t with
  | nil => exact .returned initial
  | cons item _ ih =>
    refine (step item List.mem_cons_self s t initial).bind fun s t holds => ?_
    exact ih holds fun item mem => step item (List.mem_cons_of_mem _ mem)

end Loops

end KOs.Data

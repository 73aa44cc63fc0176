import Mathlib.Logic.Relation

namespace KOs.Data

/-! Runs of a system that takes one step after the other.

In a `Machine` the steps are labelled with events: an event happens where it is
enabled and its code returns.  Runs are taken under a condition on the events,
which may look at the state they happen in.
-/

theorem run_preserves {σ : Type u} {step : σ → σ → Prop} {start final : σ} (invariant : σ → Prop)
    (path : Relation.ReflTransGen step start final) (initial : invariant start)
    (preserved : ∀ before after, invariant before → step before after → invariant after) :
    invariant final := by
  induction path with
  | refl => exact initial
  | tail _ last ih => exact preserved _ _ ih last

structure Machine (σ : Type u) (ε : Type v) (φ : Type w) where
  enabled : ε → σ → Bool
  perform : ε → σ → Except φ σ

namespace Machine

variable {σ : Type u} {ε : Type v} {φ : Type w} (machine : Machine σ ε φ)

def Step (allowed : σ → ε → Prop) (before after : σ) : Prop :=
  ∃ event, allowed before event ∧ machine.enabled event before = true ∧
    machine.perform event before = .ok after

def Reaches (allowed : σ → ε → Prop) : σ → σ → Prop :=
  Relation.ReflTransGen (machine.Step allowed)

variable {machine}
variable {allowed : σ → ε → Prop} {start final : σ} {events : List ε}

theorem Reaches.preserves (invariant : σ → Prop)
    (path : machine.Reaches allowed start final) (initial : invariant start)
    (preserved : ∀ before event after, invariant before → allowed before event →
      machine.enabled event before = true → machine.perform event before = .ok after →
      invariant after) : invariant final := by
  apply run_preserves _ path initial
  intro before after holds ⟨event, permitted, enabled, ran⟩
  exact preserved _ _ _ holds permitted enabled ran

theorem Reaches.mono {weaker : σ → ε → Prop} (path : machine.Reaches allowed start final)
    (weaken : ∀ state event, allowed state event → weaker state event) : machine.Reaches weaker start final := by
  refine Relation.ReflTransGen.mono ?_ _ _ path
  rintro _ _ ⟨event, permitted, rest⟩
  exact ⟨event, weaken _ _ permitted, rest⟩

/-- One run, given by its events; there is none when an event cannot happen or
is not allowed. -/
def run (machine : Machine σ ε φ) (allowed : σ → ε → Prop) [∀ state, DecidablePred (allowed state)] :
    List ε → σ → Option σ
  | [], state => some state
  | event :: events, state =>
      if allowed state event ∧ machine.enabled event state = true then
        match machine.perform event state with
        | .ok next => run machine allowed events next
        | .error _ => none
      else none

variable [∀ state, DecidablePred (allowed state)]

theorem run_reaches (ran : machine.run allowed events start = some final) : machine.Reaches allowed start final := by
  induction events generalizing start with
  | nil =>
    cases ran
    exact .refl
  | cons event _ ih =>
    rw [run] at ran
    split at ran
    next test =>
      cases performed : machine.perform event start with
      | error =>
        rw [performed] at ran
        contradiction
      | ok next =>
        rw [performed] at ran
        exact .head ⟨event, test.1, test.2, performed⟩ (ih ran)
    · contradiction

/-- A run that can be evaluated reaches a state with a property that can be decided. -/
theorem run_exists {p : σ → Prop} [DecidablePred p] (events : List ε)
    (outcome : (machine.run allowed events start).any (fun final => p final) = true) :
    ∃ final, machine.Reaches allowed start final ∧ p final := by
  obtain ⟨final, ran, holds⟩ := (Option.any_eq_true _ _).mp outcome
  exact ⟨final, run_reaches ran, of_decide_eq_true holds⟩

end Machine

end KOs.Data

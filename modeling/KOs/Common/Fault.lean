import Mathlib.Data.Nat.Basic

namespace KOs.Common

/-! The ways a kernel function ends without returning.

`BUG()` and `panicf` print a message and halt every processor; the arguments of the format
string are kept beside it.  The other constructors are what the model answers where the
compiled code would touch an object that is not there, or loop beyond the bound of the model.
-/

inductive Fault where
  /-- `Bugcheck failed in %s:%u`. -/
  | bug (file : String) (line : Nat)
  | panicf (format : String) (arguments : List Nat)
  /-- A list entry was taken from a cell that belongs to no entry. -/
  | strayEntry
  | outOfBounds (array : String) (index : Nat)
  /-- A loop was cut off by the bound of the model. -/
  | unfinished
deriving DecidableEq, Repr

/-- `BUG_ON(c)` with `CONFIG_DEBUG_BUGCHECKS`. -/
def bugOn (condition : Bool) (file : String) (line : Nat) : Except Fault Unit :=
  if condition then .error (.bug file line) else .ok ()

@[simp] theorem bugOn_false (file : String) (line : Nat) :
    bugOn false file line = .ok () := rfl

@[simp] theorem bugOn_true (file : String) (line : Nat) :
    bugOn true file line = .error (.bug file line) := rfl

section Results

variable {ε : Type u} {α β : Type v}

@[simp] theorem ok_bind (a : α) (next : α → Except ε β) : (Except.ok a >>= next) = next a := rfl

@[simp] theorem error_bind (reason : ε) (next : α → Except ε β) : (Except.error reason >>= next) = .error reason := rfl

@[simp] theorem pure_ok (a : α) : (pure a : Except ε α) = .ok a := rfl

@[simp] theorem ok_map (a : α) (f : α → β) : (Except.ok a : Except ε α).map f = .ok (f a) := rfl

@[simp] theorem error_map (reason : ε) (f : α → β) : (Except.error reason).map f = .error reason := rfl

end Results

section Sequences

variable {α : Type u} {β : Type v} {value : Except Fault α}
variable {next : α → Except Fault β} {result : β} {fault : Fault} {f : α → β}

theorem bind_returns (ran : value.bind next = .ok result) : ∃ a, value = .ok a ∧ next a = .ok result := by
  cases value with
  | error => contradiction
  | ok a => exact ⟨a, rfl, ran⟩

theorem bind_fails (ran : value.bind next = .error fault) :
    value = .error fault ∨ ∃ a, value = .ok a ∧ next a = .error fault := by
  cases value with
  | error =>
    cases ran
    exact .inl rfl
  | ok a => exact .inr ⟨a, rfl, ran⟩

theorem map_returns (ran : value.map f = .ok result) : ∃ a, value = .ok a ∧ f a = result := by
  cases value with
  | error => contradiction
  | ok a => exact ⟨a, rfl, Except.ok.inj ran⟩

theorem map_fails (ran : value.map f = .error fault) : value = .error fault := by
  cases value with
  | error =>
    cases ran
    rfl
  | ok => contradiction

theorem toOption_returns {result : α} (ran : value.toOption = some result) : value = .ok result := by
  cases value with
  | error => contradiction
  | ok => rw [Option.some.inj ran]

end Sequences

end KOs.Common

namespace KOs.Data

/-! Loops over a state, in code that can stop with an error, and their rules.

A counted loop runs its body for `0, 1, …, count - 1`.  A conditional loop answers
`cut` past a bound on its iterations; its rule asks for a variant, so that no proof
rests on the bound.
-/

universe u v

variable {σ : Type u} {ε : Type v}

def forLoop (body : Nat → σ → Except ε σ) : Nat → σ → Except ε σ
  | 0, state => .ok state
  | count + 1, state =>
      match forLoop body count state with
      | .ok next => body count next
      | .error reason => .error reason

variable {condition : σ → Bool}

variable {state : σ} {count : Nat} {body : Nat → σ → Except ε σ}

theorem forLoop_exists (invariant : Nat → σ → Prop) (initial : invariant 0 state)
    (step : ∀ index next, index < count → invariant index next →
      ∃ after, body index next = .ok after ∧ invariant (index + 1) after) :
    ∃ final, forLoop body count state = .ok final ∧ invariant count final := by
  induction count with
  | zero => exact ⟨state, rfl, initial⟩
  | succ count ih =>
    obtain ⟨next, ran, reached⟩ := ih (fun index next below =>
      step _ next (Nat.lt_succ_of_lt below))
    obtain ⟨after, last, holds⟩ := step count next (Nat.lt_succ_self count) reached
    exact ⟨after, by simp only [forLoop, ran, last], holds⟩

variable {final : σ}

/-- The rule for a loop that may stop with an error: what holds if it returns. -/
theorem forLoop_preserves (invariant : Nat → σ → Prop)
    (ran : forLoop body count state = .ok final) (initial : invariant 0 state)
    (step : ∀ index next after, index < count → invariant index next →
      body index next = .ok after → invariant (index + 1) after) : invariant count final := by
  induction count generalizing final with
  | zero =>
    cases ran
    exact initial
  | succ count ih =>
    rw [forLoop] at ran
    cases reached : forLoop body count state with
    | error =>
      rw [reached] at ran
      contradiction
    | ok next =>
      rw [reached] at ran
      apply step _ next _ (Nat.lt_succ_self _) _ ran
      exact ih reached (fun index next after below =>
        step _ next _ (Nat.lt_succ_of_lt below))

theorem forLoop_cases (invariant : Nat → σ → Prop) (failure : ε → Prop)
    (initial : invariant 0 state) (step : ∀ index next, index < count → invariant index next →
      (∃ after, body index next = .ok after ∧ invariant (index + 1) after) ∨
        ∃ reason, body index next = .error reason ∧ failure reason) :
    (∃ final, forLoop body count state = .ok final ∧ invariant count final) ∨
      ∃ reason, forLoop body count state = .error reason ∧ failure reason := by
  induction count with
  | zero => exact .inl ⟨state, rfl, initial⟩
  | succ count ih =>
    rcases ih (fun index next below => step index next (Nat.lt_succ_of_lt below)) with
      ⟨next, ran, reached⟩ | ⟨reason, failed, known⟩
    · simp only [forLoop, ran]
      exact step _ next (Nat.lt_succ_self _) reached
    · simp only [forLoop, failed]
      exact .inr ⟨reason, rfl, known⟩

theorem forLoop_fails (failure : ε → Prop) {reason : ε} (ran : forLoop body count state = .error reason)
    (step : ∀ index next cause, body index next = .error cause → failure cause) :
    failure reason := by
  induction count with
  | zero => contradiction
  | succ count ih =>
    rw [forLoop] at ran
    cases reached : forLoop body count state with
    | error =>
      rw [reached] at ran
      cases ran
      exact ih reached
    | ok next =>
      rw [reached] at ran
      exact step _ next _ ran

def whileLoop (condition : σ → Bool) (body : σ → Except ε σ) (cut : ε) : Nat → σ → Except ε σ
  | 0, _ => .error cut
  | bound + 1, state =>
      if condition state then
        match body state with
        | .ok next => whileLoop condition body cut bound next
        | .error reason => .error reason
      else
        .ok state

/-- The states in which the loop tests its condition. -/
inductive Iterates (condition : σ → Bool) (body : σ → Except ε σ) : σ → σ → Prop
  | refl (state : σ) : Iterates condition body state state
  | step {state next final : σ} (enters : condition state = true) (ran : body state = .ok next)
      (rest : Iterates condition body next final) : Iterates condition body state final

/-- How the loop ends when nothing cuts it off. -/
inductive Settles (condition : σ → Bool) (body : σ → Except ε σ) : σ → Except ε σ → Prop
  | leaves {state : σ} (leaves : condition state = false) : Settles condition body state (.ok state)
  | turns {state next : σ} {result : Except ε σ} (enters : condition state = true)
      (ran : body state = .ok next) (rest : Settles condition body next result) :
      Settles condition body state result
  | fails {state : σ} {reason : ε} (enters : condition state = true)
      (failed : body state = .error reason) : Settles condition body state (.error reason)

variable {bound : Nat} {cut : ε}

/-- The rule for a loop that may fail or be cut: what holds if it returns. -/
theorem whileLoop_preserves {body : σ → Except ε σ} (invariant : σ → Prop)
    (ran : whileLoop condition body cut bound state = .ok final) (initial : invariant state)
    (step : ∀ state next, invariant state → condition state = true → body state = .ok next →
      invariant next) : invariant final := by
  induction bound generalizing state with
  | zero => contradiction
  | succ _ ih =>
    rw [whileLoop] at ran
    split at ran
    next enters =>
      cases turned : body state with
      | error =>
        rw [turned] at ran
        contradiction
      | ok next =>
        rw [turned] at ran
        exact ih ran (step _ next initial enters turned)
    · cases ran
      exact initial

theorem whileLoop_congr {condition' : σ → Bool} {body body' : σ → Except ε σ} (invariant : σ → Prop)
    (bound : Nat) (initial : invariant state) (same : ∀ state, invariant state → condition' state = condition state)
    (turns : ∀ state, invariant state → condition state = true → body' state = body state)
    (step : ∀ state next, invariant state → condition state = true → body state = .ok next → invariant next) :
    whileLoop condition' body' cut bound state = whileLoop condition body cut bound state := by
  induction bound generalizing state with
  | zero => rfl
  | succ _ ih =>
    rw [whileLoop, whileLoop, same _ initial]
    split
    next enters =>
      rw [turns _ initial enters]
      cases turned : body state with
      | error => rfl
      | ok next => exact ih (step _ next initial enters turned)
    · rfl

section While

variable {body : σ → Except ε σ} {invariant : σ → Prop}

theorem whileLoop_exists (variant : σ → Nat) (initial : invariant state) (enough : variant state < bound)
    (step : ∀ state, invariant state → condition state = true →
      ∃ next, body state = .ok next ∧ invariant next ∧ variant next < variant state) :
    ∃ final, whileLoop condition body cut bound state = .ok final ∧ invariant final ∧ condition final = false := by
  induction bound generalizing state with
  | zero => exact absurd enough (Nat.not_lt_zero _)
  | succ _ ih =>
    cases enters : condition state with
    | false => exact ⟨state, by simp [whileLoop, enters], initial, enters⟩
    | true =>
      obtain ⟨next, ran, holds, smaller⟩ := step state initial enters
      obtain ⟨final, finished, result⟩ := ih holds (by omega)
      exact ⟨final, by simp [whileLoop, enters, ran, finished], result⟩

theorem whileLoop_stops (leaves : condition state = false) :
    whileLoop condition body cut (bound + 1) state = .ok state := by
  simp [whileLoop, leaves]

theorem whileLoop_turns {next : σ} (enters : condition state = true) (ran : body state = .ok next) :
    whileLoop condition body cut (bound + 1) state = whileLoop condition body cut bound next := by
  simp [whileLoop, enters, ran]

/-- A loop that always comes back to its invariant is cut at every bound. -/
theorem whileLoop_diverges (initial : invariant state) (step : ∀ state, invariant state → condition state = true ∧
      ∃ next, body state = .ok next ∧ invariant next) (bound : Nat) :
    whileLoop condition body cut bound state = .error cut := by
  induction bound generalizing state with
  | zero => rfl
  | succ _ ih =>
    obtain ⟨enters, next, ran, holds⟩ := step state initial
    rw [whileLoop_turns enters ran]
    exact ih holds

/-- A loop that cannot leave its invariant, and not end within it, does not return. -/
theorem whileLoop_trapped (initial : invariant state) (enters : ∀ state, invariant state → condition state = true)
    (step : ∀ state next, invariant state → body state = .ok next → invariant next) :
    whileLoop condition body cut bound state ≠ .ok final := by
  induction bound generalizing state with
  | zero => simp [whileLoop]
  | succ _ ih =>
    cases ran : body state with
    | error => simp [whileLoop, enters _ initial, ran]
    | ok next =>
      rw [whileLoop_turns (enters _ initial) ran]
      exact ih (step _ next initial ran)

theorem whileLoop_more {more : Nat} (larger : bound ≤ more) (ran : whileLoop condition body cut bound state = .ok final) :
    whileLoop condition body cut more state = .ok final := by
  induction bound generalizing state more with
  | zero => contradiction
  | succ bound ih =>
    obtain ⟨rest, rfl⟩ := Nat.exists_eq_add_of_le' (Nat.lt_of_lt_of_le (Nat.succ_pos bound) larger)
    cases enters : condition state with
    | false => simpa [whileLoop, enters] using ran
    | true =>
      cases turned : body state with
      | error => simp [whileLoop, enters, turned] at ran
      | ok =>
        rw [whileLoop_turns enters turned] at ran
        exact (whileLoop_turns enters turned).trans (ih (Nat.le_of_succ_le_succ larger) ran)

theorem Iterates.preserves (path : Iterates condition body state final) (initial : invariant state)
    (step : ∀ state next, invariant state → condition state = true → body state = .ok next →
      invariant next) : invariant final := by
  induction path with
  | refl => exact initial
  | step enters ran _ ih => exact ih (step _ _ initial enters ran)

theorem Settles.unique {result other : Except ε σ} (settles : Settles condition body state result)
    (again : Settles condition body state other) : result = other := by
  induction settles with
  | leaves leaves =>
    cases again with
    | leaves => rfl
    | turns enters | fails enters => rw [leaves] at enters; contradiction
  | turns enters ran _ ih =>
    cases again with
    | leaves leaves => rw [leaves] at enters; contradiction
    | turns _ ran' rest' =>
      rw [ran] at ran'
      cases ran'
      exact ih rest'
    | fails _ failed => rw [ran] at failed; contradiction
  | fails enters failed =>
    cases again with
    | leaves leaves => rw [leaves] at enters; contradiction
    | turns _ ran => rw [failed] at ran; contradiction
    | fails _ failed' =>
      rw [failed] at failed'
      cases failed'
      rfl

theorem Settles.condition_false (settles : Settles condition body state (.ok final)) :
    condition final = false := by
  generalize finished : Except.ok _ = outcome at settles
  induction settles with
  | leaves leaves =>
    cases finished
    exact leaves
  | turns _ _ _ ih => exact ih finished
  | fails => contradiction

theorem whileLoop_settles (variant : σ → Nat) (enough : variant state < bound)
    (step : ∀ state next, condition state = true → body state = .ok next → variant next < variant state) :
    Settles condition body state (whileLoop condition body cut bound state) := by
  induction bound generalizing state with
  | zero => exact absurd enough (Nat.not_lt_zero _)
  | succ _ ih =>
    rw [whileLoop]
    cases enters : condition state with
    | false => exact .leaves enters
    | true =>
      cases ran : body state with
      | error => exact .fails enters ran
      | ok next =>
        have smaller := step state next enters ran
        exact .turns enters ran (ih (by omega))

end While

end KOs.Data

namespace KOs.Data

universe u v w

variable {ρ : Type u} {σ : Type v} {α ε : Type w} {serve : ρ → σ → Except ε (σ × α)} {start s : σ}

def answers (serve : ρ → σ → Except ε (σ × α)) : List ρ → σ → List (ρ × α)
  | [], _ => []
  | request :: rest, s =>
      match serve request s with
      | .ok (next, answer) => (request, answer) :: answers serve rest next
      | .error _ => []

/-- Requests that have been answered, with the state after the last. -/
inductive Served (serve : ρ → σ → Except ε (σ × α)) (start : σ) : List ρ → List (ρ × α) → σ → Prop
  | none : Served serve start [] [] start
  | next {requests : List ρ} {given : List (ρ × α)} {s s' : σ} {request : ρ} {answer : α}
      (earlier : Served serve start requests given s) (served : serve request s = .ok (s', answer)) :
      Served serve start (requests ++ [request]) (given ++ [(request, answer)]) s'

variable {request : ρ} {answer : α} {requests : List ρ}

theorem answers_cons {rest : List ρ} {next : σ} (served : serve request s = .ok (next, answer)) :
    answers serve (request :: rest) s = (request, answer) :: answers serve rest next := by
  simp only [answers, served]

theorem Served.answers_append {given : List (ρ × α)} (served : Served serve start requests given s)
    (more : List ρ) : answers serve (requests ++ more) start = given ++ answers serve more s := by
  induction served generalizing more with
  | none => rfl
  | next _ answered ih => simp only [List.append_assoc, List.singleton_append, ih, answers_cons answered]

theorem answers_mem (invariant : σ → Prop) (property : α → Prop)
    (step : ∀ request s s' answer, invariant s → serve request s = .ok (s', answer) → invariant s' ∧ property answer) (initial : invariant s)
    (mem : (request, answer) ∈ answers serve requests s) : property answer := by
  induction requests generalizing s with
  | nil => cases mem
  | cons first _ ih =>
    cases served : serve first s with
    | error =>
      simp only [answers, served] at mem
      cases mem
    | ok result =>
      obtain ⟨next, given⟩ := result
      obtain ⟨kept, holds⟩ := step first s next given initial served
      rw [answers_cons served] at mem
      rcases List.mem_cons.mp mem with here | later
      · cases here
        exact holds
      · exact ih kept later

end KOs.Data

namespace KOs.Data

/-! Code that takes and releases locks, as one processor runs it.

What the code tests can be left open: a choice may go either way, and a loop may end before any
of its turns.
-/

universe u

inductive LockCode (L : Type u) where
  | skip
  /-- Does not return, for a reason that has nothing to do with locks. -/
  | never
  | acquire (lock : L)
  | release (lock : L)
  | seq (first second : LockCode L)
  | choice (one other : LockCode L)
  | loop (body : LockCode L)

inductive LockEnd (L : Type u) where
  | returns (held : List L)
  /-- A lock is acquired by the processor that holds it. -/
  | deadlock (lock : L)
  /-- A lock is released by a processor that does not hold it. -/
  | notHeld (lock : L)
deriving DecidableEq

/-- What is known of code from the locks that are held before: how it ends, if it does. -/
inductive LockVerdict (L : Type u) where
  | ends (result : LockEnd L)
  | never
  | unknown
deriving DecidableEq

namespace LockCode

variable {L : Type u}

def steps : List (LockCode L) → LockCode L
  | [] => skip
  | code :: rest => seq code (steps rest)

def oneOf : List (LockCode L) → LockCode L
  | [] => never
  | code :: rest => choice code (oneOf rest)

def holding (lock : L) (body : List (LockCode L)) : LockCode L :=
  steps [acquire lock, steps body, release lock]

variable [DecidableEq L]

inductive Ends : LockCode L → List L → LockEnd L → Prop where
  | skip {held} : Ends skip held (.returns held)
  | acquire {lock held} (free : lock ∉ held) : Ends (acquire lock) held (.returns (lock :: held))
  | acquire_held {lock held} (member : lock ∈ held) : Ends (acquire lock) held (.deadlock lock)
  | release {lock held} (member : lock ∈ held) : Ends (release lock) held (.returns (held.erase lock))
  | release_free {lock held} (free : lock ∉ held) : Ends (release lock) held (.notHeld lock)
  | seq {first second held after result} (ran : Ends first held (.returns after)) (next : Ends second after result) :
      Ends (seq first second) held result
  | seq_stops {first second held result} (stopped : ∀ after, result ≠ .returns after) (ran : Ends first held result) :
      Ends (seq first second) held result
  | choice_one {one other held result} (ran : Ends one held result) : Ends (choice one other) held result
  | choice_other {one other held result} (ran : Ends other held result) : Ends (choice one other) held result
  | loop_done {body held} : Ends (loop body) held (.returns held)
  | loop_turn {body held result} (ran : Ends (seq body (loop body)) held result) : Ends (loop body) held result

variable {code : LockCode L} {held : List L} {result : LockEnd L}

/-- However the code ends, the processor holds what it came with. -/
def Balanced (code : LockCode L) (held : List L) : Prop := ∀ result, Ends code held result → result = .returns held

def join : LockVerdict L → LockVerdict L → LockVerdict L
  | .never, verdict => verdict
  | verdict, .never => verdict
  | .ends result, .ends other => if result = other then .ends result else .unknown
  | _, _ => .unknown

def verdict : LockCode L → List L → LockVerdict L
  | skip, held => .ends (.returns held)
  | never, _ => .never
  | acquire lock, held => .ends (if lock ∈ held then .deadlock lock else .returns (lock :: held))
  | release lock, held => .ends (if lock ∈ held then .returns (held.erase lock) else .notHeld lock)
  | seq first second, held =>
      match first.verdict held with
      | .ends (.returns held) => second.verdict held
      | verdict => verdict
  | choice one other, held => join (one.verdict held) (other.verdict held)
  | loop body, held => join (.ends (.returns held)) (body.verdict held)

theorem verdict_seq {first second : LockCode L} {after : List L} (found : first.verdict held = .ends (.returns after)) :
    (seq first second).verdict held = second.verdict after := by
  simp only [verdict, found]

theorem verdict_seq_skip (code : LockCode L) (held : List L) : (seq code skip).verdict held = code.verdict held := by
  simp only [verdict]
  split <;> simp_all

def Allows : LockVerdict L → LockEnd L → Prop
  | .ends known, result => result = known
  | .never, _ => False
  | .unknown, _ => True

theorem allows_join {a b : LockVerdict L} (allowed : Allows a result ∨ Allows b result) :
    Allows (join a b) result := by
  cases a with
  | never => exact allowed.resolve_left id
  | unknown => cases b <;> trivial
  | ends known =>
    cases b with
    | never => exact allowed.resolve_right id
    | unknown => trivial
    | ends other =>
      by_cases same : known = other
      · simpa [join, same, Allows] using allowed
      · simp [join, same, Allows]

theorem Ends.allowed (ends : Ends code held result) : Allows (code.verdict held) result := by
  induction ends with
  | skip => rfl
  | acquire free | release_free free => simp [verdict, free, Allows]
  | acquire_held mem | release mem => simp [verdict, mem, Allows]
  | @seq first _ held _ _ ran next first_allowed next_allowed =>
    cases found : first.verdict held with
    | never => simp [found, Allows] at first_allowed
    | unknown => simp [verdict, found, Allows]
    | ends =>
      rw [found] at first_allowed
      cases first_allowed
      simpa [verdict, found] using next_allowed
  | @seq_stops first _ held result stopped ran allowed =>
    cases found : first.verdict held with
    | never => simp [found, Allows] at allowed
    | unknown => simp [verdict, found, Allows]
    | ends =>
      rw [found] at allowed
      cases allowed
      cases result with
      | returns after => exact absurd rfl (stopped _)
      | deadlock | notHeld => simp [verdict, found, Allows]
  | choice_one _ allowed => exact allows_join (.inl allowed)
  | choice_other _ allowed => exact allows_join (.inr allowed)
  | loop_done => exact allows_join (.inl rfl)
  | @loop_turn body held _ ran allowed =>
    -- A turn that returns does so with the locks it came with, and the rest of the loop with these.
    cases found : body.verdict held with
    | never => simp [verdict, found, Allows] at allowed
    | unknown => simp [verdict, found, join, Allows]
    | ends known =>
      by_cases same : LockEnd.returns held = known
      · subst same
        simpa [verdict, found, join] using allowed
      · simp [verdict, found, join, same, Allows]

theorem ends_of_verdict (found : code.verdict held = .ends result) : Ends code held result := by
  induction code generalizing held result with
  | skip =>
    cases found
    exact .skip
  | never => cases found
  | acquire =>
    simp only [verdict] at found
    split at found <;> cases found
    · exact .acquire_held ‹_›
    · exact .acquire ‹_›
  | release =>
    simp only [verdict] at found
    split at found <;> cases found
    · exact .release ‹_›
    · exact .release_free ‹_›
  | seq _ _ first_ends second_ends =>
    simp only [verdict] at found
    split at found
    · next middle => exact .seq (first_ends middle) (second_ends found)
    · next other => exact .seq_stops (fun after same => other after (same ▸ found)) (first_ends found)
  | choice one other one_ends other_ends =>
    cases left : one.verdict held <;> cases right : other.verdict held <;>
      simp only [verdict, left, right, join] at found <;> try cases found
    · split at found <;> cases found
      exact .choice_one (one_ends left)
    · exact .choice_one (one_ends left)
    · exact .choice_other (other_ends right)
  | loop body =>
    cases turn : body.verdict held <;> simp only [verdict, turn, join] at found <;> try cases found
    · split at found <;> cases found
      exact .loop_done
    · exact .loop_done

theorem balanced_iff (found : code.verdict held = .ends result) : Balanced code held ↔ result = .returns held := by
  constructor
  · exact fun balanced => balanced result (ends_of_verdict found)
  · intro same _ ends
    have allowed := ends.allowed
    rw [found] at allowed
    exact allowed.trans same

end LockCode

end KOs.Data

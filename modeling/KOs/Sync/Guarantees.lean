import KOs.Sync.Units

namespace KOs.Sync

open KOs.Common KOs.Data KOs.Sched

variable {κ τ : Type} [DecidableEq τ] {w : World κ τ} {t : τ}

def World.begun (sched : Scheduler κ τ) (count : UInt32) (cells : Links (Unit ⊕ τ)) : World κ τ where
  sched
  sem := semaphoreInit count cells
  place _ := .outside
  woken := []
  downs := 0
  ups := 0

theorem steady_begun {sched : Scheduler κ τ} (started : sched.Started)
    (unflagged : ∀ t, (sched.thread t).insem = false) (count : UInt32) (cells : Links (Unit ⊕ τ)) :
    Steady count.toNat (World.begun sched count cells) := by
  refine ⟨⟨started.lively, ⟨[], holds_init _, ?_⟩, ?_, ?_, ?_, List.nodup_nil⟩, ?_, ?_⟩
  · intro t
    simp [World.begun, unflagged]
  · intro t flagged
    simp [World.begun, unflagged] at flagged
  · intro t inside
    exact absurd rfl inside
  · intro t
    simp [World.begun]
  · exact Nat.zero_le _
  · exact (Nat.zero_add _).le

theorem settle_fails {caller : Caller} {region : State κ τ × Outcome} {fault : Fault}
    (ran : w.settle t caller region = .error fault) : fault ≠ shortage := by
  rw [World.settle] at ran
  intro short
  subst short
  cases unexpected : (caller == Caller.semaphoreDown && region.2 == Outcome.gaveUp) with
  | true =>
    rw [unexpected] at ran
    exact absurd (Fault.bug.inj (Except.error.inj ran)).1 (by decide)
  | false =>
    rw [unexpected] at ran
    cases ran

variable [DecidableEq κ]

/-- Whoever gets to `_semaphore_down_end_obtained` finds a unit. -/
structure Supplied (initial : Nat) (w : World κ τ) : Prop where
  woken : ∀ c caller, w.place (w.sched.current c) = .yielded caller →
    (w.sched.thread (w.sched.current c)).insem = false → w.sem.count ≠ 0
  resumes : ∀ c cond, (Action.resume c cond).perform w ≠ .error shortage
  begins : ∀ c caller cond, (Action.down c caller cond).enabled w = true →
    (Action.down c caller cond).perform w ≠ .error shortage
  completed : w.downs ≤ initial + w.ups

theorem Steady.supplied {initial : Nat} (steady : Steady initial w) : Supplied initial w := by
  obtain ⟨places, enough, balance⟩ := steady
  have woken : ∀ c caller, w.place (w.sched.current c) = .yielded caller →
      (w.sched.thread (w.sched.current c)).insem = false → w.sem.count ≠ 0 := by
    intro c caller here absent none
    have mem : w.sched.current c ∈ w.woken := by
      rw [places.woken, here]
      exact ⟨Place.noConfusion, absent⟩
    have some := List.length_pos_of_mem mem
    rw [none] at enough
    exact absurd (some.trans_le enough) (lt_irrefl 0)
  refine ⟨woken, ?_, ?_, by omega⟩
  · intro c cond failed
    rw [Action.perform] at failed
    cases here : w.place (w.sched.current c) with
    | outside | yielding =>
      rw [here] at failed
      cases failed
    | yielded caller =>
      rw [here] at failed
      rcases bind_fails failed with early | ⟨region, _, late⟩
      · exact resume_fails places.list (woken c _ here) early rfl
      · exact settle_fails late rfl
  · intro c _ cond enabled failed
    have absent := places.absent (of_decide_eq_true (Bool.and_eq_true_iff.mp enabled).2)
    rcases bind_fails failed with early | ⟨region, _, late⟩
    · exact begin_fails places.list absent early rfl
    · exact settle_fails late rfl

theorem semaphore_supplied {sched : Scheduler κ τ} (started : sched.Started)
    (unflagged : ∀ t, (sched.thread t).insem = false) (count : UInt32) (cells : Links (Unit ⊕ τ))
    (path : (machine κ τ).Reaches Spares (World.begun sched count cells) w) :
    Supplied count.toNat w := by
  have steady := path.preserves (Steady count.toNat) (steady_begun started unflagged count cells)
    fun _ _ _ steady spares enabled ran => steady.step spares enabled ran
  exact steady.supplied

def unlinked : Links (Unit ⊕ Fin 3) := ⟨fun node => ⟨node, node⟩⟩

theorem semaphore_supplied_handover : ∃ w : World (Fin 1) (Fin 3), w.downs = 1 ∧ w.ups = 1 ∧ Supplied 0 w := by
  obtain ⟨w, reached, downs, ups⟩ : ∃ w,
      (machine (Fin 1) (Fin 3)).Reaches Spares (World.begun oneProcessor 0 unlinked) w ∧ w.downs = 1 ∧ w.ups = 1 :=
    Machine.run_exists [.sched .taskingUp, .sched (.schedule 1 7), .sched (.switch 0), .down 0 .semaphoreDown true,
      .yield 0, .up, .sched (.switch 0), .resume 0 true] (by decide +kernel)
  exact ⟨w, downs, ups, semaphore_supplied oneProcessor_started (fun _ => rfl) 0 unlinked reached⟩

/-- A second thread raises the count for a waiter and takes the unit itself before
the waiter comes back. -/
theorem woken_waiter_finds_no_unit : ∃ w : World (Fin 1) (Fin 3),
    (machine (Fin 1) (Fin 3)).Reaches (fun _ _ => True) (World.begun oneProcessor 0 unlinked) w ∧
      (Action.resume 0 true).enabled w = true ∧
      (Action.resume 0 true).perform w = .error shortage := by
  obtain ⟨w, reached, enabled, fails⟩ : ∃ w : World (Fin 1) (Fin 3),
      (machine (Fin 1) (Fin 3)).Reaches (fun _ _ => True) (World.begun oneProcessor 0 unlinked) w ∧
      (Action.resume 0 true).enabled w = true ∧ (((Action.resume 0 true).perform w).map fun _ => ()) = .error shortage :=
    Machine.run_exists [.sched .taskingUp, .sched (.schedule 1 7), .sched (.switch 0), .down 0 .semaphoreDown true,
      .sched (.schedule 2 8), .yield 0, .up, .down 0 .semaphoreDown true, .sched (.sleepPrepare 0), .sched (.switch 0)]
      (by decide +kernel)
  exact ⟨w, reached, enabled, map_fails fails⟩

end KOs.Sync

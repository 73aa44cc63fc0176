import KOs.Sched.Signals

namespace KOs.Sched.Signals

open KOs.Common KOs.Data KOs.Arch Option SigTask

/-- The action is not the one of a handler. -/
def SigTask.defaulted (s : SigTask) (sig : SigDescriptor) : Bool :=
  decide ((s.sigactions sig.num).handler = sigDfl) || hasFlag sig.flags sdUncatchable

def SigTask.caught (s : SigTask) (sig : SigDescriptor) : Bool :=
  !sigismember s.sigMask sig.num && decide ((s.sigactions sig.num).handler ≠ sigIgn)

/-- No pending signal has a default action up to the first one whose handler would be entered. -/
def SigTask.quiet (s : SigTask) : List SigDescriptor → Bool
  | [] => true
  | sig :: rest =>
      if sigismember s.sigPending sig.num then !s.defaulted sig && (s.caught sig || s.quiet rest)
      else s.quiet rest

variable {n : Nat}

section Sets

variable {set : UInt32} {m : Nat}

theorem sigismember_sigaddset (first : m < nsig) (second : n < nsig) :
    sigismember (sigaddset set m) n = (sigismember set n || decide (m = n)) := by
  rw [sigismember, sigaddset, hasBit_or second, hasBit_bit first second]
  rfl

theorem sigismember_sigdelset (first : m < nsig) (second : n < nsig) :
    sigismember (sigdelset set m) n = (sigismember set n && !decide (m = n)) := by
  rw [sigismember, sigdelset, hasBit_and second, hasBit_not second, hasBit_bit first second]
  rfl

theorem sigismember_or {other : UInt32} (small : n < nsig) :
    sigismember (set ||| other) n = (sigismember set n || sigismember other n) :=
  hasBit_or small

end Sets

variable {s s' : SigTask} {sig : SigDescriptor}

/-- What `do_invoke_sigaction` does for a user task. -/
inductive Acts (sig : SigDescriptor) (s : SigTask) : Bool → SigTask → Prop where
  | default {s' : SigTask} (other : s.pid ≠ 1) (defaulted : s.defaulted sig = true)
      (same : s'.state = s.state ∧ s'.memory = s.memory ∧ s'.sigMask = s.sigMask) : Acts sig s true s'
  | masked (masked : sigismember s.sigMask sig.num = true) : Acts sig s false s
  | ignored (unmasked : sigismember s.sigMask sig.num = false) (ignored : (s.sigactions sig.num).handler = sigIgn) :
      Acts sig s false { s with sigPending := sigdelset s.sigPending sig.num }
  | enters {s' : SigTask} (unmasked : sigismember s.sigMask sig.num = false)
      (other : (s.sigactions sig.num).handler ≠ sigIgn) (init : (s.sigactions sig.num).handler = sigDfl → s.pid = 1)
      (ran : SigTask.enter sig.num (s.sigactions sig.num)
        { s with sigPending := sigdelset s.sigPending sig.num } = .ok s') : Acts sig s true s'

theorem enter_returns {num : Nat} {sa : Sigaction} (ran : s.enter num sa = .ok s') : ∃ state memory,
    state.exec.eip = sa.handler ∧
      s' = { s with sigMask := sigaddset (s.sigMask ||| sa.mask) num
                    blocked := sigaddset (s.blocked ||| sa.mask) num
                    acted := num :: s.acted
                    state
                    memory } := by
  obtain ⟨_, _, entered⟩ := bind_returns ran
  obtain ⟨⟨state, memory⟩, set, rfl⟩ := map_returns entered
  iterate 4 obtain ⟨_, _, set⟩ := bind_returns set
  cases set
  exact ⟨_, memory, rfl, rfl⟩

theorem doInvokeSigaction_acts {ends : Bool} (user : s.kernel = false)
    (ran : doInvokeSigaction sig s = .ok (ends, s')) : Acts sig s ends s' := by
  rw [doInvokeSigaction, if_neg (by simp [user])] at ran
  dsimp only at ran
  split at ran
  next default =>
    obtain ⟨defaulted, other⟩ := Bool.and_eq_true_iff.mp default
    have other : s.pid ≠ 1 := of_decide_eq_true other
    split at ran
    next action _ =>
      obtain ⟨after, performed, result⟩ := map_returns ran
      cases result
      cases action <;> cases performed <;> exact .default other defaulted ⟨rfl, rfl, rfl⟩
    · cases ran
      exact .default other defaulted ⟨rfl, rfl, rfl⟩
  next handled =>
    split at ran
    next masked =>
      cases ran
      exact .masked masked
    next unmasked =>
      rw [Bool.not_eq_true] at unmasked
      split at ran
      next ignored =>
        cases ran
        exact .ignored unmasked ignored
      next other =>
        obtain ⟨_, entered, result⟩ := map_returns ran
        cases result
        exact .enters unmasked other (fun default => by simpa [default] using handled) entered

def SigTask.Masks (s : SigTask) : Prop :=
  ∀ n < nsig, sigismember s.blocked n = true → sigismember s.sigMask n = true

structure Delivered (s s' : SigTask) : Prop where
  kept : ∀ n < nsig, sigismember s.sigMask n = true → sigismember s.sigPending n = true →
    sigismember s'.sigPending n = true
  fewer : ∀ n < nsig, sigismember s'.sigPending n = true → sigismember s.sigPending n = true
  acted : s'.acted = s.acted ∨ ∃ n < nsig, s'.acted = n :: s.acted ∧ sigismember s.sigPending n = true ∧
    sigismember s'.sigPending n = false ∧ sigismember s.sigMask n = false
  sent : s'.sent = s.sent
  masks : s.Masks → s'.Masks
  same : s'.kernel = s.kernel ∧ s'.pid = s.pid ∧ s'.sigtramp = s.sigtramp

section Delivered

variable {list : List SigDescriptor}

theorem Delivered.refl (s : SigTask) : Delivered s s :=
  ⟨fun _ _ _ pending => pending, fun _ _ pending => pending, Or.inl rfl, rfl, id, rfl, rfl, rfl⟩

theorem Delivered.ignore (small : n < nsig) (unmasked : sigismember s.sigMask n = false)
    (rest : Delivered { s with sigPending := sigdelset s.sigPending n } s') : Delivered s s' := by
  have cleared : ∀ m < nsig, sigismember (sigdelset s.sigPending n) m = true → sigismember s.sigPending m = true := by
    intro m bound pending
    rw [sigismember_sigdelset small bound] at pending
    exact (Bool.and_eq_true_iff.mp pending).1
  refine ⟨?_, fun m bound pending => cleared m bound (rest.fewer m bound pending), ?_, rest.sent, rest.masks, rest.same⟩
  · intro m bound masked pending
    refine rest.kept m bound masked ?_
    have other : n ≠ m := by
      rintro rfl
      rw [unmasked] at masked
      contradiction
    simp [sigismember_sigdelset small bound, pending, other]
  · rcases rest.acted with none | ⟨m, bound, acted, pending, removed, free⟩
    · exact .inl none
    · exact .inr ⟨m, bound, acted, cleared m bound pending, removed, free⟩

theorem delivered_enter {sa : Sigaction} (small : sig.num < nsig) (pending : sigismember s.sigPending sig.num = true)
    (unmasked : sigismember s.sigMask sig.num = false)
    (ran : SigTask.enter sig.num sa { s with sigPending := sigdelset s.sigPending sig.num } = .ok s') :
    Delivered s s' := by
  obtain ⟨_, _, _, rfl⟩ := enter_returns ran
  refine ⟨?_, ?_, .inr ⟨sig.num, small, rfl, pending, ?_, unmasked⟩, rfl, ?_, rfl, rfl, rfl⟩
  · intro n bound masked waiting
    have other : sig.num ≠ n := by
      rintro rfl
      rw [unmasked] at masked
      contradiction
    simp [sigismember_sigdelset small bound, waiting, other]
  · intro n bound waiting
    rw [sigismember_sigdelset small bound] at waiting
    exact (Bool.and_eq_true_iff.mp waiting).1
  · simp [sigismember_sigdelset small small]
  · intro masks n bound blocked
    simp only [sigismember_sigaddset small bound, sigismember_or bound, Bool.or_eq_true] at blocked ⊢
    exact blocked.imp_left (Or.imp_left (masks n bound))

theorem quiet_sigdelset (small : ∀ sig ∈ list, sig.num < nsig) (bound : n < nsig)
    (ignored : (s.sigactions n).handler = sigIgn) (quiet : s.quiet list = true) :
    SigTask.quiet { s with sigPending := sigdelset s.sigPending n } list = true := by
  induction list with
  | nil => rfl
  | cons sig _ ih =>
    have first := small sig List.mem_cons_self
    have later := ih fun other mem => small other (List.mem_cons_of_mem _ mem)
    rw [SigTask.quiet] at quiet ⊢
    rw [sigismember_sigdelset bound first]
    cases pending : sigismember s.sigPending sig.num with
    | false =>
      rw [pending, if_neg Bool.false_ne_true] at quiet
      exact later quiet
    | true =>
      rw [pending, if_pos rfl, Bool.and_eq_true] at quiet
      by_cases mine : n = sig.num
      · have uncaught : s.caught sig = false := by simp [SigTask.caught, ← mine, ignored]
        rw [decide_eq_true mine, if_neg (by decide)]
        exact later (by simpa [uncaught] using quiet.2)
      · rw [decide_eq_false mine, if_pos (by decide), Bool.and_eq_true]
        exact ⟨quiet.1, Bool.or_eq_true_iff.mpr ((Bool.or_eq_true_iff.mp quiet.2).imp_right later)⟩

theorem deliverLoop_delivered (user : s.kernel = false) (small : ∀ sig ∈ list, sig.num < nsig)
    (quiet : s.quiet list = true) (ran : deliverLoop list s = .ok s') : Delivered s s' := by
  induction list generalizing s with
  | nil =>
    cases ran
    exact .refl _
  | cons sig rest ih =>
    have first := small sig List.mem_cons_self
    have others : ∀ sig ∈ rest, sig.num < nsig := fun other mem => small other (List.mem_cons_of_mem _ mem)
    rw [deliverLoop] at ran
    rw [SigTask.quiet] at quiet
    cases pending : sigismember s.sigPending sig.num with
    | false =>
      rw [pending, if_neg Bool.false_ne_true] at ran quiet
      exact ih user others quiet ran
    | true =>
      rw [pending, if_pos rfl] at ran quiet
      obtain ⟨handled, goes⟩ := Bool.and_eq_true_iff.mp quiet
      rw [Bool.not_eq_true'] at handled
      split at ran
      · contradiction
      next invoked =>
        cases ran
        cases doInvokeSigaction_acts user invoked with
        | default _ defaulted =>
          rw [handled] at defaulted
          contradiction
        | enters unmasked _ _ entered => exact delivered_enter first pending unmasked entered
      next next invoked =>
        have more : s.caught sig = false → s.quiet rest = true := fun uncaught => by simpa [uncaught] using goes
        cases doInvokeSigaction_acts user invoked with
        | masked masked => exact ih user others (more (by simp [SigTask.caught, masked])) ran
        | ignored unmasked ignored =>
          have after := more (by simp [SigTask.caught, ignored])
          exact .ignore first unmasked (ih user others (quiet_sigdelset others first ignored after) ran)

end Delivered

/-- A user task other than `init`, with a trampoline, that has got no signal yet. -/
structure SigTask.Fresh (s : SigTask) : Prop where
  user : s.kernel = false
  pid : s.pid ≠ 1
  sigtramp : s.sigtramp ≠ 0
  mask : s.blocked = s.sigMask
  pending : s.sigPending = 0
  sent : s.sent = []
  acted : s.acted = []

structure Lawful (s s' : SigTask) : Prop where
  masked : ∀ n < nsig, n ≠ sigkill → n ≠ sigstop → sigismember s.blocked n = true →
    s'.acted.count n = s.acted.count n ∧ (sigismember s.sigPending n = true → sigismember s'.sigPending n = true)
  removed : ∀ n, s'.acted.count n ≠ s.acted.count n →
    s'.acted.count n = s.acted.count n + 1 ∧ sigismember s.sigPending n = true ∧ sigismember s'.sigPending n = false

/-- The steps that keep to the mask: no default action is run, `SIG_UNBLOCK` is given all that is masked, and
`sigaction` no number that is not a signal. -/
def Heeded (s : SigTask) : SignalEvent → Prop
  | .deliver => s.quiet signals = true
  | .sigprocmask how (some set) => how = sigUnblock → s.blocked &&& ~~~set = 0
  | .sigaction sig _ => sig ≠ nsig
  | _ => True

structure SigTask.Held (s : SigTask) : Prop where
  user : s.kernel = false
  sigtramp : s.sigtramp ≠ 0
  masks : s.Masks
  count : ∀ n < nsig, s.acted.count n + (sigismember s.sigPending n).toNat ≤ s.sent.count n

section Runs

variable {event : SignalEvent}

theorem SigTask.Fresh.held (fresh : s.Fresh) : s.Held := by
  refine ⟨fresh.user, fresh.sigtramp, fun n _ blocked => fresh.mask ▸ blocked, fun n _ => ?_⟩
  simp [fresh.acted, fresh.pending, sigismember, hasBit_zero]

theorem signals_small : ∀ sig ∈ signals, sig.num < nsig := by decide

theorem schedDeliverSignals_delivered (held : s.Held) (quiet : s.quiet signals = true)
    (ran : schedDeliverSignals s = .ok s') : Delivered s s' := by
  have registered : ¬ (decide (s.sigPending ≠ 0) && decide (s.sigtramp = 0)) = true := by simp [held.sigtramp]
  rw [schedDeliverSignals, if_neg registered] at ran
  exact deliverLoop_delivered held.user signals_small quiet ran

theorem Delivered.held (delivered : Delivered s s') (held : s.Held) : s'.Held := by
  obtain ⟨kernel, _, sigtramp⟩ := delivered.same
  refine ⟨kernel.trans held.user, sigtramp ▸ held.sigtramp, delivered.masks held.masks, fun n bound => ?_⟩
  have before := held.count n bound
  have fewer : (sigismember s'.sigPending n).toNat ≤ (sigismember s.sigPending n).toNat := by
    cases pending : sigismember s'.sigPending n with
    | false => exact Nat.zero_le _
    | true =>
      apply Nat.le_of_eq
      rw [delivered.fewer n bound pending]
  rw [delivered.sent]
  rcases delivered.acted with none | ⟨m, _, acted, pending, removed, _⟩
  · rw [none]
    omega
  · rw [acted]
    by_cases mine : m = n
    · subst mine
      rw [pending, Bool.toNat_true] at before
      rw [removed, Bool.toNat_false, List.count_cons_self]
      omega
    · rw [List.count_cons_of_ne mine]
      omega

theorem Delivered.lawful (delivered : Delivered s s') (masks : s.Masks) : Lawful s s' := by
  constructor
  · intro n bound _ _ blocked
    have masked := masks n bound blocked
    refine ⟨?_, delivered.kept n bound masked⟩
    rcases delivered.acted with none | ⟨m, _, acted, _, _, unmasked⟩
    · rw [none]
    · rw [acted, List.count_cons_of_ne]
      rintro rfl
      rw [unmasked] at masked
      contradiction
  · intro n changed
    rcases delivered.acted with none | ⟨m, _, acted, pending, removed, _⟩
    · exact absurd (by rw [none]) changed
    · by_cases mine : m = n
      · subst mine
        exact ⟨by rw [acted, List.count_cons_self], pending, removed⟩
      · exact absurd (by rw [acted, List.count_cons_of_ne mine]) changed

theorem Lawful.idle (acted : s'.acted = s.acted)
    (pending : ∀ n < nsig, sigismember s.sigPending n = true → sigismember s'.sigPending n = true) : Lawful s s' :=
  ⟨fun n bound _ _ _ => ⟨by rw [acted], pending n bound⟩, fun n changed => absurd (by rw [acted]) changed⟩

theorem SigTask.Held.remask (held : s.Held) (masks : s'.Masks) (user : s'.kernel = s.kernel)
    (sigtramp : s'.sigtramp = s.sigtramp) (pending : s'.sigPending = s.sigPending) (sent : s'.sent = s.sent)
    (acted : s'.acted = s.acted) : s'.Held ∧ Lawful s s' := by
  refine ⟨⟨user.trans held.user, sigtramp ▸ held.sigtramp, masks, ?_⟩, .idle acted fun _ _ waiting => pending ▸ waiting⟩
  rw [pending, sent, acted]
  exact held.count

theorem SigTask.Held.send {sig : Nat} (held : s.Held) (small : sig < nsig) :
    (threadSendSignal sig s).Held ∧ Lawful s (threadSendSignal sig s) := by
  refine ⟨⟨held.user, held.sigtramp, held.masks, fun n bound => ?_⟩, .idle rfl fun n bound pending => ?_⟩
  · have before := held.count n bound
    rw [threadSendSignal]
    dsimp only
    rw [sigismember_sigaddset small bound]
    by_cases mine : sig = n
    · subst mine
      rw [List.count_cons_self, decide_eq_true rfl, Bool.or_true, Bool.toNat_true]
      omega
    · rw [List.count_cons_of_ne mine, decide_eq_false mine, Bool.or_false]
      exact before
  · rw [threadSendSignal, sigismember_sigaddset small bound, pending, Bool.true_or]

theorem sysSigaction_returns {sig ret : Int} {sa : Option Sigaction} (ran : sysSigaction sig sa s = .ok (ret, s')) :
    ∃ sigactions, s' = { s with sigactions } := by
  rw [sysSigaction.eq_def] at ran
  split at ran
  · cases ran
    exact ⟨_, rfl⟩
  · split at ran
    · contradiction
    · cases sa with
      | none | some =>
        cases ran
        exact ⟨_, rfl⟩

theorem procmask_masks {how : Int} {set : Option UInt32} (masks : s.Masks) (heeded : Heeded s (.sigprocmask how set)) :
    SigTask.Masks { (sysSigprocmask how set s).2 with blocked := procmask how set s.blocked } := by
  intro n bound blocked
  have before := masks n bound
  rw [sysSigprocmask]
  rw [procmask] at blocked
  cases set with
  | none =>
    simp only [elim_none, getD_none, ite_self] at blocked
    split <;> try split <;> try split
    all_goals exact before blocked
  | some =>
    simp only [elim_some, getD_some] at blocked ⊢
    by_cases block : how = sigBlock
    · simp only [block, if_true, sigismember_or bound, Bool.or_eq_true] at blocked ⊢
      exact blocked.imp_left before
    · simp only [block, if_false] at blocked ⊢
      by_cases unblock : how = sigUnblock
      · -- Nothing that is masked is left.
        have all := heeded unblock
        simp only [unblock, if_true] at blocked
        rw [all, sigismember, hasBit_zero] at blocked
        contradiction
      · simp only [unblock, if_false] at blocked ⊢
        by_cases replaces : how = sigSetmask
        · simp only [replaces, if_true] at blocked ⊢
          exact blocked
        · simp only [replaces, if_false] at blocked ⊢
          exact before blocked

theorem SigTask.Held.step (held : s.Held) (heeded : Heeded s event) (enabled : signalling.enabled event s = true)
    (ran : signalling.perform event s = .ok s') : s'.Held ∧ Lawful s s' := by
  cases event with
  | user =>
    cases ran
    exact held.remask held.masks rfl rfl rfl rfl rfl
  | send =>
    cases ran
    exact held.send (of_decide_eq_true enabled)
  | deliver =>
    have delivered := schedDeliverSignals_delivered held heeded ran
    exact ⟨delivered.held held, delivered.lawful held.masks⟩
  | sigaction =>
    obtain ⟨⟨ret, after⟩, called, rfl⟩ := map_returns ran
    obtain ⟨_, rfl⟩ := sysSigaction_returns called
    exact held.remask held.masks rfl rfl rfl rfl rfl
  | sigprocmask =>
    cases ran
    have masks := procmask_masks held.masks heeded
    refine held.remask masks ?_ ?_ ?_ ?_ ?_ <;> rw [sysSigprocmask] <;> dsimp only <;> split <;>
      try split <;> try split
    all_goals rfl
  | sigreturn =>
    obtain ⟨⟨_, _⟩, _, rfl⟩ := map_returns ran
    exact held.remask (fun _ _ masked => masked) rfl rfl rfl rfl rfl

end Runs

/-- In a run that keeps to the mask a signal takes effect at most as often as it is sent, no step acts upon a
signal that is masked or takes it from the pending ones, and what is acted upon is pending no more. -/
theorem signals_heed_mask {start s : SigTask} (fresh : start.Fresh) (path : signalling.Reaches Heeded start s) :
    (∀ n < nsig, s.acted.count n + (sigismember s.sigPending n).toNat ≤ s.sent.count n) ∧
      ∀ event s', Heeded s event → signalling.enabled event s = true → signalling.perform event s = .ok s' →
        Lawful s s' := by
  have held : s.Held := path.preserves SigTask.Held fresh.held
    fun _ _ _ held heeded enabled ran => (held.step heeded enabled ran).1
  exact ⟨held.count, fun _ _ heeded enabled ran => (held.step heeded enabled ran).2⟩

instance (s : SigTask) : DecidablePred (Heeded s)
  | .deliver => inferInstanceAs (Decidable (_ = _))
  | .sigprocmask _ (some _) => inferInstanceAs (Decidable (_ → _))
  | .sigaction .. => inferInstanceAs (Decidable (_ ≠ _))
  | .sigprocmask _ none | .user .. | .send .. | .sigreturn .. => .isTrue trivial

/-- A task whose signals have the handler at 0x8049000, and a mask. -/
def userTask (handler mask : UInt32) : SigTask where
  kernel := false
  pid := 2
  sigtramp := 0x804A000
  sigactions := fun _ => { flags := 0, mask := 0, handler }
  sigMask := mask
  sigPending := 0
  exitCode := none
  state := userState
  memory := mappedMemory
  blocked := mask
  sent := []
  acted := []

theorem userTask_fresh (handler mask : UInt32) : (userTask handler mask).Fresh :=
  ⟨rfl, by simp [userTask], by simp [userTask], rfl, rfl, rfl, rfl⟩

theorem signals_heed_mask_two : ∃ s, signalling.Reaches Heeded (userTask 0x8049000 (bit sigterm)) s ∧
    s.acted = [sigusr1] ∧ sigismember s.sigPending sigterm = true ∧
    s.acted.count sigusr1 + (sigismember s.sigPending sigusr1).toNat ≤ s.sent.count sigusr1 := by
  obtain ⟨s, reached, acted, pending⟩ : ∃ s, signalling.Reaches Heeded (userTask 0x8049000 (bit sigterm)) s ∧
      s.acted = [sigusr1] ∧ sigismember s.sigPending sigterm = true :=
    Machine.run_exists [.send sigterm, .send sigusr1, .deliver, .deliver] (by decide +kernel)
  exact ⟨s, reached, acted, pending, (signals_heed_mask (userTask_fresh _ _) reached).1 sigusr1 (by decide)⟩

theorem delivers_masked {start : SigTask} (events : List SignalEvent)
    (outcome : ∃ s ∈ signalling.run (fun _ _ => True) events start, ∃ s' ∈ (schedDeliverSignals s).toOption,
      s.exitCode = none ∧ sigismember s.blocked sigterm = true ∧ s.acted = [] ∧ s'.acted = [sigterm]) :
    ∃ s s', signalling.Reaches (fun _ _ => True) start s ∧ signalling.enabled .deliver s = true ∧
      signalling.perform .deliver s = .ok s' ∧ ¬ Lawful s s' := by
  obtain ⟨s, ran, s', performed, alive, blocked, before, after⟩ := outcome
  refine ⟨s, s', Machine.run_reaches ran, ?_, toOption_returns performed, fun lawful => ?_⟩
  · simp [signalling, alive]
  · have unacted := (lawful.masked _ (by decide) (by decide) (by decide) blocked).1
    rw [before, after] at unacted
    exact absurd unacted (by decide)

/-- A masked `SIGTERM` that has no handler ends the task; a `SIGCHLD` takes effect twice; and with `SIGTERM` and
`SIGUSR1` masked, `SIG_UNBLOCK` of the one lets the other through. -/
theorem signals_pass_mask :
    (∃ s s', signalling.Reaches (fun _ _ => True) (userTask sigDfl (bit sigterm)) s ∧
      signalling.enabled .deliver s = true ∧ signalling.perform .deliver s = .ok s' ∧ ¬ Lawful s s') ∧
    (∃ s, signalling.Reaches (fun _ _ => True) (userTask sigDfl 0) s ∧
      s.sent.count sigchld = 1 ∧ s.acted.count sigchld = 2) ∧
    ∃ s s', signalling.Reaches (fun _ _ => True) (userTask 0x8049000 (bit sigterm ||| bit sigusr1)) s ∧
      signalling.enabled .deliver s = true ∧ signalling.perform .deliver s = .ok s' ∧
      ¬ Lawful s s' := by
  refine ⟨?_, ?_, ?_⟩
  · exact delivers_masked [.send sigterm] (by decide +kernel)
  · exact Machine.run_exists [.send sigchld, .deliver, .deliver] (by decide +kernel)
  · exact delivers_masked [.sigprocmask sigUnblock (some (bit sigusr1)), .send sigterm] (by decide +kernel)

variable {list : List SigDescriptor}

/-- The user code goes on as it was, or at the handler that the task has installed for the signal acted upon. -/
def Redirects (s s' : SigTask) : Prop :=
  s'.state = s.state ∧ s'.memory = s.memory ∧ s'.sigMask = s.sigMask ∨
    ∃ n, s'.acted = n :: s.acted ∧ (s.sigactions n).handler ≠ sigDfl ∧ (s.sigactions n).handler ≠ sigIgn ∧
      s'.state.exec.eip = (s.sigactions n).handler

/-- The first pending signal whose handler would be entered has none. -/
def SigTask.strays (s : SigTask) : List SigDescriptor → Bool
  | [] => false
  | sig :: rest =>
      if sigismember s.sigPending sig.num && s.caught sig then decide ((s.sigactions sig.num).handler = sigDfl)
      else s.strays rest

/-- What is pending when the loop of `sched_deliver_signals` starts. -/
def SigTask.upgraded (s : SigTask) : SigTask :=
  if s.sigPending ≠ 0 && s.sigtramp = 0 then { s with sigPending := sigaddset 0 sigkill } else s

theorem strays_sigdelset (small : ∀ sig ∈ list, sig.num < nsig) (bound : n < nsig)
    (ignored : (s.sigactions n).handler = sigIgn) :
    SigTask.strays { s with sigPending := sigdelset s.sigPending n } list = s.strays list := by
  induction list with
  | nil => rfl
  | cons sig _ ih =>
    rw [strays, strays, ih fun other mem => small other (List.mem_cons_of_mem _ mem),
      sigismember_sigdelset bound (small sig List.mem_cons_self)]
    by_cases mine : n = sig.num
    · simp [caught, ← mine, ignored]
    · simp [caught, mine]

/-- Only init gets to a handler that is `SIG_DFL`. -/
theorem deliverLoop_redirects (user : s.kernel = false) (small : ∀ sig ∈ list, sig.num < nsig)
    (ran : deliverLoop list s = .ok s') : Redirects s s' ↔ (s.pid = 1 → s.strays list = false) := by
  induction list generalizing s with
  | nil =>
    cases ran
    exact iff_of_true (.inl ⟨rfl, rfl, rfl⟩) fun _ => rfl
  | cons sig rest ih =>
    have first := small sig List.mem_cons_self
    have later : ∀ sig ∈ rest, sig.num < nsig := fun other mem => small other (List.mem_cons_of_mem _ mem)
    rw [deliverLoop] at ran
    rw [strays]
    cases pending : sigismember s.sigPending sig.num with
    | false =>
      rw [pending, if_neg Bool.false_ne_true] at ran
      exact ih user later ran
    | true =>
      rw [pending, if_pos rfl] at ran
      split at ran
      · contradiction
      next invoked =>
        cases ran
        cases doInvokeSigaction_acts user invoked with
        | default other _ same => exact iff_of_true (.inl same) fun init => absurd init other
        | enters unmasked other init entered =>
          obtain ⟨_, _, eip, rfl⟩ := enter_returns entered
          have caught : s.caught sig = true := by simp [caught, unmasked, other]
          rw [caught, if_pos (by decide), decide_eq_false_iff_not]
          constructor
          · rintro (⟨_, _, same⟩ | ⟨n, same, installed, _⟩)
            · have masked : sigismember _ sig.num = false := same ▸ unmasked
              simp [sigismember_sigaddset first first] at masked
            · cases same
              exact fun _ => installed
          · exact fun installed => .inr ⟨sig.num, rfl, fun default => installed (init default) default, other, eip⟩
      next invoked =>
        cases doInvokeSigaction_acts user invoked with
        | masked masked => simpa [caught, masked] using ih user later ran
        | ignored _ ignored =>
          have after := ih (s := { s with sigPending := sigdelset s.sigPending sig.num }) user later ran
          rw [strays_sigdelset later first ignored] at after
          have uncaught : s.caught sig = false := by simp [caught, ignored]
          rw [uncaught, if_neg (by decide)]
          exact after

theorem redirects_iff (s s' : SigTask) (user : s.kernel = false) (ran : schedDeliverSignals s = .ok s') :
    Redirects s s' ↔ (s.pid = 1 → s.upgraded.strays signals = false) := by
  rw [schedDeliverSignals] at ran
  rw [upgraded]
  split at ran
  next bare =>
    rw [if_pos bare]
    exact deliverLoop_redirects (s := { s with sigPending := sigaddset 0 sigkill }) user signals_small ran
  next armed =>
    rw [if_neg armed]
    exact deliverLoop_redirects user signals_small ran

theorem redirects_two : ∃ s', schedDeliverSignals { userTask 0x8049000 0 with sigPending := bit sigterm } = .ok s' ∧
    s'.state.exec.eip = 0x8049000 ∧ Redirects { userTask 0x8049000 0 with sigPending := bit sigterm } s' := by
  obtain ⟨s', ran, entered⟩ : ∃ s' ∈
      (schedDeliverSignals { userTask 0x8049000 0 with sigPending := bit sigterm }).toOption,
      s'.state.exec.eip = 0x8049000 := by decide +kernel
  have returned := toOption_returns ran
  exact ⟨s', returned, entered, (redirects_iff _ s' rfl returned).mpr (by decide)⟩

/-- Init, with no handler for `SIGTERM`, goes on at the address 0. -/
theorem init_redirected : (schedDeliverSignals { userTask sigDfl 0 with pid := 1, sigPending := bit sigterm }).toOption.map
    (fun s => s.state.exec.eip) = some sigDfl ∧ userState.exec.eip ≠ sigDfl := by
  decide +kernel

end KOs.Sched.Signals

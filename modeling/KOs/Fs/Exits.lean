import KOs.Fs.Forks

namespace KOs.Fs

open KOs.Common KOs.Data Option

/-- What an exit has to do for a thread whose contexts are `u` and `v`, with the descriptors `ufd`. -/
structure Releases (s s' : Contexts) (u v : Nat) (ufd : UfdContext) : Prop where
  destroyed : s'.ufds[u]? = some none
  released : ∀ f, s'.gfdt.refs f + held (ufd.table.map Ufd.gfd) f = s.gfdt.refs f
  closed : ∀ f, 0 < held (ufd.table.map Ufd.gfd) f →
    (∀ u' other, u' ≠ u → s.ufds[u']? = some (some other) → held (other.table.map Ufd.gfd) f = 0) →
    s'.gfdt.closed.count f = s.gfdt.closed.count f + 1
  fsDestroyed : s'.fss[v]? = some none

namespace Contexts

def OwnedBy (t : Nat) (thread : ThreadRefs) (ufd : UfdContext) (fs : FsContext) : Prop :=
  (thread = { ufd := some t, fs := some t } ∧ ufd.refs = 1 ∧ fs.refs = 1) ∨
    thread = { ufd := none, fs := none }

structure Owned (s : Contexts) : Prop where
  ufds : s.ufds.length = s.threads.length
  fss : s.fss.length = s.threads.length
  own : ∀ t (thread : ThreadRefs), s.threads[t]? = some thread →
    ∃ ufd fs, s.ufds[t]? = some (some ufd) ∧ s.fss[t]? = some (some fs) ∧ OwnedBy t thread ufd fs

variable {s s' : Contexts} {t u : Nat} {ufd : UfdContext}

theorem obtainUfds_thread (obtained : s.obtainUfds t = .ok (u, ufd)) :
    ∃ thread, s.threads[t]? = some thread ∧ thread.ufd = some u := by
  obtain ⟨thread, got, ran⟩ := bind_returns obtained
  refine ⟨thread, ?_, ?_⟩
  · unfold Contexts.thread at got
    split at got
    next found =>
      cases got
      exact found
    · contradiction
  · split at ran
    next here =>
      split at ran
      · cases ran
        exact here
      · contradiction
    · contradiction

namespace Owned

variable (owned : s.Owned)
include owned

theorem obtained (obtained : s.obtainUfds t = .ok (u, ufd)) :
    u = t ∧ s.threads[t]? = some { ufd := some t, fs := some t } ∧ ufd.refs = 1 ∧
      ∃ fs, s.fss[t]? = some (some fs) ∧ fs.refs = 1 := by
  obtain ⟨thread, found, refers⟩ := obtainUfds_thread obtained
  obtain ⟨ufd', fs, here, hereFs, own⟩ := owned.own t thread found
  rcases own with ⟨rfl, one, oneFs⟩ | rfl
  · cases refers
    rw [obtainUfds_found obtained] at here
    cases here
    exact ⟨rfl, found, one, fs, hereFs, oneFs⟩
  · contradiction

theorem call {event : FdEvent} (ran : s.call t event = .ok s') : s'.Owned := by
  obtain ⟨⟨u, ufd⟩, obtained, ran⟩ := bind_returns ran
  obtain ⟨after, _, ran⟩ := bind_returns ran
  cases ran
  obtain ⟨rfl, _, one, _⟩ := owned.obtained obtained
  refine ⟨?_, owned.fss, ?_⟩
  · rw [List.length_set]
    exact owned.ufds
  · intro t thread found
    obtain ⟨ufd', fs, here, hereFs, own⟩ := owned.own t thread found
    by_cases same : u = t
    · subst same
      refine ⟨{ ufd with table := after.table }, fs, ?_, hereFs, ?_⟩
      · exact List.getElem?_set_self (List.getElem?_eq_some_iff.mp here).1
      · exact own.imp (fun live => ⟨live.1, one, live.2.2⟩) id
    · refine ⟨ufd', fs, ?_, hereFs, own⟩
      rw [List.getElem?_set_ne same]
      exact here

theorem fork {page : List Ufd} (ran : s.threadFork t page = .ok s') : s'.Owned := by
  obtain ⟨⟨_, src⟩, _, ran⟩ := bind_returns ran
  obtain ⟨⟨_, fs⟩, _, ran⟩ := bind_returns ran
  have refs : (ufdContextDup s.gfdt src page).2.refs = 1 := by
    unfold ufdContextDup
    dsimp only
  generalize ufdContextDup s.gfdt src page = copied at ran refs
  cases ran
  refine ⟨?_, ?_, ?_⟩
  · simp [owned.ufds]
  · simp [owned.fss]
  · intro u thread found
    rcases lt_or_ge u s.threads.length with inside | beyond
    · rw [List.getElem?_append_left inside] at found
      rw [List.getElem?_append_left (by rw [owned.ufds]; exact inside),
        List.getElem?_append_left (by rw [owned.fss]; exact inside)]
      exact owned.own u _ found
    · have last : u = s.threads.length := by
        have bound := (List.getElem?_eq_some_iff.mp found).1
        simp only [List.length_append, List.length_singleton] at bound
        omega
      subst last
      rw [List.getElem?_concat_length] at found
      cases found
      refine ⟨copied.2, fsContextDup fs, ?_, ?_, .inl ⟨?_, refs, rfl⟩⟩
      · rw [← owned.ufds, List.getElem?_concat_length]
      · rw [← owned.fss, List.getElem?_concat_length]
      · rw [owned.ufds, owned.fss]

theorem exit_eq (obtained : s.obtainUfds t = .ok (u, ufd)) :
    ∃ fs, s.fss[t]? = some (some fs) ∧ s.deactivateExited t = .ok
      { gfdt := s.gfdt
        ufds := s.ufds.set t (some { ufd with refs := 0 })
        fss := s.fss.set t (some { fs with refs := 0 })
        threads := s.threads.set t { ufd := none, fs := none } } := by
  obtain ⟨rfl, found, one, fs, hereFs, oneFs⟩ := owned.obtained obtained
  have here := obtainUfds_found obtained
  have inside : u < s.threads.length := (List.getElem?_eq_some_iff.mp found).1
  refine ⟨fs, hereFs, ?_⟩
  have last : wsub 1 1 = 0 := wsub_eq (Nat.le_refl 1) (by decide)
  have put : s.putFsContext u = .ok { s with
      fss := s.fss.set u (some { fs with refs := 0 })
      threads := s.threads.set u { ufd := some u, fs := none } } := by
    simp [putFsContext, Contexts.thread, found, hereFs, oneFs, last, ok_bind, pure_ok]
  rw [deactivateExited, put]
  simp only [putUfds, Contexts.thread, List.getElem?_set_self inside, here, one, last, if_neg Nat.one_ne_zero,
    List.set_set, ok_bind, pure_ok]

theorem exit (obtained : s.obtainUfds t = .ok (u, ufd)) (ran : s.deactivateExited t = .ok s') : s'.Owned := by
  obtain ⟨fs, hereFs, after⟩ := owned.exit_eq obtained
  rw [after] at ran
  cases ran
  have here := obtainUfds_found obtained
  obtain ⟨rfl, _, _⟩ := owned.obtained obtained
  refine ⟨?_, ?_, ?_⟩
  · simp only [List.length_set, owned.ufds]
  · simp only [List.length_set, owned.fss]
  · intro t thread found
    by_cases same : u = t
    · subst same
      refine ⟨{ ufd with refs := 0 }, { fs with refs := 0 }, ?_, ?_, .inr ?_⟩
      · exact List.getElem?_set_self (List.getElem?_eq_some_iff.mp here).1
      · exact List.getElem?_set_self (List.getElem?_eq_some_iff.mp hereFs).1
      · have inside := (List.getElem?_eq_some_iff.mp found).1
        rw [List.length_set] at inside
        rw [List.getElem?_set_self inside] at found
        exact (some.inj found).symm
    · rw [List.getElem?_set_ne same] at found
      simp only [List.getElem?_set_ne same]
      exact owned.own t _ found

omit owned in
theorem start (root : Path) (page : List Ufd) : (rootTaskInit root page).Owned := by
  refine ⟨rfl, rfl, ?_⟩
  intro t thread found
  have first : t = 0 := by
    have bound := (List.getElem?_eq_some_iff.mp found).1
    simp only [rootTaskInit, List.length_singleton] at bound
    omega
  subst first
  cases found
  exact ⟨ufdContextBuild page, fsContextBuild root, rfl, rfl, .inl ⟨rfl, rfl, rfl⟩⟩

theorem step {event : ContextEvent} (enabled : contexts.enabled event s = true)
    (ran : contexts.perform event s = .ok s') : s'.Owned := by
  cases event with
  | call => exact owned.call ran
  | fork => exact owned.fork ran
  | exit t =>
    cases obtained : s.obtainUfds t with
    | error =>
      simp only [contexts, obtained] at enabled
      contradiction
    | ok => exact owned.exit obtained ran

theorem no_freed : none ∉ s.ufds ∧ none ∉ s.fss := by
  constructor
  · intro freed
    obtain ⟨t, found⟩ := List.mem_iff_getElem?.mp freed
    have inside := (List.getElem?_eq_some_iff.mp found).1
    rw [owned.ufds] at inside
    obtain ⟨ufd, fs, here, _⟩ := owned.own t _ (List.getElem?_eq_getElem inside)
    rw [here] at found
    cases found
  · intro freed
    obtain ⟨t, found⟩ := List.mem_iff_getElem?.mp freed
    have inside := (List.getElem?_eq_some_iff.mp found).1
    rw [owned.fss] at inside
    obtain ⟨ufd, fs, _, here, _⟩ := owned.own t _ (List.getElem?_eq_getElem inside)
    rw [here] at found
    cases found

end Owned

end Contexts

/-- Whatever has run before, an exit destroys neither of the contexts of its thread and no file
loses a reference; and no context has ever been destroyed. -/
theorem exit_releases_nothing {root : Path} {page : List Ufd} {s : Contexts}
    (reached : contexts.Reaches (fun _ _ => True) (rootTaskInit root page) s) :
    (∀ t u ufd, s.obtainUfds t = .ok (u, ufd) → ∃ v fs s', s.obtainFsContext t = .ok (v, fs) ∧
      contexts.perform (.exit t) s = .ok s' ∧ s'.gfdt = s.gfdt ∧
      s'.ufds[u]? = some (some { ufd with refs := 0 }) ∧ s'.fss[v]? = some (some { fs with refs := 0 }) ∧
      ¬ Releases s s' u v ufd) ∧
    none ∉ s.ufds ∧ none ∉ s.fss := by
  have owned : s.Owned := reached.preserves Contexts.Owned (Contexts.Owned.start root page)
    fun _ _ _ owned _ enabled ran => owned.step enabled ran
  refine ⟨?_, owned.no_freed⟩
  intro t u ufd obtained
  obtain ⟨fs, hereFs, after⟩ := owned.exit_eq obtained
  have here := Contexts.obtainUfds_found obtained
  obtain ⟨rfl, found, _⟩ := owned.obtained obtained
  have left := List.getElem?_set_self (a := some { ufd with refs := 0 }) (List.getElem?_eq_some_iff.mp here).1
  refine ⟨u, fs, _, ?_, after, rfl, left, ?_, ?_⟩
  · simp only [Contexts.obtainFsContext, Contexts.thread, found, hereFs, ok_bind, pure_ok]
  · exact List.getElem?_set_self (List.getElem?_eq_some_iff.mp hereFs).1
  · intro releases
    have destroyed := releases.destroyed
    rw [left] at destroyed
    cases destroyed

theorem exit_releases_nothing_open : ∃ s s' ufd,
    contexts.Reaches (fun _ _ => True) (rootTaskInit { mount := 0, dentry := 0 } clearPage) s ∧
      s.obtainUfds 0 = .ok (0, ufd) ∧ held (ufd.table.map Ufd.gfd) 7 = 1 ∧
      contexts.perform (.exit 0) s = .ok s' ∧ s'.gfdt.refs 7 = 1 ∧ s'.gfdt.closed = [] := by
  obtain ⟨s, reached, refs, closed, ⟨_, ufd⟩, obtained, ⟨⟩, one⟩ : ∃ s,
      contexts.Reaches (fun _ _ => True) clearTask s ∧ s.gfdt.refs 7 = 1 ∧ s.gfdt.closed = [] ∧
      ∃ obtained ∈ (s.obtainUfds 0).toOption, obtained.1 = 0 ∧ held (obtained.2.table.map Ufd.gfd) 7 = 1 :=
    Machine.run_exists [.call 0 (.opens 7)] (by decide +kernel)
  rw [← clearTask_eq] at reached
  obtain ⟨v, fs, s', _, performed, gfdt, _⟩ := (exit_releases_nothing reached).1 0 0 ufd (toOption_returns obtained)
  refine ⟨s, s', ufd, reached, toOption_returns obtained, one, performed, ?_, ?_⟩
  · rw [gfdt]
    exact refs
  · rw [gfdt]
    exact closed

/-- The only thread exits with a file in two slots, and the file stays open. -/
theorem exit_leaks_file : ∃ s s' ufd,
    contexts.Reaches (fun _ _ => True) (rootTaskInit { mount := 0, dentry := 0 } clearPage) s ∧
      s.obtainUfds 0 = .ok (0, ufd) ∧ contexts.perform (.exit 0) s = .ok s' ∧
      held (ufd.table.map Ufd.gfd) 7 = 2 ∧ s.gfdt.refs 7 = 2 ∧ s'.gfdt.refs 7 = 2 ∧
      s'.gfdt.closed.count 7 = 0 ∧ ¬ Releases s s' 0 0 ufd := by
  obtain ⟨s, reached, refs, ⟨⟨_, ufd⟩, obtained, ⟨⟩, two⟩, s', performed, refs', closed⟩ : ∃ s,
      contexts.Reaches (fun _ _ => True) clearTask s ∧ s.gfdt.refs 7 = 2 ∧
      (∃ obtained ∈ (s.obtainUfds 0).toOption, obtained.1 = 0 ∧ held (obtained.2.table.map Ufd.gfd) 7 = 2) ∧
      ∃ s' ∈ (contexts.perform (.exit 0) s).toOption, s'.gfdt.refs 7 = 2 ∧ s'.gfdt.closed.count 7 = 0 :=
    Machine.run_exists [.call 0 (.opens 7), .call 0 (.dups 0)] (by decide +kernel)
  rw [← clearTask_eq] at reached
  refine ⟨s, s', ufd, reached, toOption_returns obtained, toOption_returns performed, two, refs, refs', closed, ?_⟩
  intro releases
  have released := releases.released 7
  rw [refs', two, refs] at released
  exact absurd released (by decide)

end KOs.Fs

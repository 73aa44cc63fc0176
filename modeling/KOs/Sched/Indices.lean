import KOs.Data.Loop
import KOs.Fs.References
import KOs.Sched.Signals

namespace KOs.Sched.Indices

open KOs.Common KOs.Data KOs.Fs KOs.Sched.Signals Option

/-! System calls that index arrays with their arguments, from `sched/syscall.c`, `sched/sched.c`,
`net/socket.c` and `net/ip/af_inet.c`.

The arrays have their lengths in their types, but for the descriptors, which are a page; an access beyond
the end is an error.  What a call meets and does not decide (what `vfs_poll` answers, why it is woken, what
is on the stack, where new objects are) is an `Environment`.
-/

def afInet : Nat := 1
def afMax : Nat := 6

def sockRaw : Nat := 3
def sockMax : Nat := sockRaw + 1

def ipprotoRaw : Nat := 0
def ipProtIcmp : Nat := 0x01
def ipProtTcp : Nat := 0x06
def ipProtUdp : Nat := 0x11

def eintr : Int := 4

inductive SockFamily where
  | inet
deriving DecidableEq, Repr

inductive SockProtocol where
  | tcp
  | udp
  | icmp
  | raw
deriving DecidableEq, Repr

structure InetProtocol where
  protocol : Nat
  impl : SockProtocol
deriving DecidableEq, Repr

structure State where
  descriptors : Descriptors
  sigactions : Vector Sigaction nsig
  families : Vector (Option SockFamily) afMax
  types : Vector (List InetProtocol) sockMax

/-- The table of a task fills its page. -/
structure Task extends State where
  sized : descriptors.table.length = maxNumFds

def fdSetsize : Nat := 64
def nfdbits : Nat := 4 * 8

abbrev FdSet := Vector UInt32 ((fdSetsize + (nfdbits - 1)) / nfdbits)

def fdIsset (n : Nat) (set : FdSet) : Except Fault Bool :=
  match set[n / nfdbits]? with
  | some word => .ok (hasBit word (n % nfdbits))
  | none => .error (.outOfBounds "fds_bits" (n / nfdbits))

structure FpollData where
  readable : Bool
  writable : Bool
  errored : Bool
deriving DecidableEq, Repr

/-- Why a turn of `select` that found nothing is the last one, or that it is not. -/
inductive Wakes where
  | timeout
  | signal
  | interrupt
deriving DecidableEq, Repr

/-- The polls of one turn, and what comes after it. -/
structure Round where
  poll : Nat → Except Int FpollData
  wakes : Wakes

structure Environment where
  first : Round
  later : List Round
  /-- What the sets on the stack hold.  `FD_ZERO(&kern)` clears the parameter and not the set. -/
  stack : FdSet × FdSet × FdSet
  success : Bool
  file : Option Nat

/-- `if(FD_ISSET(i, &in) && ready) { FD_ISSET(i, &out); num++; }` -/
def checkSet (i : Nat) (inSet : FdSet) (ready : Bool) (num : Nat) : Except Fault Nat := do
  if (← fdIsset i inSet) && ready then
    -- the outgoing sets are never written to
    let _ ← fdIsset i (.replicate _ 0)
    return num + 1
  else return num

def selectTurn (s : Descriptors) (poll : Nat → Except Int FpollData) (sets : FdSet × FdSet × FdSet) (i num : Nat) :
    Except Fault Nat :=
  match ufdtGet s i with
  | none => .ok num
  | some fd =>
      match poll fd with
      | .error ret => .error (.panicf "poll failure! %d" [(ret % wordSize).toNat])
      | .ok fp => do
          let num ← checkSet i sets.1 fp.readable num
          let num ← checkSet i sets.2.1 fp.writable num
          checkSet i sets.2.2 fp.errored num

/-- The loop of `select`: what it returns, or nothing while it waits. -/
def selectLoop (s : Descriptors) (nfds : Int) (sets : FdSet × FdSet × FdSet) : Round → List Round → Except Fault (Option Int)
  | round, later => do
      let num ← forLoop (selectTurn s round.poll sets) nfds.toNat 0
      if num ≠ 0 then return some (-1)
      else
        match round.wakes, later with
        | .timeout, _ => return some (-1)
        | .signal, _ => return some (-eintr)
        | .interrupt, [] => return none
        | .interrupt, next :: later => selectLoop s nfds sets next later

def sysSelect (env : Environment) (nfds : Int) (rfds wfds efds : Option FdSet) (s : State) : Except Fault (Option Int) :=
  selectLoop s.descriptors nfds (rfds.getD env.stack.1, wfds.getD env.stack.2.1, efds.getD env.stack.2.2) env.first env.later

def sysClose (ufd : Nat) (s : State) : Except Fault (Int × State) :=
  match ufdtGet s.descriptors ufd with
  | some _ => (ufdtClose s.descriptors ufd).map fun closed => (0, { s with descriptors := closed.1 })
  | none => .ok (-Signals.einval, s)

def sysDup2 (ufd ufd2 : Nat) (s : State) : Except Fault (Int × State) :=
  (Fs.sysDup2 s.descriptors ufd ufd2).map fun result => (result.2, { s with descriptors := result.1 })

/-- `sigaction`, with whether there is an `sa_old`. -/
def sysSigaction (sig : Int) (sa : Option Sigaction) (saOld : Bool) (s : State) : Except Fault (Int × State) :=
  if sig < 0 ∨ sig > nsig then .ok (-Signals.einval, s)
  else if sig.toNat ≥ nsig ∧ (sa.isSome ∨ saOld) then .error (.outOfBounds "sigactions" sig.toNat)
  else
    match sa with
    | some sa => .ok (0, { s with sigactions := s.sigactions.setIfInBounds sig.toNat sa })
    | none => .ok (0, s)

/-- The loop of `inet_find`, with what `success` holds, over the entries of the type. -/
def findProtocol (protocol : Nat) : Bool → List InetProtocol → Except Fault (Option SockProtocol)
  -- past the end, `found` is the head of the list
  | true, [] => .error .strayEntry
  | false, [] => .ok none
  | _, found :: rest =>
      if found.protocol = protocol ∨ found.protocol = ipprotoRaw then .ok (some found.impl)
      else if protocol = ipprotoRaw then .ok (some found.impl)
      else findProtocol protocol false rest

def inetFind (success : Bool) (type protocol : Nat) (s : State) : Except Fault (Option SockProtocol) :=
  match s.types[type]? with
  | some entries => findProtocol protocol success entries
  | none => .error (.outOfBounds "types" type)

/-- `sock_create`, up to the protocol that the socket is opened with. -/
def sockCreate (success : Bool) (family type protocol : Nat) (s : State) : Except Fault (Option SockProtocol) :=
  match s.families[family]? with
  | some (some .inet) => inetFind success type protocol s
  | some none => .ok none
  | none => .error (.outOfBounds "families" family)

def sysSocket (env : Environment) (family type protocol : Nat) (s : State) : Except Fault (Int × State) := do
  match ← sockCreate env.success family type protocol s, env.file with
  | some _, some fd =>
      let (descriptors, added) ← ufdtAdd { s.descriptors with gfdt := gfdtObtain s.descriptors.gfdt fd } fd
      return (signed added, { s with descriptors })
  | _, _ => return (-ebadf, s)

inductive Call where
  | dup2 (ufd ufd2 : Nat)
  | close (ufd : Nat)
  | sigaction (sig : Int) (sa : Option Sigaction) (saOld : Bool)
  | socket (family type protocol : Nat)
  | select (nfds : Int) (rfds wfds efds : Option FdSet)

def perform (env : Environment) (s : State) : Call → Except Fault (Option Int × State)
  | .dup2 ufd ufd2 => (sysDup2 ufd ufd2 s).map fun (ret, s) => (some ret, s)
  | .close ufd => (sysClose ufd s).map fun (ret, s) => (some ret, s)
  | .sigaction sig sa saOld => (sysSigaction sig sa saOld s).map fun (ret, s) => (some ret, s)
  | .socket family type protocol => (sysSocket env family type protocol s).map fun (ret, s) => (some ret, s)
  | .select nfds rfds wfds efds => (sysSelect env nfds rfds wfds efds s).map fun ret => (ret, s)

/-- An element of an array of the task. -/
inductive Element where
  | ufd (idx : Nat)
  | sigaction (sig : Nat)
deriving DecidableEq, Repr

/-- The element that a call is about. -/
def addressed (s : State) : Call → Option Element
  | .dup2 _ ufd2 => some (.ufd ufd2)
  | .close ufd => some (.ufd ufd)
  | .sigaction sig _ _ => some (.sigaction sig.toNat)
  | .socket _ _ _ => some (.ufd (ufdtFindNext s.descriptors))
  | .select _ _ _ _ => none

structure OnlyAddressed (element : Option Element) (before after : State) : Prop where
  length : after.descriptors.table.length = before.descriptors.table.length
  table : ∀ i, element ≠ some (.ufd i) → after.descriptors.table[i]? = before.descriptors.table[i]?
  sigactions : ∀ i, element ≠ some (.sigaction i) → after.sigactions[i]? = before.sigactions[i]?
  families : after.families = before.families
  types : after.types = before.types

/-- No access is out of bounds, and nothing but the element addressed is modified. -/
structure Confined (call : Call) (s : State) : Prop where
  bounded : ∀ env array index, perform env s call ≠ .error (.outOfBounds array index)
  only : ∀ env ret after, perform env s call = .ok (ret, after) → OnlyAddressed (addressed s call) s after

def Within (s : State) : Call → Prop
  | .dup2 ufd ufd2 => ufdtIsPresent s.descriptors ufd = true → ufd2 < maxNumFds
  | .close _ => True
  | .sigaction sig sa saOld => sig = nsig → sa = none ∧ saOld = false
  | .socket family type _ => family < afMax ∧ ((s.families[family]?).join.isSome → type < sockMax)
  | .select nfds _ _ _ => ∀ i, i < nfds.toNat → ufdtIsPresent s.descriptors i = true → i < fdSetsize

section Table

variable {s s' s'' : Descriptors} {ufd gfd : Nat}

structure Slot (ufd : Nat) (s s' : Descriptors) : Prop where
  length : s'.table.length = s.table.length
  others : ∀ i, i ≠ ufd → s'.table[i]? = s.table[i]?

theorem Slot.trans (first : Slot ufd s s') (second : Slot ufd s' s'') : Slot ufd s s'' :=
  ⟨second.length.trans first.length, fun i other => (second.others i other).trans (first.others i other)⟩

theorem setSlot_slot {slot : Ufd} {gfdt : Gfdt} (inside : ufd < s.table.length) :
    ∃ s', Descriptors.setSlot { s with gfdt } ufd slot = .ok s' ∧ Slot ufd s s' := by
  refine ⟨{ gfdt, table := s.table.set ufd slot }, if_pos inside, ⟨List.length_set, fun i other => ?_⟩⟩
  exact List.getElem?_set_ne (Ne.symm other)

theorem ufdtInstall_slot (gfd : Nat) (inside : ufd < s.table.length) : ∃ s', ufdtInstall s ufd gfd = .ok s' ∧ Slot ufd s s' :=
  setSlot_slot inside

theorem present_inside (present : ufdtIsPresent s ufd = true) : ufd < s.table.length := by
  simp only [ufdtIsPresent, Bool.and_eq_true, isSome_iff_exists, bind_eq_some_iff] at present
  obtain ⟨_, _, _, found, _⟩ := present
  exact (List.getElem?_eq_some_iff.mp found).1

theorem ufdtCloseSlot_slot (present : ufdtIsPresent s ufd = true) : ∃ s', ufdtCloseSlot s ufd = .ok s' ∧ Slot ufd s s' := by
  have inside := present_inside present
  simp only [ufdtIsPresent, Bool.and_eq_true, isSome_iff_exists] at present
  obtain ⟨_, gfd, found⟩ := present
  simp only [ufdtCloseSlot, found]
  exact setSlot_slot inside

theorem ufdtReplace_slot (gfd : Nat) (inside : ufd < s.table.length) : ∃ s', ufdtReplace s ufd gfd = .ok s' ∧ Slot ufd s s' := by
  cases present : ufdtIsPresent s ufd with
  | true =>
    obtain ⟨closed, ran, slot⟩ := ufdtCloseSlot_slot present
    obtain ⟨final, installed, next⟩ := ufdtInstall_slot gfd (show ufd < closed.table.length from slot.length ▸ inside)
    exact ⟨final, by simp [ufdtReplace, present, ran, installed], slot.trans next⟩
  | false =>
    obtain ⟨final, installed, slot⟩ := ufdtInstall_slot gfd inside
    exact ⟨final, by simp [ufdtReplace, present, installed], slot⟩

theorem ufdtReplace_outside (outside : s.table.length ≤ ufd) : ufdtReplace s ufd gfd = .error (.outOfBounds "table" ufd) := by
  have absent : ufdtIsPresent s ufd = false := by
    by_contra present
    exact not_lt.mpr outside (present_inside (by simpa using present))
  simp [ufdtReplace, absent, ufdtInstall, Descriptors.setSlot, not_lt.mpr outside]

theorem ufdtGet_some (got : ufdtGet s ufd = some gfd) : ufdtIsPresent s ufd = true := by
  by_contra absent
  simp [ufdtGet, absent] at got

theorem ufdtGet_none (got : ufdtGet s ufd = none) : ufdtIsPresent s ufd = false := by
  cases present : ufdtIsPresent s ufd with
  | false => rfl
  | true =>
    rw [ufdtGet, if_pos present] at got
    simp [ufdtIsPresent, got] at present

theorem ufdtAdd_slot (gfd : Nat) (sized : s.table.length = maxNumFds) : ∃ s' added, ufdtAdd s gfd = .ok (s', added) ∧ Slot (ufdtFindNext s) s s' := by
  by_cases full : ufdtFindNext s = ufdInvalid
  · exact ⟨s, ufdtFindNext s, by simp [ufdtAdd, full], rfl, fun _ _ => rfl⟩
  · have inside : ufdtFindNext s < s.table.length := by
      rcases ufdtFindNext_cases sized with ⟨below, _⟩ | ⟨invalid, _⟩
      · exact sized ▸ below
      · exact absurd invalid full
    obtain ⟨s', installed, slot⟩ := ufdtInstall_slot gfd inside
    exact ⟨s', ufdtFindNext s, by simp [ufdtAdd, full, installed], slot⟩

end Table

theorem Slot.only {before : State} {descriptors : Descriptors} {ufd : Nat} (slot : Slot ufd before.descriptors descriptors) :
    OnlyAddressed (some (.ufd ufd)) before { before with descriptors } where
  length := slot.length
  table := fun i other => slot.others i fun same => other (by rw [same])
  sigactions := fun _ _ => rfl
  families := rfl
  types := rfl

theorem OnlyAddressed.refl (element : Option Element) (s : State) : OnlyAddressed element s s :=
  ⟨rfl, fun _ _ => rfl, fun _ _ => rfl, rfl, rfl⟩

def IsOutOfBounds (reason : Fault) : Prop := ∃ array index, reason = .outOfBounds array index

def Ends (s : State) (call : Call) (result : Except Fault (Option Int × State)) : Prop :=
  (∃ ret after, result = .ok (ret, after) ∧ OnlyAddressed (addressed s call) s after) ∨
    ∃ reason, result = .error reason ∧ ¬ IsOutOfBounds reason

theorem Confined.of_ends {call : Call} {s : State} (ends : ∀ env, Ends s call (perform env s call)) : Confined call s where
  bounded := by
    intro env array index failed
    rcases ends env with ⟨ret, after, ran, _⟩ | ⟨reason, ran, other⟩
    · rw [ran] at failed
      contradiction
    · rw [ran] at failed
      cases failed
      exact other ⟨array, index, rfl⟩
  only := by
    intro env ret after ran
    rcases ends env with ⟨_, _, returned, only⟩ | ⟨reason, failed, _⟩
    · rw [returned] at ran
      cases ran
      exact only
    · rw [failed] at ran
      contradiction

def calm : Environment where
  first := { poll := fun _ => .ok ⟨false, false, false⟩, wakes := .timeout }
  later := []
  stack := (.replicate _ 0, .replicate _ 0, .replicate _ 0)
  success := false
  file := none

variable {sets : FdSet × FdSet × FdSet} {array : String} {index : Nat}

section Calls

variable {task : Task}
variable {ufd protocol family type n i : Nat} {success : Bool}

theorem dup2_confined {ufd2 : Nat} : Confined (.dup2 ufd ufd2) task.toState ↔ Within task.toState (.dup2 ufd ufd2) := by
  constructor
  · intro confined present
    by_contra outside
    have beyond : task.descriptors.table.length ≤ ufd2 := by
      rw [task.sized]
      exact not_lt.mp outside
    have apart : ufd ≠ ufd2 := by
      rintro rfl
      exact not_lt.mpr beyond (present_inside present)
    cases got : ufdtGet task.descriptors ufd with
    | none => simp [ufdtGet_none got] at present
    | some =>
      refine confined.bounded calm "table" ufd2 ?_
      simp [perform, sysDup2, Fs.sysDup2, got, apart, ufdtReplace_outside beyond]
  · intro within
    refine Confined.of_ends fun env => .inl ?_
    cases got : ufdtGet task.descriptors ufd with
    | none => exact ⟨some (-ebadf), task.toState, by simp [perform, sysDup2, Fs.sysDup2, got], .refl _ _⟩
    | some fd =>
      have inside : ufd2 < task.descriptors.table.length := task.sized ▸ within (ufdtGet_some got)
      by_cases same : ufd = ufd2
      · refine ⟨some (signed ufd2), task.toState, ?_, .refl _ _⟩
        subst same
        simp [perform, sysDup2, Fs.sysDup2, got]
      · obtain ⟨after, ran, slot⟩ := ufdtReplace_slot fd inside
        refine ⟨some (signed ufd2), { task.toState with descriptors := after }, ?_, slot.only⟩
        simp [perform, sysDup2, Fs.sysDup2, got, same, ran]

theorem close_confined : Confined (.close ufd) task.toState := by
  refine Confined.of_ends fun env => .inl ?_
  cases got : ufdtGet task.descriptors ufd with
  | none => exact ⟨some (-Signals.einval), task.toState, by simp [perform, sysClose, got], .refl _ _⟩
  | some =>
    have present := ufdtGet_some got
    obtain ⟨after, ran, slot⟩ := ufdtCloseSlot_slot present
    refine ⟨some 0, { task.toState with descriptors := after }, ?_, slot.only⟩
    simp [perform, sysClose, got, ufdtClose, present, ran]

theorem sigaction_confined {sig : Int} {sa : Option Sigaction} {saOld : Bool} :
    Confined (.sigaction sig sa saOld) task.toState ↔ Within task.toState (.sigaction sig sa saOld) := by
  constructor
  · rintro confined rfl
    by_contra accesses
    have used : sa.isSome ∨ saOld = true := by
      cases sa with
      | none => exact .inr (by simpa using accesses)
      | some => exact .inl rfl
    refine confined.bounded calm "sigactions" nsig ?_
    have valid : ¬ ((nsig : Int) < 0 ∨ (nsig : Int) > nsig) := by decide
    have beyond : (nsig : Int).toNat ≥ nsig ∧ (sa.isSome ∨ saOld = true) := ⟨le_rfl, used⟩
    simp only [perform, sysSigaction, if_neg valid, if_pos beyond, error_map]
    rfl
  · intro within
    refine Confined.of_ends fun env => .inl ?_
    by_cases invalid : sig < 0 ∨ sig > nsig
    · exact ⟨some (-Signals.einval), task.toState, by simp [perform, sysSigaction, invalid], .refl _ _⟩
    · have fits : ¬ (sig.toNat ≥ nsig ∧ (sa.isSome ∨ saOld)) := by
        rintro ⟨large, used⟩
        obtain ⟨rfl, rfl⟩ := within (by omega)
        simp at used
      cases sa with
      | none =>
        exact ⟨some 0, task.toState, by simp only [perform, sysSigaction, if_neg invalid, if_neg fits,
          ok_map], .refl _ _⟩
      | some sa =>
        refine ⟨some 0, { task.toState with sigactions := task.sigactions.setIfInBounds sig.toNat sa }, ?_, ?_⟩
        · simp only [perform, sysSigaction, if_neg invalid, if_neg fits, ok_map]
        · refine ⟨rfl, fun _ _ => rfl, fun i other => ?_, rfl, rfl⟩
          have apart : sig.toNat ≠ i := fun same => other (by rw [addressed, same])
          simp [apart]

theorem findProtocol_bounded {entries : List InetProtocol} :
    findProtocol protocol success entries ≠ .error (.outOfBounds array index) := by
  induction entries generalizing success with
  | nil => cases success <;> simp [findProtocol]
  | cons _ _ ih =>
    simp only [findProtocol]
    split
    · simp
    · split
      · simp
      · exact ih

theorem sockCreate_bounded (within : Within task.toState (.socket family type protocol)) :
    sockCreate success family type protocol task.toState ≠ .error (.outOfBounds array index) := by
  obtain ⟨known, sized⟩ := within
  rw [Vector.getElem?_eq_getElem known] at sized
  simp only [sockCreate, Vector.getElem?_eq_getElem known]
  cases entry : task.families[family] with
  | none => simp
  | some =>
    have small : type < sockMax := sized (by simp [entry])
    simp only [inetFind, Vector.getElem?_eq_getElem small]
    exact findProtocol_bounded

theorem socket_confined :
    Confined (.socket family type protocol) task.toState ↔ Within task.toState (.socket family type protocol) := by
  constructor
  · intro confined
    have known : family < afMax := by
      by_contra outside
      refine confined.bounded calm "families" family ?_
      have beyond : task.families[family]? = none := Vector.getElem?_eq_none (not_lt.mp outside)
      simp [perform, sysSocket, sockCreate, beyond]
    refine ⟨known, fun registered => ?_⟩
    by_contra outside
    refine confined.bounded calm "types" type ?_
    have beyond : task.types[type]? = none := Vector.getElem?_eq_none (not_lt.mp outside)
    rw [Vector.getElem?_eq_getElem _] at registered
    obtain ⟨⟨⟩, entry⟩ := isSome_iff_exists.mp registered
    have found : task.families[family] = some .inet := by simpa using entry
    simp [perform, sysSocket, sockCreate, inetFind, Vector.getElem?_eq_getElem known, found, beyond]
  · intro within
    refine Confined.of_ends fun env => ?_
    cases created : sockCreate env.success family type protocol task.toState with
    | error reason =>
      refine .inr ⟨reason, by simp [perform, sysSocket, created], ?_⟩
      rintro ⟨array, index, rfl⟩
      exact sockCreate_bounded within created
    | ok proto =>
      left
      cases proto with
      | none =>
        refine ⟨some (-ebadf), task.toState, ?_, .refl _ _⟩
        simp [perform, sysSocket, created]
      | some =>
        cases file : env.file with
        | none =>
          refine ⟨some (-ebadf), task.toState, ?_, .refl _ _⟩
          simp [perform, sysSocket, created, file]
        | some fd =>
          have sized : ({ task.descriptors with gfdt := gfdtObtain task.descriptors.gfdt fd } : Descriptors).table.length =
              maxNumFds := task.sized
          obtain ⟨after, added, ran, slot⟩ := ufdtAdd_slot fd sized
          refine ⟨some (signed added), { task.toState with descriptors := after }, ?_, ?_⟩
          · simp [perform, sysSocket, created, file, ran]
          · exact Slot.only ⟨slot.length, slot.others⟩

theorem fdIsset_inside (set : FdSet) (small : n < fdSetsize) : ∃ isSet, fdIsset n set = .ok isSet := by
  have inside : n / nfdbits < (fdSetsize + (nfdbits - 1)) / nfdbits := by
    simp only [fdSetsize, nfdbits] at small ⊢
    omega
  exact ⟨_, by simp only [fdIsset, Vector.getElem?_eq_getElem inside]; rfl⟩

theorem fdIsset_outside (set : FdSet) (large : fdSetsize ≤ n) :
    fdIsset n set = .error (.outOfBounds "fds_bits" (n / nfdbits)) := by
  have outside : (fdSetsize + (nfdbits - 1)) / nfdbits ≤ n / nfdbits := by
    simp only [fdSetsize, nfdbits] at large ⊢
    omega
  simp only [fdIsset, Vector.getElem?_eq_none outside]

theorem checkSet_inside (set : FdSet) (ready : Bool) (num : Nat) (small : i < fdSetsize) :
    ∃ after, checkSet i set ready num = .ok after := by
  obtain ⟨isSet, tested⟩ := fdIsset_inside set small
  obtain ⟨_, again⟩ := fdIsset_inside (.replicate _ 0) small
  simp only [checkSet, tested, again, ok_bind]
  split
  · exact ⟨num + 1, rfl⟩
  · exact ⟨num, rfl⟩

variable {s : Descriptors} {nfds : Int}

theorem selectTurn_inside {poll : Nat → Except Int FpollData} {num : Nat}
    (small : ufdtIsPresent s i = true → i < fdSetsize) :
    (∃ after, selectTurn s poll sets i num = .ok after) ∨
      ∃ ret, selectTurn s poll sets i num = .error (.panicf "poll failure! %d" [ret]) ∧ ∃ fd code, poll fd = .error code := by
  cases got : ufdtGet s i with
  | none => exact .inl ⟨num, by simp only [selectTurn, got]⟩
  | some fd =>
    cases polled : poll fd with
    | error ret => exact .inr ⟨(ret % wordSize).toNat, by simp only [selectTurn, got, polled], fd, ret, polled⟩
    | ok fp =>
      have inside := small (ufdtGet_some got)
      obtain ⟨first, readable⟩ := checkSet_inside sets.1 fp.readable num inside
      obtain ⟨second, writable⟩ := checkSet_inside sets.2.1 fp.writable first inside
      obtain ⟨third, errored⟩ := checkSet_inside sets.2.2 fp.errored second inside
      exact .inl ⟨third, by simp only [selectTurn, got, polled, readable, writable, errored, ok_bind]⟩

theorem selectScan_inside (poll : Nat → Except Int FpollData) (sets : FdSet × FdSet × FdSet)
    (small : ∀ i < nfds.toNat, ufdtIsPresent s i = true → i < fdSetsize) :
    (∃ num, forLoop (selectTurn s poll sets) nfds.toNat 0 = .ok num) ∨
      ∃ reason, forLoop (selectTurn s poll sets) nfds.toNat 0 = .error reason ∧ ¬ IsOutOfBounds reason := by
  have turns : (∃ num, forLoop (selectTurn s poll sets) nfds.toNat 0 = .ok num ∧ True) ∨
      ∃ reason, forLoop (selectTurn s poll sets) nfds.toNat 0 = .error reason ∧ ¬ IsOutOfBounds reason := by
    refine forLoop_cases (fun _ _ => True) (fun reason => ¬ IsOutOfBounds reason) trivial fun i num below _ => ?_
    rcases selectTurn_inside (small i below) with ⟨after, ran⟩ | ⟨ret, failed, _⟩
    · exact .inl ⟨after, ran, trivial⟩
    · exact .inr ⟨_, failed, fun ⟨_, _, same⟩ => nomatch same⟩
  exact turns.imp_left fun ⟨num, ran, _⟩ => ⟨num, ran⟩

theorem selectLoop_fails {round : Round} {later : List Round} {reason : Fault}
    (failed : forLoop (selectTurn s round.poll sets) nfds.toNat 0 = .error reason) :
    selectLoop s nfds sets round later = .error reason := by
  unfold selectLoop
  rw [failed]
  rfl

theorem selectLoop_inside (sets : FdSet × FdSet × FdSet) (round : Round) (later : List Round)
    (small : ∀ i < nfds.toNat, ufdtIsPresent s i = true → i < fdSetsize) :
    (∃ ret, selectLoop s nfds sets round later = .ok ret) ∨
      ∃ reason, selectLoop s nfds sets round later = .error reason ∧ ¬ IsOutOfBounds reason := by
  induction later generalizing round with
  | nil =>
    rcases selectScan_inside round.poll sets small with ⟨num, ran⟩ | ⟨reason, failed, other⟩
    · left
      cases wakes : round.wakes <;> by_cases found : num = 0 <;>
        simp [selectLoop, ran, wakes, found]
    · exact .inr ⟨reason, selectLoop_fails failed, other⟩
  | cons next _ ih =>
    rcases selectScan_inside round.poll sets small with ⟨num, ran⟩ | ⟨reason, failed, other⟩
    · by_cases found : num = 0
      · cases wakes : round.wakes with
        | timeout => exact .inl ⟨some (-1), by simp [selectLoop, ran, wakes, found]⟩
        | signal => exact .inl ⟨some (-eintr), by simp [selectLoop, ran, wakes, found]⟩
        | interrupt => simpa [selectLoop, ran, wakes, found] using ih next
      · refine .inl ⟨some (-1), ?_⟩
        unfold selectLoop
        simp [ran, found]
    · exact .inr ⟨reason, selectLoop_fails failed, other⟩

theorem selectScan_calm (sets : FdSet × FdSet × FdSet) :
    (∃ num, forLoop (selectTurn s calm.first.poll sets) nfds.toNat 0 = .ok num ∧
      ∀ i < nfds.toNat, ufdtIsPresent s i = true → i < fdSetsize) ∨
    ∃ reason, forLoop (selectTurn s calm.first.poll sets) nfds.toNat 0 = .error reason ∧ IsOutOfBounds reason := by
  refine forLoop_cases (fun count _ => ∀ i < count, ufdtIsPresent s i = true → i < fdSetsize) IsOutOfBounds
    (fun i below => absurd below (Nat.not_lt_zero i)) fun index num _ before => ?_
  by_cases small : ufdtIsPresent s index = true → index < fdSetsize
  · rcases selectTurn_inside small with ⟨after, ran⟩ | ⟨_, _, _, _, failed⟩
    · refine .inl ⟨after, ran, fun i below present => ?_⟩
      rcases Nat.lt_succ_iff_lt_or_eq.mp below with earlier | rfl
      · exact before i earlier present
      · exact small present
    · contradiction
  · right
    obtain ⟨present, large⟩ := Classical.not_imp.mp small
    cases got : ufdtGet s index with
    | none => simp [ufdtGet_none got] at present
    | some =>
      refine ⟨_, ?_, "fds_bits", index / nfdbits, rfl⟩
      simp [selectTurn, got, calm, checkSet, fdIsset_outside sets.1 (not_lt.mp large)]

theorem select_confined {rfds wfds efds : Option FdSet} :
    Confined (.select nfds rfds wfds efds) task.toState ↔ Within task.toState (.select nfds rfds wfds efds) := by
  constructor
  · intro confined
    rcases selectScan_calm (rfds.getD calm.stack.1, wfds.getD calm.stack.2.1, efds.getD calm.stack.2.2) with
      ⟨_, _, small⟩ | ⟨_, failed, array, index, rfl⟩
    · exact small
    · refine absurd ?_ (confined.bounded calm array index)
      simp [perform, sysSelect, selectLoop_fails failed]
  · intro small
    refine Confined.of_ends fun env => ?_
    rcases selectLoop_inside (rfds.getD env.stack.1, wfds.getD env.stack.2.1, efds.getD env.stack.2.2) env.first env.later small with
      ⟨ret, ran⟩ | ⟨reason, failed, other⟩
    · exact .inl ⟨ret, task.toState, by simp [perform, sysSelect, ran], .refl _ _⟩
    · exact .inr ⟨reason, by simp [perform, sysSelect, failed], other⟩

end Calls

theorem calls_stay_in_bounds (task : Task) (call : Call) : Confined call task.toState ↔ Within task.toState call := by
  cases call with
  | dup2 => exact dup2_confined
  | close => exact iff_of_true close_confined trivial
  | sigaction => exact sigaction_confined
  | socket => exact socket_confined
  | select => exact select_confined

def bootedTask : Task where
  descriptors :=
    { gfdt := emptyDescriptors.gfdt
      table := (List.range maxNumFds).map fun i => { flags := 0, gfd := if i = 0 ∨ i = 64 then some 1 else none } }
  sigactions := .replicate _ { flags := 0, mask := 0, handler := sigDfl }
  families := (Vector.replicate afMax none).setIfInBounds afInet (some .inet)
  types := #v[[], [⟨ipProtTcp, .tcp⟩], [⟨ipProtUdp, .udp⟩, ⟨ipProtIcmp, .icmp⟩], [⟨0, .raw⟩]]
  sized := by simp

def faultOf (call : Call) : Option Fault :=
  match perform calm bootedTask.toState call with
  | .ok _ => none
  | .error reason => some reason

theorem not_confined {call : Call} (fault : faultOf call = some (.outOfBounds array index)) :
    ¬ Confined call bootedTask.toState := by
  intro confined
  cases ran : perform calm bootedTask.toState call with
  | ok => simp [faultOf, ran] at fault
  | error =>
    simp only [faultOf, ran, some.injEq] at fault
    exact confined.bounded calm _ _ (fault ▸ ran)

/-- The first number behind the end of each array. -/
theorem calls_leave_bounds :
    (faultOf (.dup2 0 512) = some (.outOfBounds "table" 512) ∧ ¬ Confined (.dup2 0 512) bootedTask.toState) ∧
    (faultOf (.sigaction 32 (some ⟨0, 0, 0x8049000⟩) false) = some (.outOfBounds "sigactions" 32) ∧
      ¬ Confined (.sigaction 32 (some ⟨0, 0, 0x8049000⟩) false) bootedTask.toState) ∧
    (faultOf (.socket 6 1 0) = some (.outOfBounds "families" 6) ∧ ¬ Confined (.socket 6 1 0) bootedTask.toState) ∧
    (faultOf (.socket 1 4 0) = some (.outOfBounds "types" 4) ∧ ¬ Confined (.socket 1 4 0) bootedTask.toState) ∧
    (faultOf (.select 65 none none none) = some (.outOfBounds "fds_bits" 2) ∧
      ¬ Confined (.select 65 none none none) bootedTask.toState) := by
  have table : faultOf (.dup2 0 512) = some (.outOfBounds "table" 512) := by decide +kernel
  have sigactions : faultOf (.sigaction 32 (some ⟨0, 0, 0x8049000⟩) false) = some (.outOfBounds "sigactions" 32) := by
    decide +kernel
  have families : faultOf (.socket 6 1 0) = some (.outOfBounds "families" 6) := by decide +kernel
  have types : faultOf (.socket 1 4 0) = some (.outOfBounds "types" 4) := by decide +kernel
  have words : faultOf (.select 65 none none none) = some (.outOfBounds "fds_bits" 2) := by decide +kernel
  exact ⟨⟨table, not_confined table⟩, ⟨sigactions, not_confined sigactions⟩, ⟨families, not_confined families⟩,
    ⟨types, not_confined types⟩, words, not_confined words⟩

end KOs.Sched.Indices

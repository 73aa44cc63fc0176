import KOs.Net.Ports

namespace KOs.Net.Ports

open KOs.Common KOs.Data Function List Option Table

/-- `ports_sock` has the owners of the ports, which are open sockets. -/
structure Owners (portsSock : Nat → Option Nat) (owned : List (Nat × Nat)) (socks : Nat → Option Sock) : Prop where
  owner : ∀ id port, portsSock port = some id ↔ (id, port) ∈ owned
  live : ∀ id port, (id, port) ∈ owned → (socks id).isSome = true
  range : ∀ id port, (id, port) ∈ owned → port < portNum

/-- The list has the ephemeral ports that nobody owns. -/
def Free (next prev : Nat → Nat) (head : Nat) (owned : List (Nat × Nat)) : Prop :=
  ∃ list, Doubly next prev head list freelistEnd ∧
    ∀ i, i ∈ list ↔ i < ephemeralNum ∧ ∀ id, (id, ephemeralStart + i) ∉ owned

structure Table.Integral (s : Table) : Prop where
  owners : Owners s.portsSock s.owned s.socks
  free : Free s.ephemeralPortsNext s.ephemeralPortsPrev s.ephemeralNext s.owned

variable {owned : List (Nat × Nat)} {id port : Nat}

section Owners

variable {portsSock : Nat → Option Nat} {socks : Nat → Option Sock}

theorem mine_iff (only : owned.filter (fun own => own.1 = id) = [(id, port)]) (number : Nat) :
    (id, number) ∈ owned ↔ number = port := by
  have mem : (id, number) ∈ owned.filter (fun own => own.1 = id) ↔ (id, number) ∈ owned := by simp
  rw [← mem, only]
  simp

theorem filter_others (none : owned.filter (fun own => own.1 = id) = []) :
    owned.filter (fun own => own.1 ≠ id) = owned := by
  refine filter_eq_self.mpr fun own mem => ?_
  simpa using filter_eq_nil_iff.mp none own mem

namespace Owners

section

variable (owners : Owners portsSock owned socks)
include owners

theorem unique {other : Nat} (first : (id, port) ∈ owned) (second : (other, port) ∈ owned) : id = other := by
  have one := (owners.owner id port).mpr first
  rw [(owners.owner _ port).mpr second] at one
  exact (some.inj one).symm

theorem unowned (free : portsSock port = none) : ∀ id, (id, port) ∉ owned := by
  intro id mem
  rw [(owners.owner id port).mpr mem] at free
  contradiction

theorem later {after : Nat → Option Sock}
    (live : ∀ id, (socks id).isSome = true → (after id).isSome = true) : Owners portsSock owned after :=
  ⟨owners.owner, fun id port mem => live id (owners.live id port mem), owners.range⟩

theorem give (free : portsSock port = none) (range : port < portNum) (live : (socks id).isSome = true) :
    Owners (update portsSock port (some id)) ((id, port) :: owned) socks := by
  refine ⟨fun other number => ?_, fun other number mem => ?_, fun other number mem => ?_⟩
  · rw [mem_cons, Prod.mk.injEq, ← owners.owner]
    by_cases same : number = port
    · subst same
      simp [free, eq_comm]
    · simp [same]
  · rcases mem_cons.mp mem with same | old
    · cases same
      exact live
    · exact owners.live _ _ old
  · rcases mem_cons.mp mem with same | old
    · cases same
      exact range
    · exact owners.range _ _ old

theorem release (only : owned.filter (fun own => own.1 = id) = [(id, port)]) :
    Owners (update portsSock port none) (owned.filter (fun own => own.1 ≠ id)) (update socks id none) := by
  refine ⟨fun other number => ?_, fun other number mem => ?_, fun other number mem => ?_⟩
  · rw [mem_filter, ← owners.owner]
    by_cases same : number = port
    · subst same
      have taken := (owners.owner id number).mpr ((mine_iff only number).mpr rfl)
      rw [update_self, taken]
      refine iff_of_false nofun ?_
      rintro ⟨same, foreign⟩
      cases same
      simp at foreign
    · rw [update_of_ne same]
      refine ⟨fun taken => ⟨taken, ?_⟩, And.left⟩
      have foreign : other ≠ id := by
        rintro rfl
        exact same ((mine_iff only _).mp ((owners.owner _ _).mp taken))
      simpa using foreign
  · obtain ⟨old, other⟩ := mem_filter.mp mem
    rw [update_of_ne (by simpa using other)]
    exact owners.live _ _ old
  · exact owners.range _ _ (mem_filter.mp mem).1

theorem depart (none : owned.filter (fun own => own.1 = id) = []) :
    Owners portsSock (owned.filter (fun own => own.1 ≠ id)) (update socks id .none) := by
  rw [filter_others none]
  refine ⟨owners.owner, fun other number mem => ?_, owners.range⟩
  have foreign : other ≠ id := by simpa using filter_eq_nil_iff.mp none _ mem
  rw [update_of_ne foreign]
  exact owners.live _ _ mem

end

end Owners

end Owners

variable {offset : Nat}

section Free

variable {next prev : Nat → Nat} {head : Nat}

namespace Free

variable (free : Free next prev head owned)
include free

theorem other (low : port < ephemeralStart) :
    Free next prev head ((id, port) :: owned) := by
  obtain ⟨list, threads, members⟩ := free
  refine ⟨list, threads, fun i => (members i).trans ?_⟩
  have apart : ∀ other, (other, ephemeralStart + i) ≠ (id, port) := by
    intro other same
    have := (Prod.mk.inj same).2
    omega
  simp [apart]

omit free in
theorem mem_rest {list rest : List Nat}
    (members : ∀ i, i ∈ list ↔ i < ephemeralNum ∧ ∀ other, (other, ephemeralStart + i) ∉ owned)
    (parts : list.Perm (offset :: rest)) (fresh : offset ∉ rest) (id i : Nat) :
    i ∈ rest ↔ i < ephemeralNum ∧ ∀ other, (other, ephemeralStart + i) ∉ (id, ephemeralStart + offset) :: owned := by
  have before := members i
  rw [parts.mem_iff, mem_cons] at before
  constructor
  · intro later
    obtain ⟨bound, absent⟩ := before.mp (.inr later)
    refine ⟨bound, fun other mem => ?_⟩
    rcases mem_cons.mp mem with same | old
    · have := (Prod.mk.inj same).2
      exact fresh (by rwa [show offset = i by omega])
    · exact absent _ old
  · rintro ⟨bound, absent⟩
    refine (before.mpr ⟨bound, fun other old => absent other (mem_cons_of_mem _ old)⟩).resolve_left ?_
    rintro rfl
    exact absent id mem_cons_self

theorem pop (some : head ≠ freelistEnd) (id : Nat) :
    head < ephemeralNum ∧ (∀ other, (other, ephemeralStart + head) ∉ owned) ∧
      Free next prev (next head) ((id, head + ephemeralStart) :: owned) := by
  obtain ⟨list, threads, members⟩ := free
  cases list with
  | nil => exact absurd threads.forward some
  | cons _ rest =>
    obtain ⟨rfl, _⟩ := threads.forward
    obtain ⟨small, unowned⟩ := (members head).mp mem_cons_self
    rw [add_comm head]
    exact ⟨small, unowned, rest, threads.pop, mem_rest members .rfl (nodup_cons.mp threads.nodup).1 id⟩

theorem unlink (small : offset < ephemeralNum)
    (unowned : ∀ other, (other, ephemeralStart + offset) ∉ owned) (first : head ≠ offset)
    (last : next offset ≠ freelistEnd) (id : Nat) :
    next offset < ephemeralNum ∧ prev offset < ephemeralNum ∧ next offset ≠ offset ∧
      Free (update next (prev offset) (next offset)) (update prev (next offset) (prev offset)) head
        ((id, ephemeralStart + offset) :: owned) := by
  obtain ⟨list, threads, members⟩ := free
  obtain ⟨front, back, rfl⟩ := append_of_mem ((members offset).mpr ⟨small, unowned⟩)
  -- The list does not start or end with the port.
  obtain ⟨start, before, rfl⟩ : ∃ start before, front = start ++ [before] := by
    rcases eq_nil_or_concat front with rfl | ⟨start, before, split⟩
    · exact absurd threads.start_eq first
    · exact ⟨start, before, by simpa using split⟩
  obtain ⟨behind, rest, rfl⟩ : ∃ behind rest, back = behind :: rest := by
    cases back with
    | nil =>
      obtain ⟨_, _, _, stops⟩ := threads_append.mp threads.forward
      exact absurd stops last
    | cons behind rest => exact ⟨behind, rest, rfl⟩
  rw [append_assoc, singleton_append] at threads members
  obtain ⟨follows, leads⟩ := threads.around
  have middle : (start ++ before :: offset :: behind :: rest).Perm (offset :: (start ++ before :: behind :: rest)) := by
    have moved : (start ++ [before] ++ offset :: behind :: rest).Perm
      (offset :: (start ++ [before] ++ behind :: rest)) := perm_middle
    simpa using moved
  obtain ⟨fresh, _⟩ := nodup_cons.mp (middle.nodup_iff.mp threads.nodup)
  rw [follows, leads]
  refine ⟨((members _).mp (by simp)).1, ((members _).mp (by simp)).1, ?_, _, threads.remove,
    mem_rest members middle fresh id⟩
  rintro rfl
  exact fresh (by simp)

theorem push (small : offset < ephemeralNum)
    (only : owned.filter (fun own => own.1 = id) = [(id, ephemeralStart + offset)])
    (unique : ∀ other, (other, ephemeralStart + offset) ∈ owned → other = id) :
    Free (update next offset head) (update prev head offset) offset (owned.filter (fun own => own.1 ≠ id)) := by
  obtain ⟨list, threads, members⟩ := free
  have mine := (mine_iff only _).mpr rfl
  have fresh : offset ∉ list := fun mem => ((members offset).mp mem).2 id mine
  refine ⟨_, threads.push fresh, fun i => ?_⟩
  rw [mem_cons, members]
  constructor
  · rintro (rfl | ⟨bound, absent⟩)
    · refine ⟨small, fun other mem => ?_⟩
      obtain ⟨old, foreign⟩ := mem_filter.mp mem
      exact absurd (unique _ old) (by simpa using foreign)
    · exact ⟨bound, fun other mem => absent other (mem_filter.mp mem).1⟩
  · rintro ⟨bound, absent⟩
    by_cases same : i = offset
    · exact .inl same
    · refine .inr ⟨bound, fun other mem => ?_⟩
      by_cases self : other = id
      · subst self
        have := (mine_iff only _).mp mem
        omega
      · exact absent _ (mem_filter.mpr ⟨mem, by simpa using self⟩)

end Free

end Free

def Sock.mayBind (sock : Sock) : Bool :=
  !(sock.shutRd && sock.shutWr) && !sock.bound && !sock.listening && !sock.connected

/-- The port of a `tcp_bind` is free by both of its indices and in the middle of its list; or `tcp_bind` refuses it
by the one index, and it is free by the other one or in the address of the socket already. -/
def Table.MayGive (s : Table) (port : Nat) (sock : Sock) : Prop :=
  if (s.portsSock port).isSome then s.portsSock (swapUint16 port) = none ∨ sock.localPort = some port
  else s.portsSock (swapUint16 port) = none ∧ (ephemeralStart ≤ swapUint16 port →
    s.ephemeralNext ≠ swapUint16 port - ephemeralStart ∧
      s.ephemeralPortsNext (swapUint16 port - ephemeralStart) ≠ freelistEnd)

/-- The socket is what it is closed as, and owns the port of its address alone, which is an ephemeral one, while
others of these are free; or it has no address and owns none. -/
def Table.MayRelease (s : Table) (id : Nat) (sock : Sock) : Prop :=
  sock.data = (if sock.listening then .listen else .conn) ∧
    match sock.localPort with
    | none => sock.listening = false ∧ s.owned.filter (fun own => own.1 = id) = []
    | some port => s.owned.filter (fun own => own.1 = id) = [(id, swapUint16 port)] ∧
        ephemeralStart ≤ swapUint16 port ∧ s.ephemeralNext ≠ freelistEnd

def Kept (s : Table) : PortEvent → Prop
  | .bind id ip port => ∀ sock ∈ s.socks id, sock.mayBind = true → ip = ipAny → s.MayGive port sock
  | .close id => ∀ sock ∈ s.socks id, s.MayRelease id sock
  | _ => True

variable {ip : Nat}

section Calls

variable {s : Table} {sock : Sock}

theorem swapUint16_lt (small : port < portNum) : swapUint16 port < portNum := by
  have high : (port <<< 8) % portNum < 2 ^ 16 := Nat.mod_lt _ (by decide)
  have low : port >>> 8 < 2 ^ 16 := (Nat.shiftRight_le port 8).trans_lt small
  exact Nat.or_lt_two_pow high low

theorem Table.setPortsSock_range {owner : Option Nat} (range : port < portNum) :
    s.setPortsSock port owner = .ok { s with portsSock := update s.portsSock port owner } :=
  if_pos range

theorem Table.Integral.none_of_unowned (integral : s.Integral) (unowned : ∀ other, (other, port) ∉ s.owned) :
    s.portsSock port = none := by
  cases taken : s.portsSock port with
  | none => rfl
  | some other => exact absurd ((integral.owners.owner _ port).mp taken) (unowned _)

theorem Table.setSock_live (sock : Sock) (other : Nat) (live : (s.socks other).isSome = true) :
    ((s.setSock id sock).socks other).isSome = true := by
  rw [setSock]
  dsimp only
  by_cases same : other = id
  · rw [same, update_self]
    rfl
  · rw [update_of_ne same]
    exact live

theorem Table.Integral.setSock (integral : s.Integral) (id : Nat) (sock : Sock) : (s.setSock id sock).Integral :=
  ⟨integral.owners.later fun other live => setSock_live sock other live, integral.free⟩

theorem tcpBindPort_keeps (integral : s.Integral) (live : (s.socks id).isSome = true) :
    ∃ port s', tcpBindPort id s = .ok (port, s') ∧ s'.Integral := by
  rw [tcpBindPort]
  by_cases empty : s.ephemeralNext = freelistEnd
  · rw [if_neg (not_not_intro empty)]
    exact ⟨_, s, rfl, integral⟩
  · obtain ⟨small, unowned, free⟩ := integral.free.pop empty id
    have range : s.ephemeralNext + ephemeralStart < portNum := by
      simp only [ephemeralNum, ephemeralEnd, ephemeralStart, portNum, portMax] at small ⊢
      omega
    have none := integral.none_of_unowned unowned
    rw [add_comm] at none
    rw [if_pos empty]
    dsimp only
    rw [setPortsSock_range range]
    dsimp only [ok_bind, error_bind]
    rw [getNext, if_pos small]
    exact ⟨_, _, rfl, integral.owners.give none range live, free⟩

variable {host : Nat}

theorem unlink_eq (small : offset < ephemeralNum) (next : s.ephemeralPortsNext offset < ephemeralNum)
    (prev : s.ephemeralPortsPrev offset < ephemeralNum) (other : s.ephemeralPortsNext offset ≠ offset) :
    unlink offset s = .ok { s with
      ephemeralPortsNext := update s.ephemeralPortsNext (s.ephemeralPortsPrev offset) (s.ephemeralPortsNext offset)
      ephemeralPortsPrev := update s.ephemeralPortsPrev (s.ephemeralPortsNext offset)
        (s.ephemeralPortsPrev offset) } := by
  simp only [unlink, getNext, getPrev, setPrev, setNext, if_pos small, if_pos next,
    update_of_ne other.symm, if_pos prev, ok_bind]

theorem offset_eq (small : host < portNum) (high : ephemeralStart ≤ host) :
    wsub host ephemeralStart % portNum = host - ephemeralStart := by
  have word : host < wordSize := small.trans (by decide)
  rw [wsub_eq high word, Nat.mod_eq_of_lt ((Nat.sub_le ..).trans_lt small)]

theorem takePort_free (range : host < portNum)
    (free : Free s.ephemeralPortsNext s.ephemeralPortsPrev s.ephemeralNext s.owned)
    (unowned : ∀ other, (other, host) ∉ s.owned)
    (middle : ephemeralStart ≤ host → s.ephemeralNext ≠ host - ephemeralStart ∧
      s.ephemeralPortsNext (host - ephemeralStart) ≠ freelistEnd) (id : Nat) :
    ∃ next prev, takePort id host s = .ok { s with
        portsSock := update s.portsSock host (some id)
        ephemeralPortsNext := next
        ephemeralPortsPrev := prev } ∧
      Free next prev s.ephemeralNext ((id, host) :: s.owned) := by
  rw [takePort]
  by_cases high : ephemeralStart ≤ host
  · obtain ⟨first, last⟩ := middle high
    have bound : host - ephemeralStart < ephemeralNum := by
      simp only [ephemeralNum, ephemeralEnd, ephemeralStart, portNum, portMax] at high range ⊢
      omega
    have port : ephemeralStart + (host - ephemeralStart) = host := by omega
    obtain ⟨next, prev, other, rest⟩ := free.unlink bound (by rwa [port]) first last id
    rw [port] at rest
    rw [offset_eq range high, if_pos high, if_neg first, setPortsSock_range range]
    have linked := unlink_eq (s := { s with portsSock := update s.portsSock host (some id) }) bound next prev other
    refine ⟨_, _, ?_, rest⟩
    rw [Except.bind, linked]
  · rw [if_neg high, setPortsSock_range range]
    exact ⟨_, _, rfl, free.other (not_le.mp high)⟩

theorem tcpBind_gives (integral : s.Integral) (live : (s.socks id).isSome = true) (small : port < portNum)
    (unseen : (s.portsSock port).isSome = false) (may : s.MayGive port sock) :
    ∃ s', tcpBind id ipAny port sock s = .ok (true, s') ∧ s'.Integral := by
  rw [Table.MayGive, unseen, if_neg Bool.false_ne_true] at may
  obtain ⟨none, middle⟩ := may
  have range := swapUint16_lt small
  have known := integral.setSock id { sock with localPort := some port }
  obtain ⟨next, prev, taken, free⟩ :=
    takePort_free range known.free (integral.owners.unowned none) middle id
  have owners := known.owners.give none range (setSock_live _ id live)
  have unrefused : ¬ ((s.setSock id { sock with localPort := some port }).portsSock port).isSome = true := by
    simp [setSock, unseen]
  rw [tcpBind, if_neg (not_not_intro rfl)]
  dsimp only
  rw [if_neg unrefused, taken]
  exact ⟨_, rfl, owners.later fun other => setSock_live _ other, free⟩

theorem tcpBind_refuses (seen : (s.portsSock port).isSome = true) :
    tcpBind id ipAny port sock s = .ok (false, s.setSock id { sock with localPort := some port }) := by
  have refused : ((s.setSock id { sock with localPort := some port }).portsSock port).isSome = true := seen
  rw [tcpBind, if_neg (not_not_intro rfl)]
  rw [if_pos refused]

theorem tcpBind_elsewhere (other : ip ≠ ipAny) : tcpBind id ip port sock s = .ok (false, s) := by
  rw [tcpBind, if_pos other]

theorem sockBind_eq :
    sockBind id ip port sock s = if sock.mayBind then tcpBind id ip port sock s else .ok (false, s) := by
  rw [sockBind, Sock.mayBind]
  cases sock.shutRd <;> cases sock.shutWr <;> cases sock.bound <;> cases sock.listening <;> cases sock.connected <;> rfl

theorem Table.setSock_same (here : s.socks id = some sock) : s.setSock id sock = s := by
  rw [setSock, ← here, update_eq_self]

variable (integral : s.Integral)
include integral

section

variable (here : s.socks id = some sock)
include here

theorem sockBind_keeps (small : port < portNum) (kept : Kept s (.bind id ip port)) :
    ∃ result s', sockBind id ip port sock s = .ok (result, s') ∧ s'.Integral := by
  rw [sockBind_eq]
  cases may : sock.mayBind with
  | false => exact ⟨false, s, rfl, integral⟩
  | true =>
    by_cases any : ip = ipAny
    · have give := kept sock here may any
      subst any
      cases seen : (s.portsSock port).isSome with
      | true => exact ⟨false, _, tcpBind_refuses seen, integral.setSock _ _⟩
      | false =>
        obtain ⟨s', given, after⟩ := tcpBind_gives integral (by rw [here]; rfl) small seen give
        exact ⟨true, s', given, after⟩
    · exact ⟨false, s, tcpBind_elsewhere any, integral⟩

theorem sockBind_owned (kept : Kept s (.bind id ip port)) {other : Nat} (owned : (other, swapUint16 port) ∈ s.owned) :
    sockBind id ip port sock s = .ok (false, s) := by
  have taken := (integral.owners.owner other _).mpr owned
  rw [sockBind_eq]
  cases may : sock.mayBind with
  | false => rfl
  | true =>
    rw [if_pos rfl]
    by_cases any : ip = ipAny
    · have give := kept sock here may any
      subst any
      rw [Table.MayGive, taken] at give
      cases seen : (s.portsSock port).isSome with
      | true =>
        rw [seen, if_pos rfl] at give
        have same : { sock with localPort := some port } = sock := by rw [← give.resolve_left nofun]
        rw [tcpBind_refuses seen, same, setSock_same here]
      | false =>
        rw [seen, if_neg Bool.false_ne_true] at give
        exact absurd give.1 nofun
    · exact tcpBind_elsewhere any

theorem sockConnect_keeps : ∃ s', sockConnect id sock s = .ok s' ∧ s'.Integral := by
  rw [sockConnect]
  split
  · exact ⟨s, rfl, integral⟩
  · rw [tcpConnect]
    split
    · exact ⟨_, rfl, integral.setSock _ _⟩
    · obtain ⟨port, s', given, after⟩ := tcpBindPort_keeps integral (by rw [here]; rfl)
      rw [given]
      exact ⟨_, rfl, after.setSock _ _⟩

theorem sockListen_keeps : ∃ s', sockListen id sock s = .ok s' ∧ s'.Integral := by
  rw [sockListen]
  split
  · exact ⟨s, rfl, integral⟩
  · rw [tcpListen]
    split
    · exact ⟨_, rfl, integral.setSock _ _⟩
    · obtain ⟨port, s', given, after⟩ := tcpBindPort_keeps integral (by rw [here]; rfl)
      rw [given]
      exact ⟨_, rfl, after.setSock _ _⟩

end

omit integral in
theorem tcpUnbindPort_eq (swapped : swapUint16 port = host) (range : host < portNum)
    (split : host = ephemeralStart + offset) (small : offset < ephemeralNum) (head : s.ephemeralNext < ephemeralNum) :
    tcpUnbindPort port s = .ok { s with
      portsSock := update s.portsSock host none
      ephemeralPortsNext := update s.ephemeralPortsNext offset s.ephemeralNext
      ephemeralPortsPrev := update s.ephemeralPortsPrev s.ephemeralNext offset
      ephemeralNext := offset } := by
  have word : host < wordSize := range.trans (by decide)
  have index : wsub host ephemeralStart = offset := by
    rw [wsub_eq (by omega) word]
    omega
  rw [tcpUnbindPort, swapped, index, setPortsSock_range range]
  dsimp only [bind, Except.bind]
  rw [setPrev, if_pos head]
  dsimp only
  rw [setNext, if_pos small]
  rfl

theorem sockClose_keeps (may : s.MayRelease id sock) :
    ∃ s', sockClose id sock s = .ok s' ∧ s'.Integral := by
  obtain ⟨data, release⟩ := may
  rw [sockClose, tcpClose, data]
  cases address : sock.localPort with
  | none =>
    rw [address] at release
    obtain ⟨connection, none⟩ := release
    rw [connection]
    refine ⟨_, rfl, integral.owners.depart none, ?_⟩
    rw [filter_others none]
    exact integral.free
  | some =>
    rw [address] at release
    obtain ⟨only, high, nonempty⟩ := release
    have mine := (mine_iff only _).mpr rfl
    have range := integral.owners.range id _ mine
    obtain ⟨offset, split⟩ := Nat.exists_eq_add_of_le high
    have small : offset < ephemeralNum := by
      rw [split] at range
      simp only [ephemeralNum, ephemeralEnd, ephemeralStart, portNum, portMax] at range ⊢
      omega
    have head := (integral.free.pop nonempty id).1
    have closed := tcpUnbindPort_eq rfl range split small head
    have unique : ∀ other, (other, ephemeralStart + offset) ∈ s.owned → other = id := by
      intro other mem
      rw [← split] at mem
      exact integral.owners.unique mem mine
    have free := integral.free.push small (split ▸ only) unique
    cases sock.listening with
    | false =>
      rw [if_neg Bool.false_ne_true, if_neg Bool.false_ne_true]
      dsimp only
      rw [closed]
      exact ⟨_, rfl, integral.owners.release only, free⟩
    | true =>
      rw [if_pos rfl, if_pos rfl]
      dsimp only
      rw [closed]
      exact ⟨_, rfl, integral.owners.release only, free⟩

end Calls

theorem elim_returns {s s' : Table} {sock : Sock} {call : Sock → Except Fault Table}
    (here : s.socks id = some sock) (ran : call sock = .ok s') : (s.socks id).elim (.ok s) call = .ok s' := by
  rw [here, elim_some, ran]

theorem ephemeralInit_free : Free ephemeralInit.ephemeralPortsNext ephemeralInit.ephemeralPortsPrev 0 [] := by
  refine ⟨range' 0 ephemeralNum, ⟨?_, ?_, nodup_range'⟩, fun i => ?_⟩
  · refine threads_range _ 0 (fun i _ bound => ?_) (fun _ => ?_) nofun
    · exact if_neg (by omega)
    · rw [zero_add, ephemeralInit]
      dsimp only
      rw [if_pos rfl]
  · refine isChain_range' .. |>.imp ?_
    intro i j next
    subst next
    rw [ephemeralInit]
    dsimp only
    rw [if_neg (Nat.succ_ne_zero i), Nat.add_sub_cancel]
  · simp

theorem Table.Integral.init : ephemeralInit.Integral :=
  ⟨⟨fun _ _ => iff_of_false nofun nofun, nofun, nofun⟩, ephemeralInit_free⟩

theorem Table.Integral.step {s : Table} {event : PortEvent} (integral : s.Integral) (kept : Kept s event)
    (enabled : ports.enabled event s = true) : ∃ s', ports.perform event s = .ok s' ∧ s'.Integral := by
  cases event with
  | socket =>
    obtain ⟨owners, free⟩ := integral.setSock s.opened
      { localPort := none, data := .null, bound := false, listening := false, connected := false, shutRd := false,
        shutWr := false }
    exact ⟨_, rfl, owners, free⟩
  | bind =>
    obtain ⟨live, small⟩ := Bool.and_eq_true_iff.mp enabled
    obtain ⟨sock, here⟩ := isSome_iff_exists.mp live
    obtain ⟨result, s', ran, after⟩ := sockBind_keeps integral here (of_decide_eq_true small) kept
    refine ⟨s', elim_returns here ?_, after⟩
    rw [ran]
    rfl
  | connect =>
    obtain ⟨sock, here⟩ := isSome_iff_exists.mp enabled
    obtain ⟨s', ran, after⟩ := sockConnect_keeps integral here
    exact ⟨s', elim_returns here ran, after⟩
  | listen =>
    obtain ⟨sock, here⟩ := isSome_iff_exists.mp enabled
    obtain ⟨s', ran, after⟩ := sockListen_keeps integral here
    exact ⟨s', elim_returns here ran, after⟩
  | network =>
    obtain ⟨sock, here⟩ := isSome_iff_exists.mp enabled
    refine ⟨_, rfl, ?_⟩
    rw [here, elim_some]
    exact integral.setSock _ _
  | close =>
    obtain ⟨sock, here⟩ := isSome_iff_exists.mp enabled
    obtain ⟨s', ran, after⟩ := sockClose_keeps integral (kept sock here)
    exact ⟨s', elim_returns here ran, after⟩

/-- In a run whose calls meet the condition every port has at most one owner and the ephemeral ones without an
owner are in their list; no call uses an index that is out of range; and a port that has an owner is refused. -/
theorem ports_integral {s : Table} (path : ports.Reaches Kept ephemeralInit s) :
    s.Integral ∧ (∀ id other port, (id, port) ∈ s.owned → (other, port) ∈ s.owned → id = other) ∧
      (∀ event, Kept s event → ports.enabled event s = true → ∃ s', ports.perform event s = .ok s') ∧
      ∀ id ip port sock other, s.socks id = some sock → Kept s (.bind id ip port) →
        (other, swapUint16 port) ∈ s.owned → sockBind id ip port sock s = .ok (false, s) := by
  have integral : s.Integral := by
    refine path.preserves Table.Integral Table.Integral.init ?_
    intro before event after integral kept enabled ran
    obtain ⟨s', performed, holds⟩ := integral.step kept enabled
    rw [performed] at ran
    cases ran
    exact holds
  refine ⟨integral, fun id other port => integral.owners.unique, fun event kept enabled => ?_, ?_⟩
  · obtain ⟨s', performed, _⟩ := integral.step kept enabled
    exact ⟨s', performed⟩
  · intro id ip port sock other here kept owned
    exact sockBind_owned integral here kept owned

instance (s : Table) (port : Nat) (sock : Sock) : Decidable (s.MayGive port sock) :=
  inferInstanceAs (Decidable (ite _ _ _))

instance (s : Table) (id : Nat) (sock : Sock) : Decidable (s.MayRelease id sock) := by
  unfold Table.MayRelease
  cases sock.localPort <;> infer_instance

instance (s : Table) : DecidablePred (Kept s)
  | .bind _ _ _ | .close _ => inferInstanceAs (Decidable (∀ sock ∈ _, _))
  | .socket .. | .connect .. | .listen .. | .network .. => .isTrue trivial

theorem ports_integral_two : ∃ s, ports.Reaches Kept ephemeralInit s ∧ s.owned = [(1, 50000)] ∧ s.Integral := by
  obtain ⟨s, reached, owned⟩ : ∃ s, ports.Reaches Kept ephemeralInit s ∧ s.owned = [(1, 50000)] :=
    Machine.run_exists [.socket, .socket, .connect 0, .bind 1 0 (swapUint16 50000), .connect 1, .close 0]
      (by decide +kernel)
  exact ⟨s, reached, owned, (ports_integral reached).1⟩

/-- The port 80 is given to two sockets; and to release the port 80 indexes the lists of the ephemeral ports
out of range. -/
theorem ports_broken :
    (∃ s, ports.Reaches (fun _ _ => True) ephemeralInit s ∧ s.owned = [(1, 80), (0, 80)] ∧ ¬ s.Integral) ∧
    ∃ s, ports.Reaches (fun _ _ => True) ephemeralInit s ∧ ports.enabled (.close 0) s = true ∧
      ports.perform (.close 0) s = .error (.outOfBounds "ephemeral_ports_next" 4294918224) := by
  constructor
  · obtain ⟨s, reached, owned⟩ : ∃ s, ports.Reaches (fun _ _ => True) ephemeralInit s ∧ s.owned = [(1, 80), (0, 80)] :=
      Machine.run_exists [.socket, .socket, .bind 0 0 (swapUint16 80), .bind 1 0 (swapUint16 80)] (by decide +kernel)
    refine ⟨s, reached, owned, fun integral => ?_⟩
    have first : (0, 80) ∈ s.owned := by simp [owned]
    have second : (1, 80) ∈ s.owned := by simp [owned]
    exact absurd (integral.owners.unique first second) (by decide)
  · obtain ⟨s, reached, enabled, failed⟩ : ∃ s, ports.Reaches (fun _ _ => True) ephemeralInit s ∧
        ports.enabled (.close 0) s = true ∧ ((ports.perform (.close 0) s).map fun _ => ()) =
          .error (.outOfBounds "ephemeral_ports_next" 4294918224) :=
      Machine.run_exists [.socket, .bind 0 0 (swapUint16 80), .connect 0] (by decide +kernel)
    exact ⟨s, reached, enabled, map_fails failed⟩

end KOs.Net.Ports

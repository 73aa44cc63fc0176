import KOs.Arch.Spinlock
import Mathlib.Data.Fintype.Card

namespace KOs.Arch

open KOs.Common KOs.Data Processors List Place

/-! The spinlock lets one processor in at a time, in the order of the tickets. -/

variable {n : Nat}

def Place.owns : Place → Bool
  | .acquired => true
  | .claiming => true
  | .holding => true
  | .leaving => true
  | .releasing => true
  | _ => false

/-- With a ticket: waiting for the lock or having it. -/
def Place.inside : Place → Bool
  | .spinning _ => true
  | other => other.owns

def Place.claimed : Place → Bool
  | .holding => true
  | .leaving => true
  | _ => false

/-- The ticket a processor spins on, or the one that let it in. -/
def Processors.ticket (p : Processors n) (c : Fin n) : Option (BitVec 16) :=
  match p.place c with
  | .spinning ticket => some ticket
  | place => if place.owns then some p.head else none

/-- The holder as the owner of the lock leaves it. -/
def Processors.expected (p : Processors n) (c : Fin n) : BitVec 32 :=
  if (p.place c).claimed && p.percpuUp then number c else nobody

structure Line (p : Processors n) (queue waiting : List (Fin n)) : Prop where
  serves : Serves p.head p.tail p.ticket queue
  line : queue = waiting ∨ ∃ c, (p.place c).owns = true ∧ queue = c :: waiting
  spins : ∀ c ∈ waiting, ∃ ticket, p.place c = .spinning ticket
  order : p.ticketed = p.entered ++ waiting
  numbered : p.tail = BitVec.ofNat 16 p.ticketed.length
  tried : ∀ c old, p.place c = .tried old → headOf old = tailOf old

structure Holder (p : Processors n) : Prop where
  owner : ∀ c, (p.place c).owns = true → p.lock.holder = p.expected c
  free : (∀ c, (p.place c).owns = false) → p.lock.holder = nobody
  claiming : ∀ c, p.place c = .claiming → p.percpuUp = true

variable {p p' : Processors n} {queue waiting : List (Fin n)} {c d : Fin n}

theorem owns_of {place : Place} (here : p.place c = place) (owns : place.owns = true) : (p.place c).owns = true := by
  rw [here]
  exact owns

theorem ticket_owner (owns : (p.place c).owns = true) : p.ticket c = some p.head := by
  rw [ticket]
  cases place : p.place c with
  | outside | tried | spinning =>
    rw [place] at owns
    cases owns
  | _ => rfl

theorem unowned_of (absent : p.ticket c = none) : (p.place c).owns = false := by
  cases owns : (p.place c).owns with
  | false => rfl
  | true =>
    rw [ticket_owner owns] at absent
    cases absent

theorem moved_ne {place : Fin n → Place} {new other : Place} (here : (if d = c then new else place d) = other)
    (apart : new ≠ other) : place d = other := by
  split at here
  · exact absurd here apart
  · exact here

theorem ticket_congr (place : p'.place c = p.place c) (head : p'.head = p.head) :
    p'.ticket c = p.ticket c := by
  simp only [ticket, place, head]

theorem ticket_isSome (p : Processors n) (c : Fin n) :
    (p.ticket c).isSome = (p.place c).inside := by
  rw [ticket]
  cases p.place c <;> rfl

section

variable (line : Line p queue waiting)
include line

theorem Line.front (owns : (p.place c).owns = true) :
    queue = c :: waiting := by
  obtain ⟨rest, front⟩ := line.serves.front (ticket_owner owns)
  rcases line.line with same | ⟨d, _, other⟩
  · have mem : c ∈ waiting := by
      rw [← same, front]
      exact mem_cons_self
    obtain ⟨ticket, spinning⟩ := line.spins c mem
    rw [spinning] at owns
    cases owns
  · have first : d = c := (cons.inj (other.symm.trans front)).1
    rw [other, first]

theorem Line.exclusive (owns : (p.place c).owns = true) (other : (p.place d).owns = true) : c = d :=
  (cons.inj ((line.front owns).symm.trans (line.front other))).1

theorem Line.alone (owns : (p.place c).owns = true) (ne : d ≠ c) :
    (p.place d).owns = false := by
  cases other : (p.place d).owns with
  | false => rfl
  | true => exact absurd (line.exclusive other owns) ne

theorem Line.unowned (free : p.head = p.tail) (c : Fin n) :
    (p.place c).owns = false := by
  cases owns : (p.place c).owns with
  | false => rfl
  | true =>
    have empty := line.serves.free_iff.mp free
    rw [line.front owns] at empty
    cases empty

theorem Line.waiting_nil (free : p.head = p.tail) : waiting = [] := by
  have empty := line.serves.free_iff.mp free
  rcases line.line with same | ⟨c, _, other⟩
  · rw [← same]
    exact empty
  · rw [other] at empty
    cases empty

theorem Line.moved (holder : BitVec 32) (place : Place)
    (ticket : ((p.setHolder holder).move c place).ticket c = p.ticket c) (owns : place.owns = (p.place c).owns)
    (unspun : ∀ ticket, p.place c ≠ .spinning ticket)
    (tried : ∀ old, place = .tried old → headOf old = tailOf old) :
    Line ((p.setHolder holder).move c place) queue waiting := by
  have placed : ∀ d, ((p.setHolder holder).move c place).place d = if d = c then place else p.place d := fun _ => rfl
  have tickets : ((p.setHolder holder).move c place).ticket = p.ticket := by
    funext d
    by_cases same : d = c
    · rw [same, ticket]
    · exact ticket_congr (by rw [placed, if_neg same]) rfl
  refine ⟨?_, ?_, ?_, line.order, line.numbered, ?_⟩
  · rw [tickets]
    exact line.serves
  · rcases line.line with same | ⟨d, owner, front⟩
    · exact .inl same
    · refine .inr ⟨d, ?_, front⟩
      rw [placed]
      split
      next same =>
        rw [owns, ← same]
        exact owner
      · exact owner
  · intro d mem
    obtain ⟨own, spinning⟩ := line.spins d mem
    refine ⟨own, ?_⟩
    rw [placed, if_neg]
    · exact spinning
    · intro same
      rw [same] at spinning
      exact unspun own spinning
  · intro d old here
    rw [placed] at here
    split at here
    · exact tried old here
    · exact line.tried d old here

theorem Line.ownerMoved (holder : BitVec 32) (place : Place) (before : (p.place c).owns = true)
    (after : place.owns = true) : Line ((p.setHolder holder).move c place) queue waiting := by
  refine line.moved _ _ ?_ (after.trans before.symm) ?_ ?_
  · rw [ticket_owner before]
    exact ticket_owner (owns_of (if_pos rfl) after)
  · intro _ spinning
    rw [spinning] at before
    cases before
  · intro old tried
    rw [tried] at after
    cases after

theorem Holder.ownerMoved (stored : BitVec 32) (place : Place) (before : (p.place c).owns = true)
    (after : place.owns = true) (holder : stored = ((p.setHolder stored).move c place).expected c)
    (claiming : place = .claiming → p.percpuUp = true) : Holder ((p.setHolder stored).move c place) := by
  have placed : ∀ d, ((p.setHolder stored).move c place).place d = if d = c then place else p.place d := fun _ => rfl
  refine ⟨?_, ?_, ?_⟩
  · intro d owns
    by_cases same : d = c
    · rw [same]
      exact holder
    · rw [placed, if_neg same, line.alone before same] at owns
      cases owns
  · intro nobodyOwns
    have impossible := nobodyOwns c
    rw [placed, if_pos rfl, after] at impossible
    cases impossible
  · intro d place'
    rw [placed] at place'
    split at place'
    · exact claiming place'
    next ne =>
      have other := line.alone before ne
      rw [place'] at other
      cases other

end

theorem Holder.unowned (holder : Holder p) (place : Place)
    (placed : ∀ d, p'.place d = if d = c then place else p.place d)
    (same : p'.lock.holder = p.lock.holder) (percpuUp : p'.percpuUp = p.percpuUp)
    (before : (p.place c).owns = false) (after : place.owns = false) : Holder p' := by
  have owns : ∀ d, (p'.place d).owns = (p.place d).owns := by
    intro d
    rw [placed]
    split
    next here =>
      rw [after, here, before]
    · rfl
  refine ⟨?_, ?_, ?_⟩
  · intro d owner
    have ne : d ≠ c := by
      intro here
      rw [owns, here, before] at owner
      cases owner
    rw [owns] at owner
    rw [same, holder.owner d owner, expected, expected, placed, if_neg ne, percpuUp]
  · intro nobodyOwns
    rw [same]
    exact holder.free fun d => (owns d).symm.trans (nobodyOwns d)
  · intro d place'
    rw [placed] at place'
    rw [percpuUp]
    split at place'
    · rw [place'] at after
      cases after
    · exact holder.claiming d place'

theorem Line.room (line : Line p queue waiting) (small : n < 2 ^ 16) (absent : p.ticket c = none) :
    queue.length + 1 < 2 ^ 16 := by
  have fresh : c ∉ queue := by
    rw [line.serves.mem, absent]
    simp
  have bound := (nodup_cons.mpr ⟨fresh, line.serves.nodup⟩).length_le_card
  rw [Fintype.card_fin, length_cons] at bound
  exact bound.trans_lt small

variable {raw : BitVec 32}

theorem Line.queued (line : Line p queue waiting) (absent : p.ticket c = none) (room : queue.length + 1 < 2 ^ 16)
    (head : headOf raw = p.head) (tail : tailOf raw = p.tail + 1#16) :
    Line (((p.setRaw raw).gotTicket c).move c (.spinning p.tail)) (queue ++ [c]) (waiting ++ [c]) := by
  refine ⟨?_, ?_, ?_, ?_, ?_, ?_⟩
  · show Serves (headOf raw) (tailOf raw) _ _
    rw [head, tail]
    refine line.serves.join absent room ?_
    intro d
    split
    next same =>
      simp [ticket, move, same]
    next ne =>
      exact ticket_congr (by simp [move, gotTicket, setRaw, ne]) head
  · rcases line.line with same | ⟨d, owns, front⟩
    · exact .inl (by rw [same])
    · refine .inr ⟨d, ?_, by rw [front, cons_append]⟩
      have ne : d ≠ c := by
        rintro rfl
        rw [unowned_of absent] at owns
        cases owns
      simpa [move, gotTicket, setRaw, ne] using owns
  · intro d mem
    by_cases same : d = c
    · exact ⟨p.tail, by simp [move, same]⟩
    · have older : d ∈ waiting := by simpa [same] using mem
      obtain ⟨ticket, spinning⟩ := line.spins d older
      exact ⟨ticket, by simpa [move, gotTicket, setRaw, same] using spinning⟩
  · show p.ticketed ++ [c] = p.entered ++ (waiting ++ [c])
    rw [line.order, append_assoc]
  · show tailOf raw = BitVec.ofNat 16 (p.ticketed ++ [c]).length
    rw [tail, line.numbered, length_append, length_singleton, BitVec.ofNat_add]
  · exact fun d old here => line.tried d old (moved_ne here nofun)

theorem Holder.queued (holder : Holder p) (raw : BitVec 32) (ticket : BitVec 16) (unowned : (p.place c).owns = false) :
    Holder (((p.setRaw raw).gotTicket c).move c (.spinning ticket)) :=
  holder.unowned (.spinning _) (fun _ => rfl) rfl rfl unowned rfl

theorem Line.served (line : Line p queue waiting) (spinning : p.place c = .spinning p.head) :
    ∃ rest, waiting = c :: rest ∧ (∀ d, (p.place d).owns = false) ∧ Line (p.gotLock c) (c :: rest) rest := by
  have own : p.ticket c = some p.head := by simp [ticket, spinning]
  obtain ⟨rest, front⟩ := line.serves.front own
  have nobodyOwns : ∀ d, (p.place d).owns = false := by
    intro d
    cases owns : (p.place d).owns with
    | false => rfl
    | true =>
      have first : d = c := (cons.inj ((line.front owns).symm.trans front)).1
      rw [first, spinning] at owns
      cases owns
  have same : queue = waiting := by
    rcases line.line with same | ⟨d, owns, _⟩
    · exact same
    · rw [nobodyOwns d] at owns
      cases owns
  have content : waiting = c :: rest := same.symm.trans front
  have apart : c ∉ rest := by
    have distinct := line.serves.nodup
    rw [front] at distinct
    exact (nodup_cons.mp distinct).1
  refine ⟨rest, content, nobodyOwns, ?_⟩
  have tickets : (p.gotLock c).ticket = p.ticket := by
    funext d
    by_cases here : d = c
    · have owns : ((p.gotLock c).place d).owns = true := by simp [gotLock, move, here, owns]
      rw [ticket_owner owns, here, own]
      rfl
    · exact ticket_congr (by simp [gotLock, move, here]) rfl
  refine ⟨?_, .inr ⟨c, ?_, rfl⟩, ?_, ?_, line.numbered, ?_⟩
  · rw [tickets, ← front]
    exact line.serves
  · simp [gotLock, move, owns]
  · intro d mem
    have ne : d ≠ c := fun here => apart (here ▸ mem)
    obtain ⟨ticket, spins⟩ := line.spins d (content ▸ mem_cons_of_mem c mem)
    exact ⟨ticket, by simpa [gotLock, move, ne] using spins⟩
  · show p.ticketed = p.entered ++ [c] ++ rest
    rw [line.order, content, append_assoc, singleton_append]
  · exact fun d old here => line.tried d old (moved_ne here nofun)

theorem Holder.served (holder : Holder p) (nobodyOwns : ∀ d, (p.place d).owns = false) :
    Holder (p.gotLock c) := by
  have none : p.lock.holder = nobody := holder.free nobodyOwns
  refine ⟨?_, fun _ => none, ?_⟩
  · intro d owns
    by_cases same : d = c
    · show p.lock.holder = _
      simp [none, expected, gotLock, move, same, claimed]
    · simp [gotLock, move, same, nobodyOwns d] at owns
  · exact fun d here => holder.claiming d (moved_ne here nofun)

theorem Line.taken (line : Line p queue waiting) (absent : p.ticket c = none) (free : p.head = p.tail)
    (head : headOf raw = p.head) (tail : tailOf raw = p.tail + 1#16) :
    Line (((p.setRaw raw).gotTicket c).gotLock c) [c] [] := by
  rw [line.serves.free_iff.mp free, line.waiting_nil free] at line
  have joined := line.queued absent (by simp) head tail
  have first : (((p.setRaw raw).gotTicket c).move c (.spinning p.tail)).place c = .spinning (headOf raw) := by
    simp [move, head, free]
  obtain ⟨rest, content, _, served⟩ := joined.served first
  cases content
  have same : (((p.setRaw raw).gotTicket c).move c (.spinning p.tail)).gotLock c =
      ((p.setRaw raw).gotTicket c).gotLock c := by
    simp only [gotLock, move]
    congr 1
    funext d
    split <;> rfl
  rwa [same] at served

theorem Holder.taken (raw : BitVec 32) (line : Line p queue waiting) (holder : Holder p) (free : p.head = p.tail) :
    Holder (((p.setRaw raw).gotTicket c).gotLock c) :=
  Holder.served { holder with } (line.unowned free)

theorem Line.released (line : Line p queue waiting) (owns : (p.place c).owns = true) (head : headOf raw = p.head + 1#16)
    (tail : tailOf raw = p.tail) :
    Line ((p.setRaw raw).move c .outside) waiting waiting := by
  have front := line.front owns
  have serves := line.serves
  rw [front] at serves
  have others : ∀ d ≠ c, ((p.setRaw raw).move c .outside).place d = p.place d := by
    intro d ne
    simp [move, setRaw, ne]
  refine ⟨?_, .inl rfl, ?_, line.order, ?_, ?_⟩
  · show Serves (headOf raw) (tailOf raw) _ _
    rw [head, tail]
    refine serves.leave ?_
    intro d
    split
    next same =>
      simp [ticket, move, same, Place.owns]
    next ne =>
      -- nobody else owns the lock, so no ticket but this one depends on the head
      have alone := line.alone owns ne
      rw [ticket, ticket, others d ne]
      cases place : p.place d with
      | spinning => rfl
      | _ =>
        rw [place] at alone
        simp [alone]
  · intro d mem
    obtain ⟨ticket, spinning⟩ := line.spins d mem
    refine ⟨ticket, ?_⟩
    rw [others d]
    · exact spinning
    · intro same
      rw [← same, spinning] at owns
      cases owns
  · show tailOf raw = BitVec.ofNat 16 p.ticketed.length
    rw [tail]
    exact line.numbered
  · exact fun d old here => line.tried d old (moved_ne here nofun)

theorem Holder.released (raw : BitVec 32) (line : Line p queue waiting) (holder : Holder p)
    (here : p.place c = .releasing) : Holder ((p.setRaw raw).move c .outside) := by
  have owns := owns_of here rfl
  have free : p.lock.holder = nobody := by
    rw [holder.owner c owns, expected, here]
    rfl
  refine ⟨?_, fun _ => free, ?_⟩
  · intro d owner
    by_cases same : d = c
    · simp [move, same, Place.owns] at owner
    · simp [move, setRaw, same, line.alone owns same] at owner
  · exact fun d here => holder.claiming d (moved_ne here nofun)

structure Exclusion (p : Processors n) : Prop where
  line : ∃ queue waiting, Line p queue waiting
  holder : Holder p

theorem exclusion_start (n : Nat) (percpuUp : Bool) : Exclusion (start n percpuUp) := by
  have tickets : (start n percpuUp).ticket = fun _ => none := by rfl
  have zero : headOf 0#32 = 0#16 ∧ tailOf 0#32 = 0#16 := by decide
  refine ⟨⟨[], [], ?_, .inl rfl, ?_, rfl, zero.2, ?_⟩, ?_, fun _ => rfl, ?_⟩
  · have eq : (start n percpuUp).tail = (start n percpuUp).head := zero.2.trans zero.1.symm
    rw [tickets, eq]
    exact serves_nil _
  · intro c mem
    cases mem
  · intro c old tried
    cases tried
  · intro c owns
    cases owns
  · intro c claiming
    cases claiming

theorem number_ne_nobody (small : n < 2 ^ 16) (c : Fin n) : number c ≠ nobody := by
  intro same
  have wide : c.val < 2 ^ 32 :=
    (Nat.lt_trans c.isLt small).trans (Nat.pow_lt_pow_right (by decide) (by decide))
  have own : (number c).toNat = c := by rw [number, BitVec.toNat_ofNat, Nat.mod_eq_of_lt wide]
  have last : c.val = 65535 := by
    rw [← own, same]
    rfl
  have bound : c.val < 65535 := c.isLt.trans_le (Nat.le_of_lt_succ small)
  exact absurd last (bound.ne)

section

variable (exclusion : Exclusion p)
include exclusion

theorem Exclusion.owner (stored : BitVec 32) (place : Place) (owns : (p.place c).owns = true) (after : place.owns = true)
    (holder : stored = ((p.setHolder stored).move c place).expected c)
    (claiming : place = .claiming → p.percpuUp = true) : Exclusion ((p.setHolder stored).move c place) := by
  obtain ⟨⟨queue, waiting, line⟩, _⟩ := exclusion
  exact ⟨⟨queue, waiting, line.ownerMoved _ _ owns after⟩,
    Holder.ownerMoved line _ _ owns after holder claiming⟩

theorem Exclusion.lock (small : n < 2 ^ 16) (outside : p.place c = .outside) :
    Exclusion (spinLock c p) := by
  obtain ⟨⟨queue, waiting, line⟩, holder⟩ := exclusion
  have head : headOf (addTail p.lock.raw) = p.head := headOf_addTail p.lock.raw
  have tail : tailOf (addTail p.lock.raw) = p.tail + 1#16 := tailOf_addTail p.lock.raw
  have absent : p.ticket c = none := by simp [ticket, outside, owns]
  by_cases free : p.head = p.tail
  · have gets : spinLock c p = ((p.setRaw _).gotTicket c).gotLock c := if_pos free
    rw [gets]
    exact ⟨⟨_, _, line.taken absent free head tail⟩, Holder.taken _ line holder free⟩
  · have waits : spinLock c p = ((p.setRaw _).gotTicket c).move c (.spinning p.tail) := if_neg free
    rw [waits]
    exact ⟨⟨_, _, line.queued absent (line.room small absent) head tail⟩, holder.queued _ p.tail (unowned_of absent)⟩

theorem Exclusion.spin : Exclusion (spinRead c p) := by
  rw [spinRead]
  cases place : p.place c with
  | spinning ticket =>
    by_cases served : p.head = ticket
    · obtain ⟨⟨queue, waiting, line⟩, holder⟩ := exclusion
      rw [← served] at place
      obtain ⟨rest, _, nobodyOwns, line'⟩ := line.served place
      simp only [served, if_true]
      exact ⟨⟨_, _, line'⟩, holder.served nobodyOwns⟩
    · simp only [served, if_false]
      exact exclusion
  | _ => exact exclusion

theorem Exclusion.trylock (outside : p.place c = .outside) :
    Exclusion (spinTrylock c p) := by
  rw [spinTrylock]
  split
  · exact exclusion
  next eq =>
    obtain ⟨⟨queue, waiting, line⟩, holder⟩ := exclusion
    have free : headOf p.lock.raw = tailOf p.lock.raw := not_not.mp eq
    refine ⟨⟨queue, waiting, ?_⟩, ?_⟩
    · refine line.moved p.lock.holder (.tried p.lock.raw) ?_ ?_ ?_ ?_
      · simp [ticket, move, outside, owns]
      · rw [outside]
        rfl
      · intro _ spinning
        rw [outside] at spinning
        cases spinning
      · intro old same
        cases same
        exact free
    · refine holder.unowned (.tried p.lock.raw) (fun _ => rfl) rfl rfl ?_ rfl
      rw [outside]
      rfl

theorem Exclusion.cmpxchg : Exclusion (spinCmpxchg c p) := by
  rw [spinCmpxchg]
  cases place : p.place c with
  | tried old =>
    obtain ⟨⟨queue, waiting, line⟩, holder⟩ := exclusion
    have absent : p.ticket c = none := by simp [Processors.ticket, place, owns]
    by_cases same : p.lock.raw = old
    · have free : p.head = p.tail := by
        rw [Processors.head, Processors.tail, same]
        exact line.tried c old place
      have head : headOf (addTail old) = p.head := by
        rw [headOf_addTail, ← same]
        rfl
      have tail : tailOf (addTail old) = p.tail + 1#16 := by
        rw [tailOf_addTail, ← same]
        rfl
      simp only [same, if_true]
      exact ⟨⟨_, _, line.taken absent free head tail⟩, Holder.taken _ line holder free⟩
    · simp only [same, if_false]
      have unowned := unowned_of absent
      refine ⟨⟨queue, waiting, ?_⟩, holder.unowned .outside (fun _ => rfl) rfl rfl unowned rfl⟩
      refine line.moved p.lock.holder .outside ?_ unowned.symm ?_ ?_
      · rw [absent]
        simp [Processors.ticket, move, owns]
      · intro _ spinning
        rw [place] at spinning
        cases spinning
      · intro old' tried
        cases tried
  | _ => exact exclusion

theorem Exclusion.checkFree (here : p.place c = .acquired) :
    ∃ after, spinCheckFree c p = .ok after ∧ Exclusion after := by
  have owns := owns_of here rfl
  have free : p.lock.holder = nobody := by
    rw [exclusion.holder.owner c owns, expected, here]
    rfl
  cases up : p.percpuUp with
  | true =>
    refine ⟨p.move c .claiming, ?_, ?_⟩
    · simp [spinCheckFree, up, free]
    · refine exclusion.owner p.lock.holder .claiming owns rfl ?_ fun _ => up
      simp [free, expected, move, Place.claimed]
  | false =>
    refine ⟨p.move c .holding, ?_, ?_⟩
    · simp [spinCheckFree, up]
    · refine exclusion.owner p.lock.holder .holding owns rfl ?_ Place.noConfusion
      simp [free, expected, move, setHolder, up]

theorem Exclusion.storeHolder (here : p.place c = .claiming) :
    Exclusion ((p.setHolder (number c)).move c .holding) := by
  have owns := owns_of here rfl
  have up := exclusion.holder.claiming c here
  refine exclusion.owner _ .holding owns rfl ?_ Place.noConfusion
  simp [expected, move, setHolder, Place.claimed, up]

theorem Exclusion.unlock (small : n < 2 ^ 16) (here : p.place c = .holding) :
    ∃ after, spinUnlock c p = .ok after ∧ Exclusion after := by
  have owns := owns_of here rfl
  have holder := exclusion.holder.owner c owns
  rw [expected, here] at holder
  cases up : p.percpuUp with
  | true =>
    have mine : p.lock.holder = number c := by simpa [Place.claimed, up] using holder
    refine ⟨p.move c .leaving, ?_, ?_⟩
    · simp [spinUnlock, up, mine, number_ne_nobody small c]
    · refine exclusion.owner p.lock.holder .leaving owns rfl ?_ Place.noConfusion
      simp [mine, expected, move, setHolder, Place.claimed, up]
  | false =>
    have free : p.lock.holder = nobody := by simpa [Place.claimed, up] using holder
    refine ⟨p.move c .releasing, ?_, ?_⟩
    · simp [spinUnlock, up]
    · refine exclusion.owner p.lock.holder .releasing owns rfl ?_ Place.noConfusion
      simp [free, expected, move, Place.claimed]

theorem Exclusion.clearHolder (here : p.place c = .leaving) :
    Exclusion ((p.setHolder nobody).move c .releasing) := by
  have owns := owns_of here rfl
  refine exclusion.owner _ .releasing owns rfl ?_ Place.noConfusion
  simp [expected, move, Place.claimed]

theorem Exclusion.incrementHead (here : p.place c = .releasing) :
    Exclusion ((p.setRaw (addHead p.lock.raw)).move c .outside) := by
  obtain ⟨⟨queue, waiting, line⟩, holder⟩ := exclusion
  have owns := owns_of here rfl
  exact ⟨⟨_, _, line.released owns (headOf_addHead p.lock.raw) (tailOf_addHead p.lock.raw)⟩,
    Holder.released _ line holder here⟩

theorem Exclusion.percpuUp (free : p.head = p.tail) :
    Exclusion { p with percpuUp := true } := by
  obtain ⟨⟨queue, waiting, line⟩, holder⟩ := exclusion
  have nobodyOwns := line.unowned free
  refine ⟨⟨queue, waiting, { line with }⟩, ?_, fun _ => holder.free nobodyOwns, fun _ _ => rfl⟩
  intro c owns
  have free' : (p.place c).owns = true := owns
  rw [nobodyOwns c] at free'
  cases free'

theorem Exclusion.step {access : Access n} (small : n < 2 ^ 16) (enabled : access.enabled p = true) :
    ∃ after, access.perform p = .ok after ∧ Exclusion after := by
  cases access with
  | lock => exact ⟨_, rfl, exclusion.lock small (of_decide_eq_true enabled)⟩
  | spin => exact ⟨_, rfl, exclusion.spin⟩
  | trylock => exact ⟨_, rfl, exclusion.trylock (of_decide_eq_true enabled)⟩
  | cmpxchg => exact ⟨_, rfl, exclusion.cmpxchg⟩
  | checkFree => exact exclusion.checkFree (of_decide_eq_true enabled)
  | storeHolder => exact ⟨_, rfl, exclusion.storeHolder (of_decide_eq_true enabled)⟩
  | unlock => exact exclusion.unlock small (of_decide_eq_true enabled)
  | clearHolder => exact ⟨_, rfl, exclusion.clearHolder (of_decide_eq_true enabled)⟩
  | incrementHead => exact ⟨_, rfl, exclusion.incrementHead (of_decide_eq_true enabled)⟩
  | percpuUp => exact ⟨_, rfl, exclusion.percpuUp (of_decide_eq_true enabled)⟩

end

theorem Exclusion.run {allowed : Processors n → Access n → Prop} (small : n < 2 ^ 16)
    (exclusion : Exclusion p) (path : (spinlocks n).Reaches allowed p p') : Exclusion p' := by
  refine path.preserves Exclusion exclusion ?_
  intro before access after holds _ enabled ran
  obtain ⟨result, performed, kept⟩ := holds.step small enabled
  cases performed.symm.trans ran
  exact kept

theorem Line.counts (line : Line p queue waiting) :
    (p.tail - p.head).toNat = (List.finRange n).countP (fun c => (p.place c).inside) := by
  rw [line.serves.count, countP_eq_length_filter]
  refine List.Perm.length_eq ?_
  refine (perm_ext_iff_of_nodup line.serves.nodup ((nodup_finRange n).filter _)).mpr ?_
  intro c
  rw [line.serves.mem, ticket_isSome, mem_filter]
  simp

theorem Line.numbers (line : Line p queue waiting) {i : Nat} (found : waiting[i]? = some c) :
    p.place c = .spinning (BitVec.ofNat 16 (p.entered.length + i)) := by
  obtain ⟨ticket, spinning⟩ := line.spins c (mem_of_getElem? found)
  have own : p.ticket c = some ticket := by simp [Processors.ticket, spinning]
  have total : p.head + BitVec.ofNat 16 queue.length =
      BitVec.ofNat 16 p.entered.length + BitVec.ofNat 16 waiting.length := by
    rw [← line.serves.tail, line.numbered, line.order, length_append, BitVec.ofNat_add]
  rw [spinning, BitVec.ofNat_add]
  rcases line.line with same | ⟨d, _, front⟩
  · have each := line.serves.each i c (same ▸ found)
    rw [own, Option.some.injEq] at each
    rw [same, BitVec.add_left_inj] at total
    rw [each, total]
  · have each := line.serves.each (i + 1) c (by rw [front]; exact found)
    rw [own, Option.some.injEq] at each
    have shifted : ∀ k, p.head + BitVec.ofNat 16 (k + 1) = p.head + 1#16 + BitVec.ofNat 16 k := by
      intro k
      rw [BitVec.ofNat_add, BitVec.add_comm (BitVec.ofNat 16 k), BitVec.add_assoc]
    rw [front, length_cons, shifted, BitVec.add_left_inj] at total
    rw [each, shifted, total]

/-- One processor has the lock at a time and gets it in the order of the tickets,
the tickets count those inside, and no access stops with an error. -/
structure LockGuarantee (p : Processors n) : Prop where
  exclusive : ∀ c d, (p.place c).owns = true → (p.place d).owns = true → c = d
  count : (p.tail - p.head).toNat = (List.finRange n).countP (fun c => (p.place c).inside)
  order : ∃ waiting, p.ticketed = p.entered ++ waiting ∧ ∀ (i : Nat) c, waiting[i]? = some c →
    p.place c = .spinning (BitVec.ofNat 16 (p.entered.length + i))
  safe : ∀ access : Access n, access.enabled p = true → ∃ after, access.perform p = .ok after

theorem spinlock_exclusion (small : n < 2 ^ 16) (percpuUp : Bool)
    (path : (spinlocks n).Reaches (fun _ _ => True) (start n percpuUp) p) : LockGuarantee p := by
  have exclusion := (exclusion_start n percpuUp).run small path
  obtain ⟨queue, waiting, line⟩ := exclusion.line
  refine ⟨fun c d owns other => line.exclusive owns other, line.counts, ⟨waiting, line.order, ?_⟩, ?_⟩
  · exact fun i c found => line.numbers found
  · intro access enabled
    obtain ⟨after, performed, _⟩ := exclusion.step small enabled
    exact ⟨after, performed⟩

theorem spinlock_exclusion_three : ∃ p : Processors 3,
    p.place 0 = .holding ∧ p.place 1 = .spinning 1#16 ∧ p.place 2 = .outside ∧ LockGuarantee p := by
  obtain ⟨p, reached, zero, one, two⟩ : ∃ p, (spinlocks 3).Reaches (fun _ _ => True) (start 3 true) p ∧
      p.place 0 = .holding ∧ p.place 1 = .spinning 1#16 ∧ p.place 2 = .outside :=
    Machine.run_exists [.trylock 0, .trylock 2, .cmpxchg 0, .checkFree 0, .lock 1, .storeHolder 0, .spin 1, .cmpxchg 2]
      (by decide)
  exact ⟨p, zero, one, two, spinlock_exclusion (by decide) true reached⟩

end KOs.Arch
